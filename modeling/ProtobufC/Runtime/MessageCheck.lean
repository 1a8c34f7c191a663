import ProtobufC.Runtime.PackToBuffer
import ProtobufC.Wire.Encode
import ProtobufC.Runtime.Collect

/-! # `protobuf_c_message_check`

The check of a message for missing parts.  It reads the pointers of the message in the order of its
fields and stops at the first NULL: with FALSE at the one of a required member, with a read through it
at an element of an array of sub-messages.  `Message.checkedNulls` lists them in that order.
-/

namespace ProtobufC
open Library
set_option autoImplicit false

/-! ## The code -/

/-- `for (i = 0; i < n; i++) if (!protobuf_c_message_check (subs[i])) return FALSE;` -/
def checkLoop (sub : Message → Except Fault Bool) : List Value → Except Fault Bool
  | [] => .ok true
  | v :: vs => do
      let accepted ← match ← v.loadMessage with
        | .null => throw .null
        | .ref _ msg => sub msg
      if accepted then checkLoop sub vs else return false

/-- The body of the loop over the fields: `false` where it returns FALSE. -/
def fieldCheck (sub : Message → Except Fault Bool) (field : FieldDescriptor) (slot : Slot) :
    Except Fault Bool :=
  match field.type, field.label, slot with
  | .message, .required, .singular _ member => do
      match ← member.loadMessage with
      | .null => return false
      | .ref _ msg => sub msg
  | .message, .optional, .singular _ member => do
      match ← member.loadMessage with
      | .null => return true
      | .ref _ msg => sub msg
  | .message, .repeated, .repeated array => do
      -- the quantifier is read as an `unsigned`
      let subs ← array.load (array.n % 2 ^ 32)
      checkLoop sub subs
  | .message, _, _ => .error .access
  | .string, .required, .singular _ member => do
      let str ← member.loadString
      return str.isSome
  | .string, .required, .repeated _ => .error .access
  | _, _, _ => .ok true

/-- The loop over `message->descriptor->fields`. -/
def fieldsCheck (sub : Message → Except Fault Bool) :
    List FieldDescriptor → List Slot → Except Fault Bool
  | [], _ => .ok true
  | field :: fields, slot :: slots => do
      let accepted ← fieldCheck sub field slot
      if accepted then fieldsCheck sub fields slots else return false
  | _ :: _, [] => .error .access

/-- `protobuf_c_message_check` -/
def messageCheck (S : Schema) : Message → Except Fault Bool :=
  layerRec Message.depth
    (fun sub message => fieldsCheck sub (S.desc message.descriptor).fields message.slots)
    (.error .access)

/-! ## Messages with NULL pointers -/

/-- The member is stored as the field declares it; its pointers may be NULL. -/
def SlotTyped (field : FieldDescriptor) : Slot → Prop
  | .singular has v => field.label ≠ .repeated ∧ Value.HasType field.type v ∧
      (field.label = .required ∨ field.isSet has v → v.Readable)
  | .repeated a => field.label = .repeated ∧ a.n = a.elems.length ∧ a.n < 2 ^ 31 ∧
      ∀ v ∈ a.elems, Value.HasType field.type v ∧ v.Readable

/-- A message of the schema.  Its strings, its sub-messages and the elements of its arrays may be NULL. -/
inductive Message.Typed (S : Schema) : Message → Prop
  | intro (m : Message)
      (slots : List.Forall₂ SlotTyped (S.desc m.descriptor).fields m.slots)
      (unknown_n : m.unknown.n = m.unknown.elems.length)
      (unknown : ∀ u ∈ m.unknown.elems, u.len ≤ (u.data.elim [] Ptr.val).length)
      (children : ∀ c ∈ m.children, Message.Typed S c) : Message.Typed S m

/-- Where `protobuf_c_message_check` comes to a NULL. -/
inductive NullPointer
  | required
  | element
  deriving DecidableEq, Repr

/-- The NULL pointers of a field that stop the check. -/
def FieldDescriptor.checkedNull (field : FieldDescriptor) : List NullPointer :=
  match field.label, field.type with
  | .required, _ => [.required]
  | .repeated, .message => [.element]
  | _, _ => []

/-- A value that is a NULL pointer. -/
def Value.nullOf {α : Type} (null : List α) : Value → List α
  | .string none => null
  | .message .null => null
  | _ => []

def checkedLeaf (field : FieldDescriptor) (v : Value) : List NullPointer := v.nullOf field.checkedNull

/-- The NULL pointers that stop the check, in its order. -/
def Message.checkedNulls (S : Schema) (m : Message) : List NullPointer :=
  m.collect S checkedLeaf fun _ _ _ => true

/-- The NULL pointers of a field that its serialisation cannot do with. -/
def FieldDescriptor.writtenNull (field : FieldDescriptor) : List NullPointer :=
  if field.label = .repeated then [.element] else []

def writtenLeaf (field : FieldDescriptor) (v : Value) : List NullPointer := v.nullOf field.writtenNull

/-- The NULL elements of the arrays that are serialised. -/
def Message.writtenNulls (S : Schema) (m : Message) : List NullPointer :=
  m.collect S writtenLeaf FieldDescriptor.writes

/-! ## The check is decided by the first NULL -/

/-- The outcome of the check on the NULL pointers before it. -/
def checkResult : List NullPointer → Except Fault Bool
  | [] => .ok true
  | .required :: _ => .ok false
  | .element :: _ => .error .null

theorem checkResult_append (xs ys : List NullPointer) :
    checkResult (xs ++ ys) = do
      let accepted ← checkResult xs
      if accepted then checkResult ys else return false := by
  cases xs with
  | nil => rfl
  | cons x xs =>
    cases x with
    | required => rfl
    | element => rfl

section Check
variable {S : Schema} {sub : Message → Except Fault Bool} {field : FieldDescriptor}

/-- What the check assumes of its calls on sub-messages. -/
def ChecksChildren (S : Schema) (sub : Message → Except Fault Bool) (cs : List Message) : Prop :=
  ∀ c ∈ cs, sub c = checkResult (c.checkedNulls S)

theorem checkLoop_eq {vs : List Value} (htype : field.type = .message) (hlabel : field.label = .repeated)
    (hvs : ∀ v ∈ vs, Value.HasType field.type v)
    (hsub : ∀ v ∈ vs, ChecksChildren S sub v.children) :
    checkLoop sub vs =
      checkResult (vs.flatMap (Value.collect S checkedLeaf (fun _ _ _ => true) field)) := by
  induction vs with
  | nil => rfl
  | cons v vs ih =>
    have htail := ih (fun w hw => hvs w (List.mem_cons_of_mem _ hw))
      (fun w hw => hsub w (List.mem_cons_of_mem _ hw))
    have hv := hvs v List.mem_cons_self
    rw [htype] at hv
    cases v with
    | message p =>
      rw [checkLoop, List.flatMap_cons, checkResult_append, ← htail]
      cases p with
      | null =>
        rw [Value.collect, checkedLeaf, Value.nullOf, FieldDescriptor.checkedNull, hlabel, htype]
        · rfl
        · simp
      | ref addr msg =>
        have hmsg := hsub _ List.mem_cons_self msg List.mem_cons_self
        rw [Value.collect]
        simp only [Value.loadMessage, except_ok_bind, hmsg, Message.checkedNulls]
    | _ => exact False.elim hv

theorem fieldCheck_eq {slot : Slot} (hs : SlotTyped field slot)
    (hsub : ChecksChildren S sub slot.children) :
    fieldCheck sub field slot =
      checkResult (slot.collect S checkedLeaf (fun _ _ _ => true) field) := by
  cases slot with
  | singular has v =>
    obtain ⟨hlabel, hv, -⟩ := hs
    rw [Slot.collect, if_pos rfl]
    cases htype : field.type with
    | message =>
      rw [htype] at hv
      cases v with
      | message p =>
        cases p with
        | null =>
          have hcollect : (Value.message .null).collect S checkedLeaf (fun _ _ _ => true) field =
            field.checkedNull := rfl
          rw [hcollect, FieldDescriptor.checkedNull]
          cases hl : field.label with
          | required => simp only [fieldCheck, htype, hl]; rfl
          | optional => simp only [fieldCheck, htype, hl]; rfl
          | repeated => exact absurd hl hlabel
        | ref addr msg =>
          have hmsg := hsub msg List.mem_cons_self
          rw [Message.checkedNulls] at hmsg
          rw [Value.collect, ← hmsg]
          cases hl : field.label with
          | required => simp only [fieldCheck, htype, hl]; rfl
          | optional => simp only [fieldCheck, htype, hl]; rfl
          | repeated => exact absurd hl hlabel
      | _ => exact False.elim hv
    | string =>
      rw [htype] at hv
      cases v with
      | string p =>
        have hcollect : (Value.string p).collect S checkedLeaf (fun _ _ _ => true) field =
          (Value.string p).nullOf field.checkedNull := rfl
        rw [hcollect, FieldDescriptor.checkedNull]
        cases hl : field.label with
        | required =>
          cases p with
          | none => simp only [fieldCheck, htype, hl]; rfl
          | some p => simp only [fieldCheck, htype, hl]; rfl
        | optional =>
          cases p with
          | none => simp only [fieldCheck, htype, hl]; rfl
          | some p => simp only [fieldCheck, htype, hl]; rfl
        | repeated => exact absurd hl hlabel
      | _ => exact False.elim hv
    | _ =>
      -- neither pointer: nothing is looked at
      rw [htype] at hv
      have haccept : fieldCheck sub field (.singular has v) = .ok true := by
        unfold fieldCheck
        rw [htype]
      rw [haccept]
      cases v <;> first
        | exact False.elim hv
        | rfl
  | repeated a =>
    obtain ⟨hlabel, hn, hcount, hvs⟩ := hs
    rw [Slot.collect_repeated]
    cases htype : field.type with
    | message =>
      have hload : a.load (a.n % 2 ^ 32) = .ok a.elems := by
        rw [Nat.mod_eq_of_lt (by omega)]
        exact CArray.load_self hn
      rw [← checkLoop_eq htype hlabel (fun v hv => (hvs v hv).1)
        (fun v hv c hc => hsub c (List.mem_flatMap.mpr ⟨v, hv, hc⟩))]
      simp only [fieldCheck, htype, hlabel, hload, except_ok_bind]
    | _ =>
      -- the elements of the array are not looked at
      have hquiet : a.elems.flatMap (Value.collect S checkedLeaf (fun _ _ _ => true) field) = [] := by
        have hnull : field.checkedNull = [] := by
          rw [FieldDescriptor.checkedNull, hlabel, htype]
        refine List.flatMap_eq_nil_iff.mpr fun v hv => ?_
        have ht := (hvs v hv).1
        rw [htype] at ht
        cases v with
        | string p =>
          cases p with
          | none => exact hnull
          | some p => rfl
        | message p => exact False.elim ht
        | _ => rfl
      rw [hquiet]
      simp only [fieldCheck, htype, hlabel]
      rfl

theorem fieldsCheck_eq {fields : List FieldDescriptor} {slots : List Slot}
    (hs : List.Forall₂ SlotTyped fields slots)
    (hsub : ∀ s ∈ slots, ChecksChildren S sub s.children) :
    fieldsCheck sub fields slots =
      checkResult (collectSlots S checkedLeaf (fun _ _ _ => true) fields slots) := by
  induction hs with
  | nil => rfl
  | cons hfield _ ih =>
    rw [fieldsCheck, collectSlots, checkResult_append,
      fieldCheck_eq hfield (hsub _ List.mem_cons_self),
      ih fun s hs => hsub s (List.mem_cons_of_mem _ hs)]

end Check

/-- `protobuf_c_message_check` ends at the first NULL that it comes to. -/
theorem messageCheck_eq {S : Schema} {m : Message} (hm : m.Typed S) :
    messageCheck S m = checkResult (m.checkedNulls S) := by
  refine layerRec_spec
    (P := fun m (r : Except Fault Bool) => m.Typed S → r = checkResult (m.checkedNulls S)) ?_ m hm
  intro m sub hsub hm
  obtain ⟨_, hslots, -, -, hchildren⟩ := hm
  rw [fieldsCheck_eq hslots]
  · obtain ⟨d, slots, unknown⟩ := m
    rfl
  · intro s hs c hc
    have hmem : c ∈ m.children := List.mem_flatMap.mpr ⟨s, hs, hc⟩
    exact hsub c (m.depth_children c hmem) (hchildren c hmem)

end ProtobufC
