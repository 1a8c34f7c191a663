import ProtobufC.Runtime.MessageCheck
import ProtobufC.Runtime.Ownership
import ProtobufC.Wire.Encode
import ProtobufC.Wire.RecordsByField

/-! # What a message says

The same message can lie in memory in many ways: a true boolean is any number but 0, a string goes on behind
its NUL, a field that is not set holds anything, an array has more room than it needs.  `Message.normal` is
the one that the decoder builds; two messages with the same normal form say the same.
-/

namespace ProtobufC
open Library
set_option autoImplicit false

/-- A value, with its blocks as a decoder allocates them. -/
def Value.normal (sub : Message → Message) : Value → Value
  | .word32 v => .word32 v
  | .word64 v => .word64 v
  | .boolean v => .boolean (if v ≠ 0 then 1 else 0)
  | .string str => .string (some ⟨.block 0, cString (str.elim [] Ptr.val) ++ [0]⟩)
  | .bytes len data =>
      .bytes ((data.elim [] Ptr.val).take len).length
        (if ((data.elim [] Ptr.val).take len).isEmpty then none
        else some ⟨.block 0, (data.elim [] Ptr.val).take len⟩)
  | .message (.ref _ m) => .message (.ref (.block 0) (sub m))
  | .message .null => .message .null

/-- A member: the initial one unless the field is written. -/
def Slot.normal (sub : Message → Message) (field : FieldDescriptor) : Slot → Slot
  | .singular has v =>
      if field.writes has v then
        .singular (if field.label = .optional ∧ field.quantifierOffset ≠ 0 then 1 else 0) (v.normal sub)
      else field.initSlot
  | .repeated a => .repeated (.ofList (a.elems.map (Value.normal sub)))

/-- An unknown field with a block of its own. -/
def MessageUnknownField.normal (u : MessageUnknownField) : MessageUnknownField :=
  (unknownRecord u).unknownField

/-- One level of the normal form. -/
def normalLayer (S : Schema) (sub : Message → Message) (m : Message) : Message :=
  .mk m.descriptor (List.zipWith (Slot.normal sub) (S.desc m.descriptor).fields m.slots)
    (.ofList (m.unknown.elems.map MessageUnknownField.normal))

/-- The message that a decoder builds for what `m` says. -/
def Message.normal (S : Schema) : Message → Message :=
  layerRec Message.depth (normalLayer S) (.mk 0 [] .null)

/-! ## Recursion -/

theorem Value.normal_congr {sub sub' : Message → Message} {v : Value}
    (h : ∀ c ∈ v.children, sub c = sub' c) : v.normal sub = v.normal sub' := by
  cases v with
  | message p =>
    cases p with
    | null => rfl
    | ref a m => rw [Value.normal, Value.normal, h m List.mem_cons_self]
  | word32 v | word64 v | boolean v | string str | bytes len data => rfl

theorem Slot.normal_congr {sub sub' : Message → Message} {field : FieldDescriptor} {s : Slot}
    (h : ∀ c ∈ s.writtenChildren field, sub c = sub' c) : s.normal sub field = s.normal sub' field := by
  cases s with
  | singular has v =>
    rw [Slot.normal, Slot.normal]
    by_cases hw : field.writes has v = true
    · rw [Value.normal_congr (Slot.writtenChildren_singular (of_decide_eq_true hw) ▸ h)]
    · rw [if_neg hw, if_neg hw]
  | repeated a =>
    have hmap : a.elems.map (Value.normal sub) = a.elems.map (Value.normal sub') :=
      List.map_congr_left fun v hv =>
        Value.normal_congr fun c hc => h c (List.mem_flatMap.mpr ⟨v, hv, hc⟩)
    rw [Slot.normal, Slot.normal, hmap]

theorem zipWith_congr {α β γ : Type} {f g : α → β → γ} (as : List α) {bs : List β}
    (h : ∀ b ∈ bs, ∀ a, f a b = g a b) : List.zipWith f as bs = List.zipWith g as bs := by
  induction as generalizing bs with
  | nil => rfl
  | cons a as ih =>
    cases bs with
    | nil => rfl
    | cons b bs =>
      rw [List.zipWith_cons_cons, List.zipWith_cons_cons, h b List.mem_cons_self,
        ih fun b' hb' => h b' (List.mem_cons_of_mem _ hb')]

theorem Message.normal_eq (S : Schema) (m : Message) :
    m.normal S = normalLayer S (Message.normal S) m := by
  refine layerRec_eq ?_ m
  intro m g g' h
  unfold normalLayer
  rw [zipWith_congr _ fun s hs field => Slot.normal_congr fun c hc =>
    h c (m.depth_children c (List.mem_flatMap.mpr ⟨s, hs, Slot.writtenChildren_subset hc⟩))]

@[simp] theorem Message.descriptor_normal (S : Schema) (m : Message) :
    (m.normal S).descriptor = m.descriptor := by
  rw [m.normal_eq]
  rfl

/-! ## The normal form of a normal form -/

theorem cString_append_zero (bs : List UInt8) : cString (cString bs ++ [0]) = cString bs := by
  unfold cString
  induction bs with
  | nil => rfl
  | cons b bs ih =>
    by_cases hb : b = 0
    · rw [List.takeWhile_cons_of_neg (by simp [hb])]
      rfl
    · rw [List.takeWhile_cons_of_pos (by simp [hb]), List.cons_append,
        List.takeWhile_cons_of_pos (by simp [hb]), ih]

theorem Value.normal_normal (sub sub' : Message → Message) (v : Value) :
    (v.normal sub).normal sub' = v.normal (sub' ∘ sub) := by
  cases v with
  | word32 v | word64 v => rfl
  | boolean v =>
    by_cases hv : v ≠ 0
    · have hone : ∀ f, (Value.boolean v).normal f = .boolean 1 := fun _ =>
        congrArg Value.boolean (if_pos hv)
      rw [hone, hone]
      rfl
    · have hzero : ∀ f, (Value.boolean v).normal f = .boolean 0 := fun _ =>
        congrArg Value.boolean (if_neg hv)
      rw [hzero, hzero]
      rfl
  | string str =>
    simp only [Value.normal, Option.elim_some, cString_append_zero]
  | bytes len data =>
    generalize hbs : (data.elim [] Ptr.val).take len = bs
    cases bs with
    | nil => simp only [Value.normal, hbs, List.isEmpty_nil, if_true, List.take_nil, Option.elim_none]
    | cons b bs =>
      simp only [Value.normal, hbs, List.isEmpty_cons, Bool.false_eq_true, if_false, Option.elim_some,
        List.take_length]
  | message p =>
    cases p with
    | null => rfl
    | ref a m => rfl

theorem FieldDescriptor.initSlot_singular {field : FieldDescriptor} (hlabel : field.label ≠ .repeated) :
    field.initSlot = .singular 0 (field.defaultValue.getD field.type.zero) := by
  unfold FieldDescriptor.initSlot
  cases hl : field.label with
  | repeated => exact absurd hl hlabel
  | required | optional => rfl

theorem FieldDescriptor.initSlot_repeated {field : FieldDescriptor} (hlabel : field.label = .repeated) :
    field.initSlot = .repeated (.ofList []) := by
  rw [FieldDescriptor.initSlot, hlabel]
  rfl

/-- The initial value of an optional member is not written. -/
theorem FieldDescriptor.not_writes_init {field : FieldDescriptor} (hlabel : field.label ≠ .required) :
    field.writes 0 (field.defaultValue.getD field.type.zero) = false := by
  refine decide_eq_false ?_
  rintro (hreq | hset)
  · exact hlabel hreq
  · unfold FieldDescriptor.isSet at hset
    split_ifs at hset with hpointer
    · rw [decide_eq_true_iff] at hset
      obtain ⟨hnone, hdefault⟩ := hset
      unfold FieldDescriptor.defaultPointer at hdefault
      cases hv : field.defaultValue with
      | none =>
        rw [hv, Option.getD_none] at hnone
        obtain htype | htype := hpointer
        · exact hnone (by rw [htype]; rfl)
        · exact hnone (by rw [htype]; rfl)
      | some v =>
        rw [hv] at hdefault
        exact hdefault rfl
    · simp at hset

theorem FieldDescriptor.normal_initSlot {field : FieldDescriptor} (hlabel : field.label ≠ .required)
    (sub : Message → Message) : field.initSlot.normal sub field = field.initSlot := by
  by_cases hrep : field.label = .repeated
  · rw [FieldDescriptor.initSlot_repeated hrep]
    rfl
  · have hnot := not_writes_init hlabel
    rw [FieldDescriptor.initSlot_singular hrep, Slot.normal, hnot, if_neg (by simp),
      FieldDescriptor.initSlot_singular hrep]

/-- A member that is written is written in its normal form. -/
theorem FieldDescriptor.Generated.writes_normal {field : FieldDescriptor} (hg : field.Generated)
    {has : Int32} {v : Value} (hv : Value.HasType field.type v) (hlabel : field.label ≠ .repeated)
    (hw : field.writes has v = true) (sub : Message → Message) :
    field.writes (if field.label = .optional ∧ field.quantifierOffset ≠ 0 then 1 else 0)
      (v.normal sub) = true := by
  refine decide_eq_true ?_
  obtain hreq | hset := of_decide_eq_true hw
  · exact .inl hreq
  by_cases hreq : field.label = .required
  · exact .inl hreq
  have hopt : field.label = .optional := by
    cases hl : field.label with
    | required => exact absurd hl hreq
    | repeated => exact absurd hl hlabel
    | optional => rfl
  have hhas := hg.has hopt
  refine .inr ?_
  unfold FieldDescriptor.isSet at hset ⊢
  split_ifs at hset ⊢ with hpointer hboth
  · -- a block is no default value
    have hblock : (v.normal sub).pointer = some (.block 0) := by
      rw [decide_eq_true_iff] at hset
      cases v with
      | string str => rfl
      | message p =>
        cases p with
        | null => exact absurd rfl hset.1
        | ref a m => rfl
      | word32 v | word64 v | boolean v | bytes len data =>
        obtain htype | htype := hpointer <;>
        · rw [htype] at hv
          exact False.elim hv
    rw [hblock, decide_eq_true_iff]
    refine ⟨by simp, fun hdefault => ?_⟩
    obtain ⟨k, hk⟩ := hg.defaultPointer_static hdefault.symm
    exact absurd hk (by simp)
  · rfl
  · exact absurd ⟨hopt, hhas.mpr ⟨fun h => hpointer (.inr h), fun h => hpointer (.inl h)⟩⟩ hboth

/-- Taking the normal form of a member twice. -/
theorem FieldDescriptor.Generated.normal_normal {field : FieldDescriptor} (hg : field.Generated)
    {slot : Slot} (hs : SlotPackable field slot) (sub sub' : Message → Message) :
    (slot.normal sub field).normal sub' field = slot.normal (sub' ∘ sub) field := by
  cases slot with
  | singular has v =>
    obtain ⟨hlabel, hv, -⟩ := hs
    by_cases hw : field.writes has v = true
    · have hw' := hg.writes_normal hv hlabel hw sub
      simp only [Slot.normal, if_pos hw, if_pos hw', Value.normal_normal]
    · have hreq : field.label ≠ .required := fun h => hw (decide_eq_true (.inl h))
      have hinit : ∀ f, (Slot.singular has v).normal f field = field.initSlot := fun _ => if_neg hw
      rw [hinit, hinit, FieldDescriptor.normal_initSlot hreq]
  | repeated a =>
    simp only [Slot.normal, CArray.ofList_elems, List.map_map, Function.comp_def, Value.normal_normal]

/-! ## What the decoder can give back -/

/-- A message is there, and of the type of the field. -/
def Value.ReadBack (field : FieldDescriptor) (v : Value) : Prop :=
  v ≠ .message .null ∧ ∀ c ∈ v.children, c.descriptor = field.descriptor

/-- What decoding needs of a message beside `Message.Packable`, at every level that is written. -/
inductive Message.Readable (S : Schema) : Message → Prop
  | intro (m : Message)
      (slots : List.Forall₂ (fun field slot => ∀ v ∈ slot.written field, v.ReadBack field)
        (S.desc m.descriptor).fields m.slots)
      (unknown : ∀ u ∈ m.unknown.elems, (unknownRecord u).WellFormed ∧
        ∀ f ∈ (S.desc m.descriptor).fields, f.id ≠ u.tag)
      (children : ∀ c ∈ m.writtenChildren S, Message.Readable S c) : Message.Readable S m

end ProtobufC
