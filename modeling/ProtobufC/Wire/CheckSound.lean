import ProtobufC.Runtime.MessageCheck

/-! # What the serialisation walks read through NULL

`protobuf_c_message_get_packed_size` reads through a NULL element of an array of strings or of
sub-messages that is serialised, and through no other pointer; the other two walks read through none.
-/

namespace ProtobufC
open Library
set_option autoImplicit false

/-! ## The size -/

/-- The outcome of a size computation that meets these NULL pointers. -/
def EndsAt (nulls : List NullPointer) (r : Except Fault ℕ) : Prop :=
  if nulls = [] then ∃ size, r = .ok size else r = .error .null

theorem endsAt_ok (size : ℕ) : EndsAt [] (.ok size) := by
  rw [EndsAt, if_pos rfl]
  exact ⟨size, rfl⟩

theorem endsAt_null (p : NullPointer) : EndsAt [p] (.error .null) := by
  rw [EndsAt, if_neg (by simp)]

theorem EndsAt.bind {xs ys : List NullPointer} {r : Except Fault ℕ} {f : ℕ → Except Fault ℕ}
    (hr : EndsAt xs r) (hf : ∀ size, EndsAt ys (f size)) : EndsAt (xs ++ ys) (r >>= f) := by
  unfold EndsAt at hr
  split at hr
  · rename_i hnil
    obtain ⟨size, rfl⟩ := hr
    rw [hnil]
    exact hf size
  · rename_i hnull
    rw [hr, EndsAt, if_neg (by simp [hnull])]
    rfl

theorem EndsAt.map {xs : List NullPointer} {r : Except Fault ℕ} (f : ℕ → ℕ) (hr : EndsAt xs r) :
    EndsAt xs (r >>= fun size => .ok (f size)) := by
  have h := hr.bind fun size => (endsAt_ok (f size) : EndsAt [] _)
  rwa [List.append_nil] at h

section Size
variable {S : Schema} {sub : Message → Except Fault ℕ} {field : FieldDescriptor}

/-- What the walk assumes of its calls on sub-messages. -/
def SizesAt (S : Schema) (sub : Message → Except Fault ℕ) (cs : List Message) : Prop :=
  ∀ c ∈ cs, EndsAt (c.writtenNulls S) (sub c)

theorem endsAt_sumSizes {size : Value → Except Fault ℕ} {vs : List Value}
    (h : ∀ v ∈ vs, EndsAt (v.collect S writtenLeaf FieldDescriptor.writes field)
      (size v)) :
    EndsAt (vs.flatMap (Value.collect S writtenLeaf FieldDescriptor.writes field))
      (sumSizes size vs) := by
  have hfold : ∀ rv, EndsAt
      (vs.flatMap (Value.collect S writtenLeaf FieldDescriptor.writes field))
      (vs.foldlM (fun rv v => do return rv + (← size v)) rv) := by
    induction vs with
    | nil => exact fun rv => endsAt_ok rv
    | cons v vs ih =>
      intro rv
      rw [List.foldlM_cons, List.flatMap_cons]
      refine ((h v List.mem_cons_self).map (rv + ·)).bind ?_
      exact ih fun w hw => h w (List.mem_cons_of_mem _ hw)
  exact hfold 0

theorem endsAt_requiredField {v : Value} (hlabel : field.label ≠ .repeated)
    (hv : Value.HasType field.type v) (hsub : SizesAt S sub v.children) :
    EndsAt (v.collect S writtenLeaf FieldDescriptor.writes field)
      (requiredFieldGetPackedSize sub field v) := by
  have hnull : field.writtenNull = [] := if_neg hlabel
  unfold requiredFieldGetPackedSize
  generalize htype : field.type = type at hv
  cases type <;> cases v <;> try exact False.elim hv
  case string.string p =>
    cases p with
    | none =>
      change EndsAt field.writtenNull _
      rw [hnull]
      exact endsAt_ok _
    | some p => exact endsAt_ok _
  case message.message p =>
    cases p with
    | null =>
      change EndsAt field.writtenNull _
      rw [hnull]
      exact endsAt_ok _
    | ref addr msg =>
      have hmsg := hsub msg List.mem_cons_self
      rw [Value.collect]
      exact hmsg.map _
  all_goals exact endsAt_ok _

theorem endsAt_repeatedElements {a : CArray Value} (hlabel : field.label = .repeated)
    (hn : a.n = a.elems.length) (hvs : ∀ v ∈ a.elems, Value.HasType field.type v)
    (hsub : ∀ v ∈ a.elems, SizesAt S sub v.children) :
    EndsAt (a.elems.flatMap (Value.collect S writtenLeaf FieldDescriptor.writes field))
      (repeatedElementsSize sub field.type a.n a) := by
  have hnull : field.writtenNull = [.element] := if_pos hlabel
  have hload := CArray.load_self hn
  have hquiet : field.type ≠ .string → field.type ≠ .message →
      a.elems.flatMap (Value.collect S writtenLeaf FieldDescriptor.writes field) = [] := by
    intro hstring hmessage
    refine List.flatMap_eq_nil_iff.mpr fun v hv => ?_
    have ht := hvs v hv
    cases v with
    | string p => cases htype : field.type <;> simp_all [Value.HasType]
    | message p => cases htype : field.type <;> simp_all [Value.HasType]
    | _ => rfl
  unfold repeatedElementsSize
  generalize htype : field.type = type at hvs
  cases type
  case sfixed32 | fixed32 | float | sfixed64 | fixed64 | double | bool =>
    rw [hquiet (by simp [htype]) (by simp [htype])]
    exact endsAt_ok _
  all_goals
    simp only [hload, except_ok_bind]
    apply endsAt_sumSizes
    intro v hv
    have ht := hvs v hv
    cases v <;> try exact False.elim ht
  case string.string p =>
    cases p with
    | none =>
      change EndsAt field.writtenNull _
      rw [hnull]
      exact endsAt_null _
    | some p => exact endsAt_ok _
  case message.message p =>
    cases p with
    | null =>
      change EndsAt field.writtenNull _
      rw [hnull]
      exact endsAt_null _
    | ref addr msg =>
      have hmsg := hsub _ hv msg List.mem_cons_self
      rw [Value.collect]
      exact hmsg.map _
  all_goals exact endsAt_ok _

theorem endsAt_field {slot : Slot} (hs : SlotTyped field slot)
    (hsub : SizesAt S sub slot.children) :
    EndsAt (slot.collect S writtenLeaf FieldDescriptor.writes field)
      (fieldGetPackedSize sub field slot) := by
  cases slot with
  | singular has v =>
    obtain ⟨hlabel, hv, -⟩ := hs
    have hone := endsAt_requiredField hlabel hv hsub
    rw [Slot.collect]
    unfold FieldDescriptor.writes fieldGetPackedSize at *
    cases hl : field.label with
    | required =>
      rw [if_pos (by simp)]
      exact hone
    | optional =>
      simp only [optionalFieldGetPackedSize]
      by_cases hset : field.isSet has v = true
      · rw [if_pos (by simp [hset]), if_pos hset]
        exact hone
      · rw [if_neg (by simp [hset]), if_neg hset]
        exact endsAt_ok _
    | repeated => exact absurd hl hlabel
  | repeated a =>
    obtain ⟨hlabel, hn, -, hvs⟩ := hs
    have helements := endsAt_repeatedElements hlabel hn (fun v hv => (hvs v hv).1)
      (fun v hv c hc => hsub c (List.mem_flatMap.mpr ⟨v, hv, hc⟩))
    simp only [fieldGetPackedSize, hlabel, repeatedFieldGetPackedSize]
    rw [Slot.collect_repeated]
    by_cases h0 : a.n = 0
    · have hnil : a.elems = [] := List.length_eq_zero_iff.mp (by omega)
      rw [if_pos h0, hnil]
      exact endsAt_ok _
    · rw [if_neg h0]
      exact helements.map _

theorem endsAt_fields {fields : List FieldDescriptor} {slots : List Slot}
    (hs : List.Forall₂ SlotTyped fields slots) (hsub : ∀ s ∈ slots, SizesAt S sub s.children)
    (rv : ℕ) :
    EndsAt (collectSlots S writtenLeaf FieldDescriptor.writes fields slots)
      (fieldsGetPackedSize sub fields slots rv) := by
  induction hs generalizing rv with
  | nil => exact endsAt_ok rv
  | cons hfield _ ih =>
    rw [fieldsGetPackedSize, collectSlots]
    refine (endsAt_field hfield (hsub _ List.mem_cons_self)).bind fun size => ?_
    exact ih (fun s hs => hsub s (List.mem_cons_of_mem _ hs)) (rv + size)

/-- `protobuf_c_message_get_packed_size` reads through NULL exactly where an array that is serialised
has a NULL element. -/
theorem messageGetPackedSize_endsAt {m : Message} (hm : m.Typed S) :
    EndsAt (m.writtenNulls S) (messageGetPackedSize S m) := by
  refine layerRec_spec
    (P := fun m (r : Except Fault ℕ) => m.Typed S → EndsAt (m.writtenNulls S) r) ?_ m hm
  intro m sub hsub hm
  obtain ⟨_, hslots, hn, -, hchildren⟩ := hm
  have hsizes : ∀ s ∈ m.slots, SizesAt S sub s.children := by
    intro s hs c hc
    have hmem : c ∈ m.children := List.mem_flatMap.mpr ⟨s, hs, hc⟩
    exact hsub c (m.depth_children c hmem) (hchildren c hmem)
  have hfields := endsAt_fields hslots hsizes 0
  obtain ⟨d, slots, unknown⟩ := m
  unfold messageGetPackedSizeLayer
  rw [CArray.load_self hn]
  exact hfields.map _

end Size

/-! ## The bytes in an array -/

section Pack
variable {sub : Message → ℕ → Pack ℕ} {field : FieldDescriptor}

theorem never_writeAt (at_ : ℕ) (bs : List UInt8) : Never .null (writeAt at_ bs) := by
  intro buf h
  unfold writeAt at h
  split at h
  · exact absurd h (by simp)
  · exact absurd h (by simp)

theorem never_readAt (at_ n : ℕ) : Never .null (readAt at_ n) := by
  intro buf h
  unfold readAt at h
  split at h
  · exact absurd h (by simp)
  · exact absurd h (by simp)

theorem never_put (at_ : ℕ) (bs : List UInt8) : Never .null (put at_ bs) :=
  (never_writeAt at_ bs).bind fun _ => never_pure _

theorem never_memmove (dst src n : ℕ) : Never .null (memmove dst src n) :=
  (never_readAt src n).bind fun _ => never_writeAt dst _

theorem never_orByte (out : ℕ) (code : UInt8) : Never .null (orByte out code) :=
  (never_readAt out 1).bind fun _ => never_writeAt out _

theorem loadData_ne_null {len : ℕ} {data : Option (Ptr (List UInt8))}
    (h : len ≤ (data.elim [] Ptr.val).length) : loadData len data ≠ .error .null := by
  unfold loadData
  cases data with
  | none => simp_all
  | some p => simp_all

theorem never_stringPack (p : Option (Ptr (List UInt8))) (out : ℕ) :
    Never .null (stringPack p out) := by
  cases p with
  | none => exact never_put out [0]
  | some p => exact (never_put _ _).bind fun _ => (never_writeAt _ _).bind fun _ => never_pure _

theorem never_binaryDataPack {len : ℕ} {data : Option (Ptr (List UInt8))}
    (hr : (Value.bytes len data).Readable) (out : ℕ) : Never .null (binaryDataPack len data out) := by
  refine (never_put _ _).bind fun rv => ?_
  refine Never.require (loadData_ne_null hr) fun bytes _ => ?_
  exact (never_writeAt _ _).bind fun _ => never_pure _

theorem never_prefixedMessagePack {p : MessagePtr} (out : ℕ)
    (hsub : ∀ c ∈ (Value.message p).children, ∀ out, Never .null (sub c out)) :
    Never .null (prefixedMessagePack sub p out) := by
  cases p with
  | null => exact never_put out [0]
  | ref addr msg =>
    refine (hsub msg List.mem_cons_self _).bind fun rv => ?_
    have htail : Never .null (do
        let n ← put out (uint32Pack (UInt32.ofNat rv))
        return n + rv) := (never_put _ _).bind fun _ => never_pure _
    by_cases hmoved : uint32Size (UInt32.ofNat rv) ≠ 1
    · simp only [if_pos hmoved]
      exact (never_memmove _ _ _).bind fun _ => htail
    · simp only [if_neg hmoved]
      exact htail

theorem loads_ne_null (v : Value) : v.loadWord32 ≠ .error .null ∧ v.loadWord64 ≠ .error .null ∧
    v.loadBoolean ≠ .error .null ∧ v.loadString ≠ .error .null ∧ v.loadBytes ≠ .error .null ∧
    v.loadMessage ≠ .error .null := by
  cases v <;> simp [Value.loadWord32, Value.loadWord64, Value.loadBoolean, Value.loadString,
    Value.loadBytes, Value.loadMessage]

theorem never_requiredFieldPack {v : Value} (hr : v.Readable)
    (hsub : ∀ c ∈ v.children, ∀ out, Never .null (sub c out)) (out : ℕ) :
    Never .null (requiredFieldPack sub field v out) := by
  obtain ⟨hword32, hword64, hboolean, hstring, hbytes, hmessage⟩ := loads_ne_null v
  unfold requiredFieldPack
  refine (never_put _ _).bind fun rv => ?_
  cases field.type
  all_goals refine (never_orByte _ _).bind fun _ => ?_
  case string =>
    refine Never.require hstring fun p _ => ?_
    exact (never_stringPack p _).bind fun n => never_pure _
  case bytes =>
    refine Never.require hbytes fun r hload => ?_
    cases v with
    | bytes len data =>
      obtain rfl : (len, data) = r := Except.ok.inj hload
      exact (never_binaryDataPack hr _).bind fun n => never_pure _
    | _ => exact absurd hload (by simp [Value.loadBytes])
  case message =>
    refine Never.require hmessage fun p hload => ?_
    cases v with
    | message p' =>
      obtain rfl : p' = p := Except.ok.inj hload
      exact (never_prefixedMessagePack _ hsub).bind fun n => never_pure _
    | _ => exact absurd hload (by simp [Value.loadMessage])
  all_goals
    first
      | exact Never.require hword32 fun w _ => (never_put _ _).bind fun n => never_pure _
      | exact Never.require hword64 fun w _ => (never_put _ _).bind fun n => never_pure _
      | exact Never.require hboolean fun w _ => (never_put _ _).bind fun n => never_pure _

theorem never_packLoop {pack : Value → Except Fault (List UInt8)}
    (hpack : ∀ v, pack v ≠ .error .null) (vs : List Value) (payloadAt : ℕ) :
    Never .null (packLoop pack vs payloadAt) := by
  induction vs generalizing payloadAt with
  | nil => exact never_pure _
  | cons v vs ih =>
    exact Never.require (hpack v) fun bytes _ => (never_put _ _).bind fun n => ih _

theorem bind_ne_null {α β : Type} {x : Except Fault α} {f : α → β} (h : x ≠ .error .null) :
    (x >>= fun a => .ok (f a)) ≠ .error .null := by
  cases x with
  | error e => simpa using h
  | ok a => simp

theorem never_packPayload (type : FieldType) (vs : List Value) (payloadAt : ℕ) :
    Never .null (packPayload type vs payloadAt) := by
  unfold packPayload
  cases type
  case string | bytes | message => exact never_fault (by simp)
  all_goals
    apply never_packLoop
    intro v
    obtain ⟨hword32, hword64, hboolean, -⟩ := loads_ne_null v
    first
      | exact bind_ne_null hword32
      | exact bind_ne_null hword64
      | exact bind_ne_null hboolean

theorem load_ne_null {α : Type} (a : CArray α) (count : ℕ) : a.load count ≠ .error .null := by
  unfold CArray.load
  split
  · simp
  · simp

theorem CArray.mem_of_load {α : Type} {a : CArray α} {count : ℕ} {xs : List α}
    (h : a.load count = .ok xs) : ∀ x ∈ xs, x ∈ a.elems := by
  unfold CArray.load at h
  split at h
  · rw [← Except.ok.inj h]
    exact fun x hx => List.mem_of_mem_take hx
  · exact absurd h (by simp)

theorem never_requiredFieldPackLoop {vs : List Value} (hvs : ∀ v ∈ vs, v.Readable)
    (hsub : ∀ v ∈ vs, ∀ c ∈ v.children, ∀ out, Never .null (sub c out)) (out rv : ℕ) :
    Never .null (requiredFieldPackLoop sub field out vs rv) := by
  induction vs generalizing rv with
  | nil => exact never_pure _
  | cons v vs ih =>
    rw [requiredFieldPackLoop]
    refine (never_requiredFieldPack (hvs v List.mem_cons_self) (hsub v List.mem_cons_self) _).bind ?_
    exact fun n => ih (fun w hw => hvs w (List.mem_cons_of_mem _ hw))
      (fun w hw => hsub w (List.mem_cons_of_mem _ hw)) _

theorem never_repeatedFieldPack {a : CArray Value} (hvs : ∀ v ∈ a.elems, v.Readable)
    (hsub : ∀ v ∈ a.elems, ∀ c ∈ v.children, ∀ out, Never .null (sub c out)) (out : ℕ) :
    Never .null (repeatedFieldPack sub field a.n a out) := by
  unfold repeatedFieldPack
  refine Never.ite ?_ ?_
  · refine Never.ite (never_pure _) ?_
    refine (never_put _ _).bind fun len_start => (never_orByte _ _).bind fun _ => ?_
    refine Never.require (load_ne_null a _) fun vs _ => ?_
    refine (never_packPayload _ _ _).bind fun payload_at => ?_
    have htail : ∀ header_len payload_len, Never .null (do
        let _ ← put (out + len_start) (uint32Pack (UInt32.ofNat payload_len))
        return header_len + payload_len) := fun _ _ => (never_put _ _).bind fun _ => never_pure _
    dsimp only
    refine Never.ite ?_ (htail _ _)
    refine Never.ite ?_ ?_
    · exact (never_fault (by simp)).bind fun _ => (never_memmove _ _ _).bind fun _ => htail _ _
    · exact (never_memmove _ _ _).bind fun _ => htail _ _
  · refine Never.require (load_ne_null a _) fun vs hload => ?_
    have hmem := CArray.mem_of_load hload
    exact never_requiredFieldPackLoop (fun v hv => hvs v (hmem v hv))
      (fun v hv => hsub v (hmem v hv)) _ _

theorem never_fieldPack {slot : Slot} (hs : SlotTyped field slot)
    (hsub : ∀ c ∈ slot.children, ∀ out, Never .null (sub c out)) (out : ℕ) :
    Never .null (fieldPack sub field slot out) := by
  unfold fieldPack
  cases slot with
  | singular has v =>
    obtain ⟨hlabel, -, hr⟩ := hs
    cases hl : field.label with
    | required => exact never_requiredFieldPack (hr (.inl hl)) hsub out
    | optional =>
      simp only [optionalFieldPack]
      by_cases hset : field.isSet has v = true
      · rw [if_pos hset]
        exact never_requiredFieldPack (hr (.inr hset)) hsub out
      · rw [if_neg hset]
        exact never_pure _
    | repeated => exact absurd hl hlabel
  | repeated a =>
    obtain ⟨hlabel, -, -, hvs⟩ := hs
    rw [hlabel]
    exact never_repeatedFieldPack (fun v hv => (hvs v hv).2)
      (fun v hv c hc => hsub c (List.mem_flatMap.mpr ⟨v, hv, hc⟩)) out

theorem never_fieldsPack {fields : List FieldDescriptor} {slots : List Slot}
    (hs : List.Forall₂ SlotTyped fields slots)
    (hsub : ∀ s ∈ slots, ∀ c ∈ s.children, ∀ out, Never .null (sub c out)) (out rv : ℕ) :
    Never .null (fieldsPack sub out fields slots rv) := by
  induction hs generalizing rv with
  | nil => exact never_pure _
  | cons hfield _ ih =>
    rw [fieldsPack]
    refine (never_fieldPack hfield (hsub _ List.mem_cons_self) _).bind fun n => ?_
    exact ih (fun s hs => hsub s (List.mem_cons_of_mem _ hs)) _

theorem never_unknownFieldsPack {us : List MessageUnknownField}
    (hus : ∀ u ∈ us, u.len ≤ (u.data.elim [] Ptr.val).length) (out rv : ℕ) :
    Never .null (unknownFieldsPack out us rv) := by
  induction us generalizing rv with
  | nil => exact never_pure _
  | cons u us ih =>
    have hone : ∀ at_, Never .null (unknownFieldPack u at_) := by
      intro at_
      refine (never_put _ _).bind fun _ => (never_orByte _ _).bind fun _ => ?_
      refine Never.require (loadData_ne_null (hus u List.mem_cons_self)) fun bytes _ => ?_
      exact (never_writeAt _ _).bind fun _ => never_pure _
    rw [unknownFieldsPack]
    exact (hone _).bind fun n => ih (fun w hw => hus w (List.mem_cons_of_mem _ hw)) _

theorem never_messagePack {S : Schema} {m : Message} (hm : m.Typed S) (out : ℕ) :
    Never .null (messagePack S m out) := by
  refine layerRec_spec (P := fun m (r : ℕ → Pack ℕ) => m.Typed S → ∀ out, Never .null (r out))
    ?_ m hm out
  intro m sub hsub hm out
  obtain ⟨_, hslots, hn, hunknown, hchildren⟩ := hm
  unfold messagePackLayer
  refine (never_fieldsPack hslots (fun s hs c hc => ?_) _ _).bind fun rv => ?_
  · have hmem : c ∈ m.children := List.mem_flatMap.mpr ⟨s, hs, hc⟩
    exact hsub c (m.depth_children c hmem) (hchildren c hmem)
  · rw [CArray.load_self hn]
    exact never_unknownFieldsPack hunknown _ _

end Pack

/-! ## The bytes in a buffer -/

section PackToBuffer
variable {β η : Type} {A : Allocator η} {append : Append β η} {field : FieldDescriptor}
  {sub : Message → Run (BufferSimple × η) ℕ}

theorem Never.onHeap {α : Type} {e : Fault} {x : Run η α} (hx : Never e x) :
    Never e (onHeap x : Run (β × η) α) := by
  intro s h
  obtain ⟨b, heap⟩ := s
  simp only [ProtobufC.onHeap] at h
  cases hr : x heap with
  | error e' =>
    rw [hr] at h
    exact hx heap (hr.trans (congrArg Except.error (Except.error.inj h)))
  | ok r =>
    rw [hr] at h
    exact absurd h (by simp)

theorem Never.withSimpleBuffer {α : Type} {e : Fault} {x : Run (BufferSimple × η) α}
    (hx : Never e x) (simple : BufferSimple) :
    Never e (withSimpleBuffer x simple : Run (β × η) (α × BufferSimple)) := by
  intro s h
  obtain ⟨b, heap⟩ := s
  simp only [ProtobufC.withSimpleBuffer] at h
  cases hr : x (simple, heap) with
  | error e' =>
    rw [hr] at h
    exact hx (simple, heap) (hr.trans (congrArg Except.error (Except.error.inj h)))
  | ok r =>
    rw [hr] at h
    exact absurd h (by simp)

theorem never_doAlloc (size : ℕ) : Never .null (A.doAlloc size) := by
  intro s h
  unfold Allocator.doAlloc at h
  split at h
  · exact absurd h (by simp)
  · split at h
    · exact absurd h (by simp)
    · exact absurd h (by simp)

theorem never_freePtr (p : Option Addr) : Never .null (A.freePtr p) := by
  intro s h
  cases p with
  | none => exact never_pure _ s h
  | some addr =>
    cases addr with
    | static k => exact never_fault (by simp) s h
    | block b =>
      simp only [Allocator.freePtr] at h
      split at h
      · exact absurd h (by simp)
      · exact absurd h (by simp)

theorem never_bufferSimpleReserve (newLen : ℕ) :
    Never .null (bufferSimpleReserve A newLen) := by
  refine never_get.bind fun s => ?_
  refine Never.ite (never_pure _) ?_
  cases growLoop newLen (newLen + 1) (s.1.alloced * 2) with
  | none => exact never_fault (by simp)
  | some new_alloced =>
    refine (Never.onHeap (never_doAlloc _)).bind fun new_data => ?_
    cases new_data with
    | none => exact never_pure _
    | some new_data =>
      refine (Never.onHeap (Never.ite (never_freePtr _) (never_pure _))).bind fun _ => ?_
      exact (never_modify _).bind fun _ => never_pure _

theorem never_bufferSimpleAppend (len : ℕ) (data : List UInt8) :
    Never .null (bufferSimpleAppend A len data) := by
  refine never_get.bind fun s => (never_bufferSimpleReserve _).bind fun room => ?_
  refine Never.ite ?_ (never_pure _)
  refine Never.require ?_ fun bytes _ => never_modify _
  split
  · simp
  · simp

section Target
variable (happend : ∀ len data, Never .null (append len data))
include happend

theorem never_appendScratch (size : ℕ) (bytes : List UInt8) :
    Never .null (appendScratch append size bytes) := by
  refine Never.require ?_ fun scratch _ => (happend _ _).bind fun _ => never_pure _
  unfold scratchBytes
  split
  · simp
  · simp

theorem never_requiredFieldPackToBuffer {v : Value}
    (hsub : ∀ c ∈ v.children, Never .null (sub c)) :
    Never .null (requiredFieldPackToBuffer A append sub field v) := by
  obtain ⟨hword32, hword64, hboolean, hstring, hbytes, hmessage⟩ := loads_ne_null v
  have hscratch := fun size bytes => never_appendScratch happend size bytes
  unfold requiredFieldPackToBuffer
  cases field.type
  case string | bytes =>
    first
      | refine Never.require hstring fun p _ => ?_
      | refine Never.require hbytes fun p _ => ?_
    exact (hscratch _ _).bind fun rv => (happend _ _).bind fun _ => never_pure _
  case message =>
    refine Never.require hmessage fun p hload => ?_
    have htail : ∀ (sublen : ℕ) (simple_buffer : BufferSimple) (scratch : List UInt8),
        Never .null (do
          let rv ← appendScratch append 20 scratch
          append sublen simple_buffer.data
          onHeap (bufferSimpleClear A simple_buffer)
          return rv + sublen) := fun _ _ _ =>
      (hscratch _ _).bind fun rv => (happend _ _).bind fun _ =>
        (Never.onHeap (Never.ite (never_freePtr _) (never_pure _))).bind fun _ => never_pure _
    cases v with
    | message p' =>
      obtain rfl : p' = p := Except.ok.inj hload
      cases p' with
      | null => exact (never_pure _).bind fun r => htail r.1 r.2 _
      | ref addr msg =>
        exact (Never.withSimpleBuffer (hsub msg List.mem_cons_self) _).bind fun r => htail r.1 r.2 _
    | _ => exact absurd hload (by simp [Value.loadMessage])
  all_goals
    first
      | exact Never.require hword32 fun w _ => hscratch _ _
      | exact Never.require hword64 fun w _ => hscratch _ _
      | exact Never.require hboolean fun w _ => hscratch _ _

theorem never_appendLoop {pack : Value → Except Fault (List UInt8)}
    (hpack : ∀ v, pack v ≠ .error .null) (vs : List Value) (rv : ℕ) :
    Never .null (appendLoop append pack vs rv) := by
  induction vs generalizing rv with
  | nil => exact never_pure _
  | cons v vs ih =>
    exact Never.require (hpack v) fun bytes _ =>
      (never_appendScratch happend _ _).bind fun len => ih _

omit happend in
theorem sumSizes_ne_null {size : Value → Except Fault ℕ} (hsize : ∀ v, size v ≠ .error .null)
    (vs : List Value) : sumSizes size vs ≠ .error .null := by
  unfold sumSizes
  generalize 0 = rv
  induction vs generalizing rv with
  | nil => simp
  | cons v vs ih =>
    rw [List.foldlM_cons]
    cases hv : size v with
    | error e => simpa [hv] using hsize v
    | ok n => exact ih (rv + n)

omit happend in
theorem getPackedPayloadLength_ne_null (type : FieldType) (count : ℕ) (vs : List Value) :
    getPackedPayloadLength type count vs ≠ .error .null := by
  apply bind_ne_null
  unfold packedElementsLength
  cases type
  case sfixed32 | fixed32 | float | sfixed64 | fixed64 | double | bool => simp
  case string | bytes | message => simp [throw, throwThe, MonadExceptOf.throw]
  all_goals
    apply sumSizes_ne_null
    intro v
    first
      | exact bind_ne_null (loads_ne_null v).1
      | exact bind_ne_null (loads_ne_null v).2.1

omit happend in
theorem mapM_ne_null {pack : Value → Except Fault (List UInt8)}
    (hpack : ∀ v, pack v ≠ .error .null) (vs : List Value) : vs.mapM pack ≠ .error .null := by
  induction vs with
  | nil => simp
  | cons v vs ih =>
    rw [List.mapM_cons]
    cases hv : pack v with
    | error e => simpa [hv] using hpack v
    | ok bytes => exact bind_ne_null ih

theorem never_packBufferPackedPayload (type : FieldType) (count : ℕ) (vs : List Value) :
    Never .null (packBufferPackedPayload append type count vs) := by
  have hword32 : ∀ (v : Value) (f : UInt32 → List UInt8),
      (v.loadWord32 >>= fun w => .ok (f w)) ≠ .error .null := fun v f =>
    bind_ne_null (loads_ne_null v).1
  have hword64 : ∀ (v : Value) (f : UInt64 → List UInt8),
      (v.loadWord64 >>= fun w => .ok (f w)) ≠ .error .null := fun v f =>
    bind_ne_null (loads_ne_null v).2.1
  have hboolean : ∀ (v : Value) (f : Int32 → List UInt8),
      (v.loadBoolean >>= fun w => .ok (f w)) ≠ .error .null := fun v f =>
    bind_ne_null (loads_ne_null v).2.2.1
  unfold packBufferPackedPayload
  cases type
  case string | bytes | message => exact never_fault (by simp)
  case sfixed32 | fixed32 | float =>
    refine Never.require (bind_ne_null (mapM_ne_null (fun v => hword32 v _) vs)) fun array _ => ?_
    exact (happend _ _).bind fun _ => never_pure _
  case sfixed64 | fixed64 | double =>
    refine Never.require (bind_ne_null (mapM_ne_null (fun v => hword64 v _) vs)) fun array _ => ?_
    exact (happend _ _).bind fun _ => never_pure _
  case bool =>
    exact (never_appendLoop happend (fun v => hboolean v _) vs 0).bind fun _ => never_pure _
  all_goals
    first
      | exact never_appendLoop happend (fun v => hword32 v _) vs 0
      | exact never_appendLoop happend (fun v => hword64 v _) vs 0

theorem never_requiredFieldPackToBufferLoop {vs : List Value}
    (hsub : ∀ v ∈ vs, ∀ c ∈ v.children, Never .null (sub c)) (rv : ℕ) :
    Never .null (requiredFieldPackToBufferLoop A append sub field vs rv) := by
  induction vs generalizing rv with
  | nil => exact never_pure _
  | cons v vs ih =>
    rw [requiredFieldPackToBufferLoop]
    refine (never_requiredFieldPackToBuffer happend (hsub v List.mem_cons_self)).bind fun n => ?_
    exact ih (fun w hw => hsub w (List.mem_cons_of_mem _ hw)) _

theorem never_repeatedFieldPackToBuffer {a : CArray Value} (count : ℕ)
    (hsub : ∀ v ∈ a.elems, ∀ c ∈ v.children, Never .null (sub c)) :
    Never .null (repeatedFieldPackToBuffer A append sub field count a) := by
  unfold repeatedFieldPackToBuffer
  refine Never.ite (never_pure _) ?_
  refine Never.require (load_ne_null a _) fun vs hload => ?_
  refine Never.ite ?_ ?_
  · refine Never.require (getPackedPayloadLength_ne_null _ _ _) fun payload_len _ => ?_
    refine (never_appendScratch happend _ _).bind fun rv => ?_
    refine (never_packBufferPackedPayload happend _ _ _).bind fun tmp => ?_
    refine Never.ite ?_ (never_pure _)
    exact (never_fault (by simp)).bind fun _ => never_pure _
  · exact never_requiredFieldPackToBufferLoop happend
      (fun v hv => hsub v (CArray.mem_of_load hload v hv)) _

theorem never_fieldPackToBuffer {slot : Slot} (hsub : ∀ c ∈ slot.children, Never .null (sub c)) :
    Never .null (fieldPackToBuffer A append sub field slot) := by
  unfold fieldPackToBuffer
  cases slot with
  | singular has v =>
    cases field.label with
    | required => exact never_requiredFieldPackToBuffer happend hsub
    | optional => exact Never.ite (never_requiredFieldPackToBuffer happend hsub) (never_pure _)
    | repeated => exact never_fault (by simp)
  | repeated a =>
    cases field.label with
    | repeated =>
      exact never_repeatedFieldPackToBuffer happend _
        (fun v hv c hc => hsub c (List.mem_flatMap.mpr ⟨v, hv, hc⟩))
    | _ => exact never_fault (by simp)

theorem never_fieldsPackToBuffer {slots : List Slot}
    (hsub : ∀ s ∈ slots, ∀ c ∈ s.children, Never .null (sub c)) (fields : List FieldDescriptor)
    (rv : ℕ) : Never .null (fieldsPackToBuffer A append sub fields slots rv) := by
  induction fields generalizing slots rv with
  | nil => exact never_pure _
  | cons field fields ih =>
    cases slots with
    | nil => exact never_fault (by simp)
    | cons slot slots =>
      rw [fieldsPackToBuffer]
      refine (never_fieldPackToBuffer happend (hsub slot List.mem_cons_self)).bind fun n => ?_
      exact ih (fun s hs => hsub s (List.mem_cons_of_mem _ hs)) _

theorem never_unknownFieldsPackToBuffer (us : List MessageUnknownField) (rv : ℕ) :
    Never .null (unknownFieldsPackToBuffer append us rv) := by
  induction us generalizing rv with
  | nil => exact never_pure _
  | cons u us ih =>
    have hone : Never .null (unknownFieldPackToBuffer append u) :=
      (never_appendScratch happend _ _).bind fun _ => (happend _ _).bind fun _ => never_pure _
    rw [unknownFieldsPackToBuffer]
    exact hone.bind fun n => ih _

theorem never_messagePackToBufferLayer {S : Schema} {m : Message}
    (hsub : ∀ c ∈ m.children, Never .null (sub c)) :
    Never .null (messagePackToBufferLayer A append sub S m) := by
  unfold messagePackToBufferLayer
  refine (never_fieldsPackToBuffer happend (fun s hs c hc => ?_) _ _).bind fun rv => ?_
  · exact hsub c (List.mem_flatMap.mpr ⟨s, hs, hc⟩)
  · refine Never.require (load_ne_null _ _) fun us _ => ?_
    exact never_unknownFieldsPackToBuffer happend us rv

/-- `protobuf_c_message_pack_to_buffer` reads through no NULL pointer, unless `append` does. -/
theorem never_messagePackToBuffer (S : Schema) (m : Message) :
    Never .null (messagePackToBuffer A append S m) := by
  refine never_messagePackToBufferLayer happend fun c _ => ?_
  refine layerRec_spec (P := fun _ (r : Run (BufferSimple × η) ℕ) => Never .null r) ?_ c
  intro m sub hsub
  exact never_messagePackToBufferLayer never_bufferSimpleAppend
    fun c hc => hsub c (m.depth_children c hc)

end Target

end PackToBuffer

/-! ## What the check is worth -/

/-- The check returns, and the walks read through no NULL pointer of a message that it accepts. -/
def CheckSound (S : Schema) (m : Message) : Prop :=
  (∃ accepted, messageCheck S m = .ok accepted) ∧ (messageCheck S m = .ok true →
    messageGetPackedSize S m ≠ .error .null ∧ (∀ out, Never .null (messagePack S m out)) ∧
    ∀ {β η : Type} (A : Allocator η) (append : Append β η),
      (∀ len data, Never .null (append len data)) → Never .null (messagePackToBuffer A append S m))

theorem checkResult_ok {nulls : List NullPointer} :
    (∃ accepted, checkResult nulls = .ok accepted) ↔ nulls.head? ≠ some .element := by
  cases nulls with
  | nil => simp [checkResult]
  | cons p nulls =>
    cases p with
    | required => simp [checkResult]
    | element => simp [checkResult]

theorem checkResult_true {nulls : List NullPointer} :
    checkResult nulls = .ok true ↔ nulls = [] := by
  cases nulls with
  | nil => simp [checkResult]
  | cons p nulls =>
    cases p with
    | required => simp [checkResult]
    | element => simp [checkResult]

/-- The check is sound exactly when the first NULL that it comes to is that of a required member, or
there is none and no array that is serialised has a NULL in it either. -/
theorem messageCheck_sound_iff (S : Schema) (m : Message) (hm : m.Typed S) :
    CheckSound S m ↔ (m.checkedNulls S).head? ≠ some .element ∧
      (m.checkedNulls S = [] → m.writtenNulls S = []) := by
  have hsize := messageGetPackedSize_endsAt hm
  unfold EndsAt at hsize
  unfold CheckSound
  rw [messageCheck_eq hm, checkResult_ok, checkResult_true]
  refine and_congr_right fun _ => forall_congr' fun _ => ?_
  constructor
  · intro h
    by_contra hnull
    rw [if_neg hnull] at hsize
    exact h.1 hsize
  · intro hnil
    rw [if_pos hnil] at hsize
    obtain ⟨size, hsize⟩ := hsize
    exact ⟨by simp [hsize], never_messagePack hm, fun A append happend =>
      never_messagePackToBuffer happend S m⟩

/-- One `repeated string` or `repeated` message field with number 1. -/
def arraySchema (type : FieldType) : Schema :=
  Schema.uniform [.scalar .repeated type 1]
    (by simpa using FieldDescriptor.generated_scalar (by decide) Label.noConfusion) (by simp)

/-- A message with one element. -/
def arrayMessage (v : Value) : Message := .mk 0 [.repeated ⟨1, some (.static 0), 1, [v]⟩] .null

theorem arrayMessage_typed {type : FieldType} {v : Value} (hv : Value.HasType type v)
    (hr : v.Readable) (hchildren : v.children = []) : (arrayMessage v).Typed (arraySchema type) := by
  refine .intro _ (.cons ⟨rfl, rfl, (by norm_num : 1 < 2 ^ 31), ?_⟩ .nil) rfl ?_ ?_
  · intro w hw
    rw [List.mem_singleton.mp hw]
    exact ⟨hv, hr⟩
  · exact fun u hu => absurd hu List.not_mem_nil
  · intro c hc
    simp [arrayMessage, Message.children, Slot.children, hchildren] at hc

/-- `messageCheck_sound_iff` on a message of one string. -/
theorem messageCheck_sound_string :
    CheckSound (arraySchema .string) (arrayMessage (.string (some ⟨.static 1, [65, 0]⟩))) := by
  have htyped := @arrayMessage_typed .string (.string (some ⟨.static 1, [65, 0]⟩)) trivial trivial rfl
  exact (messageCheck_sound_iff _ _ htyped).mpr ⟨by decide, fun _ => rfl⟩

/-- A NULL string in an array is accepted and read through; a NULL sub-message in an array is read
through by the check. -/
theorem messageCheck_unsound :
    (messageCheck (arraySchema .string) (arrayMessage (.string none)) = .ok true ∧
      messageGetPackedSize (arraySchema .string) (arrayMessage (.string none)) = .error .null ∧
      ¬ CheckSound (arraySchema .string) (arrayMessage (.string none))) ∧
    messageCheck (arraySchema .message) (arrayMessage (.message .null)) = .error .null ∧
      ¬ CheckSound (arraySchema .message) (arrayMessage (.message .null)) := by
  have hcheck : messageCheck (arraySchema .string) (arrayMessage (.string none)) = .ok true := rfl
  have hsize : messageGetPackedSize (arraySchema .string) (arrayMessage (.string none)) =
      .error .null := rfl
  have hfault : messageCheck (arraySchema .message) (arrayMessage (.message .null)) =
      .error .null := rfl
  refine ⟨⟨hcheck, hsize, fun h => (h.2 hcheck).1 hsize⟩, hfault, fun h => ?_⟩
  obtain ⟨accepted, haccepted⟩ := h.1
  exact absurd (hfault.symm.trans haccepted) (by simp)

end ProtobufC
