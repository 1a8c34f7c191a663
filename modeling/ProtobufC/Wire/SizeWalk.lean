import ProtobufC.Wire.Encode

/-! # `protobuf_c_message_get_packed_size` returns the length of the encoding -/

namespace ProtobufC
open Library
set_option autoImplicit false

variable {S : Schema} {sub : Message → Except Fault ℕ} {field : FieldDescriptor}

/-- What the walk assumes of its calls on sub-messages. -/
def SizesChildren (S : Schema) (sub : Message → Except Fault ℕ) (cs : List Message) : Prop :=
  ∀ c ∈ cs, sub c = .ok (c.encode S).length

theorem sumSizes_eq {size : Value → Except Fault ℕ} {g : Value → ℕ} {vs : List Value}
    (h : ∀ v ∈ vs, size v = .ok (g v)) : sumSizes size vs = .ok (vs.map g).sum := by
  have hfold : ∀ (vs : List Value) (rv : ℕ), (∀ v ∈ vs, size v = .ok (g v)) →
      vs.foldlM (fun rv v => do return rv + (← size v)) rv = .ok (rv + (vs.map g).sum) := by
    intro vs
    induction vs with
    | nil => intro rv _; rfl
    | cons v vs ih =>
      intro rv h
      rw [List.foldlM_cons, h v (by simp)]
      refine (ih (rv + g v) fun w hw => h w (by simp [hw])).trans ?_
      rw [List.map_cons, List.sum_cons, Nat.add_assoc]
  simpa [sumSizes] using hfold vs 0 h

/-! ## One field -/

theorem requiredFieldGetPackedSize_eq {v : Value} (hv : Value.HasType field.type v)
    (hr : v.Readable) (hsub : SizesChildren S sub v.children) :
    requiredFieldGetPackedSize sub field v =
      .ok (v.record (Message.encode S) field).bytes.length := by
  rw [length_bytes]
  unfold requiredFieldGetPackedSize Value.record Value.payload
  generalize field.type = type at hv ⊢
  cases type <;> cases v <;> try exact False.elim hv
  case string.string p =>
    cases p <;> simp [Value.loadString, strlen, isPackableType, Value.body, Nat.add_assoc]
  case bytes.bytes len p =>
    cases p with
    | none =>
      have : len = 0 := by simpa [Value.Readable] using hr
      simp [Value.loadBytes, isPackableType, Value.body, this]
    | some p =>
      have : len ≤ p.val.length := hr
      simp [Value.loadBytes, isPackableType, Value.body, this, Nat.add_assoc]
  case message.message p =>
    cases p with
    | null => simp [Value.loadMessage, isPackableType, Value.body]
    | ref a m =>
      have := hsub m (by simp [Value.children])
      simp [Value.loadMessage, isPackableType, Value.body, this, Nat.add_assoc]
  all_goals simp [scalarBytes, isPackableType, Value.loadWord32, Value.loadWord64]

theorem optionalFieldGetPackedSize_eq {has : Int32} {v : Value} (hv : Value.HasType field.type v)
    (hr : field.isSet has v → v.Readable) (hsub : field.isSet has v → SizesChildren S sub v.children) :
    optionalFieldGetPackedSize sub field has v =
      .ok ((if field.isSet has v then [v.record (Message.encode S) field] else []).flatMap
        Record.bytes).length := by
  unfold optionalFieldGetPackedSize
  by_cases hset : field.isSet has v
  · rw [if_pos hset, if_pos hset, requiredFieldGetPackedSize_eq hv (hr hset) (hsub hset)]
    simp
  · rw [if_neg hset, if_neg hset]
    simp

/-- The payload length of one element, as the loops of `repeated_field_get_packed_size` add it. -/
def payloadSize (S : Schema) (type : FieldType) (v : Value) : ℕ :=
  (v.payload (Message.encode S) type).length

theorem length_map_record (vs : List Value) :
    ((vs.map (Value.record (Message.encode S) field)).flatMap Record.bytes).length =
      getTagSize field.id * vs.length + (vs.map (payloadSize S field.type)).sum := by
  induction vs with
  | nil => simp
  | cons v vs ih =>
    rw [List.map_cons, List.flatMap_cons, List.length_append, ih, length_bytes, List.map_cons,
      List.sum_cons, List.length_cons]
    simp only [Value.record, payloadSize]
    ring

theorem length_packed {type : FieldType} (vs : List Value) (hp : isPackableType type = true) :
    (vs.flatMap (scalarBytes type)).length = (vs.map (payloadSize S type)).sum := by
  rw [List.length_flatMap]
  congr 1
  apply List.map_congr_left
  intro v _
  simp [payloadSize, Value.payload, hp]

theorem sum_payloadSize {type : FieldType} {vs : List Value} {k : ℕ}
    (h : ∀ v ∈ vs, payloadSize S type v = k) :
    (vs.map (payloadSize S type)).sum = k * vs.length := by
  rw [List.map_congr_left h]
  simp [Nat.mul_comm]

theorem repeatedElementsSize_eq {type : FieldType} {a : CArray Value} (hn : a.n = a.elems.length)
    (hvs : ∀ v ∈ a.elems, Value.HasType type v ∧ v.Readable ∧ v.NonNull)
    (hsub : ∀ v ∈ a.elems, SizesChildren S sub v.children) :
    repeatedElementsSize sub type a.n a = .ok (a.elems.map (payloadSize S type)).sum := by
  have hload := CArray.load_self hn
  unfold repeatedElementsSize
  cases type
  case sfixed32 | fixed32 | float =>
    rw [sum_payloadSize (k := 4), hn]
    · rfl
    · intro v hv
      cases v <;> first | exact False.elim (hvs _ hv).1 | rfl
  case sfixed64 | fixed64 | double =>
    rw [sum_payloadSize (k := 8), hn]
    · rfl
    · intro v hv
      cases v <;> first | exact False.elim (hvs _ hv).1 | rfl
  case bool =>
    rw [sum_payloadSize (k := 1), hn, one_mul]
    · rfl
    · intro v hv
      cases v <;> first | exact False.elim (hvs _ hv).1 | rfl
  all_goals
    simp only [hload, except_ok_bind]
    apply sumSizes_eq
    intro v hv
    obtain ⟨ht, hr, hnn⟩ := hvs v hv
    cases v <;> try exact False.elim ht
  case string.string p =>
    cases p with
    | none => exact absurd rfl hnn
    | some p =>
      simp [Value.loadString, strlen, payloadSize, Value.payload, isPackableType, Value.body]
  case bytes.bytes len p =>
    cases p with
    | none =>
      have : len = 0 := by simpa [Value.Readable] using hr
      simp [Value.loadBytes, payloadSize, Value.payload, isPackableType, Value.body, this]
    | some p =>
      have : len ≤ p.val.length := hr
      simp [Value.loadBytes, payloadSize, Value.payload, isPackableType, Value.body, this]
  case message.message p =>
    cases p with
    | null => exact absurd rfl hnn
    | ref b m =>
      have := hsub _ hv m (by simp [Value.children])
      simp [Value.loadMessage, payloadSize, Value.payload, isPackableType, Value.body, this]
  all_goals
    simp [scalarBytes, payloadSize, Value.payload, isPackableType, Value.loadWord32,
      Value.loadWord64]

theorem repeatedFieldGetPackedSize_eq {a : CArray Value} (hg : field.Generated)
    (ha : SlotPackable field (.repeated a))
    (hsub : SizesChildren S sub ((Slot.repeated a).writtenChildren field)) :
    repeatedFieldGetPackedSize sub field a.n a =
      .ok ((slotRecords (Message.encode S) field (.repeated a)).flatMap Record.bytes).length := by
  obtain ⟨hl, hn, hvs⟩ := ha
  unfold repeatedFieldGetPackedSize
  by_cases h0 : a.n = 0
  · have hnil : a.elems = [] := List.length_eq_zero_iff.mp (by omega)
    simp [slotRecords, h0, hnil]
  rw [if_neg h0, repeatedElementsSize_eq (S := S) hn hvs
    fun v hv c hc => hsub c (List.mem_flatMap.mpr ⟨v, hv, hc⟩)]
  simp only [except_ok_bind, except_pure, Except.ok.injEq, slotRecords]
  cases hp : field.packed with
  | true =>
    have hlen := length_packed (S := S) a.elems (hg.packed hp).2
    simp only [if_true, h0, if_false, List.flatMap_cons, List.flatMap_nil, List.append_nil,
      length_bytes, packedRecord, length_prefixed]
    rw [hlen]
    omega
  | false =>
    simp only [Bool.false_eq_true, if_false, length_map_record, Nat.add_zero, hn]

/-! ## Messages -/

theorem fieldGetPackedSize_eq {slot : Slot} (hg : field.Generated) (hs : SlotPackable field slot)
    (hsub : SizesChildren S sub (slot.writtenChildren field)) :
    fieldGetPackedSize sub field slot =
      .ok ((slotRecords (Message.encode S) field slot).flatMap Record.bytes).length := by
  unfold fieldGetPackedSize
  cases slot with
  | singular has v =>
    obtain ⟨hl, ht, hr⟩ := hs
    have hchildren : field.label = .required ∨ field.isSet has v → SizesChildren S sub v.children :=
      fun h => Slot.writtenChildren_singular h ▸ hsub
    cases hlabel : field.label with
    | required =>
      have := requiredFieldGetPackedSize_eq ht (hr (.inl hlabel)) (hchildren (.inl hlabel))
      simpa [slotRecords, hlabel] using this
    | optional =>
      have := optionalFieldGetPackedSize_eq ht (fun h => hr (.inr h)) fun h => hchildren (.inr h)
      simpa [slotRecords, hlabel] using this
    | repeated => exact absurd hlabel hl
  | repeated a =>
    have := repeatedFieldGetPackedSize_eq hg hs hsub
    simpa [hs.1] using this

theorem fieldsGetPackedSize_eq {fields : List FieldDescriptor} {slots : List Slot}
    (hg : ∀ f ∈ fields, f.Generated) (hs : List.Forall₂ SlotPackable fields slots)
    (hsub : ∀ p ∈ fields.zip slots, SizesChildren S sub (p.2.writtenChildren p.1)) (rv : ℕ) :
    fieldsGetPackedSize sub fields slots rv = .ok (rv +
      ((List.zipWith (slotRecords (Message.encode S)) fields slots).flatten.flatMap
        Record.bytes).length) := by
  induction hs generalizing rv with
  | nil => simp [fieldsGetPackedSize]
  | cons hfs _ ih =>
    rw [fieldsGetPackedSize, fieldGetPackedSize_eq (hg _ (by simp)) hfs (hsub (_, _) (by simp)),
      except_ok_bind, ih (fun f hf => hg f (by simp [hf])) (fun p hp => hsub p (by simp [hp])),
      List.zipWith_cons_cons, List.flatten_cons, List.flatMap_append, List.length_append,
      Nat.add_assoc]

theorem foldl_unknownSize {us : List MessageUnknownField}
    (h : ∀ u ∈ us, u.len ≤ (u.data.elim [] Ptr.val).length) (rv : ℕ) :
    us.foldl (fun rv u => rv + unknownFieldGetPackedSize u) rv =
      rv + ((us.map unknownRecord).flatMap Record.bytes).length := by
  induction us generalizing rv with
  | nil => simp
  | cons u us ih =>
    have hu : (unknownRecord u).payload.length = u.len := by
      rw [unknownRecord, List.length_take]
      exact Nat.min_eq_left (h u (by simp))
    rw [List.foldl_cons, ih fun w hw => h w (by simp [hw]), List.map_cons, List.flatMap_cons,
      List.length_append, length_bytes, hu]
    simp only [unknownFieldGetPackedSize, unknownRecord]
    omega

/-- `protobuf_c_message_get_packed_size` returns the length of the encoding. -/
theorem messageGetPackedSize_eq {m : Message} (hm : m.Packable S) :
    messageGetPackedSize S m = .ok (m.encode S).length := by
  refine layerRec_spec
    (P := fun m (r : Except Fault ℕ) => m.Packable S → r = .ok (m.encode S).length) ?_ m hm
  intro m sub hsub hm
  obtain ⟨_, hslots, hn, hunknown, hchildren⟩ := hm
  have hchild : ∀ p ∈ (S.desc m.descriptor).fields.zip m.slots,
      SizesChildren S sub (p.2.writtenChildren p.1) := by
    intro p hp c hc
    have hmem : c ∈ m.writtenChildren S := Message.mem_writtenChildren.mpr ⟨p, hp, hc⟩
    exact hsub c (m.depth_children c (Message.writtenChildren_subset hmem)) (hchildren c hmem)
  unfold messageGetPackedSizeLayer
  rw [fieldsGetPackedSize_eq (S.generated _).field hslots hchild, except_ok_bind,
    CArray.load_self hn, except_ok_bind, foldl_unknownSize hunknown, m.encode_eq S, Message.records,
    recordsLayer, List.flatMap_append, List.length_append, Nat.zero_add]
  rfl

end ProtobufC
