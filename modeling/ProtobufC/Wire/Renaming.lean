import ProtobufC.Wire.NormalForm

/-! # Where a message lies

Two messages that differ in the addresses of their blocks only are written alike, have the same normal form,
and the one can be packed when the other can.
-/

namespace ProtobufC
open Library
set_option autoImplicit false

theorem Value.pointer_erase (v : Value) : v.erase.pointer = v.pointer.map Addr.erase := by
  cases v with
  | word32 w | word64 w | boolean b => rfl
  | string p =>
    rw [Value.erase_string]
    cases p <;> rfl
  | bytes len p =>
    rw [Value.erase_bytes]
    cases p <;> rfl
  | message p =>
    rw [Value.erase_message]
    cases p with
    | null => rw [MessagePtr.erase_null]; rfl
    | ref a m => rw [MessagePtr.erase_ref]; rfl

theorem Value.children_erase (v : Value) : v.erase.children = v.children.map Message.erase := by
  cases v with
  | word32 w | word64 w | boolean b | string p | bytes len p => simp [Value.children]
  | message p =>
    cases p with
    | null => simp [Value.children]
    | ref a m => simp [Value.children]

section
variable {field : FieldDescriptor}

theorem FieldDescriptor.Generated.isSet_erase (hg : field.Generated) (has : Int32) (v : Value) :
    field.isSet has v.erase = field.isSet has v := by
  unfold FieldDescriptor.isSet
  split_ifs
  · rw [v.pointer_erase]
    cases v.pointer with
    | none => rfl
    | some a =>
      have hsame : some a.erase = field.defaultPointer ↔ some a = field.defaultPointer := by
        cases hd : field.defaultPointer with
        | none => simp
        | some d =>
          obtain ⟨k, rfl⟩ := hg.defaultPointer_static hd
          simp only [Option.some.injEq, Addr.erase_eq_static]
      simp only [Option.map_some, ne_eq, hsame, reduceCtorEq, not_false_eq_true, true_and]
  · rfl

theorem FieldDescriptor.Generated.writes_erase (hg : field.Generated) (has : Int32) (v : Value) :
    field.writes has v.erase = field.writes has v := by
  unfold FieldDescriptor.writes
  rw [hg.isSet_erase]

theorem scalarBytes_erase (type : FieldType) (v : Value) :
    scalarBytes type v.erase = scalarBytes type v := by
  cases v with
  | word32 w | word64 w | boolean b => simp
  | string p | bytes len p | message p =>
    simp only [Value.erase_string, Value.erase_bytes, Value.erase_message]
    cases type <;> rfl

/-! ## What is written -/

theorem Slot.writtenChildren_erase (hg : field.Generated) (s : Slot) :
    s.erase.writtenChildren field = (s.writtenChildren field).map Message.erase := by
  unfold Slot.writtenChildren
  cases s with
  | singular has v =>
    rw [Slot.erase_singular, Slot.written, Slot.written, hg.writes_erase]
    split_ifs
    · simp only [List.flatMap_cons, List.flatMap_nil, List.append_nil, v.children_erase]
    · rfl
  | repeated a =>
    rw [Slot.erase_repeated]
    simp only [Slot.written, CArray.erase, List.flatMap_map, Value.children_erase, List.map_flatMap]

variable {enc : Message → List UInt8}

theorem Value.record_erase {v : Value} (h : ∀ c ∈ v.children, enc c.erase = enc c) :
    v.erase.record enc field = v.record enc field := by
  have hbody : v.erase.body enc = v.body enc := by
    cases v with
    | word32 w | word64 w | boolean b => simp
    | string p =>
      rw [Value.erase_string]
      cases p <;> rfl
    | bytes len p =>
      rw [Value.erase_bytes]
      cases p <;> rfl
    | message p =>
      cases p with
      | null => simp
      | ref a m =>
        rw [Value.erase_message, MessagePtr.erase_ref]
        exact h m List.mem_cons_self
  unfold Value.record Value.payload
  rw [scalarBytes_erase, hbody]

theorem slotRecords_erase (hg : field.Generated) {s : Slot} (h : ∀ c ∈ s.children, enc c.erase = enc c) :
    slotRecords enc field s.erase = slotRecords enc field s := by
  cases s with
  | singular has v =>
    have hone : v.erase.record enc field = v.record enc field := v.record_erase h
    rw [Slot.erase_singular]
    simp only [slotRecords, hg.isSet_erase, hone]
  | repeated a =>
    have hscalar : (a.elems.map Value.erase).flatMap (scalarBytes field.type) =
        a.elems.flatMap (scalarBytes field.type) := by
      rw [List.flatMap_map]
      exact List.flatMap_congr fun v _ => scalarBytes_erase field.type v
    have hrecords : (a.elems.map Value.erase).map (Value.record enc field) =
        a.elems.map (Value.record enc field) := by
      rw [List.map_map]
      exact List.map_congr_left fun v hv =>
        Value.record_erase fun c hc => h c (List.mem_flatMap.mpr ⟨v, hv, hc⟩)
    rw [Slot.erase_repeated]
    simp only [slotRecords, CArray.erase, packedRecord, hscalar, hrecords]

end

section
variable {S : Schema}

theorem MessageUnknownField.record_erase (u : MessageUnknownField) :
    unknownRecord u.erase = unknownRecord u := by
  cases u with
  | mk tag wireType len data => cases data <;> rfl

theorem Message.slots_erase (m : Message) : m.erase.slots = m.slots.map Slot.erase := by
  cases m
  rw [Message.erase_mk, Message.slots_mk, Message.slots_mk]

theorem Message.unknown_erase (m : Message) :
    m.erase.unknown = m.unknown.erase MessageUnknownField.erase := by
  cases m
  rw [Message.erase_mk, Message.unknown_mk, Message.unknown_mk]

theorem Message.descriptor_erase (m : Message) : m.erase.descriptor = m.descriptor := by
  cases m
  rw [Message.erase_mk, Message.descriptor_mk, Message.descriptor_mk]

theorem zipWith_map_congr {α β γ : Type} {f : α → β → γ} {g : β → β} {as : List α} {bs : List β}
    (h : ∀ a ∈ as, ∀ b ∈ bs, f a (g b) = f a b) :
    List.zipWith f as (bs.map g) = List.zipWith f as bs := by
  induction as generalizing bs with
  | nil => rfl
  | cons a as ih =>
    cases bs with
    | nil => rfl
    | cons b bs =>
      rw [List.map_cons, List.zipWith_cons_cons, List.zipWith_cons_cons,
        h a List.mem_cons_self b List.mem_cons_self,
        ih fun a' ha' b' hb' => h a' (List.mem_cons_of_mem _ ha') b' (List.mem_cons_of_mem _ hb')]

/-- A message is written alike wherever it lies. -/
theorem Message.encode_erase (m : Message) : m.erase.encode S = m.encode S := by
  refine measure_induction Message.depth (P := fun m => m.erase.encode S = m.encode S) (fun m ih => ?_) m
  have hunknown : (m.unknown.elems.map MessageUnknownField.erase).map unknownRecord =
      m.unknown.elems.map unknownRecord := by
    rw [List.map_map]
    exact List.map_congr_left fun u _ => u.record_erase
  rw [Message.encode_eq, Message.encode_eq, Message.records, Message.records, recordsLayer, recordsLayer,
    m.descriptor_erase, m.slots_erase, m.unknown_erase]
  rw [zipWith_map_congr fun field hfield s hs => slotRecords_erase ((S.generated _).field field hfield)
    fun c hc => ih c (m.depth_children c (List.mem_flatMap.mpr ⟨s, hs, hc⟩))]
  simp only [CArray.erase, hunknown]

/-! ## What is said -/

theorem Value.normal_erase {nf : Message → Message} {v : Value}
    (h : ∀ c ∈ v.children, nf c.erase = nf c) : v.erase.normal nf = v.normal nf := by
  cases v with
  | word32 w | word64 w | boolean b => simp
  | string p =>
    rw [Value.erase_string]
    cases p <;> rfl
  | bytes len p =>
    rw [Value.erase_bytes]
    cases p <;> rfl
  | message p =>
    cases p with
    | null => simp
    | ref a m =>
      rw [Value.erase_message, MessagePtr.erase_ref, Value.normal, Value.normal, h m List.mem_cons_self]

theorem Slot.normal_erase {nf : Message → Message} {field : FieldDescriptor} (hg : field.Generated)
    {s : Slot} (h : ∀ c ∈ s.children, nf c.erase = nf c) :
    s.erase.normal nf field = s.normal nf field := by
  cases s with
  | singular has v =>
    have hone := Value.normal_erase h
    rw [Slot.erase_singular]
    simp only [Slot.normal, hg.writes_erase, hone]
  | repeated a =>
    have helems : (a.elems.map Value.erase).map (Value.normal nf) = a.elems.map (Value.normal nf) := by
      rw [List.map_map]
      exact List.map_congr_left fun v hv =>
        Value.normal_erase fun c hc => h c (List.mem_flatMap.mpr ⟨v, hv, hc⟩)
    rw [Slot.erase_repeated]
    simp only [Slot.normal, CArray.erase, helems]

/-- A message says the same wherever it lies. -/
theorem Message.normal_erase (m : Message) : m.erase.normal S = m.normal S := by
  refine measure_induction Message.depth (P := fun m => m.erase.normal S = m.normal S) (fun m ih => ?_) m
  have hunknown : (m.unknown.elems.map MessageUnknownField.erase).map MessageUnknownField.normal =
      m.unknown.elems.map MessageUnknownField.normal := by
    rw [List.map_map]
    exact List.map_congr_left fun u _ => congrArg Record.unknownField u.record_erase
  rw [Message.normal_eq, Message.normal_eq, normalLayer, normalLayer, m.descriptor_erase, m.slots_erase,
    m.unknown_erase]
  rw [zipWith_map_congr fun field hfield s hs => Slot.normal_erase ((S.generated _).field field hfield)
    fun c hc => ih c (m.depth_children c (List.mem_flatMap.mpr ⟨s, hs, hc⟩))]
  simp only [CArray.erase, hunknown]

/-! ## What can be packed -/

theorem Value.hasType_erase {type : FieldType} {v : Value} :
    Value.HasType type v.erase ↔ Value.HasType type v := by
  cases v <;> simp only [Value.erase_word32, Value.erase_word64, Value.erase_boolean, Value.erase_string,
    Value.erase_bytes, Value.erase_message] <;> cases type <;> rfl

theorem Value.readable_erase {v : Value} : v.erase.Readable ↔ v.Readable := by
  cases v with
  | bytes len p =>
    rw [Value.erase_bytes]
    cases p <;> rfl
  | word32 w | word64 w | boolean b | string p | message p => simp [Value.Readable]

theorem Value.nonNull_erase {v : Value} : v.erase.NonNull ↔ v.NonNull := by
  cases v with
  | string p => simp [Value.NonNull]
  | message p =>
    cases p with
    | null => simp [Value.NonNull]
    | ref a m => simp [Value.NonNull]
  | word32 w | word64 w | boolean b | bytes len p => simp [Value.NonNull]

theorem slotPackable_erase {field : FieldDescriptor} (hg : field.Generated) {s : Slot} :
    SlotPackable field s.erase ↔ SlotPackable field s := by
  cases s with
  | singular has v =>
    rw [Slot.erase_singular]
    simp only [SlotPackable, Value.hasType_erase, Value.readable_erase, hg.isSet_erase]
  | repeated a =>
    rw [Slot.erase_repeated]
    simp only [SlotPackable, CArray.erase, List.length_map, List.forall_mem_map, Value.hasType_erase,
      Value.readable_erase, Value.nonNull_erase]

/-- A message can be packed wherever it lies. -/
theorem Message.Packable.of_erase (m : Message) : m.erase.Packable S → m.Packable S := by
  refine measure_induction Message.depth (P := fun m => m.erase.Packable S → m.Packable S)
    (fun m ih h => ?_) m
  obtain ⟨_, hslots, hn, hunknown, hchildren⟩ := h
  rw [m.descriptor_erase, m.slots_erase, List.forall₂_map_right_iff] at hslots
  rw [m.unknown_erase] at hn hunknown
  refine .intro m ?_ ?_ ?_ fun c hc => ?_
  · refine List.forall₂_iff_zip.mpr ⟨hslots.length_eq, fun {field s} hmem => ?_⟩
    exact (slotPackable_erase ((S.generated _).field field (List.of_mem_zip hmem).1)).mp
      ((List.forall₂_iff_zip.mp hslots).2 hmem)
  · exact hn.trans (List.length_map _)
  · intro u hu
    have hlen := hunknown u.erase (List.mem_map_of_mem hu)
    cases u with
    | mk tag wireType len data => cases data <;> exact hlen
  · refine ih c (m.depth_children c (Message.writtenChildren_subset hc)) (hchildren c.erase ?_)
    obtain ⟨⟨field, s⟩, hp, hc⟩ := Message.mem_writtenChildren.mp hc
    refine Message.mem_writtenChildren.mpr ⟨(field, s.erase), ?_, ?_⟩
    · rw [m.descriptor_erase, m.slots_erase, List.zip_map_right]
      exact List.mem_map_of_mem hp
    · rw [Slot.writtenChildren_erase ((S.generated _).field field (List.of_mem_zip hp).1)]
      exact List.mem_map_of_mem hc

end

end ProtobufC
