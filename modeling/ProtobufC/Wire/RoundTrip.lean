import ProtobufC.Wire.Acceptance
import ProtobufC.Wire.FailingGrowth
import ProtobufC.Wire.NumberRoundTrip
import ProtobufC.Wire.WireFormat

/-! # Decoding undoes encoding

The records of a member are read back into the member (`foldlM_slotRecords`), so the bytes of a message are
read back into its normal form (`decode_encode`).  `messageUnpack_messagePack` says this of the code.
-/

namespace ProtobufC
open Library
set_option autoImplicit false

/-! ## Bodies behind their length -/

theorem findLastDigit_prefixed (body : List UInt8) : findLastDigit 5 (prefixed body) =
    some ((uint32Pack (UInt32.ofNat body.length)).length - 1) := by
  have h32 := (UInt32.ofNat body.length).toNat_lt
  rw [prefixed, uint32Pack_eq]
  exact findLastDigit_append (terminated_base128 _) (length_base128_le (k := 4) (by omega)) body

theorem payloadLength_prefixed {body : List UInt8} (hlt : body.length < 2 ^ 32) :
    payloadLength .lengthPrefixed (prefixed body) = some (prefixed body).length := by
  have hfind := findLastDigit_prefixed body
  have hpos := (isVarint_uint32Pack (UInt32.ofNat body.length)).length_pos
  have hvalue : prefixValue ((uint32Pack (UInt32.ofNat body.length)).length - 1) (prefixed body) =
      body.length := by
    rw [prefixValue, Nat.sub_add_cancel hpos, prefixed, List.take_left, uint32Pack_eq,
      base128Value_base128, uint32_toNat_ofNat hlt, Nat.mod_eq_of_lt hlt]
  unfold payloadLength
  simp only [hfind, hvalue, Nat.sub_add_cancel hpos]
  have hlength : (prefixed body).length =
      (uint32Pack (UInt32.ofNat body.length)).length + body.length := List.length_append
  rw [hlength, if_neg (by omega)]

theorem body_prefixed (tag : UInt32) (body : List UInt8) :
    (⟨tag, .lengthPrefixed, prefixed body⟩ : Record).body = body := by
  have hpos := (isVarint_uint32Pack (UInt32.ofNat body.length)).length_pos
  have hlen : (⟨tag, .lengthPrefixed, prefixed body⟩ : Record).prefixLen =
      (uint32Pack (UInt32.ofNat body.length)).length := by
    unfold Record.prefixLen
    simp only [findLastDigit_prefixed body, Option.map_some, Option.getD_some, Nat.sub_add_cancel hpos]
  rw [Record.body, hlen]
  exact List.drop_left

/-! ## One value -/

theorem wireType_of_unpackable {type : FieldType} (hp : ¬ isPackableType type = true) :
    type.wireType = .lengthPrefixed := by
  cases type <;> first
    | rfl
    | exact absurd rfl hp

theorem wireType_of_packable {type : FieldType} (hp : isPackableType type = true) :
    type.wireType ≠ .lengthPrefixed := by
  cases type <;> first
    | exact absurd hp (by decide)
    | decide

section
variable {enc : Message → List UInt8} {dec : DescriptorId → List UInt8 → Option Message}
  {nf : Message → Message} {field : FieldDescriptor} {v : Value}

theorem length_body_of_payload (hp : ¬ isPackableType field.type = true)
    (hlt : (v.payload enc field.type).length < 2 ^ 32) : (v.body enc).length < 2 ^ 32 := by
  rw [Value.payload, if_neg hp, length_prefixed] at hlt
  omega

/-- The record of a value is complete. -/
theorem wellFormed_record (hv : Value.HasType field.type v)
    (hlt : (v.payload enc field.type).length < 2 ^ 32) : (v.record enc field).WellFormed := by
  unfold Record.WellFormed Value.record
  by_cases hp : isPackableType field.type = true
  · rw [Value.payload, if_pos hp]
    exact payloadLength_scalarBytes hp hv
  · have hbody := length_body_of_payload hp hlt
    rw [Value.payload, if_neg hp, wireType_of_unpackable hp]
    exact payloadLength_prefixed hbody

theorem decodeValue_of_packable (hp : isPackableType field.type = true) (r : Record) :
    decodeValue dec field r = parseScalar field.type r.wireType r.payload := by
  unfold decodeValue
  generalize field.type = type at hp
  cases type <;> first
    | rfl
    | exact absurd hp (by decide)

/-- A value is read back from its record. -/
theorem decodeValue_record (hv : Value.HasType field.type v)
    (hlt : (v.payload enc field.type).length < 2 ^ 32) (hnull : v ≠ .message .null)
    (hsub : ∀ c ∈ v.children, dec field.descriptor (enc c) = some (nf c)) :
    decodeValue dec field (v.record enc field) = some (v.normal nf) := by
  by_cases hp : isPackableType field.type = true
  · rw [decodeValue_of_packable hp, Value.record, Value.payload, if_pos hp]
    exact parseScalar_scalarBytes nf hp hv
  · have hbody := length_body_of_payload hp hlt
    have hrecord : v.record enc field = ⟨field.id, .lengthPrefixed, prefixed (v.body enc)⟩ := by
      rw [Value.record, Value.payload, if_neg hp, wireType_of_unpackable hp]
    have hread := body_prefixed field.id (v.body enc)
    rw [hrecord]
    unfold decodeValue
    simp only [hread]
    cases v with
    | word32 w | word64 w | boolean b =>
      generalize field.type = type at hv hp
      cases type <;> first
        | exact False.elim hv
        | exact absurd rfl hp
    | string str =>
      generalize field.type = type at hv
      cases type <;> first
        | exact False.elim hv
        | (cases str <;> rfl)
    | bytes len data =>
      generalize field.type = type at hv
      cases type <;> first
        | exact False.elim hv
        | (rw [body_bytes]; rfl)
    | message p =>
      cases p with
      | null => exact absurd rfl hnull
      | ref a m =>
        have hm : dec field.descriptor (enc m) = some (nf m) := hsub m List.mem_cons_self
        generalize field.type = type at hv
        cases type <;> first
          | exact False.elim hv
          | skip
        change (dec field.descriptor (enc m)).map _ = _
        rw [hm]
        rfl

/-! ## One member -/

theorem slotRecords_singular (has : Int32) (v : Value) : slotRecords enc field (.singular has v) =
    if field.writes has v then [v.record enc field] else [] := by
  unfold slotRecords FieldDescriptor.writes
  simp only [decide_eq_true_eq]

theorem slotRecords_repeated (a : CArray Value) : slotRecords enc field (.repeated a) =
    if field.packed then if a.n = 0 then [] else [packedRecord field a.elems]
    else a.elems.map (Value.record enc field) := rfl

/-- All records of a member have the number of the field. -/
theorem tag_of_mem_slotRecords {slot : Slot} {r : Record} (h : r ∈ slotRecords enc field slot) :
    r.tag = field.id := by
  cases slot with
  | singular has v =>
    rw [slotRecords_singular] at h
    split_ifs at h
    · obtain rfl := List.mem_singleton.mp h
      rfl
    · exact absurd h List.not_mem_nil
  | repeated a =>
    rw [slotRecords_repeated] at h
    split_ifs at h
    · exact absurd h List.not_mem_nil
    · obtain rfl := List.mem_singleton.mp h
      rfl
    · obtain ⟨v, -, rfl⟩ := List.mem_map.mp h
      rfl

theorem extend_normal (xs ys : List Value) :
    (Slot.repeated (.ofList xs)).extend ys = .repeated (.ofList (xs ++ ys)) := rfl

/-- The elements of a field that is not packed are appended one after the other. -/
theorem foldlM_elements (hlabel : field.label = .repeated)
    (hpacked : isPackedRecord field field.type.wireType = false) {vs : List Value}
    (hvs : ∀ v ∈ vs, decodeValue dec field (v.record enc field) = some (v.normal nf)) (xs : List Value) :
    (vs.map (Value.record enc field)).foldlM (slotStep dec field) (.repeated (.ofList xs)) =
      some (.repeated (.ofList (xs ++ vs.map (Value.normal nf)))) := by
  induction vs generalizing xs with
  | nil =>
    rw [List.map_nil, List.map_nil, List.append_nil]
    rfl
  | cons v vs ih =>
    have hstep : slotStep dec field (.repeated (.ofList xs)) (v.record enc field) =
        some (.repeated (.ofList (xs ++ [v.normal nf]))) := by
      have hv := hvs v List.mem_cons_self
      have hwire : isPackedRecord field (v.record enc field).wireType = false := hpacked
      unfold slotStep decodeElements
      simp only [hlabel, if_true, hwire, Bool.false_eq_true, if_false, hv, Option.map_some, extend_normal]
    rw [List.map_cons, List.foldlM_cons, hstep, List.map_cons,
      List.append_cons xs (v.normal nf) (vs.map (Value.normal nf))]
    exact ih (fun w hw => hvs w (List.mem_cons_of_mem _ hw)) (xs ++ [v.normal nf])

/-- A member is read back from its records. -/
theorem foldlM_slotRecords {slot : Slot} (hg : field.Generated) (hs : SlotPackable field slot)
    (hlt : ∀ r ∈ slotRecords enc field slot, r.payload.length < 2 ^ 32)
    (hread : ∀ v ∈ slot.written field, v ≠ .message .null ∧
      ∀ c ∈ v.children, dec field.descriptor (enc c) = some (nf c)) :
    (slotRecords enc field slot).foldlM (slotStep dec field) field.initSlot =
      some (slot.normal nf field) := by
  cases slot with
  | singular has v =>
    obtain ⟨hlabel, hv, -⟩ := hs
    rw [slotRecords_singular] at hlt ⊢
    rw [Slot.normal]
    by_cases hw : field.writes has v = true
    · rw [if_pos hw] at hlt ⊢
      rw [if_pos hw]
      obtain ⟨hnull, hsub⟩ := hread v (mem_written_singular.mpr ⟨hw, rfl⟩)
      have hvalue := decodeValue_record hv (hlt _ (List.mem_singleton.mpr rfl)) hnull hsub
      have hstep : slotStep dec field field.initSlot (v.record enc field) = some (.singular
          (if field.label = .optional ∧ field.quantifierOffset ≠ 0 then 1 else 0) (v.normal nf)) := by
        unfold slotStep
        rw [if_neg hlabel, hvalue, FieldDescriptor.initSlot_singular hlabel]
        rfl
      rw [List.foldlM_cons, hstep]
      rfl
    · rw [if_neg hw, if_neg hw]
      rfl
  | repeated a =>
    obtain ⟨hlabel, hn, hvs⟩ := hs
    rw [FieldDescriptor.initSlot_repeated hlabel, Slot.normal]
    rw [slotRecords_repeated] at hlt ⊢
    by_cases hpacked : field.packed = true
    · have hp := (hg.packed hpacked).2
      rw [if_pos hpacked] at hlt ⊢
      by_cases h0 : a.n = 0
      · have hnil : a.elems = [] := List.eq_nil_of_length_eq_zero (hn.symm.trans h0)
        rw [if_pos h0, hnil]
        rfl
      · rw [if_neg h0] at hlt ⊢
        have hpayload := hlt _ (List.mem_singleton.mpr rfl)
        have hbody : (a.elems.flatMap (scalarBytes field.type)).length < 2 ^ 32 := by
          rw [packedRecord, length_prefixed] at hpayload
          omega
        have hwire : isPackedRecord field (packedRecord field a.elems).wireType = true := by
          simp [isPackedRecord, packedRecord, hpacked]
        have hstep : slotStep dec field (.repeated (.ofList [])) (packedRecord field a.elems) =
            some (.repeated (.ofList (a.elems.map (Value.normal nf)))) := by
          unfold slotStep decodeElements
          rw [if_pos hlabel, if_pos hwire]
          unfold packedRecord
          rw [body_prefixed, decodePacked_scalarBytes nf hp (fun v hv => (hvs v hv).1) hbody,
            Option.map_some, extend_normal, List.nil_append]
        rw [List.foldlM_cons, hstep]
        rfl
    · rw [if_neg hpacked] at hlt ⊢
      have hwire : isPackedRecord field field.type.wireType = false := by
        unfold isPackedRecord
        by_cases hp : isPackableType field.type = true
        · simp [wireType_of_packable hp]
        · simp [hp, hpacked]
      refine foldlM_elements hlabel hwire (fun v hv => ?_) []
      obtain ⟨hnull, hsub⟩ := hread v hv
      exact decodeValue_record (hvs v hv).1 (hlt _ (List.mem_map_of_mem hv)) hnull hsub

end

/-! ## One level -/

theorem mem_zipWith_flatten {enc : Message → List UInt8} {fields : List FieldDescriptor} {slots : List Slot}
    {r : Record} :
    r ∈ (List.zipWith (slotRecords enc) fields slots).flatten ↔
      ∃ p ∈ fields.zip slots, r ∈ slotRecords enc p.1 p.2 := by
  rw [List.mem_flatten, ← List.map_uncurry_zip_eq_zipWith]
  simp only [List.mem_map, exists_exists_and_eq_and, Function.uncurry]

/-- The records of the members, field by field. -/
theorem fieldRecords_slots {enc : Message → List UInt8} {fields : List FieldDescriptor} {slots : List Slot}
    (hids : fields.Pairwise fun f g => f.id ≠ g.id) (hlength : fields.length = slots.length) :
    List.Forall₂ (fun field slot =>
      fieldRecords field (List.zipWith (slotRecords enc) fields slots).flatten = slotRecords enc field slot)
      fields slots := by
  induction fields generalizing slots with
  | nil =>
    cases slots with
    | nil => exact .nil
    | cons s slots => exact absurd hlength (by simp)
  | cons f fields ih =>
    cases slots with
    | nil => exact absurd hlength (by simp)
    | cons s slots =>
      obtain ⟨hf, hids⟩ := List.pairwise_cons.mp hids
      have hother : ∀ r ∈ (List.zipWith (slotRecords enc) fields slots).flatten, r.tag ≠ f.id := by
        intro r hr heq
        obtain ⟨p, hp, hr⟩ := mem_zipWith_flatten.mp hr
        exact hf p.1 (List.of_mem_zip hp).1 (heq.symm.trans (tag_of_mem_slotRecords hr))
      rw [List.zipWith_cons_cons, List.flatten_cons]
      refine .cons ?_ (List.forall₂_iff_zip.mpr ⟨Nat.succ.inj hlength, fun {g slot} hmem => ?_⟩)
      · rw [fieldRecords_append, fieldRecords_self fun r hr => tag_of_mem_slotRecords hr,
          fieldRecords_none hother, List.append_nil]
      · have hown : fieldRecords g (slotRecords enc f s) = [] := fieldRecords_none fun r hr heq =>
          hf g (List.of_mem_zip hmem).1 ((tag_of_mem_slotRecords hr).symm.trans heq)
        rw [fieldRecords_append, hown, List.nil_append]
        exact (List.forall₂_iff_zip.mp (ih hids (Nat.succ.inj hlength))).2 hmem

theorem mem_zip_of_left {α β : Type} {as : List α} {bs : List β} (hlength : as.length = bs.length) {a : α}
    (ha : a ∈ as) : ∃ b, (a, b) ∈ as.zip bs := by
  obtain ⟨i, hi, rfl⟩ := List.getElem_of_mem ha
  refine ⟨bs[i], ?_⟩
  rw [← List.getElem_zip (h := by rw [List.length_zip]; omega)]
  exact List.getElem_mem _

section
variable {S : Schema} {enc : Message → List UInt8} {m : Message}

theorem mem_recordsLayer {r : Record} : r ∈ recordsLayer S enc m ↔
    (∃ p ∈ (S.desc m.descriptor).fields.zip m.slots, r ∈ slotRecords enc p.1 p.2) ∨
      ∃ u ∈ m.unknown.elems, unknownRecord u = r := by
  unfold recordsLayer
  rw [List.mem_append, mem_zipWith_flatten, List.mem_map]

/-- The records of a member are complete. -/
theorem wellFormed_slotRecords {field : FieldDescriptor} {slot : Slot}
    (hs : SlotPackable field slot)
    (hlt : ∀ r ∈ slotRecords enc field slot, r.payload.length < 2 ^ 32) :
    ∀ r ∈ slotRecords enc field slot, r.WellFormed := by
  intro r hr
  have hpayload := hlt r hr
  cases slot with
  | singular has v =>
    rw [slotRecords_singular] at hr
    split_ifs at hr
    · obtain rfl := List.mem_singleton.mp hr
      exact wellFormed_record hs.2.1 hpayload
    · exact absurd hr List.not_mem_nil
  | repeated a =>
    rw [slotRecords_repeated] at hr
    split_ifs at hr
    · exact absurd hr List.not_mem_nil
    · obtain rfl := List.mem_singleton.mp hr
      rw [packedRecord, length_prefixed] at hpayload
      exact payloadLength_prefixed (Nat.lt_of_le_of_lt (Nat.le_add_left _ _) hpayload)
    · obtain ⟨v, hv, rfl⟩ := List.mem_map.mp hr
      exact wellFormed_record (hs.2.2 v hv).1 hpayload

/-- The records of a message are complete when its encoding is short and its unknown fields are. -/
theorem wellFormed_recordsLayer (hslots : List.Forall₂ SlotPackable (S.desc m.descriptor).fields m.slots)
    (hunknown : ∀ u ∈ m.unknown.elems, (unknownRecord u).WellFormed)
    (hlt : ∀ r ∈ recordsLayer S enc m, r.payload.length < 2 ^ 32) :
    ∀ r ∈ recordsLayer S enc m, r.WellFormed := by
  intro r hr
  obtain ⟨p, hp, hr'⟩ | ⟨u, hu, rfl⟩ := mem_recordsLayer.mp hr
  · refine wellFormed_slotRecords ((List.forall₂_iff_zip.mp hslots).2 hp) (fun r' hr' => ?_) r hr'
    exact hlt r' (mem_recordsLayer.mpr (.inl ⟨p, hp, hr'⟩))
  · exact hunknown u hu

/-- A written value that is no number has a record of its own. -/
theorem record_mem_slotRecords {field : FieldDescriptor} {slot : Slot} {v : Value} (hg : field.Generated)
    (hp : ¬ isPackableType field.type = true) (hv : v ∈ slot.written field) :
    v.record enc field ∈ slotRecords enc field slot := by
  cases slot with
  | singular has w =>
    obtain ⟨hw, rfl⟩ := mem_written_singular.mp hv
    rw [slotRecords_singular, if_pos hw]
    exact List.mem_singleton.mpr rfl
  | repeated a =>
    have hpacked : ¬ field.packed = true := fun h => hp (hg.packed h).2
    rw [slotRecords_repeated, if_neg hpacked]
    exact List.mem_map_of_mem hv

theorem hasType_of_written {field : FieldDescriptor} {slot : Slot} {v : Value}
    (hs : SlotPackable field slot) (hv : v ∈ slot.written field) : Value.HasType field.type v := by
  cases slot with
  | singular has w =>
    obtain ⟨-, rfl⟩ := mem_written_singular.mp hv
    exact hs.2.1
  | repeated a => exact (hs.2.2 v hv).1

/-- The encoding of a sub-message is no longer than the payload of its record. -/
theorem length_enc_lt {field : FieldDescriptor} {slot : Slot} {v : Value} (hg : field.Generated)
    (hs : SlotPackable field slot) (hlt : ∀ r ∈ slotRecords enc field slot, r.payload.length < 2 ^ 32)
    (hv : v ∈ slot.written field) : ∀ c ∈ v.children, (enc c).length < 2 ^ 32 := by
  intro c hc
  have htype := hasType_of_written hs hv
  cases v with
  | message p =>
    have hp : ¬ isPackableType field.type = true := by
      generalize field.type = type at htype
      cases type <;> first
        | exact False.elim htype
        | decide
    have hpayload := hlt _ (record_mem_slotRecords hg hp hv)
    cases p with
    | null => exact absurd hc List.not_mem_nil
    | ref a m =>
      obtain rfl := List.mem_singleton.mp hc
      exact length_body_of_payload hp hpayload
  | word32 w | word64 w | boolean b | string str | bytes len data => exact absurd hc List.not_mem_nil

/-- Every required field has a record. -/
theorem required_record (hslots : List.Forall₂ SlotPackable (S.desc m.descriptor).fields m.slots)
    {field : FieldDescriptor} (hfield : field ∈ (S.desc m.descriptor).fields)
    (hlabel : field.label = .required) : ∃ r ∈ recordsLayer S enc m, r.tag = field.id := by
  obtain ⟨slot, hmem⟩ := mem_zip_of_left hslots.length_eq hfield
  have hs := (List.forall₂_iff_zip.mp hslots).2 hmem
  cases slot with
  | singular has v =>
    have hwrites : field.writes has v = true := decide_eq_true (.inl hlabel)
    have hrecord : v.record enc field ∈ slotRecords enc field (.singular has v) := by
      rw [slotRecords_singular, if_pos hwrites]
      exact List.mem_singleton.mpr rfl
    exact ⟨_, mem_recordsLayer.mpr (.inl ⟨_, hmem, hrecord⟩), rfl⟩
  | repeated a => exact absurd (hs.1.symm.trans hlabel) (by decide)

theorem forall₂_zipWith {α β γ : Type} {R : α → γ → Prop} {f : α → β → γ} {as : List α} {bs : List β}
    (h : List.Forall₂ (fun a b => R a (f a b)) as bs) : List.Forall₂ R as (List.zipWith f as bs) := by
  induction h with
  | nil => exact .nil
  | cons hab _ ih => exact .cons hab ih

theorem length_payload_le {rs : List Record} {r : Record} (hr : r ∈ rs) :
    r.payload.length ≤ (rs.flatMap Record.bytes).length := by
  have hle := length_flatMap_le (f := Record.bytes) hr
  rw [length_bytes] at hle
  omega

theorem length_payload_lt (hlt : (m.encode S).length < 2 ^ 32) :
    ∀ r ∈ m.records S, r.payload.length < 2 ^ 32 := by
  rw [m.encode_eq] at hlt
  exact fun r hr => (length_payload_le hr).trans_lt hlt

/-- The bytes of a message are taken apart into its records. -/
theorem tokenize_encode (hslots : List.Forall₂ SlotPackable (S.desc m.descriptor).fields m.slots)
    (hunknown : ∀ u ∈ m.unknown.elems, (unknownRecord u).WellFormed)
    (hlt : (m.encode S).length < 2 ^ 32) : tokenize (m.encode S) = some (m.records S) := by
  have hpayload := length_payload_lt hlt
  rw [m.encode_eq]
  exact tokenize_bytes (wellFormed_recordsLayer hslots hunknown hpayload)

/-- The records of a field in the records of a message. -/
theorem fieldRecords_recordsLayer (hlength : (S.desc m.descriptor).fields.length = m.slots.length)
    (hunknown : ∀ u ∈ m.unknown.elems, ∀ f ∈ (S.desc m.descriptor).fields, f.id ≠ u.tag)
    {field : FieldDescriptor} {slot : Slot}
    (hmem : (field, slot) ∈ (S.desc m.descriptor).fields.zip m.slots) :
    fieldRecords field (recordsLayer S enc m) = slotRecords enc field slot := by
  have hids : (S.desc m.descriptor).fields.Pairwise fun f g => f.id ≠ g.id :=
    (S.generated m.descriptor).sorted.imp fun hlt heq => absurd (congrArg UInt32.toNat heq) hlt.ne
  rw [recordsLayer, fieldRecords_append,
    (List.forall₂_iff_zip.mp (fieldRecords_slots hids hlength)).2 hmem, fieldRecords_none, List.append_nil]
  intro r hr heq
  obtain ⟨u, hu, rfl⟩ := List.mem_map.mp hr
  exact hunknown u hu field (List.of_mem_zip hmem).1 heq.symm

end

/-! ## Messages -/

/-- Decoding undoes encoding. -/
theorem decode_encode {S : Schema} {m : Message} (hread : m.Readable S) (hm : m.Packable S)
    (hlt : (m.encode S).length < 2 ^ 32) :
    decode S m.descriptor (m.encode S) = some (m.normal S) := by
  induction hread with
  | intro m hslots hunknown _ ih =>
    obtain ⟨_, hpack, -, -, hchildren⟩ := hm
    have hgen := S.generated m.descriptor
    have hpayload := length_payload_lt hlt
    refine decode_iff.mpr ⟨m.records S, ?_, ?_, m.descriptor_normal S, ?_, ?_⟩
    · exact tokenize_encode hpack (fun u hu => (hunknown u hu).1) hlt
    · rw [← Bool.not_eq_true, missing_iff hgen]
      rintro ⟨i, field, habsent, -⟩
      obtain ⟨r, hr, htag⟩ : ∃ r ∈ m.records S, r.tag = field.id :=
        required_record hpack (List.mem_of_getElem? habsent.get) habsent.required
      exact habsent.noRecord r hr htag
    · rw [m.normal_eq, Message.records, recordsLayer, MessageDescriptor.unknowns_append]
      have hknown : (S.desc m.descriptor).unknowns (List.zipWith (slotRecords (Message.encode S))
          (S.desc m.descriptor).fields m.slots).flatten = [] := by
        refine hgen.unknowns_nil fun r hr => ?_
        obtain ⟨p, hp, hr⟩ := mem_zipWith_flatten.mp hr
        exact ⟨p.1, (List.of_mem_zip hp).1, (tag_of_mem_slotRecords hr).symm⟩
      have hrest : (S.desc m.descriptor).unknowns (m.unknown.elems.map unknownRecord) =
          m.unknown.elems.map MessageUnknownField.normal := by
        rw [hgen.unknowns_all, List.map_map]
        · rfl
        · intro r hr
          obtain ⟨u, hu, rfl⟩ := List.mem_map.mp hr
          exact (hunknown u hu).2
      rw [hknown, hrest]
      rfl
    · rw [m.normal_eq]
      refine forall₂_zipWith (List.forall₂_iff_zip.mpr ⟨hpack.length_eq, fun {field slot} hmem => ?_⟩)
      have hown : fieldRecords field (m.records S) = slotRecords (Message.encode S) field slot :=
        fieldRecords_recordsLayer hpack.length_eq (fun u hu => (hunknown u hu).2) hmem
      rw [hown]
      refine foldlM_slotRecords (hgen.field _ (List.of_mem_zip hmem).1)
        ((List.forall₂_iff_zip.mp hpack).2 hmem) (fun r hr => ?_) fun v hv => ?_
      · exact hpayload r (mem_recordsLayer.mpr (.inl ⟨_, hmem, hr⟩))
      · obtain ⟨hnull, hdesc⟩ := (List.forall₂_iff_zip.mp hslots).2 hmem v hv
        refine ⟨hnull, fun c hc => ?_⟩
        have hbelow : c ∈ m.writtenChildren S := Message.mem_writtenChildren.mpr
          ⟨(field, slot), hmem, Slot.mem_writtenChildren.mpr ⟨v, hv, hc⟩⟩
        have hshort : (c.encode S).length < 2 ^ 32 := length_enc_lt (hgen.field _ (List.of_mem_zip hmem).1)
          ((List.forall₂_iff_zip.mp hpack).2 hmem)
          (fun r hr => hpayload r (mem_recordsLayer.mpr (.inl ⟨_, hmem, hr⟩))) hv c hc
        rw [← hdesc c hc]
        exact ih c hbelow (hchildren c hbelow) hshort

/-! ## Encoding the normal form -/

theorem unknownRecord_unknownField (r : Record) : unknownRecord r.unknownField = r := by
  cases r with
  | mk tag wireType payload => exact congrArg (Record.mk tag wireType) List.take_length

section
variable {field : FieldDescriptor} {enc : Message → List UInt8} {nf : Message → Message}

theorem scalarBytes_normal (type : FieldType) (v : Value) (hv : Value.HasType type v)
    (hp : isPackableType type = true) : scalarBytes type (v.normal nf) = scalarBytes type v := by
  cases v with
  | word32 w | word64 w => rfl
  | boolean b =>
    cases type <;> first
      | exact False.elim hv
      | skip
    by_cases hb : b ≠ 0
    · simp only [Value.normal, scalarBytes, booleanPack, if_pos hb]
      rfl
    · simp only [Value.normal, scalarBytes, booleanPack, if_neg hb]
      rfl
  | string p | bytes len p | message p =>
    cases type <;> first
      | exact False.elim hv
      | exact absurd hp (by decide)

theorem Value.record_normal {v : Value} (hv : Value.HasType field.type v)
    (h : ∀ c ∈ v.children, enc (nf c) = enc c) : (v.normal nf).record enc field = v.record enc field := by
  have hbody : (v.normal nf).body enc = v.body enc := by
    cases v with
    | word32 w | word64 w | boolean b => rfl
    | string p =>
      cases p with
      | none => rfl
      | some p => exact cString_append_zero p.val
    | bytes len p =>
      rw [body_bytes]
      generalize hbs : (p.elim [] Ptr.val).take len = bs
      cases bs with
      | nil => simp only [Value.normal, hbs, List.isEmpty_nil, if_true, Value.body]
      | cons b bs => simp only [Value.normal, hbs, List.isEmpty_cons, Bool.false_eq_true, if_false,
          Value.body, List.take_length]
    | message p =>
      cases p with
      | null => rfl
      | ref a m => exact h m List.mem_cons_self
  unfold Value.record Value.payload
  by_cases hp : isPackableType field.type = true
  · rw [if_pos hp, if_pos hp, scalarBytes_normal field.type v hv hp]
  · rw [if_neg hp, if_neg hp, hbody]

theorem slotRecords_normal (hg : field.Generated) {slot : Slot} (hs : SlotPackable field slot)
    (h : ∀ c ∈ slot.writtenChildren field, enc (nf c) = enc c) :
    slotRecords enc field (slot.normal nf field) = slotRecords enc field slot := by
  cases slot with
  | singular has v =>
    obtain ⟨hlabel, hv, -⟩ := hs
    by_cases hw : field.writes has v = true
    · have hw' := hg.writes_normal hv hlabel hw nf
      rw [Slot.normal, if_pos hw, slotRecords_singular, if_pos hw', slotRecords_singular, if_pos hw,
        Value.record_normal hv (Slot.writtenChildren_singular (of_decide_eq_true hw) ▸ h)]
    · have hreq : field.label ≠ .required := fun hl => hw (decide_eq_true (.inl hl))
      have hnot := FieldDescriptor.not_writes_init hreq
      rw [Slot.normal, if_neg hw, FieldDescriptor.initSlot_singular hlabel, slotRecords_singular,
        slotRecords_singular, if_neg hw, hnot]
      rfl
  | repeated a =>
    obtain ⟨-, hn, hvs⟩ := hs
    have hrecords : (a.elems.map (Value.normal nf)).map (Value.record enc field) =
        a.elems.map (Value.record enc field) := by
      rw [List.map_map]
      exact List.map_congr_left fun v hv =>
        Value.record_normal (hvs v hv).1 fun c hc => h c (List.mem_flatMap.mpr ⟨v, hv, hc⟩)
    rw [Slot.normal, slotRecords_repeated, slotRecords_repeated, CArray.ofList_elems, hrecords]
    by_cases hpacked : field.packed = true
    · have hscalar : (a.elems.map (Value.normal nf)).flatMap (scalarBytes field.type) =
          a.elems.flatMap (scalarBytes field.type) := by
        rw [List.flatMap_map]
        exact List.flatMap_congr fun v hv =>
          scalarBytes_normal field.type v (hvs v hv).1 (hg.packed hpacked).2
      have hcount : (CArray.ofList (a.elems.map (Value.normal nf))).n = a.n := by
        rw [hn]
        exact List.length_map _
      rw [if_pos hpacked, if_pos hpacked, hcount, packedRecord, packedRecord, hscalar]
    · rw [if_neg hpacked, if_neg hpacked]

end

/-- The normal form of a message is written as the message is. -/
theorem Message.encode_normal {S : Schema} (m : Message) :
    m.Packable S → (m.normal S).encode S = m.encode S := by
  refine measure_induction Message.depth
    (P := fun m => m.Packable S → (m.normal S).encode S = m.encode S) (fun m ih hm => ?_) m
  obtain ⟨_, hslots, -, -, hchildren⟩ := hm
  have hzip : ∀ {fields : List FieldDescriptor} {slots : List Slot},
      List.Forall₂ (fun field slot => slotRecords (Message.encode S) field
        (slot.normal (Message.normal S) field) = slotRecords (Message.encode S) field slot) fields slots →
      List.zipWith (slotRecords (Message.encode S)) fields
          (List.zipWith (Slot.normal (Message.normal S)) fields slots) =
        List.zipWith (slotRecords (Message.encode S)) fields slots := by
    intro fields slots h
    induction h with
    | nil => rfl
    | cons hone _ ih => simp only [List.zipWith_cons_cons, hone, ih]
  have hunknown : (m.unknown.elems.map MessageUnknownField.normal).map unknownRecord =
      m.unknown.elems.map unknownRecord := by
    rw [List.map_map]
    exact List.map_congr_left fun u _ => unknownRecord_unknownField (unknownRecord u)
  rw [Message.encode_eq, Message.encode_eq, Message.records, Message.records, recordsLayer, recordsLayer,
    m.descriptor_normal, m.normal_eq, normalLayer]
  simp only [Message.slots_mk, Message.unknown_mk, CArray.ofList_elems, hunknown]
  rw [hzip]
  refine List.forall₂_iff_zip.mpr ⟨hslots.length_eq, fun {field slot} hmem => ?_⟩
  refine slotRecords_normal ((S.generated _).field field (List.of_mem_zip hmem).1)
    ((List.forall₂_iff_zip.mp hslots).2 hmem) fun c hc => ?_
  have hbelow : c ∈ m.writtenChildren S := Message.mem_writtenChildren.mpr ⟨(field, slot), hmem, hc⟩
  exact ih c (m.depth_children c (Message.writtenChildren_subset hbelow)) (hchildren c hbelow)

/-! ## The code -/

theorem messagePack_encode {S : Schema} {m : Message} (hm : m.Packable S) {size : ℕ}
    (hsize : messageGetPackedSize S m = .ok size) (hlt : size < 2 ^ 32) {out : List UInt8}
    (hout : out.length = size) :
    size = (m.encode S).length ∧ messagePack S m 0 out = .ok (size, m.encode S) := by
  obtain rfl := Except.ok.inj (hsize.symm.trans (messageGetPackedSize_eq hm))
  have hpack := emits_messagePack hm hlt 0 out (by omega)
  rw [splice_all hout] at hpack
  exact ⟨rfl, hpack⟩

/-- `protobuf_c_message_unpack` reads what `protobuf_c_message_pack` has written: the message comes back,
in memory of its own. -/
theorem messageUnpack_messagePack {σ : Type} (S : Schema) (H : HeapAllocator σ) (hinf : H.Infallible)
    (m : Message) (hm : m.Packable S) (hread : m.Readable S) (size : ℕ)
    (hsize : messageGetPackedSize S m = .ok size) (hlt : size < 2 ^ 32) (out : List UInt8)
    (hout : out.length = size) :
    ∃ data, messagePack S m 0 out = .ok (size, data) ∧ ∀ s, ∃ a m' s',
      messageUnpack H.toAllocator S m.descriptor data s = .ok (.ref a m', s') ∧
        m'.erase = m.normal S ∧ m'.Owned S := by
  obtain ⟨hlength, hpack⟩ := messagePack_encode hm hsize hlt hout
  have hdecode := decode_encode hread hm (by omega)
  exact ⟨m.encode S, hpack, fun s => messageUnpack_of_decode hinf (by omega) hdecode s⟩

theorem treeMessage_readable : treeMessage.Readable nestedSchema := by
  have hbytes : ∀ len p, (Value.bytes len p).ReadBack (.scalar .required .bytes 1) := fun _ _ =>
    ⟨by simp, fun _ hc => absurd hc List.not_mem_nil⟩
  have hleaf : leafMessage.Readable nestedSchema := by
    refine .intro _ (.cons ?_ (.cons (fun _ hv => absurd hv List.not_mem_nil) .nil))
      (fun _ hu => absurd hu List.not_mem_nil) fun _ hc => absurd hc List.not_mem_nil
    intro v hv
    rw [List.mem_singleton.mp (show v ∈ [Value.bytes 0 none] from hv)]
    exact hbytes _ _
  refine .intro _ (.cons ?_ (.cons ?_ .nil)) ?_ ?_
  · intro v hv
    rw [List.mem_singleton.mp (show v ∈ [Value.bytes 1 (some ⟨.static 0, [7, 8]⟩)] from hv)]
    exact hbytes _ _
  · intro v hv
    rw [List.mem_singleton.mp hv]
    refine ⟨by simp, fun c hc => ?_⟩
    rw [List.mem_singleton.mp hc]
    rfl
  · intro u hu
    rw [List.mem_singleton.mp hu]
    exact ⟨by decide, by decide⟩
  · intro c hc
    rw [List.mem_singleton.mp (show c ∈ [leafMessage] from hc)]
    exact hleaf

/-- `messageUnpack_messagePack` on a message with a sub-message and an unknown field. -/
theorem messageUnpack_messagePack_tree : ∃ data,
    messagePack nestedSchema treeMessage 0 (List.replicate 10 0) = .ok (10, data) ∧ ∀ s, ∃ a m' s',
      messageUnpack countingHeap.toAllocator nestedSchema 0 data s = .ok (.ref a m', s') ∧
        m'.erase = treeMessage.normal nestedSchema ∧ m'.Owned nestedSchema :=
  messageUnpack_messagePack nestedSchema countingHeap countingHeap_infallible treeMessage
    treeMessage_packable treeMessage_readable 10 rfl (by norm_num) (List.replicate 10 0) rfl

end ProtobufC
