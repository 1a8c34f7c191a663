import ProtobufC.Runtime.Collect
import ProtobufC.Runtime.VarintParse
import ProtobufC.Runtime.MessageCheck
import ProtobufC.Wire.ThreeWalks

/-! # The protobuf wire format

`Message.wireFormat` is what a message is on the wire by the definition of its field types, in terms
of numbers.  The walks write the same bytes, but for negative values of enum fields: these are packed
as `uint32_t` in five bytes, where the format sign-extends them to 64 bits.
-/

namespace ProtobufC
open Library
set_option autoImplicit false

/-! ## The format -/

/-- An integer as a number of 64 bits. -/
def signExtend64 (z : ℤ) : ℕ := (z % 2 ^ 64).toNat

/-- The zigzag image: 0, -1, 1, -2, .. -/
def zigzag (z : ℤ) : ℕ := if 0 ≤ z then (2 * z).toNat else (-2 * z - 1).toNat

/-- The low `k` bytes of a number, the lowest first. -/
def littleEndian : ℕ → ℕ → List UInt8
  | 0, _ => []
  | k + 1, n => UInt8.ofNat n :: littleEndian k (n / 256)

/-- The encoding of a value of a packable type. -/
def scalarWireFormat : FieldType → Value → List UInt8
  | .int32, .word32 w | .enum, .word32 w => base128 (signExtend64 w.toInt32.toInt)
  | .int64, .word64 w => base128 (signExtend64 w.toInt64.toInt)
  | .uint32, .word32 w => base128 w.toNat
  | .uint64, .word64 w => base128 w.toNat
  | .sint32, .word32 w => base128 (zigzag w.toInt32.toInt)
  | .sint64, .word64 w => base128 (zigzag w.toInt64.toInt)
  | .bool, .boolean v => if v = 0 then [0] else [1]
  | .fixed32, .word32 w | .sfixed32, .word32 w | .float, .word32 w => littleEndian 4 w.toNat
  | .fixed64, .word64 w | .sfixed64, .word64 w | .double, .word64 w => littleEndian 8 w.toNat
  | _, _ => []

/-- Bytes behind their number. -/
def delimited (body : List UInt8) : List UInt8 := base128 body.length ++ body

/-- A record: the field number and the wire type, and the payload. -/
def recordWireFormat (id : UInt32) (wire : WireType) (payload : List UInt8) : List UInt8 :=
  base128 (id.toNat * 8 + wire.code.toNat) ++ payload

def unknownWireFormat (u : MessageUnknownField) : List UInt8 :=
  recordWireFormat u.tag u.wireType ((u.data.elim [] Ptr.val).take u.len)

section
variable (S : Schema)

mutual
/-- The encoding of a message. -/
def Message.wireFormat : Message → List UInt8
  | .mk d slots ⟨_, _, _, us⟩ =>
      slotsWireFormat (S.desc d).fields slots ++ us.flatMap unknownWireFormat

def slotsWireFormat : List FieldDescriptor → List Slot → List UInt8
  | field :: fields, slot :: slots => slot.wireFormat field ++ slotsWireFormat fields slots
  | _, _ => []

def Slot.wireFormat (field : FieldDescriptor) : Slot → List UInt8
  | .singular has v =>
      if field.writes has v then
        recordWireFormat field.id field.type.wireType (v.wireFormat field.type)
      else []
  | .repeated ⟨_, _, _, vs⟩ =>
      if field.packed then
        if vs.isEmpty then []
        else recordWireFormat field.id .lengthPrefixed
          (delimited (vs.flatMap (scalarWireFormat field.type)))
      else valuesWireFormat field vs

def valuesWireFormat (field : FieldDescriptor) : List Value → List UInt8
  | [] => []
  | v :: vs => recordWireFormat field.id field.type.wireType (v.wireFormat field.type) ++
      valuesWireFormat field vs

/-- The payload of one value. -/
def Value.wireFormat (type : FieldType) : Value → List UInt8
  | .string p => delimited (p.elim [] fun p => cString p.val)
  | .bytes len data => delimited ((data.elim [] Ptr.val).take len)
  | .message .null => delimited []
  | .message (.ref _ m) => delimited m.wireFormat
  | v => scalarWireFormat type v
end

end

/-- The negative values of an enum field. -/
def negativeEnum (field : FieldDescriptor) : Value → List Int32
  | .word32 w => if field.type = .enum ∧ w.toInt32 < 0 then [w.toInt32] else []
  | _ => []

/-- The negative values of enum fields that are serialised, at every level. -/
def Message.negativeEnums (S : Schema) (m : Message) : List Int32 :=
  m.collect S negativeEnum FieldDescriptor.writes

/-! ## Numbers -/

theorem signExtend64_toInt (v : Int32) : signExtend64 v.toInt = signExtended v := by
  have h := signExtended_eq v
  unfold signExtend64
  omega

theorem signExtend64_word64 (w : UInt64) : signExtend64 w.toInt64.toInt = w.toNat := by
  have h := int64_toUInt64_toNat w.toInt64
  unfold signExtend64
  rw [← h, show w.toInt64.toUInt64 = w from rfl]
  omega

theorem zigzag32_eq (v : Int32) : (zigzag32 v).toNat = zigzag v.toInt := by
  have h := zigzag32_toNat v
  unfold zigzag
  split
  all_goals omega

theorem zigzag64_eq (v : Int64) : (zigzag64 v).toNat = zigzag v.toInt := by
  have h := zigzag64_toNat v
  unfold zigzag
  split
  all_goals omega

theorem uint8_ofNat_eq {m n : ℕ} (h : m % 256 = n % 256) : UInt8.ofNat m = UInt8.ofNat n := by
  apply UInt8.toNat_inj.mp
  rw [UInt8.toNat_ofNat', UInt8.toNat_ofNat']
  exact h

theorem fixed32Pack_eq (v : UInt32) : fixed32Pack v = littleEndian 4 v.toNat := by
  have h8 : (v >>> 8).toNat = v.toNat / 2 ^ 8 := uint32_shiftRight_toNat v (k := 8) (by norm_num)
  have h16 : (v >>> 16).toNat = v.toNat / 2 ^ 16 := uint32_shiftRight_toNat v (k := 16) (by norm_num)
  have h24 : (v >>> 24).toNat = v.toNat / 2 ^ 24 := uint32_shiftRight_toNat v (k := 24) (by norm_num)
  simp only [fixed32Pack, littleEndian, toUInt8_eq_ofNat, Nat.div_div_eq_div_mul, h8, h16, h24]
  norm_num

theorem littleEndian_words (n : ℕ) :
    littleEndian 8 n = littleEndian 4 (n % 2 ^ 32) ++ littleEndian 4 (n / 2 ^ 32) := by
  simp only [littleEndian, List.cons_append, List.nil_append, Nat.div_div_eq_div_mul]
  have hbyte : ∀ k, k < 4 → UInt8.ofNat (n % 2 ^ 32 / 256 ^ k) = UInt8.ofNat (n / 256 ^ k) := by
    intro k hk
    apply uint8_ofNat_eq
    interval_cases k
    all_goals omega
  have h0 := hbyte 0 (by norm_num)
  have h1 := hbyte 1 (by norm_num)
  have h2 := hbyte 2 (by norm_num)
  have h3 := hbyte 3 (by norm_num)
  norm_num at h0 h1 h2 h3 ⊢
  exact ⟨h0.symm, h1.symm, h2.symm, h3.symm⟩

theorem fixed64Pack_eq (v : UInt64) : fixed64Pack v = littleEndian 8 v.toNat := by
  have hlow : v.toUInt32.toNat = v.toNat % 2 ^ 32 := UInt64.toNat_toUInt32 v
  rw [fixed64Pack, fixed32Pack_eq, fixed32Pack_eq, uint64_upper_toNat, hlow, littleEndian_words]

/-! ## One value -/

/-- The bytes the code writes, beside those of the format: the same where there is no negative enum
value, and fewer where there is one. -/
def Falls (negative : List Int32) (code format : List UInt8) : Prop :=
  if negative = [] then code = format else code.length < format.length

theorem falls_refl (bytes : List UInt8) : Falls [] bytes bytes := by
  rw [Falls, if_pos rfl]

theorem Falls.length_le {negative : List Int32} {code format : List UInt8}
    (h : Falls negative code format) : code.length ≤ format.length := by
  unfold Falls at h
  split at h
  · exact h ▸ le_refl _
  · exact h.le

theorem Falls.append {ns ns' : List Int32} {xs ys xs' ys' : List UInt8} (h : Falls ns xs ys)
    (h' : Falls ns' xs' ys') : Falls (ns ++ ns') (xs ++ xs') (ys ++ ys') := by
  have hle := h.length_le
  have hle' := h'.length_le
  unfold Falls at *
  by_cases hnil : ns = []
  · by_cases hnil' : ns' = []
    · rw [if_pos hnil] at h
      rw [if_pos hnil'] at h'
      rw [if_pos (by simp [hnil, hnil']), h, h']
    · rw [if_neg hnil'] at h'
      rw [if_neg (by simp [hnil']), List.length_append, List.length_append]
      omega
  · rw [if_neg hnil] at h
    rw [if_neg (by simp [hnil]), List.length_append, List.length_append]
    omega

theorem Falls.prepend {ns : List Int32} {xs ys : List UInt8} (h : Falls ns xs ys) (bytes : List UInt8) :
    Falls ns (bytes ++ xs) (bytes ++ ys) :=
  (falls_refl bytes).append h

theorem falls_flatMap {α : Type} {negative : α → List Int32} {code format : α → List UInt8}
    {vs : List α} (h : ∀ v ∈ vs, Falls (negative v) (code v) (format v)) :
    Falls (vs.flatMap negative) (vs.flatMap code) (vs.flatMap format) := by
  induction vs with
  | nil => exact falls_refl []
  | cons v vs ih =>
    rw [List.flatMap_cons, List.flatMap_cons, List.flatMap_cons]
    exact (h v List.mem_cons_self).append (ih fun w hw => h w (List.mem_cons_of_mem _ hw))

theorem Falls.prefixed {ns : List Int32} {xs ys : List UInt8} (h : Falls ns xs ys)
    (hlt : xs.length < 2 ^ 32) : Falls ns (prefixed xs) (delimited ys) := by
  have hle := length_base128_mono h.length_le
  have hprefix : uint32Pack (UInt32.ofNat xs.length) = base128 xs.length := by
    rw [uint32Pack_eq, uint32_toNat_ofNat hlt]
  unfold Falls at *
  rw [ProtobufC.prefixed, delimited, hprefix]
  split at h
  · rename_i hnil
    rw [if_pos hnil, h]
  · rename_i hneg
    rw [if_neg hneg, List.length_append, List.length_append]
    omega

/-- A value is written as the format says, unless it is a negative value of an enum field. -/
theorem falls_scalar {field : FieldDescriptor} {v : Value} (hv : Value.HasType field.type v)
    (hp : isPackableType field.type = true) :
    Falls (negativeEnum field v) (scalarBytes field.type v) (scalarWireFormat field.type v) := by
  by_cases henum : field.type = .enum
  · rw [henum] at hv ⊢
    cases v with
    | word32 w =>
      have hw := w.toNat_lt
      rw [negativeEnum, scalarBytes, scalarWireFormat, signExtend64_toInt, uint32Pack_eq]
      have hext := signExtended_eq w.toInt32
      by_cases hneg : w.toInt32 < 0
      · -- five bytes against ten
        have hlarge : 2 ^ 31 ≤ w.toNat := by
          by_contra hlt
          have hpos := uint32_toInt32_toInt (a := w) (by omega)
          rw [Int32.lt_iff_toInt_lt, hpos, Int32.toInt_zero] at hneg
          omega
        rw [uint32_toInt32_neg hlarge] at hext
        have hcode : (base128 w.toNat).length ≤ 5 := length_base128_le (k := 4) (by omega)
        have hformat : 9 < (base128 (signExtended w.toInt32)).length :=
          lt_length_base128 (k := 9) (by omega)
        rw [if_pos ⟨henum, hneg⟩, Falls, if_neg (by simp)]
        omega
      · have hsmall : w.toNat < 2 ^ 31 := by
          by_contra hge
          have hval := uint32_toInt32_neg (a := w) (by omega)
          rw [Int32.lt_iff_toInt_lt, hval, Int32.toInt_zero] at hneg
          omega
        rw [uint32_toInt32_toInt hsmall] at hext
        have hsame : signExtended w.toInt32 = w.toNat := by omega
        rw [if_neg fun h => hneg h.2, hsame]
        exact falls_refl _
    | _ => exact False.elim hv
  · have hquiet : negativeEnum field v = [] := by
      cases v with
      | word32 w => exact if_neg fun h => henum h.1
      | _ => rfl
    rw [hquiet, Falls, if_pos rfl]
    generalize field.type = type at hv hp henum
    cases type <;> cases v <;> first
      | exact False.elim hv
      | exact absurd hp (by decide)
      | exact absurd rfl henum
      | skip
    case int32.word32 w => rw [scalarBytes, scalarWireFormat, int32Pack_eq, signExtend64_toInt]
    case uint32.word32 w => rw [scalarBytes, scalarWireFormat, uint32Pack_eq]
    case sint32.word32 w =>
      rw [scalarBytes, scalarWireFormat, sint32Pack, uint32Pack_eq, zigzag32_eq]
    case int64.word64 w => rw [scalarBytes, scalarWireFormat, uint64Pack_eq, signExtend64_word64]
    case uint64.word64 w => rw [scalarBytes, scalarWireFormat, uint64Pack_eq]
    case sint64.word64 w =>
      rw [scalarBytes, scalarWireFormat, sint64Pack, uint64Pack_eq, zigzag64_eq]
    case bool.boolean b =>
      rw [scalarBytes, scalarWireFormat, booleanPack]
      by_cases hb : b = 0
      · rw [if_pos hb, if_neg (not_not.mpr hb)]
      · rw [if_neg hb, if_pos hb]
    case fixed32.word32 w | sfixed32.word32 w | float.word32 w =>
      rw [scalarBytes, scalarWireFormat, fixed32Pack_eq]
    case fixed64.word64 w | sfixed64.word64 w | double.word64 w =>
      rw [scalarBytes, scalarWireFormat, fixed64Pack_eq]

section
variable {S : Schema} {field : FieldDescriptor}

/-- What holds of the sub-messages of a value. -/
def FallsBelow (S : Schema) (cs : List Message) : Prop :=
  ∀ c ∈ cs, (c.encode S).length < 2 ^ 32 → Falls (c.negativeEnums S) (c.encode S) (c.wireFormat S)

theorem falls_payload {v : Value} (hv : Value.HasType field.type v) (hsub : FallsBelow S v.children)
    (hlt : (v.payload (Message.encode S) field.type).length < 2 ^ 32) :
    Falls (v.collect S negativeEnum FieldDescriptor.writes field)
      (v.payload (Message.encode S) field.type) (v.wireFormat S field.type) := by
  by_cases hp : isPackableType field.type = true
  · have hone := falls_scalar hv hp
    rw [Value.payload, if_pos hp]
    cases v with
    | string p | bytes len p | message p =>
      generalize field.type = type at hv hp
      cases type <;> first
        | exact False.elim hv
        | exact absurd hp (by decide)
    | _ => exact hone
  · rw [Value.payload, if_neg hp, length_prefixed] at hlt
    rw [Value.payload, if_neg hp]
    have hbody : (v.body (Message.encode S)).length < 2 ^ 32 := by omega
    cases v with
    | string p =>
      cases p with
      | none => exact (falls_refl []).prefixed hbody
      | some p => exact (falls_refl (cString p.val)).prefixed hbody
    | bytes len p =>
      rw [body_bytes] at hbody ⊢
      exact (falls_refl _).prefixed hbody
    | message p =>
      cases p with
      | null => exact (falls_refl []).prefixed hbody
      | ref addr msg => exact (hsub msg List.mem_cons_self hbody).prefixed hbody
    | _ =>
      generalize field.type = type at hv hp
      cases type <;> first
        | exact False.elim hv
        | exact absurd rfl hp

theorem record_bytes (r : Record) : r.bytes = recordWireFormat r.tag r.wireType r.payload := by
  rw [Record.bytes, orFirst_tagPack, recordWireFormat]

theorem falls_record {v : Value} (hv : Value.HasType field.type v) (hsub : FallsBelow S v.children)
    (hlt : (v.record (Message.encode S) field).bytes.length < 2 ^ 32) :
    Falls (v.collect S negativeEnum FieldDescriptor.writes field)
      (v.record (Message.encode S) field).bytes
      (recordWireFormat field.id field.type.wireType (v.wireFormat S field.type)) := by
  rw [length_bytes] at hlt
  rw [record_bytes]
  exact (falls_payload hv hsub (Nat.lt_of_le_of_lt (Nat.le_add_left _ _) hlt)).prepend _

theorem valuesWireFormat_eq (vs : List Value) : valuesWireFormat S field vs =
    vs.flatMap fun v => recordWireFormat field.id field.type.wireType (v.wireFormat S field.type) := by
  induction vs with
  | nil => rfl
  | cons v vs ih => rw [valuesWireFormat, ih, List.flatMap_cons]

theorem length_flatMap_le {α β : Type} {f : α → List β} {x : α} {xs : List α} (hx : x ∈ xs) :
    (f x).length ≤ (xs.flatMap f).length := by
  obtain ⟨as, bs, rfl⟩ := List.append_of_mem hx
  rw [List.flatMap_append, List.flatMap_cons, List.length_append, List.length_append]
  omega

theorem falls_packed {vs : List Value} (hp : isPackableType field.type = true)
    (hvs : ∀ v ∈ vs, Value.HasType field.type v) :
    Falls (vs.flatMap (Value.collect S negativeEnum FieldDescriptor.writes field))
      (vs.flatMap (scalarBytes field.type)) (vs.flatMap (scalarWireFormat field.type)) := by
  apply falls_flatMap
  intro v hv
  have hone := falls_scalar (hvs v hv) hp
  cases v with
  | message p =>
    have ht := hvs _ hv
    generalize field.type = type at ht hp
    cases type <;> first
      | exact False.elim ht
      | exact absurd hp (by decide)
  | _ => exact hone

theorem falls_slot {slot : Slot} (hg : field.Generated) (hs : SlotPackable field slot)
    (hsub : FallsBelow S (slot.writtenChildren field))
    (hlt : ((slotRecords (Message.encode S) field slot).flatMap Record.bytes).length < 2 ^ 32) :
    Falls (slot.collect S negativeEnum FieldDescriptor.writes field)
      ((slotRecords (Message.encode S) field slot).flatMap Record.bytes) (slot.wireFormat S field) := by
  cases slot with
  | singular has v =>
    obtain ⟨-, hv, -⟩ := hs
    rw [Slot.collect, Slot.wireFormat]
    rw [slotRecords] at hlt ⊢
    by_cases hwrites : field.label = .required ∨ field.isSet has v
    · rw [if_pos hwrites, List.flatMap_cons, List.flatMap_nil, List.append_nil] at hlt
      rw [if_pos hwrites, if_pos (by simpa [FieldDescriptor.writes] using hwrites),
        if_pos (by simpa [FieldDescriptor.writes] using hwrites), List.flatMap_cons, List.flatMap_nil,
        List.append_nil]
      exact falls_record hv (Slot.writtenChildren_singular hwrites ▸ hsub) hlt
    · rw [if_neg hwrites, if_neg (by simpa [FieldDescriptor.writes] using hwrites),
        if_neg (by simpa [FieldDescriptor.writes] using hwrites)]
      exact falls_refl []
  | repeated a =>
    obtain ⟨-, hn, hvs⟩ := hs
    rw [Slot.collect_repeated]
    obtain ⟨n, addr, cap, vs⟩ := a
    obtain rfl : n = vs.length := hn
    rw [Slot.wireFormat]
    rw [slotRecords] at hlt ⊢
    by_cases hp : field.packed = true
    · rw [if_pos hp] at hlt ⊢
      rw [if_pos hp]
      cases vs with
      | nil => exact falls_refl []
      | cons v vs =>
        have hpacked := falls_packed (S := S) (hg.packed hp).2 fun w hw => (hvs w hw).1
        have hrecord : ∀ r : Record, [r].flatMap Record.bytes = r.bytes := fun r => by simp
        rw [if_neg (by simp), hrecord, length_bytes, packedRecord, length_prefixed] at hlt
        rw [if_neg (by simp), if_neg (by simp), hrecord, record_bytes]
        exact (hpacked.prefixed (by omega)).prepend _
    · rw [if_neg hp] at hlt ⊢
      rw [if_neg hp, valuesWireFormat_eq, List.flatMap_map]
      rw [List.flatMap_map] at hlt
      apply falls_flatMap
      intro v hv
      refine falls_record (hvs v hv).1 (fun c hc => hsub c (List.mem_flatMap.mpr ⟨v, hv, hc⟩)) ?_
      exact Nat.lt_of_le_of_lt
        (length_flatMap_le (f := fun v => (v.record (Message.encode S) field).bytes) hv) hlt

theorem falls_slots {fields : List FieldDescriptor} {slots : List Slot}
    (hg : ∀ f ∈ fields, f.Generated) (hs : List.Forall₂ SlotPackable fields slots)
    (hsub : ∀ p ∈ fields.zip slots, FallsBelow S (p.2.writtenChildren p.1))
    (hlt : ((List.zipWith (slotRecords (Message.encode S)) fields slots).flatten.flatMap
      Record.bytes).length < 2 ^ 32) :
    Falls (collectSlots S negativeEnum FieldDescriptor.writes fields slots)
      ((List.zipWith (slotRecords (Message.encode S)) fields slots).flatten.flatMap Record.bytes)
      (slotsWireFormat S fields slots) := by
  induction hs with
  | nil => exact falls_refl []
  | cons hfield _ ih =>
    rw [List.zipWith_cons_cons, List.flatten_cons, List.flatMap_append] at hlt ⊢
    rw [List.length_append] at hlt
    rw [collectSlots, slotsWireFormat]
    refine Falls.append ?_ ?_
    · exact falls_slot (hg _ List.mem_cons_self) hfield (hsub (_, _) List.mem_cons_self)
        (by omega)
    · exact ih (fun f hf => hg f (List.mem_cons_of_mem _ hf))
        (fun p hp => hsub p (List.mem_cons_of_mem _ hp)) (by omega)

/-- A message is written as the format says unless a negative enum value is serialised; then fewer
bytes are written. -/
theorem falls_message {m : Message} (hm : m.Packable S) (hlt : (m.encode S).length < 2 ^ 32) :
    Falls (m.negativeEnums S) (m.encode S) (m.wireFormat S) := by
  induction m using measure_induction Message.depth with
  | h m ih =>
    obtain ⟨_, hslots, -, -, hchildren⟩ := hm
    have hchild : ∀ p ∈ (S.desc m.descriptor).fields.zip m.slots,
        FallsBelow S (p.2.writtenChildren p.1) := by
      intro p hp c hc hlt
      have hmem : c ∈ m.writtenChildren S := Message.mem_writtenChildren.mpr ⟨p, hp, hc⟩
      exact ih c (m.depth_children c (Message.writtenChildren_subset hmem)) (hchildren c hmem) hlt
    rw [m.encode_eq S, Message.records, recordsLayer, List.flatMap_append] at hlt ⊢
    rw [List.length_append] at hlt
    have hfields := falls_slots (S.generated _).field hslots hchild (by omega)
    obtain ⟨d, slots, n, addr, cap, us⟩ := m
    rw [Message.wireFormat, Message.negativeEnums, Message.collect]
    have hunknown : (us.map unknownRecord).flatMap Record.bytes = us.flatMap unknownWireFormat := by
      rw [List.flatMap_map]
      refine List.flatMap_congr fun u _ => ?_
      rw [record_bytes]
      rfl
    have htail := hfields.append (falls_refl ((us.map unknownRecord).flatMap Record.bytes))
    rw [List.append_nil] at htail
    rw [← hunknown]
    exact htail

end

/-! ## The walks -/

/-- The three walks write the format. -/
def WritesWireFormat {η : Type} (S : Schema) (H : HeapAllocator η) (m : Message) : Prop :=
  messageGetPackedSize S m = .ok (m.wireFormat S).length ∧
    (∀ out : List UInt8, out.length = (m.wireFormat S).length →
      messagePack S m 0 out = .ok ((m.wireFormat S).length, m.wireFormat S)) ∧
    ∀ {β : Type} {append : Append β η} (T : Target H append),
      T.Appends (messagePackToBuffer H.toAllocator append S m) (m.wireFormat S)

/-- The bytes are those of the wire format exactly when no negative enum value is serialised. -/
theorem writesWireFormat_iff {η : Type} (S : Schema) (H : HeapAllocator η) (hinf : H.Infallible)
    (m : Message) (hm : m.Packable S) (hlt : (m.encode S).length < 2 ^ 32) :
    WritesWireFormat S H m ↔ m.negativeEnums S = [] := by
  have hfalls := falls_message hm hlt
  have hsize := messageGetPackedSize_eq hm
  unfold Falls at hfalls
  constructor
  · intro h
    by_contra hnegative
    rw [if_neg hnegative] at hfalls
    have hsame := Except.ok.inj (hsize.symm.trans h.1)
    omega
  · intro hnil
    rw [if_pos hnil] at hfalls
    unfold WritesWireFormat
    rw [← hfalls]
    refine ⟨hsize, fun out hout => ?_, fun T => T.appends_messagePackToBuffer hinf hm hlt⟩
    have hpack := emits_messagePack hm hlt 0 out (by omega)
    rwa [splice_all hout] at hpack

/-- `writesWireFormat_iff` on a message with a sub-message and an unknown field. -/
theorem writesWireFormat_tree : WritesWireFormat nestedSchema countingHeap treeMessage :=
  (writesWireFormat_iff nestedSchema countingHeap countingHeap_infallible treeMessage
    treeMessage_packable (by decide)).mpr rfl

/-- One `required` enum field with number 1. -/
def enumSchema : Schema :=
  Schema.uniform [.scalar .required .enum 1]
    (by simpa using FieldDescriptor.generated_scalar (by decide) (by decide)) (by simp)

/-- A message whose one member is -1. -/
def minusOneMessage : Message := .mk 0 [.singular 0 (.word32 0xffffffff)] .null

/-- The value -1 of an `int32` field takes ten bytes, that of an enum field five. -/
theorem writesWireFormat_fails :
    messagePack enumSchema minusOneMessage 0 (List.replicate 6 0) =
        .ok (6, [8, 0xff, 0xff, 0xff, 0xff, 0x0f]) ∧
      messagePack int32Schema minusOneMessage 0 (List.replicate 11 0) =
        .ok (11, [8, 0xff, 0xff, 0xff, 0xff, 0xff, 0xff, 0xff, 0xff, 0xff, 1]) ∧
      ¬ WritesWireFormat enumSchema countingHeap minusOneMessage := by
  refine ⟨rfl, rfl, fun h => ?_⟩
  have hpackable : minusOneMessage.Packable enumSchema :=
    .intro _ (.cons ⟨by decide, trivial, fun _ => trivial⟩ .nil) rfl
      (by simp [minusOneMessage, CArray.null])
      (by rintro c ⟨⟩)
  have hfalls := falls_message hpackable (by decide)
  have hsame := Except.ok.inj ((messageGetPackedSize_eq hpackable).symm.trans h.1)
  rw [Falls, if_neg (by decide)] at hfalls
  omega

end ProtobufC
