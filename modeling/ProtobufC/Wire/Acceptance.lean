import ProtobufC.Wire.Encode
import ProtobufC.Wire.UnpackRuns

/-! # What an accepted input contains

The two checks that the decoder makes of the records it finds: that the required fields have records,
through the bitmap, and that records of known fields have the wire type of the field.  Both have a gap,
and both are described exactly.
-/

namespace ProtobufC
open Library
set_option autoImplicit false

/-! ## The bitmap -/

theorem length_requiredFieldBitmapSet (bitmap : List UInt8) (i : ℕ) :
    (requiredFieldBitmapSet bitmap i).length = bitmap.length := by
  rw [requiredFieldBitmapSet, List.length_modify]

theorem length_bitmapStep (desc : MessageDescriptor) (bitmap : List UInt8) (r : Record) :
    (bitmapStep desc bitmap r).length = bitmap.length := by
  unfold bitmapStep
  split
  · split_ifs
    · exact length_requiredFieldBitmapSet _ _
    · rfl
  · rfl

theorem bit_ne_zero (b : UInt8) (k : Fin 8) : b ||| UInt8.ofNat (1 <<< k.val) ≠ 0 := by
  intro h
  have hzero := congrArg UInt8.toNat h
  rw [UInt8.toNat_or, UInt8.toNat_zero, Nat.or_eq_zero_iff] at hzero
  have hbit : ∀ k : Fin 8, (UInt8.ofNat (1 <<< k.val)).toNat ≠ 0 := by decide
  exact hbit k hzero.2

/-- Setting the bit of a field makes its byte nonzero, and changes no other byte. -/
theorem byteAt_requiredFieldBitmapSet {bitmap : List UInt8} (hlen : bitmap.length = 16) (i : ℕ)
    {k : ℕ} (hk : k < 16) : byteAt (requiredFieldBitmapSet bitmap i) k ≠ 0 ↔
      byteAt bitmap k ≠ 0 ∨ i / 8 % 16 = k := by
  unfold byteAt requiredFieldBitmapSet
  rw [List.getD_eq_getElem?_getD, List.getD_eq_getElem?_getD, List.getElem?_modify,
    List.getElem?_eq_getElem (by omega)]
  by_cases hik : i / 8 % 16 = k
  · have hbit := bit_ne_zero bitmap[k] ⟨i % 8, Nat.mod_lt _ (by norm_num)⟩
    simpa [hik] using hbit
  · simp [hik]

/-- A byte of the bitmap is nonzero when a record of a required field of that byte was found. -/
theorem byteAt_requiredBitmap (desc : MessageDescriptor) (rs : List Record) {k : ℕ} (hk : k < 16) :
    byteAt (requiredBitmap desc rs) k ≠ 0 ↔ ∃ r ∈ rs, ∃ i field,
      desc.field? r.tag = some (i, field) ∧ field.label = .required ∧ i / 8 % 16 = k := by
  have hgen : ∀ (rs : List Record) (bitmap : List UInt8), bitmap.length = 16 →
      (byteAt (rs.foldl (bitmapStep desc) bitmap) k ≠ 0 ↔ byteAt bitmap k ≠ 0 ∨ ∃ r ∈ rs, ∃ i field,
        desc.field? r.tag = some (i, field) ∧ field.label = .required ∧ i / 8 % 16 = k) := by
    intro rs
    induction rs with
    | nil => simp
    | cons r rs ih =>
      intro bitmap hlen
      rw [List.foldl_cons, ih _ (by rw [length_bitmapStep, hlen])]
      have hstep : byteAt (bitmapStep desc bitmap r) k ≠ 0 ↔ byteAt bitmap k ≠ 0 ∨ ∃ i field,
          desc.field? r.tag = some (i, field) ∧ field.label = .required ∧ i / 8 % 16 = k := by
        unfold bitmapStep
        cases hf : desc.field? r.tag with
        | none => simp
        | some p =>
          obtain ⟨i, field⟩ := p
          by_cases hl : field.label = .required
          · simp [hl, byteAt_requiredFieldBitmapSet hlen i hk]
          · simp [hl]
      rw [hstep, or_assoc]
      simp only [List.mem_cons, exists_eq_or_imp]
  have hzero : byteAt (List.replicate 16 0) k = 0 := by
    unfold byteAt
    rw [List.getD_eq_getElem?_getD, List.getElem?_replicate, if_pos hk, Option.getD_some]
  rw [requiredBitmap, hgen rs _ (List.length_replicate ..), hzero]
  simp only [ne_eq, not_true_eq_false, false_or]

/-- The test of the unparenthesised macro sees the lowest bit only, and all eight fields of a byte. -/
theorem notRequiredFieldBitmapIsSet_iff (bitmap : List UInt8) (f : ℕ) :
    notRequiredFieldBitmapIsSet bitmap f = true ↔ byteAt bitmap (f / 8 % 16) = 0 ∧ f % 8 = 0 := by
  have hpow : (1 &&& 1 <<< (f % 8) ≠ 0) ↔ f % 8 = 0 := by
    have hlt : f % 8 < 8 := Nat.mod_lt _ (by norm_num)
    generalize f % 8 = k at hlt ⊢
    interval_cases k <;> decide
  unfold notRequiredFieldBitmapIsSet
  by_cases h0 : byteAt bitmap (f / 8 % 16) = 0
  · rw [if_pos h0, decide_eq_true_iff, hpow]
    simp [h0]
  · simp [h0]

/-! ## Required fields -/

/-- The field with index `i` is required, has no default value, and has no record. -/
structure Absent (desc : MessageDescriptor) (rs : List Record) (i : ℕ) (field : FieldDescriptor) :
    Prop where
  get : desc.fields[i]? = some field
  required : field.label = .required
  noDefault : field.defaultValue = none
  noRecord : ∀ r ∈ rs, r.tag ≠ field.id

/-- The check of the field with index `i` fails: its bit is the lowest of its byte, and no required
field of that byte has a record. -/
def Detected (desc : MessageDescriptor) (rs : List Record) (i : ℕ) : Prop :=
  i % 8 = 0 ∧ ∀ j g, desc.fields[j]? = some g → g.label = .required → j / 8 % 16 = i / 8 % 16 →
    ∀ r ∈ rs, r.tag ≠ g.id

theorem missing_iff {desc : MessageDescriptor} (hg : desc.Generated) (rs : List Record) :
    desc.missing rs = true ↔ ∃ i field, Absent desc rs i field ∧ Detected desc rs i := by
  rw [missing_eq, missingRequired_iff]
  simp only [Nat.zero_add, notRequiredFieldBitmapIsSet_iff]
  have hbyte : ∀ i, byteAt (requiredBitmap desc rs) (i / 8 % 16) = 0 ↔ ∀ j g,
      desc.fields[j]? = some g → g.label = .required → j / 8 % 16 = i / 8 % 16 →
        ∀ r ∈ rs, r.tag ≠ g.id := by
    intro i
    rw [← not_iff_not, ← ne_eq,
      byteAt_requiredBitmap desc rs (k := i / 8 % 16) (Nat.mod_lt _ (by norm_num))]
    push Not
    constructor
    · rintro ⟨r, hr, j, g, hf, hl, hj⟩
      obtain ⟨hj', hid⟩ := hg.field?_eq_some.mp hf
      exact ⟨j, g, hj', hl, hj, r, hr, hid.symm⟩
    · rintro ⟨j, g, hj', hl, hj, r, hr, hid⟩
      exact ⟨r, hr, j, g, hg.field?_eq_some.mpr ⟨hj', hid.symm⟩, hl, hj⟩
  constructor
  · rintro ⟨i, field, hf, hl, hd, hb, h0⟩
    have hdet := (hbyte i).mp hb
    exact ⟨i, field, ⟨hf, hl, hd, hdet i field hf hl rfl⟩, h0, hdet⟩
  · rintro ⟨i, field, habs, h0, hdet⟩
    exact ⟨i, field, habs.get, habs.required, habs.noDefault, (hbyte i).mpr hdet, h0⟩

/-- Whatever a run of the decoder accepts has a record for every required field without a default. -/
def RequiredComplete (S : Schema) (d : DescriptorId) (data : List UInt8) : Prop :=
  ∀ (σ : Type) (H : HeapAllocator σ) (s s' : σ) (a : Addr) (m : Message),
    messageUnpack H.toAllocator S d data s = .ok (.ref a m, s') →
      ∀ rs, tokenize data = some rs → ∀ i field, ¬ Absent (S.desc d) rs i field

/-- The records do not fail, and lack a required field, only if the check of a field that they lack
fails. -/
def AbsenceDetected (S : Schema) (d : DescriptorId) (data : List UInt8) : Prop :=
  ∀ rs m, tokenize data = some rs →
    foldRecords (decode S) (S.desc d) (S.initMessage d) rs = some m →
      (∃ i field, Absent (S.desc d) rs i field) →
        ∃ i field, Absent (S.desc d) rs i field ∧ Detected (S.desc d) rs i

/-- An input that is decoded is accepted where no allocation fails. -/
theorem messageUnpack_of_decode {σ : Type} {H : HeapAllocator σ} (hinf : H.Infallible) {S : Schema}
    {d : DescriptorId} {data : List UInt8} (hlen : data.length < 2 ^ 32) {m : Message}
    (hdec : decode S d data = some m) (s : σ) :
    ∃ a m' s', messageUnpack H.toAllocator S d data s = .ok (.ref a m', s') ∧ m'.erase = m ∧
      m'.Owned S := by
  have hsafe : Safe S d data := safe_of_decode (d, data) m hdec hlen
  obtain ⟨p, s', hrun, hnull, href⟩ := messageUnpack_total s hinf hlen hsafe
  cases p with
  | null =>
    rw [hnull.mp rfl] at hdec
    exact absurd hdec (by simp)
  | ref a m' =>
    obtain ⟨hdec', hown⟩ := href a m' rfl
    refine ⟨a, m', s', hrun, ?_, hown⟩
    rw [hdec, Option.some.injEq] at hdec'
    exact hdec'.symm

/-- The decoder accepts no input that lacks a required field exactly where a lack is detected. -/
theorem requiredComplete_iff (S : Schema) (d : DescriptorId) (data : List UInt8) :
    (AbsenceDetected S d data → RequiredComplete S d data) ∧
      (data.length ≤ 2 ^ 32 - 4 → RequiredComplete S d data → AbsenceDetected S d data) := by
  have hgen := S.generated d
  constructor
  · intro hcond σ H s s' a m hrun rs hrs i field habs
    obtain ⟨rs', hrs', hmissing, hfold⟩ := decode_eq_some.mp (messageUnpack_decode hrun)
    rw [hrs, Option.some.injEq] at hrs'
    subst hrs'
    have hmiss := (missing_iff hgen rs).mpr (hcond rs _ hrs hfold ⟨i, field, habs⟩)
    rw [hmissing] at hmiss
    exact absurd hmiss (by simp)
  · rintro hlen hprop rs m hrs hfold ⟨i, field, habs⟩
    by_contra hno
    have hmissing : (S.desc d).missing rs = false := by
      rw [← Bool.not_eq_true, missing_iff hgen]
      exact hno
    have hdec := decode_eq_some.mpr ⟨rs, hrs, hmissing, hfold⟩
    obtain ⟨a, m', s', hrun, -⟩ :=
      messageUnpack_of_decode countingHeap_infallible (by omega) hdec (0, [])
    exact hprop _ countingHeap _ _ a m' hrun rs hrs i field habs

/-- Two `required int32` fields, with numbers 1 and 2. -/
def twoRequiredSchema : Schema :=
  Schema.uniform [.scalar .required .int32 1, .scalar .required .int32 2]
    (by
      intro f hf
      simp only [List.mem_cons, List.not_mem_nil, or_false] at hf
      obtain rfl | rfl := hf <;> exact FieldDescriptor.generated_scalar (by decide) (by decide))
    (by simp; decide)

theorem tokenize_twoRequired : tokenize [8, 0] = some [⟨1, .varint, [0]⟩] := by
  rw [tokenize_cons (by simp) (show nextRecord [8, 0] = some (⟨1, .varint, [0]⟩, []) from rfl)]
  simp

/-- The input `08 00` is accepted without a record of the second field. -/
theorem requiredComplete_fails : ¬ RequiredComplete twoRequiredSchema 0 [8, 0] := by
  intro h
  refine h _ countingHeap (0, []) _ _ _ rfl _ tokenize_twoRequired 1 (.scalar .required .int32 2)
    ⟨rfl, rfl, rfl, ?_⟩
  simp [FieldDescriptor.scalar]

/-! ## Wire types -/

/-- The messages that an input holds: itself, and what the records of message fields hold. -/
inductive Contains (S : Schema) : DescriptorId → List UInt8 → DescriptorId → List UInt8 → Prop
  | self (d : DescriptorId) (data : List UInt8) : Contains S d data d data
  | body {d d' : DescriptorId} {data data' : List UInt8} {rs : List Record} {r : Record} {i : ℕ}
      {field : FieldDescriptor} (hrs : tokenize data = some rs) (hr : r ∈ rs)
      (hf : (S.desc d).field? r.tag = some (i, field)) (htype : field.type = .message)
      (h : Contains S field.descriptor r.body d' data') : Contains S d data d' data'

/-- The record has the wire type of the field's type, or holds packed elements of a repeated field. -/
def OwnWireType (field : FieldDescriptor) (r : Record) : Prop :=
  r.wireType = field.type.wireType ∨
    (r.wireType = .lengthPrefixed ∧ field.label = .repeated ∧ isPackableType field.type = true)

/-- At every level the records of known fields of the given types have their own wire type. -/
def RecordsMatch (S : Schema) (types : Set FieldType) (d : DescriptorId) (data : List UInt8) : Prop :=
  ∀ d' data' rs, Contains S d data d' data' → tokenize data' = some rs → ∀ r ∈ rs, ∀ i field,
    (S.desc d').field? r.tag = some (i, field) → field.type ∈ types → OwnWireType field r

theorem Contains.decode {S : Schema} {d d' : DescriptorId} {data data' : List UInt8}
    (h : Contains S d data d' data') {m : Message} (hdec : ProtobufC.decode S d data = some m) :
    ∃ m', ProtobufC.decode S d' data' = some m' := by
  induction h generalizing m with
  | self => exact ⟨m, hdec⟩
  | body hrs hr hf htype _ ih =>
    obtain ⟨m', hm'⟩ := decode_body hdec hrs hr hf htype
    exact ih hm'

theorem decodeValue_wireType {dec : DescriptorId → List UInt8 → Option Message}
    {field : FieldDescriptor} {r : Record} (h : decodeValue dec field r ≠ none)
    (hbool : field.type ≠ .bool) : r.wireType = field.type.wireType := by
  unfold decodeValue at h
  cases htype : field.type <;> simp only [htype] at h hbool <;> first
    | exact absurd rfl hbool
    | (by_contra hne
       rw [FieldType.wireType] at hne
       simp [parseScalar, hne] at h)

/-- An accepted input has its own wire types exactly when the records of its booleans have. -/
theorem messageUnpack_wireTypes {σ : Type} {H : HeapAllocator σ} {S : Schema} {d : DescriptorId}
    {data : List UInt8} {s s' : σ} {a : Addr} {m : Message}
    (hrun : messageUnpack H.toAllocator S d data s = .ok (.ref a m, s')) :
    RecordsMatch S Set.univ d data ↔ RecordsMatch S {.bool} d data := by
  constructor
  · intro h d' data' rs hin hrs r hr i field hf _
    exact h d' data' rs hin hrs r hr i field hf (Set.mem_univ _)
  · intro h d' data' rs hin hrs r hr i field hf _
    by_cases hbool : field.type = .bool
    · exact h d' data' rs hin hrs r hr i field hf hbool
    · obtain ⟨m', hm'⟩ := hin.decode (messageUnpack_decode hrun)
      obtain ⟨rs', hrs', -, hfold⟩ := decode_eq_some.mp hm'
      rw [hrs, Option.some.injEq] at hrs'
      subst hrs'
      obtain ⟨m₁, m₂, hstep⟩ := foldRecords_mem hfold hr
      rcases messageStep_known hstep hf with ⟨hl, hp⟩ | hval
      · have hpack : isPackableType field.type = true := by
          cases hpk : isPackableType field.type with
          | true => rfl
          | false =>
            rw [((S.generated d').field_generated hf).not_packed hpk] at hp
            exact absurd hp (by simp)
        have hwire : r.wireType = .lengthPrefixed := by
          simp only [isPackedRecord, decide_eq_true_eq] at hp
          exact hp.1
        exact .inr ⟨hwire, hl, hpack⟩
      · exact .inl (decodeValue_wireType hval hbool)

/-- `messageUnpack_wireTypes` on an input with a sub-message, a field that comes twice, and an unknown
field. -/
theorem messageUnpack_wireTypes_nested :
    RecordsMatch nestedSchema Set.univ 0 nestedBytes ↔ RecordsMatch nestedSchema {.bool} 0 nestedBytes :=
  messageUnpack_wireTypes messageUnpack_nestedBytes

/-- One `required bool` field with number 1. -/
def boolSchema : Schema :=
  Schema.uniform [.scalar .required .bool 1]
    (by simpa using FieldDescriptor.generated_scalar (by decide) (by decide)) (by simp)

/-- A record of wire type 64BIT is accepted for a field of type `bool`. -/
theorem messageUnpack_wireTypes_fails : ∃ (s' : ℕ × List ℕ) (a : Addr) (m : Message),
    messageUnpack countingHeap.toAllocator boolSchema 0 [9, 1, 0, 0, 0, 0, 0, 0, 0] (0, []) =
      .ok (.ref a m, s') ∧
    ¬ RecordsMatch boolSchema Set.univ 0 [9, 1, 0, 0, 0, 0, 0, 0, 0] := by
  refine ⟨_, _, _, rfl, fun h => ?_⟩
  have hrs : tokenize [9, 1, 0, 0, 0, 0, 0, 0, 0] = some [⟨1, .bit64, [1, 0, 0, 0, 0, 0, 0, 0]⟩] := by
    rw [tokenize_cons (by simp) (show nextRecord [9, 1, 0, 0, 0, 0, 0, 0, 0] =
      some (⟨1, .bit64, [1, 0, 0, 0, 0, 0, 0, 0]⟩, []) from rfl)]
    simp
  rcases h 0 _ _ (.self _ _) hrs _ (List.mem_singleton.mpr rfl) 0 (.scalar .required .bool 1) rfl
    (Set.mem_univ _) with hwire | ⟨-, hlabel, -⟩
  · exact absurd hwire (by decide)
  · exact absurd hlabel (by decide)

end ProtobufC
