import ProtobufC.Runtime.VarintPack
import ProtobufC.Runtime.VarintParse

/-! # Records

The abstract view of a serialised message: a sequence of records, each a tag, a wire type and a
payload.  `nextRecord` takes the first record off a byte string and `tokenize` all of them, in one
pass and without any table; `Record.bytes` writes a record back.  `tokenize_bytes` says that
well-formed records survive.
-/

namespace ProtobufC
open Library
set_option autoImplicit false

/-- A tag, a wire type and the bytes between this tag and the next one. -/
structure Record where
  tag : UInt32
  wireType : WireType
  payload : List UInt8
  deriving DecidableEq, Repr

/-- The number that a length prefix of `i + 1` digits denotes, in 32 bits. -/
def prefixValue (i : ℕ) (data : List UInt8) : ℕ := base128Value (data.take (i + 1)) % 2 ^ 32

/-- The length of the payload at the head of `data`. -/
def payloadLength (wire : WireType) (data : List UInt8) : Option ℕ :=
  match wire with
  | .varint => (findLastDigit 10 data).map (· + 1)
  | .bit64 => if data.length < 8 then none else some 8
  | .lengthPrefixed =>
      match findLastDigit 5 data with
      | none => none
      | some i =>
          if i + 1 + prefixValue i data > data.length then none
          else some (i + 1 + prefixValue i data)
  | .bit32 => if data.length < 4 then none else some 4
  | _ => none

/-- The payload is complete and nothing follows it. -/
def Record.WellFormed (r : Record) : Prop := payloadLength r.wireType r.payload = some r.payload.length

instance (r : Record) : Decidable r.WellFormed :=
  inferInstanceAs (Decidable (payloadLength r.wireType r.payload = some r.payload.length))

/-- The length of the length prefix. -/
def Record.prefixLen (r : Record) : ℕ :=
  match r.wireType with
  | .lengthPrefixed => ((findLastDigit 5 r.payload).map (· + 1)).getD 0
  | _ => 0

/-- The payload behind the length prefix. -/
def Record.body (r : Record) : List UInt8 := r.payload.drop r.prefixLen

def Record.bytes (r : Record) : List UInt8 := orFirst (tagPack r.tag) r.wireType.code ++ r.payload

/-- The first record of a byte string and what follows it. -/
def nextRecord (data : List UInt8) : Option (Record × List UInt8) := do
  let (used, tag, wire) ← parseTagAndWiretype data
  let len ← payloadLength wire (data.drop used)
  some (⟨tag, wire, (data.drop used).take len⟩, (data.drop used).drop len)

/-! ## Payloads -/

theorem payloadLength_pos {wire : WireType} {data : List UInt8} {len : ℕ}
    (h : payloadLength wire data = some len) : 0 < len ∧ len ≤ data.length := by
  unfold payloadLength at h
  cases wire with
  | varint =>
    obtain ⟨i, hi, rfl⟩ := Option.map_eq_some_iff.mp h
    have := findLastDigit_lt hi
    omega
  | bit64 | bit32 =>
    simp only at h
    split_ifs at h
    simp only [Option.some.injEq] at h
    omega
  | lengthPrefixed =>
    simp only at h
    split at h
    · exact absurd h (by simp)
    · split_ifs at h
      simp only [Option.some.injEq] at h
      omega
  | _ => exact absurd h (by simp)

theorem findLastDigit_take {max i k : ℕ} {data : List UInt8} (h : findLastDigit max data = some i)
    (hk : i < k) : findLastDigit max (data.take k) = some i := by
  unfold findLastDigit at h ⊢
  obtain ⟨hi, hb, hmin⟩ := List.findIdx?_eq_some_iff_getElem.mp h
  refine List.findIdx?_eq_some_iff_getElem.mpr ⟨?_, ?_, ?_⟩
  · simp only [List.length_take] at hi ⊢
    omega
  · simpa using hb
  · intro j hj
    simpa using hmin j hj

theorem findLastDigit_append_right {max i : ℕ} {data : List UInt8}
    (h : findLastDigit max data = some i) (rest : List UInt8) :
    findLastDigit max (data ++ rest) = some i := by
  unfold findLastDigit at h ⊢
  obtain ⟨hi, hb, hmin⟩ := List.findIdx?_eq_some_iff_getElem.mp h
  have hlen : i < max ∧ i < data.length := by
    rw [List.length_take] at hi
    omega
  refine List.findIdx?_eq_some_iff_getElem.mpr ⟨?_, ?_, ?_⟩
  · rw [List.length_take, List.length_append]
    omega
  · simp only [List.getElem_take] at hb ⊢
    rwa [List.getElem_append_left hlen.2]
  · intro j hj
    have := hmin j hj
    simp only [List.getElem_take] at this ⊢
    rwa [List.getElem_append_left (by omega)]

theorem prefixValue_take {i k : ℕ} {data : List UInt8} (hk : i < k) :
    prefixValue i (data.take k) = prefixValue i data := by
  unfold prefixValue
  rw [List.take_take, Nat.min_eq_left (by omega)]

theorem prefixValue_append {i : ℕ} {data : List UInt8} (hi : i < data.length) (rest : List UInt8) :
    prefixValue i (data ++ rest) = prefixValue i data := by
  unfold prefixValue
  rw [List.take_append_of_le_length (by omega)]

theorem payloadLength_take {wire : WireType} {data : List UInt8} {len : ℕ}
    (h : payloadLength wire data = some len) :
    payloadLength wire (data.take len) = some (data.take len).length := by
  have hlen := payloadLength_pos h
  rw [List.length_take, Nat.min_eq_left hlen.2]
  unfold payloadLength at h ⊢
  cases wire with
  | varint =>
    obtain ⟨i, hi, rfl⟩ := Option.map_eq_some_iff.mp h
    simp only [findLastDigit_take hi (Nat.lt_succ_self i), Option.map_some]
  | bit64 | bit32 =>
    simp only at h ⊢
    split_ifs at h
    simp only [Option.some.injEq] at h
    rw [if_neg (by rw [List.length_take]; omega), h]
  | lengthPrefixed =>
    simp only at h ⊢
    split at h
    · exact absurd h (by simp)
    · rename_i i hi
      split_ifs at h with hgt
      simp only [Option.some.injEq] at h
      rw [findLastDigit_take hi (show i < len by omega)]
      simp only [prefixValue_take (show i < len by omega), List.length_take]
      rw [if_neg (by omega), h]
  | _ => exact absurd h (by simp)

theorem payloadLength_append {wire : WireType} {data : List UInt8} {len : ℕ}
    (h : payloadLength wire data = some len) (rest : List UInt8) :
    payloadLength wire (data ++ rest) = some len := by
  unfold payloadLength at h ⊢
  cases wire with
  | varint =>
    obtain ⟨i, hi, rfl⟩ := Option.map_eq_some_iff.mp h
    simp only [findLastDigit_append_right hi, Option.map_some]
  | bit64 | bit32 =>
    simp only at h ⊢
    split_ifs at h
    rw [if_neg (by rw [List.length_append]; omega), h]
  | lengthPrefixed =>
    simp only at h ⊢
    split at h
    · exact absurd h (by simp)
    · rename_i i hi
      split_ifs at h with hgt
      have hlt := findLastDigit_lt hi
      rw [findLastDigit_append_right hi]
      simp only [prefixValue_append hlt.2, List.length_append]
      rw [if_neg (by omega), h]
  | _ => exact absurd h (by simp)

/-! ## Tags -/

theorem wireType_ofByte_numeral (w : WireType) (n : ℕ) :
    WireType.ofByte (byteAt (base128 (n * 8 + w.code.toNat)) 0) = w := by
  have hc := w.code_lt
  have hbyte : (byteAt (base128 (n * 8 + w.code.toNat)) 0 &&& 7).toNat = w.code.toNat := by
    rw [UInt8.toNat_and, show (UInt8.toNat 7) = 2 ^ 3 - 1 from rfl, Nat.and_two_pow_sub_one_eq_mod]
    by_cases h : n * 8 + w.code.toNat < 128
    · rw [base128_of_lt h, byteAt, List.getD_cons_zero, uint8_toNat_ofNat (by omega)]
      omega
    · rw [base128_of_ge (by omega), byteAt, List.getD_cons_zero, uint8_toNat_ofNat (by omega)]
      omega
  unfold WireType.ofByte
  rw [hbyte]
  cases w <;> rfl

theorem byteAt_append {bs : List UInt8} {i : ℕ} (h : i < bs.length) (rest : List UInt8) :
    byteAt (bs ++ rest) i = byteAt bs i := by
  unfold byteAt
  rw [List.getD_eq_getElem?_getD, List.getElem?_append_left h, List.getD_eq_getElem?_getD]

theorem parseTagAndWiretype_append (tag : UInt32) (w : WireType) (rest : List UInt8) :
    parseTagAndWiretype (orFirst (tagPack tag) w.code ++ rest) =
      some ((orFirst (tagPack tag) w.code).length, tag, w) := by
  have htag := tag.toNat_lt
  have hc := w.code_lt
  rw [orFirst_tagPack]
  set n := tag.toNat * 8 + w.code.toNat with hn
  have hne := base128_ne_nil n
  have hpos := length_base128_pos n
  rw [parseTagAndWiretype_eq (by simp [hne]),
    findLastDigit_append (terminated_base128 n) (length_base128_le (k := 4) (by omega)),
    Option.map_some, Nat.sub_add_cancel hpos, List.take_left, base128Value_base128]
  congr 3
  · apply UInt32.toNat_inj.mp
    rw [UInt32.toNat_ofNat']
    omega
  · rw [byteAt_append hpos]
    exact wireType_ofByte_numeral w tag.toNat

theorem parseTagAndWiretype_used {data : List UInt8} (hne : data ≠ []) {used : ℕ} {tag : UInt32}
    {wire : WireType} (h : parseTagAndWiretype data = some (used, tag, wire)) :
    0 < used ∧ used ≤ 5 ∧ used ≤ data.length := by
  rw [parseTagAndWiretype_eq hne] at h
  obtain ⟨i, hi, he⟩ := Option.map_eq_some_iff.mp h
  have := findLastDigit_lt hi
  simp only [Prod.mk.injEq] at he
  omega

/-! ## One record -/

theorem nextRecord_eq_some {data : List UInt8} {r : Record} {rest : List UInt8} :
    nextRecord data = some (r, rest) ↔ ∃ used len, parseTagAndWiretype data =
      some (used, r.tag, r.wireType) ∧ payloadLength r.wireType (data.drop used) = some len ∧
        r.payload = (data.drop used).take len ∧ rest = (data.drop used).drop len := by
  unfold nextRecord
  constructor
  · intro h
    cases hp : parseTagAndWiretype data with
    | none => simp [hp] at h
    | some p =>
      obtain ⟨used, tag, wire⟩ := p
      cases hl : payloadLength wire (data.drop used) with
      | none => simp [hp, hl] at h
      | some len =>
        simp only [hp, hl, Option.bind_eq_bind, Option.bind_some, Option.some.injEq,
          Prod.mk.injEq] at h
        obtain ⟨rfl, rfl⟩ := h
        exact ⟨used, len, rfl, hl, rfl, rfl⟩
  · rintro ⟨used, len, hp, hl, hpay, rfl⟩
    obtain ⟨tag, wire, payload⟩ := r
    simp only at hp hl hpay
    simp [hp, hl, hpay]

theorem nextRecord_wellFormed {data : List UInt8} {r : Record} {rest : List UInt8}
    (h : nextRecord data = some (r, rest)) : r.WellFormed := by
  obtain ⟨used, len, -, hl, hpay, -⟩ := nextRecord_eq_some.mp h
  unfold Record.WellFormed
  rw [hpay]
  exact payloadLength_take hl

theorem nextRecord_length {data : List UInt8} (hne : data ≠ []) {r : Record} {rest : List UInt8}
    (h : nextRecord data = some (r, rest)) : rest.length + r.payload.length + 1 ≤ data.length := by
  obtain ⟨used, len, hp, hl, hpay, rfl⟩ := nextRecord_eq_some.mp h
  have hused := parseTagAndWiretype_used hne hp
  have hlen := payloadLength_pos hl
  rw [hpay]
  simp only [List.length_drop, List.length_take] at hlen ⊢
  omega

theorem Record.bytes_ne_nil (r : Record) : r.bytes ≠ [] := by
  unfold Record.bytes
  rw [orFirst_tagPack]
  simp [base128_ne_nil]

/-- A well-formed record at the head of a byte string is taken off. -/
theorem nextRecord_bytes {r : Record} (h : r.WellFormed) (rest : List UInt8) :
    nextRecord (r.bytes ++ rest) = some (r, rest) := by
  rw [nextRecord_eq_some]
  refine ⟨(orFirst (tagPack r.tag) r.wireType.code).length, r.payload.length, ?_, ?_, ?_, ?_⟩
  · rw [Record.bytes, List.append_assoc]
    exact parseTagAndWiretype_append r.tag r.wireType _
  · rw [Record.bytes, List.append_assoc, List.drop_left]
    exact payloadLength_append h rest
  · rw [Record.bytes, List.append_assoc, List.drop_left, List.take_left]
  · rw [Record.bytes, List.append_assoc, List.drop_left, List.drop_left]

/-! ## All records -/

/-- The records of a byte string, when it is a sequence of complete records. -/
def tokenize (data : List UInt8) : Option (List Record) :=
  if hne : data = [] then some []
  else
    match h : nextRecord data with
    | none => none
    | some (r, rest) =>
        have : rest.length < data.length := by
          have := nextRecord_length hne h
          omega
        (tokenize rest).map (r :: ·)
termination_by data.length

@[simp] theorem tokenize_nil : tokenize [] = some [] := by
  rw [tokenize, dif_pos rfl]

theorem tokenize_eq {data : List UInt8} (hne : data ≠ []) :
    tokenize data = (nextRecord data).bind fun p => (tokenize p.2).map (p.1 :: ·) := by
  rw [tokenize, dif_neg hne]
  split
  · rename_i h
    simp only [h, Option.bind_none]
  · rename_i h
    simp only [h, Option.bind_some]

theorem tokenize_cons {data : List UInt8} (hne : data ≠ []) {r : Record} {rest : List UInt8}
    (h : nextRecord data = some (r, rest)) : tokenize data = (tokenize rest).map (r :: ·) := by
  rw [tokenize_eq hne, h, Option.bind_some]

theorem tokenize_none {data : List UInt8} (hne : data ≠ []) (h : nextRecord data = none) :
    tokenize data = none := by
  rw [tokenize_eq hne, h, Option.bind_none]

theorem tokenize_induction {P : List UInt8 → List Record → Prop} (nil : P [] [])
    (cons : ∀ data r rest rs, data ≠ [] → nextRecord data = some (r, rest) →
      tokenize rest = some rs → P rest rs → P data (r :: rs)) :
    ∀ {data : List UInt8} {rs : List Record}, tokenize data = some rs → P data rs := by
  intro data
  induction data using tokenize.induct with
  | case1 =>
    intro rs h
    rw [tokenize_nil, Option.some.injEq] at h
    exact h ▸ nil
  | case2 data hne hn =>
    intro rs h
    rw [tokenize_none hne hn] at h
    exact absurd h (by simp)
  | case3 data hne r rest hn _ ih =>
    intro rs h
    rw [tokenize_cons hne hn] at h
    obtain ⟨rs', hrs', rfl⟩ := Option.map_eq_some_iff.mp h
    exact cons data r rest rs' hne hn hrs' (ih hrs')

theorem tokenize_wellFormed {data : List UInt8} {rs : List Record} (h : tokenize data = some rs) :
    ∀ r ∈ rs, r.WellFormed := by
  refine tokenize_induction (P := fun _ rs => ∀ r ∈ rs, r.WellFormed) (by simp) ?_ h
  · intro data r rest rs _ hn _ ih r' hr'
    rcases List.mem_cons.mp hr' with rfl | hr'
    · exact nextRecord_wellFormed hn
    · exact ih r' hr'

theorem tokenize_length {data : List UInt8} {rs : List Record} (h : tokenize data = some rs) :
    (rs.map fun r => r.payload.length + 1).sum ≤ data.length := by
  refine tokenize_induction
    (P := fun data rs => (rs.map fun r => r.payload.length + 1).sum ≤ data.length) (by simp) ?_ h
  · intro data r rest rs hne hn _ ih
    have := nextRecord_length hne hn
    rw [List.map_cons, List.sum_cons]
    omega

theorem tokenize_append {r : Record} (h : r.WellFormed) (rest : List UInt8) :
    tokenize (r.bytes ++ rest) = (tokenize rest).map (r :: ·) :=
  tokenize_cons (by simp [r.bytes_ne_nil]) (nextRecord_bytes h rest)

theorem tokenize_bytes {rs : List Record} (h : ∀ r ∈ rs, r.WellFormed) :
    tokenize (rs.flatMap Record.bytes) = some rs := by
  induction rs with
  | nil => simp
  | cons r rs ih =>
    rw [List.flatMap_cons, tokenize_append (h r (by simp)), ih fun r' hr' => h r' (by simp [hr'])]
    rfl

end ProtobufC
