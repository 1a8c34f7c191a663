import ProtobufC.Runtime.Unpack
import ProtobufC.Wire.Record

/-! # The length prefix in 32 bits

`scan_length_prefixed_data` adds the length of the prefix to its value in 32 bits.  `payloadLength`
adds them as numbers, so that the two agree until the sum reaches `2^32`; a prefix whose sum passes
it is `Wrapped`.  What the scan finds behind a wrapped prefix is `Doomed`: it still stands inside the
prefix, where every byte has the unsupported wire type 7.
-/

namespace ProtobufC
open Library
set_option autoImplicit false

/-! ## The sum -/

theorem findLastDigit_min (data : List UInt8) :
    findLastDigit (if data.length < 5 then data.length else 5) data = findLastDigit 5 data := by
  unfold findLastDigit
  split_ifs with h
  · rw [List.take_of_length_le le_rfl, List.take_of_length_le (by omega)]
  · rfl

theorem scanLengthLoop_start (data : List UInt8) :
    scanLengthLoop (if data.length < 5 then data.length else 5) data 0 0 0 =
      (findLastDigit 5 data).map fun i =>
        (i, UInt32.ofNat (base128Value (data.take (i + 1)))) := by
  have hmax : (if data.length < 5 then data.length else 5) ≤ 5 := by split_ifs <;> omega
  rw [scanLengthLoop_eq _ _ _ _ _ (by simp) (by omega), findLastDigit_min]
  simp

theorem scanLengthPrefixedData_eq {data : List UInt8} {i : ℕ}
    (h : findLastDigit 5 data = some i) :
    scanLengthPrefixedData data =
      if (i + 1 + prefixValue i data) % 2 ^ 32 > data.length then (0, i + 1)
      else (UInt32.ofNat (i + 1 + prefixValue i data), i + 1) := by
  have hsum : UInt32.ofNat (i + 1) + UInt32.ofNat (base128Value (data.take (i + 1))) =
      UInt32.ofNat (i + 1 + prefixValue i data) := by
    apply UInt32.toNat_inj.mp
    rw [UInt32.toNat_add, UInt32.toNat_ofNat', UInt32.toNat_ofNat', UInt32.toNat_ofNat',
      prefixValue]
    omega
  simp only [scanLengthPrefixedData, scanLengthLoop_start, h, Option.map_some, hsum,
    UInt32.toNat_ofNat']

theorem scanLengthPrefixedData_none {data : List UInt8} (h : findLastDigit 5 data = none) :
    scanLengthPrefixedData data = (0, 0) := by
  simp only [scanLengthPrefixedData, scanLengthLoop_start, h, Option.map_none]

theorem prefixValue_lt (i : ℕ) (data : List UInt8) : prefixValue i data < 2 ^ 32 :=
  Nat.mod_lt _ (by norm_num)

theorem prefixValue_short {i : ℕ} {data : List UInt8} (hi : i < 4) :
    prefixValue i data < 2 ^ 28 := by
  have hval := base128Value_lt (data.take (i + 1))
  have hlen : (data.take (i + 1)).length ≤ 4 := by
    rw [List.length_take]
    omega
  have hpow : (128 : ℕ) ^ (data.take (i + 1)).length ≤ 128 ^ 4 :=
    Nat.pow_le_pow_right (by norm_num) hlen
  unfold prefixValue
  omega

/-! ## Wrapped prefixes -/

/-- The data starts with a length prefix that wraps around when its length is added. -/
def WrappedPrefix (data : List UInt8) : Prop :=
  ∃ i, findLastDigit 5 data = some i ∧ 2 ^ 32 < i + 1 + prefixValue i data

/-- The record at the head of the data has a wrapped length prefix. -/
def Wrapped (data : List UInt8) : Prop :=
  ∃ used tag, parseTagAndWiretype data = some (used, tag, .lengthPrefixed) ∧
    WrappedPrefix (data.drop used)

/-- No record can be taken off the data. -/
def Doomed (data : List UInt8) : Prop :=
  ∀ used tag wire, parseTagAndWiretype data = some (used, tag, wire) → wire = .unnamed7

/-- A wrapped prefix has five digits, all ones but the lowest two bits. -/
theorem WrappedPrefix.digits {data : List UInt8} (h : WrappedPrefix data) :
    findLastDigit 5 data = some 4 ∧ 2 ^ 32 - 5 < prefixValue 4 data ∧
      ∃ b₀ b₁ b₂ b₃ b₄ rest, data = b₀ :: b₁ :: b₂ :: b₃ :: b₄ :: rest ∧
        b₁.toNat % 8 = 7 ∧ b₂.toNat % 8 = 7 ∧ b₃.toNat % 8 = 7 ∧ b₄.toNat % 8 = 7 := by
  obtain ⟨i, hi, hv⟩ := h
  have hlt := findLastDigit_lt hi
  have hi4 : i = 4 := by
    by_contra hne
    have : prefixValue i data < 2 ^ 28 := prefixValue_short (by omega)
    omega
  subst hi4
  refine ⟨hi, by omega, ?_⟩
  match data, hlt with
  | b₀ :: b₁ :: b₂ :: b₃ :: b₄ :: rest, _ =>
    refine ⟨b₀, b₁, b₂, b₃, b₄, rest, rfl, ?_⟩
    simp only [prefixValue, List.take_succ_cons, List.take_zero, base128Value, Nat.mul_zero,
      Nat.add_zero] at hv
    have h₀ := b₀.toNat_lt
    omega

/-- The scan leaves a wrapped prefix after its first to fourth byte, and takes nothing more off. -/
theorem WrappedPrefix.doomed {data : List UInt8} (h : WrappedPrefix data) {len : ℕ}
    (h1 : 1 ≤ len) (h4 : len ≤ 4) : Doomed (data.drop len) := by
  obtain ⟨-, -, b₀, b₁, b₂, b₃, b₄, rest, rfl, hb₁, hb₂, hb₃, hb₄⟩ := h.digits
  have hhead : ∀ (b : UInt8) (bs : List UInt8), b.toNat % 8 = 7 → Doomed (b :: bs) := by
    intro b bs hb used tag wire hp
    rw [parseTagAndWiretype_eq (by simp)] at hp
    obtain ⟨i, -, he⟩ := Option.map_eq_some_iff.mp hp
    simp only [Prod.mk.injEq] at he
    have hbits : (byteAt (b :: bs) 0 &&& 7).toNat = 7 := by
      rw [UInt8.toNat_and, show (UInt8.toNat 7) = 2 ^ 3 - 1 from rfl,
        Nat.and_two_pow_sub_one_eq_mod]
      exact hb
    rw [← he.2.2, WireType.ofByte]
    simp only [hbits]
  obtain rfl | rfl | rfl | rfl : len = 1 ∨ len = 2 ∨ len = 3 ∨ len = 4 := by omega
  · exact hhead b₁ _ hb₁
  · exact hhead b₂ _ hb₂
  · exact hhead b₃ _ hb₃
  · exact hhead b₄ _ hb₄

/-! ## The payload found by the scan -/

/-- The length of the length prefix that the scan reports. -/
def scannedPrefixLen (wire : WireType) (data : List UInt8) : ℕ :=
  match wire with
  | .lengthPrefixed => ((findLastDigit 5 data).map (· + 1)).getD 0
  | _ => 0

theorem WrappedPrefix.scanPayload_eq {data : List UInt8} (h : WrappedPrefix data) :
    ∃ len, 1 ≤ len ∧ len ≤ 4 ∧ scanPayload .lengthPrefixed data = some (len, 5) := by
  obtain ⟨hi, hlt, b₀, b₁, b₂, b₃, b₄, rest, hdata, -⟩ := h.digits
  have hv := prefixValue_lt 4 data
  have hlong : 5 ≤ data.length := by
    rw [hdata]
    simp
  have hmod : ¬ (4 + 1 + prefixValue 4 data) % 2 ^ 32 > data.length := by omega
  have hne : UInt32.ofNat (4 + 1 + prefixValue 4 data) ≠ 0 := by
    intro h0
    have := congrArg UInt32.toNat h0
    rw [UInt32.toNat_ofNat', UInt32.toNat_zero] at this
    omega
  refine ⟨(4 + 1 + prefixValue 4 data) % 2 ^ 32, by omega, by omega, ?_⟩
  simp only [scanPayload, scanLengthPrefixedData_eq hi, hmod, if_false, hne, UInt32.toNat_ofNat']

/-- Behind a prefix that does not wrap around, the scan finds the payload or an error. -/
theorem scanPayload_prefixed {data : List UInt8} (h : ¬ WrappedPrefix data) :
    (scanPayload .lengthPrefixed data = none ∧
      (payloadLength .lengthPrefixed data = none ∨ 2 ^ 32 ≤ data.length)) ∨
    (∃ len, scanPayload .lengthPrefixed data = some (len, scannedPrefixLen .lengthPrefixed data) ∧
      payloadLength .lengthPrefixed data = some len ∧ len < 2 ^ 32 ∧
        scannedPrefixLen .lengthPrefixed data ≤ len) := by
  cases hi : findLastDigit 5 data with
  | none =>
    refine .inl ⟨?_, .inl (by simp [payloadLength, hi])⟩
    simp [scanPayload, scanLengthPrefixedData_none hi]
  | some i =>
    have hlt := findLastDigit_lt hi
    have hv := prefixValue_lt i data
    have hle : i + 1 + prefixValue i data ≤ 2 ^ 32 := by
      by_contra hgt
      exact h ⟨i, hi, by omega⟩
    rcases hle.lt_or_eq with hlt' | heq
    · -- no carry out of the 32 bits
      by_cases hlen : i + 1 + prefixValue i data > data.length
      · refine .inl ⟨?_, .inl ?_⟩
        · simp only [scanPayload, scanLengthPrefixedData_eq hi, Nat.mod_eq_of_lt hlt', hlen, if_true]
        · simp [payloadLength, hi, hlen]
      · refine .inr ⟨i + 1 + prefixValue i data, ?_, ?_, hlt', ?_⟩
        · have hne : UInt32.ofNat (i + 1 + prefixValue i data) ≠ 0 := by
            intro h0
            have := congrArg UInt32.toNat h0
            rw [UInt32.toNat_ofNat', Nat.mod_eq_of_lt hlt', UInt32.toNat_zero] at this
            omega
          simp only [scanPayload, scanLengthPrefixedData_eq hi, Nat.mod_eq_of_lt hlt', hlen,
            if_false, hne, UInt32.toNat_ofNat', scannedPrefixLen, hi, Option.map_some,
            Option.getD_some]
        · simp [payloadLength, hi, hlen]
        · simp only [scannedPrefixLen, hi, Option.map_some, Option.getD_some]
          omega
    · -- the sum is 0: reported as an error
      refine .inl ⟨by simp [scanPayload, scanLengthPrefixedData_eq hi, heq], ?_⟩
      by_cases hlen : 2 ^ 32 ≤ data.length
      · exact .inr hlen
      · refine .inl ?_
        simp only [payloadLength, hi]
        rw [if_pos (by omega)]

/-- What the scan finds: an error where there is no complete payload, that payload, or a wrapped
prefix, of which it takes one to four bytes. -/
theorem scanPayload_cases (wire : WireType) (data : List UInt8) :
    (¬ (wire = .lengthPrefixed ∧ WrappedPrefix data) ∧ scanPayload wire data = none ∧
      (payloadLength wire data = none ∨ 2 ^ 32 ≤ data.length)) ∨
    (¬ (wire = .lengthPrefixed ∧ WrappedPrefix data) ∧
      ∃ len, scanPayload wire data = some (len, scannedPrefixLen wire data) ∧
        payloadLength wire data = some len ∧ len < 2 ^ 32 ∧ scannedPrefixLen wire data ≤ len) ∨
    (wire = .lengthPrefixed ∧ WrappedPrefix data ∧ ∃ len, 1 ≤ len ∧ len ≤ 4 ∧
      scanPayload wire data = some (len, 5)) := by
  cases wire with
  | varint =>
    cases h : findLastDigit 10 data with
    | none => exact .inl ⟨by simp, by simp [scanPayload, h], .inl (by simp [payloadLength, h])⟩
    | some i =>
      have := findLastDigit_lt h
      exact .inr (.inl ⟨by simp, i + 1, by simp [scanPayload, h, scannedPrefixLen],
        by simp [payloadLength, h], by omega, by simp [scannedPrefixLen]⟩)
  | bit64 =>
    by_cases h : data.length < 8
    · exact .inl ⟨by simp, by simp [scanPayload, h], .inl (by simp [payloadLength, h])⟩
    · exact .inr (.inl ⟨by simp, 8, by simp [scanPayload, h, scannedPrefixLen],
        by simp [payloadLength, h], by norm_num, by simp [scannedPrefixLen]⟩)
  | bit32 =>
    by_cases h : data.length < 4
    · exact .inl ⟨by simp, by simp [scanPayload, h], .inl (by simp [payloadLength, h])⟩
    · exact .inr (.inl ⟨by simp, 4, by simp [scanPayload, h, scannedPrefixLen],
        by simp [payloadLength, h], by norm_num, by simp [scannedPrefixLen]⟩)
  | lengthPrefixed =>
    by_cases h : WrappedPrefix data
    · exact .inr (.inr ⟨rfl, h, h.scanPayload_eq⟩)
    · exact (scanPayload_prefixed h).imp (⟨by simp [h], ·⟩) fun hlen => .inl ⟨by simp [h], hlen⟩
  | startGroup | endGroup | unnamed6 | unnamed7 => exact .inl ⟨by simp, rfl, .inl rfl⟩

theorem Wrapped.nextRecord_eq_none {data : List UInt8} (h : Wrapped data)
    (hlen : data.length < 2 ^ 32) : nextRecord data = none := by
  obtain ⟨used, tag, hp, hw⟩ := h
  obtain ⟨hi, hv, -⟩ := hw.digits
  have hdrop : (data.drop used).length ≤ data.length := by
    rw [List.length_drop]
    omega
  have hpay : payloadLength .lengthPrefixed (data.drop used) = none := by
    simp only [payloadLength, hi]
    rw [if_pos (by omega)]
  simp [nextRecord, hp, hpay]

end ProtobufC
