import ProtobufC.Library.Base128
import ProtobufC.Library.MachineInt
import ProtobufC.Runtime.Varint

/-! # What the scalar `_pack` and `_size` functions write

Each varint `_pack` function writes the minimal base-128 numeral of its value, and the `_size`
function of the same type returns its length.
-/

namespace ProtobufC
open Library
set_option autoImplicit false

/-! ## Digits -/

theorem toUInt8_or_0x80 (v : UInt32) : (v ||| 0x80).toUInt8 = UInt8.ofNat (v.toNat % 128 + 128) := by
  apply UInt8.toNat_inj.mp
  rw [uint8_toNat_ofNat (by omega), UInt32.toNat_toUInt8, UInt32.toNat_or]
  rw [Nat.or_mod_two_pow (n := 8)]
  have h : v.toNat % 2 ^ 8 ||| (UInt32.toNat 128) % 2 ^ 8 = v.toNat % 256 % 128 + 128 := by
    have : ∀ x : Fin 256, x.val ||| 128 = x.val % 128 + 128 := by decide +kernel
    exact this ⟨v.toNat % 256, Nat.mod_lt _ (by norm_num)⟩
  rw [h]; omega

theorem uint32_shiftRight_7 (v : UInt32) : (v >>> 7).toNat = v.toNat / 128 :=
  uint32_shiftRight_toNat v (k := 7) (by norm_num)

theorem base128_uint32_ge {v : UInt32} (h : v ≥ 0x80) :
    base128 v.toNat = (v ||| 0x80).toUInt8 :: base128 (v >>> 7).toNat := by
  have hn : 128 ≤ v.toNat := UInt32.le_iff_toNat_le.mp h
  rw [base128_of_ge hn, toUInt8_or_0x80, uint32_shiftRight_7]

theorem base128_uint32_lt {v : UInt32} (h : v.toNat < 128) : base128 v.toNat = [v.toUInt8] := by
  rw [base128_of_lt h, toUInt8_eq_ofNat]

theorem toUInt8_shiftRight_or_0x80 (lo : UInt32) {k : ℕ} (hk : k < 32) :
    ((lo >>> UInt32.ofNat k) ||| 0x80).toUInt8 = UInt8.ofNat (lo.toNat / 2 ^ k % 128 + 128) := by
  rw [toUInt8_or_0x80, uint32_shiftRight_toNat lo hk]

theorem fifth_digit (hi lo : UInt32) :
    (hi <<< 4 ||| lo >>> 28).toNat = (hi.toNat * 16 + lo.toNat / 2 ^ 28) % 2 ^ 32 := by
  have hlo := lo.toNat_lt
  have h := uint32_or_shiftLeft (r := lo >>> 28) (d := hi) (k := 4) (by norm_num)
    (by rw [show (28 : UInt32) = UInt32.ofNat 28 from rfl, uint32_shiftRight_toNat lo (by norm_num)]
        omega)
  rw [show (28 : UInt32) = UInt32.ofNat 28 from rfl] at h ⊢
  rw [uint32_shiftRight_toNat lo (by norm_num)] at h
  rw [UInt32.or_comm, show (4 : UInt32) = UInt32.ofNat 4 from rfl, h]
  omega

/-! ## Unsigned values -/

theorem uint32Pack_eq (v : UInt32) : uint32Pack v = base128 v.toNat := by
  have hv := v.toNat_lt
  have hlt : ∀ w : UInt32, ¬ w ≥ 0x80 → w.toNat < 128 := by
    intro w hw
    exact Nat.lt_of_not_le fun h => hw (UInt32.le_iff_toNat_le.mpr h)
  unfold uint32Pack
  simp only
  split_ifs with h1 h2 h3 h4
  · rw [base128_uint32_ge h1, base128_uint32_ge h2, base128_uint32_ge h3, base128_uint32_ge h4,
      base128_uint32_lt]
    simp only [uint32_shiftRight_7]
    omega
  · rw [base128_uint32_ge h1, base128_uint32_ge h2, base128_uint32_ge h3,
      base128_uint32_lt (hlt _ h4)]
  · rw [base128_uint32_ge h1, base128_uint32_ge h2, base128_uint32_lt (hlt _ h3)]
  · rw [base128_uint32_ge h1, base128_uint32_lt (hlt _ h2)]
  · rw [base128_uint32_lt (hlt _ h1)]

theorem uint64PackLoop_eq (fuel : ℕ) : ∀ hi : UInt32, hi.toNat < 128 ^ (fuel + 1) →
    uint64PackLoop fuel hi = base128 hi.toNat := by
  induction fuel with
  | zero => intro hi h; rw [uint64PackLoop, base128_uint32_lt (by simpa using h)]
  | succ fuel ih =>
    intro hi h
    rw [uint64PackLoop]
    split_ifs with h1
    · rw [base128_uint32_ge h1, ih]
      rw [uint32_shiftRight_7, Nat.div_lt_iff_lt_mul (by norm_num)]
      rwa [pow_succ] at h
    · rw [base128_uint32_lt]
      exact Nat.lt_of_not_le fun h' => h1 (UInt32.le_iff_toNat_le.mpr h')

theorem uint64Pack_eq (v : UInt64) : uint64Pack v = base128 v.toNat := by
  have hv := v.toNat_lt
  have hhi : (v >>> 32).toUInt32.toNat = v.toNat / 2 ^ 32 := uint64_upper_toNat v
  have hlo : v.toUInt32.toNat = v.toNat % 2 ^ 32 := UInt64.toNat_toUInt32 v
  unfold uint64Pack
  simp only
  generalize (v >>> 32).toUInt32 = hi at hhi ⊢
  generalize v.toUInt32 = lo at hlo ⊢
  have hlolt := lo.toNat_lt
  have hdigits : 2 ^ 28 ≤ v.toNat → ∀ rest, [(lo ||| 0x80).toUInt8, (lo >>> 7 ||| 0x80).toUInt8,
      (lo >>> 14 ||| 0x80).toUInt8, (lo >>> 21 ||| 0x80).toUInt8] ++ rest = base128 v.toNat ↔
        rest = base128 (v.toNat / 2 ^ 28) := by
    intro hge rest
    have h7 := toUInt8_shiftRight_or_0x80 lo (k := 7) (by norm_num)
    have h14 := toUInt8_shiftRight_or_0x80 lo (k := 14) (by norm_num)
    have h21 := toUInt8_shiftRight_or_0x80 lo (k := 21) (by norm_num)
    have e0 : lo.toNat % 128 = v.toNat % 128 := by omega
    have e7 : lo.toNat / 2 ^ 7 % 128 = v.toNat / 2 ^ 7 % 128 := by omega
    have e14 : lo.toNat / 2 ^ 14 % 128 = v.toNat / 2 ^ 14 % 128 := by omega
    have e21 : lo.toNat / 2 ^ 21 % 128 = v.toNat / 2 ^ 21 % 128 := by omega
    rw [e7] at h7
    rw [e14] at h14
    rw [e21] at h21
    rw [base128_of_four_digits hge, toUInt8_or_0x80, e0]
    simp only [UInt32.reduceOfNat] at h7 h14 h21
    simp [h7, h14, h21]
  split_ifs with h0 h8
  · have : hi.toNat = 0 := by rw [h0]; rfl
    rw [uint32Pack_eq]
    congr 1
    omega
  · have hpos : 0 < hi.toNat := Nat.pos_of_ne_zero fun h => h0 (UInt32.toNat_inj.mp h)
    have hhi8 : hi.toNat < 8 := UInt32.lt_iff_toNat_lt.mp h8
    rw [hdigits (by omega), base128_of_lt (by omega), toUInt8_eq_ofNat, fifth_digit]
    congr 2
    omega
  · have hhi8 : 8 ≤ hi.toNat := Nat.le_of_not_lt fun h => h8 (UInt32.lt_iff_toNat_lt.mpr h)
    have hshift : (hi >>> 3).toNat = hi.toNat / 8 := uint32_shiftRight_toNat hi (k := 3) (by norm_num)
    have hand : (hi &&& 7).toNat = hi.toNat % 8 := by
      rw [UInt32.toNat_and]
      exact Nat.and_two_pow_sub_one_eq_mod hi.toNat 3
    have hhilt := hi.toNat_lt
    have e4 : (hi.toNat % 8 * 16 + lo.toNat / 2 ^ 28) % 2 ^ 32 % 128 = v.toNat / 2 ^ 28 % 128 := by
      omega
    have e5 : hi.toNat / 8 = v.toNat / 2 ^ 28 / 128 := by omega
    rw [hdigits (by omega), base128_of_ge (by omega), toUInt8_or_0x80, fifth_digit, hand,
      uint64PackLoop_eq _ _ (by omega), hshift, e4, e5]

theorem uint32Size_eq (v : UInt32) : uint32Size v = (base128 v.toNat).length := by
  have hv := v.toNat_lt
  have h7 : ((1 : UInt32) <<< 7).toNat = 128 ^ 1 := by decide
  have h14 : ((1 : UInt32) <<< 14).toNat = 128 ^ 2 := by decide
  have h21 : ((1 : UInt32) <<< 21).toNat = 128 ^ 3 := by decide
  have h28 : ((1 : UInt32) <<< 28).toNat = 128 ^ 4 := by decide
  unfold uint32Size
  simp only [UInt32.lt_iff_toNat_lt, h7, h14, h21, h28]
  split_ifs with h1 h2 h3 h4
  · rw [base128_of_lt (by omega)]
    rfl
  · rw [length_base128 (k := 1) (by omega) (by omega)]
  · rw [length_base128 (k := 2) (by omega) (by omega)]
  · rw [length_base128 (k := 3) (by omega) (by omega)]
  · rw [length_base128 (k := 4) (by omega) (by omega)]

theorem uint64Size_eq (v : UInt64) : uint64Size v = (base128 v.toNat).length := by
  have hv := v.toNat_lt
  have hhi : (v >>> 32).toUInt32.toNat = v.toNat / 2 ^ 32 := uint64_upper_toNat v
  have h3 : ((1 : UInt32) <<< 3).toNat = 2 ^ 3 := by decide
  have h10 : ((1 : UInt32) <<< 10).toNat = 2 ^ 10 := by decide
  have h17 : ((1 : UInt32) <<< 17).toNat = 2 ^ 17 := by decide
  have h24 : ((1 : UInt32) <<< 24).toNat = 2 ^ 24 := by decide
  have h31 : ((1 : UInt32) <<< 31).toNat = 2 ^ 31 := by decide
  unfold uint64Size
  simp only [UInt32.lt_iff_toNat_lt, h3, h10, h17, h24, h31, ← UInt32.toNat_inj, UInt32.toNat_zero,
    hhi]
  split_ifs with c0 c1 c2 c3 c4 c5
  · rw [uint32Size_eq, UInt64.toNat_toUInt32, Nat.mod_eq_of_lt (by omega)]
  · rw [length_base128 (k := 4) (by omega) (by omega)]
  · rw [length_base128 (k := 5) (by omega) (by omega)]
  · rw [length_base128 (k := 6) (by omega) (by omega)]
  · rw [length_base128 (k := 7) (by omega) (by omega)]
  · rw [length_base128 (k := 8) (by omega) (by omega)]
  · rw [length_base128 (k := 9) (by omega) (by omega)]

/-! ## Negative `int32` values -/

/-- The value, sign-extended to 64 bits. -/
def signExtended (v : Int32) : ℕ := v.toInt64.toUInt64.toNat

theorem signExtended_eq (v : Int32) : (signExtended v : ℤ) = v.toInt % 2 ^ 64 := by
  unfold signExtended
  have hv := v.toInt64.toUInt64.toNat_lt
  rw [← Int32.toInt_toInt64, ← Int64.toInt_toBitVec, BitVec.toInt_eq_toNat_bmod,
    show v.toInt64.toBitVec.toNat = v.toInt64.toUInt64.toNat from rfl,
    show (2 : ℤ) ^ 64 = (2 ^ 64 : ℕ) from rfl, Int.bmod_emod]
  omega

theorem int32_digit (v : Int32) {k : ℕ} (hk : k < 32) :
    ((v >>> Int32.ofNat k) ||| 0x80).toUInt32.toUInt8 =
      UInt8.ofNat ((v.toInt / 2 ^ k % 128).toNat + 128) := by
  have h := int32_toUInt32_toNat (v >>> Int32.ofNat k)
  rw [int32_shiftRight_toInt v hk] at h
  rw [Int32.toUInt32_or, show (0x80 : Int32).toUInt32 = 0x80 from rfl, toUInt8_or_0x80]
  congr 2
  generalize v.toInt / 2 ^ k = x at h ⊢
  omega

/-- `int32_pack` writes the minimal numeral of the sign-extended value. -/
theorem int32Pack_eq (v : Int32) : int32Pack v = base128 (signExtended v) := by
  have hs := signExtended_eq v
  have hlo := v.le_toInt
  have hhi := v.toInt_lt
  unfold int32Pack
  split_ifs with h
  · have hneg : v.toInt < 0 := Int32.lt_iff_toInt_lt.mp h
    have hdigit : ∀ k, k < 32 → (v.toInt / 2 ^ k % 128).toNat = signExtended v / 2 ^ k % 128 →
        ((v >>> Int32.ofNat k) ||| 0x80).toUInt32.toUInt8 =
          UInt8.ofNat (signExtended v / 2 ^ k % 128 + 128) := by
      intro k hk he
      rw [int32_digit v hk, he]
    have e0 : (v ||| 0x80).toUInt32.toUInt8 = UInt8.ofNat (signExtended v % 128 + 128) := by
      rw [Int32.toUInt32_or, show (0x80 : Int32).toUInt32 = 0x80 from rfl, toUInt8_or_0x80]
      have := int32_toUInt32_toNat v
      congr 2
      omega
    have e7 := hdigit 7 (by norm_num) (by omega)
    have e14 := hdigit 14 (by norm_num) (by omega)
    have e21 := hdigit 21 (by norm_num) (by omega)
    have e28 := hdigit 28 (by norm_num) (by omega)
    rw [base128_of_sign (by omega), ← e7, ← e14, ← e21, ← e28, ← e0]
    rfl
  · have hpos : 0 ≤ v.toInt := Int.not_lt.mp fun h' => h (Int32.lt_iff_toInt_lt.mpr h')
    have := int32_toUInt32_toNat v
    rw [uint32Pack_eq]
    congr 1
    omega

theorem int32Size_eq (v : Int32) : int32Size v = (base128 (signExtended v)).length := by
  have hs := signExtended_eq v
  have hlo := v.le_toInt
  have hhi := v.toInt_lt
  have h7 : ((1 : Int32) <<< 7).toInt = 128 := by decide
  have h14 : ((1 : Int32) <<< 14).toInt = 128 ^ 2 := by decide
  have h21 : ((1 : Int32) <<< 21).toInt = 128 ^ 3 := by decide
  have h28 : ((1 : Int32) <<< 28).toInt = 128 ^ 4 := by decide
  unfold int32Size
  simp only [Int32.lt_iff_toInt_lt, h7, h14, h21, h28, Int32.toInt_zero]
  split_ifs with h0 h1 h2 h3 h4
  · rw [base128_of_sign (by omega)]
    rfl
  · rw [base128_of_lt (by omega)]
    rfl
  · rw [length_base128 (k := 1) (by omega) (by omega)]
  · rw [length_base128 (k := 2) (by omega) (by omega)]
  · rw [length_base128 (k := 3) (by omega) (by omega)]
  · rw [length_base128 (k := 4) (by omega) (by omega)]

/-! ## Lengths -/

@[simp] theorem length_uint32Pack (v : UInt32) : (uint32Pack v).length = uint32Size v := by
  rw [uint32Pack_eq, uint32Size_eq]

@[simp] theorem length_uint64Pack (v : UInt64) : (uint64Pack v).length = uint64Size v := by
  rw [uint64Pack_eq, uint64Size_eq]

@[simp] theorem length_int32Pack (v : Int32) : (int32Pack v).length = int32Size v := by
  rw [int32Pack_eq, int32Size_eq]

@[simp] theorem length_sint32Pack (v : Int32) : (sint32Pack v).length = sint32Size v :=
  length_uint32Pack (zigzag32 v)

@[simp] theorem length_sint64Pack (v : Int64) : (sint64Pack v).length = sint64Size v :=
  length_uint64Pack (zigzag64 v)

@[simp] theorem length_fixed32Pack (v : UInt32) : (fixed32Pack v).length = 4 := rfl

@[simp] theorem length_fixed64Pack (v : UInt64) : (fixed64Pack v).length = 8 := rfl

@[simp] theorem length_booleanPack (v : Int32) : (booleanPack v).length = 1 := rfl

/-! ## Tags -/

/-- `tag_pack` writes the minimal numeral of the number shifted by three. -/
theorem tagPack_eq (id : UInt32) : tagPack id = base128 (id.toNat * 8) := by
  have hid := id.toNat_lt
  unfold tagPack
  split_ifs with h
  · have hlt : id.toNat < 2 ^ 29 := UInt32.lt_iff_toNat_lt.mp h
    rw [uint32Pack_eq, UInt32.toNat_shiftLeft]
    congr 1
    simp only [UInt32.reduceToNat, Nat.reduceMod, Nat.shiftLeft_eq]
    omega
  · rw [uint64Pack_eq, UInt64.toNat_shiftLeft, UInt32.toNat_toUInt64]
    congr 1
    simp only [UInt64.reduceToNat, Nat.reduceMod, Nat.shiftLeft_eq]
    omega

theorem getTagSize_eq (n : UInt32) : getTagSize n = (base128 (n.toNat * 8)).length := by
  have hv := n.toNat_lt
  have h4 : ((1 : UInt32) <<< 4).toNat = 2 ^ 4 := by decide
  have h11 : ((1 : UInt32) <<< 11).toNat = 2 ^ 11 := by decide
  have h18 : ((1 : UInt32) <<< 18).toNat = 2 ^ 18 := by decide
  have h25 : ((1 : UInt32) <<< 25).toNat = 2 ^ 25 := by decide
  unfold getTagSize
  simp only [UInt32.lt_iff_toNat_lt, h4, h11, h18, h25]
  split_ifs with c0 c1 c2 c3
  · rw [base128_of_lt (by omega)]
    rfl
  · rw [length_base128 (k := 1) (by omega) (by omega)]
  · rw [length_base128 (k := 2) (by omega) (by omega)]
  · rw [length_base128 (k := 3) (by omega) (by omega)]
  · rw [length_base128 (k := 4) (by omega) (by omega)]

theorem WireType.code_lt (w : WireType) : w.code.toNat < 8 := by cases w <;> decide

theorem ofNat_or_code (n : ℕ) (w : WireType) (k : ℕ) :
    UInt8.ofNat (n * 8 % 128 + k * 128) ||| w.code =
      UInt8.ofNat ((n * 8 + w.code.toNat) % 128 + k * 128) := by
  have hc := w.code_lt
  apply UInt8.toNat_inj.mp
  rw [UInt8.toNat_or, UInt8.toNat_ofNat', UInt8.toNat_ofNat']
  have h := Nat.two_pow_add_eq_or_of_lt (i := 3) hc ((n * 8 % 128 + k * 128) % 2 ^ 8 / 8)
  rw [show (n * 8 % 128 + k * 128) % 2 ^ 8 =
    2 ^ 3 * ((n * 8 % 128 + k * 128) % 2 ^ 8 / 8) by omega, ← h]
  omega

/-- The tag with its wire type is the numeral of `tag * 8 + wire_type`. -/
theorem orFirst_tagPack (id : UInt32) (w : WireType) :
    orFirst (tagPack id) w.code = base128 (id.toNat * 8 + w.code.toNat) := by
  have hc := w.code_lt
  rw [tagPack_eq]
  by_cases h : id.toNat * 8 < 128
  · have := ofNat_or_code id.toNat w 0
    rw [base128_of_lt h, base128_of_lt (by omega), orFirst]
    rw [Nat.mod_eq_of_lt h, Nat.mod_eq_of_lt (by omega)] at this
    simpa using this
  · have := ofNat_or_code id.toNat w 1
    rw [one_mul] at this
    rw [base128_of_ge (n := id.toNat * 8) (by omega),
      base128_of_ge (n := id.toNat * 8 + w.code.toNat) (by omega), orFirst, this,
      show (id.toNat * 8 + w.code.toNat) / 128 = id.toNat * 8 / 128 by omega]

theorem length_orFirst (bytes : List UInt8) (code : UInt8) :
    (orFirst bytes code).length = bytes.length := by
  cases bytes <;> rfl

end ProtobufC
