import Mathlib.Tactic

/-! # Machine integers as numbers

Signed and unsigned operations whose result is in range are the operations on integers; shifts,
masks and disjoint ors are division, remainder and sum.
-/

namespace ProtobufC.Library
set_option autoImplicit false

theorem int32_toInt_add {a b : Int32} (h₁ : -2 ^ 31 ≤ a.toInt + b.toInt)
    (h₂ : a.toInt + b.toInt < 2 ^ 31) : (a + b).toInt = a.toInt + b.toInt := by
  rw [Int32.toInt_add]
  exact Int.bmod_eq_of_le (by omega) (by omega)

theorem int32_toInt_sub {a b : Int32} (h₁ : -2 ^ 31 ≤ a.toInt - b.toInt)
    (h₂ : a.toInt - b.toInt < 2 ^ 31) : (a - b).toInt = a.toInt - b.toInt := by
  rw [Int32.toInt_sub]
  exact Int.bmod_eq_of_le (by omega) (by omega)

theorem uint32_toInt32_toInt {a : UInt32} (h : a.toNat < 2 ^ 31) : a.toInt32.toInt = a.toNat := by
  have ha : a = UInt32.ofNat a.toNat := UInt32.ofNat_toNat.symm
  conv_lhs => rw [ha]
  rw [show (UInt32.ofNat a.toNat).toInt32 = Int32.ofNat a.toNat from rfl]
  exact Int32.toInt_ofNat_of_lt h

theorem uint32_toNat_sub {a b : UInt32} (h : b.toNat ≤ a.toNat) :
    (a - b).toNat = a.toNat - b.toNat := by
  have ha := a.toNat_lt
  rw [UInt32.toNat_sub]
  omega

theorem int32_ext {a b : Int32} (h : a.toUInt32.toNat = b.toUInt32.toNat) : a = b :=
  Int32.toBitVec.inj (BitVec.eq_of_toNat_eq h)

theorem int64_ext {a b : Int64} (h : a.toUInt64.toNat = b.toUInt64.toNat) : a = b :=
  Int64.toBitVec.inj (BitVec.eq_of_toNat_eq h)

theorem int32_toUInt32_toInt32 (a : Int32) : a.toUInt32.toInt32 = a := rfl

theorem uint32_toNat_ofNat {n : ℕ} (h : n < 2 ^ 32) : (UInt32.ofNat n).toNat = n := by
  rw [UInt32.toNat_ofNat']
  exact Nat.mod_eq_of_lt h

/-- A tag of `2^31` or more is negative as an `int`. -/
theorem uint32_toInt32_neg {a : UInt32} (h : 2 ^ 31 ≤ a.toNat) :
    a.toInt32.toInt = (a.toNat : ℤ) - 2 ^ 32 := by
  have hlt := a.toNat_lt
  have hb : a.toInt32.toInt = (a.toNat : ℤ).bmod (2 ^ 32) := by
    rw [← Int32.toInt_toBitVec, UInt32.toBitVec_toInt32, BitVec.toInt_eq_toNat_bmod,
      UInt32.toNat_toBitVec]
  rw [hb, Int.bmod_def]
  rw [Int.emod_eq_of_lt (by omega) (by omega), if_neg (by omega)]
  norm_num

/-! ## Signed values and their words -/

theorem int32_toUInt32_toNat (v : Int32) : (v.toUInt32.toNat : ℤ) = v.toInt % 2 ^ 32 := by
  have hv := v.toUInt32.toNat_lt
  rw [← Int32.toInt_toBitVec, BitVec.toInt_eq_toNat_bmod,
    show v.toBitVec.toNat = v.toUInt32.toNat from rfl, show (2 : ℤ) ^ 32 = (2 ^ 32 : ℕ) from rfl,
    Int.bmod_emod]
  omega

theorem int64_toUInt64_toNat (v : Int64) : (v.toUInt64.toNat : ℤ) = v.toInt % 2 ^ 64 := by
  have hv := v.toUInt64.toNat_lt
  rw [← Int64.toInt_toBitVec, BitVec.toInt_eq_toNat_bmod,
    show v.toBitVec.toNat = v.toUInt64.toNat from rfl, show (2 : ℤ) ^ 64 = (2 ^ 64 : ℕ) from rfl,
    Int.bmod_emod]
  omega

theorem int32_shiftRight_toInt (v : Int32) {k : ℕ} (hk : k < 32) :
    (v >>> Int32.ofNat k).toInt = v.toInt / 2 ^ k := by
  have hmod : ∀ k : Fin 32, ((Int32.ofNat k).toBitVec.smod 32).toNat = k := by decide +kernel
  rw [← Int32.toInt_toBitVec, Int32.toBitVec_shiftRight, BitVec.sshiftRight_eq',
    BitVec.toInt_sshiftRight, hmod ⟨k, hk⟩, Int.shiftRight_eq_div_pow, Int32.toInt_toBitVec]
  norm_num

/-! ## Bits -/

/-- Or-ing a digit in above the bits written so far adds it. -/
theorem or_shiftLeft_mod {w k x d : ℕ} (hk : k ≤ w) (hx : x < 2 ^ k) :
    x ||| d <<< k % 2 ^ w = (x + d * 2 ^ k) % 2 ^ w := by
  have hmod : d <<< k % 2 ^ w = 2 ^ k * (d % 2 ^ (w - k)) := by
    rw [Nat.shiftLeft_eq, Nat.mul_comm d, ← Nat.mul_mod_mul_left, ← pow_add,
      Nat.add_sub_cancel' hk]
  have hor := Nat.two_pow_add_eq_or_of_lt hx (d % 2 ^ (w - k))
  have hlt : 2 ^ k * (d % 2 ^ (w - k)) + x < 2 ^ w := by
    have h1 : d % 2 ^ (w - k) + 1 ≤ 2 ^ (w - k) := Nat.mod_lt _ (by positivity)
    calc 2 ^ k * (d % 2 ^ (w - k)) + x < 2 ^ k * (d % 2 ^ (w - k)) + 2 ^ k := by omega
      _ = 2 ^ k * (d % 2 ^ (w - k) + 1) := by ring
      _ ≤ 2 ^ k * 2 ^ (w - k) := Nat.mul_le_mul_left _ h1
      _ = 2 ^ w := by rw [← pow_add, Nat.add_sub_cancel' hk]
  rw [hmod, Nat.or_comm, ← hor, ← Nat.mod_eq_of_lt hlt, ← hmod, Nat.shiftLeft_eq, Nat.add_comm,
    Nat.add_mod_mod]

theorem uint32_or_shiftLeft {r d : UInt32} {k : ℕ} (hk : k < 32) (h : r.toNat < 2 ^ k) :
    (r ||| d <<< UInt32.ofNat k).toNat = (r.toNat + d.toNat * 2 ^ k) % 2 ^ 32 := by
  rw [UInt32.toNat_or, UInt32.toNat_shiftLeft, UInt32.toNat_ofNat', Nat.mod_eq_of_lt (a := k) (by omega),
   Nat.mod_eq_of_lt hk]
  exact or_shiftLeft_mod hk.le h

theorem uint64_or_shiftLeft {r d : UInt64} {k : ℕ} (hk : k < 64) (h : r.toNat < 2 ^ k) :
    (r ||| d <<< UInt64.ofNat k).toNat = (r.toNat + d.toNat * 2 ^ k) % 2 ^ 64 := by
  rw [UInt64.toNat_or, UInt64.toNat_shiftLeft, UInt64.toNat_ofNat', Nat.mod_eq_of_lt (a := k) (by omega),
   Nat.mod_eq_of_lt hk]
  exact or_shiftLeft_mod hk.le h

theorem uint32_shiftRight_toNat (v : UInt32) {k : ℕ} (hk : k < 32) :
    (v >>> UInt32.ofNat k).toNat = v.toNat / 2 ^ k := by
  rw [UInt32.toNat_shiftRight, UInt32.toNat_ofNat', Nat.mod_eq_of_lt (a := k) (by omega),
    Nat.mod_eq_of_lt hk, Nat.shiftRight_eq_div_pow]

theorem uint64_upper_toNat (v : UInt64) : (v >>> 32).toUInt32.toNat = v.toNat / 2 ^ 32 := by
  have hv := v.toNat_lt
  have := Nat.div_lt_of_lt_mul (show v.toNat < 2 ^ 32 * 2 ^ 32 by omega)
  rw [UInt64.toNat_toUInt32, UInt64.toNat_shiftRight]
  simp only [UInt64.reduceToNat, Nat.reduceMod, Nat.shiftRight_eq_div_pow]
  omega

theorem uint8_and_0x7f (b : UInt8) : (b &&& 0x7f).toNat = b.toNat % 128 := by
  rw [UInt8.toNat_and]
  exact Nat.and_two_pow_sub_one_eq_mod b.toNat 7

theorem uint8_and_0x80 (b : UInt8) : b &&& 0x80 = 0 ↔ b.toNat < 128 := by
  have h : ∀ x : Fin 256, UInt8.ofNat x &&& 0x80 = 0 ↔ x.val < 128 := by decide +kernel
  have hb := h ⟨b.toNat, b.toNat_lt⟩
  simpa using hb

theorem toUInt8_eq_ofNat (v : UInt32) : v.toUInt8 = UInt8.ofNat v.toNat := by
  apply UInt8.toNat_inj.mp
  rw [UInt32.toNat_toUInt8, UInt8.toNat_ofNat']

end ProtobufC.Library
