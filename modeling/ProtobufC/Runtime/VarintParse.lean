import ProtobufC.Library.Base128
import ProtobufC.Library.MachineInt
import ProtobufC.Runtime.Varint

/-! # What the scalar `parse_` and `scan_` functions read

`parse_uint32` and `parse_uint64` read a terminated numeral, minimal or not, modulo the width of
their result; the scanning functions find where a numeral ends.
-/

namespace ProtobufC
open Library
set_option autoImplicit false

/-! ## Parsing numerals -/

theorem digit_toNat (b : UInt8) : (b &&& 0x7f).toUInt32.toNat = b.toNat % 128 := by
  rw [UInt8.toNat_toUInt32, uint8_and_0x7f]

theorem digit64_toNat (b : UInt8) : (b &&& 0x7f).toUInt64.toNat = b.toNat % 128 := by
  rw [UInt8.toNat_toUInt64, uint8_and_0x7f]

theorem add_digit_lt {x k : ℕ} (b : UInt8) (h : x < 2 ^ k) :
    x + b.toNat % 128 * 2 ^ k < 2 ^ (k + 7) := by
  calc x + b.toNat % 128 * 2 ^ k < 2 ^ k + b.toNat % 128 * 2 ^ k := by omega
    _ = (b.toNat % 128 + 1) * 2 ^ k := by ring
    _ ≤ 128 * 2 ^ k := Nat.mul_le_mul_right _ (by omega)
    _ = 2 ^ (k + 7) := by rw [pow_add]; omega

theorem uint32_or_digit {rv : UInt32} {b : UInt8} {k : ℕ} (hk : k + 7 ≤ 32) (h : rv.toNat < 2 ^ k) :
    (rv ||| (b &&& 0x7f).toUInt32 <<< UInt32.ofNat k).toNat = rv.toNat + b.toNat % 128 * 2 ^ k ∧
      rv.toNat + b.toNat % 128 * 2 ^ k < 2 ^ (k + 7) := by
  have hlt := add_digit_lt b h
  refine ⟨?_, hlt⟩
  rw [uint32_or_shiftLeft (by omega) h, digit_toNat]
  exact Nat.mod_eq_of_lt (hlt.trans_le (Nat.pow_le_pow_right (by norm_num) hk))

theorem parseUint32_toNat {bs : List UInt8} (h : bs ≠ []) :
    (parseUint32 bs).toNat = base128Value bs % 2 ^ 32 := by
  have h0 : ∀ a : UInt8, (a &&& 0x7f).toUInt32.toNat < 2 ^ 7 := by
    intro a
    rw [digit_toNat]
    omega
  have h1 : ∀ a b : UInt8, _ := fun a b => uint32_or_digit (b := b) (k := 7) (by norm_num) (h0 a)
  have h2 : ∀ a b c : UInt8, _ := fun a b c =>
    uint32_or_digit (b := c) (k := 14) (by norm_num) ((h1 a b).1.symm ▸ (h1 a b).2)
  have h3 : ∀ a b c d : UInt8, _ := fun a b c d =>
    uint32_or_digit (b := d) (k := 21) (by norm_num) ((h2 a b c).1.symm ▸ (h2 a b c).2)
  have h4 : ∀ a b c d e : UInt8, _ := fun a b c d e =>
    uint32_or_shiftLeft (d := e.toUInt32) (k := 28) (by norm_num)
      ((h3 a b c d).1.symm ▸ (h3 a b c d).2)
  simp only [UInt32.reduceOfNat, digit_toNat] at h1 h2 h3 h4
  match bs, h with
  | [a], _ =>
    have := digit_toNat a
    simp only [parseUint32, byteAt, List.length_singleton, List.getD_cons_zero, base128Value,
      gt_iff_lt, lt_irrefl, if_false]
    omega
  | [a, b], _ =>
    have := (h1 a b).1
    simp only [parseUint32, byteAt, List.length_cons, List.length_nil, List.getD_cons_zero,
      List.getD_cons_succ, base128Value, gt_iff_lt, Nat.reduceAdd, Nat.reduceLT, if_true, if_false]
    omega
  | [a, b, c], _ =>
    have := (h2 a b c).1
    rw [(h1 a b).1] at this
    simp only [parseUint32, byteAt, List.length_cons, List.length_nil, List.getD_cons_zero,
      List.getD_cons_succ, base128Value, gt_iff_lt, Nat.reduceAdd, Nat.reduceLT, if_true, if_false]
    omega
  | [a, b, c, d], _ =>
    have := (h3 a b c d).1
    rw [(h2 a b c).1, (h1 a b).1] at this
    simp only [parseUint32, byteAt, List.length_cons, List.length_nil, List.getD_cons_zero,
      List.getD_cons_succ, base128Value, gt_iff_lt, Nat.reduceAdd, Nat.reduceLT, if_true, if_false]
    omega
  | a :: b :: c :: d :: e :: rest, _ =>
    have := h4 a b c d e
    rw [(h3 a b c d).1, (h2 a b c).1, (h1 a b).1, UInt8.toNat_toUInt32] at this
    have hlen : ∀ k, k < 5 → (a :: b :: c :: d :: e :: rest).length > k := by
      intro k hk
      simp only [List.length_cons]
      omega
    simp only [parseUint32, byteAt, hlen 1 (by norm_num), hlen 2 (by norm_num),
      hlen 3 (by norm_num), hlen 4 (by norm_num), List.getD_cons_zero, List.getD_cons_succ,
      base128Value, if_true]
    omega

theorem uint64_or_digit {rv : UInt64} {b : UInt8} {k : ℕ} (hk : k < 64) (h : rv.toNat < 2 ^ k) :
    (rv ||| (b &&& 0x7f).toUInt64 <<< UInt64.ofNat k).toNat =
        (rv.toNat + b.toNat % 128 * 2 ^ k) % 2 ^ 64 ∧
      rv.toNat + b.toNat % 128 * 2 ^ k < 2 ^ (k + 7) := by
  rw [uint64_or_shiftLeft hk h, digit64_toNat]
  exact ⟨rfl, add_digit_lt b h⟩

theorem parseUint64Loop_toNat (bs : List UInt8) : ∀ (shift : ℕ) (rv : UInt64),
    rv.toNat < 2 ^ shift → shift + 7 * bs.length ≤ 70 →
    (parseUint64Loop bs shift rv).toNat = (rv.toNat + 2 ^ shift * base128Value bs) % 2 ^ 64 := by
  induction bs with
  | nil =>
    intro shift rv _ _
    have := rv.toNat_lt
    rw [parseUint64Loop, base128Value]
    omega
  | cons b bs ih =>
    intro shift rv hrv hlen
    rw [List.length_cons] at hlen
    obtain ⟨hor, hlt⟩ := uint64_or_digit (b := b) (k := shift) (by omega) hrv
    rw [parseUint64Loop, ih (shift + 7) _ _ (by omega), hor, Nat.mod_add_mod, base128Value]
    · congr 1
      ring
    · rw [hor]
      exact (Nat.mod_le _ _).trans_lt hlt

theorem parseUint64_toNat {bs : List UInt8} (h : bs ≠ []) (hlen : bs.length ≤ 10) :
    (parseUint64 bs).toNat = base128Value bs % 2 ^ 64 := by
  unfold parseUint64
  split_ifs with h5
  · have hv := base128Value_lt bs
    have hpow : (128 : ℕ) ^ bs.length ≤ 128 ^ 4 := Nat.pow_le_pow_right (by norm_num) (by omega)
    rw [UInt32.toNat_toUInt64, parseUint32_toNat h, Nat.mod_eq_of_lt (by omega),
      Nat.mod_eq_of_lt (by omega)]
  · obtain ⟨a, b, c, d, rest, rfl⟩ : ∃ a b c d rest, bs = a :: b :: c :: d :: rest := by
      match bs, h5 with
      | a :: b :: c :: d :: rest, _ => exact ⟨a, b, c, d, rest, rfl⟩
      | [], h5 | [_], h5 | [_, _], h5 | [_, _, _], h5 => exact absurd (by simp) h5
    have h0 : (a &&& 0x7f).toUInt64.toNat < 2 ^ 7 := by
      rw [digit64_toNat]
      omega
    obtain ⟨h1, h1lt⟩ := uint64_or_digit (b := b) (k := 7) (by norm_num) h0
    rw [Nat.mod_eq_of_lt (by omega)] at h1
    obtain ⟨h2, h2lt⟩ := uint64_or_digit (b := c) (k := 14) (by norm_num) (h1.symm ▸ h1lt)
    rw [Nat.mod_eq_of_lt (by omega)] at h2
    obtain ⟨h3, h3lt⟩ := uint64_or_digit (b := d) (k := 21) (by norm_num) (h2.symm ▸ h2lt)
    rw [Nat.mod_eq_of_lt (by omega)] at h3
    simp only [List.length_cons] at hlen
    have hloop := parseUint64Loop_toNat rest 28 _ (h3.symm ▸ h3lt) (by omega)
    rw [h3, h2, h1, digit64_toNat] at hloop
    refine hloop.trans ?_
    simp only [base128Value]
    congr 1
    ring

/-! ## Zigzag -/

theorem zigzag32_toNat (v : Int32) :
    ((zigzag32 v).toNat : ℤ) = if v.toInt < 0 then -2 * v.toInt - 1 else 2 * v.toInt := by
  have hv := int32_toUInt32_toNat v
  have hlo := v.le_toInt
  have hhi := v.toInt_lt
  unfold zigzag32
  simp only [Int32.lt_iff_toInt_lt, Int32.toInt_zero]
  split_ifs with h
  · rw [Int32.toUInt32_neg, UInt32.toNat_sub, UInt32.toNat_mul, UInt32.toNat_neg,
      show (UInt32.toNat 1) = 1 from rfl, show (UInt32.toNat 2) = 2 from rfl, UInt32.size]
    omega
  · rw [Int32.toUInt32_mul, UInt32.toNat_mul, show (Int32.toUInt32 2).toNat = 2 from rfl]
    omega

theorem unzigzag32_zigzag32 (v : Int32) : unzigzag32 (zigzag32 v) = v := by
  have hz := zigzag32_toNat v
  have hv := int32_toUInt32_toNat v
  have hlo := v.le_toInt
  have hhi := v.toInt_lt
  have hshift : ((zigzag32 v) >>> 1).toNat = (zigzag32 v).toNat / 2 :=
    uint32_shiftRight_toNat _ (k := 1) (by norm_num)
  have hand : (zigzag32 v &&& 1).toNat = (zigzag32 v).toNat % 2 := by
    rw [UInt32.toNat_and]
    exact Nat.and_two_pow_sub_one_eq_mod _ 1
  unfold unzigzag32
  simp only [ne_eq, ← UInt32.toNat_inj, hand, UInt32.toNat_zero]
  split_ifs with h
  · -- even: the value is not negative
    rw [if_neg (by omega)] at hz
    apply int32_ext
    rw [UInt32.toUInt32_toInt32, hshift]
    omega
  · rw [if_pos (by omega)] at hz
    apply int32_ext
    rw [UInt32.toUInt32_toInt32, UInt32.toNat_sub, UInt32.toNat_neg, hshift,
      show (UInt32.toNat 1) = 1 from rfl, UInt32.size]
    omega

theorem zigzag64_toNat (v : Int64) :
    ((zigzag64 v).toNat : ℤ) = if v.toInt < 0 then -2 * v.toInt - 1 else 2 * v.toInt := by
  have hv := int64_toUInt64_toNat v
  have hlo := v.le_toInt
  have hhi := v.toInt_lt
  unfold zigzag64
  simp only [Int64.lt_iff_toInt_lt, Int64.toInt_zero]
  split_ifs with h
  · rw [Int64.toUInt64_neg, UInt64.toNat_sub, UInt64.toNat_mul, UInt64.toNat_neg,
      show (UInt64.toNat 1) = 1 from rfl, show (UInt64.toNat 2) = 2 from rfl, UInt64.size]
    omega
  · rw [Int64.toUInt64_mul, UInt64.toNat_mul, show (Int64.toUInt64 2).toNat = 2 from rfl]
    omega

theorem unzigzag64_zigzag64 (v : Int64) : unzigzag64 (zigzag64 v) = v := by
  have hz := zigzag64_toNat v
  have hv := int64_toUInt64_toNat v
  have hlo := v.le_toInt
  have hhi := v.toInt_lt
  have hshift : ((zigzag64 v) >>> 1).toNat = (zigzag64 v).toNat / 2 := by
    rw [UInt64.toNat_shiftRight]
    simp only [UInt64.reduceToNat, Nat.reduceMod, Nat.shiftRight_eq_div_pow, pow_one]
  have hand : (zigzag64 v &&& 1).toNat = (zigzag64 v).toNat % 2 := by
    rw [UInt64.toNat_and]
    exact Nat.and_two_pow_sub_one_eq_mod _ 1
  unfold unzigzag64
  simp only [ne_eq, ← UInt64.toNat_inj, hand, UInt64.toNat_zero]
  split_ifs with h
  · rw [if_neg (by omega)] at hz
    apply int64_ext
    rw [UInt64.toUInt64_toInt64, hshift]
    omega
  · rw [if_pos (by omega)] at hz
    apply int64_ext
    rw [UInt64.toUInt64_toInt64, UInt64.toNat_sub, UInt64.toNat_neg, hshift,
      show (UInt64.toNat 1) = 1 from rfl, UInt64.size]
    omega

/-! ## Fixed-width words -/

theorem fixed32Pack_toNat (v : UInt32) : (fixed32Pack v).map UInt8.toNat =
    [v.toNat % 256, v.toNat / 2 ^ 8 % 256, v.toNat / 2 ^ 16 % 256, v.toNat / 2 ^ 24 % 256] := by
  unfold fixed32Pack
  have h8 := uint32_shiftRight_toNat v (k := 8) (by norm_num)
  have h16 := uint32_shiftRight_toNat v (k := 16) (by norm_num)
  have h24 := uint32_shiftRight_toNat v (k := 24) (by norm_num)
  simp only [UInt32.reduceOfNat] at h8 h16 h24
  simp only [List.map_cons, List.map_nil, UInt32.toNat_toUInt8, h8, h16, h24]

theorem parseFixedUint32_toNat (a b c d : UInt8) (rest : List UInt8) :
    (parseFixedUint32 (a :: b :: c :: d :: rest)).toNat =
      a.toNat + b.toNat * 2 ^ 8 + c.toNat * 2 ^ 16 + d.toNat * 2 ^ 24 := by
  have ha := a.toNat_lt
  have hb := b.toNat_lt
  have hc := c.toNat_lt
  have hd := d.toNat_lt
  have h1 := uint32_or_shiftLeft (r := a.toUInt32) (d := b.toUInt32) (k := 8) (by norm_num)
    (by rw [UInt8.toNat_toUInt32]; omega)
  rw [UInt8.toNat_toUInt32, UInt8.toNat_toUInt32, Nat.mod_eq_of_lt (by omega)] at h1
  have h2 := uint32_or_shiftLeft (d := c.toUInt32) (k := 16) (by norm_num)
    (show _ < 2 ^ 16 by rw [h1]; omega)
  rw [h1, UInt8.toNat_toUInt32, Nat.mod_eq_of_lt (by omega)] at h2
  have h3 := uint32_or_shiftLeft (d := d.toUInt32) (k := 24) (by norm_num)
    (show _ < 2 ^ 24 by rw [h2]; omega)
  rw [h2, UInt8.toNat_toUInt32, Nat.mod_eq_of_lt (by omega)] at h3
  exact h3

theorem parseFixedUint32_fixed32Pack (v : UInt32) (rest : List UInt8) :
    parseFixedUint32 (fixed32Pack v ++ rest) = v := by
  have hv := v.toNat_lt
  have h := fixed32Pack_toNat v
  unfold fixed32Pack at h ⊢
  simp only [List.map_cons, List.map_nil, List.cons.injEq, and_true] at h
  obtain ⟨h0, h8, h16, h24⟩ := h
  apply UInt32.toNat_inj.mp
  rw [List.cons_append, List.cons_append, List.cons_append, List.cons_append,
    parseFixedUint32_toNat, h0, h8, h16, h24]
  omega

theorem parseFixedUint64_fixed64Pack (v : UInt64) (rest : List UInt8) :
    parseFixedUint64 (fixed64Pack v ++ rest) = v := by
  have hv := v.toNat_lt
  have hupper := uint64_upper_toNat v
  have hlower := UInt64.toNat_toUInt32 v
  unfold parseFixedUint64 fixed64Pack
  rw [List.append_assoc, parseFixedUint32_fixed32Pack,
    show 4 = (fixed32Pack v.toUInt32).length from rfl, List.drop_left, parseFixedUint32_fixed32Pack]
  have hor := uint64_or_shiftLeft (r := v.toUInt32.toUInt64) (d := (v >>> 32).toUInt32.toUInt64)
    (k := 32) (by norm_num) (by rw [UInt32.toNat_toUInt64]; exact UInt32.toNat_lt _)
  apply UInt64.toNat_inj.mp
  refine hor.trans ?_
  rw [UInt32.toNat_toUInt64, UInt32.toNat_toUInt64, hlower, hupper]
  omega

/-! ## Scanning -/

theorem findLastDigit_eq (max : ℕ) (data : List UInt8) :
    findLastDigit max data = (data.take max).findIdx? fun b => decide (b.toNat < 128) := by
  unfold findLastDigit
  simp only [uint8_and_0x80]

theorem findLastDigit_cons (rounds : ℕ) (b : UInt8) (bs : List UInt8) :
    findLastDigit (rounds + 1) (b :: bs) =
      if b &&& 0x80 = 0 then some 0 else (findLastDigit rounds bs).map (· + 1) := by
  unfold findLastDigit
  rw [List.take_succ_cons, List.findIdx?_cons]
  by_cases h : b &&& 0x80 = 0 <;> simp [h]

theorem findLastDigit_nil (rounds : ℕ) : findLastDigit rounds [] = none := by
  simp [findLastDigit]

theorem findLastDigit_zero (bs : List UInt8) : findLastDigit 0 bs = none := by
  simp [findLastDigit]

theorem findLastDigit_lt {max i : ℕ} {data : List UInt8} (h : findLastDigit max data = some i) :
    i < max ∧ i < data.length := by
  unfold findLastDigit at h
  obtain ⟨hi, -⟩ := List.findIdx?_eq_some_iff_getElem.mp h
  rw [List.length_take] at hi
  omega

theorem findLastDigit_terminated {max i : ℕ} {data : List UInt8}
    (h : findLastDigit max data = some i) : Terminated (data.take (i + 1)) := by
  have hi := findLastDigit_lt h
  rw [findLastDigit_eq] at h
  have ht := terminated_take h
  rwa [List.take_take, Nat.min_eq_left (by omega)] at ht

/-- A terminated numeral of at most `max` digits is found as a whole. -/
theorem findLastDigit_append {max : ℕ} {bs : List UInt8} (h : Terminated bs)
    (hlen : bs.length ≤ max) (rest : List UInt8) :
    findLastDigit max (bs ++ rest) = some (bs.length - 1) := by
  rw [findLastDigit_eq, List.take_append, List.take_of_length_le hlen]
  exact h.findIdx? _

theorem parseTagLoop_eq (rounds : ℕ) : ∀ (bs : List UInt8) (rv shift : ℕ) (tag : UInt32),
    tag.toNat < 2 ^ shift → shift + 7 * rounds ≤ 32 →
    parseTagLoop rounds bs rv shift tag = (findLastDigit rounds bs).map fun i =>
      (rv + i + 1, UInt32.ofNat (tag.toNat + 2 ^ shift * base128Value (bs.take (i + 1)))) := by
  induction rounds with
  | zero =>
    intro bs rv shift tag _ _
    rw [findLastDigit_zero, parseTagLoop]
    · rfl
    · simp
  | succ rounds ih =>
    intro bs rv shift tag htag hshift
    cases bs with
    | nil =>
      rw [findLastDigit_nil, parseTagLoop]
      · rfl
      · simp
    | cons b bs =>
      obtain ⟨hor, hlt⟩ := uint32_or_digit (b := b) (k := shift) (by omega) htag
      rw [parseTagLoop, findLastDigit_cons]
      by_cases hb : b &&& 0x80 = 0
      · -- the last digit, or-ed in unmasked
        have hb128 := (uint8_and_0x80 b).mp hb
        rw [if_neg (by simpa using hb), if_pos hb, Option.map_some]
        have hlast := uint32_or_shiftLeft (d := b.toUInt32) (k := shift) (by omega) htag
        rw [UInt8.toNat_toUInt32] at hlast
        have hval : base128Value ((b :: bs).take (0 + 1)) = b.toNat := by
          simp only [Nat.zero_add, List.take_succ_cons, List.take_zero, base128Value]
          omega
        rw [hval]
        congr 2
        apply UInt32.toNat_inj.mp
        rw [hlast, UInt32.toNat_ofNat', Nat.mul_comm]
      · rw [if_pos (by simpa using hb), if_neg hb, ih _ _ _ _ (by rw [hor]; exact hlt) (by omega),
          Option.map_map]
        congr 1
        funext i
        simp only [Function.comp_apply, List.take_succ_cons, base128Value, hor]
        congr 2
        · omega
        · ring

/-- `parse_tag_and_wiretype` reads a numeral of at most five digits. -/
theorem parseTagAndWiretype_eq {data : List UInt8} (hne : data ≠ []) :
    parseTagAndWiretype data = (findLastDigit 5 data).map fun i =>
      (i + 1, UInt32.ofNat (base128Value (data.take (i + 1)) / 8),
        WireType.ofByte (byteAt data 0)) := by
  obtain ⟨b, bs, rfl⟩ := List.exists_cons_of_ne_nil hne
  have htag : ((b &&& 0x7f) >>> 3).toUInt32.toNat = b.toNat % 128 / 8 := by
    rw [UInt8.toNat_toUInt32, UInt8.toNat_shiftRight, uint8_and_0x7f]
    simp only [UInt8.reduceToNat, Nat.reduceMod, Nat.shiftRight_eq_div_pow, Nat.reducePow]
  unfold parseTagAndWiretype
  simp only [byteAt, List.getD_cons_zero, List.drop_succ_cons, List.drop_zero, List.length_cons]
  rw [findLastDigit_cons]
  by_cases hb : b &&& 0x80 = 0
  · have hb128 := (uint8_and_0x80 b).mp hb
    rw [if_pos hb, if_pos hb, Option.map_some]
    congr 3
    apply UInt32.toNat_inj.mp
    rw [htag, UInt32.toNat_ofNat']
    simp only [Nat.zero_add, List.take_succ_cons, List.take_zero, base128Value]
    omega
  · have hrounds : findLastDigit ((if bs.length + 1 > 5 then 5 else bs.length + 1) - 1) bs =
        findLastDigit 4 bs := by
      unfold findLastDigit
      congr 1
      split_ifs with h
      · rfl
      · rw [List.take_of_length_le (by omega), List.take_of_length_le (by omega)]
    rw [if_neg hb, if_neg hb, parseTagLoop_eq _ _ _ _ _ (by rw [htag]; omega)
      (by split_ifs <;> omega), hrounds, Option.map_map, Option.map_map]
    congr 1
    funext i
    simp only [Function.comp_apply, List.take_succ_cons, base128Value, htag]
    have hval : b.toNat % 128 / 8 + 2 ^ 4 * base128Value (bs.take (i + 1)) =
        (b.toNat % 128 + 128 * base128Value (bs.take (i + 1))) / 8 := by omega
    rw [hval, Nat.add_comm 1 i]

theorem scanLengthLoop_eq (rounds : ℕ) : ∀ (bs : List UInt8) (i shift : ℕ) (val : UInt32),
    val.toNat < 2 ^ shift → shift + 7 * rounds ≤ 35 →
    scanLengthLoop rounds bs i shift val = (findLastDigit rounds bs).map fun j =>
      (i + j, UInt32.ofNat (val.toNat + 2 ^ shift * base128Value (bs.take (j + 1)))) := by
  induction rounds with
  | zero =>
    intro bs i shift val _ _
    rw [findLastDigit_zero, scanLengthLoop]
    · rfl
    · simp
  | succ rounds ih =>
    intro bs i shift val hval hshift
    cases bs with
    | nil =>
      rw [findLastDigit_nil, scanLengthLoop]
      · rfl
      · simp
    | cons b bs =>
      have hor := uint32_or_shiftLeft (d := (b &&& 0x7f).toUInt32) (k := shift) (by omega) hval
      rw [digit_toNat] at hor
      have hlt := add_digit_lt b hval
      rw [scanLengthLoop, findLastDigit_cons]
      by_cases hb : b &&& 0x80 = 0
      · simp only [hb, if_true, Option.map_some, Nat.add_zero, List.take_succ_cons, List.take_zero,
          base128Value]
        congr 2
        apply UInt32.toNat_inj.mp
        rw [hor, UInt32.toNat_ofNat']
        congr 1
        ring
      · simp only [hb, if_false]
        rw [ih _ _ _ _ (by rw [hor]; exact (Nat.mod_le _ _).trans_lt hlt) (by omega),
          Option.map_map]
        congr 1
        funext j
        simp only [Function.comp_apply, List.take_succ_cons, base128Value, hor]
        congr 1
        · omega
        · apply UInt32.toNat_inj.mp
          rw [UInt32.toNat_ofNat', UInt32.toNat_ofNat', Nat.mod_add_mod]
          congr 1
          ring

end ProtobufC
