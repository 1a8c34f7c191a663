import Mathlib.Tactic

/-! # Base-128 numerals

`base128 n` is the minimal little-endian base-128 numeral of `n`: seven bits a byte, the high bit
set on every byte but the last.  `base128Value` reads any digit string, minimal or not, and
`Terminated` says that only the last byte has its high bit clear.
-/

namespace ProtobufC.Library
set_option autoImplicit false

/-- The minimal numeral of `n`. -/
def base128 (n : ℕ) : List UInt8 :=
  if n < 128 then [UInt8.ofNat n] else UInt8.ofNat (n % 128 + 128) :: base128 (n / 128)
termination_by n

/-- The number that a digit string denotes. -/
def base128Value : List UInt8 → ℕ
  | [] => 0
  | b :: bs => b.toNat % 128 + 128 * base128Value bs

/-- Every byte but the last has its high bit set. -/
def Terminated : List UInt8 → Prop
  | [] => False
  | [b] => b.toNat < 128
  | b :: bs => 128 ≤ b.toNat ∧ Terminated bs

instance Terminated.decidable : ∀ bs, Decidable (Terminated bs)
  | [] => isFalse id
  | [b] => inferInstanceAs (Decidable (b.toNat < 128))
  | b :: c :: bs =>
    have := Terminated.decidable (c :: bs)
    inferInstanceAs (Decidable (128 ≤ b.toNat ∧ Terminated (c :: bs)))

theorem base128_of_lt {n : ℕ} (h : n < 128) : base128 n = [UInt8.ofNat n] := by
  rw [base128, if_pos h]

theorem base128_of_ge {n : ℕ} (h : 128 ≤ n) :
    base128 n = UInt8.ofNat (n % 128 + 128) :: base128 (n / 128) := by
  rw [base128, if_neg (by omega)]

theorem base128_ne_nil (n : ℕ) : base128 n ≠ [] := by
  rw [base128]; split <;> simp

theorem uint8_toNat_ofNat {n : ℕ} (h : n < 256) : (UInt8.ofNat n).toNat = n := by
  rw [UInt8.toNat_ofNat']
  exact Nat.mod_eq_of_lt h

@[simp] theorem base128Value_base128 (n : ℕ) : base128Value (base128 n) = n := by
  induction n using base128.induct with
  | case1 n h =>
    rw [base128_of_lt h, base128Value, base128Value, uint8_toNat_ofNat (by omega)]
    omega
  | case2 n h ih =>
    rw [base128_of_ge (by omega), base128Value, ih, uint8_toNat_ofNat (by omega)]
    omega

theorem terminated_cons {b : UInt8} {bs : List UInt8} (hb : 128 ≤ b.toNat) (h : Terminated bs) :
    Terminated (b :: bs) := by
  cases bs with
  | nil => exact absurd h id
  | cons c cs => exact ⟨hb, h⟩

theorem terminated_base128 (n : ℕ) : Terminated (base128 n) := by
  induction n using base128.induct with
  | case1 n h =>
    rw [base128_of_lt h]
    show (UInt8.ofNat n).toNat < 128
    rw [uint8_toNat_ofNat (by omega)]
    exact h
  | case2 n h ih =>
    rw [base128_of_ge (by omega)]
    exact terminated_cons (by rw [uint8_toNat_ofNat (by omega)]; omega) ih

theorem length_base128_pos (n : ℕ) : 0 < (base128 n).length :=
  List.length_pos_of_ne_nil (base128_ne_nil n)

theorem length_base128_le {k : ℕ} : ∀ {n : ℕ}, n < 128 ^ (k + 1) → (base128 n).length ≤ k + 1 := by
  induction k with
  | zero =>
    intro n h
    rw [base128_of_lt (by simpa using h)]
    simp
  | succ k ih =>
    intro n h
    by_cases hn : n < 128
    · rw [base128_of_lt hn]
      simp
    · rw [base128_of_ge (by omega), List.length_cons]
      have hdiv : n / 128 < 128 ^ (k + 1) := by
        rw [Nat.div_lt_iff_lt_mul (by norm_num)]
        rw [pow_succ] at h
        exact h
      have := ih hdiv
      omega

theorem lt_length_base128 {k : ℕ} : ∀ {n : ℕ}, 128 ^ k ≤ n → k < (base128 n).length := by
  induction k with
  | zero => intro n _; exact length_base128_pos n
  | succ k ih =>
    intro n h
    have hge : 128 ≤ n := by
      refine le_trans ?_ h
      calc 128 = 128 ^ 1 := rfl
        _ ≤ 128 ^ (k + 1) := Nat.pow_le_pow_right (by norm_num) (by omega)
    rw [base128_of_ge hge, List.length_cons]
    have hdiv : 128 ^ k ≤ n / 128 := by
      rw [Nat.le_div_iff_mul_le (by norm_num)]
      rw [pow_succ] at h
      exact h
    have := ih hdiv
    omega

/-- A number between two powers of 128 has one digit more than the lower exponent. -/
theorem length_base128 {k n : ℕ} (h₁ : 128 ^ k ≤ n) (h₂ : n < 128 ^ (k + 1)) :
    (base128 n).length = k + 1 :=
  le_antisymm (length_base128_le h₂) (lt_length_base128 h₁)

theorem length_base128_mono {m n : ℕ} (h : m ≤ n) :
    (base128 m).length ≤ (base128 n).length := by
  obtain ⟨k, hk⟩ : ∃ k, (base128 m).length = k + 1 :=
    ⟨(base128 m).length - 1, by have := length_base128_pos m; omega⟩
  rcases Nat.eq_zero_or_pos k with rfl | hk0
  · have := length_base128_pos n
    omega
  · have hge : 128 ^ k ≤ m := by
      by_contra hlt
      obtain ⟨j, rfl⟩ : ∃ j, k = j + 1 := ⟨k - 1, by omega⟩
      have := length_base128_le (show m < 128 ^ (j + 1) by omega)
      omega
    have := lt_length_base128 (hge.trans h)
    omega

theorem Terminated.findIdx? {bs : List UInt8} (h : Terminated bs) (rest : List UInt8) :
    (bs ++ rest).findIdx? (fun b => decide (b.toNat < 128)) = some (bs.length - 1) := by
  induction bs with
  | nil => exact absurd h id
  | cons b bs ih =>
    cases bs with
    | nil =>
      have hb : b.toNat < 128 := h
      simp [List.findIdx?_cons, hb]
    | cons c cs =>
      obtain ⟨hb, ht⟩ := h
      have hnb : ¬ b.toNat < 128 := by omega
      rw [List.cons_append, List.findIdx?_cons]
      simp only [hnb, decide_false, Bool.false_eq_true, if_false]
      rw [ih ht]
      simp

/-- What lies before the terminator of a byte string, with it, is terminated. -/
theorem terminated_take {bs : List UInt8} {i : ℕ}
    (h : bs.findIdx? (fun b => decide (b.toNat < 128)) = some i) : Terminated (bs.take (i + 1)) := by
  induction bs generalizing i with
  | nil => simp at h
  | cons b bs ih =>
    rw [List.findIdx?_cons] at h
    by_cases hb : b.toNat < 128
    · simp only [hb, decide_true, if_true, Option.some.injEq] at h
      subst h
      simpa [Terminated] using hb
    · simp only [hb, decide_false, Bool.false_eq_true, if_false, Option.map_eq_some_iff] at h
      obtain ⟨j, hj, rfl⟩ := h
      rw [List.take_succ_cons]
      exact terminated_cons (by omega) (ih hj)

theorem base128Value_lt (bs : List UInt8) : base128Value bs < 128 ^ bs.length := by
  induction bs with
  | nil => simp [base128Value]
  | cons b bs ih =>
    rw [base128Value, List.length_cons, pow_succ]
    omega

/-! ## Minimality -/

/-- `bs` denotes `n`, and no terminated digit string that does is shorter. -/
structure IsMinimalNumeral (bs : List UInt8) (n : ℕ) : Prop where
  terminated : Terminated bs
  value : base128Value bs = n
  shortest : ∀ ds, Terminated ds → base128Value ds = n → bs.length ≤ ds.length

theorem length_base128_le_of_terminated {bs : List UInt8} (h : Terminated bs) :
    (base128 (base128Value bs)).length ≤ bs.length := by
  induction bs with
  | nil => exact absurd h id
  | cons b bs ih =>
    cases bs with
    | nil =>
      have hb : b.toNat < 128 := h
      rw [base128Value, base128Value, base128_of_lt (by omega)]
      simp
    | cons c cs =>
      have hrest := ih h.2
      by_cases hlt : base128Value (b :: c :: cs) < 128
      · rw [base128_of_lt hlt]
        simp
      · rw [base128_of_ge (by omega), List.length_cons, List.length_cons]
        have hdiv : base128Value (b :: c :: cs) / 128 = base128Value (c :: cs) := by
          rw [base128Value]
          omega
        rw [hdiv]
        omega

/-- A terminated string no longer than the numeral of its value is that numeral. -/
theorem eq_base128_of_length_le {bs : List UInt8} (h : Terminated bs)
    (hlen : bs.length ≤ (base128 (base128Value bs)).length) : bs = base128 (base128Value bs) := by
  induction bs with
  | nil => exact absurd h id
  | cons b bs ih =>
    cases bs with
    | nil =>
      have hb : b.toNat < 128 := h
      have hvalue : base128Value [b] = b.toNat := by
        rw [base128Value, base128Value]
        omega
      rw [hvalue, base128_of_lt hb, UInt8.ofNat_toNat]
    | cons c cs =>
      have hdiv : base128Value (b :: c :: cs) / 128 = base128Value (c :: cs) := by
        rw [base128Value]
        omega
      by_cases hlt : base128Value (b :: c :: cs) < 128
      · -- a second digit that the value has no use for
        rw [base128_of_lt hlt] at hlen
        simp at hlen
      · rw [base128_of_ge (by omega), hdiv, List.length_cons, List.length_cons] at hlen
        have hb := h.1
        have hbound := b.toNat_lt
        have hmod : base128Value (b :: c :: cs) % 128 + 128 = b.toNat := by
          rw [base128Value]
          omega
        rw [base128_of_ge (by omega), hdiv, hmod, UInt8.ofNat_toNat, ← ih h.2 (by simpa using hlen)]

theorem isMinimalNumeral_iff {bs : List UInt8} {n : ℕ} :
    IsMinimalNumeral bs n ↔ bs = base128 n := by
  constructor
  · rintro ⟨hterm, rfl, hshort⟩
    exact eq_base128_of_length_le hterm
      (hshort _ (terminated_base128 _) (base128Value_base128 _))
  · rintro rfl
    refine ⟨terminated_base128 n, base128Value_base128 n, ?_⟩
    rintro ds hterm rfl
    exact length_base128_le_of_terminated hterm

/-! ## Several digits at once -/

theorem base128_of_four_digits {n : ℕ} (h : 2 ^ 28 ≤ n) :
    base128 n = UInt8.ofNat (n % 128 + 128) :: UInt8.ofNat (n / 2 ^ 7 % 128 + 128) ::
      UInt8.ofNat (n / 2 ^ 14 % 128 + 128) :: UInt8.ofNat (n / 2 ^ 21 % 128 + 128) ::
        base128 (n / 2 ^ 28) := by
  rw [base128_of_ge (n := n) (by omega), base128_of_ge (n := n / 128) (by omega),
    base128_of_ge (n := n / 128 / 128) (by omega),
    base128_of_ge (n := n / 128 / 128 / 128) (by omega)]
  simp only [Nat.div_div_eq_div_mul]
  norm_num

/-- The digits of a number whose sixth to ninth are all ones and whose tenth is 1. -/
theorem base128_of_sign {n : ℕ} (h : n / 2 ^ 35 = 2 ^ 29 - 1) :
    base128 n = UInt8.ofNat (n % 128 + 128) :: UInt8.ofNat (n / 2 ^ 7 % 128 + 128) ::
      UInt8.ofNat (n / 2 ^ 14 % 128 + 128) :: UInt8.ofNat (n / 2 ^ 21 % 128 + 128) ::
        UInt8.ofNat (n / 2 ^ 28 % 128 + 128) :: [0xff, 0xff, 0xff, 0xff, 0x01] := by
  have hrest : base128 (n / 2 ^ 28 / 128) = [0xff, 0xff, 0xff, 0xff, 0x01] := by
    rw [show n / 2 ^ 28 / 128 = 2 ^ 29 - 1 by omega, base128_of_four_digits (by norm_num),
      base128_of_lt (by norm_num)]
    decide
  rw [base128_of_four_digits (by omega), base128_of_ge (n := n / 2 ^ 28) (by omega), hrest]

end ProtobufC.Library
