import Mathlib.Tactic

/-! # Signed arithmetic that may overflow

An operation on `int` whose exact result is no `int` has no result.
-/

namespace ProtobufC.Library
set_option autoImplicit false

/-- The `int` of a number, if there is one. -/
def checked (n : ℤ) : Option Int32 :=
  if -2 ^ 31 ≤ n ∧ n < 2 ^ 31 then some (Int32.ofInt n) else none

def checkedAdd (a b : Int32) : Option Int32 := checked (a.toInt + b.toInt)

def checkedSub (a b : Int32) : Option Int32 := checked (a.toInt - b.toInt)

def checkedMul (a b : Int32) : Option Int32 := checked (a.toInt * b.toInt)

theorem checked_eq_some {n : ℤ} {a : Int32} : checked n = some a ↔ a.toInt = n := by
  unfold checked
  have hlow := a.le_toInt
  have hhigh := a.toInt_lt
  constructor
  · intro h
    split_ifs at h with hfits
    obtain rfl := Option.some.inj h
    exact Int32.toInt_ofInt_of_le hfits.1 hfits.2
  · rintro rfl
    rw [if_pos ⟨hlow, hhigh⟩, Int32.ofInt_toInt]

theorem checked_fits {n : ℤ} (hlow : -2 ^ 31 ≤ n) (hhigh : n < 2 ^ 31) :
    ∃ a, checked n = some a ∧ a.toInt = n :=
  ⟨Int32.ofInt n, if_pos ⟨hlow, hhigh⟩, Int32.toInt_ofInt_of_le hlow hhigh⟩

theorem checked_overflow {n : ℤ} (h : n < -2 ^ 31 ∨ 2 ^ 31 ≤ n) : checked n = none :=
  if_neg (by omega)

end ProtobufC.Library
