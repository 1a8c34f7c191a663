import Mathlib.Data.Nat.Basic
import Mathlib.Tactic.Ring

/-! # Bisection

The search for an entry of a sorted table.  A table is given by a probe: entry `i` compared with what
is sought, or `none` where there is no entry.

* `bisect` keeps the interval `[start, start + count)` that may hold the entry.
* `Probes` is what a sorted table answers.
* `bisect_spec` finds the entry, or that there is none, without probing behind the table.
-/

namespace ProtobufC.Library
set_option autoImplicit false

/-- The index of an entry that compares equal, if any; `none` is a probe behind the table. -/
def bisect (probe : ℕ → Option Ordering) : ℕ → ℕ → ℕ → Option (Option ℕ)
  | 0, _, _ => none
  | fuel + 1, start, count =>
      if count > 1 then
        let mid := start + count / 2
        match probe mid with
        | none => none
        | some .eq => some (some mid)
        | some .lt => bisect probe fuel (mid + 1) (start + count - (mid + 1))
        | some .gt => bisect probe fuel start (mid - start)
      else if count = 0 then some none
      else
        match probe start with
        | none => none
        | some .eq => some (some start)
        | some _ => some none

/-- The answers of a sorted table of `n` entries: first the entries below what is sought, last the
ones above. -/
structure Probes (probe : ℕ → Option Ordering) (n : ℕ) : Prop where
  defined : ∀ i < n, ∃ o, probe i = some o
  below : ∀ i j, i < j → j < n → probe j = some .lt → probe i = some .lt
  above : ∀ i j, i < j → j < n → probe i = some .gt → probe j = some .gt

/-- The search with an interval that holds every entry sought. -/
theorem bisect_within {probe : ℕ → Option Ordering} {n : ℕ} (h : Probes probe n) :
    ∀ fuel start count, count < fuel → start + count ≤ n →
      (∀ i < n, probe i = some .eq → start ≤ i ∧ i < start + count) →
      ∃ r, bisect probe fuel start count = some r ∧
        (∀ i, r = some i → i < n ∧ probe i = some .eq) ∧
        (r = none → ∀ i < n, probe i ≠ some .eq) := by
  intro fuel
  induction fuel with
  | zero =>
    intro start count hfuel
    omega
  | succ fuel ih =>
    intro start count hfuel hn hwithin
    rw [bisect]
    by_cases h1 : count > 1
    · rw [if_pos h1]
      obtain ⟨o, ho⟩ := h.defined (start + count / 2) (by omega)
      simp only [ho]
      cases o with
      | eq =>
        refine ⟨_, rfl, fun i hi => ?_, by simp⟩
        obtain rfl := Option.some.inj hi
        exact ⟨by omega, ho⟩
      | lt =>
        apply ih _ _ (by omega) (by omega)
        intro i hi heq
        obtain ⟨hlo, hhi⟩ := hwithin i hi heq
        refine ⟨?_, by omega⟩
        by_contra hle
        rcases Nat.lt_or_eq_of_le (show i ≤ start + count / 2 by omega) with hlt | rfl
        · rw [h.below i _ hlt (by omega) ho] at heq
          exact absurd heq (by simp)
        · rw [ho] at heq
          exact absurd heq (by simp)
      | gt =>
        apply ih _ _ (by omega) (by omega)
        intro i hi heq
        obtain ⟨hlo, hhi⟩ := hwithin i hi heq
        refine ⟨hlo, ?_⟩
        by_contra hge
        rcases Nat.lt_or_eq_of_le (show start + count / 2 ≤ i by omega) with hlt | rfl
        · rw [h.above _ i hlt hi ho] at heq
          exact absurd heq (by simp)
        · rw [ho] at heq
          exact absurd heq (by simp)
    · rw [if_neg h1]
      by_cases h0 : count = 0
      · rw [if_pos h0]
        refine ⟨none, rfl, by simp, fun _ i hi heq => ?_⟩
        have := hwithin i hi heq
        omega
      · rw [if_neg h0]
        obtain ⟨o, ho⟩ := h.defined start (by omega)
        have hnone : o ≠ .eq → ∀ i < n, probe i ≠ some .eq := by
          intro hne i hi heq
          have := hwithin i hi heq
          obtain rfl : i = start := by omega
          rw [ho, Option.some.injEq] at heq
          exact hne heq
        simp only [ho]
        cases o with
        | eq =>
          refine ⟨_, rfl, fun i hi => ?_, by simp⟩
          obtain rfl := Option.some.inj hi
          exact ⟨by omega, ho⟩
        | lt | gt => exact ⟨none, rfl, by simp, fun _ => hnone (by simp)⟩

theorem bisect_spec {probe : ℕ → Option Ordering} {n : ℕ} (h : Probes probe n) :
    ∃ r, bisect probe (n + 1) 0 n = some r ∧ (∀ i, r = some i → i < n ∧ probe i = some .eq) ∧
      (r = none → ∀ i < n, probe i ≠ some .eq) := by
  apply bisect_within h _ _ _ (Nat.lt_succ_self n) (by omega)
  intro i hi _
  omega

end ProtobufC.Library
