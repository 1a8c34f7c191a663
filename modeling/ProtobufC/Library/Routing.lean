import Mathlib.Data.List.Basic

/-! # Folds over cells

Every item of a list goes to one cell of a row, or to none, and the step of the item changes that cell
only.  Then the fold over the items is made of one fold for each cell, over the items that go there
(`foldlM_routeStep`): the order between items of different cells is forgotten.
-/

namespace ProtobufC.Library
set_option autoImplicit false

section
variable {ρ α : Type} (route : ρ → Option ℕ) (step : ℕ → α → ρ → Option α)

/-- One item in the row. -/
def routeStep (row : List α) (r : ρ) : Option (List α) :=
  match route r with
  | none => some row
  | some i => do
      let a ← row[i]?
      let a' ← step i a r
      some (row.set i a')

/-- The items that go to a cell. -/
def routed (i : ℕ) (rs : List ρ) : List ρ := rs.filter fun r => route r = some i

variable {route step}

theorem routed_cons_self {r : ρ} {i : ℕ} (h : route r = some i) (rs : List ρ) :
    routed route i (r :: rs) = r :: routed route i rs :=
  List.filter_cons_of_pos (by simp [h])

theorem routed_cons_other {r : ρ} {i : ℕ} (h : route r ≠ some i) (rs : List ρ) :
    routed route i (r :: rs) = routed route i rs :=
  List.filter_cons_of_neg (by simp [h])

theorem routeStep_eq_some {row row' : List α} {r : ρ} : routeStep route step row r = some row' ↔
    (route r = none ∧ row' = row) ∨ ∃ i a a', route r = some i ∧ row[i]? = some a ∧
      step i a r = some a' ∧ row' = row.set i a' := by
  unfold routeStep
  cases route r with
  | none => simp [eq_comm]
  | some i =>
    constructor
    · intro h
      obtain ⟨a, ha, h⟩ := Option.bind_eq_some_iff.mp h
      obtain ⟨a', hone, h⟩ := Option.bind_eq_some_iff.mp h
      exact .inr ⟨i, a, a', rfl, ha, hone, (Option.some.inj h).symm⟩
    · rintro (⟨hnone, -⟩ | ⟨j, a, a', hj, ha, hone, rfl⟩)
      · exact absurd hnone (by simp)
      · obtain rfl := Option.some.inj hj
        exact Option.bind_eq_some_iff.mpr ⟨a, ha, Option.bind_eq_some_iff.mpr ⟨a', hone, rfl⟩⟩

/-- The fold succeeds just if the fold of every cell does, and gives their results. -/
theorem foldlM_routeStep {rs : List ρ} {row row' : List α}
    (hroute : ∀ r ∈ rs, ∀ i, route r = some i → i < row.length) :
    rs.foldlM (routeStep route step) row = some row' ↔ row'.length = row.length ∧
      ∀ i a, row[i]? = some a → ∃ a', row'[i]? = some a' ∧
        (routed route i rs).foldlM (step i) a = some a' := by
  induction rs generalizing row with
  | nil =>
    have hnil : ∀ i, routed route i ([] : List ρ) = [] := fun _ => rfl
    simp only [List.foldlM_nil, hnil, Option.pure_def, Option.some.injEq]
    constructor
    · rintro rfl
      exact ⟨rfl, fun i a ha => ⟨a, ha, rfl⟩⟩
    · rintro ⟨hlength, hcells⟩
      refine List.ext_getElem? fun i => ?_
      cases ha : row[i]? with
      | none =>
        rw [List.getElem?_eq_none_iff] at ha
        exact (List.getElem?_eq_none_iff.mpr (hlength ▸ ha)).symm
      | some a =>
        obtain ⟨a', ha', rfl⟩ := hcells i a ha
        exact ha'.symm
  | cons r rs ih =>
    have hbehind := fun r' hr' => hroute r' (List.mem_cons_of_mem r hr')
    rw [List.foldlM_cons]
    cases hr : route r with
    | none =>
      have hstay : routeStep route step row r = some row := routeStep_eq_some.mpr (.inl ⟨hr, rfl⟩)
      have hskip : ∀ i, routed route i (r :: rs) = routed route i rs :=
        fun i => routed_cons_other (by simp [hr]) rs
      simp only [hstay, hskip]
      exact ih hbehind
    | some j =>
      have hj := hroute r List.mem_cons_self j hr
      have hskip : ∀ i, i ≠ j → routed route i (r :: rs) = routed route i rs :=
        fun i hne => routed_cons_other (by simp [hr, hne.symm]) rs
      constructor
      · intro h
        obtain ⟨row₁, hstep, hrest⟩ := Option.bind_eq_some_iff.mp h
        obtain ⟨hnone, -⟩ | ⟨i, a, a₁, hi, ha, hone, rfl⟩ := routeStep_eq_some.mp hstep
        · exact absurd (hr.symm.trans hnone) (by simp)
        obtain rfl := Option.some.inj (hr.symm.trans hi)
        obtain ⟨hlength, hcells⟩ := (ih (by simpa using hbehind)).mp hrest
        refine ⟨by simpa using hlength, fun i b hb => ?_⟩
        by_cases hij : i = j
        · subst hij
          obtain rfl := Option.some.inj (ha.symm.trans hb)
          obtain ⟨a', ha', hfold⟩ := hcells i a₁ (List.getElem?_set_self hj)
          refine ⟨a', ha', ?_⟩
          rw [routed_cons_self hr, List.foldlM_cons]
          exact Option.bind_eq_some_iff.mpr ⟨a₁, hone, hfold⟩
        · rw [hskip i hij]
          exact hcells i b ((List.getElem?_set_ne (Ne.symm hij)).trans hb)
      · rintro ⟨hlength, hcells⟩
        obtain ⟨a', ha', hfold⟩ := hcells j row[j] (List.getElem?_eq_getElem hj)
        rw [routed_cons_self hr, List.foldlM_cons] at hfold
        obtain ⟨a₁, hone, hfold⟩ := Option.bind_eq_some_iff.mp hfold
        have hstep : routeStep route step row r = some (row.set j a₁) :=
          routeStep_eq_some.mpr (.inr ⟨j, row[j], a₁, hr, List.getElem?_eq_getElem hj, hone, rfl⟩)
        refine Option.bind_eq_some_iff.mpr ⟨_, hstep, (ih (by simpa using hbehind)).mpr ?_⟩
        refine ⟨by simpa using hlength, fun i b hb => ?_⟩
        by_cases hij : i = j
        · subst hij
          obtain rfl := Option.some.inj ((List.getElem?_set_self hj).symm.trans hb)
          exact ⟨a', ha', hfold⟩
        · rw [← hskip i hij]
          exact hcells i b ((List.getElem?_set_ne (Ne.symm hij)).symm.trans hb)

end

end ProtobufC.Library
