import Mathlib.Data.List.Basic
import Mathlib.Tactic.Push

/-! # Tables with an inverse index

A table is a list of entries with distinct keys, kept together with a map from the keys to the
positions of their entries.  Entries are appended, replaced in place, and removed by moving the last
entry into their position.

* `Indexes` is the one invariant: the map is the inverse of the table.
* `entryAt` is what the map and the table together say of a key.
* `Indexes.push`, `Indexes.replace` and `Indexes.swapRemove` keep the invariant, and
  `entryAt_push`, `entryAt_replace`, `entryAt_swapRemove` say what they do to the entries.
-/

namespace ProtobufC.Library
set_option autoImplicit false

variable {α κ : Type}

/-- `index` maps the key of every entry to its position, and no other key to any. -/
def Indexes (key : α → κ) (es : List α) (index : κ → Option ℕ) : Prop :=
  ∀ k i, index k = some i ↔ ∃ e, es[i]? = some e ∧ key e = k

/-- The entry with a key. -/
def entryAt (es : List α) (index : κ → Option ℕ) (k : κ) : Option α := (index k).bind (es[·]?)

/-- The last entry moved to position `i`. -/
def swapRemove (es : List α) (i : ℕ) : List α :=
  match es.getLast? with
  | none => []
  | some last => (es.set i last).dropLast

variable {key : α → κ} {es : List α} {index : κ → Option ℕ}

theorem Indexes.key_eq (h : Indexes key es index) {k : κ} {i : ℕ} (hk : index k = some i) :
    ∃ e, es[i]? = some e ∧ key e = k :=
  (h k i).mp hk

theorem Indexes.lt_length (h : Indexes key es index) {k : κ} {i : ℕ} (hk : index k = some i) :
    i < es.length := by
  obtain ⟨e, he, -⟩ := h.key_eq hk
  exact (List.getElem?_eq_some_iff.mp he).1

theorem Indexes.injective (h : Indexes key es index) {i j : ℕ} {a b : α} (ha : es[i]? = some a)
    (hb : es[j]? = some b) (hab : key a = key b) : i = j := by
  have hi := (h (key b) i).mpr ⟨a, ha, hab⟩
  have hj := (h (key b) j).mpr ⟨b, hb, rfl⟩
  rw [hi, Option.some.injEq] at hj
  exact hj

/-- The entries are the ones that the map leads to. -/
theorem Indexes.entryAt_eq_some (h : Indexes key es index) {k : κ} {e : α} :
    entryAt es index k = some e ↔ e ∈ es ∧ key e = k := by
  unfold entryAt
  rw [Option.bind_eq_some_iff]
  constructor
  · rintro ⟨i, hi, he⟩
    obtain ⟨e', he', hk⟩ := h.key_eq hi
    rw [he, Option.some.injEq] at he'
    exact ⟨List.mem_of_getElem? he, he' ▸ hk⟩
  · rintro ⟨hmem, hk⟩
    obtain ⟨i, hi⟩ := List.getElem?_of_mem hmem
    exact ⟨i, (h k i).mpr ⟨e, hi, hk⟩, hi⟩

theorem Indexes.entryAt_eq_none (h : Indexes key es index) {k : κ} :
    entryAt es index k = none ↔ index k = none := by
  unfold entryAt
  rw [Option.bind_eq_none_iff]
  constructor
  · intro hnone
    by_contra hsome
    obtain ⟨i, hi⟩ := Option.ne_none_iff_exists'.mp hsome
    obtain ⟨e, he, -⟩ := h.key_eq hi
    rw [hnone i hi] at he
    exact absurd he (by simp)
  · intro hnone i hi
    rw [hnone] at hi
    exact absurd hi (by simp)

theorem indexes_nil : Indexes key [] fun _ => none := by
  intro k i
  simp

/-! ## Positions changed -/

theorem Indexes.replace (h : Indexes key es index) {k : κ} {i : ℕ} (hk : index k = some i) {e : α}
    (he : key e = k) : Indexes key (es.set i e) index := by
  intro k' j
  rw [h k' j, List.getElem?_set]
  split_ifs with hij hlt
  · subst hij
    obtain ⟨a, ha, hak⟩ := h.key_eq hk
    simp [ha, hak, he]
  · exact absurd (h.lt_length hk) (hij ▸ hlt)
  · rfl

variable [DecidableEq κ]

/-- The map with one position changed. -/
def reindex (index : κ → Option ℕ) (k : κ) (i : Option ℕ) : κ → Option ℕ :=
  fun k' => if k' = k then i else index k'

/-! ## Appending -/

theorem Indexes.push (h : Indexes key es index) {k : κ} (hk : index k = none) {e : α}
    (he : key e = k) : Indexes key (es ++ [e]) (reindex index k (some es.length)) := by
  have hnew : ∀ (i : ℕ) (a : α), es[i]? = some a → key a ≠ k := by
    intro i a ha hak
    have := (h k i).mpr ⟨a, ha, hak⟩
    rw [hk] at this
    exact absurd this (by simp)
  intro k' i
  unfold reindex
  by_cases hlt : i < es.length
  · rw [List.getElem?_append_left hlt]
    split_ifs with hk'
    · subst hk'
      refine iff_of_false (by simp; omega) ?_
      rintro ⟨a, ha, hak⟩
      exact hnew i a ha hak
    · exact h k' i
  · rw [List.getElem?_append_right (by omega)]
    split_ifs with hk'
    · subst hk'
      by_cases hi : i = es.length
      · subst hi
        simp [he]
      · refine iff_of_false (by simp; omega) ?_
        rw [List.getElem?_eq_none (by simp; omega)]
        simp
    · refine iff_of_false (fun hi => hlt (h.lt_length hi)) ?_
      rintro ⟨a, ha, hak⟩
      by_cases hi : i - es.length = 0
      · rw [hi] at ha
        simp only [List.getElem?_cons_zero, Option.some.injEq] at ha
        exact hk' (by rw [← hak, ← ha, he])
      · rw [List.getElem?_eq_none (by simp; omega)] at ha
        exact absurd ha (by simp)

theorem entryAt_push (h : Indexes key es index) {k : κ} (hk : index k = none) {e : α}
    (he : key e = k) (k' : κ) :
    entryAt (es ++ [e]) (reindex index k (some es.length)) k' =
      if k' = k then some e else entryAt es index k' := by
  have hpush := h.push hk he
  have hiff : ∀ a, entryAt (es ++ [e]) (reindex index k (some es.length)) k' = some a ↔
      (if k' = k then some e else entryAt es index k') = some a := by
    intro a
    rw [hpush.entryAt_eq_some, List.mem_append, List.mem_singleton]
    split_ifs with hk'
    · subst hk'
      rw [Option.some.injEq]
      constructor
      · rintro ⟨ha | rfl, hak⟩
        · have := h.entryAt_eq_some.mpr ⟨ha, hak⟩
          rw [h.entryAt_eq_none.mpr hk] at this
          exact absurd this (by simp)
        · rfl
      · rintro rfl
        exact ⟨.inr rfl, he⟩
    · rw [h.entryAt_eq_some]
      constructor
      · rintro ⟨ha | rfl, hak⟩
        · exact ⟨ha, hak⟩
        · exact absurd (hak.symm.trans he) hk'
      · rintro ⟨ha, hak⟩
        exact ⟨.inl ha, hak⟩
  exact Option.ext hiff

/-! ## Replacing -/

theorem entryAt_replace (h : Indexes key es index) {k : κ} {i : ℕ} (hk : index k = some i) {e : α}
    (he : key e = k) (k' : κ) :
    entryAt (es.set i e) index k' = if k' = k then some e else entryAt es index k' := by
  have hlt := h.lt_length hk
  unfold entryAt
  split_ifs with hk'
  · subst hk'
    rw [hk, Option.bind_some, List.getElem?_set_self hlt]
  · cases hj : index k' with
    | none => rfl
    | some j =>
      rw [Option.bind_some, Option.bind_some, List.getElem?_set_ne]
      rintro rfl
      obtain ⟨a, ha, hak⟩ := h.key_eq hk
      obtain ⟨b, hb, hbk⟩ := h.key_eq hj
      rw [ha, Option.some.injEq] at hb
      exact hk' (by rw [← hbk, ← hb, hak])

/-! ## Removing -/

theorem getElem?_swapRemove {i : ℕ} {last : α} (hlast : es.getLast? = some last) (j : ℕ) :
    (swapRemove es i)[j]? =
      if j + 1 < es.length then if i = j then some last else es[j]? else none := by
  simp only [swapRemove, hlast, List.getElem?_dropLast, List.length_set]
  by_cases hj : j + 1 < es.length
  · rw [if_pos (by omega), if_pos hj, List.getElem?_set]
    split_ifs with hij hlt <;> first | rfl | omega
  · rw [if_neg (by omega), if_neg hj]

/-- Removing the entry of `k`: the last entry takes over its position. -/
theorem Indexes.swapRemove (h : Indexes key es index) {k : κ} {i : ℕ} (hk : index k = some i)
    {last : α} (hlast : es.getLast? = some last) :
    Indexes key (Library.swapRemove es i)
      (reindex (reindex index (key last) (some i)) k none) := by
  have hi := h.lt_length hk
  have hend : es[es.length - 1]? = some last := by rw [← List.getLast?_eq_getElem?, hlast]
  obtain ⟨e, he, hek⟩ := h.key_eq hk
  intro k' j
  rw [getElem?_swapRemove hlast]
  unfold reindex
  by_cases hk' : k' = k
  · -- no entry has the key `k` any more
    subst hk'
    rw [if_pos rfl]
    refine iff_of_false (by simp) ?_
    rintro ⟨a, ha, hak⟩
    split_ifs at ha with hj hij
    · simp only [Option.some.injEq] at ha
      have := h.injective he hend (hek.trans (by rw [ha, hak]))
      omega
    · exact hij (h.injective he ha (hek.trans hak.symm))
  · rw [if_neg hk']
    by_cases hkl : k' = key last
    · subst hkl
      rw [if_pos rfl]
      constructor
      · intro hij
        obtain rfl := Option.some.inj hij
        have hne : i ≠ es.length - 1 := by
          rintro rfl
          rw [he, Option.some.injEq] at hend
          exact hk' (by rw [← hend, hek])
        exact ⟨last, by rw [if_pos (by omega), if_pos rfl], rfl⟩
      · rintro ⟨a, ha, hak⟩
        split_ifs at ha with hj hij
        · rw [hij]
        · have := h.injective ha hend hak
          omega
    · rw [if_neg hkl, h k' j]
      constructor
      · rintro ⟨a, ha, hak⟩
        have hij : i ≠ j := by
          rintro rfl
          rw [he, Option.some.injEq] at ha
          exact hk' (by rw [← hak, ← ha, hek])
        have hj : j ≠ es.length - 1 := by
          rintro rfl
          rw [hend, Option.some.injEq] at ha
          exact hkl (by rw [← hak, ha])
        have hlt := (List.getElem?_eq_some_iff.mp ha).1
        exact ⟨a, by rw [if_pos (by omega), if_neg hij, ha], hak⟩
      · rintro ⟨a, ha, hak⟩
        split_ifs at ha with hj hij
        · simp only [Option.some.injEq] at ha
          exact absurd (hak.symm.trans (by rw [ha])) hkl
        · exact ⟨a, ha, hak⟩

theorem entryAt_swapRemove (h : Indexes key es index) {k : κ} {i : ℕ} (hk : index k = some i)
    {last : α} (hlast : es.getLast? = some last) (k' : κ) :
    entryAt (swapRemove es i) (reindex (reindex index (key last) (some i)) k none) k' =
      if k' = k then none else entryAt es index k' := by
  have hrem := h.swapRemove hk hlast
  have hi := h.lt_length hk
  obtain ⟨e, he, hek⟩ := h.key_eq hk
  by_cases hk' : k' = k
  · rw [if_pos hk', hrem.entryAt_eq_none, hk']
    exact if_pos rfl
  · rw [if_neg hk']
    refine Option.ext fun a => ?_
    rw [hrem.entryAt_eq_some, h.entryAt_eq_some]
    refine and_congr_left fun hak => ⟨fun hmem => ?_, fun hmem => ?_⟩
    · obtain ⟨j, hj⟩ := List.getElem?_of_mem hmem
      rw [getElem?_swapRemove hlast] at hj
      split_ifs at hj with hlt hij
      · simp only [Option.some.injEq] at hj
        rw [← hj]
        exact List.mem_of_getLast? hlast
      · exact List.mem_of_getElem? hj
    · obtain ⟨j, hj⟩ := List.getElem?_of_mem hmem
      have hlt := (List.getElem?_eq_some_iff.mp hj).1
      have hij : i ≠ j := by
        rintro rfl
        rw [he, Option.some.injEq] at hj
        exact hk' (by rw [← hak, ← hj, hek])
      by_cases hend : j + 1 < es.length
      · exact List.mem_of_getElem? (by rw [getElem?_swapRemove hlast, if_pos hend, if_neg hij, hj])
      · have hlast' : es[es.length - 1]? = some last := by rw [← List.getLast?_eq_getElem?, hlast]
        rw [show es.length - 1 = j by omega, hj] at hlast'
        have hi' : i + 1 < es.length := by omega
        exact List.mem_of_getElem? (by
          rw [getElem?_swapRemove hlast (i := i), if_pos hi', if_pos rfl, hlast'])

end ProtobufC.Library
