import ProtobufC.Dispatch.Machine
import ProtobufC.Library.IndexedTable

/-! # The two indices of the map

`fd_map` holds for every file descriptor its positions in the two tables, -1 for none.  Each of the two
columns is the inverse index of a table: `notifyIndices` of the desired notifications and
`changeIndices` of the pending changes.  What the functions on one table do to the other is stated here
once: nothing.
-/

namespace ProtobufC
open Library
set_option autoImplicit false

/-! ## Columns -/

/-- The position that a column holds for `fd`. -/
def indexOf (column : List ℤ) (fd : ℕ) : Option ℕ :=
  column[fd]?.bind fun i => if i = -1 then none else some i.toNat

/-- Every element is an index or -1. -/
def IndexColumn (column : List ℤ) : Prop := ∀ i ∈ column, -1 ≤ i

theorem IndexColumn.indexOf_eq_some {column : List ℤ} (h : IndexColumn column) {fd i : ℕ} :
    indexOf column fd = some i ↔ column[fd]? = some (i : ℤ) := by
  unfold indexOf
  cases hc : column[fd]? with
  | none => simp
  | some j =>
    have hj := h j (List.mem_of_getElem? hc)
    simp only [Option.bind_some]
    split_ifs with hneg
    · subst hneg
      refine iff_of_false (by simp) ?_
      rw [Option.some.injEq]
      omega
    · rw [Option.some.injEq, Option.some.injEq]
      omega

theorem indexOf_append_unknown (column : List ℤ) (n : ℕ) :
    indexOf (column ++ List.replicate n (-1)) = indexOf column := by
  funext fd
  unfold indexOf
  by_cases hlt : fd < column.length
  · rw [List.getElem?_append_left hlt]
  · rw [List.getElem?_append_right (by omega), List.getElem?_replicate,
      List.getElem?_eq_none (Nat.le_of_not_lt hlt)]
    split_ifs <;> rfl

theorem indexOf_set {column : List ℤ} {fd : ℕ} (hlt : fd < column.length) (i : ℤ) :
    indexOf (column.set fd i) =
      reindex (indexOf column) fd (if i = -1 then none else some i.toNat) := by
  funext fd'
  unfold indexOf reindex
  split_ifs with hfd hi
  · rw [hfd, List.getElem?_set_self hlt, Option.bind_some, if_pos hi]
  · rw [hfd, List.getElem?_set_self hlt, Option.bind_some, if_neg hi]
  · rw [List.getElem?_set_ne (Ne.symm hfd)]

theorem IndexColumn.append_unknown {column : List ℤ} (h : IndexColumn column) (n : ℕ) :
    IndexColumn (column ++ List.replicate n (-1)) := by
  intro i hi
  obtain hold | hnew := List.mem_append.mp hi
  · exact h i hold
  · exact (List.eq_of_mem_replicate hnew).ge

theorem IndexColumn.set {column : List ℤ} (h : IndexColumn column) {fd : ℕ} {i : ℤ} (hi : -1 ≤ i) :
    IndexColumn (column.set fd i) := by
  intro j hj
  rcases List.mem_or_eq_of_mem_set hj with hj | rfl
  · exact h j hj
  · exact hi

/-! ## The map -/

namespace RealDispatch

def notifyIndices (d : RealDispatch) : List ℤ := d.fdMap.map FDMap.notifyDesiredIndex

def changeIndices (d : RealDispatch) : List ℤ := d.fdMap.map FDMap.changeIndex

/-- The desired notifications, with their callbacks. -/
def table (d : RealDispatch) : List (FDNotify × Callback) :=
  (d.notifiesDesired.zip d.callbacks).take d.nNotifiesDesired

/-- The pending changes. -/
def pending (d : RealDispatch) : List FDNotifyChange := d.changes.take d.nChanges

/-- `fm->notify_desired_index = i` -/
def setNotifyIndex (d : RealDispatch) (fd : ℕ) (i : ℤ) : RealDispatch :=
  d.modifyFm fd fun fm => { fm with notifyDesiredIndex := i }

/-- `fm->change_index = i` -/
def setChangeIndex (d : RealDispatch) (fd : ℕ) (i : ℤ) : RealDispatch :=
  d.modifyFm fd fun fm => { fm with changeIndex := i }

theorem length_notifyIndices (d : RealDispatch) : d.notifyIndices.length = d.fdMap.length :=
  List.length_map _

theorem length_changeIndices (d : RealDispatch) : d.changeIndices.length = d.fdMap.length :=
  List.length_map _

theorem fm_ok {d : RealDispatch} {fd : ℕ} {fm : FDMap} :
    d.fm fd = .ok fm ↔ d.fdMap[fd]? = some fm := by
  unfold RealDispatch.fm readAtIndex
  cases d.fdMap[fd]? <;> simp

end RealDispatch

theorem map_modify_of_eq {α β : Type} {g : α → β} {f : α → α} (h : ∀ a, g (f a) = g a) (l : List α)
    (i : ℕ) : (l.modify i f).map g = l.map g := by
  apply List.ext_getElem?
  intro j
  rw [List.getElem?_map, List.getElem?_modify, List.getElem?_map]
  cases l[j]? with
  | none => rfl
  | some a => by_cases hij : i = j <;> simp [hij, h]

theorem map_modify_of_const {α β : Type} {g : α → β} {f : α → α} {b : β} (h : ∀ a, g (f a) = b)
    (l : List α) (i : ℕ) : (l.modify i f).map g = (l.map g).set i b := by
  apply List.ext_getElem?
  intro j
  rw [List.getElem?_map, List.getElem?_modify, List.getElem?_set, List.getElem?_map,
    List.length_map]
  cases hj : l[j]? with
  | none =>
    have hlen := List.getElem?_eq_none_iff.mp hj
    by_cases hij : i = j
    · subst hij
      rw [if_pos rfl, if_neg (by omega)]
      rfl
    · rw [if_neg hij]
      rfl
  | some a =>
    have hlen := (List.getElem?_eq_some_iff.mp hj).1
    by_cases hij : i = j
    · subst hij
      simp [h, hlen]
    · simp [hij]

/-! ## Room in the map -/

theorem lt_enlargedSize {fd : ℕ} : ∀ (fuel newSize : ℕ), 0 < newSize → fd < newSize + fuel →
    fd < enlargedSize fd fuel newSize := by
  intro fuel
  induction fuel with
  | zero =>
    intro newSize _ hlt
    exact hlt
  | succ fuel ih =>
    intro newSize hpos hlt
    rw [enlargedSize]
    split_ifs with hge
    · exact ih (newSize * 2) (by omega) (by omega)
    · omega

theorem ensureFdMapBigEnough_fdMap (d : RealDispatch) (fd : ℕ) :
    ∃ n, ensureFdMapBigEnough d fd = { d with fdMap := d.fdMap ++ List.replicate n .unknown } ∧
      (0 < d.fdMap.length → fd < (d.fdMap ++ List.replicate n FDMap.unknown).length) := by
  unfold ensureFdMapBigEnough enlargeFdMap
  split_ifs with hge
  · refine ⟨_, rfl, fun hpos => ?_⟩
    have hlt : fd < enlargedSize fd fd (d.fdMap.length * 2) :=
      lt_enlargedSize fd (d.fdMap.length * 2) (by omega) (by omega)
    rw [List.length_append, List.length_replicate]
    omega
  · exact ⟨0, by simp, fun _ => by simpa using hge⟩

end ProtobufC
