import ProtobufC.Library.Outcome

/-! # Stores of objects

A store holds the objects of one type that an allocator has handed out.  An address is a position, and
an object that is freed leaves its position empty, so that no address comes back.  A read or a write
at an empty position is a fault, and so is freeing it again.

Every operation has one lemma that says when it succeeds, and `get_alloc`, `get_of_write` and
`get_of_free` say what the store holds afterwards.
-/

namespace ProtobufC.Library
set_option autoImplicit false

/-- The objects that are allocated. -/
structure Store (α : Type) where
  cells : List (Option α)
  deriving DecidableEq

namespace Store
variable {α : Type}

def empty : Store α := ⟨[]⟩

def get (store : Store α) (i : ℕ) : Option α := store.cells[i]?.join

/-- A new object and its address. -/
def alloc (store : Store α) (a : α) : ℕ × Store α := (store.cells.length, ⟨store.cells ++ [some a]⟩)

def load (store : Store α) (i : ℕ) : Except Fault α :=
  match store.get i with
  | none => .error .access
  | some a => .ok a

def write (store : Store α) (i : ℕ) (a : α) : Except Fault (Store α) :=
  match store.get i with
  | none => .error .access
  | some _ => .ok ⟨store.cells.set i (some a)⟩

def free (store : Store α) (i : ℕ) : Except Fault (Store α) :=
  match store.get i with
  | none => .error .release
  | some _ => .ok ⟨store.cells.set i none⟩

/-- `p->.. = ..` -/
def modify (store : Store α) (i : ℕ) (f : α → α) : Except Fault (Store α) := do
  store.write i (f (← store.load i))

/-! ## What succeeds -/

theorem load_ok {store : Store α} {i : ℕ} {a : α} : store.load i = .ok a ↔ store.get i = some a := by
  unfold load
  cases store.get i with
  | none => simp
  | some b => simp

theorem write_ok {store : Store α} {i : ℕ} {a : α} (h : store.get i = some a) (b : α) :
    store.write i b = .ok ⟨store.cells.set i (some b)⟩ := by
  unfold write
  rw [h]

theorem free_ok {store : Store α} {i : ℕ} {a : α} (h : store.get i = some a) :
    store.free i = .ok ⟨store.cells.set i none⟩ := by
  unfold free
  rw [h]

theorem modify_ok {store : Store α} {i : ℕ} {a : α} (h : store.get i = some a) (f : α → α) :
    store.modify i f = .ok ⟨store.cells.set i (some (f a))⟩ := by
  unfold modify
  rw [load_ok.mpr h]
  exact write_ok h (f a)

/-! ## What is there afterwards -/

theorem get_lt {store : Store α} {i : ℕ} {a : α} (h : store.get i = some a) :
    i < store.cells.length := by
  by_contra hge
  unfold get at h
  rw [List.getElem?_eq_none (by omega)] at h
  exact absurd h (by simp)

theorem get_empty (j : ℕ) : (empty : Store α).get j = none := rfl

theorem get_alloc (store : Store α) (a : α) (j : ℕ) :
    (store.alloc a).2.get j = if j = (store.alloc a).1 then some a else store.get j := by
  unfold get alloc
  by_cases hj : j = store.cells.length
  · rw [if_pos hj, hj, List.getElem?_append_right (Nat.le_refl _), Nat.sub_self]
    rfl
  · rw [if_neg hj]
    by_cases hlt : j < store.cells.length
    · rw [List.getElem?_append_left hlt]
    · rw [List.getElem?_append_right (by omega), List.getElem?_eq_none (by simp; omega),
        List.getElem?_eq_none (by omega)]

theorem get_alloc_new (store : Store α) (a : α) : store.get (store.alloc a).1 = none := by
  unfold get alloc
  rw [List.getElem?_eq_none (Nat.le_refl _)]
  rfl

theorem get_alloc_old {store : Store α} {j : ℕ} {b : α} (h : store.get j = some b) (a : α) :
    (store.alloc a).2.get j = some b := by
  rw [get_alloc, if_neg, h]
  rintro rfl
  rw [get_alloc_new] at h
  exact absurd h (by simp)

theorem get_set {store : Store α} {i : ℕ} {a : α} (h : store.get i = some a) (x : Option α) (j : ℕ) :
    (Store.mk (store.cells.set i x)).get j = if j = i then x else store.get j := by
  have hlt := get_lt h
  unfold get
  rw [List.getElem?_set]
  by_cases hj : j = i
  · rw [if_pos hj.symm, if_pos (by omega), if_pos hj]
    rfl
  · rw [if_neg (Ne.symm hj), if_neg hj]

theorem get_of_free {store store' : Store α} {i : ℕ} (h : store.free i = .ok store') :
    store'.get i = none := by
  unfold free at h
  cases hget : store.get i with
  | none =>
    rw [hget] at h
    exact absurd h (by simp)
  | some a =>
    rw [hget] at h
    obtain rfl := Except.ok.inj h
    rw [get_set hget, if_pos rfl]

theorem get_of_free_ne {store store' : Store α} {i j : ℕ} (h : store.free i = .ok store') (hne : j ≠ i) :
    store'.get j = store.get j := by
  unfold free at h
  cases hget : store.get i with
  | none =>
    rw [hget] at h
    exact absurd h (by simp)
  | some a =>
    rw [hget] at h
    obtain rfl := Except.ok.inj h
    rw [get_set hget, if_neg hne]

theorem get_of_write {store store' : Store α} {i : ℕ} {a : α} (h : store.write i a = .ok store') :
    store'.get i = some a := by
  unfold write at h
  cases hget : store.get i with
  | none =>
    rw [hget] at h
    exact absurd h (by simp)
  | some b =>
    rw [hget] at h
    obtain rfl := Except.ok.inj h
    rw [get_set hget, if_pos rfl]

/-! ## Addresses that are gone -/

/-- An object was there and was freed. -/
def Freed (store : Store α) (i : ℕ) : Prop := i < store.cells.length ∧ store.get i = none

theorem freed_of_free {store : Store α} {i : ℕ} {a : α} (h : store.get i = some a) :
    (Store.mk (store.cells.set i none)).Freed i := by
  refine ⟨?_, ?_⟩
  · rw [List.length_set]
    exact get_lt h
  · rw [get_set h, if_pos rfl]

theorem Freed.alloc {store : Store α} {i : ℕ} (h : store.Freed i) (a : α) :
    (store.alloc a).2.Freed i := by
  have hlt := h.1
  refine ⟨?_, ?_⟩
  · show i < (store.cells ++ [some a]).length
    rw [List.length_append]
    omega
  · rw [get_alloc, if_neg, h.2]
    show i ≠ store.cells.length
    omega

theorem Freed.set {store : Store α} {i j : ℕ} {a : α} (h : store.Freed i) (hj : store.get j = some a)
    (x : Option α) : (Store.mk (store.cells.set j x)).Freed i := by
  refine ⟨?_, ?_⟩
  · rw [List.length_set]
    exact h.1
  · rw [get_set hj, if_neg, h.2]
    rintro rfl
    rw [h.2] at hj
    exact absurd hj (by simp)

theorem Freed.modify {store : Store α} {i : ℕ} (h : store.Freed i) (f : α → α) :
    store.modify i f = .error .access := by
  unfold Store.modify load
  rw [h.2]
  rfl

/-! ## One object that is changed -/

/-- The object at `i`, if there is one, is changed by `g`. -/
def mapAt (store : Store α) (i : ℕ) (g : α → α) : Store α := ⟨store.cells.modify i (Option.map g)⟩

variable {g : α → α} {i : ℕ}

theorem cells_mapAt (store : Store α) (i : ℕ) (g : α → α) (k : ℕ) :
    (store.mapAt i g).cells[k]? =
      if k = i then store.cells[k]?.map (Option.map g) else store.cells[k]? := by
  unfold mapAt
  rw [List.getElem?_modify]
  by_cases hk : k = i
  · rw [if_pos hk]
    cases store.cells[k]? with
    | none => rfl
    | some x => exact congrArg some (if_pos hk.symm)
  · rw [if_neg hk]
    cases store.cells[k]? with
    | none => rfl
    | some x => exact congrArg some (if_neg (Ne.symm hk))

theorem length_mapAt (store : Store α) (i : ℕ) (g : α → α) :
    (store.mapAt i g).cells.length = store.cells.length := List.length_modify ..

theorem get_mapAt (store : Store α) (i : ℕ) (g : α → α) (j : ℕ) :
    (store.mapAt i g).get j = if j = i then (store.get j).map g else store.get j := by
  unfold get
  rw [cells_mapAt]
  split_ifs
  · cases store.cells[j]? with
    | none => rfl
    | some x => rfl
  · rfl

theorem ext_cells {store store' : Store α} (h : ∀ k : ℕ, store.cells[k]? = store'.cells[k]?) :
    store = store' := by
  obtain ⟨cells⟩ := store
  obtain ⟨cells'⟩ := store'
  exact congrArg Store.mk (List.ext_getElem? h)

theorem mapAt_set (store : Store α) (j : ℕ) (x : Option α) :
    (Store.mk (store.cells.set j x)).mapAt i g =
      ⟨(store.mapAt i g).cells.set j (if j = i then x.map g else x)⟩ := by
  refine ext_cells fun k => ?_
  rw [cells_mapAt, List.getElem?_set, List.getElem?_set, cells_mapAt, length_mapAt]
  by_cases hk : j = k
  · rw [if_pos hk, if_pos hk, ← hk]
    split_ifs <;> rfl
  · rw [if_neg hk, if_neg hk]

theorem set_mapAt_self (store : Store α) (x : Option α) :
    (store.mapAt i g).cells.set i x = store.cells.set i x := by
  refine List.ext_getElem? fun k => ?_
  rw [List.getElem?_set, List.getElem?_set, cells_mapAt, length_mapAt]
  by_cases hk : i = k
  · rw [if_pos hk, if_pos hk]
  · rw [if_neg hk, if_neg hk, if_neg (Ne.symm hk)]

theorem cell_of_get {store : Store α} {a : α} (h : store.get i = some a) :
    store.cells[i]? = some (some a) := by
  unfold get at h
  cases hcell : store.cells[i]? with
  | none =>
    rw [hcell] at h
    exact absurd h (by simp)
  | some x =>
    rw [hcell] at h
    exact congrArg some h

theorem set_get {store : Store α} {a : α} (h : store.get i = some a) :
    Store.mk (store.cells.set i (some a)) = store := by
  refine ext_cells fun k => ?_
  rw [List.getElem?_set]
  by_cases hk : i = k
  · rw [if_pos hk, if_pos (get_lt h), ← hk, cell_of_get h]
  · rw [if_neg hk]

theorem mapAt_of_some {store : Store α} {a : α} (h : store.get i = some a) :
    store.mapAt i g = ⟨store.cells.set i (some (g a))⟩ := by
  refine ext_cells fun k => ?_
  rw [cells_mapAt, List.getElem?_set]
  by_cases hk : k = i
  · rw [if_pos hk, if_pos hk.symm, if_pos (get_lt h), hk, cell_of_get h]
    rfl
  · rw [if_neg hk, if_neg (Ne.symm hk)]

theorem free_mapAt_self (store : Store α) : (store.mapAt i g).free i = store.free i := by
  unfold free
  rw [get_mapAt, if_pos rfl, set_mapAt_self]
  cases store.get i with
  | none => rfl
  | some a => rfl

theorem load_mapAt (store : Store α) (j : ℕ) :
    (store.mapAt i g).load j = (store.load j).map fun a => if j = i then g a else a := by
  unfold load
  rw [get_mapAt]
  by_cases hj : j = i
  · simp only [if_pos hj]
    cases store.get j with
    | none => rfl
    | some a => rfl
  · simp only [if_neg hj]
    cases store.get j with
    | none => rfl
    | some a => rfl

theorem write_mapAt (store : Store α) (j : ℕ) (a : α) :
    (store.mapAt i g).write j (if j = i then g a else a) = (store.write j a).map (·.mapAt i g) := by
  unfold write
  rw [get_mapAt]
  have hset := mapAt_set (i := i) (g := g) store j (some a)
  by_cases hj : j = i
  · simp only [if_pos hj, Option.map_some] at hset ⊢
    cases store.get j with
    | none => rfl
    | some b => exact congrArg Except.ok hset.symm
  · simp only [if_neg hj] at hset ⊢
    cases store.get j with
    | none => rfl
    | some b => exact congrArg Except.ok hset.symm

/-- A change that does not see `g`. -/
theorem modify_mapAt {f : α → α} (hcomm : ∀ a, f (g a) = g (f a)) (store : Store α) (j : ℕ) :
    (store.mapAt i g).modify j f = (store.modify j f).map (·.mapAt i g) := by
  unfold modify
  rw [load_mapAt]
  cases store.load j with
  | error e => rfl
  | ok a =>
    have hwrite := write_mapAt (i := i) (g := g) store j (f a)
    change (store.mapAt i g).write j (f (if j = i then g a else a)) = (store.write j (f a)).map _
    rw [← hwrite, apply_ite f, hcomm]

end Store

end ProtobufC.Library
