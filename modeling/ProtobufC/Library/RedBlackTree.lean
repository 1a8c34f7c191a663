import ProtobufC.Library.Outcome

/-! # Red-black trees

The trees of `gskrbtreemacros.h`, over any type with a key in a linear order.  The links to the parent
are a path: the list of the nodes above a subtree, the nearest first, each with the child that the path
does not go through.  The macros write every case twice, for the left and for the right side; here the
side is a parameter.  Where a macro would follow `NULL` the operation faults.

What the operations do to the set of elements is `insert_spec` and `remove_spec`: they are an ordered
set.  `insert_leads_left` is about the shape: when is the new node reached by left links only.
-/

namespace ProtobufC.Library
set_option autoImplicit false

inductive RBTree (α : Type)
  | nil
  | node (red : Bool) (left : RBTree α) (elem : α) (right : RBTree α)
  deriving DecidableEq

/-- A node above a subtree: on which side of it the subtree is, and what is on the other. -/
structure Frame (α : Type) where
  isLeft : Bool
  red : Bool
  elem : α
  sibling : RBTree α

namespace RBTree
variable {α κ : Type}

/-! ## Shape -/

def inorder : RBTree α → List α
  | nil => []
  | node _ l e r => l.inorder ++ e :: r.inorder

/-- `node != NULL && is_red (node)` -/
def isRed : RBTree α → Bool
  | nil => false
  | node red _ _ _ => red

/-- `set_is_red` -/
def setRed (red : Bool) : RBTree α → RBTree α
  | nil => nil
  | node _ l e r => node red l e r

/-- A node with the child `near` on the given side. -/
def join (isLeft red : Bool) (near : RBTree α) (e : α) (far : RBTree α) : RBTree α :=
  if isLeft then node red near e far else node red far e near

end RBTree

open ProtobufC.Library.RBTree

/-- The frame with its subtree. -/
def Frame.plug {α : Type} (f : Frame α) (t : RBTree α) : RBTree α := join f.isLeft f.red t f.elem f.sibling

namespace RBTree
variable {α κ : Type}

/-- The whole tree. -/
def rebuild : RBTree α → List (Frame α) → RBTree α
  | t, [] => t
  | t, f :: path => rebuild (f.plug t) path

/-- `GSK_RBTREE_FIRST` -/
def first : RBTree α → Option α
  | nil => none
  | node _ nil e _ => some e
  | node _ l _ _ => l.first

/-- The rotation that brings up the child on the given side: `GSK_RBTREE_ROTATE_RIGHT` the left one,
`GSK_RBTREE_ROTATE_LEFT` the right one. -/
def bringUp : Bool → RBTree α → Except Fault (RBTree α)
  | true, node red (node red' a y b) x c => .ok (node red' a y (node red b x c))
  | false, node red a x (node red' b y c) => .ok (node red' (node red a x b) y c)
  | _, _ => .error .access

/-! ## The operations -/

section Ordered
variable [LinearOrder κ] (key : α → κ)

/-- The way from the top to the element with the key of `x`, or to the place where it would be. -/
def descend (x : α) : RBTree α → List (Frame α) → RBTree α × List (Frame α)
  | nil, path => (nil, path)
  | node red l e r, path =>
      if key x < key e then descend x l (⟨true, red, e, r⟩ :: path)
      else if key e < key x then descend x r (⟨false, red, e, l⟩ :: path)
      else (node red l e r, path)

end Ordered

/-- The round of the fixup of `GSK_RBTREE_INSERT` where the uncle is not red: `t` is the subtree of
`_gsk_at`, `p` its parent and `g` its grandparent. -/
def rotateInsert (t : RBTree α) (p g : Frame α) : Except Fault (RBTree α) := do
  let parent ← if p.isLeft = g.isLeft then .ok (p.plug t) else bringUp p.isLeft (p.plug t)
  bringUp g.isLeft (Frame.plug { g with red := true } (parent.setRed false))

/-- The fixup of `GSK_RBTREE_INSERT`; `t` is the subtree of `_gsk_at`, which is red. -/
def insertFixup : RBTree α → List (Frame α) → Except Fault (RBTree α)
  | t, [] => .ok t
  | t, [p] => if p.red then .error .access else .ok (p.plug t)
  | t, p :: g :: rest =>
      if p.red then
        if g.sibling.isRed then
          insertFixup (Frame.plug { g with red := true, sibling := g.sibling.setRed false }
            (Frame.plug { p with red := false } t)) rest
        else return rebuild (← rotateInsert t p g) rest
      else .ok (rebuild t (p :: g :: rest))

/-- `GSK_RBTREE_INSERT`, with the `collision_node`. -/
def insert [LinearOrder κ] (key : α → κ) (x : α) (t : RBTree α) : Except Fault (RBTree α × Option α) :=
  match descend key x t [] with
  | (node _ _ collision _, _) => .ok (t, some collision)
  | (nil, path) => do
      let t ← insertFixup (node true nil x nil) path
      return (t.setRed false, none)

/-- The child on the given side. -/
def child (isLeft : Bool) : RBTree α → RBTree α
  | nil => nil
  | node _ l _ r => if isLeft then l else r

/-- The child on the given side becomes black. -/
def blackenChild (isLeft : Bool) : RBTree α → RBTree α
  | nil => nil
  | node red l e r => if isLeft then node red (l.setRed false) e r else node red l e (r.setRed false)

/-- A sibling with a red child: when it is the near one, it is rotated to the far side. -/
def turnSibling (isLeft : Bool) (sibling : RBTree α) : Except Fault (RBTree α) :=
  if (sibling.child !isLeft).isRed then .ok sibling
  else bringUp isLeft ((sibling.blackenChild isLeft).setRed true)

/-- One round of the fixup of `GSK_RBTREE_REMOVE` at a sibling that is not red.  The result is what
stands where the parent stood, and whether the fixup is over; if not, it goes on from there. -/
def rebalance (x : RBTree α) (p : Frame α) : Except Fault (Bool × RBTree α) :=
  match p.sibling with
  | nil => .error .access
  | node red l w r =>
      let sibling := node red l w r
      if ¬ (sibling.child p.isLeft).isRed ∧ ¬ (sibling.child !p.isLeft).isRed then
        .ok (false, Frame.plug { p with sibling := sibling.setRed true } x)
      else do
        let w := ((← turnSibling p.isLeft sibling).setRed p.red).blackenChild !p.isLeft
        return (true, ← bringUp (!p.isLeft) (Frame.plug { p with red := false, sibling := w } x))

/-- The fixup of `GSK_RBTREE_REMOVE`. -/
def removeFixup : RBTree α → List (Frame α) → Except Fault (RBTree α)
  | x, [] => .ok (x.setRed false)
  | x, p :: rest =>
      if x.isRed then .ok (rebuild (x.setRed false) (p :: rest))
      else
        match p.sibling with
        | nil => .error .access
        | node true l w r => do
            -- a red sibling is rotated above the parent, which is red then
            let near := (node true l w r).child p.isLeft
            let far := (node true l w r).child !p.isLeft
            let path := ⟨p.isLeft, false, w, far⟩ :: rest
            match ← rebalance x { p with red := true, sibling := near } with
            | (true, t) => return (rebuild t path).setRed false
            | (false, t) => return rebuild (t.setRed false) path
        | node false _ _ _ => do
            match ← rebalance x p with
            | (true, t) => return (rebuild t rest).setRed false
            | (false, t) => removeFixup t rest

/-- The first node of a tree: its colour, its element and what is on its right, with the way to it. -/
def descendFirst : RBTree α → List (Frame α) → Option (Bool × α × RBTree α × List (Frame α))
  | nil, _ => none
  | node red nil e r, path => some (red, e, r, path)
  | node red l e r, path => descendFirst l (⟨true, red, e, r⟩ :: path)

/-- A node of the given colour is gone, and `x` stands in its place. -/
def unlink (red : Bool) (x : RBTree α) (path : List (Frame α)) : Except Fault (RBTree α) :=
  if red then .ok (rebuild x path) else removeFixup x path

/-- `GSK_RBTREE_REMOVE` of the node at a path; with two children, the next node takes its place. -/
def removeAt (red : Bool) (l r : RBTree α) (path : List (Frame α)) : Except Fault (RBTree α) :=
  match l with
  | nil => unlink red r path
  | node _ _ _ _ =>
      match descendFirst r [] with
      | none => unlink red l path
      | some (red', y, x, inner) => unlink red' x (inner ++ ⟨false, red, y, l⟩ :: path)

/-- `GSK_RBTREE_REMOVE`.  For a node that is not in the tree the macro follows whatever links are left in
it; here that is a fault. -/
def remove [LinearOrder κ] (key : α → κ) (x : α) (t : RBTree α) : Except Fault (RBTree α) :=
  match descend key x t [] with
  | (nil, _) => .error .access
  | (node red l _ r, path) => removeAt red l r path

/-! ## The elements in order -/

/-- The elements that a path has in front of its subtree. -/
def before : List (Frame α) → List α
  | [] => []
  | f :: path => before path ++ if f.isLeft then [] else f.sibling.inorder ++ [f.elem]

/-- The elements that a path has behind its subtree. -/
def after : List (Frame α) → List α
  | [] => []
  | f :: path => (if f.isLeft then f.elem :: f.sibling.inorder else []) ++ after path

@[simp] theorem inorder_setRed (red : Bool) (t : RBTree α) : (t.setRed red).inorder = t.inorder := by
  cases t with
  | nil => rfl
  | node _ l e r => rfl

theorem inorder_plug (f : Frame α) (t : RBTree α) :
    (f.plug t).inorder = (if f.isLeft then [] else f.sibling.inorder ++ [f.elem]) ++ t.inorder ++
      if f.isLeft then f.elem :: f.sibling.inorder else [] := by
  unfold Frame.plug join
  cases f.isLeft with
  | true => simp [inorder]
  | false => simp [inorder]

theorem inorder_rebuild (t : RBTree α) (path : List (Frame α)) :
    (rebuild t path).inorder = before path ++ t.inorder ++ after path := by
  induction path generalizing t with
  | nil => simp [rebuild, before, after]
  | cons f path ih =>
    rw [rebuild, ih, inorder_plug, before, after]
    simp only [List.append_assoc]

theorem inorder_rebuild_congr {t t' : RBTree α} (h : t.inorder = t'.inorder) (path : List (Frame α)) :
    (rebuild t path).inorder = (rebuild t' path).inorder := by
  rw [inorder_rebuild, inorder_rebuild, h]

theorem inorder_bringUp {isLeft : Bool} {t t' : RBTree α} (h : bringUp isLeft t = .ok t') :
    t'.inorder = t.inorder := by
  unfold bringUp at h
  split at h
  · simp only [Except.ok.injEq] at h
    simp [← h, inorder]
  · simp only [Except.ok.injEq] at h
    simp [← h, inorder]
  · exact absurd h (by simp)

theorem inorder_blackenChild (isLeft : Bool) (t : RBTree α) :
    (t.blackenChild isLeft).inorder = t.inorder := by
  cases t with
  | nil => rfl
  | node red l e r =>
    cases isLeft with
    | true => simp [blackenChild, inorder]
    | false => simp [blackenChild, inorder]

theorem inorder_first (t : RBTree α) : t.first = t.inorder.head? := by
  induction t with
  | nil => rfl
  | node red l e r ihl _ =>
    cases l with
    | nil => rfl
    | node red' a e' b =>
      rw [first, ihl]
      · simp [inorder]
      · simp

/-! ## The fixups keep the elements -/

theorem inorder_rotateInsert {t top : RBTree α} {p g : Frame α} (h : rotateInsert t p g = .ok top) :
    top.inorder = (g.plug (p.plug t)).inorder := by
  unfold rotateInsert at h
  split at h
  · rw [inorder_bringUp h, inorder_plug, inorder_plug g, inorder_setRed]
  · obtain ⟨parent, hparent, h⟩ := except_bind_eq_ok h
    rw [inorder_bringUp h, inorder_plug, inorder_plug g, inorder_setRed, inorder_bringUp hparent]

theorem insertFixup_inorder (t : RBTree α) (path : List (Frame α)) {t' : RBTree α}
    (h : insertFixup t path = .ok t') : t'.inorder = (rebuild t path).inorder := by
  induction t, path using insertFixup.induct with
  | case1 t =>
    simp only [insertFixup, Except.ok.injEq] at h
    rw [← h, rebuild]
  | case2 t p hred =>
    rw [insertFixup, if_pos hred] at h
    exact absurd h (by simp)
  | case3 t p hred =>
    rw [insertFixup, if_neg hred, Except.ok.injEq] at h
    rw [← h, rebuild, rebuild]
  | case4 t p g rest hred huncle ih =>
    rw [insertFixup, if_pos hred, if_pos huncle] at h
    rw [ih h, rebuild, rebuild]
    refine inorder_rebuild_congr ?_ rest
    rw [inorder_plug, inorder_plug, inorder_plug, inorder_plug, inorder_setRed]
  | case5 t p g rest hred huncle =>
    rw [insertFixup, if_pos hred, if_neg huncle] at h
    obtain ⟨top, htop, h⟩ := except_bind_eq_ok h
    simp only [except_pure, Except.ok.injEq] at h
    rw [← h, rebuild, rebuild]
    exact inorder_rebuild_congr (inorder_rotateInsert htop) rest
  | case6 t p g rest hred =>
    rw [insertFixup, if_neg hred, Except.ok.injEq] at h
    rw [← h]

theorem turnSibling_inorder {isLeft : Bool} {t t' : RBTree α} (h : turnSibling isLeft t = .ok t') :
    t'.inorder = t.inorder := by
  unfold turnSibling at h
  split at h
  · simp only [Except.ok.injEq] at h
    rw [h]
  · rw [inorder_bringUp h, inorder_setRed, inorder_blackenChild]

theorem rebalance_inorder {x t : RBTree α} {p : Frame α} {settled : Bool}
    (h : rebalance x p = .ok (settled, t)) : t.inorder = (p.plug x).inorder := by
  unfold rebalance at h
  split at h
  · exact absurd h (by simp)
  · rename_i red l w r hsibling
    dsimp only at h
    split at h
    · simp only [Except.ok.injEq, Prod.mk.injEq] at h
      rw [← h.2, inorder_plug, inorder_plug, inorder_setRed, hsibling]
    · obtain ⟨w', hw, h⟩ := except_bind_eq_ok h
      obtain ⟨top, htop, h⟩ := except_bind_eq_ok h
      simp only [except_pure, Except.ok.injEq, Prod.mk.injEq] at h
      have hkeep : w'.inorder = p.sibling.inorder := by
        rw [hsibling, turnSibling_inorder hw]
      rw [← h.2, inorder_bringUp htop, inorder_plug, inorder_plug, inorder_blackenChild,
        inorder_setRed, hkeep]

/-- The two rotations of a red sibling, seen from the subtree. -/
theorem inorder_redSibling (x l r : RBTree α) (w : α) (p : Frame α)
    (hsibling : p.sibling = node true l w r) :
    (Frame.plug ⟨p.isLeft, false, w, (node true l w r).child !p.isLeft⟩
      (Frame.plug { p with red := true, sibling := (node true l w r).child p.isLeft } x)).inorder =
      (p.plug x).inorder := by
  rw [inorder_plug, inorder_plug, inorder_plug, hsibling]
  cases p.isLeft with
  | true => simp [child, inorder]
  | false => simp [child, inorder]

theorem removeFixup_inorder (x : RBTree α) (path : List (Frame α)) {t : RBTree α}
    (h : removeFixup x path = .ok t) : t.inorder = (rebuild x path).inorder := by
  induction path generalizing x with
  | nil =>
    simp only [removeFixup, Except.ok.injEq] at h
    rw [← h, inorder_setRed, rebuild]
  | cons p rest ih =>
    unfold removeFixup at h
    split at h
    · simp only [Except.ok.injEq] at h
      rw [← h]
      exact inorder_rebuild_congr (inorder_setRed _ _) _
    · split at h
      · exact absurd h (by simp)
      · rename_i l w r hsibling
        obtain ⟨⟨settled, t'⟩, ht, h⟩ := except_bind_eq_ok h
        have hkeep := rebalance_inorder ht
        have hred := inorder_redSibling x l r w p hsibling
        rw [rebuild, ← inorder_rebuild_congr hred]
        cases settled with
        | true =>
          simp only [except_pure, Except.ok.injEq] at h
          rw [← h, inorder_setRed, rebuild]
          refine inorder_rebuild_congr ?_ rest
          rw [inorder_plug, hkeep, ← inorder_plug]
        | false =>
          simp only [except_pure, Except.ok.injEq] at h
          rw [← h, rebuild]
          refine inorder_rebuild_congr ?_ rest
          rw [inorder_plug, inorder_setRed, hkeep, ← inorder_plug]
      · obtain ⟨⟨settled, t'⟩, ht, h⟩ := except_bind_eq_ok h
        have hkeep := rebalance_inorder ht
        rw [rebuild]
        cases settled with
        | true =>
          simp only [except_pure, Except.ok.injEq] at h
          rw [← h, inorder_setRed]
          exact inorder_rebuild_congr hkeep rest
        | false =>
          rw [ih t' h]
          exact inorder_rebuild_congr hkeep rest

/-! ## Paths -/

theorem before_append (path rest : List (Frame α)) :
    before (path ++ rest) = before rest ++ before path := by
  induction path with
  | nil => simp [before]
  | cons f path ih => simp [before, ih]

theorem after_append (path rest : List (Frame α)) :
    after (path ++ rest) = after path ++ after rest := by
  induction path with
  | nil => simp [after]
  | cons f path ih => simp [after, ih]

theorem rebuild_append (t : RBTree α) (path rest : List (Frame α)) :
    rebuild t (path ++ rest) = rebuild (rebuild t path) rest := by
  induction path generalizing t with
  | nil => rfl
  | cons f path ih => exact ih (f.plug t)

/-- Only left links lead to where nothing is in front. -/
theorem all_isLeft_iff (path : List (Frame α)) :
    path.all (fun f => f.isLeft) = true ↔ before path = [] := by
  induction path with
  | nil => simp [before]
  | cons f path ih =>
    simp only [List.all_cons, Bool.and_eq_true, before, List.append_eq_nil_iff, ih]
    cases f.isLeft with
    | true => simp
    | false => simp

theorem descendFirst_inorder {t x : RBTree α} {red : Bool} {y : α} {path inner : List (Frame α)}
    (h : descendFirst t path = some (red, y, x, inner)) :
    ∃ own, inner = own ++ path ∧ before own = [] ∧ t.inorder = y :: x.inorder ++ after own := by
  induction t generalizing path with
  | nil => exact absurd h (by simp [descendFirst])
  | node red' l e r ihl _ =>
    cases l with
    | nil =>
      simp only [descendFirst, Option.some.injEq, Prod.mk.injEq] at h
      obtain ⟨-, rfl, rfl, rfl⟩ := h
      exact ⟨[], rfl, rfl, by simp [inorder, after]⟩
    | node red'' a e' b =>
      rw [descendFirst] at h
      · obtain ⟨own, rfl, hbefore, hl⟩ := ihl h
        refine ⟨own ++ [⟨true, red', e, r⟩], by simp, ?_, ?_⟩
        · rw [before_append, hbefore]
          rfl
        · rw [inorder, hl, after_append]
          simp [after]
      · simp

theorem descendFirst_none {t : RBTree α} {path : List (Frame α)} (h : descendFirst t path = none) :
    t = nil := by
  induction t generalizing path with
  | nil => rfl
  | node red l e r ihl _ =>
    cases l with
    | nil => exact absurd h (by simp [descendFirst])
    | node red' a e' b =>
      rw [descendFirst] at h
      · exact absurd (ihl h) (by simp)
      · simp

theorem unlink_inorder {red : Bool} {x t : RBTree α} {path : List (Frame α)}
    (h : unlink red x path = .ok t) : t.inorder = before path ++ x.inorder ++ after path := by
  unfold unlink at h
  rw [← inorder_rebuild]
  split at h
  · simp only [Except.ok.injEq] at h
    rw [h]
  · exact removeFixup_inorder x path h

theorem removeAt_inorder {red : Bool} {l r t : RBTree α} {path : List (Frame α)}
    (h : removeAt red l r path = .ok t) :
    t.inorder = before path ++ (l.inorder ++ r.inorder) ++ after path := by
  cases l with
  | nil => exact unlink_inorder h
  | node red' a e b =>
    simp only [removeAt] at h
    split at h
    · rename_i hnone
      rw [unlink_inorder h, descendFirst_none hnone]
      simp [inorder]
    · rename_i red'' y x inner hsome
      obtain ⟨own, rfl, hbefore, hr⟩ := descendFirst_inorder hsome
      rw [unlink_inorder h, before_append, after_append, before_append, after_append, hbefore, hr]
      simp [before, after]

/-! ## An ordered set -/

section Ordered
variable [LinearOrder κ] (key : α → κ)

/-- The keys ascend. -/
def Ordered (t : RBTree α) : Prop := t.inorder.Pairwise fun a b => key a < key b

/-- The place of `x` is where the path leads. -/
def Around (x : α) (path : List (Frame α)) : Prop :=
  (∀ a ∈ before path, key a < key x) ∧ ∀ a ∈ after path, key x < key a

variable {key}

theorem Ordered.node {red : Bool} {l r : RBTree α} {e : α} (h : Ordered key (node red l e r)) :
    Ordered key l ∧ Ordered key r ∧ (∀ a ∈ l.inorder, key a < key e) ∧
      ∀ a ∈ r.inorder, key e < key a := by
  unfold Ordered inorder at h
  rw [List.pairwise_append, List.pairwise_cons] at h
  obtain ⟨hl, ⟨hright, hr⟩, hleft⟩ := h
  exact ⟨hl, hr, fun a ha => hleft a ha e (by simp), hright⟩

theorem descend_rebuild (x : α) (t : RBTree α) (path : List (Frame α)) :
    rebuild (descend key x t path).1 (descend key x t path).2 = rebuild t path := by
  induction t, path using descend.induct key x with
  | case1 path => rfl
  | case2 path red l e r hlt ih =>
    rw [descend, if_pos hlt, ih]
    rfl
  | case3 path red l e r hge hgt ih =>
    rw [descend, if_neg hge, if_pos hgt, ih]
    rfl
  | case4 path red l e r hge hle =>
    rw [descend, if_neg hge, if_neg hle]

theorem descend_around (x : α) (t : RBTree α) (path : List (Frame α)) (ht : Ordered key t)
    (hpath : Around key x path) : Around key x (descend key x t path).2 := by
  induction t, path using descend.induct key x with
  | case1 path => exact hpath
  | case2 path red l e r hlt ih =>
    rw [descend, if_pos hlt]
    obtain ⟨hl, -, -, hr⟩ := ht.node
    refine ih hl ⟨?_, ?_⟩
    · simpa [before] using hpath.1
    · intro a ha
      simp only [after, if_true, List.mem_append, List.mem_cons] at ha
      obtain (rfl | ha) | ha := ha
      · exact hlt
      · exact hlt.trans (hr a ha)
      · exact hpath.2 a ha
  | case3 path red l e r hge hgt ih =>
    rw [descend, if_neg hge, if_pos hgt]
    obtain ⟨-, hr, hl, -⟩ := ht.node
    refine ih hr ⟨?_, ?_⟩
    · intro a ha
      simp only [before, Bool.false_eq_true, if_false, List.mem_append, List.mem_singleton] at ha
      obtain ha | ha | rfl := ha
      · exact hpath.1 a ha
      · exact (hl a ha).trans hgt
      · exact hgt
    · simpa [after] using hpath.2
  | case4 path red l e r hge hle =>
    rw [descend, if_neg hge, if_neg hle]
    exact hpath

/-- Where the descent ends is the element with the key. -/
theorem descend_key {x e : α} {t l r : RBTree α} {red : Bool} {path rest : List (Frame α)}
    (h : descend key x t path = (.node red l e r, rest)) : key e = key x := by
  induction t, path using descend.induct key x with
  | case1 path => exact absurd h (by simp [descend])
  | case2 path red' l' e' r' hlt ih =>
    rw [descend, if_pos hlt] at h
    exact ih h
  | case3 path red' l' e' r' hge hgt ih =>
    rw [descend, if_neg hge, if_pos hgt] at h
    exact ih h
  | case4 path red' l' e' r' hge hle =>
    rw [descend, if_neg hge, if_neg hle] at h
    simp only [Prod.mk.injEq, RBTree.node.injEq] at h
    obtain ⟨⟨-, -, rfl, -⟩, -⟩ := h
    exact le_antisymm (not_lt.mp hge) (not_lt.mp hle)

/-- `GSK_RBTREE_INSERT` puts the element where it belongs. -/
theorem insert_spec {x : α} {t t' : RBTree α} (ht : Ordered key t)
    (h : insert key x t = .ok (t', none)) :
    ∃ l r, t.inorder = l ++ r ∧ t'.inorder = l ++ x :: r ∧ (∀ a ∈ l, key a < key x) ∧
      ∀ a ∈ r, key x < key a := by
  have haround := descend_around x t [] ht ⟨by simp [before], by simp [after]⟩
  have hwhole : rebuild (descend key x t []).1 (descend key x t []).2 = rebuild t [] :=
    descend_rebuild x t []
  unfold insert at h
  split at h
  · exact absurd h (by simp)
  · rename_i path hdescend
    obtain ⟨t'', hfix, h⟩ := except_bind_eq_ok h
    simp only [except_pure, Except.ok.injEq, Prod.mk.injEq, and_true] at h
    rw [hdescend] at haround hwhole
    refine ⟨before path, after path, ?_, ?_, haround.1, haround.2⟩
    · have hin := congrArg inorder hwhole
      rw [inorder_rebuild] at hin
      simpa [inorder, rebuild] using hin.symm
    · rw [← h, inorder_setRed, insertFixup_inorder _ _ hfix, inorder_rebuild]
      simp [inorder]

/-- `GSK_RBTREE_REMOVE` takes out the element with the key. -/
theorem remove_spec {x : α} {t t' : RBTree α} (h : remove key x t = .ok t') :
    ∃ l y r, key y = key x ∧ t.inorder = l ++ y :: r ∧ t'.inorder = l ++ r := by
  have hwhole : rebuild (descend key x t []).1 (descend key x t []).2 = rebuild t [] :=
    descend_rebuild x t []
  unfold remove at h
  split at h
  · exact absurd h (by simp)
  · rename_i red l y r path hdescend
    rw [hdescend] at hwhole
    have hin := congrArg inorder hwhole
    rw [inorder_rebuild, show (rebuild t []).inorder = t.inorder from rfl] at hin
    refine ⟨before path ++ l.inorder, y, r.inorder ++ after path, descend_key hdescend, ?_, ?_⟩
    · rw [← hin]
      simp [inorder]
    · rw [removeAt_inorder h]
      simp

/-! ## Is the new node the first one -/

variable (key)

/-- Going up from the element with the key of `x`, no link is a right link. -/
def leadsLeft (x : α) (t : RBTree α) : Bool := (descend key x t []).2.all fun f => f.isLeft

/-- The insertion of `x` starts with two rotations that bring it up to a place that only left links lead
to: its parent is red, its uncle is not, and it is an inner grandchild. -/
def displaces (x : α) (t : RBTree α) : Bool :=
  match (descend key x t []).2 with
  | p :: g :: rest =>
      p.red && !g.sibling.isRed && p.isLeft != g.isLeft && rest.all fun f => f.isLeft
  | _ => false

variable {key}

theorem descend_append (x : α) (t : RBTree α) (path : List (Frame α)) :
    descend key x t path = ((descend key x t []).1, (descend key x t []).2 ++ path) := by
  induction t generalizing path with
  | nil => rfl
  | node red l e r ihl ihr =>
    simp only [descend]
    split
    · rw [ihl, ihl [_]]
      simp
    · split
      · rw [ihr, ihr [_]]
        simp
      · rfl

theorem descend_of_around {x : α} {path : List (Frame α)} (h : Around key x path) (t : RBTree α)
    (top : List (Frame α)) : descend key x (rebuild t path) top = descend key x t (path ++ top) := by
  induction path generalizing t with
  | nil => rfl
  | cons f path ih =>
    obtain ⟨hbefore, hafter⟩ := h
    rw [rebuild, ih ⟨fun a ha => hbefore a (by simp [before, ha]),
      fun a ha => hafter a (by simp [after, ha])⟩]
    obtain ⟨isLeft, red, e, sibling⟩ := f
    cases isLeft with
    | true =>
      have hlt : key x < key e := hafter e (by simp [after])
      rw [show Frame.plug ⟨true, red, e, sibling⟩ t = node red t e sibling from rfl, descend, if_pos hlt]
      rfl
    | false =>
      have hlt : key e < key x := hbefore e (by simp [before])
      rw [show Frame.plug ⟨false, red, e, sibling⟩ t = node red sibling e t from rfl, descend,
        if_neg (not_lt.mpr hlt.le), if_pos hlt]
      rfl

/-- The path to an element of an ordered tree is around it. -/
theorem Ordered.around {x : α} {red : Bool} {l r : RBTree α} {path : List (Frame α)}
    (h : Ordered key (rebuild (.node red l x r) path)) : Around key x path := by
  unfold Ordered at h
  rw [inorder_rebuild, inorder, List.pairwise_append, List.pairwise_append, List.pairwise_append] at h
  obtain ⟨⟨-, -, hbefore⟩, -, hafter⟩ := h
  exact ⟨fun a ha => hbefore a ha x (by simp), fun a ha => hafter x (by simp) a ha⟩

theorem leadsLeft_iff {x : α} {red : Bool} {l r : RBTree α} {path : List (Frame α)}
    (h : Ordered key (rebuild (.node red l x r) path)) :
    leadsLeft key x (rebuild (.node red l x r) path) = true ↔ before path = [] := by
  have hdescend : descend key x (.node red l x r) (path ++ []) = (.node red l x r, path) := by
    rw [descend, if_neg (lt_irrefl _), if_neg (lt_irrefl _), List.append_nil]
  unfold leadsLeft
  rw [descend_of_around h.around, hdescend]
  exact all_isLeft_iff path

theorem leadsLeft_setRed (x : α) (red : Bool) (t : RBTree α) :
    leadsLeft key x (t.setRed red) = leadsLeft key x t := by
  cases t with
  | nil => rfl
  | node red' l e r =>
    unfold leadsLeft
    simp only [setRed, descend]
    split
    · rw [descend_append x l, descend_append x l [⟨true, red', e, r⟩]]
      simp
    · split
      · rw [descend_append x r, descend_append x r [⟨false, red', e, l⟩]]
        simp
      · rfl

theorem first_rebuild {x : α} {red : Bool} {l r : RBTree α} {path : List (Frame α)}
    (h : Ordered key (rebuild (.node red l x r) path)) :
    (rebuild (.node red l x r) path).first = some x ↔ before path = [] ∧ l = .nil := by
  obtain ⟨hbefore, -⟩ := h.around
  rw [inorder_first, inorder_rebuild, inorder]
  cases hb : before path with
  | cons b bs =>
    have hlt := hbefore b (by rw [hb]; simp)
    simp only [List.cons_append, List.head?_cons, Option.some.injEq, reduceCtorEq, false_and, iff_false]
    rintro rfl
    exact lt_irrefl _ hlt
  | nil =>
    cases l with
    | nil => simp [inorder]
    | node red' a e b =>
      unfold Ordered at h
      rw [inorder_rebuild, hb, inorder, inorder] at h
      simp only [inorder, List.nil_append, true_and, reduceCtorEq, iff_false]
      intro hhead
      have hmem : x ∈ a.inorder ++ e :: b.inorder := by
        cases ha : a.inorder with
        | nil =>
          rw [ha] at hhead
          simp only [List.nil_append, List.cons_append, List.head?_cons, Option.some.injEq] at hhead
          simp [hhead]
        | cons a' as =>
          rw [ha] at hhead
          simp only [List.cons_append, List.head?_cons, Option.some.injEq] at hhead
          simp [hhead]
      rw [List.nil_append, List.append_assoc, List.pairwise_append] at h
      exact lt_irrefl _ (h.2.2 x hmem x (by simp))

end Ordered

/-- `x` is in the tree, in a node without children. -/
inductive Bottom (x : α) : RBTree α → Prop
  | here (red : Bool) : Bottom x (node red nil x nil)
  | left {red : Bool} {l r : RBTree α} {e : α} : Bottom x l → Bottom x (node red l e r)
  | right {red : Bool} {l r : RBTree α} {e : α} : Bottom x r → Bottom x (node red l e r)

theorem Bottom.plug {x : α} {t : RBTree α} (h : Bottom x t) (f : Frame α) : Bottom x (f.plug t) := by
  unfold Frame.plug join
  cases f.isLeft with
  | true => exact .left h
  | false => exact .right h

theorem Bottom.rebuild {x : α} {t : RBTree α} (h : Bottom x t) (path : List (Frame α)) :
    Bottom x (rebuild t path) := by
  induction path generalizing t with
  | nil => exact h
  | cons f path ih => exact ih (h.plug f)

theorem Bottom.setRed {x : α} {t : RBTree α} (h : Bottom x t) (red : Bool) :
    Bottom x (t.setRed red) := by
  cases h with
  | here => exact .here red
  | left h => exact .left h
  | right h => exact .right h

theorem Bottom.path {x : α} {t : RBTree α} (h : Bottom x t) :
    ∃ red path, t = RBTree.rebuild (node red nil x nil) path := by
  induction h with
  | here red => exact ⟨red, [], rfl⟩
  | @left red l r e _ ih =>
    obtain ⟨red', path, rfl⟩ := ih
    refine ⟨red', path ++ [⟨true, red, e, r⟩], ?_⟩
    rw [rebuild_append]
    rfl
  | @right red l r e _ ih =>
    obtain ⟨red', path, rfl⟩ := ih
    refine ⟨red', path ++ [⟨false, red, e, l⟩], ?_⟩
    rw [rebuild_append]
    rfl

/-- A rotation takes only two nodes apart, so that what is further down stays there. -/
theorem Bottom.rotateInsert {x e : α} {red : Bool} {l r top : RBTree α} {p g : Frame α}
    (h : Bottom x (node red l e r)) (hinner : Bottom x l ∨ Bottom x r ∨ p.isLeft = g.isLeft)
    (hrotate : rotateInsert (node red l e r) p g = .ok top) : Bottom x top := by
  obtain ⟨pLeft, pRed, pe, ps⟩ := p
  obtain ⟨gLeft, gRed, ge, gs⟩ := g
  unfold RBTree.rotateInsert at hrotate
  cases pLeft with
  | true =>
    cases gLeft with
    | true =>
      simp only [Frame.plug, join, if_true, except_ok_bind, RBTree.setRed, bringUp,
        Except.ok.injEq] at hrotate
      rw [← hrotate]
      exact .left h
    | false =>
      simp only [Frame.plug, join, if_true, if_false, except_ok_bind, RBTree.setRed, bringUp,
        Except.ok.injEq, Bool.true_eq_false, Bool.false_eq_true] at hrotate
      rw [← hrotate]
      simp only [Bool.true_eq_false, or_false] at hinner
      obtain hl | hr := hinner
      · exact .left (.right hl)
      · exact .right (.left hr)
  | false =>
    cases gLeft with
    | true =>
      simp only [Frame.plug, join, if_true, if_false, except_ok_bind, RBTree.setRed, bringUp,
        Except.ok.injEq, Bool.false_eq_true] at hrotate
      rw [← hrotate]
      simp only [Bool.false_eq_true, or_false] at hinner
      obtain hl | hr := hinner
      · exact .left (.right hl)
      · exact .right (.left hr)
    | false =>
      simp only [Frame.plug, join, if_true, if_false, except_ok_bind, RBTree.setRed, bringUp,
        Except.ok.injEq, Bool.false_eq_true] at hrotate
      rw [← hrotate]
      exact .right h

/-- Above the new node the fixup leaves it where it is. -/
theorem insertFixup_bottom {x e : α} {red : Bool} {l r t' : RBTree α} {path : List (Frame α)}
    (h : Bottom x l ∨ Bottom x r) (hfix : insertFixup (node red l e r) path = .ok t') :
    Bottom x t' := by
  have hin : Bottom x (node red l e r) := by
    obtain h | h := h
    · exact .left h
    · exact .right h
  generalize ht : node red l e r = t at hfix hin
  induction t, path using insertFixup.induct generalizing red l e r with
  | case1 t =>
    simp only [insertFixup, Except.ok.injEq] at hfix
    rw [← hfix]
    exact hin
  | case2 t p hred =>
    rw [insertFixup, if_pos hred] at hfix
    exact absurd hfix (by simp)
  | case3 t p hred =>
    rw [insertFixup, if_neg hred, Except.ok.injEq] at hfix
    rw [← hfix]
    exact hin.plug p
  | case4 t p g rest hred huncle ih =>
    rw [insertFixup, if_pos hred, if_pos huncle] at hfix
    have hp := hin.plug { p with red := false }
    have hg := hp.plug { g with red := true, sibling := g.sibling.setRed false }
    unfold Frame.plug join at hfix hg ih
    dsimp only at hfix hg ih
    cases hgl : g.isLeft with
    | true =>
      simp only [hgl, if_true] at hfix hg ih
      exact ih (.inl hp) rfl hfix hg
    | false =>
      simp only [hgl, Bool.false_eq_true, if_false] at hfix hg ih
      exact ih (.inr hp) rfl hfix hg
  | case5 t p g rest hred huncle =>
    rw [insertFixup, if_pos hred, if_neg huncle] at hfix
    obtain ⟨top, htop, hfix⟩ := except_bind_eq_ok hfix
    simp only [except_pure, Except.ok.injEq] at hfix
    rw [← hfix]
    rw [← ht] at htop hin
    exact (hin.rotateInsert (or_assoc.mp (.inl h)) htop).rebuild rest
  | case6 t p g rest hred =>
    rw [insertFixup, if_neg hred, Except.ok.injEq] at hfix
    rw [← hfix]
    exact hin.rebuild _

/-- The two rotations of an inner grandchild bring it up between its parent and its grandparent. -/
theorem rotateInsert_inner {x : α} {top : RBTree α} {p g : Frame α} (hinner : p.isLeft ≠ g.isLeft)
    (h : rotateInsert (node true nil x nil) p g = .ok top) :
    ∃ red l r, top = node red l x r ∧ l ≠ nil := by
  obtain ⟨pLeft, pRed, pe, ps⟩ := p
  obtain ⟨gLeft, gRed, ge, gs⟩ := g
  unfold rotateInsert at h
  cases pLeft with
  | true =>
    cases gLeft with
    | true => exact absurd rfl hinner
    | false =>
      simp only [Frame.plug, join, if_true, if_false, except_ok_bind, setRed, bringUp,
        Except.ok.injEq, Bool.true_eq_false, Bool.false_eq_true] at h
      exact ⟨_, _, _, h.symm, by simp⟩
  | false =>
    cases gLeft with
    | true =>
      simp only [Frame.plug, join, if_true, if_false, except_ok_bind, setRed, bringUp,
        Except.ok.injEq, Bool.false_eq_true] at h
      exact ⟨_, _, _, h.symm, by simp⟩
    | false => exact absurd rfl hinner

/-- The new node is taken from its place only by the rotations of an inner grandchild. -/
def Inner (path : List (Frame α)) : Prop :=
  match path with
  | p :: g :: _ => p.red = true ∧ g.sibling.isRed = false ∧ p.isLeft ≠ g.isLeft
  | _ => False

theorem insertFixup_new {x : α} {path : List (Frame α)} {t : RBTree α}
    (h : insertFixup (node true nil x nil) path = .ok t) :
    (Bottom x t ∧ ¬ Inner path) ∨
      ∃ red l r, t = rebuild (node red l x r) (path.drop 2) ∧ l ≠ nil ∧ Inner path := by
  have hnew : Bottom x (node true nil x nil) := .here true
  match path with
  | [] =>
    simp only [insertFixup, Except.ok.injEq] at h
    exact .inl ⟨h ▸ hnew, fun hinner => hinner⟩
  | [p] =>
    simp only [insertFixup] at h
    split at h
    · exact absurd h (by simp)
    · simp only [Except.ok.injEq] at h
      exact .inl ⟨h ▸ hnew.plug p, fun hinner => hinner⟩
  | p :: g :: rest =>
    rw [insertFixup] at h
    split at h
    · rename_i hred
      split at h
      · rename_i huncle
        refine .inl ⟨?_, fun hinner => by simp [Inner, huncle] at hinner⟩
        have hp := hnew.plug { p with red := false }
        unfold Frame.plug join at h hp
        dsimp only at h hp
        cases hgl : g.isLeft with
        | true =>
          simp only [hgl, if_true] at h
          exact insertFixup_bottom (.inl hp) h
        | false =>
          simp only [hgl, Bool.false_eq_true, if_false] at h
          exact insertFixup_bottom (.inr hp) h
      · rename_i huncle
        obtain ⟨top, htop, h⟩ := except_bind_eq_ok h
        simp only [except_pure, Except.ok.injEq] at h
        by_cases hside : p.isLeft = g.isLeft
        · refine .inl ⟨?_, fun hinner => hinner.2.2 hside⟩
          rw [← h]
          exact (hnew.rotateInsert (.inr (.inr hside)) htop).rebuild rest
        · obtain ⟨red, l, r, rfl, hl⟩ := rotateInsert_inner hside htop
          exact .inr ⟨red, l, r, h.symm, hl, hred, by simpa using huncle, hside⟩
    · rename_i hred
      simp only [Except.ok.injEq] at h
      exact .inl ⟨h ▸ hnew.rebuild _, fun hinner => hred hinner.1⟩

section Ordered
variable [LinearOrder κ] {key : α → κ}

theorem displaces_iff (x : α) (t : RBTree α) :
    displaces key x t = true ↔
      Inner (descend key x t []).2 ∧ before ((descend key x t []).2.drop 2) = [] := by
  unfold displaces Inner
  split
  · rename_i p g rest hpath
    rw [hpath]
    simp only [Bool.and_eq_true, Bool.not_eq_true', bne_iff_ne, all_isLeft_iff, List.drop_succ_cons,
      List.drop_zero, ne_eq, and_assoc]
  · simp

/-- The new node is reached by left links only when it is the first one, or when the two rotations of
an inner grandchild brought it there. -/
theorem insert_leads_left {x : α} {t t' : RBTree α} (ht' : Ordered key t')
    (h : insert key x t = .ok (t', none)) :
    leadsLeft key x t' = true ↔ t'.first = some x ∨ displaces key x t = true := by
  unfold insert at h
  split at h
  · exact absurd h (by simp)
  · rename_i path hdescend
    obtain ⟨u, hfix, h⟩ := except_bind_eq_ok h
    simp only [except_pure, Except.ok.injEq, Prod.mk.injEq, and_true] at h
    rw [displaces_iff, hdescend]
    obtain ⟨hbottom, hinner⟩ | ⟨red, l, r, rfl, hl, hinner⟩ := insertFixup_new hfix
    · obtain ⟨red, path', hpath'⟩ := (hbottom.setRed false).path
      rw [← h, hpath'] at ht' ⊢
      rw [leadsLeft_iff ht', first_rebuild ht']
      simp [hinner]
    · have horder : Ordered key (rebuild (node red l x r) (path.drop 2)) := by
        rw [← h] at ht'
        unfold Ordered at ht' ⊢
        rwa [inorder_setRed] at ht'
      have hfirst : t'.first = (rebuild (node red l x r) (path.drop 2)).first := by
        rw [← h, inorder_first, inorder_first, inorder_setRed]
      rw [hfirst, ← h, leadsLeft_setRed, leadsLeft_iff horder, first_rebuild horder]
      simp [hl, hinner]

end Ordered

end RBTree

end ProtobufC.Library
