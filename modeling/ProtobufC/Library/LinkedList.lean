import ProtobufC.Library.Store

/-! # Doubly linked lists of objects

The objects of a list carry its links themselves, in a place that a `Hook` names; the place may serve
something else while an object is in no list.  `IsList hook store ends l` says that the objects of `l`
are linked in that order and that `ends` are its ends.

* `listAppend` and `listRemove` are the updates of the links, and each has one lemma.
* `Touched` is what such an update leaves alone: objects that are in no list, and whatever an object
  holds besides its links.
-/

namespace ProtobufC.Library
set_option autoImplicit false

/-- The links of an object. -/
structure Links where
  prev : Option ℕ
  next : Option ℕ
  deriving DecidableEq

/-- Where objects keep their links; `links` is `none` while the place serves something else. -/
structure Hook (α : Type) where
  links : α → Option Links
  setLinks : α → Links → α
  links_setLinks : ∀ a k, links (setLinks a k) = some k
  setLinks_setLinks : ∀ a k k', setLinks (setLinks a k) k' = setLinks a k'

/-- The first and the last object of a list. -/
structure ListEnds where
  first : Option ℕ
  last : Option ℕ
  deriving DecidableEq

/-- The ends of a list without objects. -/
def ListEnds.empty : ListEnds := ⟨none, none⟩

variable {α : Type} (hook : Hook α)

/-! ## Operations -/

def readLinks (store : Store α) (i : ℕ) : Except Fault Links := do
  match hook.links (← store.load i) with
  | none => .error .access
  | some k => return k

/-- `if (p) p->next = next` -/
def relinkNext (store : Store α) (p : Option ℕ) (next : Option ℕ) : Except Fault (Store α) := do
  match p with
  | none => return store
  | some i => do
      let k ← readLinks hook store i
      store.modify i (hook.setLinks · { k with next := next })

/-- `if (p) p->prev = prev` -/
def relinkPrev (store : Store α) (p : Option ℕ) (prev : Option ℕ) : Except Fault (Store α) := do
  match p with
  | none => return store
  | some i => do
      let k ← readLinks hook store i
      store.modify i (hook.setLinks · { k with prev := prev })

/-- An object is linked behind the last one. -/
def listAppend (store : Store α) (ends : ListEnds) (node : ℕ) : Except Fault (Store α × ListEnds) := do
  let store ← relinkNext hook store ends.last (some node)
  let store ← store.modify node (hook.setLinks · ⟨ends.last, none⟩)
  return (store, ⟨if ends.last.isSome then ends.first else some node, some node⟩)

/-- The neighbours of an object are linked to each other. -/
def listRemove (store : Store α) (ends : ListEnds) (node : ℕ) : Except Fault (Store α × ListEnds) := do
  let k ← readLinks hook store node
  let store ← relinkNext hook store k.prev k.next
  let store ← relinkPrev hook store k.next k.prev
  return (store, ⟨if k.prev.isSome then ends.first else k.next,
    if k.next.isSome then ends.last else k.prev⟩)

/-! ## Lists -/

structure IsList (store : Store α) (ends : ListEnds) (l : List ℕ) : Prop where
  first : ends.first = l.head?
  last : ends.last = l.getLast?
  nodup : l.Nodup
  linked : ∀ (xs : List ℕ) (i : ℕ) (ys : List ℕ), l = xs ++ i :: ys →
    ∃ a, store.get i = some a ∧ hook.links a = some ⟨xs.getLast?, ys.head?⟩

/-- The objects are the same but for their links. -/
def SameBare (store store' : Store α) : Prop :=
  ∀ i, (store'.get i).map (hook.setLinks · ⟨none, none⟩) =
    (store.get i).map (hook.setLinks · ⟨none, none⟩)

/-- What an update of the links leaves alone. -/
structure Touched (store store' : Store α) (l : List ℕ) : Prop where
  length : store'.cells.length = store.cells.length
  kept : ∀ i, i ∉ l → store'.get i = store.get i
  bare : SameBare hook store store'

variable {hook} {store store' store'' : Store α} {ends : ListEnds} {l l' : List ℕ}

theorem isList_nil (store : Store α) : IsList hook store .empty [] :=
  ⟨rfl, rfl, List.nodup_nil, fun _ _ _ h => absurd h (by simp)⟩

theorem IsList.congr (h : IsList hook store ends l) (hsame : ∀ i ∈ l, store'.get i = store.get i) :
    IsList hook store' ends l := by
  refine ⟨h.first, h.last, h.nodup, fun xs i ys heq => ?_⟩
  rw [hsame i (by simp [heq])]
  exact h.linked xs i ys heq

theorem IsList.get (h : IsList hook store ends l) {i : ℕ} (hi : i ∈ l) :
    ∃ a, store.get i = some a := by
  obtain ⟨xs, ys, rfl⟩ := List.append_of_mem hi
  obtain ⟨a, ha, -⟩ := h.linked xs i ys rfl
  exact ⟨a, ha⟩

theorem IsList.length_le (h : IsList hook store ends l) : l.length ≤ store.cells.length := by
  have hsub : l ⊆ List.range store.cells.length := by
    intro i hi
    obtain ⟨a, ha⟩ := h.get hi
    exact List.mem_range.mpr (Store.get_lt ha)
  simpa using (h.nodup.subperm hsub).length_le

theorem IsList.linked_mem (h : IsList hook store ends l) :
    ∀ i ∈ l, ∃ a k, store.get i = some a ∧ hook.links a = some k := by
  intro i hi
  obtain ⟨xs, ys, rfl⟩ := List.append_of_mem hi
  obtain ⟨a, ha, hk⟩ := h.linked xs i ys rfl
  exact ⟨a, _, ha, hk⟩

theorem SameBare.refl (store : Store α) : SameBare hook store store := fun _ => rfl

theorem SameBare.trans (h : SameBare hook store store') (h' : SameBare hook store' store'') :
    SameBare hook store store'' := fun i => (h' i).trans (h i)

/-- What does not depend on the links is the same. -/
theorem SameBare.map {β : Type} (h : SameBare hook store store') {f : α → β}
    (hf : ∀ a k, f (hook.setLinks a k) = f a) (i : ℕ) :
    (store'.get i).map f = (store.get i).map f := by
  have hbare : ∀ o : Option α, (o.map (hook.setLinks · ⟨none, none⟩)).map f = o.map f := by
    intro o
    cases o with
    | none => rfl
    | some a => exact congrArg some (hf a ⟨none, none⟩)
  rw [← hbare, h i, hbare]

theorem Touched.refl (store : Store α) (l : List ℕ) : Touched hook store store l :=
  ⟨rfl, fun _ _ => rfl, .refl store⟩

theorem Touched.trans (h : Touched hook store store' l) (h' : Touched hook store' store'' l) :
    Touched hook store store'' l :=
  ⟨h'.length.trans h.length, fun i hi => (h'.kept i hi).trans (h.kept i hi), h.bare.trans h'.bare⟩

theorem sameBare_set {i : ℕ} {a : α} (ha : store.get i = some a) (k : Links) :
    SameBare hook store ⟨store.cells.set i (some (hook.setLinks a k))⟩ := by
  intro j
  rw [Store.get_set ha]
  by_cases hj : j = i
  · rw [if_pos hj, hj, ha, Option.map_some, Option.map_some, hook.setLinks_setLinks]
  · rw [if_neg hj]

theorem touched_set {i : ℕ} {a : α} (ha : store.get i = some a) (k : Links) (hi : i ∈ l) :
    Touched hook store ⟨store.cells.set i (some (hook.setLinks a k))⟩ l := by
  refine ⟨List.length_set, fun j hj => ?_, sameBare_set ha k⟩
  rw [Store.get_set ha, if_neg]
  rintro rfl
  exact hj hi

/-! ## Updates of one link -/

theorem readLinks_ok {i : ℕ} {a : α} {k : Links} (ha : store.get i = some a)
    (hk : hook.links a = some k) : readLinks hook store i = .ok k := by
  unfold readLinks
  rw [Store.load_ok.mpr ha, except_ok_bind, hk]
  rfl

theorem relinkNext_some {i : ℕ} {a : α} {k : Links} (ha : store.get i = some a)
    (hk : hook.links a = some k) (next : Option ℕ) : relinkNext hook store (some i) next =
      .ok ⟨store.cells.set i (some (hook.setLinks a { k with next := next }))⟩ := by
  simp only [relinkNext, readLinks_ok ha hk, except_ok_bind]
  exact Store.modify_ok ha _

theorem relinkPrev_some {i : ℕ} {a : α} {k : Links} (ha : store.get i = some a)
    (hk : hook.links a = some k) (prev : Option ℕ) : relinkPrev hook store (some i) prev =
      .ok ⟨store.cells.set i (some (hook.setLinks a { k with prev := prev }))⟩ := by
  simp only [relinkPrev, readLinks_ok ha hk, except_ok_bind]
  exact Store.modify_ok ha _

/-! ## What any update leaves alone -/

theorem modify_sameBare {i : ℕ} {k : Links} (hok : store.modify i (hook.setLinks · k) = .ok store') :
    SameBare hook store store' := by
  unfold Store.modify at hok
  obtain ⟨a, hload, hwrite⟩ := except_bind_eq_ok hok
  have ha := Store.load_ok.mp hload
  obtain rfl := Except.ok.inj ((Store.write_ok ha _).symm.trans hwrite)
  exact sameBare_set ha k

theorem relinkNext_sameBare {p next : Option ℕ} (hok : relinkNext hook store p next = .ok store') :
    SameBare hook store store' := by
  cases p with
  | none =>
    obtain rfl := Except.ok.inj hok
    exact .refl store
  | some i =>
    obtain ⟨k, -, hmodify⟩ := except_bind_eq_ok hok
    exact modify_sameBare hmodify

theorem relinkPrev_sameBare {p prev : Option ℕ} (hok : relinkPrev hook store p prev = .ok store') :
    SameBare hook store store' := by
  cases p with
  | none =>
    obtain rfl := Except.ok.inj hok
    exact .refl store
  | some i =>
    obtain ⟨k, -, hmodify⟩ := except_bind_eq_ok hok
    exact modify_sameBare hmodify

theorem listAppend_sameBare {node : ℕ} {r : Store α × ListEnds}
    (hok : listAppend hook store ends node = .ok r) : SameBare hook store r.1 := by
  obtain ⟨store₁, hnext, hok⟩ := except_bind_eq_ok hok
  obtain ⟨store₂, hmodify, hok⟩ := except_bind_eq_ok hok
  obtain rfl := Except.ok.inj hok
  exact (relinkNext_sameBare hnext).trans (modify_sameBare hmodify)

theorem listRemove_sameBare {node : ℕ} {r : Store α × ListEnds}
    (hok : listRemove hook store ends node = .ok r) : SameBare hook store r.1 := by
  obtain ⟨k, -, hok⟩ := except_bind_eq_ok hok
  obtain ⟨store₁, hnext, hok⟩ := except_bind_eq_ok hok
  obtain ⟨store₂, hprev, hok⟩ := except_bind_eq_ok hok
  obtain rfl := Except.ok.inj hok
  exact (relinkNext_sameBare hnext).trans (relinkPrev_sameBare hprev)

/-! ## Appending -/

/-- An object of a list with one more behind it, by where it stands. -/
theorem concat_eq_append_cons {l xs ys : List ℕ} {node i : ℕ} (h : l ++ [node] = xs ++ i :: ys) :
    (xs = l ∧ i = node ∧ ys = []) ∨ ∃ zs, ys = zs ++ [node] ∧ l = xs ++ i :: zs := by
  obtain rfl | ⟨zs, j, rfl⟩ := ys.eq_nil_or_concat
  · obtain ⟨rfl, hi⟩ := List.append_inj' h rfl
    exact .inl ⟨rfl, by simpa using hi.symm, rfl⟩
  · rw [List.concat_eq_append, ← List.cons_append, ← List.append_assoc] at h
    obtain ⟨rfl, hj⟩ := List.append_inj' h rfl
    obtain rfl : node = j := by simpa using hj
    exact .inr ⟨zs, List.concat_eq_append .., rfl⟩

theorem listAppend_spec (h : IsList hook store ends l) {node : ℕ} {a : α}
    (hnode : store.get node = some a) (hnot : node ∉ l) : ∃ store' ends',
      listAppend hook store ends node = .ok (store', ends') ∧
      IsList hook store' ends' (l ++ [node]) ∧ Touched hook store store' (l ++ [node]) := by
  have hmem : node ∈ l ++ [node] := by simp
  have hnodup : (l ++ [node]).Nodup := by
    rw [List.nodup_append]
    exact ⟨h.nodup, List.nodup_singleton node, fun i hi j hj => by
      rw [List.mem_singleton.mp hj]
      rintro rfl
      exact hnot hi⟩
  unfold listAppend
  obtain rfl | ⟨zs, j, rfl⟩ := l.eq_nil_or_concat
  · -- the list was empty
    obtain hlast : ends.last = none := h.last
    rw [hlast]
    refine ⟨_, ⟨some node, some node⟩, ?_, ⟨rfl, rfl, hnodup, fun xs i ys heq => ?_⟩,
      touched_set hnode ⟨none, none⟩ hmem⟩
    · show (do
        let store ← store.modify node (hook.setLinks · ⟨none, none⟩)
        return (store, (⟨some node, some node⟩ : ListEnds))) = _
      rw [Store.modify_ok hnode]
      rfl
    · obtain ⟨rfl, rfl, rfl⟩ | ⟨zs, -, hnil⟩ := concat_eq_append_cons heq
      · refine ⟨hook.setLinks a ⟨none, none⟩, ?_, hook.links_setLinks ..⟩
        rw [Store.get_set hnode, if_pos rfl]
      · exact absurd hnil (by simp)
  · rw [List.concat_eq_append] at h hnot hnodup hmem ⊢
    obtain hlast : ends.last = some j := by rw [h.last, List.getLast?_concat]
    obtain ⟨b, hb, hkb⟩ := h.linked zs j [] rfl
    have hne : node ≠ j := by
      rintro rfl
      exact hnot (by simp)
    have hset₁ := Store.get_set hb (some (hook.setLinks b ⟨zs.getLast?, some node⟩))
    have hnode₁ : (Store.mk (store.cells.set j
        (some (hook.setLinks b ⟨zs.getLast?, some node⟩)))).get node = some a := by
      rw [hset₁, if_neg hne, hnode]
    have hset₂ := Store.get_set hnode₁ (some (hook.setLinks a ⟨some j, none⟩))
    rw [hlast]
    refine ⟨_, ⟨ends.first, some node⟩, ?_, ⟨?_, ?_, hnodup, fun xs i ys heq => ?_⟩,
      (touched_set hb _ (by simp)).trans (touched_set hnode₁ ⟨some j, none⟩ hmem)⟩
    · rw [relinkNext_some hb hkb, except_ok_bind, Store.modify_ok hnode₁]
      rfl
    · change ends.first = _
      rw [h.first]
      simp
    · change some node = _
      rw [List.getLast?_concat]
    · obtain ⟨rfl, rfl, rfl⟩ | ⟨ys, rfl, hsplit⟩ := concat_eq_append_cons heq
      · refine ⟨hook.setLinks a ⟨some j, none⟩, by rw [hset₂, if_pos rfl], ?_⟩
        rw [hook.links_setLinks, List.getLast?_concat]
        rfl
      · have hi : i ≠ node := by
          rintro rfl
          exact hnot (by rw [hsplit]; simp)
        obtain ⟨rfl, rfl, rfl⟩ | ⟨zs', rfl, -⟩ := concat_eq_append_cons hsplit
        · -- the object that was the last one
          refine ⟨_, by rw [hset₂, if_neg hi, hset₁, if_pos rfl], ?_⟩
          rw [hook.links_setLinks]
          rfl
        · obtain ⟨c, hc, hkc⟩ := h.linked xs i (zs' ++ [j]) hsplit
          have hij : i ≠ j := by
            rintro rfl
            have hdup := h.nodup
            rw [hsplit] at hdup
            simp [List.nodup_append] at hdup
          refine ⟨c, by rw [hset₂, if_neg hi, hset₁, if_neg hij, hc], ?_⟩
          rw [hkc]
          cases zs' <;> rfl

/-! ## Removing -/

/-- What stands in a list without one of its objects. -/
theorem append_eq_append_cons {xs ys as bs : List ℕ} {i : ℕ} (h : xs ++ ys = as ++ i :: bs) :
    (∃ cs, xs = as ++ i :: cs ∧ bs = cs ++ ys) ∨ ∃ cs, ys = cs ++ i :: bs ∧ as = xs ++ cs := by
  obtain ⟨cs, has, hys⟩ | ⟨cs, hxs, hbs⟩ := List.append_eq_append_iff.mp h
  · exact .inr ⟨cs, hys, has⟩
  · cases cs with
    | nil => exact .inr ⟨[], by simpa using hbs.symm, by simpa using hxs.symm⟩
    | cons c cs =>
      rw [List.cons_append, List.cons.injEq] at hbs
      obtain ⟨rfl, rfl⟩ := hbs
      exact .inl ⟨cs, hxs, rfl⟩

theorem listRemove_spec {xs ys : List ℕ} {node : ℕ}
    (h : IsList hook store ends (xs ++ node :: ys)) : ∃ store' ends',
      listRemove hook store ends node = .ok (store', ends') ∧
      IsList hook store' ends' (xs ++ ys) ∧ Touched hook store store' (xs ++ ys) := by
  obtain ⟨a, ha, hka⟩ := h.linked xs node ys rfl
  have hnodup : (xs ++ ys).Nodup := by
    have := h.nodup
    rw [List.nodup_middle, List.nodup_cons] at this
    exact this.2
  have hdisjoint : ∀ i ∈ xs, ∀ j ∈ ys, i ≠ j := (List.nodup_append.mp hnodup).2.2
  -- the object in front
  obtain ⟨store₁, hnext, htouch₁, hset₁⟩ : ∃ store₁,
      relinkNext hook store xs.getLast? ys.head? = .ok store₁ ∧
      Touched hook store store₁ (xs ++ ys) ∧ ∀ (as : List ℕ) (i : ℕ) (cs : List ℕ) (b : α)
        (k : Links), store.get i = some b → hook.links b = some k →
        (xs = as ++ i :: cs → ∃ b', store₁.get i = some b' ∧
          hook.links b' = some { k with next := if cs = [] then ys.head? else k.next }) ∧
        (i ∈ ys → store₁.get i = some b) := by
    obtain rfl | ⟨zs, p, rfl⟩ := xs.eq_nil_or_concat
    · exact ⟨store, rfl, .refl store _, fun as i cs b k hb hk => ⟨fun hnil => absurd hnil (by simp),
        fun _ => hb⟩⟩
    · rw [List.concat_eq_append] at h hdisjoint ⊢
      rw [List.getLast?_concat]
      obtain ⟨c, hc, hkc⟩ := h.linked zs p (node :: ys) (by simp)
      have hset := Store.get_set hc (some (hook.setLinks c ⟨zs.getLast?, ys.head?⟩))
      refine ⟨_, relinkNext_some hc hkc _, touched_set hc _ (by simp), fun as i cs b k hb hk =>
        ⟨fun heq => ?_, fun hi => ?_⟩⟩
      · obtain ⟨rfl, rfl, rfl⟩ | ⟨cs', rfl, rfl⟩ := concat_eq_append_cons heq
        · refine ⟨_, by rw [hset, if_pos rfl], ?_⟩
          obtain rfl : b = c := Option.some.inj (hb.symm.trans hc)
          rw [hook.links_setLinks, if_pos rfl]
          obtain rfl : k = _ := Option.some.inj (hk.symm.trans hkc)
          rfl
        · have hip : i ≠ p := by
            rintro rfl
            have hdup := h.nodup
            simp [List.nodup_append] at hdup
          refine ⟨b, by rw [hset, if_neg hip, hb], ?_⟩
          rw [hk, if_neg (by simp)]
      · rw [hset, if_neg, hb]
        rintro rfl
        exact hdisjoint i (by simp) i hi rfl
  -- the object behind
  obtain ⟨store₂, hprev, htouch₂, hset₂⟩ : ∃ store₂,
      relinkPrev hook store₁ ys.head? xs.getLast? = .ok store₂ ∧
      Touched hook store₁ store₂ (xs ++ ys) ∧ ∀ (cs : List ℕ) (i : ℕ) (bs : List ℕ) (b : α)
        (k : Links), store₁.get i = some b → hook.links b = some k →
        (ys = cs ++ i :: bs → ∃ b', store₂.get i = some b' ∧
          hook.links b' = some { k with prev := if cs = [] then xs.getLast? else k.prev }) ∧
        (i ∈ xs → store₂.get i = some b) := by
    cases ys with
    | nil => exact ⟨store₁, rfl, .refl store₁ _, fun as i cs b k hb hk =>
        ⟨fun hnil => absurd hnil (by simp), fun _ => hb⟩⟩
    | cons n ys =>
      obtain ⟨c, hc, hkc⟩ := h.linked (xs ++ [node]) n ys (by simp)
      have hc₁ := (hset₁ [] n [] c _ hc hkc).2 (by simp)
      have hset := Store.get_set hc₁ (some (hook.setLinks c ⟨xs.getLast?, ys.head?⟩))
      refine ⟨_, relinkPrev_some hc₁ hkc _, touched_set hc₁ _ (by simp), fun cs i bs b k hb hk =>
        ⟨fun heq => ?_, fun hi => ?_⟩⟩
      · cases cs with
        | nil =>
          obtain ⟨rfl, rfl⟩ := List.cons.inj heq
          refine ⟨_, by rw [hset, if_pos rfl], ?_⟩
          obtain rfl : b = c := Option.some.inj (hb.symm.trans hc₁)
          rw [hook.links_setLinks, if_pos rfl]
          obtain rfl : k = _ := Option.some.inj (hk.symm.trans hkc)
          rfl
        | cons m cs =>
          obtain ⟨rfl, rfl⟩ := List.cons.inj heq
          have hin : i ≠ n := by
            rintro rfl
            have hdup := h.nodup
            simp [List.nodup_append] at hdup
          refine ⟨b, by rw [hset, if_neg hin, hb], ?_⟩
          rw [hk, if_neg (by simp)]
      · rw [hset, if_neg, hb]
        rintro rfl
        exact hdisjoint i hi i (by simp) rfl
  have hrun : listRemove hook store ends node = .ok (store₂,
      ⟨if xs.getLast?.isSome then ends.first else ys.head?,
        if ys.head?.isSome then ends.last else xs.getLast?⟩) := by
    unfold listRemove
    rw [readLinks_ok ha hka]
    simp only [except_ok_bind, hnext, hprev]
    rfl
  refine ⟨store₂, _, hrun, ⟨?_, ?_, hnodup, fun as i bs heq => ?_⟩, htouch₁.trans htouch₂⟩
  · have hfirst := h.first
    cases xs with
    | nil => rfl
    | cons x xs => simpa using hfirst
  · have hlast := h.last
    cases ys with
    | nil => simp
    | cons y ys =>
      change ends.last = _
      rw [hlast, List.getLast?_append, List.getLast?_append, List.getLast?_cons_cons]
  · obtain ⟨cs, rfl, rfl⟩ | ⟨cs, rfl, rfl⟩ := append_eq_append_cons heq
    · -- in front of the object that is removed
      obtain ⟨b, hb, hkb⟩ := h.linked as i (cs ++ node :: ys) (by simp)
      obtain ⟨b', hb', hkb'⟩ := (hset₁ as i cs b _ hb hkb).1 rfl
      refine ⟨b', (hset₂ [] i [] b' _ hb' hkb').2 (by simp), ?_⟩
      rw [hkb']
      cases cs <;> rfl
    · -- behind it
      obtain ⟨b, hb, hkb⟩ := h.linked (xs ++ node :: cs) i bs (by simp)
      have hb₁ := (hset₁ [] i [] b _ hb hkb).2 (by simp)
      obtain ⟨b', hb', hkb'⟩ := (hset₂ cs i bs b _ hb₁ hkb).1 rfl
      refine ⟨b', hb', ?_⟩
      rw [hkb']
      cases cs with
      | nil => simp
      | cons c cs => simp [List.getLast?_append]

/-! ## Changes beside the links -/

section
variable {g : α → α} {i : ℕ} (hlinks : ∀ a, hook.links (g a) = hook.links a)
  (hset : ∀ a k, hook.setLinks (g a) k = g (hook.setLinks a k))
include hlinks

theorem readLinks_mapAt (store : Store α) (j : ℕ) :
    readLinks hook (store.mapAt i g) j = readLinks hook store j := by
  unfold readLinks
  rw [Store.load_mapAt]
  cases store.load j with
  | error e => rfl
  | ok a =>
    change (match hook.links (if j = i then g a else a) with | none => _ | some k => _) =
      (match hook.links a with | none => _ | some k => _)
    rw [apply_ite hook.links, hlinks, ite_self]

include hset

theorem relinkNext_mapAt (store : Store α) (p next : Option ℕ) :
    relinkNext hook (store.mapAt i g) p next = (relinkNext hook store p next).map (·.mapAt i g) := by
  cases p with
  | none => rfl
  | some j =>
    unfold relinkNext
    dsimp only
    rw [readLinks_mapAt hlinks]
    cases readLinks hook store j with
    | error e => rfl
    | ok k => exact Store.modify_mapAt (fun a => hset a _) store j

theorem relinkPrev_mapAt (store : Store α) (p prev : Option ℕ) :
    relinkPrev hook (store.mapAt i g) p prev = (relinkPrev hook store p prev).map (·.mapAt i g) := by
  cases p with
  | none => rfl
  | some j =>
    unfold relinkPrev
    dsimp only
    rw [readLinks_mapAt hlinks]
    cases readLinks hook store j with
    | error e => rfl
    | ok k => exact Store.modify_mapAt (fun a => hset a _) store j

/-- Removing an object from a list does not see what the objects hold besides their links. -/
theorem listRemove_mapAt (store : Store α) (ends : ListEnds) (node : ℕ) :
    listRemove hook (store.mapAt i g) ends node =
      (listRemove hook store ends node).map fun r => (r.1.mapAt i g, r.2) := by
  unfold listRemove
  rw [readLinks_mapAt hlinks]
  cases readLinks hook store node with
  | error e => rfl
  | ok k =>
    simp only [except_ok_bind]
    rw [relinkNext_mapAt hlinks hset]
    cases relinkNext hook store k.prev k.next with
    | error e => rfl
    | ok store₁ =>
      change (relinkPrev hook (store₁.mapAt i g) k.next k.prev >>= _) =
        Except.map _ (relinkPrev hook store₁ k.next k.prev >>= _)
      rw [relinkPrev_mapAt hlinks hset]
      cases relinkPrev hook store₁ k.next k.prev with
      | error e => rfl
      | ok store₂ => rfl

end

end ProtobufC.Library
