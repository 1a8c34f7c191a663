import ProtobufC.Dispatch.Timers

/-! # Which timers fire, and what the main loop is told

`TimersInv` holds in every state that a dispatcher reaches: the tree is ordered, a struct is in one place,
and every timer that was added is in the tree, has fired or was removed.  `timers_fire` is what follows for
the timers that fire.  `summary_truthful` is about the fields that the main loop reads.
-/

namespace ProtobufC
open Library
set_option autoImplicit false

variable {place : ℕ ↪ ℕ}

/-! ## Deadlines -/

theorem DispatchTimer.deadline_le {a b : DispatchTimer} (h : a.key < b.key) :
    a.deadline ≤ b.deadline := by
  unfold DispatchTimer.key at h
  rw [Prod.Lex.toLex_lt_toLex] at h
  obtain h | h := h
  · exact h.le
  · exact h.1.le

theorem DispatchTimer.address_of_key {a b : DispatchTimer} (h : a.key = b.key) :
    a.address = b.address := congrArg (fun key => (ofLex key).2) h

theorem DispatchTimer.deadline_of_key {a b : DispatchTimer} (h : a.key = b.key) :
    a.deadline = b.deadline := congrArg (fun key => (ofLex key).1) h

theorem DispatchTimer.deadline_le_of_key_le {a b : DispatchTimer} (h : a.key ≤ b.key) :
    a.deadline ≤ b.deadline := by
  obtain heq | hlt := h.eq_or_lt
  · exact (DispatchTimer.deadline_of_key heq).le
  · exact DispatchTimer.deadline_le hlt

theorem DispatchTimer.due_of_le {a b : DispatchTimer} {tv : TimeVal} (h : a.deadline ≤ b.deadline)
    (hb : b.due tv = true) : a.due tv = true := by
  unfold DispatchTimer.deadline at h
  rw [Prod.Lex.toLex_le_toLex] at h
  unfold DispatchTimer.due at hb ⊢
  simp only [Bool.or_eq_true, decide_eq_true_eq, Bool.and_eq_true, beq_iff_eq, UInt64.lt_iff_toNat_lt,
    UInt32.le_iff_toNat_le, ← UInt64.toNat_inj] at hb ⊢
  omega

theorem first_deadline {tree : RBTree DispatchTimer} {min : DispatchTimer}
    (hordered : tree.Ordered DispatchTimer.key) (hfirst : tree.first = some min) :
    min ∈ tree.inorder ∧ ∀ timer ∈ tree.inorder, min.key ≤ timer.key := by
  unfold RBTree.Ordered at hordered
  rw [RBTree.inorder_first] at hfirst
  cases hlist : tree.inorder with
  | nil => exact absurd hfirst (by simp [hlist])
  | cons first rest =>
    rw [hlist] at hordered hfirst
    simp only [List.head?_cons, Option.some.injEq] at hfirst
    subst hfirst
    refine ⟨by simp, fun timer htimer => ?_⟩
    obtain rfl | htimer := List.mem_cons.mp htimer
    · exact le_refl _
    · exact ((List.pairwise_cons.mp hordered).1 timer htimer).le

/-! ## The invariant -/

/-- The serial numbers of the timers that were added, wherever they are. -/
def DispatchTimers.serials (d : DispatchTimers) : List ℕ :=
  d.timerTree.inorder.map (·.serial) ++ d.fired.map (·.timer.serial) ++ d.removed

/-- A firing was in order: the timer was due, and the first of the tree. -/
def Firing.InOrder (firing : Firing) : Prop :=
  firing.timer.due firing.tv = true ∧ firing.timer ∈ firing.tree ∧
    ∀ timer ∈ firing.tree, firing.timer.key ≤ timer.key

/-- The addresses of the structs, wherever they are linked. -/
def DispatchTimers.addresses (d : DispatchTimers) : List ℕ := d.timers.map (·.address)

structure TimersInv (place : ℕ ↪ ℕ) (d : DispatchTimers) : Prop where
  ordered : d.timerTree.Ordered DispatchTimer.key
  addresses : d.addresses.Nodup
  placed : ∀ address ∈ d.addresses, ∃ i < d.nTimers, address = place i
  notified : ∀ timer ∈ d.notifying.toList ++ d.recycledTimeouts, timer.func = none
  serials : d.serials.Nodup
  numbered : ∀ serial ∈ d.serials, serial < d.nAdded
  firings : ∀ firing ∈ d.fired, firing.InOrder

theorem TimersInv.of_perm {d d' : DispatchTimers} (h : TimersInv place d)
    (haddresses : d'.addresses.Perm d.addresses) (hserials : d'.serials.Perm d.serials)
    (hnTimers : d'.nTimers = d.nTimers) (hnAdded : d'.nAdded = d.nAdded)
    (hordered : d'.timerTree.Ordered DispatchTimer.key)
    (hnotified : ∀ timer ∈ d'.notifying.toList ++ d'.recycledTimeouts, timer.func = none)
    (hfirings : ∀ firing ∈ d'.fired, firing.InOrder) : TimersInv place d' where
  ordered := hordered
  addresses := haddresses.nodup_iff.mpr h.addresses
  placed := by
    intro address haddress
    rw [hnTimers]
    exact h.placed address (haddresses.mem_iff.mp haddress)
  notified := hnotified
  serials := hserials.nodup_iff.mpr h.serials
  numbered := by
    intro serial hserial
    rw [hnAdded]
    exact h.numbered serial (hserials.mem_iff.mp hserial)
  firings := hfirings

theorem TimersInv.of_eq {d d' : DispatchTimers} (h : TimersInv place d)
    (htree : d'.timerTree = d.timerTree) (hnotifying : d'.notifying = d.notifying)
    (hrecycled : d'.recycledTimeouts = d.recycledTimeouts) (hunlinked : d'.unlinked = d.unlinked)
    (hnTimers : d'.nTimers = d.nTimers) (hnAdded : d'.nAdded = d.nAdded)
    (hremoved : d'.removed = d.removed) (hfired : d'.fired = d.fired) : TimersInv place d' := by
  refine h.of_perm (.of_eq ?_) (.of_eq ?_) hnTimers hnAdded ?_ ?_ ?_
  · unfold DispatchTimers.addresses DispatchTimers.timers
    rw [htree, hnotifying, hrecycled, hunlinked]
  · unfold DispatchTimers.serials
    rw [htree, hfired, hremoved]
  · rw [htree]
    exact h.ordered
  · rw [hnotifying, hrecycled]
    exact h.notified
  · rw [hfired]
    exact h.firings

theorem timersNew_inv (memory : TimersMemory) (tv : TimeVal) :
    TimersInv place (timersNew memory tv) where
  ordered := List.Pairwise.nil
  addresses := List.nodup_nil
  placed := fun _ haddress => absurd haddress List.not_mem_nil
  notified := fun _ htimer => absurd htimer List.not_mem_nil
  serials := List.nodup_nil
  numbered := fun _ hserial => absurd hserial List.not_mem_nil
  firings := fun _ hfiring => absurd hfiring List.not_mem_nil

/-! ## What the calls do to the tree -/

theorem dispatchAddTimer_cases {d d' : DispatchTimers} {secs usecs : UInt32} {func : Option Callback}
    {address : ℕ} (h : dispatchAddTimer place d secs usecs func = .ok (d', address)) :
    ∃ tree, func.isSome ∧
      d.timerTree.insert DispatchTimer.key (newTimer place d secs usecs func) = .ok (tree, none) ∧
      d' = if tree.leadsLeft DispatchTimer.key (newTimer place d secs usecs func) then
          { takeTimer d with
            timerTree := tree
            hasTimeout := true
            timeoutSecs := (newTimer place d secs usecs func).timeoutSecs
            timeoutUsecs := (newTimer place d secs usecs func).timeoutUsecs }
        else { takeTimer d with timerTree := tree } := by
  have htree : (takeTimer d).timerTree = d.timerTree := by
    unfold takeTimer
    split
    · rfl
    · rfl
  unfold dispatchAddTimer at h
  split at h
  · exact absurd h (by simp)
  · rename_i hfunc
    dsimp only at h
    rw [htree] at h
    split at h
    · exact absurd h (by simp)
    · exact absurd h (by simp)
    · rename_i tree hinsert
      refine ⟨tree, Option.isSome_iff_ne_none.mpr (by simpa using hfunc), hinsert, ?_⟩
      split at h
      · rename_i hleft
        simp only [Except.ok.injEq, Prod.mk.injEq] at h
        rw [if_pos hleft, ← h.1]
      · rename_i hright
        simp only [Except.ok.injEq, Prod.mk.injEq] at h
        rw [if_neg hright, ← h.1]

theorem TimersInv.unique {d : DispatchTimers} (h : TimersInv place d) {a b : DispatchTimer}
    (ha : a ∈ d.timers) (hb : b ∈ d.timers) (haddress : a.address = b.address) : a = b :=
  List.inj_on_of_nodup_map h.addresses ha hb haddress

theorem mem_timers_of_tree {d : DispatchTimers} {timer : DispatchTimer}
    (h : timer ∈ d.timerTree.inorder) : timer ∈ d.timers := by
  unfold DispatchTimers.timers
  simp [h]

/-- Removing a struct of the dispatcher takes it out of its place in the tree. -/
theorem TimersInv.remove {d : DispatchTimers} (h : TimersInv place d) {timer : DispatchTimer}
    {tree : RBTree DispatchTimer} (htimer : timer ∈ d.timers)
    (hremove : d.timerTree.remove DispatchTimer.key timer = .ok tree) :
    ∃ l r, d.timerTree.inorder = l ++ timer :: r ∧ tree.inorder = l ++ r := by
  obtain ⟨l, y, r, hkey, htree, htree'⟩ := RBTree.remove_spec hremove
  have hy : y ∈ d.timers := mem_timers_of_tree (by rw [htree]; simp)
  have hyt : y = timer := h.unique hy htimer (DispatchTimer.address_of_key hkey)
  exact ⟨l, r, by rw [htree, hyt], htree'⟩

/-- The dispatcher after a timer is taken out, before the public fields are looked after. -/
def withoutTimer (d : DispatchTimers) (timer : DispatchTimer) (tree : RBTree DispatchTimer) :
    DispatchTimers :=
  { d with
    timerTree := tree
    unlinked := timer :: d.unlinked
    removed := timer.serial :: d.removed }

theorem dispatchRemoveTimer_cases {d d' : DispatchTimers} {address : ℕ} (hinv : TimersInv place d)
    (h : dispatchRemoveTimer d address = .ok d') :
    d' = d ∨ ∃ l timer r tree, d.timerTree.inorder = l ++ timer :: r ∧ tree.inorder = l ++ r ∧
      d' = if d.timeoutUsecs = timer.timeoutUsecs ∧ d.timeoutSecs = timer.timeoutSecs then
          match tree.first with
          | none => { withoutTimer d timer tree with hasTimeout := false }
          | some min =>
              { withoutTimer d timer tree with
                timeoutSecs := min.timeoutSecs
                timeoutUsecs := min.timeoutUsecs }
        else withoutTimer d timer tree := by
  unfold dispatchRemoveTimer at h
  split at h
  · exact absurd h (by simp)
  · rename_i timer hfind
    split at h
    · simp only [Except.ok.injEq] at h
      exact .inl h.symm
    · split at h
      · exact absurd h (by simp)
      · rename_i tree hremove
        obtain ⟨l, r, htree, htree'⟩ := hinv.remove (List.mem_of_find?_eq_some hfind) hremove
        refine .inr ⟨l, timer, r, tree, htree, htree', ?_⟩
        simp only [Bool.and_eq_true, beq_iff_eq] at h
        split at h
        · rename_i hfirst
          rw [if_pos hfirst]
          cases hmin : tree.first with
          | none =>
            simp only [hmin, Except.ok.injEq] at h
            exact h.symm
          | some min =>
            simp only [hmin, Except.ok.injEq] at h
            exact h.symm
        · rename_i hfirst
          simp only [Except.ok.injEq] at h
          rw [if_neg hfirst, ← h]
          rfl

/-! ## The calls keep the invariant -/

theorem ordered_without {tree tree' : RBTree DispatchTimer} {l r : List DispatchTimer}
    {timer : DispatchTimer} (h : tree.Ordered DispatchTimer.key) (htree : tree.inorder = l ++ timer :: r)
    (htree' : tree'.inorder = l ++ r) : tree'.Ordered DispatchTimer.key := by
  unfold RBTree.Ordered at h ⊢
  rw [htree] at h
  rw [htree']
  exact h.sublist ((List.sublist_cons_self timer r).append_left l)

theorem ordered_with {tree tree' : RBTree DispatchTimer} {l r : List DispatchTimer}
    {timer : DispatchTimer} (h : tree.Ordered DispatchTimer.key) (htree : tree.inorder = l ++ r)
    (htree' : tree'.inorder = l ++ timer :: r) (hl : ∀ a ∈ l, a.key < timer.key)
    (hr : ∀ a ∈ r, timer.key < a.key) : tree'.Ordered DispatchTimer.key := by
  unfold RBTree.Ordered at h ⊢
  rw [htree, List.pairwise_append] at h
  rw [htree', List.pairwise_append, List.pairwise_cons]
  refine ⟨h.1, ⟨hr, h.2.1⟩, ?_⟩
  intro a ha b hb
  obtain rfl | hb := List.mem_cons.mp hb
  · exact hl a ha
  · exact h.2.2 a ha b hb

theorem TimersInv.without {d : DispatchTimers} (h : TimersInv place d) {timer : DispatchTimer}
    {tree : RBTree DispatchTimer} {l r : List DispatchTimer}
    (htree : d.timerTree.inorder = l ++ timer :: r) (htree' : tree.inorder = l ++ r) :
    TimersInv place (withoutTimer d timer tree) := by
  refine h.of_perm ?_ ?_ rfl rfl (ordered_without h.ordered htree htree') h.notified h.firings
  · apply List.perm_iff_count.mpr
    intro address
    simp only [DispatchTimers.addresses, DispatchTimers.timers, withoutTimer, htree, htree',
      List.map_append, List.map_cons, List.count_append, List.count_cons]
    omega
  · apply List.perm_iff_count.mpr
    intro serial
    simp only [DispatchTimers.serials, withoutTimer, htree, htree', List.map_append, List.map_cons,
      List.count_append, List.count_cons]
    omega

/-- The first timer of the tree is taken out and its function is called. -/
theorem TimersInv.fire {d : DispatchTimers} (h : TimersInv place d) {min : DispatchTimer}
    {tree : RBTree DispatchTimer} {l r : List DispatchTimer} {tv : TimeVal}
    (hnotifying : d.notifying = none) (hfirst : d.timerTree.first = some min) (hdue : min.due tv = true)
    (htree : d.timerTree.inorder = l ++ min :: r) (htree' : tree.inorder = l ++ r) :
    TimersInv place { d with
      timerTree := tree
      notifying := some { min with func := none }
      fired := ⟨min, tv, d.timerTree.inorder⟩ :: d.fired } := by
  refine h.of_perm ?_ ?_ rfl rfl (ordered_without h.ordered htree htree') ?_ ?_
  · apply List.perm_iff_count.mpr
    intro address
    simp only [DispatchTimers.addresses, DispatchTimers.timers, hnotifying, htree, htree',
      List.map_append, List.map_cons, List.count_append, List.count_cons, Option.toList_some,
      Option.toList_none, List.map_nil, List.count_nil]
    omega
  · apply List.perm_iff_count.mpr
    intro serial
    simp only [DispatchTimers.serials, htree, htree', List.map_append, List.map_cons,
      List.count_append, List.count_cons]
    omega
  · intro timer htimer
    obtain rfl | htimer := List.mem_cons.mp htimer
    · rfl
    · exact h.notified timer (List.mem_append_right _ htimer)
  · intro firing hfiring
    obtain rfl | hfiring := List.mem_cons.mp hfiring
    · obtain ⟨hmem, hmin⟩ := first_deadline h.ordered hfirst
      exact ⟨hdue, hmem, hmin⟩
    · exact h.firings firing hfiring

theorem TimersInv.freeTimer {d : DispatchTimers} (h : TimersInv place d) :
    TimersInv place { d with
      notifying := none
      recycledTimeouts := d.notifying.toList ++ d.recycledTimeouts } := by
  refine h.of_perm (.of_eq ?_) (.refl _) rfl rfl h.ordered h.notified h.firings
  simp [DispatchTimers.addresses, DispatchTimers.timers]

theorem TimersInv.added {d : DispatchTimers} (h : TimersInv place d) {secs usecs : UInt32}
    {func : Option Callback} {tree : RBTree DispatchTimer} {l r : List DispatchTimer}
    (htree : d.timerTree.inorder = l ++ r)
    (htree' : tree.inorder = l ++ newTimer place d secs usecs func :: r)
    (hordered : tree.Ordered DispatchTimer.key) :
    TimersInv place { takeTimer d with timerTree := tree } := by
  have hserials : ({ takeTimer d with timerTree := tree } : DispatchTimers).serials.Perm
      (d.nAdded :: d.serials) := by
    apply List.perm_iff_count.mpr
    intro serial
    unfold takeTimer
    split
    · simp only [DispatchTimers.serials, htree, htree', newTimer, List.map_append, List.map_cons,
        List.count_append, List.count_cons]
      omega
    · simp only [DispatchTimers.serials, htree, htree', newTimer, List.map_append, List.map_cons,
        List.count_append, List.count_cons]
      omega
  have hadded : (takeTimer d).nAdded = d.nAdded + 1 := by
    unfold takeTimer
    split
    · rfl
    · rfl
  have hserial : d.nAdded ∉ d.serials := fun hmem => lt_irrefl _ (h.numbered _ hmem)
  have numbered : ∀ serial ∈ d.nAdded :: d.serials, serial < d.nAdded + 1 := by
    intro serial hmem
    obtain rfl | hmem := List.mem_cons.mp hmem
    · omega
    · exact (h.numbered serial hmem).trans (Nat.lt_succ_self _)
  have serials : (d.nAdded :: d.serials).Nodup := List.nodup_cons.mpr ⟨hserial, h.serials⟩
  cases hrecycled : d.recycledTimeouts with
  | cons recycled rest =>
    -- the struct comes from the recycled ones
    have haddresses : ({ takeTimer d with timerTree := tree } : DispatchTimers).addresses.Perm
        d.addresses := by
      apply List.perm_iff_count.mpr
      intro address
      simp only [DispatchTimers.addresses, DispatchTimers.timers, takeTimer, newTimer, hrecycled, htree,
        htree', List.map_append, List.map_cons, List.count_append, List.count_cons]
      omega
    refine ⟨hordered, haddresses.nodup_iff.mpr h.addresses, ?_, ?_, hserials.nodup_iff.mpr serials, ?_, ?_⟩
    · intro address hmem
      simp only [takeTimer, hrecycled]
      exact h.placed address (haddresses.mem_iff.mp hmem)
    · intro timer htimer
      simp only [takeTimer, hrecycled] at htimer
      apply h.notified timer
      rw [hrecycled]
      obtain htimer | htimer := List.mem_append.mp htimer
      · exact List.mem_append_left _ htimer
      · exact List.mem_append_right _ (List.mem_cons_of_mem _ htimer)
    · intro serial hmem
      rw [hadded]
      exact numbered serial (hserials.mem_iff.mp hmem)
    · simp only [takeTimer, hrecycled]
      exact h.firings
  | nil =>
    have haddresses : ({ takeTimer d with timerTree := tree } : DispatchTimers).addresses.Perm
        (place d.nTimers :: d.addresses) := by
      apply List.perm_iff_count.mpr
      intro address
      simp only [DispatchTimers.addresses, DispatchTimers.timers, takeTimer, newTimer, hrecycled, htree,
        htree', List.map_append, List.map_cons, List.count_append, List.count_cons]
      omega
    have hnew : place d.nTimers ∉ d.addresses := by
      intro hmem
      obtain ⟨i, hi, hplace⟩ := h.placed _ hmem
      exact absurd (place.injective hplace) (by omega)
    refine ⟨hordered, haddresses.nodup_iff.mpr (List.nodup_cons.mpr ⟨hnew, h.addresses⟩), ?_, ?_,
      hserials.nodup_iff.mpr serials, ?_, ?_⟩
    · intro address hmem
      simp only [takeTimer, hrecycled]
      obtain rfl | hmem := List.mem_cons.mp (haddresses.mem_iff.mp hmem)
      · exact ⟨d.nTimers, Nat.lt_succ_self _, rfl⟩
      · obtain ⟨i, hi, hplace⟩ := h.placed address hmem
        exact ⟨i, hi.trans (Nat.lt_succ_self _), hplace⟩
    · intro timer htimer
      simp only [takeTimer, hrecycled] at htimer
      apply h.notified timer
      rw [hrecycled]
      exact htimer
    · intro serial hmem
      rw [hadded]
      exact numbered serial (hserials.mem_iff.mp hmem)
    · simp only [takeTimer, hrecycled]
      exact h.firings

/-! ## What the main loop is told -/

/-- The public fields say when the next timer is due. -/
structure TimeoutExact (d : DispatchTimers) : Prop where
  flag : d.hasTimeout = true ↔ d.timerTree.inorder ≠ []
  attained : d.timerTree.inorder ≠ [] → ∃ timer ∈ d.timerTree.inorder,
    timer.timeoutSecs = d.timeoutSecs ∧ timer.timeoutUsecs = d.timeoutUsecs
  least : ∀ timer ∈ d.timerTree.inorder,
    toLex (d.timeoutSecs.toNat, d.timeoutUsecs.toNat) ≤ timer.deadline

/-- The public field says whether there is an idle function. -/
def IdleExact (d : DispatchTimers) : Prop := d.hasIdle = true ↔ d.idles ≠ []

theorem timeoutExact_of_first {d : DispatchTimers} {min : DispatchTimer}
    (hordered : d.timerTree.Ordered DispatchTimer.key) (hfirst : d.timerTree.first = some min)
    (hflag : d.hasTimeout = true) (hsecs : d.timeoutSecs = min.timeoutSecs)
    (husecs : d.timeoutUsecs = min.timeoutUsecs) : TimeoutExact d := by
  obtain ⟨hmem, hmin⟩ := first_deadline hordered hfirst
  refine ⟨⟨fun _ => List.ne_nil_of_mem hmem, fun _ => hflag⟩,
    fun _ => ⟨min, hmem, hsecs.symm, husecs.symm⟩, ?_⟩
  intro timer htimer
  rw [hsecs, husecs]
  exact DispatchTimer.deadline_le_of_key_le (hmin timer htimer)

theorem timeoutExact_of_empty {d : DispatchTimers} (hempty : d.timerTree.inorder = [])
    (hflag : d.hasTimeout = false) : TimeoutExact d := by
  refine ⟨by simp [hempty, hflag], fun hne => absurd hempty hne, ?_⟩
  intro timer htimer
  rw [hempty] at htimer
  exact absurd htimer List.not_mem_nil

theorem inorder_of_first_none {tree : RBTree DispatchTimer} (h : tree.first = none) :
    tree.inorder = [] := by
  rw [RBTree.inorder_first] at h
  exact List.head?_eq_none_iff.mp h

/-! ## The steps -/

/-- What holds wherever code of the user runs. -/
structure TimersConfig.Inv (place : ℕ ↪ ℕ) (c : TimersConfig) : Prop where
  timers : TimersInv place c.d
  notifying : (∀ tv, c.phase ≠ .timer tv) → c.d.notifying = none
  dispatching : c.phase ≠ .outside → c.d.isDispatching = true

/-- The loop over the timers stops at one that is due, or when none is. -/
theorem handleTimers_spec {d : DispatchTimers} {tv : TimeVal} {c : TimersConfig}
    (hinv : TimersInv place d) (hnotifying : d.notifying = none) (hdispatching : d.isDispatching = true)
    (h : handleTimers d tv = .ok c) :
    c.Inv place ∧ c.d.hasIdle = d.hasIdle ∧ c.d.idles = d.idles ∧
      (c.phase = .timer tv ∨ c.phase = .outside ∧ TimeoutExact c.d ∧
        ∀ timer ∈ c.d.timerTree.inorder, timer.due tv = false) := by
  unfold handleTimers at h
  split at h
  · rename_i hnone
    simp only [Except.ok.injEq] at h
    subst h
    have hempty := inorder_of_first_none hnone
    refine ⟨⟨hinv.of_eq rfl rfl rfl rfl rfl rfl rfl rfl, fun _ => hnotifying,
      fun hphase => absurd rfl hphase⟩, rfl, rfl, .inr ⟨rfl, timeoutExact_of_empty hempty rfl, ?_⟩⟩
    intro timer htimer
    rw [hempty] at htimer
    exact absurd htimer List.not_mem_nil
  · rename_i min hfirst
    split at h
    · rename_i hdue
      split at h
      · exact absurd h (by simp)
      · rename_i tree hremove
        simp only [Except.ok.injEq] at h
        subst h
        have hmem := mem_timers_of_tree (first_deadline hinv.ordered hfirst).1
        obtain ⟨l, r, htree, htree'⟩ := hinv.remove hmem hremove
        exact ⟨⟨hinv.fire hnotifying hfirst hdue htree htree', fun hphase => absurd rfl (hphase tv),
          fun _ => hdispatching⟩, rfl, rfl, .inl rfl⟩
    · rename_i hdue
      simp only [Except.ok.injEq] at h
      subst h
      refine ⟨⟨hinv.of_eq rfl rfl rfl rfl rfl rfl rfl rfl, fun _ => hnotifying,
        fun hphase => absurd rfl hphase⟩, rfl, rfl, .inr ⟨rfl,
          timeoutExact_of_first hinv.ordered hfirst rfl rfl rfl, ?_⟩⟩
      intro timer htimer
      by_contra hsome
      simp only [Bool.not_eq_false] at hsome
      have hle := (first_deadline hinv.ordered hfirst).2 timer htimer
      exact hdue (DispatchTimer.due_of_le (DispatchTimer.deadline_le_of_key_le hle) hsome)

theorem handleIdles_spec {d : DispatchTimers} {tv : TimeVal} {c : TimersConfig}
    (hinv : TimersInv place d) (hnotifying : d.notifying = none) (hdispatching : d.isDispatching = true)
    (h : handleIdles d tv = .ok c) :
    c.Inv place ∧ (c.phase = .idle tv ∨ IdleExact c.d ∧ (c.phase = .timer tv ∨
      c.phase = .outside ∧ TimeoutExact c.d ∧
        ∀ timer ∈ c.d.timerTree.inorder, timer.due tv = false)) := by
  unfold handleIdles at h
  split at h
  · split at h
    · exact absurd h (by simp)
    · simp only [Except.ok.injEq] at h
      subst h
      exact ⟨⟨hinv.of_eq rfl rfl rfl rfl rfl rfl rfl rfl, fun _ => hnotifying, fun _ => hdispatching⟩,
        .inl rfl⟩
  · rename_i hidles
    have hinv' : TimersInv place { d with hasIdle := false } :=
      hinv.of_eq rfl rfl rfl rfl rfl rfl rfl rfl
    obtain ⟨hc, hflag, hlist, hphase⟩ := handleTimers_spec hinv' hnotifying hdispatching h
    refine ⟨hc, .inr ⟨?_, hphase⟩⟩
    unfold IdleExact
    rw [hflag, hlist]
    simp [hidles]

theorem dispatchAddTimer_inv {d d' : DispatchTimers} {secs usecs : UInt32} {func : Option Callback}
    {address : ℕ} (hinv : TimersInv place d)
    (h : dispatchAddTimer place d secs usecs func = .ok (d', address)) :
    TimersInv place d' ∧ d'.notifying = d.notifying ∧ d'.isDispatching = d.isDispatching := by
  obtain ⟨tree, -, hinsert, rfl⟩ := dispatchAddTimer_cases h
  obtain ⟨l, r, htree, htree', hl, hr⟩ := RBTree.insert_spec hinv.ordered hinsert
  have hadded := hinv.added htree htree' (ordered_with hinv.ordered htree htree' hl hr)
  have hkeep : (takeTimer d).notifying = d.notifying ∧
      (takeTimer d).isDispatching = d.isDispatching := by
    unfold takeTimer
    split
    · exact ⟨rfl, rfl⟩
    · exact ⟨rfl, rfl⟩
  split
  · exact ⟨hadded.of_eq rfl rfl rfl rfl rfl rfl rfl rfl, hkeep⟩
  · exact ⟨hadded, hkeep⟩

theorem dispatchRemoveTimer_inv {d d' : DispatchTimers} {address : ℕ} (hinv : TimersInv place d)
    (h : dispatchRemoveTimer d address = .ok d') :
    TimersInv place d' ∧ d'.notifying = d.notifying ∧ d'.isDispatching = d.isDispatching := by
  obtain rfl | ⟨l, timer, r, tree, htree, htree', rfl⟩ := dispatchRemoveTimer_cases hinv h
  · exact ⟨hinv, rfl, rfl⟩
  · have hwithout := hinv.without htree htree'
    split
    · split
      · exact ⟨hwithout.of_eq rfl rfl rfl rfl rfl rfl rfl rfl, rfl, rfl⟩
      · exact ⟨hwithout.of_eq rfl rfl rfl rfl rfl rfl rfl rfl, rfl, rfl⟩
    · exact ⟨hwithout, rfl, rfl⟩

theorem dispatchAddIdle_inv {d : DispatchTimers} (hinv : TimersInv place d) (func : Option Callback) :
    TimersInv place (dispatchAddIdle d func) ∧ (dispatchAddIdle d func).notifying = d.notifying ∧
      (dispatchAddIdle d func).isDispatching = d.isDispatching := by
  unfold dispatchAddIdle
  split
  · exact ⟨hinv.of_eq rfl rfl rfl rfl rfl rfl rfl rfl, rfl, rfl⟩
  · exact ⟨hinv.of_eq rfl rfl rfl rfl rfl rfl rfl rfl, rfl, rfl⟩

theorem dispatchRemoveIdle_cases {d d' : DispatchTimers} {address : ℕ}
    (h : dispatchRemoveIdle d address = .ok d') :
    d' = d ∨ ∃ idle ∈ d.idles, idle.address = address ∧
      d' = { d with idles := d.idles.erase idle, recycledIdles := idle :: d.recycledIdles } := by
  unfold dispatchRemoveIdle at h
  split at h
  · exact absurd h (by simp)
  · rename_i idle hfind
    split at h
    · simp only [Except.ok.injEq] at h
      exact .inl h.symm
    · split at h
      · rename_i hmem
        simp only [Except.ok.injEq] at h
        have haddress := List.find?_some hfind
        exact .inr ⟨idle, hmem, by simpa using haddress, h.symm⟩
      · exact absurd h (by simp)

theorem TimersCall.run_inv {d d' : DispatchTimers} (hinv : TimersInv place d) {call : TimersCall}
    (h : call.run place d = .ok d') :
    TimersInv place d' ∧ d'.notifying = d.notifying ∧ d'.isDispatching = d.isDispatching := by
  cases call with
  | addTimer secs usecs func =>
    obtain ⟨⟨d'', address⟩, hadd, h⟩ := except_bind_eq_ok h
    simp only [except_pure, Except.ok.injEq] at h
    rw [← h]
    exact dispatchAddTimer_inv hinv hadd
  | addTimerMillis millis func =>
    obtain ⟨⟨d'', address⟩, hadd, h⟩ := except_bind_eq_ok h
    simp only [except_pure, Except.ok.injEq] at h
    rw [← h]
    exact dispatchAddTimer_inv hinv hadd
  | removeTimer address => exact dispatchRemoveTimer_inv hinv h
  | addIdle func =>
    simp only [TimersCall.run, Except.ok.injEq] at h
    rw [← h]
    exact dispatchAddIdle_inv hinv func
  | removeIdle address =>
    obtain rfl | ⟨idle, -, -, rfl⟩ := dispatchRemoveIdle_cases h
    · exact ⟨hinv, rfl, rfl⟩
    · exact ⟨hinv.of_eq rfl rfl rfl rfl rfl rfl rfl rfl, rfl, rfl⟩

/-- The dispatcher runs at a time. -/
def TimersPhase.tv : TimersPhase → Option TimeVal
  | .outside => none
  | .notifies tv | .idle tv | .timer tv => some tv

/-- What the dispatcher does when the code that it called returns to it. -/
structure Returned (place : ℕ ↪ ℕ) (tv : TimeVal) (c c' : TimersConfig) : Prop where
  inv : c'.Inv place
  idles : c'.phase ≠ .idle tv → (c.phase = .timer tv → IdleExact c.d) → IdleExact c'.d
  timeout : c'.phase = .outside → TimeoutExact c'.d ∧
    ∀ timer ∈ c'.d.timerTree.inorder, timer.due tv = false

theorem handleIdles_returned {c c' : TimersConfig} {d : DispatchTimers} {tv : TimeVal}
    (hinv : TimersInv place d) (hnotifying : d.notifying = none) (hdispatching : d.isDispatching = true)
    (h : handleIdles d tv = .ok c') : Returned place tv c c' := by
  obtain ⟨hc, hphase⟩ := handleIdles_spec hinv hnotifying hdispatching h
  refine ⟨hc, fun hne _ => ?_, fun hout => ?_⟩
  · obtain hidle | ⟨hexact, -⟩ := hphase
    · exact absurd hidle hne
    · exact hexact
  · obtain hidle | ⟨-, htimer | ⟨-, hsummary⟩⟩ := hphase
    · exact absurd (hidle.symm.trans hout) (by simp)
    · exact absurd (htimer.symm.trans hout) (by simp)
    · exact hsummary

theorem TimersConfig.Inv.return {c c' : TimersConfig} {tv : TimeVal} (hinv : c.Inv place)
    (htv : c.phase.tv = some tv) (h : c.step place .return = .ok c') : Returned place tv c c' := by
  simp only [step] at h
  split at h
  · rename_i hphase
    rw [hphase] at htv
    exact absurd htv (by simp [TimersPhase.tv])
  · rename_i tv' hphase
    simp only [hphase, TimersPhase.tv, Option.some.injEq] at htv
    subst htv
    exact handleIdles_returned hinv.timers (hinv.notifying (by simp [hphase]))
      (hinv.dispatching (by simp [hphase])) h
  · rename_i tv' hphase
    simp only [hphase, TimersPhase.tv, Option.some.injEq] at htv
    subst htv
    have hdispatching := hinv.dispatching (by simp [hphase])
    have hinv' : TimersInv place { c.d with
        idling := none
        recycledIdles := c.d.idling.toList ++ c.d.recycledIdles } :=
      hinv.timers.of_eq rfl rfl rfl rfl rfl rfl rfl rfl
    exact handleIdles_returned hinv' (hinv.notifying (by simp [hphase])) hdispatching h
  · rename_i tv' hphase
    simp only [hphase, TimersPhase.tv, Option.some.injEq] at htv
    subst htv
    obtain ⟨hc, hflag, hlist, hphase'⟩ := handleTimers_spec hinv.timers.freeTimer rfl
      (hinv.dispatching (by simp [hphase])) h
    refine ⟨hc, fun _ hexact => ?_, fun hout => ?_⟩
    · have hidle := hexact hphase
      unfold IdleExact at hidle ⊢
      rw [hflag, hlist]
      exact hidle
    · obtain htimer | ⟨-, hsummary⟩ := hphase'
      · exact absurd (htimer.symm.trans hout) (by simp)
      · exact hsummary

theorem TimersConfig.step_return_outside {c c' : TimersConfig} (htv : c.phase.tv = none)
    (h : c.step place .return = .ok c') : c' = c := by
  simp only [TimersConfig.step] at h
  split at h
  · simp only [Except.ok.injEq] at h
    exact h.symm
  · rename_i tv hphase
    simp [hphase, TimersPhase.tv] at htv
  · rename_i tv hphase
    simp [hphase, TimersPhase.tv] at htv
  · rename_i tv hphase
    simp [hphase, TimersPhase.tv] at htv

theorem TimersConfig.Inv.step {c c' : TimersConfig} {label : TimersLabel} (hinv : c.Inv place)
    (h : c.step place label = .ok c') : c'.Inv place := by
  cases label with
  | call call =>
    obtain ⟨d', hd, h⟩ := except_bind_eq_ok h
    simp only [except_pure, Except.ok.injEq] at h
    subst h
    obtain ⟨htimers, hnotifying, hdispatching⟩ := TimersCall.run_inv hinv.timers hd
    exact ⟨htimers, fun hphase => hnotifying.trans (hinv.notifying hphase),
      fun hphase => hdispatching.trans (hinv.dispatching hphase)⟩
  | dispatch tv =>
    simp only [TimersConfig.step] at h
    split at h
    · exact absurd h (by simp)
    · rename_i hidle
      have houtside : c.phase = .outside := by
        by_contra hphase
        exact hidle (hinv.dispatching hphase)
      simp only [Except.ok.injEq] at h
      subst h
      exact ⟨hinv.timers.of_eq rfl rfl rfl rfl rfl rfl rfl rfl,
        fun _ => hinv.notifying (by simp [houtside]), fun _ => rfl⟩
  | «return» =>
    cases htv : c.phase.tv with
    | some tv => exact (hinv.return htv h).inv
    | none =>
      rw [TimersConfig.step_return_outside htv h]
      exact hinv

/-! ## Timers fire as they should -/

theorem TimersConfig.start_inv (memory : TimersMemory) (tv : TimeVal) :
    (TimersConfig.start memory tv).Inv place :=
  ⟨timersNew_inv memory tv, fun _ => rfl, fun hphase => absurd rfl hphase⟩

theorem timers_reach {allowed : TimersConfig → TimersLabel → Prop} {memory : TimersMemory}
    {tv : TimeVal} {c : TimersConfig}
    (h : Runs (TimersConfig.step place) allowed (TimersConfig.start memory tv) c) : c.Inv place :=
  h.invariant (TimersConfig.start_inv memory tv) fun _ _ _ hinv _ hstep => hinv.step hstep

theorem TimersConfig.step_call {c c' : TimersConfig} {call : TimersCall}
    (h : c.step place (.call call) = .ok c') : c'.phase = c.phase ∧ call.run place c.d = .ok c'.d := by
  obtain ⟨d', hd, h⟩ := except_bind_eq_ok h
  simp only [except_pure, Except.ok.injEq] at h
  rw [← h]
  exact ⟨rfl, hd⟩

theorem TimersConfig.step_dispatch {c c' : TimersConfig} {tv : TimeVal}
    (h : c.step place (.dispatch tv) = .ok c') : c'.phase = .notifies tv := by
  simp only [TimersConfig.step] at h
  split at h
  · exact absurd h (by simp)
  · simp only [Except.ok.injEq] at h
    rw [← h]

/-- The timers that fire are due and first in the tree, fire once, and not after they were removed; and
`protobuf_c_dispatch_dispatch` does not return before all that are due have fired. -/
theorem timers_fire (place : ℕ ↪ ℕ) (memory : TimersMemory) (start : TimeVal) (c : TimersConfig)
    (hrun : Runs (TimersConfig.step place) (fun _ _ => True) (TimersConfig.start memory start) c) :
    (∀ (label : TimersLabel) (c' : TimersConfig) (tv : TimeVal), c.phase.tv = some tv →
      c.step place label = .ok c' → c'.phase = .outside →
        ∀ timer ∈ c'.d.timerTree.inorder, timer.due tv = false) ∧
    (∀ firing ∈ c.d.fired, firing.InOrder) ∧
    (c.d.fired.map (·.timer.serial)).Nodup ∧
    ∀ firing ∈ c.d.fired, firing.timer.serial ∉ c.d.removed := by
  have hinv := timers_reach hrun
  have hserials := hinv.timers.serials
  unfold DispatchTimers.serials at hserials
  rw [List.nodup_append, List.nodup_append] at hserials
  obtain ⟨⟨-, hfired, -⟩, -, hdisjoint⟩ := hserials
  refine ⟨?_, hinv.timers.firings, hfired, ?_⟩
  · intro label c' tv htv hstep hout
    cases label with
    | call call =>
      rw [(TimersConfig.step_call hstep).1] at hout
      rw [hout] at htv
      exact absurd htv (by simp [TimersPhase.tv])
    | dispatch tv' => exact absurd ((TimersConfig.step_dispatch hstep).symm.trans hout) (by simp)
    | «return» => exact ((hinv.return htv hstep).timeout hout).2
  · intro firing hfiring hremoved
    exact hdisjoint _ (List.mem_append_right _ (List.mem_map_of_mem hfiring)) _ hremoved rfl

/-- Two timers are added, and the dispatcher runs when the first one is due, whose callback removes the
other one and adds a third, which is due too. -/
def timersTrace : List TimersLabel :=
  [.call (.addTimer 5 0 (some ⟨1, 2⟩)), .call (.addTimer 9 0 (some ⟨1, 3⟩)), .dispatch ⟨7, 0⟩,
    .call (.removeTimer 1), .call (.addTimer 6 0 (some ⟨1, 4⟩)), .return, .return]

/-- `timers_fire` on this trace. -/
theorem timers_fire_readded :
    ∃ c : TimersConfig,
      timersTrace.foldlM (TimersConfig.step (Function.Embedding.refl ℕ))
        (TimersConfig.start ⟨false, 0, 0⟩ ⟨0, 0⟩) = .ok c ∧
      c.d.fired.map (·.timer.serial) = [2, 0] ∧ c.d.removed = [1] ∧
      ∀ firing ∈ c.d.fired, firing.InOrder := by
  refine ⟨_, rfl, rfl, rfl, ?_⟩
  have h := timers_fire (Function.Embedding.refl ℕ) ⟨false, 0, 0⟩ ⟨0, 0⟩ _
    (.tail .return (.tail .return (.tail (.call (.addTimer 6 0 (some ⟨1, 4⟩)))
      (.tail (.call (.removeTimer 1)) (.tail (.dispatch ⟨7, 0⟩) (.tail (.call (.addTimer 9 0 (some ⟨1, 3⟩)))
      (.tail (.call (.addTimer 5 0 (some ⟨1, 2⟩))) (.refl _) trivial rfl) trivial rfl) trivial rfl)
      trivial rfl) trivial rfl) trivial rfl) trivial rfl)
  exact h.2.1

/-! ## The summary fields -/

/-- The public fields of the dispatcher tell the main loop the truth. -/
def SummaryExact (d : DispatchTimers) : Prop := TimeoutExact d ∧ IdleExact d

/-- The timer does not become the first one by the two rotations of its insertion. -/
def AddsInPlace (place : ℕ ↪ ℕ) (d : DispatchTimers) (timeoutSecs timeoutUsecs : UInt32)
    (func : Option Callback) : Prop :=
  let timer := newTimer place d timeoutSecs timeoutUsecs func
  d.timerTree.displaces DispatchTimer.key timer = true →
    d.timerTree.first.map DispatchTimer.deadline = some timer.deadline

/-- Outside `protobuf_c_dispatch_dispatch`, a timer is added in place; there and in the functions of
timers, an idle function is not removed when it is the only one. -/
def SummaryKept (place : ℕ ↪ ℕ) (c : TimersConfig) : TimersLabel → Prop
  | .call (.addTimer secs usecs func) => c.phase = .outside → AddsInPlace place c.d secs usecs func
  | .call (.addTimerMillis millis func) =>
      c.phase = .outside →
        AddsInPlace place c.d (millisDeadline c.d millis).1 (millisDeadline c.d millis).2 func
  | .call (.removeIdle address) =>
      (c.phase = .outside ∨ ∃ tv, c.phase = .timer tv) → c.d.idles.map (·.address) ≠ [address]
  | _ => True

/-- The fields are exact where they are meant to be. -/
structure TimersConfig.Exact (c : TimersConfig) : Prop where
  timeout : c.phase = .outside → TimeoutExact c.d
  idles : (c.phase = .outside ∨ ∃ tv, c.phase = .timer tv) → IdleExact c.d

theorem dispatchAddTimer_exact {d d' : DispatchTimers} {secs usecs : UInt32} {func : Option Callback}
    {address : ℕ} (hinv : TimersInv place d) (hexact : TimeoutExact d)
    (hkept : AddsInPlace place d secs usecs func)
    (h : dispatchAddTimer place d secs usecs func = .ok (d', address)) : TimeoutExact d' := by
  obtain ⟨tree, -, hinsert, rfl⟩ := dispatchAddTimer_cases h
  obtain ⟨l, r, htree, htree', hl, hr⟩ := RBTree.insert_spec hinv.ordered hinsert
  have hordered := ordered_with hinv.ordered htree htree' hl hr
  have hfirst := RBTree.insert_leads_left hordered hinsert
  have htake : (takeTimer d).hasTimeout = d.hasTimeout ∧ (takeTimer d).timeoutSecs = d.timeoutSecs ∧
      (takeTimer d).timeoutUsecs = d.timeoutUsecs := by
    unfold takeTimer
    split
    · exact ⟨rfl, rfl, rfl⟩
    · exact ⟨rfl, rfl, rfl⟩
  split
  · rename_i hleft
    refine ⟨⟨fun _ => by simp [htree'], fun _ => rfl⟩,
      fun _ => ⟨newTimer place d secs usecs func, by simp [htree'], rfl, rfl⟩, ?_⟩
    show ∀ timer ∈ tree.inorder, (newTimer place d secs usecs func).deadline ≤ timer.deadline
    intro timer htimer
    obtain hnew | hdisplaces := hfirst.mp hleft
    · exact DispatchTimer.deadline_le_of_key_le ((first_deadline hordered hnew).2 timer htimer)
    · obtain ⟨min, hmin, hdeadline⟩ := Option.map_eq_some_iff.mp (hkept hdisplaces)
      rw [← hdeadline]
      rw [htree', List.mem_append, List.mem_cons] at htimer
      have hle := (first_deadline hinv.ordered hmin).2
      rw [htree] at hle
      obtain hl | rfl | hr := htimer
      · exact DispatchTimer.deadline_le_of_key_le (hle timer (List.mem_append_left _ hl))
      · exact hdeadline.le
      · exact DispatchTimer.deadline_le_of_key_le (hle timer (List.mem_append_right _ hr))
  · rename_i hright
    cases l with
    | nil =>
      have hnew : tree.first = some (newTimer place d secs usecs func) := by
        rw [RBTree.inorder_first, htree']
        rfl
      exact absurd (hfirst.mpr (.inl hnew)) hright
    | cons a l =>
      obtain ⟨timer, htimer, hsecs, husecs⟩ := hexact.attained (by simp [htree])
      rw [htree] at htimer
      refine ⟨⟨fun _ => by simp [htree'], fun _ => ?_⟩, fun _ => ⟨timer, ?_, ?_, ?_⟩, ?_⟩
      · show (takeTimer d).hasTimeout = true
        rw [htake.1]
        exact hexact.flag.mpr (by simp [htree])
      · show timer ∈ tree.inorder
        rw [htree']
        obtain hleft | hright := List.mem_append.mp htimer
        · exact List.mem_append_left _ hleft
        · exact List.mem_append_right _ (List.mem_cons_of_mem _ hright)
      · exact hsecs.trans htake.2.1.symm
      · exact husecs.trans htake.2.2.symm
      · show ∀ timer ∈ tree.inorder, toLex ((takeTimer d).timeoutSecs.toNat,
          (takeTimer d).timeoutUsecs.toNat) ≤ timer.deadline
        rw [htake.2.1, htake.2.2]
        have hleast := hexact.least
        rw [htree] at hleast
        intro timer htimer
        rw [htree'] at htimer
        obtain hleft | hnew := List.mem_append.mp htimer
        · exact hleast timer (List.mem_append_left _ hleft)
        · obtain rfl | hright := List.mem_cons.mp hnew
          · exact (hleast a (by simp)).trans (DispatchTimer.deadline_le (hl a (by simp)))
          · exact hleast timer (List.mem_append_right _ hright)

theorem dispatchRemoveTimer_exact {d d' : DispatchTimers} {address : ℕ} (hinv : TimersInv place d)
    (hexact : TimeoutExact d) (h : dispatchRemoveTimer d address = .ok d') : TimeoutExact d' := by
  obtain rfl | ⟨l, timer, r, tree, htree, htree', rfl⟩ := dispatchRemoveTimer_cases hinv h
  · exact hexact
  · have hordered := ordered_without hinv.ordered htree htree'
    have hflag : d.hasTimeout = true := hexact.flag.mpr (by simp [htree])
    split
    · split
      · rename_i hnone
        exact timeoutExact_of_empty (inorder_of_first_none hnone) rfl
      · rename_i min hsome
        exact timeoutExact_of_first hordered hsome hflag rfl rfl
    · rename_i hfirst
      -- another timer has the deadline that the fields show
      obtain ⟨first, hmem, hsecs, husecs⟩ := hexact.attained (by simp [htree])
      have hne : first ≠ timer := by
        rintro rfl
        exact hfirst ⟨husecs.symm, hsecs.symm⟩
      have hmem' : first ∈ tree.inorder := by
        rw [htree, List.mem_append, List.mem_cons] at hmem
        rw [htree', List.mem_append]
        obtain hleft | heq | hright := hmem
        · exact .inl hleft
        · exact absurd heq hne
        · exact .inr hright
      refine ⟨⟨fun _ => List.ne_nil_of_mem hmem', fun _ => hflag⟩,
        fun _ => ⟨first, hmem', hsecs, husecs⟩, ?_⟩
      intro other hother
      apply hexact.least other
      have hother' : other ∈ l ++ r := by
        rw [← htree']
        exact hother
      rw [htree, List.mem_append, List.mem_cons]
      obtain hleft | hright := List.mem_append.mp hother'
      · exact .inl hleft
      · exact .inr (.inr hright)

theorem dispatchAddIdle_exact (d : DispatchTimers) (func : Option Callback) :
    IdleExact (dispatchAddIdle d func) := by
  unfold dispatchAddIdle IdleExact
  split
  · simp
  · simp

theorem dispatchRemoveIdle_exact {d d' : DispatchTimers} {address : ℕ} (hexact : IdleExact d)
    (hkept : d.idles.map (·.address) ≠ [address]) (h : dispatchRemoveIdle d address = .ok d') :
    IdleExact d' := by
  obtain rfl | ⟨idle, hmem, haddress, rfl⟩ := dispatchRemoveIdle_cases h
  · exact hexact
  · have hflag : d.hasIdle = true := hexact.mpr (List.ne_nil_of_mem hmem)
    unfold IdleExact
    refine ⟨fun _ hnil => ?_, fun _ => hflag⟩
    have hlength := List.length_erase_of_mem hmem
    rw [show d.idles.erase idle = [] from hnil] at hlength
    match hidles : d.idles, hmem with
    | [other], hmem =>
      rw [hidles] at hkept
      simp only [List.mem_singleton] at hmem
      exact hkept (by simp [← hmem, haddress])
    | a :: b :: rest, _ =>
      rw [hidles] at hlength
      simp at hlength

theorem dispatchAddTimer_idle {d d' : DispatchTimers} {secs usecs : UInt32} {func : Option Callback}
    {address : ℕ} (hexact : IdleExact d)
    (h : dispatchAddTimer place d secs usecs func = .ok (d', address)) : IdleExact d' := by
  obtain ⟨tree, -, -, rfl⟩ := dispatchAddTimer_cases h
  unfold IdleExact takeTimer at *
  split
  · split
    · exact hexact
    · exact hexact
  · split
    · exact hexact
    · exact hexact

theorem dispatchRemoveTimer_idle {d d' : DispatchTimers} {address : ℕ} (hinv : TimersInv place d)
    (hexact : IdleExact d) (h : dispatchRemoveTimer d address = .ok d') : IdleExact d' := by
  obtain rfl | ⟨l, timer, r, tree, -, -, rfl⟩ := dispatchRemoveTimer_cases hinv h
  · exact hexact
  · unfold IdleExact at *
    split
    · split
      · exact hexact
      · exact hexact
    · exact hexact

theorem dispatchAddIdle_timeout {d : DispatchTimers} (hexact : TimeoutExact d)
    (func : Option Callback) : TimeoutExact (dispatchAddIdle d func) := by
  unfold dispatchAddIdle
  split
  · exact ⟨hexact.flag, hexact.attained, hexact.least⟩
  · exact ⟨hexact.flag, hexact.attained, hexact.least⟩

theorem dispatchRemoveIdle_timeout {d d' : DispatchTimers} {address : ℕ} (hexact : TimeoutExact d)
    (h : dispatchRemoveIdle d address = .ok d') : TimeoutExact d' := by
  obtain rfl | ⟨idle, -, -, rfl⟩ := dispatchRemoveIdle_cases h
  · exact hexact
  · exact ⟨hexact.flag, hexact.attained, hexact.least⟩

theorem TimersConfig.Exact.step {c c' : TimersConfig} {label : TimersLabel} (hinv : c.Inv place)
    (hexact : c.Exact) (hkept : SummaryKept place c label) (h : c.step place label = .ok c') :
    c'.Exact := by
  cases label with
  | call call =>
    obtain ⟨hphase, hrun⟩ := TimersConfig.step_call h
    constructor
    · intro hout
      rw [hphase] at hout
      have htimeout := hexact.timeout hout
      cases call with
      | addTimer secs usecs func =>
        obtain ⟨⟨d', address⟩, hadd, hd⟩ := except_bind_eq_ok hrun
        simp only [except_pure, Except.ok.injEq] at hd
        rw [← hd]
        exact dispatchAddTimer_exact hinv.timers htimeout (hkept hout) hadd
      | addTimerMillis millis func =>
        obtain ⟨⟨d', address⟩, hadd, hd⟩ := except_bind_eq_ok hrun
        simp only [except_pure, Except.ok.injEq] at hd
        rw [← hd]
        exact dispatchAddTimer_exact hinv.timers htimeout (hkept hout) hadd
      | removeTimer address => exact dispatchRemoveTimer_exact hinv.timers htimeout hrun
      | addIdle func =>
        simp only [TimersCall.run, Except.ok.injEq] at hrun
        rw [← hrun]
        exact dispatchAddIdle_timeout htimeout func
      | removeIdle address => exact dispatchRemoveIdle_timeout htimeout hrun
    · intro hwhere
      rw [hphase] at hwhere
      have hidle := hexact.idles hwhere
      cases call with
      | addTimer secs usecs func =>
        obtain ⟨⟨d', address⟩, hadd, hd⟩ := except_bind_eq_ok hrun
        simp only [except_pure, Except.ok.injEq] at hd
        rw [← hd]
        exact dispatchAddTimer_idle hidle hadd
      | addTimerMillis millis func =>
        obtain ⟨⟨d', address⟩, hadd, hd⟩ := except_bind_eq_ok hrun
        simp only [except_pure, Except.ok.injEq] at hd
        rw [← hd]
        exact dispatchAddTimer_idle hidle hadd
      | removeTimer address => exact dispatchRemoveTimer_idle hinv.timers hidle hrun
      | addIdle func =>
        simp only [TimersCall.run, Except.ok.injEq] at hrun
        rw [← hrun]
        exact dispatchAddIdle_exact c.d func
      | removeIdle address => exact dispatchRemoveIdle_exact hidle (hkept hwhere) hrun
  | dispatch tv =>
    have hphase := TimersConfig.step_dispatch h
    exact ⟨fun hout => absurd (hphase.symm.trans hout) (by simp),
      fun hwhere => absurd hphase (by rintro -; simp [hphase] at hwhere)⟩
  | «return» =>
    cases htv : c.phase.tv with
    | some tv =>
      have hreturned := hinv.return htv h
      refine ⟨fun hout => (hreturned.timeout hout).1, fun hwhere => hreturned.idles ?_ ?_⟩
      · intro hidle
        simp [hidle] at hwhere
      · exact fun htimer => hexact.idles (.inr ⟨tv, htimer⟩)
    | none =>
      rw [TimersConfig.step_return_outside htv h]
      exact hexact

/-- In every state outside of `protobuf_c_dispatch_dispatch`, `has_timeout`, the time of the timeout and
`has_idle` are what the tree and the list say. -/
theorem summary_truthful (place : ℕ ↪ ℕ) (memory : TimersMemory) (start : TimeVal) (c : TimersConfig)
    (hnew : memory.hasTimeout = false)
    (hrun : Runs (TimersConfig.step place) (SummaryKept place) (TimersConfig.start memory start) c)
    (hout : c.phase = .outside) : SummaryExact c.d := by
  have hstart : (TimersConfig.start memory start).Exact :=
    ⟨fun _ => timeoutExact_of_empty rfl hnew, fun _ => by simp [IdleExact, TimersConfig.start, timersNew]⟩
  have hinv : c.Inv place ∧ c.Exact := hrun.invariant (I := fun c => c.Inv place ∧ c.Exact)
    ⟨TimersConfig.start_inv memory start, hstart⟩
    fun _ _ _ h hkept hstep => ⟨h.1.step hstep, h.2.step h.1 hkept hstep⟩
  exact ⟨hinv.2.timeout hout, hinv.2.idles (.inl hout)⟩

/-- A timer is added, and the dispatcher waits for it. -/
theorem summary_truthful_timer :
    ∃ c : TimersConfig,
      (List.foldlM (TimersConfig.step (Function.Embedding.refl ℕ))
        (TimersConfig.start ⟨false, 0, 0⟩ ⟨0, 0⟩)
        [.call (.addTimer 5 0 (some ⟨1, 2⟩)), .dispatch ⟨3, 0⟩, .return] = .ok c) ∧ c.d.hasTimeout = true ∧
      SummaryExact c.d := by
  refine ⟨_, rfl, rfl, ?_⟩
  exact summary_truthful (Function.Embedding.refl ℕ) ⟨false, 0, 0⟩ ⟨0, 0⟩ _ rfl
    (.tail .return (.tail (.dispatch ⟨3, 0⟩) (.tail (.call (.addTimer 5 0 (some ⟨1, 2⟩))) (.refl _)
      (fun _ h => absurd h (by decide)) rfl) trivial rfl) trivial rfl) rfl

/-- The fields are wrong in a new dispatcher whose memory says so; after the only idle function was
removed; and after timers for the seconds 10, 5 and 7 were added, where they say 7. -/
theorem summary_fails :
    ¬ SummaryExact (timersNew ⟨true, 0, 0⟩ ⟨0, 0⟩) ∧
    (∃ c : TimersConfig,
      (List.foldlM (TimersConfig.step (Function.Embedding.refl ℕ))
        (TimersConfig.start ⟨false, 0, 0⟩ ⟨0, 0⟩)
        [.call (.addIdle (some ⟨1, 2⟩)), .call (.removeIdle 0)] = .ok c) ∧ c.phase = .outside ∧
      ¬ SummaryExact c.d) ∧
    ∃ c : TimersConfig,
      (List.foldlM (TimersConfig.step (Function.Embedding.refl ℕ))
        (TimersConfig.start ⟨false, 0, 0⟩ ⟨0, 0⟩)
        [.call (.addTimer 10 0 (some ⟨1, 2⟩)), .call (.addTimer 5 0 (some ⟨1, 2⟩)),
          .call (.addTimer 7 0 (some ⟨1, 2⟩))] = .ok c) ∧ c.phase = .outside ∧
      ¬ SummaryExact c.d := by
  refine ⟨?_, ⟨_, rfl, rfl, ?_⟩, _, rfl, rfl, ?_⟩
  · intro h
    exact absurd (h.1.flag.mp rfl) (by decide)
  · intro h
    exact absurd (h.2.mp rfl) (by decide)
  · intro h
    have hleast := h.1.least ⟨1, 5, 0, some ⟨1, 2⟩, 1⟩ (by decide)
    exact absurd hleast (by decide)

end ProtobufC
