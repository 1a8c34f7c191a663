import ProtobufC.Dispatch.TimerOrder

/-! # No struct is lost

The structs of timers and idle functions go from the tree and the list to the functions that run, from
there to the recycled ones, and back.  On this way none is lost, so that there are never more of them
than were in use at once.  `protobuf_c_dispatch_remove_timer` leaves the way: the struct that it takes
out of the tree is nowhere.
-/

namespace ProtobufC
open Library
set_option autoImplicit false

variable {place : ℕ ↪ ℕ}

/-! ## The statement -/

/-- The number of timers in use: in the tree, or with their function running. -/
def DispatchTimers.liveTimers (d : DispatchTimers) : ℕ :=
  (d.timerTree.inorder ++ d.notifying.toList).length

def DispatchTimers.liveIdles (d : DispatchTimers) : ℕ := (d.idles ++ d.idling.toList).length

/-- A dispatcher, with the largest numbers of timers and of idle functions that were in use at once. -/
structure PeakConfig where
  c : TimersConfig
  timers : ℕ
  idles : ℕ

def PeakConfig.step (place : ℕ ↪ ℕ) (p : PeakConfig) (label : TimersLabel) :
    Except Fault PeakConfig := do
  let c ← p.c.step place label
  return ⟨c, max p.timers c.d.liveTimers, max p.idles c.d.liveIdles⟩

def PeakConfig.start (memory : TimersMemory) (tv : TimeVal) : PeakConfig :=
  ⟨TimersConfig.start memory tv, 0, 0⟩

/-- Every struct is in exactly one place, once; and no more were allocated than were in use at once. -/
structure PeakConfig.Conserved (place : ℕ ↪ ℕ) (p : PeakConfig) : Prop where
  timers : ∀ i < p.c.d.nTimers, ((p.c.d.timerTree.inorder ++ p.c.d.notifying.toList ++
    p.c.d.recycledTimeouts).map (·.address)).count (place i) = 1
  idles : ∀ i < p.c.d.nIdles, ((p.c.d.idles ++ p.c.d.idling.toList ++
    p.c.d.recycledIdles).map (·.address)).count i = 1
  timerMemory : p.c.d.nTimers ≤ p.timers
  idleMemory : p.c.d.nIdles ≤ p.idles

/-- The step does not remove a timer whose function has not been called. -/
def PeakConfig.KeepsTimers (p : PeakConfig) : TimersLabel → Prop
  | .call (.removeTimer address) =>
      ∀ timer ∈ p.c.d.timers, timer.address = address → timer.func = none
  | _ => True

/-! ## Counting -/

/-- The addresses of the structs of idle functions, wherever they are linked. -/
def DispatchTimers.idleAddresses (d : DispatchTimers) : List ℕ :=
  (d.idles ++ d.idling.toList ++ d.recycledIdles).map (·.address)

/-- All structs are accounted for. -/
structure NodesInv (d : DispatchTimers) : Prop where
  timers : d.timers.length = d.nTimers
  removed : d.unlinked.length = d.removed.length
  idles : d.idleAddresses.Perm (List.range d.nIdles)

/-- The structs may have changed places. -/
structure SameNodes (d d' : DispatchTimers) : Prop where
  nTimers : d'.nTimers = d.nTimers
  timers : d'.timers.length = d.timers.length
  unlinked : d'.unlinked = d.unlinked
  removed : d'.removed = d.removed
  nIdles : d'.nIdles = d.nIdles
  idles : d'.idleAddresses.Perm d.idleAddresses

theorem SameNodes.trans {a b c : DispatchTimers} (h : SameNodes a b) (h' : SameNodes b c) :
    SameNodes a c :=
  ⟨h'.nTimers.trans h.nTimers, h'.timers.trans h.timers, h'.unlinked.trans h.unlinked,
    h'.removed.trans h.removed, h'.nIdles.trans h.nIdles, h'.idles.trans h.idles⟩

theorem NodesInv.congr {d d' : DispatchTimers} (h : NodesInv d) (hs : SameNodes d d') :
    NodesInv d' where
  timers := by rw [hs.timers, hs.nTimers, h.timers]
  removed := by rw [hs.unlinked, hs.removed, h.removed]
  idles := by rw [hs.nIdles]; exact hs.idles.trans h.idles

theorem TimersInv.addresses_perm {d : DispatchTimers} (h : TimersInv place d)
    (hnodes : NodesInv d) : d.addresses.Perm ((List.range d.nTimers).map place) := by
  have hsub : d.addresses ⊆ (List.range d.nTimers).map place := by
    intro address hmem
    obtain ⟨i, hi, rfl⟩ := h.placed address hmem
    exact List.mem_map_of_mem (List.mem_range.mpr hi)
  refine (List.subperm_of_subset h.addresses hsub).perm_of_length_le ?_
  unfold DispatchTimers.addresses
  rw [List.length_map, List.length_map, List.length_range, hnodes.timers]

/-- Each timer is in one of the three places exactly if none was taken out of the tree for good. -/
theorem TimersInv.timers_iff {d : DispatchTimers} (h : TimersInv place d) (hnodes : NodesInv d) :
    (∀ i < d.nTimers, ((d.timerTree.inorder ++ d.notifying.toList ++ d.recycledTimeouts).map
      (·.address)).count (place i) = 1) ↔ d.removed = [] := by
  have hsplit : d.addresses = (d.timerTree.inorder ++ d.notifying.toList ++
      d.recycledTimeouts).map (·.address) ++ d.unlinked.map (·.address) := by
    unfold DispatchTimers.addresses DispatchTimers.timers
    rw [List.map_append]
  have hperm := h.addresses_perm hnodes
  have hnodup := h.addresses
  constructor
  · intro hcount
    rw [← List.length_eq_zero_iff, ← hnodes.removed, List.length_eq_zero_iff]
    by_contra hne
    obtain ⟨timer, hmem⟩ := List.exists_mem_of_ne_nil _ hne
    have haddress : timer.address ∈ d.unlinked.map (·.address) := List.mem_map_of_mem hmem
    obtain ⟨i, hi, hplace⟩ := h.placed timer.address
      (by rw [hsplit]; exact List.mem_append_right _ haddress)
    have hone := hcount i hi
    have hthere := List.one_le_count_iff.mpr haddress
    have hboth := List.nodup_iff_count_le_one.mp hnodup timer.address
    rw [hsplit, List.count_append] at hboth
    rw [← hplace] at hone
    omega
  · intro hremoved i hi
    have hunlinked : d.unlinked = [] := by
      rw [← List.length_eq_zero_iff, hnodes.removed, hremoved]
      rfl
    rw [hunlinked, List.map_nil, List.append_nil] at hsplit
    rw [← hsplit]
    refine List.count_eq_one_of_mem hnodup (hperm.mem_iff.mpr ?_)
    exact List.mem_map_of_mem (List.mem_range.mpr hi)

/-! ## The loops -/

theorem handleTimers_nodes {d : DispatchTimers} {tv : TimeVal} {c : TimersConfig}
    (hinv : TimersInv place d) (hnotifying : d.notifying = none) (h : handleTimers d tv = .ok c) :
    SameNodes d c.d ∧ c.d.idling = d.idling := by
  unfold handleTimers at h
  split at h
  · obtain rfl := Except.ok.inj h
    exact ⟨⟨rfl, rfl, rfl, rfl, rfl, .refl _⟩, rfl⟩
  · rename_i min hfirst
    split at h
    · split at h
      · exact absurd h (by simp)
      · rename_i tree hremove
        obtain rfl := Except.ok.inj h
        have hmem := mem_timers_of_tree (first_deadline hinv.ordered hfirst).1
        obtain ⟨l, r, htree, htree'⟩ := hinv.remove hmem hremove
        refine ⟨⟨rfl, ?_, rfl, rfl, rfl, .refl _⟩, rfl⟩
        simp only [DispatchTimers.timers, hnotifying, htree, htree', List.length_append,
          List.length_cons, Option.toList_some, Option.toList_none, List.length_nil]
        omega
    · obtain rfl := Except.ok.inj h
      exact ⟨⟨rfl, rfl, rfl, rfl, rfl, .refl _⟩, rfl⟩

theorem handleIdles_nodes {d : DispatchTimers} {tv : TimeVal} {c : TimersConfig}
    (hinv : TimersInv place d) (hnotifying : d.notifying = none) (hidling : d.idling = none)
    (h : handleIdles d tv = .ok c) :
    SameNodes d c.d ∧ ((∀ tv, c.phase ≠ .idle tv) → c.d.idling = none) := by
  unfold handleIdles at h
  split at h
  · rename_i idle idles hlist
    split at h
    · exact absurd h (by simp)
    · obtain rfl := Except.ok.inj h
      refine ⟨⟨rfl, rfl, rfl, rfl, rfl, ?_⟩, fun hphase => absurd rfl (hphase tv)⟩
      simp only [DispatchTimers.idleAddresses, hlist, hidling, Option.toList_some,
        Option.toList_none, List.append_nil, List.cons_append, List.map_cons, List.map_append,
        List.map_nil]
      exact List.perm_append_comm.append_right _
  · have hinv' : TimersInv place { d with hasIdle := false } :=
      hinv.of_eq rfl rfl rfl rfl rfl rfl rfl rfl
    have hflag : SameNodes d { d with hasIdle := false } := ⟨rfl, rfl, rfl, rfl, rfl, .refl _⟩
    obtain ⟨hs, hidle⟩ := handleTimers_nodes hinv' hnotifying h
    exact ⟨hflag.trans hs, fun _ => hidle.trans hidling⟩

/-! ## The calls -/

/-- What a call allocates is in use afterwards, with everything that was allocated before. -/
structure NodesGrown (d d' : DispatchTimers) : Prop where
  timers : d'.nTimers = d.nTimers ∨ d'.recycledTimeouts = []
  idles : d'.nIdles = d.nIdles ∨ d'.recycledIdles = []

theorem SameNodes.grown {d d' : DispatchTimers} (h : SameNodes d d') : NodesGrown d d' :=
  ⟨.inl h.nTimers, .inl h.nIdles⟩

theorem dispatchAddTimer_nodes {d d' : DispatchTimers} {secs usecs : UInt32}
    {func : Option Callback} {address : ℕ} (hinv : TimersInv place d) (hnodes : NodesInv d)
    (h : dispatchAddTimer place d secs usecs func = .ok (d', address)) :
    NodesInv d' ∧ NodesGrown d d' ∧ d'.idling = d.idling ∧ d'.removed = d.removed := by
  obtain ⟨tree, -, hinsert, rfl⟩ := dispatchAddTimer_cases h
  obtain ⟨l, r, htree, htree', -⟩ := RBTree.insert_spec hinv.ordered hinsert
  have htimers := hnodes.timers
  simp only [DispatchTimers.timers, htree, List.length_append] at htimers
  have hadded : NodesInv { takeTimer d with timerTree := tree } ∧
      NodesGrown d { takeTimer d with timerTree := tree } ∧ (takeTimer d).idling = d.idling ∧
      (takeTimer d).removed = d.removed := by
    cases hrecycled : d.recycledTimeouts with
    | cons recycled rest =>
      rw [hrecycled, List.length_cons] at htimers
      simp only [takeTimer, hrecycled]
      refine ⟨⟨?_, hnodes.removed, hnodes.idles⟩, ⟨.inl rfl, .inl rfl⟩, trivial, trivial⟩
      simp only [DispatchTimers.timers, htree', List.length_append, List.length_cons]
      omega
    | nil =>
      rw [hrecycled, List.length_nil] at htimers
      simp only [takeTimer, hrecycled]
      refine ⟨⟨?_, hnodes.removed, hnodes.idles⟩, ⟨.inr rfl, .inl rfl⟩, trivial, trivial⟩
      simp only [DispatchTimers.timers, htree', List.length_append, List.length_cons,
        List.length_nil]
      omega
  split
  · exact ⟨⟨hadded.1.timers, hadded.1.removed, hadded.1.idles⟩,
      ⟨hadded.2.1.timers, hadded.2.1.idles⟩, hadded.2.2⟩
  · exact hadded

theorem dispatchAddIdle_nodes {d : DispatchTimers} (hnodes : NodesInv d) (func : Option Callback) :
    NodesInv (dispatchAddIdle d func) ∧ NodesGrown d (dispatchAddIdle d func) ∧
      (dispatchAddIdle d func).idling = d.idling ∧
      (dispatchAddIdle d func).removed = d.removed := by
  have hidles := hnodes.idles
  unfold dispatchAddIdle
  cases hrecycled : d.recycledIdles with
  | cons idle recycled =>
    refine ⟨⟨hnodes.timers, hnodes.removed, ?_⟩, ⟨.inl rfl, .inl rfl⟩, rfl, rfl⟩
    refine List.Perm.trans ?_ hidles
    apply List.perm_iff_count.mpr
    intro address
    simp only [DispatchTimers.idleAddresses, hrecycled, List.map_append, List.map_cons,
      List.map_nil, List.count_append, List.count_cons, List.count_nil]
    omega
  | nil =>
    refine ⟨⟨hnodes.timers, hnodes.removed, ?_⟩, ⟨.inl rfl, .inr rfl⟩, rfl, rfl⟩
    change List.Perm _ (List.range (d.nIdles + 1))
    rw [List.range_succ]
    refine List.Perm.trans ?_ (hidles.append_right [d.nIdles])
    apply List.perm_iff_count.mpr
    intro address
    simp only [DispatchTimers.idleAddresses, hrecycled, List.map_append, List.map_cons,
      List.map_nil, List.count_append, List.count_cons, List.count_nil]
    omega

theorem dispatchRemoveIdle_nodes {d d' : DispatchTimers} {address : ℕ}
    (h : dispatchRemoveIdle d address = .ok d') : SameNodes d d' ∧ d'.idling = d.idling := by
  obtain rfl | ⟨idle, hmem, -, rfl⟩ := dispatchRemoveIdle_cases h
  · exact ⟨⟨rfl, rfl, rfl, rfl, rfl, .refl _⟩, rfl⟩
  · refine ⟨⟨rfl, rfl, rfl, rfl, rfl, ?_⟩, rfl⟩
    apply List.perm_iff_count.mpr
    intro i
    have hcount := List.perm_iff_count.mp ((List.perm_cons_erase hmem).map (·.address)) i
    simp only [List.map_cons, List.count_cons] at hcount
    simp only [DispatchTimers.idleAddresses, List.map_append, List.map_cons, List.count_append,
      List.count_cons]
    omega

theorem dispatchRemoveTimer_nodes {d d' : DispatchTimers} {address : ℕ} (hinv : TimersInv place d)
    (hnodes : NodesInv d) (h : dispatchRemoveTimer d address = .ok d') :
    NodesInv d' ∧ NodesGrown d d' ∧ d'.idling = d.idling ∧
      ((∀ timer ∈ d.timers, timer.address = address → timer.func = none) →
        d'.removed = d.removed) ∧ (d'.removed = [] → d.removed = []) := by
  have hnone : (∀ timer ∈ d.timers, timer.address = address → timer.func = none) →
      d'.removed = d.removed := by
    intro hkept
    unfold dispatchRemoveTimer at h
    split at h
    · exact absurd h (by simp)
    · rename_i timer hfind
      have hfunc := hkept timer (List.mem_of_find?_eq_some hfind)
        (by simpa using List.find?_some hfind)
      rw [if_pos (by rw [hfunc]; rfl)] at h
      rw [Except.ok.inj h]
  obtain rfl | ⟨l, timer, r, tree, htree, htree', hd'⟩ := dispatchRemoveTimer_cases hinv h
  · exact ⟨hnodes, ⟨.inl rfl, .inl rfl⟩, rfl, hnone, id⟩
  · have htimers := hnodes.timers
    simp only [DispatchTimers.timers, htree, List.length_append, List.length_cons] at htimers
    have hwithout : (withoutTimer d timer tree).timers.length = d.nTimers := by
      simp only [DispatchTimers.timers, withoutTimer, htree', List.length_append, List.length_cons]
      omega
    have hremoved : (withoutTimer d timer tree).unlinked.length =
        (withoutTimer d timer tree).removed.length := congrArg Nat.succ hnodes.removed
    have hcons : ∀ {P : Prop}, timer.serial :: d.removed = [] → P :=
      fun hnil => absurd hnil (by simp)
    split at hd'
    · split at hd'
      · rw [hd'] at hnone ⊢
        exact ⟨⟨hwithout, hremoved, hnodes.idles⟩, ⟨.inl rfl, .inl rfl⟩, rfl, hnone, hcons⟩
      · rw [hd'] at hnone ⊢
        exact ⟨⟨hwithout, hremoved, hnodes.idles⟩, ⟨.inl rfl, .inl rfl⟩, rfl, hnone, hcons⟩
    · rw [hd'] at hnone ⊢
      exact ⟨⟨hwithout, hremoved, hnodes.idles⟩, ⟨.inl rfl, .inl rfl⟩, rfl, hnone, hcons⟩

theorem TimersCall.run_nodes {d d' : DispatchTimers} (hinv : TimersInv place d)
    (hnodes : NodesInv d) {call : TimersCall} (h : call.run place d = .ok d') :
    NodesInv d' ∧ NodesGrown d d' ∧ d'.idling = d.idling ∧ (d'.removed = [] → d.removed = []) := by
  cases call with
  | addTimer secs usecs func =>
    obtain ⟨⟨d'', address⟩, hadd, h⟩ := except_bind_eq_ok h
    obtain rfl := Except.ok.inj h
    obtain ⟨hn, hg, hidling, hremoved⟩ := dispatchAddTimer_nodes hinv hnodes hadd
    exact ⟨hn, hg, hidling, fun hnil => hremoved.symm.trans hnil⟩
  | addTimerMillis millis func =>
    obtain ⟨⟨d'', address⟩, hadd, h⟩ := except_bind_eq_ok h
    obtain rfl := Except.ok.inj h
    obtain ⟨hn, hg, hidling, hremoved⟩ := dispatchAddTimer_nodes hinv hnodes hadd
    exact ⟨hn, hg, hidling, fun hnil => hremoved.symm.trans hnil⟩
  | removeTimer address =>
    obtain ⟨hn, hg, hidling, -, hremoved⟩ := dispatchRemoveTimer_nodes hinv hnodes h
    exact ⟨hn, hg, hidling, hremoved⟩
  | addIdle func =>
    obtain rfl := Except.ok.inj h
    obtain ⟨hn, hg, hidling, hremoved⟩ := dispatchAddIdle_nodes hnodes func
    exact ⟨hn, hg, hidling, fun hnil => hremoved.symm.trans hnil⟩
  | removeIdle address =>
    obtain ⟨hs, hidling⟩ := dispatchRemoveIdle_nodes h
    exact ⟨hnodes.congr hs, hs.grown, hidling, fun hnil => hs.removed.symm.trans hnil⟩

/-! ## The invariant -/

structure PeakInv (place : ℕ ↪ ℕ) (p : PeakConfig) : Prop where
  config : p.c.Inv place
  nodes : NodesInv p.c.d
  idling : (∀ tv, p.c.phase ≠ .idle tv) → p.c.d.idling = none
  timers : p.c.d.removed = [] → p.c.d.nTimers ≤ p.timers
  idles : p.c.d.nIdles ≤ p.idles

theorem PeakInv.start (memory : TimersMemory) (tv : TimeVal) :
    PeakInv place (PeakConfig.start memory tv) where
  config := TimersConfig.start_inv memory tv
  nodes := ⟨rfl, rfl, .refl _⟩
  idling := fun _ => rfl
  timers := fun _ => Nat.le_refl 0
  idles := Nat.le_refl 0

/-- With nothing recycled and nothing lost, everything that was allocated is in use. -/
theorem NodesInv.liveTimers_eq {d : DispatchTimers} (h : NodesInv d) (hremoved : d.removed = [])
    (hrecycled : d.recycledTimeouts = []) : d.liveTimers = d.nTimers := by
  have hunlinked : d.unlinked = [] := by
    rw [← List.length_eq_zero_iff, h.removed, hremoved]
    rfl
  rw [← h.timers]
  unfold DispatchTimers.liveTimers DispatchTimers.timers
  rw [hunlinked, hrecycled, List.append_nil, List.append_nil]

theorem NodesInv.liveIdles_eq {d : DispatchTimers} (h : NodesInv d)
    (hrecycled : d.recycledIdles = []) : d.liveIdles = d.nIdles := by
  have hlen := h.idles.length_eq
  rw [List.length_range] at hlen
  rw [← hlen]
  unfold DispatchTimers.liveIdles DispatchTimers.idleAddresses
  rw [hrecycled, List.append_nil, List.length_map]

theorem PeakInv.grow {p : PeakConfig} (h : PeakInv place p) {c : TimersConfig}
    (hconfig : c.Inv place) (hnodes : NodesInv c.d)
    (hidling : (∀ tv, c.phase ≠ .idle tv) → c.d.idling = none) (hgrown : NodesGrown p.c.d c.d)
    (hremoved : c.d.removed = [] → p.c.d.removed = []) :
    PeakInv place ⟨c, max p.timers c.d.liveTimers, max p.idles c.d.liveIdles⟩ := by
  refine ⟨hconfig, hnodes, hidling, fun hnil => ?_, ?_⟩
  · change c.d.nTimers ≤ max p.timers c.d.liveTimers
    obtain heq | hrecycled := hgrown.timers
    · rw [heq]
      exact (h.timers (hremoved hnil)).trans (le_max_left _ _)
    · rw [hnodes.liveTimers_eq hnil hrecycled]
      exact le_max_right _ _
  · change c.d.nIdles ≤ max p.idles c.d.liveIdles
    obtain heq | hrecycled := hgrown.idles
    · rw [heq]
      exact h.idles.trans (le_max_left _ _)
    · rw [hnodes.liveIdles_eq hrecycled]
      exact le_max_right _ _

theorem PeakInv.return {p : PeakConfig} {c : TimersConfig} (h : PeakInv place p)
    (hok : p.c.step place .return = .ok c) :
    SameNodes p.c.d c.d ∧ ((∀ tv, c.phase ≠ .idle tv) → c.d.idling = none) := by
  have hconfig := h.config
  simp only [TimersConfig.step] at hok
  cases hphase : p.c.phase with
  | outside =>
    rw [hphase] at hok
    obtain rfl := Except.ok.inj hok
    exact ⟨⟨rfl, rfl, rfl, rfl, rfl, .refl _⟩, h.idling⟩
  | notifies tv =>
    rw [hphase] at hok
    exact handleIdles_nodes hconfig.timers (hconfig.notifying (by simp [hphase]))
      (h.idling (by simp [hphase])) hok
  | idle tv =>
    rw [hphase] at hok
    have hinv' : TimersInv place { p.c.d with
        idling := none
        recycledIdles := p.c.d.idling.toList ++ p.c.d.recycledIdles } :=
      hconfig.timers.of_eq rfl rfl rfl rfl rfl rfl rfl rfl
    have hrecycle : SameNodes p.c.d { p.c.d with
        idling := none
        recycledIdles := p.c.d.idling.toList ++ p.c.d.recycledIdles } := by
      refine ⟨rfl, rfl, rfl, rfl, rfl, .of_eq ?_⟩
      simp only [DispatchTimers.idleAddresses, Option.toList_none, List.append_nil,
        List.append_assoc]
    obtain ⟨hs, hidling⟩ := handleIdles_nodes hinv' (hconfig.notifying (by simp [hphase])) rfl hok
    exact ⟨hrecycle.trans hs, hidling⟩
  | timer tv =>
    rw [hphase] at hok
    have hfree : SameNodes p.c.d { p.c.d with
        notifying := none
        recycledTimeouts := p.c.d.notifying.toList ++ p.c.d.recycledTimeouts } := by
      refine ⟨rfl, ?_, rfl, rfl, rfl, .refl _⟩
      simp only [DispatchTimers.timers, Option.toList_none, List.append_nil, List.append_assoc]
    obtain ⟨hs, hidling⟩ := handleTimers_nodes hconfig.timers.freeTimer rfl hok
    exact ⟨hfree.trans hs, fun _ => hidling.trans (h.idling (by simp [hphase]))⟩

theorem PeakInv.step {p p' : PeakConfig} {label : TimersLabel} (h : PeakInv place p)
    (hok : p.step place label = .ok p') : PeakInv place p' := by
  obtain ⟨c, hstep, hok⟩ := except_bind_eq_ok hok
  obtain rfl := Except.ok.inj hok
  have hconfig := h.config.step hstep
  cases label with
  | call call =>
    obtain ⟨hphase, hcall⟩ := TimersConfig.step_call hstep
    obtain ⟨hnodes, hgrown, hidling, hremoved⟩ :=
      TimersCall.run_nodes h.config.timers h.nodes hcall
    refine h.grow hconfig hnodes (fun hne => ?_) hgrown hremoved
    rw [hidling]
    exact h.idling (by rw [← hphase]; exact hne)
  | dispatch tv =>
    simp only [TimersConfig.step] at hstep
    split at hstep
    · exact absurd hstep (by simp)
    · rename_i hidle
      have houtside : p.c.phase = .outside := by
        by_contra hphase
        exact hidle (h.config.dispatching hphase)
      obtain rfl := Except.ok.inj hstep
      have hs : SameNodes p.c.d { p.c.d with
          isDispatching := true
          lastDispatchSecs := tv.secs
          lastDispatchUsecs := tv.usecs } := ⟨rfl, rfl, rfl, rfl, rfl, .refl _⟩
      exact h.grow hconfig (h.nodes.congr hs) (fun _ => h.idling (by simp [houtside])) hs.grown id
  | «return» =>
    obtain ⟨hs, hidling⟩ := h.return hstep
    exact h.grow hconfig (h.nodes.congr hs) hidling hs.grown
      fun hnil => hs.removed.symm.trans hnil

/-- Only the removal of a timer whose function has not been called is noted. -/
theorem PeakInv.step_removed {p p' : PeakConfig} {label : TimersLabel} (h : PeakInv place p)
    (hkeeps : p.KeepsTimers label) (hok : p.step place label = .ok p') :
    p'.c.d.removed = p.c.d.removed := by
  obtain ⟨c, hstep, hok⟩ := except_bind_eq_ok hok
  obtain rfl := Except.ok.inj hok
  change c.d.removed = _
  have hinv := h.config.timers
  cases label with
  | call call =>
    obtain ⟨-, hcall⟩ := TimersConfig.step_call hstep
    cases call with
    | addTimer secs usecs func =>
      obtain ⟨⟨d', address⟩, hadd, hd'⟩ := except_bind_eq_ok hcall
      rw [← Except.ok.inj hd']
      exact (dispatchAddTimer_nodes hinv h.nodes hadd).2.2.2
    | addTimerMillis millis func =>
      obtain ⟨⟨d', address⟩, hadd, hd'⟩ := except_bind_eq_ok hcall
      rw [← Except.ok.inj hd']
      exact (dispatchAddTimer_nodes hinv h.nodes hadd).2.2.2
    | removeTimer address => exact (dispatchRemoveTimer_nodes hinv h.nodes hcall).2.2.2.1 hkeeps
    | addIdle func =>
      rw [← Except.ok.inj hcall]
      exact (dispatchAddIdle_nodes h.nodes func).2.2.2
    | removeIdle address => exact (dispatchRemoveIdle_nodes hcall).1.removed
  | dispatch tv =>
    simp only [TimersConfig.step] at hstep
    split at hstep
    · exact absurd hstep (by simp)
    · rw [← Except.ok.inj hstep]
  | «return» => exact (h.return hstep).1.removed

theorem PeakInv.conserved_iff {p : PeakConfig} (h : PeakInv place p) :
    p.Conserved place ↔ p.c.d.removed = [] := by
  have htimers := h.config.timers.timers_iff h.nodes
  refine ⟨fun hconserved => htimers.mp hconserved.timers, fun hremoved => ⟨htimers.mpr hremoved,
    fun i hi => ?_, h.timers hremoved, h.idles⟩⟩
  have hcount := List.perm_iff_count.mp h.nodes.idles i
  rw [List.count_eq_one_of_mem List.nodup_range (List.mem_range.mpr hi)] at hcount
  exact hcount

/-! ## The theorem -/

/-- In a run that removes no timer whose function has not been called, the structs are conserved; and in
any run exactly as long as `protobuf_c_dispatch_remove_timer` has taken none out of the tree. -/
theorem nodes_conserved (place : ℕ ↪ ℕ) (memory : TimersMemory) (start : TimeVal) (p : PeakConfig) :
    (Runs (PeakConfig.step place) PeakConfig.KeepsTimers (PeakConfig.start memory start) p →
      p.Conserved place) ∧
    (Runs (PeakConfig.step place) (fun _ _ => True) (PeakConfig.start memory start) p →
      (p.Conserved place ↔ p.c.d.removed = [])) := by
  refine ⟨fun hrun => ?_, fun hrun => ?_⟩
  · obtain ⟨hinv, hremoved⟩ := hrun.invariant
      (I := fun p => PeakInv place p ∧ p.c.d.removed = []) ⟨PeakInv.start memory start, rfl⟩
      fun p label p' h hkeeps hok =>
        ⟨h.1.step hok, (h.1.step_removed hkeeps hok).trans h.2⟩
    exact hinv.conserved_iff.mpr hremoved
  · have hinv : PeakInv place p := hrun.invariant (PeakInv.start memory start)
      fun _ _ _ h _ hok => h.step hok
    exact hinv.conserved_iff

/-- A timer fires and its struct serves the next one, in a callback of an idle function. -/
theorem nodes_conserved_recycled : ∃ p : PeakConfig,
    p.c.d.nTimers = 1 ∧ p.c.d.nAdded = 2 ∧ p.Conserved (Function.Embedding.refl ℕ) := by
  have hrun : Runs (PeakConfig.step (Function.Embedding.refl ℕ)) PeakConfig.KeepsTimers
      (PeakConfig.start ⟨false, 0, 0⟩ ⟨0, 0⟩) _ :=
    .tail (.call (.addTimer 9 0 (some ⟨1, 3⟩))) (.tail .return (.tail (.dispatch ⟨8, 0⟩)
      (.tail (.call (.addIdle (some ⟨2, 4⟩))) (.tail .return (.tail .return (.tail (.dispatch ⟨7, 0⟩)
        (.tail (.call (.addTimer 5 0 (some ⟨1, 2⟩))) (.refl _) trivial rfl) trivial rfl) trivial rfl)
        trivial rfl) trivial rfl) trivial rfl) trivial rfl) trivial rfl
  exact ⟨_, rfl, rfl, (nodes_conserved (Function.Embedding.refl ℕ) ⟨false, 0, 0⟩ ⟨0, 0⟩ _).1 hrun⟩

/-- Two timers are added, one after the other was removed: there are two structs for one timer at a
time, and they are nowhere. -/
theorem nodes_lost :
    (¬ ∀ p : PeakConfig, Runs (PeakConfig.step (Function.Embedding.refl ℕ)) (fun _ _ => True)
      (PeakConfig.start ⟨false, 0, 0⟩ ⟨0, 0⟩) p → p.Conserved (Function.Embedding.refl ℕ)) ∧
    ∃ p : PeakConfig, [TimersLabel.call (.addTimer 5 0 (some ⟨1, 2⟩)), .call (.removeTimer 0),
      .call (.addTimer 5 0 (some ⟨1, 2⟩)), .call (.removeTimer 1)].foldlM
        (PeakConfig.step (Function.Embedding.refl ℕ)) (PeakConfig.start ⟨false, 0, 0⟩ ⟨0, 0⟩) =
          .ok p ∧
      p.timers = 1 ∧ p.c.d.nTimers = 2 ∧
      p.c.d.timerTree.inorder ++ p.c.d.notifying.toList ++ p.c.d.recycledTimeouts = [] := by
  refine ⟨fun hclaim => ?_, ⟨_, rfl, rfl, rfl, rfl⟩⟩
  have h := hclaim _ (.tail (.call (.removeTimer 0)) (.tail (.call (.addTimer 5 0 (some ⟨1, 2⟩)))
    (.refl _) trivial rfl) trivial rfl)
  exact absurd (h.timers 0 (by decide)) (by decide)

end ProtobufC
