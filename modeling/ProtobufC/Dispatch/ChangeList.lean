import ProtobufC.Dispatch.ExactTable

/-! # The list of changes

The main loop of the user keeps its own map from file descriptors to events, and brings it up to date from
the changes whenever control is outside the dispatcher.  It stays in step as long as the dispatcher
neither moves a change when a file descriptor is closed nor drops one that the main loop has not seen.
-/

namespace ProtobufC
open Library
set_option autoImplicit false

/-! ## The main loop -/

/-- The map of the main loop after it has applied some changes; no events are 0. -/
def applyChanges (map : ℕ → UInt32) (changes : List FDNotifyChange) : ℕ → UInt32 :=
  changes.foldl (fun map change fd => if fd = change.fd then change.events else map fd) map

/-- The map that `notifies_desired` gives. -/
def RealDispatch.desiredEvents (d : RealDispatch) (fd : ℕ) : UInt32 :=
  ((d.notifiesDesired.take d.nNotifiesDesired).find? (·.fd = fd)).elim 0 (·.events)

/-- The dispatcher and the map of the main loop, before the pending changes are applied. -/
structure MainLoop where
  c : DispatchConfig
  map : ℕ → UInt32

/-- The main loop reads the changes before it has them cleared, and takes out what is closed. -/
def MainLoop.next (m : MainLoop) : DispatchLabel → ℕ → UInt32
  | .call (.fdClosed fd) =>
      if m.c.phase.user then fun fd' => if fd' = fd then 0 else m.map fd' else m.map
  | .call .clearChanges | .dispatch _ =>
      if m.c.phase = .outside then applyChanges m.map m.c.d.pending else m.map
  | .call (.watchFd ..) | .advance | .later | .finish => m.map

def MainLoop.step (m : MainLoop) (label : DispatchLabel) : Except Fault MainLoop := do
  return ⟨← m.c.step label, m.next label⟩

/-- A run, in which every step has to satisfy `allowed`. -/
inductive MainLoop.Run (allowed : MainLoop → DispatchLabel → Prop) : MainLoop → MainLoop → Prop
  | refl (m : MainLoop) : MainLoop.Run allowed m m
  | step {m₁ m₂ m₃ : MainLoop} {label : DispatchLabel} (h : MainLoop.Run allowed m₁ m₂)
      (ok : m₂.step label = .ok m₃) (hallowed : allowed m₂ label) : MainLoop.Run allowed m₁ m₃

def MainLoop.start : MainLoop := ⟨.start, fun _ => 0⟩

/-- The callbacks only watch and close; the rest is called from the main loop. -/
def MainLoop.Proper (m : MainLoop) : DispatchLabel → Prop
  | .call .clearChanges | .dispatch _ => m.c.phase = .outside
  | .call (.watchFd ..) | .call (.fdClosed _) | .advance | .later | .finish => True

/-- The main loop has the desired map once it has applied the pending changes, and every change starts
from what it had for the file descriptor. -/
def MainLoop.InStep (m : MainLoop) : Prop :=
  m.c.phase = .outside →
    applyChanges m.map m.c.d.pending = m.c.d.desiredEvents ∧
      ∀ (i : ℕ) (change : FDNotifyChange), m.c.d.pending[i]? = some change →
        change.oldEvents = applyChanges m.map (m.c.d.pending.take i) change.fd

/-- Neither does the step close a file descriptor whose change has another one behind it, nor does it
drop a change that the main loop has not seen. -/
def MainLoop.Harmless (m : MainLoop) : DispatchLabel → Prop
  | .call (.fdClosed fd) =>
      m.c.phase.user = true → ∀ change ∈ m.c.d.pending.dropLast, change.fd ≠ fd
  | .advance => m.c.phase = .notifying [] →
      ∀ change ∈ m.c.d.pending, change.events = m.map change.fd
  | .call (.watchFd ..) | .call .clearChanges | .dispatch _ | .later | .finish => True

/-! ## Applying changes -/

theorem applyChanges_of_not_mem : ∀ (changes : List FDNotifyChange) (map : ℕ → UInt32) (fd : ℕ),
    (∀ change ∈ changes, change.fd ≠ fd) → applyChanges map changes fd = map fd := by
  intro changes
  induction changes with
  | nil => exact fun map fd _ => rfl
  | cons change changes ih =>
    intro map fd hne
    unfold applyChanges
    rw [List.foldl_cons]
    refine (ih _ fd fun c hc => hne c (List.mem_cons_of_mem _ hc)).trans ?_
    exact if_neg (Ne.symm (hne change List.mem_cons_self))

theorem applyChanges_of_mem : ∀ (changes : List FDNotifyChange) (map : ℕ → UInt32)
    (change : FDNotifyChange), change ∈ changes →
    (∀ c ∈ changes, c.fd = change.fd → c = change) →
    applyChanges map changes change.fd = change.events := by
  intro changes
  induction changes with
  | nil => exact fun map change hmem _ => absurd hmem List.not_mem_nil
  | cons first changes ih =>
    intro map change hmem honly
    unfold applyChanges
    rw [List.foldl_cons]
    by_cases hin : change ∈ changes
    · exact ih _ change hin fun c hc => honly c (List.mem_cons_of_mem _ hc)
    · have hfirst : first = change := ((List.mem_cons.mp hmem).resolve_right hin).symm
      refine (applyChanges_of_not_mem changes _ change.fd fun c hc heq => ?_).trans ?_
      · rw [honly c (List.mem_cons_of_mem _ hc) heq] at hc
        exact hin hc
      · rw [if_pos (by rw [hfirst]), hfirst]

/-! ## The indexed list -/

/-- The pending changes with their index. -/
structure ChangeInv (d : RealDispatch) : Prop where
  room : ChangeRoom d
  indexes : Indexes FDNotifyChange.fd d.pending (indexOf d.changeIndices)

/-- The change that is pending for a file descriptor. -/
def RealDispatch.change (d : RealDispatch) : ℕ → Option FDNotifyChange :=
  entryAt d.pending (indexOf d.changeIndices)

theorem ChangeInv.congr {d d' : RealDispatch} (h : ChangeInv d) (hs : SameChanges d d') :
    ChangeInv d' where
  room := h.room.congr hs
  indexes := by rw [hs.pending, hs.indices]; exact h.indexes

theorem SameChanges.change {d d' : RealDispatch} (hs : SameChanges d d') : d'.change = d.change := by
  unfold RealDispatch.change
  rw [hs.pending, hs.indices]

theorem ChangeRoom.length_pending {d : RealDispatch} (h : ChangeRoom d) :
    d.pending.length = d.nChanges := by
  unfold RealDispatch.pending
  rw [List.length_take, Nat.min_eq_left h.count]

theorem ChangeInv.ensure {d : RealDispatch} (h : ChangeInv d) (fd : ℕ) :
    ChangeInv (ensureFdMapBigEnough d fd) ∧ (ensureFdMapBigEnough d fd).change = d.change := by
  obtain ⟨hpend, hidx⟩ := ensure_pending (d := d) fd
  refine ⟨⟨h.room.ensure fd, ?_⟩, ?_⟩
  · rw [hpend, hidx]
    exact h.indexes
  · unfold RealDispatch.change
    rw [hpend, hidx]

theorem ChangeInv.applyChanges_eq {d : RealDispatch} (h : ChangeInv d) (map : ℕ → UInt32) (fd : ℕ) :
    applyChanges map d.pending fd = (d.change fd).elim (map fd) (·.events) := by
  cases hchange : d.change fd with
  | none =>
    refine applyChanges_of_not_mem d.pending map fd fun change hmem heq => ?_
    have hsome : d.change fd = some change := h.indexes.entryAt_eq_some.mpr ⟨hmem, heq⟩
    rw [hchange] at hsome
    exact absurd hsome (by simp)
  | some change =>
    obtain ⟨hmem, hfd⟩ := h.indexes.entryAt_eq_some.mp hchange
    have happ := applyChanges_of_mem d.pending map change hmem fun c hc heq => by
      have hsome : d.change fd = some c := h.indexes.entryAt_eq_some.mpr ⟨hc, heq.trans hfd⟩
      rw [hchange, Option.some.injEq] at hsome
      exact hsome.symm
    rw [hfd] at happ
    exact happ

theorem recordChange_spec {d : RealDispatch} {fd : ℕ} (h : ChangeInv d) (hlt : fd < d.fdMap.length)
    (oldEvents events : UInt32) :
    ∃ d', recordChange d fd oldEvents events = .ok d' ∧ SameTable d d' ∧ ChangeInv d' ∧
      ∀ fd', d'.change fd' = if fd' = fd then
        some ⟨fd, (d.change fd).elim oldEvents (·.oldEvents), events⟩ else d.change fd' := by
  obtain ⟨fm, hfm⟩ : ∃ fm, d.fdMap[fd]? = some fm := ⟨_, List.getElem?_eq_getElem hlt⟩
  obtain ⟨d', hrec, hsame, hroom⟩ := recordChange_room h.room hlt oldEvents events
  refine ⟨d', hrec, hsame, ?_⟩
  obtain ⟨hneg, k, hk, hok⟩ | ⟨i, change, hi, hidx, hget, hok⟩ :=
    recordChange_cases h.room hfm oldEvents events
  · obtain rfl : _ = d' := Except.ok.inj (hok.symm.trans hrec)
    have hnone : indexOf d.changeIndices fd = none := by
      unfold indexOf
      rw [changeIndices_get hfm, hneg]
      rfl
    have hchange : d.change fd = none := h.indexes.entryAt_eq_none.mpr hnone
    have hpending : ((d.changes ++ List.replicate k default).set d.nChanges
        ⟨fd, oldEvents, events⟩).take (d.nChanges + 1) = d.pending ++ [⟨fd, oldEvents, events⟩] := by
      rw [take_succ_set (by rw [List.length_append, List.length_replicate]; exact hk),
        List.take_append_of_le_length h.room.count]
      rfl
    have hindex : indexOf (d.changeIndices.set fd d.nChanges) =
        reindex (indexOf d.changeIndices) fd (some d.pending.length) := by
      rw [indexOf_set (by rw [d.length_changeIndices]; exact hlt), if_neg (by omega),
        Int.toNat_natCast, h.room.length_pending]
    have hcol := changeIndices_setChangeIndex d fd d.nChanges
    refine ⟨⟨hroom, ?_⟩, fun fd' => ?_⟩
    · have hpush := h.indexes.push hnone (e := ⟨fd, oldEvents, events⟩) rfl
      rw [← hpending, ← hindex, ← hcol] at hpush
      exact hpush
    · have hent := entryAt_push h.indexes hnone (e := ⟨fd, oldEvents, events⟩) rfl fd'
      rw [← hpending, ← hindex, ← hcol] at hent
      rw [hchange]
      exact hent
  · obtain rfl : _ = d' := Except.ok.inj (hok.symm.trans hrec)
    obtain ⟨c, hc, hcfd⟩ := h.indexes.key_eq hidx
    have hilt := h.indexes.lt_length hidx
    rw [h.room.length_pending] at hilt
    have hchange : d.change fd = some change := by
      unfold RealDispatch.change entryAt
      rw [hidx, Option.bind_some, RealDispatch.pending, List.getElem?_take_of_lt hilt, hget]
    have hpending : (d.changes.set i { change with fd := fd, events := events }).take d.nChanges =
        d.pending.set i { change with fd := fd, events := events } := List.take_set
    refine ⟨⟨hroom, ?_⟩, fun fd' => ?_⟩
    · have hrep := h.indexes.replace hidx (e := { change with fd := fd, events := events }) rfl
      rw [← hpending] at hrep
      exact hrep
    · have hent := entryAt_replace h.indexes hidx
        (e := { change with fd := fd, events := events }) rfl fd'
      rw [← hpending] at hent
      rw [hchange]
      exact hent

theorem deallocateChangeIndex_spec {d : RealDispatch} {fd : ℕ} {fm : FDMap} (h : ChangeInv d)
    (hfm : d.fdMap[fd]? = some fm) (hne : fm.changeIndex ≠ -1)
    (hlast : ∀ change ∈ d.pending.dropLast, change.fd ≠ fd) :
    ∃ d', deallocateChangeIndex d fd fm = .ok d' ∧ SameTable d d' ∧ ChangeInv d' ∧
      ∀ fd', d'.change fd' = if fd' = fd then none else d.change fd' := by
  obtain ⟨i, change, hi, hidx, hget, hcases⟩ := deallocateChangeIndex_cases h.room hfm hne
  obtain ⟨c, hc, hcfd⟩ := h.indexes.key_eq hidx
  have hlen := h.room.length_pending
  have hilt := h.indexes.lt_length hidx
  rw [hlen] at hilt
  have hsource : lastIndex d.nChanges = d.nChanges - 1 := by
    unfold lastIndex
    rw [if_neg (by omega)]
  have hend : i = lastIndex d.nChanges := by
    rw [hsource]
    by_contra hni
    refine hlast c ?_ hcfd
    refine List.mem_of_getElem? (i := i) ?_
    rw [List.getElem?_dropLast, if_pos (by omega), hc]
  have hok : deallocateChangeIndex d fd fm =
      .ok { d.setChangeIndex fd (-1) with nChanges := d.nChanges - 1 } := by
    obtain ⟨-, hok⟩ | ⟨hni, -⟩ | ⟨last, hni, -⟩ := hcases
    · exact hok
    · exact absurd hend hni
    · exact absurd hend hni
  obtain ⟨-, f, herr⟩ | ⟨d', hok', hsame, hroom⟩ := deallocateChangeIndex_room h.room hfm hne
  · rw [hok] at herr
    exact absurd herr (by simp)
  obtain rfl : _ = d' := Except.ok.inj (hok.symm.trans hok')
  have hgetLast : d.pending.getLast? = some c := by
    rw [List.getLast?_eq_getElem?, hlen, ← hsource, ← hend, hc]
  have hpending : d.changes.take (d.nChanges - 1) = swapRemove d.pending i := by
    simp only [swapRemove, hgetLast]
    rw [List.dropLast_eq_take, List.length_set, List.take_set_of_le (by omega), hlen,
      RealDispatch.pending, List.take_take, Nat.min_eq_left (Nat.sub_le _ _)]
  have hindex : indexOf (d.changeIndices.set fd (-1)) =
      reindex (reindex (indexOf d.changeIndices) c.fd (some i)) fd none := by
    rw [indexOf_set (by
      rw [d.length_changeIndices]
      exact (List.getElem?_eq_some_iff.mp hfm).1), if_pos rfl, hcfd]
    funext fd'
    unfold reindex
    split_ifs <;> rfl
  have hcol := changeIndices_setChangeIndex d fd (-1)
  refine ⟨_, hok, hsame, ⟨hroom, ?_⟩, fun fd' => ?_⟩
  · have hrem := h.indexes.swapRemove hidx hgetLast
    rw [← hpending, ← hindex, ← hcol] at hrem
    exact hrem
  · have hent := entryAt_swapRemove h.indexes hidx hgetLast fd'
    rw [← hpending, ← hindex, ← hcol] at hent
    exact hent

/-! ## The functions -/

theorem dispatchWatchFd_change {d : RealDispatch} (h : TableInv d) (hC : ChangeInv d) (fd : ℕ)
    {events : UInt32} {callback : Option Callback} (hok : callback.isNone = decide (events = 0)) :
    ∃ d', dispatchWatchFd d fd events callback = .ok d' ∧ ChangeInv d' ∧
      ∀ fd', d'.change fd' = if fd' = fd then
        some ⟨fd, (d.change fd).elim ((d.desired fd).elim 0 (·.1.events)) (·.oldEvents), events⟩
        else d.change fd' := by
  obtain ⟨h₁, hdes₁, hlt⟩ := h.ensure fd
  obtain ⟨hC₁, hchange₁⟩ := hC.ensure fd
  obtain ⟨d₂, i, hfind, hsame₂, hcase⟩ := findNotify_spec h₁ hlt callback
  obtain ⟨d₃, hrec, hsame₃, hC₃, hchange₃⟩ := recordChange_spec (hC₁.congr hsame₂)
    (hsame₂.length.symm ▸ hlt) (((ensureFdMapBigEnough d fd).desired fd).elim 0 (·.1.events)) events
  have hchanges : ∀ fd', d₃.change fd' = if fd' = fd then
      some ⟨fd, (d.change fd).elim ((d.desired fd).elim 0 (·.1.events)) (·.oldEvents), events⟩
      else d.change fd' := by
    intro fd'
    rw [hchange₃, hsame₂.change, hchange₁, hdes₁]
  unfold dispatchWatchFd
  rw [if_neg (not_not.mpr hok)]
  cases callback with
  | none =>
    refine ⟨d₃, ?_, hC₃, hchanges⟩
    simp only [bind, Except.bind, hfind, hrec]
    rfl
  | some cb =>
    obtain ⟨d', hstore, hsame, -⟩ := storeNotify_spec (hcase.congr hsame₃) events cb
    refine ⟨d', ?_, hC₃.congr hsame, fun fd' => ?_⟩
    · simp only [bind, Except.bind, hfind, hrec]
      exact hstore
    · rw [hsame.change, hchanges]

theorem dispatchFdClosed_change {d : RealDispatch} (h : TableInv d) (hC : ChangeInv d) (fd : ℕ)
    (hlast : ∀ change ∈ d.pending.dropLast, change.fd ≠ fd) :
    ∃ d', dispatchFdClosed d fd = .ok d' ∧ ChangeInv d' ∧
      ∀ fd', d'.change fd' = if fd' = fd then none else d.change fd' := by
  obtain ⟨h₁, -, hlt⟩ := h.ensure fd
  obtain ⟨hC₁, hchange₁⟩ := hC.ensure fd
  obtain ⟨d₀, fm, hsame, hchanges, hfm, heq⟩ := dispatchFdClosed_eq h fd
  have hC₀ := hC₁.congr hchanges
  have hchange₀ : d₀.change = d.change := hchanges.change.trans hchange₁
  have hpending : d₀.pending = d.pending := hchanges.pending.trans (ensure_pending fd).1
  -- the rest, once the change is gone
  have hrest : ∀ d₂, (if fm.changeIndex ≠ -1 then deallocateChangeIndex d₀ fd fm else .ok d₀) =
      .ok d₂ → SameTable d₀ d₂ → ChangeInv d₂ →
      (∀ fd', d₂.change fd' = if fd' = fd then none else d.change fd') →
      ∃ d', dispatchFdClosed d fd = .ok d' ∧ ChangeInv d' ∧
        ∀ fd', d'.change fd' = if fd' = fd then none else d.change fd' := by
    intro d₂ hok hsame₂ hC₂ hchange₂
    obtain ⟨d', hok', hs', -⟩ := removeNotify_spec ((h₁.congr hsame).congr hsame₂)
      (show fd < d₂.fdMap.length by rw [hsame₂.length, hsame.length]; exact hlt)
    refine ⟨d', ?_, hC₂.congr hs', fun fd' => ?_⟩
    · rw [heq, hok]
      exact hok'
    · rw [hs'.change, hchange₂]
  by_cases hneg : fm.changeIndex = -1
  · refine hrest d₀ (if_neg (not_not.mpr hneg)) ⟨rfl, rfl, rfl, rfl⟩ hC₀ fun fd' => ?_
    rw [hchange₀]
    split_ifs with hfd
    · rw [hfd, ← hchange₀]
      refine hC₀.indexes.entryAt_eq_none.mpr ?_
      unfold indexOf
      rw [changeIndices_get hfm, hneg]
      rfl
    · rfl
  · obtain ⟨d₂, hok, hsame₂, hC₂, hchange₂⟩ := deallocateChangeIndex_spec hC₀ hfm hneg
      (hpending.symm ▸ hlast)
    refine hrest d₂ ((if_pos hneg).trans hok) hsame₂ hC₂ fun fd' => ?_
    rw [hchange₂, hchange₀]

theorem changeInv_cleared {d d' : RealDispatch} (h : ChangeInv d) (hroom : ChangeRoom d')
    (hzero : d'.nChanges = 0) (hforgot : ∀ fd, indexOf d'.changeIndices fd =
      if fd ∈ d.pending.map FDNotifyChange.fd then none else indexOf d.changeIndices fd) :
    ChangeInv d' ∧ ∀ fd, d'.change fd = none := by
  have hpending : d'.pending = [] := by
    unfold RealDispatch.pending
    rw [hzero, List.take_zero]
  have hnone : ∀ fd, indexOf d'.changeIndices fd = none := by
    intro fd
    rw [hforgot]
    split_ifs with hmem
    · rfl
    · refine Option.eq_none_iff_forall_not_mem.mpr fun i hi => hmem ?_
      obtain ⟨c, hc, hfd⟩ := h.indexes.key_eq hi
      exact List.mem_map.mpr ⟨c, List.mem_of_getElem? hc, hfd⟩
  have hinv : ChangeInv d' := by
    refine ⟨hroom, fun fd i => ?_⟩
    rw [hpending, hnone]
    simp
  exact ⟨hinv, fun fd => hinv.indexes.entryAt_eq_none.mpr (hnone fd)⟩

theorem ChangeInv.tracked {d : RealDispatch} (h : ChangeInv d) : d.Tracked :=
  fun i change hi => (h.indexes change.fd i).mpr ⟨change, hi, rfl⟩

/-! ## The invariant -/

/-- The dispatcher is going through the notifications. -/
def Phase.notified : Phase → Bool
  | .notifying _ | .inCallback _ => true
  | .outside | .settling | .inLater => false

structure LoopInv (m : MainLoop) (latest : Registered) : Prop where
  config : ConfigInv m.c latest
  changes : ChangeInv m.c.d
  agree : ∀ fd, (latest fd).elim 0 Prod.fst = (m.c.d.change fd).elim (m.map fd) (·.events)
  -- the changes that were pending when the dispatcher was called start from an older map
  old : m.c.phase.notified = false → ∀ fd change, m.c.d.change fd = some change →
    change.oldEvents = m.map fd

theorem desiredEvents_eq {c : DispatchConfig} {latest : Registered} (h : ConfigInv c latest)
    (fd : ℕ) : c.d.desiredEvents fd = (latest fd).elim 0 Prod.fst := by
  have hT := h.table
  have hfst : c.d.notifiesDesired.take c.d.nNotifiesDesired = c.d.table.map Prod.fst := by
    unfold RealDispatch.table
    rw [List.map_take, List.map_fst_zip (by rw [hT.rooms])]
  have hdes := h.desired fd
  unfold RealDispatch.desiredEvents
  rw [hfst]
  cases hfind : (c.d.table.map Prod.fst).find? (·.fd = fd) with
  | none =>
    rw [List.find?_eq_none] at hfind
    have hnone : c.d.desired fd = none := by
      by_contra hsome
      obtain ⟨e, he⟩ := Option.ne_none_iff_exists'.mp hsome
      obtain ⟨hmem, hkey⟩ := hT.indexes.entryAt_eq_some.mp he
      exact hfind e.1 (List.mem_map_of_mem hmem) (by simpa using hkey)
    rw [hnone] at hdes
    cases hlatest : latest fd with
    | none => rfl
    | some r =>
      rw [hlatest] at hdes
      exact absurd hdes (by simp)
  | some notify =>
    have hkey : notify.fd = fd := by simpa using List.find?_some hfind
    obtain ⟨e, hmem, he⟩ := List.mem_map.mp (List.mem_of_find?_eq_some hfind)
    have hsome : c.d.desired fd = some e :=
      hT.indexes.entryAt_eq_some.mpr ⟨hmem, by rw [he, hkey]⟩
    rw [hsome] at hdes
    obtain ⟨r, hr, hre⟩ := Option.map_eq_some_iff.mp hdes.symm
    rw [hr, ← he, ← hre]
    rfl

theorem LoopInv.inStep {m : MainLoop} {latest : Registered} (h : LoopInv m latest) : m.InStep := by
  intro hphase
  have hC := h.changes
  refine ⟨?_, fun i change hi => ?_⟩
  · funext fd
    rw [hC.applyChanges_eq, desiredEvents_eq h.config, h.agree]
  · have hchange : m.c.d.change change.fd = some change :=
      hC.indexes.entryAt_eq_some.mpr ⟨List.mem_of_getElem? hi, rfl⟩
    rw [h.old (by rw [hphase]; rfl) change.fd change hchange]
    refine (applyChanges_of_not_mem _ m.map change.fd fun c hmem heq => ?_).symm
    obtain ⟨j, hj⟩ := List.getElem?_of_mem hmem
    rw [List.getElem?_take] at hj
    split_ifs at hj with hji
    have := hC.indexes.injective hj hi heq
    omega

theorem changeIndices_new : indexOf dispatchNew.changeIndices = fun _ => none := by
  have happ := indexOf_append_unknown [] 16
  rw [List.nil_append] at happ
  exact happ

theorem change_new (fd : ℕ) : dispatchNew.change fd = none := by
  unfold RealDispatch.change entryAt
  rw [changeIndices_new]
  rfl

theorem loopInv_start : LoopInv .start (mostRecent []) where
  config := configInv_start
  changes := by
    refine ⟨changeRoom_new, ?_⟩
    change Indexes _ [] (indexOf dispatchNew.changeIndices)
    rw [changeIndices_new]
    exact indexes_nil
  agree := by
    intro fd
    change _ = (dispatchNew.change fd).elim _ _
    rw [change_new]
    rfl
  old := by
    intro _ fd change hchange
    change dispatchNew.change fd = some change at hchange
    rw [change_new] at hchange
    exact absurd hchange (by simp)

/-! ## Steps -/

theorem ConfigInv.step_ok {c c' : DispatchConfig} {latest : Registered} (h : ConfigInv c latest)
    {label : DispatchLabel} (hok : c.step label = .ok c') :
    ConfigInv c' ((c.calls label).foldl DispatchCall.registers latest) := by
  obtain ⟨-, f, herr⟩ | ⟨c₁, hok₁, h₁⟩ := h.step label
  · rw [hok] at herr
    exact absurd herr (by simp)
  · rw [hok, Except.ok.injEq] at hok₁
    rw [hok₁]
    exact h₁

theorem LoopInv.watchFd {m : MainLoop} {latest : Registered} (h : LoopInv m latest) {fd : ℕ}
    {events : UInt32} {callback : Option Callback} {d' : RealDispatch}
    (hrun : dispatchWatchFd m.c.d fd events callback = .ok d')
    (hconfig : ConfigInv { m.c with d := d' }
      ((DispatchCall.watchFd fd events callback).registers latest)) :
    LoopInv ⟨{ m.c with d := d' }, m.map⟩
      ((DispatchCall.watchFd fd events callback).registers latest) := by
  have hok : callback.isNone = decide (events = 0) := by
    by_contra hne
    unfold dispatchWatchFd at hrun
    rw [if_pos hne] at hrun
    exact absurd hrun (by simp)
  obtain ⟨d₁, hrun₁, hC, hchange⟩ := dispatchWatchFd_change h.config.table h.changes fd hok
  obtain rfl : d' = d₁ := Except.ok.inj (hrun.symm.trans hrun₁)
  refine ⟨hconfig, hC, fun fd' => ?_, fun hphase fd' change hc => ?_⟩
  · change _ = (d'.change fd').elim (m.map fd') (·.events)
    rw [hchange]
    simp only [DispatchCall.registers]
    by_cases hfd : fd' = fd
    · rw [if_pos hfd, if_pos hfd]
      cases callback with
      | some cb => rfl
      | none =>
        have hzero : events = 0 := by simpa using hok
        rw [hzero]
        rfl
    · rw [if_neg hfd, if_neg hfd]
      exact h.agree fd'
  · change d'.change fd' = some change at hc
    change change.oldEvents = m.map fd'
    rw [hchange] at hc
    by_cases hfd : fd' = fd
    · rw [if_pos hfd, Option.some.injEq] at hc
      rw [← hc, hfd]
      cases hbefore : m.c.d.change fd with
      | some before => exact h.old hphase fd before hbefore
      | none =>
        have hagree := h.agree fd
        rw [hbefore] at hagree
        simp only [Option.elim_none] at hagree ⊢
        rw [← hagree, h.config.desired]
        cases latest fd <;> rfl
    · rw [if_neg hfd] at hc
      exact h.old hphase fd' change hc

theorem LoopInv.fdClosed {m : MainLoop} {latest : Registered} (h : LoopInv m latest) {fd : ℕ}
    {d' : RealDispatch} (hrun : dispatchFdClosed m.c.d fd = .ok d')
    (hconfig : ConfigInv { m.c with d := d' } ((DispatchCall.fdClosed fd).registers latest))
    (hlast : ∀ change ∈ m.c.d.pending.dropLast, change.fd ≠ fd) :
    LoopInv ⟨{ m.c with d := d' }, fun fd' => if fd' = fd then 0 else m.map fd'⟩
      ((DispatchCall.fdClosed fd).registers latest) := by
  obtain ⟨d₁, hrun₁, hC, hchange⟩ := dispatchFdClosed_change h.config.table h.changes fd hlast
  obtain rfl : d' = d₁ := Except.ok.inj (hrun.symm.trans hrun₁)
  refine ⟨hconfig, hC, fun fd' => ?_, fun hphase fd' change hc => ?_⟩
  · change _ = (d'.change fd').elim (if fd' = fd then 0 else m.map fd') (·.events)
    rw [hchange]
    simp only [DispatchCall.registers]
    by_cases hfd : fd' = fd
    · rw [if_pos hfd, if_pos hfd, if_pos hfd]
      rfl
    · rw [if_neg hfd, if_neg hfd, if_neg hfd]
      exact h.agree fd'
  · change d'.change fd' = some change at hc
    change change.oldEvents = if fd' = fd then 0 else m.map fd'
    rw [hchange] at hc
    by_cases hfd : fd' = fd
    · rw [if_pos hfd] at hc
      exact absurd hc (by simp)
    · rw [if_neg hfd] at hc
      rw [if_neg hfd]
      exact h.old hphase fd' change hc

theorem LoopInv.cleared {m : MainLoop} {latest : Registered} (h : LoopInv m latest)
    {c' : DispatchConfig} (hconfig : ConfigInv c' latest) {map : ℕ → UInt32}
    (hroom : ChangeRoom c'.d) (hzero : c'.d.nChanges = 0)
    (hforgot : ∀ fd, indexOf c'.d.changeIndices fd =
      if fd ∈ m.c.d.pending.map FDNotifyChange.fd then none else indexOf m.c.d.changeIndices fd)
    (hmap : ∀ fd, map fd = (m.c.d.change fd).elim (m.map fd) (·.events)) :
    LoopInv ⟨c', map⟩ latest := by
  obtain ⟨hC, hnone⟩ := changeInv_cleared h.changes hroom hzero hforgot
  refine ⟨hconfig, hC, fun fd => ?_, fun _ fd change hc => ?_⟩
  · change _ = (c'.d.change fd).elim (map fd) _
    rw [hnone, h.agree, hmap]
    rfl
  · change c'.d.change fd = some change at hc
    rw [hnone] at hc
    exact absurd hc (by simp)

/-- The list of changes stays, and so does what the main loop knows. -/
theorem LoopInv.kept {m : MainLoop} {latest : Registered} (h : LoopInv m latest)
    {c' : DispatchConfig} (hconfig : ConfigInv c' latest) (hC : ChangeInv c'.d)
    (hchange : c'.d.change = m.c.d.change)
    (hphase : c'.phase.notified = false → m.c.phase.notified = false) :
    LoopInv ⟨c', m.map⟩ latest := by
  refine ⟨hconfig, hC, fun fd => ?_, fun hnot fd change hc => ?_⟩
  · change _ = (c'.d.change fd).elim (m.map fd) _
    rw [hchange]
    exact h.agree fd
  · change c'.d.change fd = some change at hc
    rw [hchange] at hc
    exact h.old (hphase hnot) fd change hc

theorem LoopInv.step {m m' : MainLoop} {latest : Registered} (h : LoopInv m latest)
    {label : DispatchLabel} (hok : m.step label = .ok m') (hproper : m.Proper label)
    (hharmless : m.Harmless label) :
    LoopInv m' ((m.c.calls label).foldl DispatchCall.registers latest) := by
  obtain ⟨c', hstep, rfl⟩ : ∃ c', m.c.step label = .ok c' ∧ m' = ⟨c', m.next label⟩ := by
    simp only [MainLoop.step, bind, Except.bind] at hok
    cases hstep : m.c.step label with
    | error f =>
      rw [hstep] at hok
      exact absurd hok (by simp)
    | ok c' =>
      rw [hstep] at hok
      exact ⟨c', rfl, (Except.ok.inj hok).symm⟩
  have hconfig := h.config.step_ok hstep
  have hroom := h.changes.room
  cases label with
  | call k =>
    by_cases huser : m.c.phase.user = true
    · simp only [DispatchConfig.step, if_pos huser, bind, Except.bind] at hstep
      simp only [DispatchConfig.calls, if_pos huser, List.foldl_cons, List.foldl_nil] at hconfig ⊢
      cases hrun : k.run m.c.d with
      | error f =>
        rw [hrun] at hstep
        exact absurd hstep (by simp)
      | ok d' =>
        rw [hrun] at hstep
        obtain rfl : { m.c with d := d' } = c' := Except.ok.inj hstep
        cases k with
        | watchFd fd events callback => exact h.watchFd hrun hconfig
        | fdClosed fd =>
          simp only [MainLoop.next, if_pos huser]
          exact h.fdClosed hrun hconfig (hharmless huser)
        | clearChanges =>
          obtain ⟨d₁, hrun₁, -, hroom₁, hzero, hforgot⟩ :=
            dispatchClearChanges_spec hroom h.changes.tracked
          obtain rfl : d' = d₁ := Except.ok.inj (hrun.symm.trans hrun₁)
          simp only [MainLoop.next, if_pos (show m.c.phase = .outside from hproper)]
          exact h.cleared hconfig hroom₁ hzero hforgot fun fd => h.changes.applyChanges_eq m.map fd
    · simp only [DispatchConfig.step, if_neg huser] at hstep
      obtain rfl : m.c = c' := Except.ok.inj hstep
      simp only [DispatchConfig.calls, if_neg huser, List.foldl_nil] at hconfig ⊢
      have hnext : m.next (.call k) = m.map := by
        cases k with
        | watchFd => rfl
        | fdClosed => exact if_neg huser
        | clearChanges =>
          refine if_neg fun hphase => huser ?_
          rw [hphase]
          rfl
      rw [hnext]
      exact h
  | dispatch notifies =>
    have hphase : m.c.phase = .outside := hproper
    have huser : m.c.phase.user = true := by
      rw [hphase]
      rfl
    simp only [DispatchConfig.step, if_pos huser, bind, Except.bind] at hstep
    simp only [DispatchConfig.calls, List.foldl_nil, MainLoop.next, if_pos hphase] at hconfig ⊢
    cases hbegin : beginDispatch m.c.d notifies with
    | error f =>
      rw [hbegin] at hstep
      exact absurd hstep (by simp)
    | ok d' =>
      rw [hbegin] at hstep
      obtain rfl : (⟨d', .notifying notifies⟩ : DispatchConfig) = c' := Except.ok.inj hstep
      have hidle : m.c.d.isDispatching = false := by
        by_contra hbusy
        rw [beginDispatch, if_pos (by simpa using hbusy)] at hbegin
        exact absurd hbegin (by simp)
      obtain ⟨d₁, hbegin₁, -, hC, -, -, hpending, hindex⟩ :=
        beginDispatch_spec h.config.table hroom hidle notifies
      obtain rfl : d' = d₁ := Except.ok.inj (hbegin.symm.trans hbegin₁)
      have hchange : d'.change = m.c.d.change := by
        unfold RealDispatch.change
        rw [hpending, hindex]
      refine ⟨hconfig, ⟨hC, by rw [hpending, hindex]; exact h.changes.indexes⟩, fun fd => ?_,
        fun hnot => absurd hnot (by simp [Phase.notified])⟩
      change _ = (d'.change fd).elim (applyChanges m.map m.c.d.pending fd) _
      rw [hchange, h.changes.applyChanges_eq, h.agree]
      cases m.c.d.change fd <;> rfl
  | advance =>
    simp only [DispatchConfig.calls, List.foldl_nil] at hconfig ⊢
    simp only [DispatchConfig.step] at hstep
    cases hphase : m.c.phase with
    | outside =>
      rw [hphase] at hstep
      obtain rfl : m.c = c' := Except.ok.inj hstep
      exact h
    | settling =>
      rw [hphase] at hstep
      obtain rfl : m.c = c' := Except.ok.inj hstep
      exact h
    | inLater =>
      rw [hphase] at hstep
      obtain rfl : (⟨m.c.d, .settling⟩ : DispatchConfig) = c' := Except.ok.inj hstep
      exact h.kept hconfig h.changes rfl fun _ => by rw [hphase]; rfl
    | inCallback rest =>
      rw [hphase] at hstep
      obtain rfl : (⟨m.c.d, .notifying rest⟩ : DispatchConfig) = c' := Except.ok.inj hstep
      exact h.kept hconfig h.changes rfl fun hnot => absurd hnot (by simp [Phase.notified])
    | notifying rest =>
      rw [hphase] at hstep
      cases rest with
      | nil =>
        have hpending : m.c.d.pendingChanges = .ok m.c.d.pending := if_pos hroom.count
        obtain ⟨d', hok', -, hroom', hzero, hforgot⟩ := forgetChanges_spec false m.c.d.pending 0
          m.c.d hroom (fun change hmem => hroom.known change (List.mem_of_mem_take hmem))
          (fun hfalse => absurd hfalse (by simp))
        simp only [bind, Except.bind, hpending, hok'] at hstep
        obtain rfl : (⟨d', .settling⟩ : DispatchConfig) = c' := Except.ok.inj hstep
        refine h.cleared hconfig hroom' hzero hforgot fun fd => ?_
        change m.map fd = _
        cases hchange : m.c.d.change fd with
        | none => rfl
        | some change =>
          -- the change that is dropped has been seen
          obtain ⟨hmem, hfd⟩ := h.changes.indexes.entryAt_eq_some.mp hchange
          rw [← hfd]
          exact (hharmless hphase change hmem).symm
      | cons notify rest =>
        simp only [bind, Except.bind] at hstep
        cases hcalled : notifiedCallback m.c.d notify with
        | error f =>
          rw [hcalled] at hstep
          exact absurd hstep (by simp)
        | ok r =>
          rw [hcalled] at hstep
          have hkept : c'.d = m.c.d ∧ c'.phase.notified = true := by
            cases r with
            | none =>
              obtain rfl := Except.ok.inj hstep
              exact ⟨rfl, rfl⟩
            | some called =>
              obtain rfl := Except.ok.inj hstep
              exact ⟨rfl, rfl⟩
          refine h.kept hconfig (hkept.1.symm ▸ h.changes) (by rw [hkept.1]) fun hnot => ?_
          rw [hkept.2] at hnot
          exact absurd hnot (by simp)
  | later =>
    simp only [DispatchConfig.calls, List.foldl_nil] at hconfig ⊢
    simp only [DispatchConfig.step] at hstep
    cases hphase : m.c.phase with
    | settling =>
      rw [hphase] at hstep
      obtain rfl : (⟨m.c.d, .inLater⟩ : DispatchConfig) = c' := Except.ok.inj hstep
      exact h.kept hconfig h.changes rfl fun _ => by rw [hphase]; rfl
    | outside | notifying | inCallback | inLater =>
      rw [hphase] at hstep
      obtain rfl : m.c = c' := Except.ok.inj hstep
      exact h
  | finish =>
    simp only [DispatchConfig.calls, List.foldl_nil] at hconfig ⊢
    simp only [DispatchConfig.step] at hstep
    cases hphase : m.c.phase with
    | settling =>
      rw [hphase] at hstep
      obtain rfl : (⟨{ m.c.d with isDispatching := false }, .outside⟩ : DispatchConfig) = c' :=
        Except.ok.inj hstep
      exact h.kept hconfig ⟨⟨hroom.room, hroom.count, hroom.column, hroom.bound, hroom.known⟩,
        h.changes.indexes⟩ rfl fun _ => by rw [hphase]; rfl
    | outside | notifying | inCallback | inLater =>
      rw [hphase] at hstep
      obtain rfl : m.c = c' := Except.ok.inj hstep
      exact h

/-! ## The theorem -/

/-- In every run of proper and harmless steps the main loop stays in step. -/
theorem mainLoop_inStep (m : MainLoop)
    (hrun : MainLoop.Run (fun m label => m.Proper label ∧ m.Harmless label) .start m) :
    m.InStep := by
  obtain ⟨latest, hinv⟩ : ∃ latest, LoopInv m latest := by
    induction hrun with
    | refl => exact ⟨_, loopInv_start⟩
    | step _ hok hallowed ih =>
      obtain ⟨latest, hinv⟩ := ih
      exact ⟨_, hinv.step hok hallowed.1 hallowed.2⟩
  exact hinv.inStep

instance (m : MainLoop) : DecidablePred m.Proper
  | .call .clearChanges | .dispatch _ => inferInstanceAs (Decidable (m.c.phase = .outside))
  | .call (.watchFd ..) | .call (.fdClosed _) | .advance | .later | .finish => .isTrue trivial

instance (m : MainLoop) : DecidablePred m.Harmless
  | .call (.fdClosed fd) => inferInstanceAs (Decidable
      (m.c.phase.user = true → ∀ change ∈ m.c.d.pending.dropLast, change.fd ≠ fd))
  | .advance => inferInstanceAs (Decidable (m.c.phase = .notifying [] →
      ∀ change ∈ m.c.d.pending, change.events = m.map change.fd))
  | .call (.watchFd ..) | .call .clearChanges | .dispatch _ | .later | .finish => .isTrue trivial

theorem MainLoop.run_of_labels {allowed : MainLoop → DispatchLabel → Prop}
    [∀ m, DecidablePred (allowed m)] : ∀ (labels : List DispatchLabel) {m₁ m₂ m₃ : MainLoop},
    MainLoop.Run allowed m₁ m₂ →
    labels.foldlM (fun m label => if allowed m label then m.step label else .error .assertion) m₂ =
      .ok m₃ → MainLoop.Run allowed m₁ m₃ := by
  intro labels
  induction labels with
  | nil =>
    intro m₁ m₂ m₃ hrun hok
    obtain rfl : m₂ = m₃ := Except.ok.inj hok
    exact hrun
  | cons label labels ih =>
    intro m₁ m₂ m₃ hrun hok
    rw [List.foldlM_cons] at hok
    by_cases hallowed : allowed m₂ label
    · rw [if_pos hallowed] at hok
      cases hstep : m₂.step label with
      | error f =>
        rw [hstep] at hok
        exact absurd hok (by simp [bind, Except.bind])
      | ok m =>
        rw [hstep] at hok
        exact ih (hrun.step hstep hallowed) hok
    · rw [if_neg hallowed] at hok
      exact absurd hok (by simp [bind, Except.bind])

/-- A callback closes its own file descriptor, while the change of another one is known. -/
theorem mainLoop_inStep_closed : ∃ m : MainLoop,
    MainLoop.Run (fun m label => m.Proper label ∧ m.Harmless label) .start m ∧
    m.c.phase = .outside ∧ m.c.d.nNotifiesDesired = 1 ∧ m.InStep := by
  obtain ⟨m, hm, hphase, hone⟩ : ∃ m, [DispatchLabel.call (.watchFd 5 1 (some ⟨1, 50⟩)),
      .call (.watchFd 6 1 (some ⟨1, 60⟩)), .dispatch [⟨6, 1⟩], .advance, .call (.fdClosed 6),
      .advance, .advance, .finish].foldlM (fun m label => if m.Proper label ∧ m.Harmless label
        then m.step label else .error .assertion) MainLoop.start = .ok m ∧
      m.c.phase = .outside ∧ m.c.d.nNotifiesDesired = 1 := ⟨_, rfl, rfl, rfl⟩
  have hrun := MainLoop.run_of_labels _ (.refl .start) hm
  exact ⟨m, hrun, hphase, hone, mainLoop_inStep m hrun⟩

/-- Closing 5 leaves the change of 6 where the map does not say: watching 6 again writes behind the
list.  And the callback of 5 watches 7, of which the main loop never hears. -/
theorem mainLoop_outOfStep :
    (¬ ∀ m : MainLoop, MainLoop.Run MainLoop.Proper .start m → m.InStep) ∧
    ∃ m : MainLoop, MainLoop.Run MainLoop.Proper .start m ∧ m.c.phase = .outside ∧
      m.c.d.pending = [] ∧ m.map 7 = 0 ∧ m.c.d.desiredEvents 7 = 1 := by
  refine ⟨fun hclaim => ?_, ?_⟩
  · obtain ⟨m, hm, hphase, hmap, hdesired⟩ : ∃ m,
        [DispatchLabel.call (.watchFd 5 1 (some ⟨1, 50⟩)), .call (.watchFd 6 1 (some ⟨1, 60⟩)),
        .call (.fdClosed 5), .call (.watchFd 6 3 (some ⟨1, 60⟩))].foldlM (fun m label =>
          if m.Proper label then m.step label else .error .assertion) MainLoop.start = .ok m ∧
        m.c.phase = .outside ∧ applyChanges m.map m.c.d.pending 6 = 1 ∧
        m.c.d.desiredEvents 6 = 3 := ⟨_, rfl, rfl, rfl, rfl⟩
    have hrun := MainLoop.run_of_labels _ (.refl .start) hm
    have hsame := congrFun (hclaim m hrun hphase).1 6
    rw [hmap, hdesired] at hsame
    exact absurd hsame (by decide)
  · obtain ⟨m, hm, hrest⟩ : ∃ m,
        [DispatchLabel.call (.watchFd 5 1 (some ⟨1, 50⟩)), .dispatch [⟨5, 1⟩], .advance,
        .call (.watchFd 7 1 (some ⟨1, 70⟩)), .advance, .advance, .finish].foldlM (fun m label =>
          if m.Proper label then m.step label else .error .assertion) MainLoop.start = .ok m ∧
        m.c.phase = .outside ∧ m.c.d.pending = [] ∧ m.map 7 = 0 ∧ m.c.d.desiredEvents 7 = 1 :=
      ⟨_, rfl, rfl, rfl, rfl, rfl⟩
    exact ⟨m, MainLoop.run_of_labels _ (.refl .start) hm, hrest⟩

end ProtobufC
