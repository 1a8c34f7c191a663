import ProtobufC.Dispatch.ChangeList
import ProtobufC.Library.Runs

/-! # The index of the changes

`change_index` is the inverse of the array of changes for as long as `deallocate_change_index` has
nothing to move.  Once it moves the last change into a hole it sets the index of the file descriptor
that it has just closed, and the moved one keeps an index behind the array.
-/

namespace ProtobufC
open Library
set_option autoImplicit false

/-! ## The statement -/

/-- `change_index` is the inverse of `changes`; the assertion of `protobuf_c_dispatch_clear_changes`
holds, and `protobuf_c_dispatch_watch_fd` finds the pending change of a file descriptor in the array. -/
structure ChangeIndexInverse (d : RealDispatch) : Prop where
  forward : ∀ (i : ℕ), i < d.nChanges → ∃ (change : FDNotifyChange) (fm : FDMap),
    d.changes[i]? = some change ∧ d.fdMap[change.fd]? = some fm ∧ fm.changeIndex = i
  backward : ∀ (fd : ℕ) (fm : FDMap), d.fdMap[fd]? = some fm → fm.changeIndex ≠ -1 →
    ∃ (k : ℕ) (change : FDNotifyChange), fm.changeIndex = k ∧ k < d.nChanges ∧
      d.changes[k]? = some change ∧ change.fd = fd
  clears : ∃ d', dispatchClearChanges d = .ok d'
  updates : ∀ (fd : ℕ) (fm : FDMap) (events : UInt32) (callback : Option Callback),
    d.fdMap[fd]? = some fm → fm.changeIndex ≠ -1 → callback.isNone = decide (events = 0) →
    ∃ (k : ℕ) (change : FDNotifyChange) (d' : RealDispatch), k < d.nChanges ∧
      d.changes[k]? = some change ∧ dispatchWatchFd d fd events callback = .ok d' ∧
      d'.changes = d.changes.set k { change with fd := fd, events := events } ∧
      d'.nChanges = d.nChanges

/-- What is closed has no pending change with another one behind it. -/
def DispatchCall.Harmless (d : RealDispatch) : DispatchCall → Prop
  | .fdClosed fd => ∀ change ∈ d.pending.dropLast, change.fd ≠ fd
  | .watchFd .. | .clearChanges => True

/-! ## From the invariant -/

theorem ChangeInv.forward {d : RealDispatch} (h : ChangeInv d) {i : ℕ} (hi : i < d.nChanges) :
    ∃ (change : FDNotifyChange) (fm : FDMap), d.changes[i]? = some change ∧
      d.fdMap[change.fd]? = some fm ∧ fm.changeIndex = i := by
  have hlt : i < d.pending.length := by
    rw [h.room.length_pending]
    exact hi
  obtain ⟨change, hget⟩ : ∃ change, d.pending[i]? = some change :=
    ⟨_, List.getElem?_eq_getElem hlt⟩
  have hcol := h.room.column.indexOf_eq_some.mp (h.tracked i change hget)
  unfold RealDispatch.changeIndices at hcol
  rw [List.getElem?_map, Option.map_eq_some_iff] at hcol
  obtain ⟨fm, hfm, hindex⟩ := hcol
  refine ⟨change, fm, ?_, hfm, hindex⟩
  unfold RealDispatch.pending at hget
  rw [List.getElem?_take_of_lt hi] at hget
  exact hget

theorem ChangeInv.backward {d : RealDispatch} (h : ChangeInv d) {fd : ℕ} {fm : FDMap}
    (hfm : d.fdMap[fd]? = some fm) (hne : fm.changeIndex ≠ -1) :
    ∃ (k : ℕ) (change : FDNotifyChange), fm.changeIndex = k ∧ k < d.nChanges ∧
      d.changes[k]? = some change ∧ change.fd = fd := by
  obtain ⟨k, hk, -, hidx⟩ := h.room.index hfm hne
  obtain ⟨change, hget, hfd⟩ := h.indexes.key_eq hidx
  have hlt := h.indexes.lt_length hidx
  rw [h.room.length_pending] at hlt
  refine ⟨k, change, hk, hlt, ?_, hfd⟩
  unfold RealDispatch.pending at hget
  rw [List.getElem?_take_of_lt hlt] at hget
  exact hget

/-- Watching a file descriptor with a pending change sets the events of that change. -/
theorem dispatchWatchFd_updates {d : RealDispatch} (h : TableInv d) (hC : ChangeRoom d) {fd i : ℕ}
    {events : UInt32} {callback : Option Callback} (hok : callback.isNone = decide (events = 0))
    (hidx : indexOf d.changeIndices fd = some i) :
    ∃ (change : FDNotifyChange) (d' : RealDispatch), d.changes[i]? = some change ∧
      dispatchWatchFd d fd events callback = .ok d' ∧
      d'.changes = d.changes.set i { change with fd := fd, events := events } ∧
      d'.nChanges = d.nChanges := by
  obtain ⟨h₁, -, hlt⟩ := h.ensure fd
  obtain ⟨n, hens, -⟩ := ensureFdMapBigEnough_fdMap d fd
  obtain ⟨d₂, j, hfind, hsame₂, hcase⟩ := findNotify_spec h₁ hlt callback
  have hlt₂ : fd < d₂.fdMap.length := hsame₂.length.symm ▸ hlt
  have hchanges₂ : d₂.changes = d.changes := hsame₂.changes.trans (by rw [hens])
  have hcount₂ : d₂.nChanges = d.nChanges := hsame₂.count.trans (by rw [hens])
  have hidx₂ : indexOf d₂.changeIndices fd = some i := by
    rw [hsame₂.indices, (ensure_pending fd).2, hidx]
  obtain ⟨fm, hfm⟩ : ∃ fm, d₂.fdMap[fd]? = some fm := ⟨_, List.getElem?_eq_getElem hlt₂⟩
  have hC₂ := (hC.ensure fd).congr hsame₂
  obtain ⟨hneg, -⟩ | ⟨i', change, -, hidx', hget, hrec⟩ := recordChange_cases hC₂ hfm
    (((ensureFdMapBigEnough d fd).desired fd).elim 0 (·.1.events)) events
  · -- an index is there
    unfold indexOf at hidx₂
    rw [changeIndices_get hfm, hneg] at hidx₂
    exact absurd hidx₂ (by simp)
  obtain rfl : i = i' := Option.some.inj (hidx₂.symm.trans hidx')
  rw [hchanges₂] at hget hrec
  unfold dispatchWatchFd
  rw [if_neg (not_not.mpr hok)]
  cases callback with
  | none =>
    refine ⟨change, { d₂ with
      changes := d.changes.set i { change with fd := fd, events := events } }, hget, ?_, rfl,
      hcount₂⟩
    simp only [bind, Except.bind, hfind, hrec]
    rfl
  | some cb =>
    obtain ⟨d₃, hrec', hsame₃, -⟩ := recordChange_room hC₂ hlt₂
      (((ensureFdMapBigEnough d fd).desired fd).elim 0 (·.1.events)) events
    obtain rfl := Except.ok.inj (hrec.symm.trans hrec')
    obtain ⟨d', hstore, hsame, -⟩ := storeNotify_spec (hcase.congr hsame₃) events cb
    refine ⟨change, d', hget, ?_, hsame.changes, hsame.count.trans hcount₂⟩
    simp only [bind, Except.bind, hfind, hrec]
    exact hstore

theorem ChangeInv.inverse {d : RealDispatch} (h : ChangeInv d) (hT : TableInv d) :
    ChangeIndexInverse d where
  forward _ hi := h.forward hi
  backward _ _ hfm hne := h.backward hfm hne
  clears := by
    obtain ⟨d', hok, -⟩ := dispatchClearChanges_spec h.room h.tracked
    exact ⟨d', hok⟩
  updates fd fm events callback hfm hne hok := by
    obtain ⟨k, -, -, hidx⟩ := h.room.index hfm hne
    have hlt := h.indexes.lt_length hidx
    rw [h.room.length_pending] at hlt
    obtain ⟨change, d', hget, hrun, hset, hcount⟩ := dispatchWatchFd_updates hT h.room hok hidx
    exact ⟨k, change, d', hlt, hget, hrun, hset, hcount⟩

/-! ## Steps -/

theorem DispatchCall.keeps {d d' : RealDispatch} (hT : TableInv d) (hC : ChangeInv d)
    {call : DispatchCall} (hharmless : call.Harmless d) (hrun : call.run d = .ok d') :
    TableInv d' ∧ ChangeInv d' := by
  cases call with
  | watchFd fd events callback =>
    have hok : callback.isNone = decide (events = 0) := by
      by_contra hne
      have herr : dispatchWatchFd d fd events callback = .error .assertion := if_pos hne
      exact absurd (herr.symm.trans hrun) (by simp)
    obtain ⟨d₁, hrun₁, hT₁, -⟩ := dispatchWatchFd_spec hT hC.room fd hok
    obtain ⟨d₂, hrun₂, hC₂, -⟩ := dispatchWatchFd_change hT hC fd hok
    obtain rfl := Except.ok.inj (hrun₁.symm.trans hrun)
    obtain rfl := Except.ok.inj (hrun₂.symm.trans hrun)
    exact ⟨hT₁, hC₂⟩
  | fdClosed fd =>
    obtain ⟨d₂, hrun₂, hC₂, -⟩ := dispatchFdClosed_change hT hC fd hharmless
    obtain rfl := Except.ok.inj (hrun₂.symm.trans hrun)
    obtain ⟨-, -, f, herr⟩ | ⟨d₁, hrun₁, hT₁, -⟩ := dispatchFdClosed_spec hT hC.room fd
    · exact absurd (herr.symm.trans hrun) (by simp)
    · obtain rfl := Except.ok.inj (hrun₁.symm.trans hrun)
      exact ⟨hT₁, hC₂⟩
  | clearChanges =>
    obtain ⟨d₁, hrun₁, hsame, hroom, hzero, hforgot⟩ :=
      dispatchClearChanges_spec hC.room hC.tracked
    obtain rfl := Except.ok.inj (hrun₁.symm.trans hrun)
    exact ⟨hT.congr hsame, (changeInv_cleared hC hroom hzero hforgot).1⟩

/-- The index of the closed file descriptor is set again, and the change there is another one's. -/
theorem dispatchFdClosed_breaks {d : RealDispatch} (hT : TableInv d) (hC : ChangeInv d) {fd : ℕ}
    {change : FDNotifyChange} (hmem : change ∈ d.pending.dropLast) (hfd : change.fd = fd) :
    ∃ d', dispatchFdClosed d fd = .ok d' ∧ ¬ ChangeIndexInverse d' := by
  obtain ⟨h₁, -, hlt⟩ := hT.ensure fd
  obtain ⟨d₀, fm, hsame, hchanges, hfm, heq⟩ := dispatchFdClosed_eq hT fd
  have hC₀ := (hC.ensure fd).1.congr hchanges
  have hpending : d₀.pending = d.pending := hchanges.pending.trans (ensure_pending fd).1
  have hlen := hC₀.room.length_pending
  -- where the change is
  obtain ⟨i, hget⟩ := List.getElem?_of_mem hmem
  rw [List.getElem?_dropLast, ← hpending] at hget
  split_ifs at hget with hi
  rw [hlen] at hi
  have hidx : indexOf d₀.changeIndices fd = some i := hfd ▸ hC₀.tracked i change hget
  have hne : fm.changeIndex ≠ -1 := by
    intro hneg
    unfold indexOf at hidx
    rw [changeIndices_get hfm, hneg] at hidx
    exact absurd hidx (by simp)
  have hsource : lastIndex d₀.nChanges = d₀.nChanges - 1 := by
    unfold lastIndex
    rw [if_neg (by omega)]
  obtain ⟨i', change', -, hidx', hget', hcases⟩ := deallocateChangeIndex_cases hC₀.room hfm hne
  obtain rfl : i = i' := Option.some.inj (hidx.symm.trans hidx')
  obtain rfl : change = change' := by
    unfold RealDispatch.pending at hget
    rw [List.getElem?_take_of_lt (by omega)] at hget
    exact Option.some.inj (hget.symm.trans hget')
  obtain ⟨hend, -⟩ | ⟨-, hnone, -⟩ | ⟨last, -, hlast, hok⟩ := hcases
  · omega
  · have hcount := hC₀.room.count
    rw [List.getElem?_eq_none_iff] at hnone
    omega
  have hlastPending : d₀.pending[d₀.nChanges - 1]? = some last := by
    unfold RealDispatch.pending
    rw [List.getElem?_take_of_lt (by omega), ← hsource, hlast]
  have hother : last.fd ≠ fd := by
    intro heqfd
    have := hC₀.indexes.injective hget hlastPending (hfd.trans heqfd.symm)
    omega
  rw [hfd] at hok
  have hsame₂ := (sameTable_setChangeIndex d₀ fd (-1)).trans
    (sameTable_setChangeIndex (d₀.setChangeIndex fd (-1)) fd i)
  obtain ⟨d', hok', hs', -⟩ := @removeNotify_spec
    { (d₀.setChangeIndex fd (-1)).setChangeIndex fd i with
      changes := d₀.changes.set i last
      nChanges := d₀.nChanges - 1 } fd
    ((h₁.congr hsame).congr ⟨rfl, rfl, rfl, hsame₂.indices⟩)
    (show fd < ((d₀.setChangeIndex fd (-1)).setChangeIndex fd i).fdMap.length by
      rw [hsame₂.length, hsame.length]
      exact hlt)
  refine ⟨d', ?_, fun hinv => ?_⟩
  · rw [heq, if_pos hne, hok]
    exact hok'
  · have hcol : d'.changeIndices[fd]? = some (i : ℤ) := by
      rw [hs'.indices]
      change ((d₀.setChangeIndex fd (-1)).setChangeIndex fd i).changeIndices[fd]? = _
      rw [changeIndices_setChangeIndex, changeIndices_setChangeIndex, List.getElem?_set_self]
      rw [List.length_set, d₀.length_changeIndices, hsame.length]
      exact hlt
    unfold RealDispatch.changeIndices at hcol
    rw [List.getElem?_map, Option.map_eq_some_iff] at hcol
    obtain ⟨fm', hfm', hindex⟩ := hcol
    obtain ⟨k, c, hk, -, hc, hcfd⟩ := hinv.backward fd fm' hfm' (by rw [hindex]; simp)
    obtain rfl : i = k := by
      rw [hindex] at hk
      exact_mod_cast hk
    rw [hs'.changes] at hc
    change (d₀.changes.set i last)[i]? = some c at hc
    rw [List.getElem?_set_self (List.getElem?_eq_some_iff.mp hget').1] at hc
    obtain rfl := Option.some.inj hc
    exact hother hcfd

/-! ## The theorem -/

/-- Along a sequence of calls the index is the inverse of the changes exactly if nothing is closed whose
change has another one behind it. -/
theorem changeIndex_inverse_iff (calls : List DispatchCall) :
    HoldsAlong DispatchCall.run ChangeIndexInverse calls dispatchNew ↔
      AllowedAlong DispatchCall.run (fun d call => call.Harmless d) calls dispatchNew := by
  refine holdsAlong_iff (I := fun d => TableInv d ∧ ChangeInv d) ?_ ?_ ?_ calls dispatchNew
    ⟨tableInv_new, loopInv_start.changes⟩
  · rintro d ⟨hT, hC⟩
    exact hC.inverse hT
  · rintro d call d' ⟨hT, hC⟩ hharmless hrun
    exact DispatchCall.keeps hT hC hharmless hrun
  · rintro d call ⟨hT, hC⟩ hnot
    cases call with
    | fdClosed fd =>
      simp only [DispatchCall.Harmless, not_forall, not_not] at hnot
      obtain ⟨change, hmem, hfd⟩ := hnot
      exact dispatchFdClosed_breaks hT hC hmem hfd
    | watchFd | clearChanges => exact absurd trivial hnot

/-- File descriptor 5 is closed while the change of 6 is behind its own.  The next
`protobuf_c_dispatch_clear_changes` fails its assertion. -/
theorem changeIndex_not_inverse :
    (¬ ∀ calls : List DispatchCall,
      HoldsAlong DispatchCall.run ChangeIndexInverse calls dispatchNew) ∧
    ∃ d, [DispatchCall.watchFd 5 1 (some ⟨1, 50⟩), .watchFd 6 1 (some ⟨1, 60⟩),
      .fdClosed 5].foldlM DispatchCall.run dispatchNew = .ok d ∧
      (∃ fm, d.fdMap[6]? = some fm ∧ fm.changeIndex = 1) ∧ d.nChanges = 1 ∧
      dispatchClearChanges d = .error .assertion := by
  refine ⟨fun hclaim => ?_, ⟨_, rfl, ⟨_, rfl, rfl⟩, rfl, rfl⟩⟩
  obtain ⟨-, hrest⟩ := hclaim [.watchFd 5 1 (some ⟨1, 50⟩), .watchFd 6 1 (some ⟨1, 60⟩),
    .fdClosed 5]
  obtain ⟨-, hrest⟩ := hrest _ rfl
  obtain ⟨-, hrest⟩ := hrest _ rfl
  obtain ⟨d', hok⟩ := (hrest _ rfl).clears
  have herr : Except.error Fault.assertion = Except.ok d' := hok
  exact absurd herr (by simp)

end ProtobufC
