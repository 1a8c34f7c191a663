import ProtobufC.Dispatch.Indices

/-! # The table of desired notifications

`notifies_desired`, `callbacks` and the column `notify_desired_index` of the map stay one indexed table,
whatever the functions on file descriptors and the dispatcher do.  The list of changes has no part in
that: the functions on it leave the table alone, and all they need from a state is room.
-/

namespace ProtobufC
open Library
set_option autoImplicit false

/-! ## Frames -/

/-- The table is the same. -/
structure SameTable (d d' : RealDispatch) : Prop where
  notifies : d'.notifiesDesired = d.notifiesDesired
  callbacks : d'.callbacks = d.callbacks
  count : d'.nNotifiesDesired = d.nNotifiesDesired
  indices : d'.notifyIndices = d.notifyIndices

/-- The list of changes is the same. -/
structure SameChanges (d d' : RealDispatch) : Prop where
  changes : d'.changes = d.changes
  count : d'.nChanges = d.nChanges
  indices : d'.changeIndices = d.changeIndices

theorem SameTable.trans {a b c : RealDispatch} (h : SameTable a b) (h' : SameTable b c) :
    SameTable a c :=
  ⟨h'.notifies.trans h.notifies, h'.callbacks.trans h.callbacks, h'.count.trans h.count,
    h'.indices.trans h.indices⟩

theorem SameChanges.trans {a b c : RealDispatch} (h : SameChanges a b) (h' : SameChanges b c) :
    SameChanges a c :=
  ⟨h'.changes.trans h.changes, h'.count.trans h.count, h'.indices.trans h.indices⟩

theorem SameTable.length {d d' : RealDispatch} (h : SameTable d d') :
    d'.fdMap.length = d.fdMap.length := by
  rw [← d'.length_notifyIndices, ← d.length_notifyIndices, h.indices]

theorem SameChanges.length {d d' : RealDispatch} (h : SameChanges d d') :
    d'.fdMap.length = d.fdMap.length := by
  rw [← d'.length_changeIndices, ← d.length_changeIndices, h.indices]

theorem SameTable.table {d d' : RealDispatch} (h : SameTable d d') : d'.table = d.table := by
  unfold RealDispatch.table
  rw [h.notifies, h.callbacks, h.count]

theorem SameChanges.pending {d d' : RealDispatch} (h : SameChanges d d') :
    d'.pending = d.pending := by
  unfold RealDispatch.pending
  rw [h.changes, h.count]

section Modify
variable (d : RealDispatch) (fd : ℕ) (i : ℤ)

theorem sameTable_closed : SameTable d
    (d.modifyFm fd fun fm => { fm with closedSinceNotifyStarted := i }) :=
  ⟨rfl, rfl, rfl, map_modify_of_eq (g := FDMap.notifyDesiredIndex) (by intro fm; rfl) d.fdMap fd⟩

theorem sameChanges_closed : SameChanges d
    (d.modifyFm fd fun fm => { fm with closedSinceNotifyStarted := i }) :=
  ⟨rfl, rfl, map_modify_of_eq (g := FDMap.changeIndex) (by intro fm; rfl) d.fdMap fd⟩

theorem sameTable_setChangeIndex : SameTable d (d.setChangeIndex fd i) :=
  ⟨rfl, rfl, rfl, map_modify_of_eq (g := FDMap.notifyDesiredIndex) (by intro fm; rfl) d.fdMap fd⟩

theorem sameChanges_setNotifyIndex : SameChanges d (d.setNotifyIndex fd i) :=
  ⟨rfl, rfl, map_modify_of_eq (g := FDMap.changeIndex) (by intro fm; rfl) d.fdMap fd⟩

theorem notifyIndices_setNotifyIndex :
    (d.setNotifyIndex fd i).notifyIndices = d.notifyIndices.set fd i :=
  map_modify_of_const (g := FDMap.notifyDesiredIndex) (by intro fm; rfl) d.fdMap fd

theorem changeIndices_setChangeIndex :
    (d.setChangeIndex fd i).changeIndices = d.changeIndices.set fd i :=
  map_modify_of_const (g := FDMap.changeIndex) (by intro fm; rfl) d.fdMap fd

theorem length_setNotifyIndex : (d.setNotifyIndex fd i).fdMap.length = d.fdMap.length :=
  List.length_modify ..

theorem length_setChangeIndex : (d.setChangeIndex fd i).fdMap.length = d.fdMap.length :=
  List.length_modify ..

end Modify

/-! ## Invariants -/

/-- The table with its index. -/
structure TableInv (d : RealDispatch) : Prop where
  rooms : d.callbacks.length = d.notifiesDesired.length
  room : 0 < d.notifiesDesired.length
  count : d.nNotifiesDesired ≤ d.notifiesDesired.length
  map : 0 < d.fdMap.length
  column : IndexColumn d.notifyIndices
  indexes : Indexes (fun e => e.1.fd) d.table (indexOf d.notifyIndices)

/-- The list of changes can be written to. -/
structure ChangeRoom (d : RealDispatch) : Prop where
  room : 0 < d.changes.length
  count : d.nChanges ≤ d.changes.length
  column : IndexColumn d.changeIndices
  bound : ∀ i ∈ d.changeIndices, i < d.changes.length
  known : ∀ change ∈ d.changes, change.fd < d.fdMap.length

/-- What is registered for a file descriptor. -/
def RealDispatch.desired (d : RealDispatch) : ℕ → Option (FDNotify × Callback) :=
  entryAt d.table (indexOf d.notifyIndices)

theorem TableInv.congr {d d' : RealDispatch} (h : TableInv d) (hs : SameTable d d') :
    TableInv d' where
  rooms := by rw [hs.callbacks, hs.notifies, h.rooms]
  room := by rw [hs.notifies]; exact h.room
  count := by rw [hs.count, hs.notifies]; exact h.count
  map := by rw [hs.length]; exact h.map
  column := by rw [hs.indices]; exact h.column
  indexes := by rw [hs.table, hs.indices]; exact h.indexes

theorem SameTable.desired {d d' : RealDispatch} (hs : SameTable d d') : d'.desired = d.desired := by
  unfold RealDispatch.desired
  rw [hs.table, hs.indices]

theorem ChangeRoom.congr {d d' : RealDispatch} (h : ChangeRoom d) (hs : SameChanges d d') :
    ChangeRoom d' where
  room := by rw [hs.changes]; exact h.room
  count := by rw [hs.count, hs.changes]; exact h.count
  column := by rw [hs.indices]; exact h.column
  bound := by rw [hs.indices, hs.changes]; exact h.bound
  known := by rw [hs.changes, hs.length]; exact h.known

theorem TableInv.length_table {d : RealDispatch} (h : TableInv d) :
    d.table.length = d.nNotifiesDesired := by
  unfold RealDispatch.table
  rw [List.length_take, List.length_zip, h.rooms, Nat.min_self, Nat.min_eq_left h.count]

theorem tableInv_new : TableInv dispatchNew where
  rooms := rfl
  room := by decide
  count := by decide
  map := by decide
  column := by unfold IndexColumn; decide
  indexes := by
    have hnone : indexOf dispatchNew.notifyIndices = fun _ => none := by
      have happ := indexOf_append_unknown [] 16
      rw [List.nil_append] at happ
      exact happ
    rw [hnone]
    exact indexes_nil

theorem changeRoom_new : ChangeRoom dispatchNew where
  room := by decide
  count := by decide
  column := by unfold IndexColumn; decide
  bound := by decide
  known := by decide

/-! ## Room in the map -/

section Room
variable {d : RealDispatch} (fd : ℕ)

theorem notifyIndices_grown (n : ℕ) :
    ({ d with fdMap := d.fdMap ++ List.replicate n .unknown } : RealDispatch).notifyIndices =
      d.notifyIndices ++ List.replicate n (-1) := by
  unfold RealDispatch.notifyIndices
  rw [List.map_append, List.map_replicate]
  rfl

theorem changeIndices_grown (n : ℕ) :
    ({ d with fdMap := d.fdMap ++ List.replicate n .unknown } : RealDispatch).changeIndices =
      d.changeIndices ++ List.replicate n (-1) := by
  unfold RealDispatch.changeIndices
  rw [List.map_append, List.map_replicate]
  rfl

theorem TableInv.ensure (h : TableInv d) : TableInv (ensureFdMapBigEnough d fd) ∧
    (ensureFdMapBigEnough d fd).desired = d.desired ∧
    fd < (ensureFdMapBigEnough d fd).fdMap.length := by
  obtain ⟨n, heq, hlt⟩ := ensureFdMapBigEnough_fdMap d fd
  have hcol := notifyIndices_grown (d := d) n
  rw [heq]
  refine ⟨⟨h.rooms, h.room, h.count, ?_, ?_, ?_⟩, ?_, hlt h.map⟩
  · have := h.map
    rw [List.length_append]
    omega
  · rw [hcol]
    exact h.column.append_unknown n
  · rw [hcol, indexOf_append_unknown]
    exact h.indexes
  · unfold RealDispatch.desired
    rw [hcol, indexOf_append_unknown]
    rfl

theorem ChangeRoom.ensure (h : ChangeRoom d) : ChangeRoom (ensureFdMapBigEnough d fd) := by
  obtain ⟨n, heq, -⟩ := ensureFdMapBigEnough_fdMap d fd
  have hcol := changeIndices_grown (d := d) n
  rw [heq]
  refine ⟨h.room, h.count, ?_, ?_, ?_⟩
  · rw [hcol]
    exact h.column.append_unknown n
  · rw [hcol]
    intro i hi
    obtain hold | hnew := List.mem_append.mp hi
    · exact h.bound i hold
    · rw [List.eq_of_mem_replicate hnew]
      have := h.room
      change (-1 : ℤ) < d.changes.length
      omega
  · intro change hmem
    have := h.known change hmem
    rw [List.length_append]
    omega

theorem length_le_ensure (d : RealDispatch) (fd : ℕ) :
    d.fdMap.length ≤ (ensureFdMapBigEnough d fd).fdMap.length := by
  obtain ⟨n, heq, -⟩ := ensureFdMapBigEnough_fdMap d fd
  rw [heq, List.length_append]
  omega

theorem ensure_pending : (ensureFdMapBigEnough d fd).pending = d.pending ∧
    indexOf (ensureFdMapBigEnough d fd).changeIndices = indexOf d.changeIndices := by
  obtain ⟨n, heq, -⟩ := ensureFdMapBigEnough_fdMap d fd
  have hcol := changeIndices_grown (d := d) n
  rw [heq]
  refine ⟨rfl, ?_⟩
  rw [hcol, indexOf_append_unknown]

end Room

/-! ## Entries -/

theorem zip_set_set {α β : Type} (as : List α) (bs : List β) (i : ℕ) (a : α) (b : β) :
    (as.set i a).zip (bs.set i b) = (as.zip bs).set i (a, b) := by
  induction as generalizing bs i with
  | nil => rfl
  | cons x xs ih =>
    cases bs with
    | nil => cases i <;> rfl
    | cons y ys =>
      cases i with
      | zero => rfl
      | succ i => exact congrArg ((x, y) :: ·) (ih ys i)

theorem take_succ_set {α : Type} {l : List α} {n : ℕ} (hn : n < l.length) (a : α) :
    (l.set n a).take (n + 1) = l.take n ++ [a] := by
  rw [List.take_succ_eq_append_getElem (by rw [List.length_set]; exact hn), List.getElem_set_self,
    List.take_set_of_le (Nat.le_refl n)]

section Entries
variable {d : RealDispatch} {fd : ℕ} {fm : FDMap}

theorem notifyIndices_get (hfm : d.fdMap[fd]? = some fm) :
    d.notifyIndices[fd]? = some fm.notifyDesiredIndex := by
  unfold RealDispatch.notifyIndices
  rw [List.getElem?_map, hfm]
  rfl

theorem changeIndices_get (hfm : d.fdMap[fd]? = some fm) :
    d.changeIndices[fd]? = some fm.changeIndex := by
  unfold RealDispatch.changeIndices
  rw [List.getElem?_map, hfm]
  rfl

theorem TableInv.found (h : TableInv d) (hfm : d.fdMap[fd]? = some fm)
    (hne : fm.notifyDesiredIndex ≠ -1) : ∃ (i : ℕ) (e : FDNotify × Callback),
      fm.notifyDesiredIndex = i ∧ indexOf d.notifyIndices fd = some i ∧ i < d.nNotifiesDesired ∧
      d.table[i]? = some e ∧ e.1.fd = fd ∧ d.notifiesDesired[i]? = some e.1 ∧
      d.callbacks[i]? = some e.2 ∧ d.desired fd = some e := by
  have hcol := notifyIndices_get hfm
  have hge := h.column _ (List.mem_of_getElem? hcol)
  obtain ⟨i, hi⟩ : ∃ i : ℕ, fm.notifyDesiredIndex = i := ⟨fm.notifyDesiredIndex.toNat, by omega⟩
  rw [hi] at hcol
  have hidx := h.column.indexOf_eq_some.mpr hcol
  obtain ⟨e, he, hkey⟩ := h.indexes.key_eq hidx
  have hlt := h.indexes.lt_length hidx
  rw [h.length_table] at hlt
  have hzip : (d.notifiesDesired.zip d.callbacks)[i]? = some e := by
    have he' := he
    unfold RealDispatch.table at he'
    rwa [List.getElem?_take_of_lt hlt] at he'
  obtain ⟨hn, hc⟩ := List.getElem?_zip_eq_some.mp hzip
  refine ⟨i, e, hi, hidx, hlt, he, hkey, hn, hc, ?_⟩
  unfold RealDispatch.desired entryAt
  rw [hidx, Option.bind_some, he]

theorem TableInv.not_found (h : TableInv d) (hfm : d.fdMap[fd]? = some fm)
    (heq : fm.notifyDesiredIndex = -1) :
    indexOf d.notifyIndices fd = none ∧ d.desired fd = none := by
  have hcol := notifyIndices_get hfm
  have hnone : indexOf d.notifyIndices fd = none := by
    unfold indexOf
    rw [hcol, heq]
    rfl
  exact ⟨hnone, h.indexes.entryAt_eq_none.mpr hnone⟩

theorem deallocateNotifyDesiredIndex_spec (h : TableInv d) (hfm : d.fdMap[fd]? = some fm)
    (hne : fm.notifyDesiredIndex ≠ -1) :
    ∃ d', deallocateNotifyDesiredIndex d fd fm = .ok d' ∧ SameChanges d d' ∧ TableInv d' ∧
      ∀ fd', d'.desired fd' = if fd' = fd then none else d.desired fd' := by
  obtain ⟨i, e, hi, hidx, hlt, he, hkey, hn, hc, -⟩ := h.found hfm hne
  have hlen := h.length_table
  have hmap : fd < d.notifyIndices.length :=
    (List.getElem?_eq_some_iff.mp (notifyIndices_get hfm)).1
  obtain ⟨last, hlast⟩ : ∃ last, d.table.getLast? = some last := by
    rw [List.getLast?_eq_getElem?]
    exact ⟨_, List.getElem?_eq_getElem (by omega)⟩
  have hend : d.table[d.nNotifiesDesired - 1]? = some last := by
    rw [← hlen, ← List.getLast?_eq_getElem?, hlast]
  have hrem := h.indexes.swapRemove hidx hlast
  have hent := entryAt_swapRemove h.indexes hidx hlast
  have hsource : lastIndex d.nNotifiesDesired = d.nNotifiesDesired - 1 := by
    unfold lastIndex
    rw [if_neg (by omega)]
  have hcut : d.table.dropLast =
      (d.notifiesDesired.zip d.callbacks).take (d.nNotifiesDesired - 1) := by
    unfold RealDispatch.table
    have hcount := h.count
    have hrooms := h.rooms
    rw [List.dropLast_eq_take, List.take_take, List.length_take, List.length_zip]
    congr 1
    omega
  have hremoved : indexOf (d.notifyIndices.set fd (-1)) =
      reindex (indexOf d.notifyIndices) fd none := by
    rw [indexOf_set hmap, if_pos rfl]
  by_cases hil : i = d.nNotifiesDesired - 1
  · -- the entry is the last one
    have hlaste : last = e := by
      rw [← hil, he, Option.some.injEq] at hend
      exact hend.symm
    have htable : swapRemove d.table i = d.table.dropLast := by
      simp only [swapRemove, hlast]
      rw [List.dropLast_eq_take, List.dropLast_eq_take, List.length_set,
        List.take_set_of_le (by omega)]
    have hindex : reindex (reindex (indexOf d.notifyIndices) (last.1.fd) (some i)) fd none =
        indexOf (d.notifyIndices.set fd (-1)) := by
      rw [hremoved, hlaste, hkey]
      funext fd'
      unfold reindex
      split_ifs <;> rfl
    rw [hindex, htable, hcut, ← notifyIndices_setNotifyIndex] at hrem hent
    refine ⟨{ d.setNotifyIndex fd (-1) with nNotifiesDesired := d.nNotifiesDesired - 1 }, ?_, ?_,
      ⟨h.rooms, h.room, ?_, ?_, ?_, hrem⟩, hent⟩
    · simp only [deallocateNotifyDesiredIndex, hi, Int.toNat_natCast, hsource, hil, if_true]
      rfl
    · exact ⟨rfl, rfl, (sameChanges_setNotifyIndex d fd (-1)).indices⟩
    · exact (Nat.sub_le _ _).trans h.count
    · exact (length_setNotifyIndex d fd (-1)).symm ▸ h.map
    · exact (notifyIndices_setNotifyIndex d fd (-1)).symm ▸ h.column.set (Int.le_refl _)
  · -- the last entry moves
    have hlastlt : d.nNotifiesDesired - 1 < d.nNotifiesDesired := by omega
    have hzip : (d.notifiesDesired.zip d.callbacks)[d.nNotifiesDesired - 1]? = some last := by
      have hend' := hend
      unfold RealDispatch.table at hend'
      rwa [List.getElem?_take_of_lt hlastlt] at hend'
    obtain ⟨hnl, hcl⟩ := List.getElem?_zip_eq_some.mp hzip
    have hlastidx := (h.indexes last.1.fd (d.nNotifiesDesired - 1)).mpr ⟨last, hend, rfl⟩
    have hmapl : last.1.fd < d.notifyIndices.length :=
      (List.getElem?_eq_some_iff.mp (h.column.indexOf_eq_some.mp hlastidx)).1
    have hne' : last.1.fd ≠ fd := by
      intro heq
      rw [heq, hidx, Option.some.injEq] at hlastidx
      exact hil hlastidx
    have htable : swapRemove d.table i =
        ((d.notifiesDesired.set i last.1).zip (d.callbacks.set i last.2)).take
          (d.nNotifiesDesired - 1) := by
      simp only [swapRemove, hlast]
      rw [zip_set_set, List.take_set, ← hcut, List.dropLast_eq_take, List.dropLast_eq_take,
        List.length_set, List.take_set]
    have hindex : reindex (reindex (indexOf d.notifyIndices) (last.1.fd) (some i)) fd none =
        indexOf ((d.notifyIndices.set fd (-1)).set last.1.fd i) := by
      rw [indexOf_set (by rw [List.length_set]; exact hmapl), hremoved, if_neg (by omega)]
      funext fd'
      unfold reindex
      rw [Int.toNat_natCast]
      split_ifs with hfd hl
      · exact absurd (hl.symm.trans hfd) hne'
      · rfl
      · rfl
      · rfl
    have hcol : ((d.setNotifyIndex fd (-1)).setNotifyIndex last.1.fd i).notifyIndices =
        (d.notifyIndices.set fd (-1)).set last.1.fd i := by
      rw [notifyIndices_setNotifyIndex, notifyIndices_setNotifyIndex]
    rw [hindex, htable, ← hcol] at hrem hent
    obtain ⟨from_fm, hfrom⟩ : ∃ from_fm, (d.setNotifyIndex fd (-1)).fm last.1.fd = .ok from_fm := by
      refine ⟨_, RealDispatch.fm_ok.mpr (List.getElem?_eq_getElem ?_)⟩
      rw [length_setNotifyIndex, ← d.length_notifyIndices]
      exact hmapl
    refine ⟨{ (d.setNotifyIndex fd (-1)).setNotifyIndex last.1.fd i with
      notifiesDesired := d.notifiesDesired.set i last.1
      callbacks := d.callbacks.set i last.2
      nNotifiesDesired := d.nNotifiesDesired - 1 }, ?_, ?_, ⟨?_, ?_, ?_, ?_, ?_, hrem⟩, hent⟩
    · have hreadn : readAtIndex d.notifiesDesired (d.nNotifiesDesired - 1) = .ok last.1 := by
        rw [readAtIndex, hnl]
      have hreadc : readAtIndex d.callbacks (d.nNotifiesDesired - 1) = .ok last.2 := by
        rw [readAtIndex, hcl]
      simp only [deallocateNotifyDesiredIndex, hi, Int.toNat_natCast, hsource, if_neg hil]
      change (do
        let n ← readAtIndex d.notifiesDesired (d.nNotifiesDesired - 1)
        let _ ← (d.setNotifyIndex fd (-1)).fm n.fd
        let l ← readAtIndex d.notifiesDesired (d.nNotifiesDesired - 1)
        let c ← readAtIndex d.callbacks (d.nNotifiesDesired - 1)
        .ok { (d.setNotifyIndex fd (-1)).setNotifyIndex n.fd i with
          notifiesDesired := d.notifiesDesired.set i l
          callbacks := d.callbacks.set i c
          nNotifiesDesired := d.nNotifiesDesired - 1 }) = _
      rw [hreadn, hreadc]
      change (do
        let _ ← (d.setNotifyIndex fd (-1)).fm last.1.fd
        .ok _) = _
      rw [hfrom]
      rfl
    · exact ⟨rfl, rfl, ((sameChanges_setNotifyIndex d fd (-1)).trans
        (sameChanges_setNotifyIndex _ last.1.fd i)).indices⟩
    · change (d.callbacks.set i last.2).length = (d.notifiesDesired.set i last.1).length
      rw [List.length_set, List.length_set, h.rooms]
    · change 0 < (d.notifiesDesired.set i last.1).length
      rw [List.length_set]
      exact h.room
    · change d.nNotifiesDesired - 1 ≤ (d.notifiesDesired.set i last.1).length
      rw [List.length_set]
      exact (Nat.sub_le _ _).trans h.count
    · exact (length_setNotifyIndex _ last.1.fd i).symm ▸
        (length_setNotifyIndex d fd (-1)).symm ▸ h.map
    · exact hcol.symm ▸ (h.column.set (Int.le_refl _)).set (by omega)

end Entries

/-! ## Finding and storing -/

/-- Once an entry of `fd` is stored at position `i`, the table is indexed again, and only `fd` has
changed since `d`. -/
structure Reserved (d d' : RealDispatch) (fd i : ℕ) : Prop where
  rooms : d'.callbacks.length = d'.notifiesDesired.length
  count : d'.nNotifiesDesired ≤ d'.notifiesDesired.length
  position : i < d'.nNotifiesDesired
  map : 0 < d'.fdMap.length
  column : IndexColumn d'.notifyIndices
  indexes : ∀ e : FDNotify × Callback, e.1.fd = fd →
    Indexes (fun e => e.1.fd) (d'.table.set i e) (indexOf d'.notifyIndices)
  entry : ∀ e : FDNotify × Callback, e.1.fd = fd → ∀ fd',
    entryAt (d'.table.set i e) (indexOf d'.notifyIndices) fd' =
      if fd' = fd then some e else d.desired fd'

theorem Reserved.congr {d d₁ d₂ : RealDispatch} {fd i : ℕ} (h : Reserved d d₁ fd i)
    (hs : SameTable d₁ d₂) : Reserved d d₂ fd i where
  rooms := by rw [hs.callbacks, hs.notifies, h.rooms]
  count := by rw [hs.count, hs.notifies]; exact h.count
  position := by rw [hs.count]; exact h.position
  map := by rw [hs.length]; exact h.map
  column := by rw [hs.indices]; exact h.column
  indexes := by rw [hs.table, hs.indices]; exact h.indexes
  entry := by rw [hs.table, hs.indices]; exact h.entry

theorem storeNotify_spec {d d₁ : RealDispatch} {fd i : ℕ} (h : Reserved d d₁ fd i)
    (events : UInt32) (callback : Callback) :
    ∃ d', storeNotify d₁ i ⟨fd, events⟩ callback = .ok d' ∧ SameChanges d₁ d' ∧ TableInv d' ∧
      ∀ fd', d'.desired fd' = if fd' = fd then some (⟨fd, events⟩, callback) else d.desired fd' := by
  have hpos := h.position
  have hcount := h.count
  have hrooms := h.rooms
  have htable : ({ d₁ with
      notifiesDesired := d₁.notifiesDesired.modify i fun _ => ⟨fd, events⟩
      callbacks := d₁.callbacks.modify i fun _ => callback } : RealDispatch).table =
      d₁.table.set i (⟨fd, events⟩, callback) := by
    unfold RealDispatch.table
    rw [List.modify_eq_set, List.modify_eq_set, zip_set_set, List.take_set]
  have hwriten : writeAtIndex d₁.notifiesDesired i (fun _ => (⟨fd, events⟩ : FDNotify)) =
      .ok (d₁.notifiesDesired.modify i fun _ => ⟨fd, events⟩) := if_pos (by omega)
  have hwritec : writeAtIndex d₁.callbacks i (fun _ => callback) =
      .ok (d₁.callbacks.modify i fun _ => callback) := if_pos (by omega)
  refine ⟨{ d₁ with
      notifiesDesired := d₁.notifiesDesired.modify i fun _ => ⟨fd, events⟩
      callbacks := d₁.callbacks.modify i fun _ => callback }, ?_, ⟨rfl, rfl, rfl⟩,
    ⟨?_, ?_, ?_, h.map, h.column, ?_⟩, ?_⟩
  · unfold storeNotify
    rw [hwriten]
    simp only [bind, Except.bind, hwritec]
    rfl
  · change (d₁.callbacks.modify i _).length = (d₁.notifiesDesired.modify i _).length
    rw [List.length_modify, List.length_modify, hrooms]
  · change 0 < (d₁.notifiesDesired.modify i _).length
    rw [List.length_modify]
    omega
  · change d₁.nNotifiesDesired ≤ (d₁.notifiesDesired.modify i _).length
    rw [List.length_modify]
    exact hcount
  · rw [htable]
    exact h.indexes _ rfl
  · intro fd'
    unfold RealDispatch.desired
    rw [htable]
    exact h.entry _ rfl fd'

theorem allocateNotifiesDesiredIndex_eq {d : RealDispatch} (h : TableInv d) :
    ∃ k, allocateNotifiesDesiredIndex d = (d.nNotifiesDesired,
        { d with
          nNotifiesDesired := d.nNotifiesDesired + 1
          notifiesDesired := d.notifiesDesired ++ List.replicate k default
          callbacks := d.callbacks ++ List.replicate k default }) ∧
      d.nNotifiesDesired < d.notifiesDesired.length + k := by
  have hroom := h.room
  have hcount := h.count
  unfold allocateNotifiesDesiredIndex
  by_cases hfull : d.nNotifiesDesired = d.notifiesDesired.length
  · exact ⟨d.notifiesDesired.length, if_pos hfull, by omega⟩
  · refine ⟨0, ?_, by omega⟩
    simp only [if_neg hfull, List.replicate_zero, List.append_nil]

theorem reserved_allocated {d : RealDispatch} {fd : ℕ} (h : TableInv d)
    (hlt : fd < d.fdMap.length) (hnone : indexOf d.notifyIndices fd = none) :
    Reserved d ((allocateNotifiesDesiredIndex d).2.setNotifyIndex fd d.nNotifiesDesired) fd
      d.nNotifiesDesired := by
  have hmap : fd < d.notifyIndices.length := by rw [d.length_notifyIndices]; exact hlt
  obtain ⟨k, halloc, hk⟩ := allocateNotifiesDesiredIndex_eq h
  have hrooms := h.rooms
  rw [halloc]
  have hcol : (RealDispatch.setNotifyIndex { d with
        nNotifiesDesired := d.nNotifiesDesired + 1
        notifiesDesired := d.notifiesDesired ++ List.replicate k default
        callbacks := d.callbacks ++ List.replicate k default } fd
        d.nNotifiesDesired).notifyIndices = d.notifyIndices.set fd d.nNotifiesDesired :=
    notifyIndices_setNotifyIndex _ fd d.nNotifiesDesired
  have hindex : indexOf (d.notifyIndices.set fd d.nNotifiesDesired) =
      reindex (indexOf d.notifyIndices) fd (some d.table.length) := by
    rw [indexOf_set hmap, if_neg (by omega), Int.toNat_natCast, h.length_table]
  have htable : ∀ e : FDNotify × Callback,
      (((d.notifiesDesired ++ List.replicate k default).zip
        (d.callbacks ++ List.replicate k default)).take (d.nNotifiesDesired + 1)).set
          d.nNotifiesDesired e = d.table ++ [e] := by
    intro e
    rw [← List.take_set, take_succ_set (by
      rw [List.length_zip, List.length_append, List.length_append, List.length_replicate,
        List.length_replicate]
      omega), List.zip_append hrooms.symm, List.take_append_of_le_length (by
        have := h.count
        rw [List.length_zip]
        omega)]
    rfl
  refine ⟨?_, ?_, Nat.lt_succ_self _, ?_, ?_, ?_, ?_⟩
  · change (d.callbacks ++ List.replicate k default).length =
      (d.notifiesDesired ++ List.replicate k default).length
    rw [List.length_append, List.length_append, List.length_replicate, List.length_replicate,
      hrooms]
  · change d.nNotifiesDesired + 1 ≤ (d.notifiesDesired ++ List.replicate k default).length
    rw [List.length_append, List.length_replicate]
    omega
  · exact (length_setNotifyIndex _ fd d.nNotifiesDesired).symm ▸ h.map
  · exact hcol.symm ▸ h.column.set (by omega)
  · intro e he
    rw [hcol, hindex]
    exact (htable e).symm ▸ h.indexes.push hnone he
  · intro e he fd'
    rw [hcol, hindex]
    exact (htable e).symm ▸ entryAt_push h.indexes hnone he fd'

theorem findNotify_spec {d : RealDispatch} {fd : ℕ} (h : TableInv d) (hlt : fd < d.fdMap.length)
    (callback : Option Callback) :
    ∃ d' i, findNotify d fd callback = .ok (d', i, (d.desired fd).elim 0 (·.1.events)) ∧
      SameChanges d d' ∧
      match callback with
      | none => TableInv d' ∧ ∀ fd', d'.desired fd' = if fd' = fd then none else d.desired fd'
      | some _ => Reserved d d' fd i := by
  obtain ⟨fm, hfm⟩ : ∃ fm, d.fdMap[fd]? = some fm := ⟨_, List.getElem?_eq_getElem hlt⟩
  have hread : d.fm fd = .ok fm := RealDispatch.fm_ok.mpr hfm
  have hmap : fd < d.notifyIndices.length := by rw [d.length_notifyIndices]; exact hlt
  unfold findNotify
  rw [hread]
  by_cases hneg : fm.notifyDesiredIndex = -1
  · obtain ⟨hnone, hdes⟩ := h.not_found hfm hneg
    cases callback with
    | none =>
      refine ⟨d, 0, ?_, ⟨rfl, rfl, rfl⟩, h, fun fd' => ?_⟩
      · rw [hdes]
        simp only [bind, Except.bind, if_pos hneg]
        rfl
      · split_ifs with hfd
        · rw [hfd, hdes]
        · rfl
    | some cb =>
      refine ⟨_, d.nNotifiesDesired, ?_, ?_, reserved_allocated h hlt hnone⟩
      · obtain ⟨k, halloc, -⟩ := allocateNotifiesDesiredIndex_eq h
        rw [hdes, halloc]
        simp only [bind, Except.bind, if_pos hneg]
        rfl
      · obtain ⟨k, halloc, -⟩ := allocateNotifiesDesiredIndex_eq h
        rw [halloc]
        exact ⟨rfl, rfl, (sameChanges_setNotifyIndex _ fd _).indices⟩
  · obtain ⟨i, e, hi, hidx, hilt, he, hkey, hn, hc, hdes⟩ := h.found hfm hneg
    have hreadn : readAtIndex d.notifiesDesired fm.notifyDesiredIndex.toNat = .ok e.1 := by
      rw [hi, Int.toNat_natCast, readAtIndex, hn]
    cases callback with
    | none =>
      obtain ⟨d', hok, hs, hinv, hd'⟩ := deallocateNotifyDesiredIndex_spec h hfm hneg
      refine ⟨d', 0, ?_, hs, hinv, hd'⟩
      simp only [bind, Except.bind, if_neg hneg, hreadn, hok, hdes]
      rfl
    | some cb =>
      refine ⟨d, i, ?_, ⟨rfl, rfl, rfl⟩, ?_⟩
      · simp only [bind, Except.bind, if_neg hneg, hreadn, hdes]
        rw [hi, Int.toNat_natCast]
        rfl
      · exact ⟨h.rooms, h.count, hilt, h.map, h.column, fun e' he' => h.indexes.replace hidx he',
          fun e' he' => entryAt_replace h.indexes hidx he'⟩

/-! ## The list of changes -/

section Changes
variable {d : RealDispatch} {fd : ℕ} {fm : FDMap}

theorem allocateChangeIndex_eq (h : ChangeRoom d) :
    ∃ k, allocateChangeIndex d = (d.nChanges,
        { d with
          nChanges := d.nChanges + 1
          changes := d.changes ++ List.replicate k default }) ∧
      d.nChanges < d.changes.length + k := by
  have hroom := h.room
  have hcount := h.count
  unfold allocateChangeIndex
  by_cases hfull : d.nChanges = d.changes.length
  · exact ⟨d.changes.length, if_pos hfull, by omega⟩
  · refine ⟨0, ?_, by omega⟩
    simp only [if_neg hfull, List.replicate_zero, List.append_nil]

theorem ChangeRoom.index (h : ChangeRoom d) (hfm : d.fdMap[fd]? = some fm)
    (hne : fm.changeIndex ≠ -1) :
    ∃ i : ℕ, fm.changeIndex = i ∧ i < d.changes.length ∧ indexOf d.changeIndices fd = some i := by
  have hcol := changeIndices_get hfm
  have hge := h.column _ (List.mem_of_getElem? hcol)
  have hlt := h.bound _ (List.mem_of_getElem? hcol)
  obtain ⟨i, hi⟩ : ∃ i : ℕ, fm.changeIndex = i := ⟨fm.changeIndex.toNat, by omega⟩
  rw [hi] at hcol hlt
  exact ⟨i, hi, by omega, h.column.indexOf_eq_some.mpr hcol⟩

theorem recordChange_cases (h : ChangeRoom d) (hfm : d.fdMap[fd]? = some fm)
    (oldEvents events : UInt32) :
    (fm.changeIndex = -1 ∧ ∃ k, d.nChanges < d.changes.length + k ∧
      recordChange d fd oldEvents events = .ok { d.setChangeIndex fd d.nChanges with
        nChanges := d.nChanges + 1
        changes := (d.changes ++ List.replicate k default).set d.nChanges
          ⟨fd, oldEvents, events⟩ }) ∨
    (∃ (i : ℕ) (change : FDNotifyChange), fm.changeIndex = i ∧
      indexOf d.changeIndices fd = some i ∧ d.changes[i]? = some change ∧
      recordChange d fd oldEvents events = .ok { d with
        changes := d.changes.set i { change with fd := fd, events := events } }) := by
  have hread : d.fm fd = .ok fm := RealDispatch.fm_ok.mpr hfm
  unfold recordChange
  rw [hread]
  by_cases hneg : fm.changeIndex = -1
  · left
    obtain ⟨k, halloc, hk⟩ := allocateChangeIndex_eq h
    refine ⟨hneg, k, hk, ?_⟩
    have hwrite : writeAtIndex (d.changes ++ List.replicate k default) d.nChanges
        (fun _ => (⟨fd, oldEvents, events⟩ : FDNotifyChange)) =
        .ok ((d.changes ++ List.replicate k default).set d.nChanges ⟨fd, oldEvents, events⟩) := by
      unfold writeAtIndex
      rw [if_pos (by rw [List.length_append, List.length_replicate]; exact hk),
        List.modify_eq_set]
    simp only [bind, Except.bind, if_pos hneg]
    rw [halloc]
    exact congrArg (fun r : Except Fault (List FDNotifyChange) => r.bind fun changes =>
      .ok { d.setChangeIndex fd d.nChanges with nChanges := d.nChanges + 1, changes := changes })
      hwrite
  · right
    obtain ⟨i, hi, hlt, hidx⟩ := h.index hfm hneg
    obtain ⟨change, hget⟩ : ∃ change, d.changes[i]? = some change :=
      ⟨_, List.getElem?_eq_getElem hlt⟩
    refine ⟨i, change, hi, hidx, hget, ?_⟩
    have hwrite : writeAtIndex d.changes fm.changeIndex.toNat
        (fun c => { c with fd := fd, events := events }) =
        .ok (d.changes.set i { change with fd := fd, events := events }) := by
      unfold writeAtIndex
      rw [hi, Int.toNat_natCast, if_pos hlt, List.modify_eq_set, hget]
      rfl
    simp only [bind, Except.bind, if_neg hneg]
    rw [hwrite]
    rfl

theorem recordChange_room (h : ChangeRoom d) (hlt : fd < d.fdMap.length)
    (oldEvents events : UInt32) :
    ∃ d', recordChange d fd oldEvents events = .ok d' ∧ SameTable d d' ∧ ChangeRoom d' := by
  obtain ⟨fm, hfm⟩ : ∃ fm, d.fdMap[fd]? = some fm := ⟨_, List.getElem?_eq_getElem hlt⟩
  have hroom := h.room
  obtain ⟨-, k, hk, hok⟩ | ⟨i, change, -, -, hget, hok⟩ := recordChange_cases h hfm oldEvents events
  · have hlen : ((d.changes ++ List.replicate k default).set d.nChanges
        ⟨fd, oldEvents, events⟩).length = d.changes.length + k := by
      rw [List.length_set, List.length_append, List.length_replicate]
    refine ⟨_, hok, ⟨rfl, rfl, rfl, (sameTable_setChangeIndex d fd _).indices⟩, ?_⟩
    refine ⟨?_, ?_, ?_, ?_, ?_⟩
    · exact hlen.symm ▸ by omega
    · change d.nChanges + 1 ≤ _
      rw [hlen]
      omega
    · exact (changeIndices_setChangeIndex d fd d.nChanges).symm ▸ h.column.set (by omega)
    · intro j hj
      have hj' : j ∈ d.changeIndices.set fd d.nChanges :=
        changeIndices_setChangeIndex d fd d.nChanges ▸ hj
      refine hlen.symm ▸ ?_
      obtain hold | hnew := List.mem_or_eq_of_mem_set hj'
      · have := h.bound j hold
        omega
      · omega
    · intro change hmem
      refine (length_setChangeIndex d fd d.nChanges).symm ▸ ?_
      obtain hold | hnew := List.mem_or_eq_of_mem_set hmem
      · obtain hold | hdef := List.mem_append.mp hold
        · exact h.known change hold
        · rw [List.eq_of_mem_replicate hdef]
          exact Nat.zero_lt_of_lt hlt
      · exact hnew ▸ hlt
  · refine ⟨_, hok, ⟨rfl, rfl, rfl, rfl⟩, ?_, ?_, h.column, ?_, ?_⟩
    · exact (List.length_set ..).symm ▸ hroom
    · exact (List.length_set ..).symm ▸ h.count
    · exact (List.length_set ..).symm ▸ h.bound
    · intro c hmem
      obtain hold | hnew := List.mem_or_eq_of_mem_set hmem
      · exact h.known c hold
      · rw [hnew]
        exact hlt

/-- The last change moves into the place of the removed one, and the map is told of the wrong file
descriptor; without a change there is none to move. -/
theorem deallocateChangeIndex_cases (h : ChangeRoom d) (hfm : d.fdMap[fd]? = some fm)
    (hne : fm.changeIndex ≠ -1) : ∃ (i : ℕ) (change : FDNotifyChange), fm.changeIndex = i ∧
      indexOf d.changeIndices fd = some i ∧ d.changes[i]? = some change ∧
      ((i = lastIndex d.nChanges ∧ deallocateChangeIndex d fd fm =
          .ok { d.setChangeIndex fd (-1) with nChanges := d.nChanges - 1 }) ∨
        (i ≠ lastIndex d.nChanges ∧ d.changes[lastIndex d.nChanges]? = none ∧
          deallocateChangeIndex d fd fm = .error .access) ∨
        ∃ last, i ≠ lastIndex d.nChanges ∧ d.changes[lastIndex d.nChanges]? = some last ∧
          deallocateChangeIndex d fd fm =
            .ok { (d.setChangeIndex fd (-1)).setChangeIndex change.fd i with
              changes := d.changes.set i last
              nChanges := d.nChanges - 1 }) := by
  obtain ⟨i, hi, hlt, hidx⟩ := h.index hfm hne
  obtain ⟨change, hget⟩ : ∃ change, d.changes[i]? = some change :=
    ⟨_, List.getElem?_eq_getElem hlt⟩
  refine ⟨i, change, hi, hidx, hget, ?_⟩
  by_cases hil : i = lastIndex d.nChanges
  · left
    refine ⟨hil, ?_⟩
    simp only [deallocateChangeIndex, hi, Int.toNat_natCast, if_pos hil]
    rfl
  · right
    obtain ⟨from_fm, hfrom⟩ : ∃ from_fm, (d.setChangeIndex fd (-1)).fm change.fd = .ok from_fm := by
      refine ⟨_, RealDispatch.fm_ok.mpr (List.getElem?_eq_getElem ?_)⟩
      rw [length_setChangeIndex]
      exact h.known change (List.mem_of_getElem? hget)
    have hread : readAtIndex d.changes i = .ok change := by rw [readAtIndex, hget]
    have heq : deallocateChangeIndex d fd fm =
        (readAtIndex d.changes (lastIndex d.nChanges)).bind fun last =>
          .ok { (d.setChangeIndex fd (-1)).setChangeIndex change.fd i with
            changes := d.changes.set i last
            nChanges := d.nChanges - 1 } := by
      simp only [deallocateChangeIndex, hi, Int.toNat_natCast, if_neg hil]
      change (readAtIndex d.changes i).bind (fun c =>
        ((d.setChangeIndex fd (-1)).fm c.fd).bind fun _ => _) = _
      rw [hread]
      change ((d.setChangeIndex fd (-1)).fm change.fd).bind (fun _ => _) = _
      rw [hfrom]
      rfl
    cases hlast : d.changes[lastIndex d.nChanges]? with
    | none =>
      refine .inl ⟨hil, rfl, ?_⟩
      rw [heq, readAtIndex, hlast]
      rfl
    | some last =>
      refine .inr ⟨last, hil, rfl, ?_⟩
      rw [heq, readAtIndex, hlast]
      rfl

theorem deallocateChangeIndex_room (h : ChangeRoom d) (hfm : d.fdMap[fd]? = some fm)
    (hne : fm.changeIndex ≠ -1) :
    (d.nChanges = 0 ∧ ∃ f, deallocateChangeIndex d fd fm = .error f) ∨
      ∃ d', deallocateChangeIndex d fd fm = .ok d' ∧ SameTable d d' ∧ ChangeRoom d' := by
  have hroom := h.room
  have hcount := h.count
  have hsub : d.nChanges - 1 ≤ d.changes.length := (Nat.sub_le _ _).trans hcount
  obtain ⟨i, change, -, -, hget, hcases⟩ := deallocateChangeIndex_cases h hfm hne
  have hilt := (List.getElem?_eq_some_iff.mp hget).1
  have hmem : ∀ (col : List ℤ) (j : ℤ), (∀ x ∈ col, x < d.changes.length) →
      j < d.changes.length → ∀ (k : ℕ), ∀ x ∈ col.set k j, x < d.changes.length := by
    intro col j hcol hj k x hx
    obtain hold | hnew := List.mem_or_eq_of_mem_set hx
    · exact hcol x hold
    · exact hnew ▸ hj
  have hfirst := hmem d.changeIndices (-1) h.bound (by omega) fd
  obtain ⟨-, hok⟩ | ⟨-, hnone, herr⟩ | ⟨last, -, hlast, hok⟩ := hcases
  · right
    refine ⟨_, hok, ⟨rfl, rfl, rfl, (sameTable_setChangeIndex d fd _).indices⟩, hroom, hsub, ?_, ?_,
      ?_⟩
    · exact (changeIndices_setChangeIndex d fd (-1)).symm ▸ h.column.set (Int.le_refl _)
    · exact (changeIndices_setChangeIndex d fd (-1)).symm ▸ hfirst
    · exact (length_setChangeIndex d fd (-1)).symm ▸ h.known
  · left
    refine ⟨?_, _, herr⟩
    by_contra hpos
    rw [List.getElem?_eq_none_iff, lastIndex, if_neg hpos] at hnone
    omega
  · right
    have hcol : ((d.setChangeIndex fd (-1)).setChangeIndex change.fd i).changeIndices =
        (d.changeIndices.set fd (-1)).set change.fd i := by
      rw [changeIndices_setChangeIndex, changeIndices_setChangeIndex]
    refine ⟨_, hok, ⟨rfl, rfl, rfl, ((sameTable_setChangeIndex d fd (-1)).trans
      (sameTable_setChangeIndex _ change.fd i)).indices⟩, ?_, ?_, ?_, ?_, ?_⟩
    · exact (List.length_set ..).symm ▸ hroom
    · exact (List.length_set ..).symm ▸ hsub
    · exact hcol.symm ▸ (h.column.set (Int.le_refl _)).set (by omega)
    · exact (List.length_set ..).symm ▸ hcol.symm ▸ hmem _ i hfirst (by omega) change.fd
    · intro c hc
      refine (length_setChangeIndex _ change.fd i).symm ▸
        (length_setChangeIndex d fd (-1)).symm ▸ ?_
      obtain hold | hnew := List.mem_or_eq_of_mem_set hc
      · exact h.known c hold
      · exact h.known c (hnew ▸ List.mem_of_getElem? hlast)

end Changes

/-! ## The functions -/

/-- `protobuf_c_dispatch_watch_fd` cannot fail once its assertion holds. -/
theorem dispatchWatchFd_spec {d : RealDispatch} (h : TableInv d) (hC : ChangeRoom d) (fd : ℕ)
    {events : UInt32} {callback : Option Callback} (hok : callback.isNone = decide (events = 0)) :
    ∃ d', dispatchWatchFd d fd events callback = .ok d' ∧ TableInv d' ∧ ChangeRoom d' ∧
      d.fdMap.length ≤ d'.fdMap.length ∧ ∀ fd', d'.desired fd' =
        if fd' = fd then callback.map fun cb => (⟨fd, events⟩, cb) else d.desired fd' := by
  obtain ⟨h₁, hdes₁, hlt⟩ := h.ensure fd
  have hgrow := length_le_ensure d fd
  have hC₁ := hC.ensure fd
  obtain ⟨d₂, i, hfind, hsame₂, hcase⟩ := findNotify_spec h₁ hlt callback
  have hC₂ := hC₁.congr hsame₂
  obtain ⟨d₃, hrec, hsame₃, hC₃⟩ := recordChange_room hC₂ (hsame₂.length.symm ▸ hlt)
    (((ensureFdMapBigEnough d fd).desired fd).elim 0 (·.1.events)) events
  unfold dispatchWatchFd
  rw [if_neg (not_not.mpr hok)]
  cases callback with
  | none =>
    obtain ⟨hinv, hdes⟩ := hcase
    have hlen := hsame₃.length.trans hsame₂.length
    refine ⟨d₃, ?_, hinv.congr hsame₃, hC₃, hlen.symm ▸ hgrow, fun fd' => ?_⟩
    · simp only [bind, Except.bind, hfind, hrec]
      rfl
    · rw [hsame₃.desired, hdes fd', hdes₁]
      rfl
  | some cb =>
    obtain ⟨d', hstore, hsame, hinv, hdes⟩ := storeNotify_spec (hcase.congr hsame₃) events cb
    have hlen := hsame.length.trans (hsame₃.length.trans hsame₂.length)
    refine ⟨d', ?_, hinv, hC₃.congr hsame, hlen.symm ▸ hgrow, fun fd' => ?_⟩
    · simp only [bind, Except.bind, hfind, hrec]
      exact hstore
    · rw [hdes fd', hdes₁]
      rfl

/-- The part of `protobuf_c_dispatch_fd_closed` that removes the entry. -/
theorem removeNotify_spec {d : RealDispatch} {fd : ℕ} (h : TableInv d) (hlt : fd < d.fdMap.length) :
    ∃ d', ((d.fm fd).bind fun fm =>
        if fm.notifyDesiredIndex ≠ -1 then deallocateNotifyDesiredIndex d fd fm else .ok d) = .ok d' ∧
      SameChanges d d' ∧ TableInv d' ∧
      ∀ fd', d'.desired fd' = if fd' = fd then none else d.desired fd' := by
  obtain ⟨fm, hfm⟩ : ∃ fm, d.fdMap[fd]? = some fm := ⟨_, List.getElem?_eq_getElem hlt⟩
  have hread : d.fm fd = .ok fm := RealDispatch.fm_ok.mpr hfm
  rw [hread]
  simp only [Except.bind]
  by_cases hneg : fm.notifyDesiredIndex = -1
  · refine ⟨d, if_neg (not_not.mpr hneg), ⟨rfl, rfl, rfl⟩, h, fun fd' => ?_⟩
    split_ifs with hfd
    · rw [hfd]
      exact (h.not_found hfm hneg).2
    · rfl
  · rw [if_pos hneg]
    exact deallocateNotifyDesiredIndex_spec h hfm hneg

theorem dispatchFdClosed_eq {d : RealDispatch} (h : TableInv d) (fd : ℕ) :
    ∃ d₀ fm, SameTable (ensureFdMapBigEnough d fd) d₀ ∧
      SameChanges (ensureFdMapBigEnough d fd) d₀ ∧ d₀.fdMap[fd]? = some fm ∧
      dispatchFdClosed d fd =
        (if fm.changeIndex ≠ -1 then deallocateChangeIndex d₀ fd fm else .ok d₀).bind fun d =>
          (d.fm fd).bind fun fm =>
            if fm.notifyDesiredIndex ≠ -1 then deallocateNotifyDesiredIndex d fd fm else .ok d := by
  obtain ⟨-, -, hlt⟩ := h.ensure fd
  have hsame := sameTable_closed (ensureFdMapBigEnough d fd) fd 1
  obtain ⟨fm, hfm⟩ : ∃ fm, ((ensureFdMapBigEnough d fd).modifyFm fd fun fm =>
      { fm with closedSinceNotifyStarted := 1 }).fdMap[fd]? = some fm :=
    ⟨_, List.getElem?_eq_getElem (hsame.length.symm ▸ hlt)⟩
  refine ⟨_, fm, hsame, sameChanges_closed (ensureFdMapBigEnough d fd) fd 1, hfm, ?_⟩
  have hread := RealDispatch.fm_ok.mpr hfm
  unfold dispatchFdClosed
  simp only [bind]
  rw [hread]
  by_cases hneg : fm.changeIndex ≠ -1
  · rw [if_pos hneg]
    simp only [Except.bind, if_pos hneg]
    rfl
  · rw [if_neg hneg]
    simp only [Except.bind, if_neg hneg]
    rfl

/-- `protobuf_c_dispatch_fd_closed` fails only where there is no change and the map holds an index of
one. -/
theorem dispatchFdClosed_spec {d : RealDispatch} (h : TableInv d) (hC : ChangeRoom d) (fd : ℕ) :
    (d.nChanges = 0 ∧ indexOf d.changeIndices fd ≠ none ∧ ∃ f, dispatchFdClosed d fd = .error f) ∨
    ∃ d', dispatchFdClosed d fd = .ok d' ∧ TableInv d' ∧ ChangeRoom d' ∧
      d.fdMap.length ≤ d'.fdMap.length ∧
      ∀ fd', d'.desired fd' = if fd' = fd then none else d.desired fd' := by
  obtain ⟨h₁, hdes₁, hlt⟩ := h.ensure fd
  have hgrow := length_le_ensure d fd
  obtain ⟨d₀, fm, hsame, hchanges, hfm, heq⟩ := dispatchFdClosed_eq h fd
  have h₀ := h₁.congr hsame
  have hC₀ := (hC.ensure fd).congr hchanges
  have hdes₀ : d₀.desired = d.desired := hsame.desired.trans hdes₁
  -- the rest, once the change is gone
  have hrest : ∀ d₂, (if fm.changeIndex ≠ -1 then deallocateChangeIndex d₀ fd fm else .ok d₀) =
      .ok d₂ → SameTable d₀ d₂ → ChangeRoom d₂ →
      ∃ d', dispatchFdClosed d fd = .ok d' ∧ TableInv d' ∧ ChangeRoom d' ∧
        d.fdMap.length ≤ d'.fdMap.length ∧
        ∀ fd', d'.desired fd' = if fd' = fd then none else d.desired fd' := by
    intro d₂ hok hsame₂ hC₂
    obtain ⟨d', hok', hs', hinv', hd'⟩ := removeNotify_spec (h₀.congr hsame₂)
      (show fd < d₂.fdMap.length by rw [hsame₂.length, hsame.length]; exact hlt)
    have hlen := hs'.length.trans (hsame₂.length.trans hsame.length)
    refine ⟨d', ?_, hinv', hC₂.congr hs', hlen.symm ▸ hgrow, fun fd' => ?_⟩
    · rw [heq, hok]
      exact hok'
    · rw [hd', hsame₂.desired, hdes₀]
  by_cases hneg : fm.changeIndex = -1
  · exact .inr (hrest d₀ (if_neg (not_not.mpr hneg)) ⟨rfl, rfl, rfl, rfl⟩ hC₀)
  · obtain ⟨hzero, f, herr⟩ | ⟨d₂, hok, hsame₂, hC₂⟩ := deallocateChangeIndex_room hC₀ hfm hneg
    · left
      obtain ⟨i, -, -, hidx⟩ := hC₀.index hfm hneg
      obtain ⟨n, hens, -⟩ := ensureFdMapBigEnough_fdMap d fd
      refine ⟨?_, ?_, f, ?_⟩
      · rw [hchanges.count, hens] at hzero
        exact hzero
      · rw [hchanges.indices, (ensure_pending fd).2] at hidx
        rw [hidx]
        exact Option.some_ne_none i
      · rw [heq, if_pos hneg, herr]
        rfl
    · exact .inr (hrest d₂ ((if_pos hneg).trans hok) hsame₂ hC₂)

/-- Every pending change is where the map says. -/
def RealDispatch.Tracked (d : RealDispatch) : Prop :=
  ∀ (i : ℕ) (change : FDNotifyChange), d.pending[i]? = some change →
    indexOf d.changeIndices change.fd = some i

theorem changeRoom_forget {d : RealDispatch} (hC : ChangeRoom d) (fd : ℕ) :
    ChangeRoom (d.setChangeIndex fd (-1)) := by
  have hroom := hC.room
  refine ⟨hC.room, hC.count, ?_, ?_, ?_⟩
  · rw [changeIndices_setChangeIndex]
    exact hC.column.set (Int.le_refl _)
  · rw [changeIndices_setChangeIndex]
    intro j hj
    obtain hold | hnew := List.mem_or_eq_of_mem_set hj
    · exact hC.bound j hold
    · rw [hnew]
      change (-1 : ℤ) < d.changes.length
      omega
  · rw [length_setChangeIndex]
    exact hC.known

/-- The indices of the changes are taken back; the assertion holds where the map agrees with the
list. -/
theorem forgetChanges_spec (asserted : Bool) : ∀ (changes : List FDNotifyChange) (i : ℕ)
    (d : RealDispatch), ChangeRoom d → (∀ change ∈ changes, change.fd < d.fdMap.length) →
    (asserted = true → ∀ (k : ℕ) (change : FDNotifyChange), changes[k]? = some change →
      indexOf d.changeIndices change.fd = some (i + k)) →
    ∃ d', forgetChanges asserted changes i d = .ok d' ∧ SameTable d d' ∧ ChangeRoom d' ∧
      d'.nChanges = 0 ∧
      ∀ fd, indexOf d'.changeIndices fd =
        if fd ∈ changes.map FDNotifyChange.fd then none else indexOf d.changeIndices fd := by
  intro changes
  induction changes with
  | nil =>
    intro i d hC _ _
    exact ⟨_, rfl, ⟨rfl, rfl, rfl, rfl⟩, ⟨hC.room, Nat.zero_le _, hC.column, hC.bound, hC.known⟩,
      rfl, fun fd => rfl⟩
  | cons change changes ih =>
    intro i d hC hknown htracked
    have hlt := hknown change List.mem_cons_self
    obtain ⟨fm, hfm⟩ : ∃ fm, d.fdMap[change.fd]? = some fm := ⟨_, List.getElem?_eq_getElem hlt⟩
    have hread : d.fm change.fd = .ok fm := RealDispatch.fm_ok.mpr hfm
    have hindex : indexOf (d.setChangeIndex change.fd (-1)).changeIndices =
        reindex (indexOf d.changeIndices) change.fd none := by
      rw [changeIndices_setChangeIndex, indexOf_set (by rw [d.length_changeIndices]; exact hlt),
        if_pos rfl]
    obtain ⟨d', hok, hsame, hC', hzero, hforgot⟩ := ih (i + 1) (d.setChangeIndex change.fd (-1))
      (changeRoom_forget hC change.fd)
      (fun c hc => by rw [length_setChangeIndex]; exact hknown c (List.mem_cons_of_mem _ hc))
      (fun has k c hc => by
        have h0 := htracked has 0 change rfl
        have hk := htracked has (k + 1) c hc
        rw [hindex, reindex, if_neg, hk, Option.some.injEq]
        · omega
        · intro heq
          rw [heq, h0, Option.some.injEq] at hk
          omega)
    refine ⟨d', ?_, (sameTable_setChangeIndex d change.fd (-1)).trans hsame, hC', hzero, ?_⟩
    · simp only [forgetChanges, bind, Except.bind, hread]
      rw [if_neg]
      · exact hok
      · intro hbad
        have h0 := htracked hbad.1 0 change rfl
        rw [hC.column.indexOf_eq_some, changeIndices_get hfm, Option.some.injEq] at h0
        exact hbad.2 h0
    · intro fd
      rw [hforgot, hindex]
      unfold reindex
      by_cases hmem : fd ∈ changes.map FDNotifyChange.fd
      · rw [if_pos hmem, List.map_cons, if_pos (List.mem_cons_of_mem _ hmem)]
      · rw [if_neg hmem, List.map_cons]
        refine if_congr ?_ rfl rfl
        rw [List.mem_cons, or_iff_left hmem]

theorem forgetChanges_same (asserted : Bool) : ∀ (changes : List FDNotifyChange) (i : ℕ)
    (d d' : RealDispatch), ChangeRoom d → forgetChanges asserted changes i d = .ok d' →
    SameTable d d' ∧ ChangeRoom d' := by
  intro changes
  induction changes with
  | nil =>
    intro i d d' hC hok
    simp only [forgetChanges, Except.ok.injEq] at hok
    subst hok
    exact ⟨⟨rfl, rfl, rfl, rfl⟩, hC.room, Nat.zero_le _, hC.column, hC.bound, hC.known⟩
  | cons change changes ih =>
    intro i d d' hC hok
    simp only [forgetChanges, bind, Except.bind] at hok
    cases hread : d.fm change.fd with
    | error f =>
      rw [hread] at hok
      exact absurd hok (by simp)
    | ok fm =>
      rw [hread] at hok
      simp only at hok
      split_ifs at hok
      obtain ⟨hsame, hC'⟩ := ih (i + 1) _ d' (changeRoom_forget hC change.fd) hok
      exact ⟨(sameTable_setChangeIndex d change.fd (-1)).trans hsame, hC'⟩

/-- `protobuf_c_dispatch_clear_changes` fails only where its assertion does. -/
theorem dispatchClearChanges_spec {d : RealDispatch} (hC : ChangeRoom d) (h : d.Tracked) :
    ∃ d', dispatchClearChanges d = .ok d' ∧ SameTable d d' ∧ ChangeRoom d' ∧ d'.nChanges = 0 ∧
      ∀ fd, indexOf d'.changeIndices fd =
        if fd ∈ d.pending.map FDNotifyChange.fd then none else indexOf d.changeIndices fd := by
  have hpending : d.pendingChanges = .ok d.pending := if_pos hC.count
  unfold dispatchClearChanges
  rw [hpending]
  exact forgetChanges_spec true d.pending 0 d hC
    (fun change hmem => hC.known change (List.mem_of_mem_take hmem))
    fun _ k change hk => by rw [Nat.zero_add]; exact h k change hk

theorem dispatchClearChanges_same {d d' : RealDispatch} (hC : ChangeRoom d)
    (hok : dispatchClearChanges d = .ok d') : SameTable d d' ∧ ChangeRoom d' := by
  have hpending : d.pendingChanges = .ok d.pending := if_pos hC.count
  unfold dispatchClearChanges at hok
  rw [hpending] at hok
  exact forgetChanges_same true d.pending 0 d d' hC hok

end ProtobufC
