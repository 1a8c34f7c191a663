import ProtobufC.Library.Outcome

/-! # The dispatcher

The tables of `protobuf-c-dispatch.c` and the functions that register file descriptors.  An array is the
list of its allocated elements, so that its length is what the source keeps in `.._alloced` and
`fd_map_size`; what an allocation leaves in memory is `default`.
-/

namespace ProtobufC
open Library
set_option autoImplicit false

/-! ## The state -/

/-- `Callback`; the function is known by a number. -/
structure Callback where
  func : ℕ
  data : ℕ
  deriving DecidableEq, Inhabited, Repr

/-- `ProtobufC_FDNotify` -/
structure FDNotify where
  fd : ℕ
  events : UInt32
  deriving DecidableEq, Inhabited, Repr

/-- `ProtobufC_FDNotifyChange` -/
structure FDNotifyChange where
  fd : ℕ
  oldEvents : UInt32
  events : UInt32
  deriving DecidableEq, Inhabited, Repr

structure FDMap where
  notifyDesiredIndex : ℤ
  changeIndex : ℤ
  closedSinceNotifyStarted : ℤ
  deriving DecidableEq, Repr

structure RealDispatch where
  nChanges : ℕ
  changes : List FDNotifyChange
  nNotifiesDesired : ℕ
  notifiesDesired : List FDNotify
  callbacks : List Callback
  fdMap : List FDMap
  isDispatching : Bool
  deriving DecidableEq, Repr

/-- What `memset (.., 255, ..)` leaves in an entry of the map. -/
def FDMap.unknown : FDMap := ⟨-1, -1, -1⟩

/-- `protobuf_c_dispatch_new` -/
def dispatchNew : RealDispatch where
  nChanges := 0
  changes := List.replicate 8 default
  nNotifiesDesired := 0
  notifiesDesired := List.replicate 8 default
  callbacks := List.replicate 8 default
  fdMap := List.replicate 16 .unknown
  isDispatching := false

/-- `array[i]` -/
def readAtIndex {α : Type} (array : List α) (i : ℕ) : Except Fault α :=
  match array[i]? with
  | none => .error .access
  | some a => .ok a

/-- `array[i] = f (array[i])` -/
def writeAtIndex {α : Type} (array : List α) (i : ℕ) (f : α → α) : Except Fault (List α) :=
  if i < array.length then .ok (array.modify i f) else .error .access

namespace RealDispatch
variable (d : RealDispatch)

/-- `d->fd_map + fd` -/
def fm (fd : ℕ) : Except Fault FDMap := readAtIndex d.fdMap fd

def modifyFm (fd : ℕ) (f : FDMap → FDMap) : RealDispatch :=
  { d with fdMap := d.fdMap.modify fd f }

end RealDispatch

/-! ## Growth -/

/-- `while (fd >= new_size) new_size *= 2;` -/
def enlargedSize (fd : ℕ) : ℕ → ℕ → ℕ
  | 0, newSize => newSize
  | fuel + 1, newSize => if fd ≥ newSize then enlargedSize fd fuel (newSize * 2) else newSize

/-- `enlarge_fd_map` -/
def enlargeFdMap (d : RealDispatch) (fd : ℕ) : RealDispatch :=
  let newSize := enlargedSize fd fd (d.fdMap.length * 2)
  { d with fdMap := d.fdMap ++ List.replicate (newSize - d.fdMap.length) .unknown }

/-- `ensure_fd_map_big_enough`, which `force_fd_map` calls before it reads the map. -/
def ensureFdMapBigEnough (d : RealDispatch) (fd : ℕ) : RealDispatch :=
  if fd ≥ d.fdMap.length then enlargeFdMap d fd else d

/-- `allocate_notifies_desired_index` -/
def allocateNotifiesDesiredIndex (d : RealDispatch) : ℕ × RealDispatch :=
  let rv := d.nNotifiesDesired
  let d := { d with nNotifiesDesired := rv + 1 }
  if rv = d.notifiesDesired.length then
    (rv, { d with
      notifiesDesired :=
        d.notifiesDesired ++ List.replicate d.notifiesDesired.length default
      callbacks := d.callbacks ++ List.replicate d.notifiesDesired.length default })
  else (rv, d)

/-- `allocate_change_index` -/
def allocateChangeIndex (d : RealDispatch) : ℕ × RealDispatch :=
  let rv := d.nChanges
  let d := { d with nChanges := rv + 1 }
  if rv = d.changes.length then
    (rv, { d with changes := d.changes ++ List.replicate d.changes.length default })
  else (rv, d)

/-! ## Removing entries -/

/-- `n - 1` in `unsigned`, for a count `n`. -/
def lastIndex (n : ℕ) : ℕ := if n = 0 then 2 ^ 32 - 1 else n - 1

/-- `deallocate_change_index (d, fm)`, where `fm` is the entry of `fd`. -/
def deallocateChangeIndex (d : RealDispatch) (fd : ℕ) (fm : FDMap) : Except Fault RealDispatch := do
  let ch_ind := fm.changeIndex.toNat
  let source := lastIndex d.nChanges
  let d := d.modifyFm fd fun fm => { fm with changeIndex := -1 }
  if ch_ind = source then return { d with nChanges := d.nChanges - 1 }
  else
    -- the entry at `ch_ind`, not the one at `source`, says whose index is set
    let from_fd := (← readAtIndex d.changes ch_ind).fd
    let _ ← d.fm from_fd
    let d := d.modifyFm from_fd fun fm => { fm with changeIndex := ch_ind }
    let last ← readAtIndex d.changes source
    return { d with changes := d.changes.set ch_ind last, nChanges := d.nChanges - 1 }

/-- `deallocate_notify_desired_index (d, fd, fm)` -/
def deallocateNotifyDesiredIndex (d : RealDispatch) (fd : ℕ) (fm : FDMap) :
    Except Fault RealDispatch := do
  let nd_ind := fm.notifyDesiredIndex.toNat
  let source := lastIndex d.nNotifiesDesired
  let d := d.modifyFm fd fun fm => { fm with notifyDesiredIndex := -1 }
  if nd_ind = source then return { d with nNotifiesDesired := d.nNotifiesDesired - 1 }
  else
    let from_fd := (← readAtIndex d.notifiesDesired source).fd
    let _ ← d.fm from_fd
    let d := d.modifyFm from_fd fun fm => { fm with notifyDesiredIndex := nd_ind }
    let last ← readAtIndex d.notifiesDesired source
    let callback ← readAtIndex d.callbacks source
    return { d with
      notifiesDesired := d.notifiesDesired.set nd_ind last
      callbacks := d.callbacks.set nd_ind callback
      nNotifiesDesired := d.nNotifiesDesired - 1 }

/-! ## File descriptors -/

/-- The part of `protobuf_c_dispatch_watch_fd` that finds or removes the entry of `fd`: `nd_ind`, when
there is a callback, and `old_events`. -/
def findNotify (d : RealDispatch) (fd : ℕ) (callback : Option Callback) :
    Except Fault (RealDispatch × ℕ × UInt32) := do
  let fm ← d.fm fd
  if fm.notifyDesiredIndex = -1 then
    match callback with
    | some _ =>
        let r := allocateNotifiesDesiredIndex d
        return (r.2.modifyFm fd fun fm => { fm with notifyDesiredIndex := r.1 }, r.1, 0)
    | none => return (d, 0, 0)
  else
    let old ← readAtIndex d.notifiesDesired fm.notifyDesiredIndex.toNat
    match callback with
    | none => return (← deallocateNotifyDesiredIndex d fd fm, 0, old.events)
    | some _ => return (d, fm.notifyDesiredIndex.toNat, old.events)

/-- The part that records the change. -/
def recordChange (d : RealDispatch) (fd : ℕ) (oldEvents events : UInt32) :
    Except Fault RealDispatch := do
  let fm ← d.fm fd
  if fm.changeIndex = -1 then
    let r := allocateChangeIndex d
    let d := r.2.modifyFm fd fun fm => { fm with changeIndex := r.1 }
    let changes ← writeAtIndex d.changes r.1 fun _ => ⟨fd, oldEvents, events⟩
    return { d with changes := changes }
  else
    let changes ← writeAtIndex d.changes fm.changeIndex.toNat fun c =>
      { c with fd := fd, events := events }
    return { d with changes := changes }

/-- The part that stores the entry. -/
def storeNotify (d : RealDispatch) (nd_ind : ℕ) (notify : FDNotify) (callback : Callback) :
    Except Fault RealDispatch := do
  let notifies ← writeAtIndex d.notifiesDesired nd_ind fun _ => notify
  let callbacks ← writeAtIndex d.callbacks nd_ind fun _ => callback
  return { d with notifiesDesired := notifies, callbacks := callbacks }

/-- `protobuf_c_dispatch_watch_fd` -/
def dispatchWatchFd (d : RealDispatch) (fd : ℕ) (events : UInt32) (callback : Option Callback) :
    Except Fault RealDispatch :=
  if callback.isNone ≠ decide (events = 0) then .error .assertion
  else do
    let r ← findNotify (ensureFdMapBigEnough d fd) fd callback
    let d ← recordChange r.1 fd r.2.2 events
    match callback with
    | none => return d
    | some callback => storeNotify d r.2.1 ⟨fd, events⟩ callback

/-- `protobuf_c_dispatch_fd_closed` -/
def dispatchFdClosed (d : RealDispatch) (fd : ℕ) : Except Fault RealDispatch := do
  let d := (ensureFdMapBigEnough d fd).modifyFm fd fun fm =>
    { fm with closedSinceNotifyStarted := 1 }
  let fm ← d.fm fd
  let d ← if fm.changeIndex ≠ -1 then deallocateChangeIndex d fd fm else pure d
  let fm ← d.fm fd
  if fm.notifyDesiredIndex ≠ -1 then deallocateNotifyDesiredIndex d fd fm else return d

/-- The loop over the changes that takes their indices back; `protobuf_c_dispatch_clear_changes`
asserts that they agree. -/
def forgetChanges (asserted : Bool) : List FDNotifyChange → ℕ → RealDispatch →
    Except Fault RealDispatch
  | [], _, d => .ok { d with nChanges := 0 }
  | change :: changes, i, d => do
      let fm ← d.fm change.fd
      if asserted ∧ fm.changeIndex ≠ i then .error .assertion
      else forgetChanges asserted changes (i + 1) (d.modifyFm change.fd fun fm =>
        { fm with changeIndex := -1 })

/-- The first `n_changes` changes. -/
def RealDispatch.pendingChanges (d : RealDispatch) : Except Fault (List FDNotifyChange) :=
  if d.nChanges ≤ d.changes.length then .ok (d.changes.take d.nChanges) else .error .access

/-- `protobuf_c_dispatch_clear_changes` -/
def dispatchClearChanges (d : RealDispatch) : Except Fault RealDispatch := do
  forgetChanges true (← d.pendingChanges) 0 d

end ProtobufC
