import ProtobufC.Dispatch.Core
import ProtobufC.Library.RedBlackTree
import ProtobufC.Library.Runs

/-! # Timers and idle functions

The part of `protobuf-c-dispatch.c` that keeps timers and idle functions, as a machine that stops
wherever code of the user runs.  The structs are kept where they are linked: in the tree or the list, in
the stack of recycled ones, or nowhere.  `place` says where the allocator puts the timers, since timers
with one deadline are ordered by address.
-/

namespace ProtobufC
open Library
set_option autoImplicit false

/-! ## The state -/

/-- What `gettimeofday` reports, in the types that it is compared in. -/
structure TimeVal where
  secs : UInt64
  usecs : UInt32
  deriving DecidableEq, Repr

/-- `ProtobufCDispatchTimer`; `serial` counts the calls of `protobuf_c_dispatch_add_timer`, for the
history. -/
structure DispatchTimer where
  address : ℕ
  timeoutSecs : UInt64
  timeoutUsecs : UInt32
  func : Option Callback
  serial : ℕ
  deriving DecidableEq, Repr

/-- `ProtobufCDispatchIdle` -/
structure DispatchIdle where
  address : ℕ
  func : Option Callback
  deriving DecidableEq, Repr

/-- The deadline, as `TIMERS_COMPARE` orders it. -/
def DispatchTimer.deadline (timer : DispatchTimer) : ℕ ×ₗ ℕ :=
  toLex (timer.timeoutSecs.toNat, timer.timeoutUsecs.toNat)

/-- The order of `TIMERS_COMPARE`: by deadline, then by address. -/
def DispatchTimer.key (timer : DispatchTimer) : (ℕ ×ₗ ℕ) ×ₗ ℕ := toLex (timer.deadline, timer.address)

/-- The test of `protobuf_c_dispatch_dispatch`. -/
def DispatchTimer.due (timer : DispatchTimer) (tv : TimeVal) : Bool :=
  decide (timer.timeoutSecs < tv.secs) ||
    (timer.timeoutSecs == tv.secs && decide (timer.timeoutUsecs ≤ tv.usecs))

/-- History: a timer was taken out of the tree at a time, and what the tree held before. -/
structure Firing where
  timer : DispatchTimer
  tv : TimeVal
  tree : List DispatchTimer
  deriving DecidableEq

structure DispatchTimers where
  hasTimeout : Bool
  timeoutSecs : UInt64
  timeoutUsecs : UInt32
  hasIdle : Bool
  lastDispatchSecs : UInt64
  lastDispatchUsecs : UInt32
  isDispatching : Bool
  timerTree : RBTree DispatchTimer
  recycledTimeouts : List DispatchTimer
  /-- The timer whose function runs. -/
  notifying : Option DispatchTimer
  /-- The timers that `protobuf_c_dispatch_remove_timer` took out; nothing links them. -/
  unlinked : List DispatchTimer
  /-- From `first_idle` to `last_idle`. -/
  idles : List DispatchIdle
  recycledIdles : List DispatchIdle
  /-- The idle function that runs. -/
  idling : Option DispatchIdle
  nTimers : ℕ
  nIdles : ℕ
  nAdded : ℕ
  removed : List ℕ
  fired : List Firing
  deriving DecidableEq

/-- The fields that `protobuf_c_dispatch_new` does not assign. -/
structure TimersMemory where
  hasTimeout : Bool
  timeoutSecs : UInt64
  timeoutUsecs : UInt32

/-- `protobuf_c_dispatch_new` -/
def timersNew (memory : TimersMemory) (tv : TimeVal) : DispatchTimers where
  hasTimeout := memory.hasTimeout
  timeoutSecs := memory.timeoutSecs
  timeoutUsecs := memory.timeoutUsecs
  hasIdle := false
  lastDispatchSecs := tv.secs
  lastDispatchUsecs := tv.usecs
  isDispatching := false
  timerTree := .nil
  recycledTimeouts := []
  notifying := none
  unlinked := []
  idles := []
  recycledIdles := []
  idling := none
  nTimers := 0
  nIdles := 0
  nAdded := 0
  removed := []
  fired := []

/-! ## Timers -/

/-- Every timer that was allocated. -/
def DispatchTimers.timers (d : DispatchTimers) : List DispatchTimer :=
  d.timerTree.inorder ++ d.notifying.toList ++ d.recycledTimeouts ++ d.unlinked

variable (place : ℕ ↪ ℕ)

/-- The timer that `protobuf_c_dispatch_add_timer` puts into the tree. -/
def newTimer (d : DispatchTimers) (timeoutSecs timeoutUsecs : UInt32) (func : Option Callback) :
    DispatchTimer :=
  let address :=
    match d.recycledTimeouts with
    | timer :: _ => timer.address
    | [] => place d.nTimers
  ⟨address, timeoutSecs.toUInt64, timeoutUsecs, func, d.nAdded⟩

/-- The struct for it is taken from the recycled ones or allocated. -/
def takeTimer (d : DispatchTimers) : DispatchTimers :=
  match d.recycledTimeouts with
  | _ :: recycled => { d with recycledTimeouts := recycled, nAdded := d.nAdded + 1 }
  | [] => { d with nTimers := d.nTimers + 1, nAdded := d.nAdded + 1 }

/-- `protobuf_c_dispatch_add_timer` -/
def dispatchAddTimer (d : DispatchTimers) (timeoutSecs timeoutUsecs : UInt32)
    (func : Option Callback) : Except Fault (DispatchTimers × ℕ) :=
  if func.isNone then .error .assertion
  else
    let rv := newTimer place d timeoutSecs timeoutUsecs func
    let d := takeTimer d
    match d.timerTree.insert DispatchTimer.key rv with
    | .error e => .error e
    | .ok (_, some _) => .error .access
    | .ok (tree, none) =>
        let d := { d with timerTree := tree }
        -- is this the first element in the tree: no link above it is a right link
        if tree.leadsLeft DispatchTimer.key rv then
          .ok ({ d with
            hasTimeout := true
            timeoutSecs := rv.timeoutSecs
            timeoutUsecs := rv.timeoutUsecs }, rv.address)
        else .ok (d, rv.address)

/-- The deadline of `protobuf_c_dispatch_add_timer_millis`. -/
def millisDeadline (d : DispatchTimers) (millis : UInt32) : UInt32 × UInt32 :=
  let tsec := d.lastDispatchSecs.toUInt32 + millis / 1000
  let tusec := d.lastDispatchUsecs + 1000 * (millis % 1000)
  if tusec ≥ 1000 * 1000 then (tsec + 1, tusec - 1000 * 1000) else (tsec, tusec)

/-- `protobuf_c_dispatch_add_timer_millis` -/
def dispatchAddTimerMillis (d : DispatchTimers) (millis : UInt32) (func : Option Callback) :
    Except Fault (DispatchTimers × ℕ) :=
  dispatchAddTimer place d (millisDeadline d millis).1 (millisDeadline d millis).2 func

/-- `protobuf_c_dispatch_remove_timer` -/
def dispatchRemoveTimer (d : DispatchTimers) (address : ℕ) : Except Fault DispatchTimers :=
  match d.timers.find? fun timer => timer.address == address with
  | none => .error .access
  | some timer =>
      -- ignore mid-notify removal
      if timer.func.isNone then .ok d
      else
        match d.timerTree.remove DispatchTimer.key timer with
        | .error e => .error e
        | .ok tree =>
            let mayBeFirst :=
              d.timeoutUsecs == timer.timeoutUsecs && d.timeoutSecs == timer.timeoutSecs
            let d := { d with
              timerTree := tree
              unlinked := timer :: d.unlinked
              removed := timer.serial :: d.removed }
            if mayBeFirst then
              match tree.first with
              | none => .ok { d with hasTimeout := false }
              | some min =>
                  .ok { d with timeoutSecs := min.timeoutSecs, timeoutUsecs := min.timeoutUsecs }
            else .ok d

/-! ## Idle functions -/

/-- `protobuf_c_dispatch_add_idle` -/
def dispatchAddIdle (d : DispatchTimers) (func : Option Callback) : DispatchTimers :=
  match d.recycledIdles with
  | idle :: recycled =>
      { d with
        idles := d.idles ++ [⟨idle.address, func⟩]
        recycledIdles := recycled
        hasIdle := true }
  | [] =>
      { d with
        idles := d.idles ++ [⟨d.nIdles, func⟩]
        nIdles := d.nIdles + 1
        hasIdle := true }

/-- `protobuf_c_dispatch_remove_idle` -/
def dispatchRemoveIdle (d : DispatchTimers) (address : ℕ) : Except Fault DispatchTimers :=
  match (d.idles ++ d.idling.toList ++ d.recycledIdles).find? fun idle => idle.address == address with
  | none => .error .access
  | some idle =>
      if idle.func.isNone then .ok d
      else if idle ∈ d.idles then
        .ok { d with idles := d.idles.erase idle, recycledIdles := idle :: d.recycledIdles }
      else .error .access

/-! ## The machine -/

/-- Where the dispatcher stands; code of the user runs in each of these places. -/
inductive TimersPhase
  | outside
  /-- In the callbacks of file descriptors. -/
  | notifies (tv : TimeVal)
  | idle (tv : TimeVal)
  | timer (tv : TimeVal)
  deriving DecidableEq

structure TimersConfig where
  d : DispatchTimers
  phase : TimersPhase
  deriving DecidableEq

/-- The loop of `protobuf_c_dispatch_dispatch` over the timers, up to the next function that it calls
or to the end. -/
def handleTimers (d : DispatchTimers) (tv : TimeVal) : Except Fault TimersConfig :=
  match d.timerTree.first with
  | none => .ok ⟨{ d with hasTimeout := false, isDispatching := false }, .outside⟩
  | some min =>
      if min.due tv then
        match d.timerTree.remove DispatchTimer.key min with
        | .error e => .error e
        | .ok tree =>
            .ok ⟨{ d with
              timerTree := tree
              notifying := some { min with func := none }
              fired := ⟨min, tv, d.timerTree.inorder⟩ :: d.fired }, .timer tv⟩
      else
        .ok ⟨{ d with
          hasTimeout := true
          timeoutSecs := min.timeoutSecs
          timeoutUsecs := min.timeoutUsecs
          isDispatching := false }, .outside⟩

/-- The loop over the idle functions. -/
def handleIdles (d : DispatchTimers) (tv : TimeVal) : Except Fault TimersConfig :=
  match d.idles with
  | idle :: idles =>
      if idle.func.isNone then .error .access
      else .ok ⟨{ d with idles := idles, idling := some { idle with func := none } }, .idle tv⟩
  | [] => handleTimers { d with hasIdle := false } tv

/-- A call of one of the functions. -/
inductive TimersCall
  | addTimer (timeoutSecs timeoutUsecs : UInt32) (func : Option Callback)
  | addTimerMillis (millis : UInt32) (func : Option Callback)
  | removeTimer (address : ℕ)
  | addIdle (func : Option Callback)
  | removeIdle (address : ℕ)
  deriving DecidableEq

def TimersCall.run (d : DispatchTimers) : TimersCall → Except Fault DispatchTimers
  | .addTimer timeoutSecs timeoutUsecs func => do
      return (← dispatchAddTimer place d timeoutSecs timeoutUsecs func).1
  | .addTimerMillis millis func => do return (← dispatchAddTimerMillis place d millis func).1
  | .removeTimer address => dispatchRemoveTimer d address
  | .addIdle func => .ok (dispatchAddIdle d func)
  | .removeIdle address => dispatchRemoveIdle d address

/-- What happens next. -/
inductive TimersLabel
  | call (call : TimersCall)
  /-- Code of the user calls `protobuf_c_dispatch_dispatch`. -/
  | dispatch (tv : TimeVal)
  /-- The code that runs in the dispatcher returns to it. -/
  | return
  deriving DecidableEq

def TimersConfig.step (c : TimersConfig) : TimersLabel → Except Fault TimersConfig
  | .call call => do return { c with d := ← call.run place c.d }
  | .dispatch tv =>
      if c.d.isDispatching then .error .assertion
      else
        .ok ⟨{ c.d with
          isDispatching := true
          lastDispatchSecs := tv.secs
          lastDispatchUsecs := tv.usecs }, .notifies tv⟩
  | .return =>
      match c.phase with
      | .outside => .ok c
      | .notifies tv => handleIdles c.d tv
      | .idle tv =>
          handleIdles { c.d with
            idling := none
            recycledIdles := c.d.idling.toList ++ c.d.recycledIdles } tv
      | .timer tv =>
          -- `free_timer`
          handleTimers { c.d with
            notifying := none
            recycledTimeouts := c.d.notifying.toList ++ c.d.recycledTimeouts } tv

/-- A new dispatcher. -/
def TimersConfig.start (memory : TimersMemory) (tv : TimeVal) : TimersConfig :=
  ⟨timersNew memory tv, .outside⟩

end ProtobufC
