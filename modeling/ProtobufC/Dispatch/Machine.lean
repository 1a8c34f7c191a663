import ProtobufC.Dispatch.Core

/-! # Dispatching

`protobuf_c_dispatch_dispatch` as a machine that stops wherever code of the user runs: outside the
dispatcher, and in the callbacks that it calls.  A callback may call `protobuf_c_dispatch_watch_fd` and
the others any number of times before it returns.  Which idle functions and timers there are is left
open, so that a run may call any number of them.
-/

namespace ProtobufC
open Library
set_option autoImplicit false

/-- Where the dispatcher stands. -/
inductive Phase
  /-- Outside `protobuf_c_dispatch_dispatch`. -/
  | outside
  /-- In front of the rest of the notifications. -/
  | notifying (rest : List FDNotify)
  /-- In a callback of a file descriptor. -/
  | inCallback (rest : List FDNotify)
  /-- Behind the notifications, between idle functions and timers. -/
  | settling
  /-- In an idle function or the function of a timer. -/
  | inLater
  deriving DecidableEq

/-- Code of the user runs. -/
def Phase.user : Phase → Bool
  | .outside | .inCallback _ | .inLater => true
  | .notifying _ | .settling => false

structure DispatchConfig where
  d : RealDispatch
  phase : Phase
  deriving DecidableEq

/-- A call of one of the functions. -/
inductive DispatchCall
  | watchFd (fd : ℕ) (events : UInt32) (callback : Option Callback)
  | fdClosed (fd : ℕ)
  | clearChanges
  deriving DecidableEq

def DispatchCall.run (d : RealDispatch) : DispatchCall → Except Fault RealDispatch
  | .watchFd fd events callback => dispatchWatchFd d fd events callback
  | .fdClosed fd => dispatchFdClosed d fd
  | .clearChanges => dispatchClearChanges d

/-- `protobuf_c_dispatch_dispatch` up to the loop over the notifications. -/
def beginDispatch (d : RealDispatch) (notifies : List FDNotify) : Except Fault RealDispatch :=
  if d.isDispatching then .error .assertion
  else
    let fd_max := notifies.foldl (fun fd_max n => if fd_max < n.fd then n.fd else fd_max) 0
    let d := ensureFdMapBigEnough { d with isDispatching := true } fd_max
    .ok (notifies.foldl (fun d n => d.modifyFm n.fd fun fm =>
      { fm with closedSinceNotifyStarted := 0 }) d)

/-- The callback that a notification leads to, with the events it is called for. -/
def notifiedCallback (d : RealDispatch) (notify : FDNotify) :
    Except Fault (Option (UInt32 × Callback)) := do
  let fm ← d.fm notify.fd
  if fm.closedSinceNotifyStarted = 0 ∧ fm.notifyDesiredIndex ≠ -1 then
    let nd_ind := fm.notifyDesiredIndex.toNat
    let desired ← readAtIndex d.notifiesDesired nd_ind
    let events := desired.events &&& notify.events
    if events ≠ 0 then return some (events, ← readAtIndex d.callbacks nd_ind)
    else return none
  else return none

/-- What happens next. -/
inductive DispatchLabel
  /-- Code of the user calls a function. -/
  | call (c : DispatchCall)
  /-- Code of the user calls `protobuf_c_dispatch_dispatch`. -/
  | dispatch (notifies : List FDNotify)
  /-- The dispatcher goes on, or the callback returns to it. -/
  | advance
  /-- The dispatcher calls an idle function or the function of a timer. -/
  | later
  /-- The dispatcher returns. -/
  | finish
  deriving DecidableEq

/-- One step; a label that does not apply leaves the dispatcher where it is. -/
def DispatchConfig.step (c : DispatchConfig) : DispatchLabel → Except Fault DispatchConfig
  | .call k =>
      if c.phase.user then do return { c with d := ← k.run c.d }
      else return c
  | .dispatch notifies =>
      if c.phase.user then do return ⟨← beginDispatch c.d notifies, .notifying notifies⟩
      else return c
  | .advance =>
      match c.phase with
      | .notifying [] => do
          return ⟨← forgetChanges false (← c.d.pendingChanges) 0 c.d, .settling⟩
      | .notifying (notify :: rest) => do
          match ← notifiedCallback c.d notify with
          | some _ => return ⟨c.d, .inCallback rest⟩
          | none => return ⟨c.d, .notifying rest⟩
      | .inCallback rest => return ⟨c.d, .notifying rest⟩
      | .inLater => return ⟨c.d, .settling⟩
      | .outside | .settling => return c
  | .later =>
      match c.phase with
      | .settling => return ⟨c.d, .inLater⟩
      | _ => return c
  | .finish =>
      match c.phase with
      | .settling => return ⟨{ c.d with isDispatching := false }, .outside⟩
      | _ => return c

/-- A new dispatcher. -/
def DispatchConfig.start : DispatchConfig := ⟨dispatchNew, .outside⟩

end ProtobufC
