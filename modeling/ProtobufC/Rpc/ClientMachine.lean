import ProtobufC.Library.Runs
import ProtobufC.Rpc.Client

/-! # Runs of the client

A client as a machine that moves whenever something happens to it: the dispatcher calls one of its
functions, the resolver calls back, or code of the user runs.  While the loop over the responses runs,
its rounds are steps of their own, and nothing else happens to the client; other users of the
dispatcher may register their own file descriptors at any time.
-/

namespace ProtobufC
open Library
set_option autoImplicit false

variable {μ : Type}

/-- What happens next. -/
inductive ClientLabel (μ : Type)
  /-- The dispatcher runs the idle function. -/
  | idle (lookup : LookupOutcome) (connect : ConnectOutcome)
  /-- The resolver calls back. -/
  | resolved (found : Bool) (connect : ConnectOutcome)
  /-- The dispatcher reports the file descriptor that is being connected. -/
  | connectEvents (error : SocketError)
  /-- The dispatcher reports the connection, as writable, as readable or as both. -/
  | events (writable : Option WritevOutcome) (readable : Option ReadOutcome)
  /-- The loop over the responses goes round. -/
  | respond
  /-- The timer runs out. -/
  | timeout (lookup : LookupOutcome) (connect : ConnectOutcome)
  /-- Code of the user makes invocations. -/
  | invoke (script : Script μ)
  /-- The user destroys the client. -/
  | destroy
  /-- `protobuf_c_rpc_client_disable_autoreconnect`, or `.._set_autoreconnect_period`. -/
  | setAutoreconnect (millis : Option UInt32)
  /-- Another user of the dispatcher makes a call. -/
  | other (call : DispatchCall)

/-- The file descriptor that a call is about. -/
def DispatchCall.fd? : DispatchCall → Option ℕ
  | .watchFd fd _ _ => some fd
  | .fdClosed fd => some fd
  | .clearChanges => none

/-- What `socket` returns. -/
def ConnectOutcome.fd? : ConnectOutcome → Option ℕ
  | .noSocket => none
  | .inProgress fd | .refused fd | .connected fd => some fd

namespace ClientWorld

/-- The function is registered for the file descriptor of the client and for these events. -/
def registeredFor (w : ClientWorld μ) (handler : RpcHandler) (events : UInt32) : Bool :=
  match w.client.fd.bind w.watched with
  | none => false
  | some r => r.2 = handler.callback w.self ∧ r.1 &&& events = events

/-- The events that are reported. -/
def reported (writable : Option WritevOutcome) (readable : Option ReadOutcome) : UInt32 :=
  (if writable.isSome then eventWritable else 0) ||| (if readable.isSome then eventReadable else 0)

/-- The user may use the client. -/
def usable (w : ClientWorld μ) : Bool := w.responding = false ∧ w.released = false

/-- One step; a label that does not apply leaves the client where it is. -/
def step (codec : Codec μ) (w : ClientWorld μ) : ClientLabel μ → Except Fault (ClientWorld μ)
  | .idle lookup connect =>
      match w.responding, w.idles with
      | false, _ :: idles => { w with idles := idles }.handleInitIdle codec lookup connect
      | _, _ => .ok w
  | .resolved found connect =>
      if w.responding = false ∧ w.resolving = true then
        let w := { w with resolving := false }
        if found then w.handleNameLookupSuccess codec connect else w.handleNameLookupFailure codec
      else .ok w
  | .connectEvents error =>
      if w.responding = false ∧ w.registeredFor .clientConnectEvents 0 then
        w.handleClientFdConnectEvents codec error
      else .ok w
  | .events writable readable =>
      if w.responding = false ∧ w.registeredFor .clientEvents (reported writable readable) then
        w.handleClientFdEvents codec writable readable
      else .ok w
  | .respond => if w.responding then w.respond codec else .ok w
  | .timeout lookup connect =>
      match w.responding, w.timers with
      | false, _ :: timers =>
          { w with timers := timers }.handleAutoreconnectTimeout codec lookup connect
      | _, _ => .ok w
  | .invoke script => if w.usable then w.runScript codec script else .ok w
  | .destroy =>
      if w.usable then { w with released := true }.destroyClientRpc codec else .ok w
  | .setAutoreconnect millis =>
      if w.usable then
        let client := match millis with
          | none => { w.client with autoreconnect := false }
          | some millis =>
              { w.client with autoreconnect := true, autoreconnectMillis := millis }
        .ok { w with client := client }
      else .ok w
  | .other call =>
      if call.fd?.isSome ∧ call.fd? = w.client.fd then .ok w
      else .ok { w with watched := call.registers w.watched }

end ClientWorld

/-- All invocations that the code ever makes are of methods of the service. -/
def Script.Valid (n_methods : ℕ) : Script μ → Prop
  | .done => True
  | .invoke methodIndex _ closure _ rest =>
      methodIndex < n_methods ∧ (∀ message, (closure message).Valid n_methods) ∧ rest.Valid n_methods

/-- The number of invocations. -/
def Script.length : Script μ → ℕ
  | .done => 0
  | .invoke _ _ _ _ rest => rest.length + 1

/-- What the client registers. -/
def ownCallbacks (self : ℕ) : List Callback :=
  [RpcHandler.clientConnectEvents.callback self, RpcHandler.clientEvents.callback self]

/-- The function that a call registers. -/
def DispatchCall.callback? : DispatchCall → Option Callback
  | .watchFd _ _ callback => callback
  | .fdClosed _ | .clearChanges => none

/-- What the surroundings keep to: a file descriptor that is new is not registered, invocations are of
methods of the service, and others do not register the functions of this client. -/
def ClientWorld.Proper (w : ClientWorld μ) : ClientLabel μ → Prop
  | .idle _ connect | .resolved _ connect | .timeout _ connect =>
      ∀ fd, connect.fd? = some fd → w.watched fd = none
  | .invoke script => script.Valid w.client.service.nMethods
  | .other call => ∀ callback, call.callback? = some callback → callback ∉ ownCallbacks w.self
  | .connectEvents _ | .events _ _ | .respond | .destroy | .setAutoreconnect _ => True

/-! ## A client to run -/

/-- Messages that are bytes. -/
def bytesCodec : Codec (List UInt8) := ⟨id, fun _ data => some data⟩

/-- A client of a service with one method, at an address that needs no lookup. -/
def localClient : ClientWorld (List UInt8) := rpcClientNew 7 .local [] ⟨[⟨0, 0⟩]⟩ fun _ => none

/-- A request whose closure runs `more`. -/
def requestThen (more : Script (List UInt8)) : Script (List UInt8) :=
  .invoke 0 [] (fun _ => more) 0 .done

/-- The response to the first request of a connection. -/
def firstResponse : List UInt8 := headerBytes [0, 0, 0, 1]

end ProtobufC
