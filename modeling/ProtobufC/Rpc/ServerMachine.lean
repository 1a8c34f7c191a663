import ProtobufC.Rpc.ClientMachine
import ProtobufC.Rpc.Server

/-! # Runs of the server

A server as a machine that moves whenever something happens to it: a connection is accepted, the
dispatcher reports a connection or the pipe, or the service answers a request.  While the loop over the
requests of a connection runs, its rounds are steps of their own, and what the service does before
`service->invoke` returns lies between two of them; answers come from any thread and at any time.
-/

namespace ProtobufC
open Library
set_option autoImplicit false

variable {μ : Type}

/-- What happens next. -/
inductive ServerLabel (μ : Type)
  /-- The dispatcher reports the listener, and `accept` returns a file descriptor or fails. -/
  | accept (new_fd : Option ℕ)
  /-- The dispatcher reports a connection, as readable, as writable or as both. -/
  | events (conn : ℕ) (readable : Option ReadOutcome) (writable : Option WritevOutcome)
  /-- The loop over the requests goes round. -/
  | receive
  /-- The service calls the closure of a request. -/
  | answer (request : ℕ) (message : Option μ) (inRpcThread : Bool) (write : ProxyWrite)
  /-- The dispatcher reports the pipe, and `read` returns so many bytes, if it is asked for them. -/
  | proxyReadable (nread : ℕ)
  /-- `protobuf_c_rpc_server_configure_threading` -/
  | configureThreading
  /-- Another user of the dispatcher makes a call. -/
  | other (call : DispatchCall)

namespace ServerWorld

/-- The function is registered for the connection and for these events. -/
def registeredFor (w : ServerWorld μ) (conn : ℕ) (events : UInt32) : Bool :=
  match (w.connections.get conn).bind fun c => w.watched c.fd with
  | none => false
  | some r => r.2 = RpcHandler.serverConnectionEvents.callback conn ∧ r.1 &&& events = events

/-- The file descriptor is that of a connection. -/
def serves (w : ServerWorld μ) (fd : ℕ) : Bool :=
  w.connections.cells.any fun cell => cell.any fun c => c.fd = fd

/-- One step; a label that does not apply leaves the server where it is. -/
def step (codec : Codec μ) (w : ServerWorld μ) : ServerLabel μ → Except Fault (ServerWorld μ)
  | .accept new_fd =>
      if w.receiving.isNone then w.handleServerListenerReadable new_fd else .ok w
  | .events conn readable writable =>
      if w.receiving.isNone ∧ w.registeredFor conn (ClientWorld.reported writable readable) then
        w.handleServerConnectionEvents conn readable writable
      else .ok w
  | .receive =>
      match w.receiving with
      | none => .ok w
      | some (conn, writable) => w.receive codec conn writable
  | .answer request message inRpcThread write =>
      if request ∈ w.owed then
        { w with owed := w.owed.erase request }.serverConnectionResponseClosure codec message request
          inRpcThread write
      else .ok w
  | .proxyReadable nread =>
      if w.receiving.isNone then w.handleProxyPipeReadable nread else .ok w
  | .configureThreading =>
      if w.receiving.isNone then .ok { w with threading := true } else .ok w
  | .other call =>
      if call.fd?.any w.serves then .ok w
      else .ok { w with watched := call.registers w.watched }

/-- What the surroundings keep to: a file descriptor that is new is not registered, others do not
register the function of the connections, and `write` says that it took a part only if it did. -/
def Proper (w : ServerWorld μ) : ServerLabel μ → Prop
  | .accept (some fd) => w.watched fd = none
  | .answer _ _ _ (.partially rv) => rv < sizeofPointer
  | .other call => ∀ callback, call.callback? = some callback →
      ∀ conn, callback ≠ RpcHandler.serverConnectionEvents.callback conn
  | .accept none | .events _ _ _ | .receive | .answer _ _ _ .whole | .answer _ _ _ .fails
  | .proxyReadable _ | .configureThreading => True

end ServerWorld

end ProtobufC
