import ProtobufC.Rpc.ClientRequests
import ProtobufC.Rpc.OtherConnections

/-! # A client and its server

A connected client and its server, with the bytes that are between them.  Either end moves when its
dispatcher reports the socket, in whatever portions the system writes and reads; the service answers when
it likes; and the server has other connections.  Nothing is lost on the way: a step that takes bytes from
the buffer of one end puts them behind those that are under way.
-/

namespace ProtobufC
open Library
set_option autoImplicit false

/-- A client and its server. -/
structure RpcSystem (μ : Type) where
  client : ClientWorld μ
  server : ServerWorld μ
  /-- The connection of the client. -/
  conn : ℕ
  toServer : List UInt8
  toClient : List UInt8
  /-- What the user has asked, by method and message, with the numbers of the invocations. -/
  asked : List ((ℕ × μ) × ℕ)
  /-- What the service was given on this connection, and what it has answered. -/
  given : List (ℕ × μ)
  answered : List (ℕ × Option μ)

/-- What happens next. -/
inductive RpcLabel (μ : Type)
  /-- Code of the user runs. -/
  | invoke (script : Script μ)
  /-- The dispatcher of the client reports the socket, at which so many bytes can be read. -/
  | clientEvents (writable : Option WritevOutcome) (readable : Option ℕ)
  /-- The loop over the responses goes round. -/
  | respond
  /-- The dispatcher of the server reports the connection. -/
  | serverEvents (readable : Option ℕ) (writable : Option WritevOutcome)
  /-- The loop over the requests goes round. -/
  | receive
  /-- The service answers a request. -/
  | answer (request : ℕ) (message : Option μ) (inRpcThread : Bool) (write : ProxyWrite)
  /-- The server does something for its other connections. -/
  | elsewhere (label : ServerLabel μ)

/-- What `read` does where `n` bytes of these have arrived. -/
def arrival (wire : List UInt8) (n : ℕ) : ReadOutcome :=
  if wire.take n = [] then .ignorable else .received (wire.take n)

namespace RpcSystem
variable {μ : Type}

/-- The bytes that are written when the loop over the requests does not run, or has ended. -/
def written (s : RpcSystem μ) (server : ServerWorld μ) (writable : Option WritevOutcome) : List UInt8 :=
  if server.receiving.isNone then (s.server.buffers s.conn).2.take (writeCount writable) else []

/-- The invocations of a step of the client. -/
def asks (codec : Codec μ) (s : RpcSystem μ) (label : ClientLabel μ) : List ((ℕ × μ) × ℕ) :=
  (s.client.runs codec label).calls.zipIdx s.client.invoked

/-- One step; a label that does not apply leaves the system where it is. -/
def step (codec : Codec μ) (s : RpcSystem μ) : RpcLabel μ → Except Fault (RpcSystem μ)
  | .invoke script => do
      let client ← s.client.step codec (.invoke script)
      return { s with client := client, asked := s.asked ++ s.asks codec (.invoke script) }
  | .clientEvents writable readable =>
      let outcome := readable.map (arrival s.toClient)
      if s.client.responding = false ∧
          s.client.registeredFor .clientEvents (ClientWorld.reported writable outcome) then do
        let client ← s.client.step codec (.events writable outcome)
        return { s with
          client := client
          toServer := s.toServer ++ s.client.client.outgoing.take (writeCount writable)
          toClient := s.toClient.drop (receivedBytes outcome).length }
      else .ok s
  | .respond => do
      let client ← s.client.step codec .respond
      return { s with client := client, asked := s.asked ++ s.asks codec .respond }
  | .serverEvents readable writable =>
      let outcome := readable.map (arrival s.toServer)
      if s.server.receiving.isNone ∧
          s.server.registeredFor s.conn (ClientWorld.reported writable outcome) then do
        let server ← s.server.step codec (.events s.conn outcome writable)
        return { s with
          server := server
          toServer := s.toServer.drop (receivedBytes outcome).length
          toClient := s.toClient ++ s.written server writable }
      else .ok s
  | .receive =>
      match s.server.receiving with
      | none => .ok s
      | some (conn, writable) =>
          if conn = s.conn then do
            let server ← s.server.step codec .receive
            return { s with
              server := server
              toClient := s.toClient ++ s.written server writable
              given := s.given ++ server.invoked.drop s.server.invoked.length }
          else .ok s
  | .answer request message inRpcThread write =>
      if request ∈ s.server.owed ∧ s.server.connectionOf request = some s.conn then do
        let server ← s.server.step codec (.answer request message inRpcThread write)
        return { s with server := server, answered := s.answered ++ [(request, message)] }
      else .ok s
  | .elsewhere label => do
      return { s with server := ← s.server.step codec label }

/-! ## What the surroundings keep to -/

/-- The request is not too long for its header, and the service can read it. -/
def Sendable (codec : Codec μ) (service : ServiceDescriptor) (x : ℕ × μ) : Prop :=
  12 + (codec.pack x.2).length < 2 ^ 32 ∧ ∀ method, service.methods[x.1]? = some method →
    ∃ message, codec.unpack method.input (codec.pack x.2) = some message

/-- The response is not too long for its header, and the client can read it. -/
def Answerable (codec : Codec μ) (method : MethodDescriptor) (answer : Option μ) : Prop :=
  16 + (codec.reply answer).length < 2 ^ 32 ∧
    ∃ message, codec.unpack method.output (codec.reply answer) = some message

/-- No end fails or closes, messages can be read at the other end, closures make no more invocations than
the table has room for, and the service does not answer a request whose connection was closed. -/
def Allowed (codec : Codec μ) (s : RpcSystem μ) : RpcLabel μ → Prop
  | .invoke script => s.client.Proper (.invoke script) ∧ s.client.Room codec (.invoke script) ∧
      ∀ x ∈ (s.client.runs codec (.invoke script)).calls, Sendable codec s.client.client.service x
  | .clientEvents writable _ => writable ≠ some .fails
  | .respond => s.client.Room codec .respond ∧
      ∀ x ∈ (s.client.runs codec .respond).calls, Sendable codec s.client.client.service x
  | .serverEvents _ writable => writable ≠ some .fails
  | .receive => True
  | .answer request message _ _ => ∀ q method, s.server.requests.get request = some q →
      s.server.service.methods[q.methodIndex.toNat]? = some method → Answerable codec method message
  | .elsewhere label => s.server.Elsewhere s.conn label ∧ ¬ s.server.AnswersDefunct label

/-- A client that was just connected, and its connection at a server with one thread. -/
structure Fresh (codec : Codec μ) (s : RpcSystem μ) : Prop where
  client : ∃ self type name descriptor watched, Unregistered self watched ∧
    Runs (ClientWorld.step codec) (fun w label => w.Proper label ∧ w.Takes label)
      (rpcClientNew self type name descriptor watched) s.client
  connected : s.client.client.state = .connected
  unsent : s.client.sent = []
  unreceived : s.client.client.incoming = []
  server : ∃ service watched,
    Runs (ServerWorld.step codec) (ServerWorld.WritesWhole True) (serverNewFromFd service watched)
      s.server
  direct : s.server.threading = false
  idle : ∀ writable, s.server.receiving ≠ some (s.conn, writable)
  connection : ∃ c, s.server.connections.get s.conn = some c ∧ c.incoming = [] ∧ c.outgoing = [] ∧
    c.firstPendingRequest = none
  drained : s.server.pipe = [] ∧ s.server.proxyExtraData = []
  service : s.client.client.service = s.server.service
  few : s.server.service.nMethods ≤ 2 ^ 32
  nothing : s.toServer = [] ∧ s.toClient = []
  unseen : s.asked = [] ∧ s.given = [] ∧ s.answered = []

end RpcSystem

end ProtobufC
