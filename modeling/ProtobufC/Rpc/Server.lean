import ProtobufC.Library.LinkedList
import ProtobufC.Rpc.Protocol

/-! # The server

The server half of `protobuf-c-rpc.c`, as functions on a `ServerWorld`: the server, the blocks it has
allocated, what it has asked of the dispatcher, the pipe between its threads, and a record of what
passed between it and the service.  Data buffers are the byte strings they stand for.  A member of the
union `info` of a request can be read only while it is the one that was stored last.
-/

namespace ProtobufC
open Library
set_option autoImplicit false

/-! ## Requests and connections -/

/-- The union `info` of a request, by the member that was stored last. -/
inductive RequestInfo
  | alive (links : Links)
  | defunct
  | recycled (next : Option ℕ)
  deriving DecidableEq

/-- `ServerRequest`, without the server. -/
structure ServerRequest where
  requestId : UInt32
  methodIndex : UInt32
  conn : Option ℕ
  info : RequestInfo
  deriving DecidableEq

/-- `info.alive.prev` and `info.alive.next` -/
def requestHook : Hook ServerRequest where
  links request := match request.info with
    | .alive links => some links
    | .defunct | .recycled _ => none
  setLinks request links := { request with info := .alive links }
  links_setLinks _ _ := rfl
  setLinks_setLinks _ _ _ := rfl

/-- `ServerConnection`, without the server. -/
structure ServerConnection where
  fd : ℕ
  incoming : List UInt8
  outgoing : List UInt8
  prev : Option ℕ
  next : Option ℕ
  nPendingRequests : UInt32
  firstPendingRequest : Option ℕ
  lastPendingRequest : Option ℕ
  deriving DecidableEq

/-- `prev` and `next` -/
def connectionHook : Hook ServerConnection where
  links conn := some ⟨conn.prev, conn.next⟩
  setLinks conn links := { conn with prev := links.prev, next := links.next }
  links_setLinks _ _ := rfl
  setLinks_setLinks _ _ _ := rfl

/-- `first_pending_request` and `last_pending_request` -/
def ServerConnection.pendingEnds (conn : ServerConnection) : ListEnds :=
  ⟨conn.firstPendingRequest, conn.lastPendingRequest⟩

/-! ## The pipe -/

/-- `ProxyResponse`, with the bytes behind it. -/
structure ProxyResponse where
  request : ℕ
  len : UInt32
  data : List UInt8
  deriving DecidableEq

/-- A byte of a pointer, by the pointer and its place in it. -/
abbrev PointerByte : Type := ℕ × ℕ

/-- `sizeof (void*)` -/
def sizeofPointer : ℕ := 8

/-- `PROXY_BUF_SIZE` -/
def proxyBufSize : ℕ := 256

/-- The bytes of a pointer. -/
def pointerBytes (p : ℕ) : List PointerByte := (List.range sizeofPointer).map (p, ·)

/-- A pointer that is read from memory. -/
def pointerOf (bytes : List PointerByte) : Except Fault ℕ :=
  match bytes with
  | [] => .error .access
  | (p, _) :: _ => if bytes = pointerBytes p then .ok p else .error .access

/-- What `write` does to the proxy pipe. -/
inductive ProxyWrite
  | whole
  | partially (rv : ℕ)
  | fails
  deriving DecidableEq

/-! ## State -/

/-- `ProtobufC_RPC_Error_Code` -/
inductive RpcErrorCode
  | hostNotFound
  | connectionRefused
  | clientTerminated
  | badRequest
  | proxyProblem
  deriving DecidableEq

/-- A server and its surroundings. -/
structure ServerWorld (μ : Type) where
  service : ServiceDescriptor
  requests : Store ServerRequest
  connections : Store ServerConnection
  proxies : Store ProxyResponse
  /-- `first_connection` and `last_connection` -/
  connectionEnds : ListEnds
  recycledRequests : Option ℕ
  /-- `is_rpc_thread_func` is set, and the pipe is there. -/
  threading : Bool
  /-- The bytes in the pipe, and `proxy_extra_data`. -/
  pipe : List PointerByte
  proxyExtraData : List PointerByte
  watched : Registered
  /-- The connection over whose requests the loop runs, with the other event that was reported. -/
  receiving : Option (ℕ × Option WritevOutcome)
  /-- What was reported to the error handler. -/
  errors : List (RpcErrorCode × String)
  /-- The requests that the service has been given, with the message, in order. -/
  invoked : List (ℕ × μ)
  /-- The requests that the service has still to answer. -/
  owed : List ℕ
  /-- The proxied answers that were written to the pipe, and those that were taken from it. -/
  written : List ℕ
  handled : List ℕ

/-- The bytes of a response. -/
def responseBytes {μ : Type} (codec : Codec μ) (request : ServerRequest) :
    Option μ → List UInt8
  | none =>
      -- send failed status
      headerBytes [StatusCode.serviceFailed.code, request.methodIndex, 0, request.requestId]
  | some message =>
      -- send success response
      let packed := codec.pack message
      headerBytes [StatusCode.success.code, request.methodIndex, UInt32.ofNat packed.length,
        request.requestId] ++ packed

namespace ServerWorld
variable {μ : Type}

/-! ## The dispatcher -/

/-- `protobuf_c_dispatch_watch_fd`, for a connection. -/
def watchConnection (w : ServerWorld μ) (fd : ℕ) (events : UInt32) (conn : ℕ) : ServerWorld μ :=
  { w with watched := (DispatchCall.watchFd fd events
      (some (RpcHandler.serverConnectionEvents.callback conn))).registers w.watched }

/-- `protobuf_c_dispatch_close_fd` -/
def closeFd (w : ServerWorld μ) (fd : ℕ) : ServerWorld μ :=
  { w with watched := (DispatchCall.fdClosed fd).registers w.watched }

/-- `server_failed_literal` -/
def serverFailedLiteral (w : ServerWorld μ) (code : RpcErrorCode) (msg : String) : ServerWorld μ :=
  { w with errors := w.errors ++ [(code, msg)] }

/-! ## Requests -/

/-- The memory of `create_server_request`: a request that is recycled or new. -/
def takeServerRequest (w : ServerWorld μ) : Except Fault (ℕ × ServerWorld μ) := do
  match w.recycledRequests with
  | some rv =>
      match (← w.requests.load rv).info with
      | .recycled next => return (rv, { w with recycledRequests := next })
      | .alive _ | .defunct => .error .access
  | none =>
      let r := w.requests.alloc ⟨0, 0, none, .alive ⟨none, none⟩⟩
      return (r.1, { w with requests := r.2 })

/-- `create_server_request` -/
def createServerRequest (w : ServerWorld μ) (conn : ℕ) (request_id method_index : UInt32) :
    Except Fault (ℕ × ServerWorld μ) := do
  let (rv, w) ← w.takeServerRequest
  let requests ← w.requests.modify rv fun request => { request with
    conn := some conn
    requestId := request_id
    methodIndex := method_index }
  let c ← w.connections.load conn
  let (requests, ends) ← listAppend requestHook requests c.pendingEnds rv
  let connections ← w.connections.write conn { c with
    nPendingRequests := c.nPendingRequests + 1
    firstPendingRequest := ends.first
    lastPendingRequest := ends.last }
  return (rv, { w with requests := requests, connections := connections })

/-- `free_server_request`, where `RECYCLE_REQUESTS` is 1. -/
def freeServerRequest (w : ServerWorld μ) (request : ℕ) : Except Fault (ServerWorld μ) := do
  let requests ← w.requests.modify request fun r => { r with info := .recycled w.recycledRequests }
  return { w with requests := requests, recycledRequests := some request }

/-! ## Closing -/

/-- The loop of `server_connection_close` over the pending requests. -/
def disassociateLoop : ℕ → Store ServerRequest → Option ℕ → Except Fault (Store ServerRequest)
  | _, requests, none => .ok requests
  | 0, _, some _ => .error .hang
  | fuel + 1, requests, some req => do
      let links ← readLinks requestHook requests req
      let requests ← requests.modify req fun r => { r with conn := none, info := .defunct }
      disassociateLoop fuel requests links.next

/-- `server_connection_close` -/
def serverConnectionClose (w : ServerWorld μ) (conn : ℕ) : Except Fault (ServerWorld μ) := do
  let c ← w.connections.load conn
  let w := w.closeFd c.fd
  let (connections, ends) ← listRemove connectionHook w.connections w.connectionEnds conn
  let requests ← disassociateLoop (w.requests.cells.length + 1) w.requests c.firstPendingRequest
  return { w with
    connections := ← connections.free conn
    connectionEnds := ends
    requests := requests }

/-- `server_connection_failed`, with the format of its message. -/
def serverConnectionFailed (w : ServerWorld μ) (conn : ℕ) (code : RpcErrorCode) (format : String) :
    Except Fault (ServerWorld μ) :=
  (w.serverFailedLiteral code format).serverConnectionClose conn

/-! ## Responses -/

/-- The bytes of a response are appended to the buffer of the connection, and the request is taken from
it; what `server_connection_response_closure` and `handle_proxy_pipe_readable` share. -/
def queueResponse (w : ServerWorld μ) (conn request : ℕ) (data : List UInt8) :
    Except Fault (ServerWorld μ) := do
  let c ← w.connections.load conn
  let must_set_output_watch := c.outgoing.length = 0
  let c := { c with outgoing := c.outgoing ++ data }
  let w := if must_set_output_watch then
    w.watchConnection c.fd (eventReadable ||| eventWritable) conn else w
  let (requests, ends) ← listRemove requestHook w.requests c.pendingEnds request
  let connections ← w.connections.write conn { c with
    nPendingRequests := c.nPendingRequests - 1
    firstPendingRequest := ends.first
    lastPendingRequest := ends.last }
  { w with requests := requests, connections := connections }.freeServerRequest request

/-- The answer to a request that comes from another thread. -/
def proxyResponse (w : ServerWorld μ) (request : ℕ) (data : List UInt8) (write : ProxyWrite) :
    Except Fault (ServerWorld μ) := do
  let pr := w.proxies.alloc ⟨request, UInt32.ofNat data.length, data⟩
  let w := { w with proxies := pr.2 }
  match write with
  | .whole => return { w with
      pipe := w.pipe ++ pointerBytes pr.1
      written := w.written ++ [pr.1] }
  | .partially rv =>
      let w := { w with pipe := w.pipe ++ (pointerBytes pr.1).take rv }
      let w := w.serverFailedLiteral .proxyProblem "partial write to proxy-pipe"
      return { w with proxies := ← w.proxies.free pr.1 }
  | .fails =>
      let w := w.serverFailedLiteral .proxyProblem "error writing to proxy-pipe"
      return { w with proxies := ← w.proxies.free pr.1 }

/-- `server_connection_response_closure`; `inRpcThread` is what `is_rpc_thread_func` returns. -/
def serverConnectionResponseClosure (codec : Codec μ) (w : ServerWorld μ) (message : Option μ)
    (request : ℕ) (inRpcThread : Bool) (write : ProxyWrite) : Except Fault (ServerWorld μ) := do
  let must_proxy := w.threading ∧ inRpcThread = false
  let r ← w.requests.load request
  let data := responseBytes codec r message
  if must_proxy then w.proxyResponse request data write
  else
    match r.conn with
    | none =>
        -- defunct request
        let requests ← w.requests.free request
        { w with requests := requests }.freeServerRequest request
    | some conn => w.queueResponse conn request data

/-! ## The pipe between threads -/

/-- One round of the loop of `handle_proxy_pipe_readable`. -/
def handleProxyResponse (w : ServerWorld μ) (p : ℕ) : Except Fault (ServerWorld μ) := do
  let pr ← w.proxies.load p
  let request ← w.requests.load pr.request
  let w ← match request.conn with
    | none =>
        -- defunct request
        let requests ← w.requests.free pr.request
        pure { w with requests := requests }
    | some conn => w.queueResponse conn pr.request (pr.data.take pr.len.toNat)
  return { w with proxies := ← w.proxies.free p, handled := w.handled ++ [p] }

/-- The loop, over `count` pointers at the front of `buf`. -/
def handleProxyResponses : ℕ → List PointerByte → ServerWorld μ → Except Fault (ServerWorld μ)
  | 0, _, w => .ok w
  | count + 1, buf, w => do
      let p ← pointerOf (buf.take sizeofPointer)
      handleProxyResponses count (buf.drop sizeofPointer) (← w.handleProxyResponse p)

/-- `handle_proxy_pipe_readable`; `read` returns `nread` bytes, and at most what it is asked for, or
returns 0 or fails. -/
def handleProxyPipeReadable (w : ServerWorld μ) (nread : ℕ) : Except Fault (ServerWorld μ) := do
  let asked := sizeofPointer * proxyBufSize - w.proxyExtraData.length
  let data := w.pipe.take (min nread asked)
  if data = [] then return w
  else
    let buf := w.proxyExtraData ++ data
    let count := buf.length / sizeofPointer
    let w ← handleProxyResponses count buf { w with pipe := w.pipe.drop data.length }
    return { w with proxyExtraData := buf.drop (count * sizeofPointer) }

/-! ## Connections -/

/-- The part of `handle_server_connection_events` for `PROTOBUF_C_EVENT_WRITABLE`. -/
def handleServerWritable (w : ServerWorld μ) (conn : ℕ) (writable : Option WritevOutcome) :
    Except Fault (ServerWorld μ) := do
  match writable with
  | none => return w
  | some outcome =>
      let c ← w.connections.load conn
      if c.outgoing.length > 0 then
        match outcome with
        | .fails => w.serverConnectionFailed conn .clientTerminated "writing to file-descriptor: %s"
        | .ignorable | .accepts _ =>
            let c := { c with outgoing := c.outgoing.drop outcome.count }
            let w := { w with connections := ← w.connections.write conn c }
            return if c.outgoing.length = 0 then w.watchConnection c.fd eventReadable conn else w
      else return w

/-- The part for `PROTOBUF_C_EVENT_READABLE`, up to the loop, and the other one where there is no
loop. -/
def handleServerConnectionEvents (w : ServerWorld μ) (conn : ℕ) (readable : Option ReadOutcome)
    (writable : Option WritevOutcome) : Except Fault (ServerWorld μ) := do
  match readable with
  | none | some .ignorable => w.handleServerWritable conn writable
  | some .fails =>
      w.serverConnectionFailed conn .clientTerminated "reading from file-descriptor: %s"
  | some (.received []) =>
      if (← w.connections.load conn).firstPendingRequest.isSome then
        w.serverConnectionFailed conn .clientTerminated "closed while calls pending"
      else w.serverConnectionClose conn
  | some (.received data) =>
      let connections ← w.connections.modify conn fun c => { c with incoming := c.incoming ++ data }
      return { w with connections := connections, receiving := some (conn, writable) }

/-- The loop over the requests ends. -/
def stopReceiving (w : ServerWorld μ) : ServerWorld μ := { w with receiving := none }

/-- `service->invoke`; the service answers at once or later. -/
def invokeService (w : ServerWorld μ) (request : ℕ) (message : μ) : ServerWorld μ :=
  { w with invoked := w.invoked ++ [(request, message)], owed := w.owed ++ [request] }

/-- One round of the loop over the requests. -/
def receive (codec : Codec μ) (w : ServerWorld μ) (conn : ℕ) (writable : Option WritevOutcome) :
    Except Fault (ServerWorld μ) := do
  let c ← w.connections.load conn
  if c.incoming.length < 12 then w.stopReceiving.handleServerWritable conn writable
  else
    let method_index := headerWord c.incoming 0
    let message_length := headerWord c.incoming 1
    let request_id := headerWord c.incoming 2
    if c.incoming.length < (12 + message_length).toNat then
      w.stopReceiving.handleServerWritable conn writable
    else
      match w.service.methods[method_index.toNat]? with
      | none => w.stopReceiving.serverConnectionFailed conn .badRequest "bad method_index %u"
      | some method =>
          let data := readBlock (c.incoming.drop 12) message_length.toNat
          let connections ← w.connections.write conn { c with
            incoming := (c.incoming.drop 12).drop message_length.toNat }
          let w := { w with connections := connections }
          match codec.unpack method.input data with
          | none => w.stopReceiving.serverConnectionFailed conn .badRequest "error unpacking message"
          | some message => do
              let (rv, w) ← w.createServerRequest conn request_id method_index
              return w.invokeService rv message

/-- `handle_server_listener_readable`; `accept` returns a file descriptor, or fails. -/
def handleServerListenerReadable (w : ServerWorld μ) (new_fd : Option ℕ) :
    Except Fault (ServerWorld μ) := do
  match new_fd with
  | none => return w
  | some fd =>
      let conn := w.connections.alloc ⟨fd, [], [], none, none, 0, none, none⟩
      let (connections, ends) ← listAppend connectionHook conn.2 w.connectionEnds conn.1
      return { w with connections := connections, connectionEnds := ends }.watchConnection fd
        eventReadable conn.1

end ServerWorld

/-- `server_new_from_fd`, without the listener. -/
def serverNewFromFd {μ : Type} (service : ServiceDescriptor) (watched : Registered) :
    ServerWorld μ where
  service := service
  requests := .empty
  connections := .empty
  proxies := .empty
  connectionEnds := .empty
  recycledRequests := none
  threading := false
  pipe := []
  proxyExtraData := []
  watched := watched
  receiving := none
  errors := []
  invoked := []
  owed := []
  written := []
  handled := []

end ProtobufC
