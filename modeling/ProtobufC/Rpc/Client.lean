import ProtobufC.Rpc.Protocol

/-! # The client

The client half of `protobuf-c-rpc.c`, as functions on a `ClientWorld`: the client, the blocks it has
allocated, what it has asked of the dispatcher and of the system, and a record of the closures it was
given.  The two data buffers are the byte strings they stand for.  A member of the union `info` can be
read only while it is the one that was stored last.
-/

namespace ProtobufC
open Library
set_option autoImplicit false

/-! ## Closures -/

/-- What code of a user does: it makes invocations one after the other, each with a closure, which is
what runs when the closure is called with a message or with NULL. -/
inductive Script (μ : Type)
  | done
  | invoke (methodIndex : ℕ) (input : μ) (closure : Option μ → Script μ) (closureData : UInt64)
      (rest : Script μ)

/-- A closure that was passed to an invocation, and which invocation that was. -/
structure Passed (μ : Type) where
  serial : ℕ
  closure : Option μ → Script μ

/-- `Closure` -/
structure Closure (μ : Type) where
  responseType : Option DescriptorId
  closure : Option (Passed μ)
  closureData : UInt64

/-- `UINT_TO_POINTER` -/
def uintToPointer (ui : UInt32) : UInt64 := ui.toUInt64

/-- `POINTER_TO_UINT` -/
def pointerToUint (ptr : UInt64) : UInt32 := ptr.toUInt32

/-- An entry of the closure table that is not in use. -/
def Closure.unused {μ : Type} (next : UInt32) : Closure μ := ⟨none, none, uintToPointer next⟩

/-! ## State -/

/-- `ProtobufC_RPC_AddressType` -/
inductive AddressType
  | «local»
  | tcp
  deriving DecidableEq

/-- `ProtobufC_RPC_ClientState` -/
inductive ClientState
  | init
  | nameLookup
  | connecting
  | connected
  | failedWaiting
  | failed
  | destroyed
  deriving DecidableEq

/-- `info.name_lookup` -/
structure NameLookupInfo where
  pending : Bool
  destroyedWhilePending : Bool
  port : UInt16
  deriving DecidableEq

/-- `info.connected` -/
structure ConnectedInfo where
  closuresAlloced : UInt32
  firstFreeRequestId : UInt32
  closures : ℕ
  deriving DecidableEq

/-- The union `info`, by the member that was stored last. -/
inductive Info
  | init (idle : ℕ)
  | nameLookup (info : NameLookupInfo)
  | connected (info : ConnectedInfo)
  | failedWaiting (timer errorMessage : ℕ)
  | failed (errorMessage : ℕ)
  deriving DecidableEq

/-- `client->info.name_lookup` -/
def Info.toNameLookup : Info → Except Fault NameLookupInfo
  | .nameLookup info => .ok info
  | _ => .error .access

/-- `client->info.connected` -/
def Info.toConnected : Info → Except Fault ConnectedInfo
  | .connected info => .ok info
  | _ => .error .access

/-- `ProtobufC_RPC_Client` -/
structure RpcClient where
  service : ServiceDescriptor
  incoming : List UInt8
  outgoing : List UInt8
  addressType : AddressType
  name : List UInt8
  fd : Option ℕ
  autoreconnect : Bool
  autoreconnectMillis : UInt32
  state : ClientState
  info : Info
  deriving DecidableEq

/-- A client and its surroundings. -/
structure ClientWorld (μ : Type) where
  /-- The number by which the dispatcher knows the client. -/
  self : ℕ
  client : RpcClient
  /-- The memory of the client is allocated. -/
  live : Bool
  arrays : Store (List (Closure μ))
  errorMessages : Store String
  watched : Registered
  idles : List ℕ
  timers : List ℕ
  nextHandle : ℕ
  /-- The resolver has been called and has not called back. -/
  resolving : Bool
  /-- What `socket` has returned, and what was closed. -/
  opened : List ℕ
  closed : List ℕ
  /-- The loop over the responses runs. -/
  responding : Bool
  /-- The user has destroyed the client. -/
  released : Bool
  /-- The number of invocations so far. -/
  invoked : ℕ
  /-- The closures that were called, with what they were called with. -/
  called : List (ℕ × Option μ)
  /-- The requests of this connection, by invocation, with the number in their header. -/
  sent : List (ℕ × UInt32)

/-! ## What the system does -/

/-- What `getsockopt` says of a file descriptor that is being connected. -/
inductive SocketError
  | none
  | ignorable
  | fatal
  deriving DecidableEq

/-- What `socket` and `connect` do. -/
inductive ConnectOutcome
  | noSocket
  | inProgress (fd : ℕ)
  | refused (fd : ℕ)
  | connected (fd : ℕ)
  deriving DecidableEq

/-- What the resolver does before it returns. -/
inductive LookupOutcome
  | found
  | notFound
  | later
  deriving DecidableEq

/-- The digits at the front of a string, for `atoi`. -/
def digitsValue (digits : List UInt8) : ℕ :=
  (digits.takeWhile fun c => 48 ≤ c ∧ c ≤ 57).foldl (fun v c => 10 * v + (c.toNat - 48)) 0

/-- `atoi` -/
def atoi (string : List UInt8) : ℤ :=
  match string.dropWhile fun c => c = 32 ∨ 9 ≤ c ∧ c ≤ 13 with
  | 45 :: digits => - (digitsValue digits : ℤ)
  | 43 :: digits => digitsValue digits
  | digits => digitsValue digits

namespace ClientWorld
variable {μ : Type}

/-- `protobuf_c_dispatch_close_fd` -/
def closeFd (w : ClientWorld μ) (fd : ℕ) : ClientWorld μ :=
  { w with
    watched := (DispatchCall.fdClosed fd).registers w.watched
    closed := w.closed ++ [fd] }

/-- `protobuf_c_dispatch_watch_fd` -/
def watchFd (w : ClientWorld μ) (fd : ℕ) (events : UInt32) (handler : Option RpcHandler) :
    ClientWorld μ :=
  { w with
    watched := (DispatchCall.watchFd fd events (handler.map (·.callback w.self))).registers w.watched }

/-- `client->fd`, where it is not -1. -/
def getFd (w : ClientWorld μ) : Except Fault ℕ :=
  match w.client.fd with
  | none => .error .assertion
  | some fd => .ok fd

def setInfo (w : ClientWorld μ) (info : Info) : ClientWorld μ :=
  { w with client := { w.client with info := info } }

/-! ## The closure table -/

/-- `grow_closure_array`.  The entries that are new lead from each to the next, and the last one to the
old free list. -/
def growClosureArray (w : ClientWorld μ) : Except Fault (ClientWorld μ) := do
  let c ← w.client.info.toConnected
  let old_size := c.closuresAlloced
  let new_size := old_size * 2
  let old ← w.arrays.load c.closures
  if new_size ≤ old_size ∨ old.length < old_size.toNat then .error .access
  else
    let fresh := (List.range (new_size.toNat - old_size.toNat - 1)).map fun k =>
      Closure.unused (UInt32.ofNat (old_size.toNat + k + 2))
    let r := w.arrays.alloc (old.take old_size.toNat ++ fresh ++ [.unused c.firstFreeRequestId])
    let arrays ← r.2.free c.closures
    return { w with arrays := arrays }.setInfo (.connected ⟨new_size, old_size + 1, r.1⟩)

/-- `enqueue_request` -/
def enqueueRequest (codec : Codec μ) (w : ClientWorld μ) (methodIndex : ℕ) (input : μ)
    (closure : Passed μ) (closureData : UInt64) : Except Fault (ClientWorld μ) := do
  match w.client.service.methods[methodIndex]? with
  | none => .error .assertion
  | some method =>
      -- allocate request_id
      let c ← w.client.info.toConnected
      let w ← if c.firstFreeRequestId = 0 then w.growClosureArray else pure w
      let c ← w.client.info.toConnected
      let request_id := c.firstFreeRequestId
      let i := (request_id - 1).toNat
      let cl ← readAtIndex (← w.arrays.load c.closures) i
      let c := { c with firstFreeRequestId := pointerToUint cl.closureData }
      -- append to buffer
      let packed := codec.pack input
      let header := headerBytes [UInt32.ofNat methodIndex, UInt32.ofNat packed.length, request_id]
      let outgoing := w.client.outgoing ++ header ++ packed
      -- add closure
      let arrays ← w.arrays.modify c.closures fun closures =>
        closures.set i ⟨some method.output, some closure, closureData⟩
      return { w with
        arrays := arrays
        client := { w.client with info := .connected c, outgoing := outgoing }
        sent := w.sent ++ [(closure.serial, request_id)] }

/-- `update_connected_client_watch` -/
def updateConnectedClientWatch (w : ClientWorld μ) : Except Fault (ClientWorld μ) := do
  if w.client.state ≠ .connected then .error .assertion
  else
    let fd ← w.getFd
    let events := if w.client.outgoing.length > 0 then eventReadable ||| eventWritable
      else eventReadable
    return w.watchFd fd events (some .clientEvents)

/-- `invoke_client_rpc`; `callNow` calls the closure with NULL. -/
def invokeClientRpc (codec : Codec μ) (w : ClientWorld μ) (methodIndex : ℕ) (input : μ)
    (closure : Passed μ) (closureData : UInt64)
    (callNow : ClientWorld μ → Except Fault (ClientWorld μ)) : Except Fault (ClientWorld μ) := do
  match w.client.state with
  | .init | .nameLookup | .connecting =>
      w.enqueueRequest codec methodIndex input closure closureData
  | .connected =>
      let had_outgoing := w.client.outgoing.length > 0
      let w ← w.enqueueRequest codec methodIndex input closure closureData
      if ¬ had_outgoing then w.updateConnectedClientWatch else return w
  | .failedWaiting | .failed | .destroyed => callNow w

/-- The record of a call. -/
def record (w : ClientWorld μ) (serial : ℕ) (message : Option μ) : ClientWorld μ :=
  { w with called := w.called ++ [(serial, message)] }

/-- Code of the user runs. -/
def runScript (codec : Codec μ) : Script μ → ClientWorld μ → Except Fault (ClientWorld μ)
  | .done, w => .ok w
  | .invoke methodIndex input closure closureData rest, w => do
      let serial := w.invoked
      let w ← invokeClientRpc codec { w with invoked := serial + 1 } methodIndex input
        ⟨serial, closure⟩ closureData fun w => runScript codec (closure none) (w.record serial none)
      runScript codec rest w

/-- `closure (message, closure_data)` -/
def callClosure (codec : Codec μ) (w : ClientWorld μ) (closure : Passed μ) (message : Option μ) :
    Except Fault (ClientWorld μ) :=
  runScript codec (closure.closure message) (w.record closure.serial message)

/-- The loop that calls the closures of a table with NULL. -/
def callClosures (codec : Codec μ) : List (Closure μ) → ClientWorld μ → Except Fault (ClientWorld μ)
  | [], w => .ok w
  | cl :: closures, w => do
      let w ← match cl.responseType, cl.closure with
        | none, _ => pure w
        | some _, none => .error .access
        | some _, some closure => w.callClosure codec closure none
      callClosures codec closures w

/-- The closures of a table that is no longer that of the client are called, and it is freed. -/
def abandonClosures (codec : Codec μ) (w : ClientWorld μ) :
    Option ConnectedInfo → Except Fault (ClientWorld μ)
  | none => .ok w
  | some c => do
      let closures ← w.arrays.load c.closures
      if closures.length < c.closuresAlloced.toNat then .error .access
      else
        let w ← callClosures codec (closures.take c.closuresAlloced.toNat) w
        return { w with arrays := ← w.arrays.free c.closures }

/-- `if (client->fd >= 0)` the file descriptor is closed. -/
def abandonFd (w : ClientWorld μ) : ClientWorld μ :=
  match w.client.fd with
  | none => w
  | some fd =>
      let w := w.closeFd fd
      { w with client := { w.client with fd := none } }

/-! ## Failure -/

/-- The table that `client_failed` takes over, if the client is in a state in which it may fail. -/
def failingTable (client : RpcClient) : Except Fault (Option ConnectedInfo) := do
  match client.state with
  | .nameLookup => if (← client.info.toNameLookup).pending then .error .assertion else return none
  | .connecting => return none
  | .connected => return some (← client.info.toConnected)
  | .init | .failedWaiting | .failed | .destroyed => .error .assertion

/-- `client_failed`, with the format of its message. -/
def clientFailed (codec : Codec μ) (w : ClientWorld μ) (format_str : String) :
    Except Fault (ClientWorld μ) := do
  let closures ← failingTable w.client
  let w := w.abandonFd
  let r := w.errorMessages.alloc format_str
  let client := { w.client with incoming := [], outgoing := [] }
  let w := if client.autoreconnect then
      { w with
        errorMessages := r.2
        timers := w.timers ++ [w.nextHandle]
        nextHandle := w.nextHandle + 1
        client := { client with state := .failedWaiting, info := .failedWaiting w.nextHandle r.1 } }
    else
      { w with
        errorMessages := r.2
        client := { client with state := .failed, info := .failed r.1 } }
  w.abandonClosures codec closures

/-! ## Connecting -/

/-- `set_state_connected` -/
def setStateConnected (w : ClientWorld μ) : ClientWorld μ :=
  let r := w.arrays.alloc [.unused 0]
  { w with
    arrays := r.2
    client := { w.client with state := .connected, info := .connected ⟨1, 1, r.1⟩ }
    sent := [] }

/-- `handle_client_fd_connect_events` -/
def handleClientFdConnectEvents (codec : Codec μ) (w : ClientWorld μ) (error : SocketError) :
    Except Fault (ClientWorld μ) := do
  match error with
  | .none => return (w.watchFd (← w.getFd) 0 none).setStateConnected
  | .ignorable => return w
  | .fatal => (w.closeFd (← w.getFd)).clientFailed codec "failed connecting to server: %s"

/-- `begin_connecting` -/
def beginConnecting (codec : Codec μ) (w : ClientWorld μ) (outcome : ConnectOutcome) :
    Except Fault (ClientWorld μ) := do
  if w.client.state ≠ .nameLookup then .error .assertion
  else
    let open_ (fd : Option ℕ) : ClientWorld μ := { w with
      opened := w.opened ++ fd.toList
      client := { w.client with state := .connecting, fd := fd } }
    match outcome with
    | .noSocket => (open_ none).clientFailed codec "error creating socket: %s"
    | .inProgress fd =>
        return (open_ (some fd)).watchFd fd (eventReadable ||| eventWritable)
          (some .clientConnectEvents)
    | .refused fd =>
        let w := open_ (some fd)
        { w with closed := w.closed ++ [fd], client := { w.client with fd := none } }.clientFailed
          codec "error connecting to remote host: %s"
    | .connected fd => return (open_ (some fd)).setStateConnected

/-! ## Destruction -/

/-- `protobuf_c_dispatch_remove_idle` and `protobuf_c_dispatch_remove_timer` -/
def removeHandle (handles : List ℕ) (handle : ℕ) : Except Fault (List ℕ) :=
  if handle ∈ handles then .ok (handles.erase handle) else .error .release

/-- The part of `destroy_client_rpc` that depends on the state; nothing when it must be put off. -/
def releaseState (w : ClientWorld μ) : Except Fault (ClientWorld μ × Option (Option ConnectedInfo)) := do
  match w.client.state with
  | .init =>
      match w.client.info with
      | .init idle => return ({ w with idles := ← removeHandle w.idles idle }, some none)
      | _ => .error .access
  | .nameLookup =>
      let info ← w.client.info.toNameLookup
      if info.pending then
        return (w.setInfo (.nameLookup { info with destroyedWhilePending := true }), none)
      else return (w, some none)
  | .connecting => return (w, some none)
  | .connected => return (w, some (some (← w.client.info.toConnected)))
  | .failedWaiting =>
      match w.client.info with
      | .failedWaiting timer errorMessage =>
          return ({ w with
            timers := ← removeHandle w.timers timer
            errorMessages := ← w.errorMessages.free errorMessage }, some none)
      | _ => .error .access
  | .failed =>
      match w.client.info with
      | .failed errorMessage =>
          return ({ w with errorMessages := ← w.errorMessages.free errorMessage }, some none)
      | _ => .error .access
  | .destroyed => .error .assertion

/-- `destroy_client_rpc` -/
def destroyClientRpc (codec : Codec μ) (w : ClientWorld μ) : Except Fault (ClientWorld μ) := do
  let (w, closures) ← w.releaseState
  match closures with
  | none => return w
  | some closures =>
      let w := w.abandonFd
      let w := { w with
        client := { w.client with incoming := [], outgoing := [], state := .destroyed } }
      let w ← w.abandonClosures codec closures
      return { w with live := false }

/-! ## Name lookup -/

/-- `handle_name_lookup_success`, up to the address, with what connecting to it does. -/
def handleNameLookupSuccess (codec : Codec μ) (w : ClientWorld μ) (connect : ConnectOutcome) :
    Except Fault (ClientWorld μ) := do
  if w.client.state ≠ .nameLookup then .error .assertion
  else
    let info ← w.client.info.toNameLookup
    if ¬ info.pending then .error .assertion
    else
      let w := w.setInfo (.nameLookup { info with pending := false })
      if info.destroyedWhilePending then w.destroyClientRpc codec
      else w.beginConnecting codec connect

/-- `handle_name_lookup_failure` -/
def handleNameLookupFailure (codec : Codec μ) (w : ClientWorld μ) :
    Except Fault (ClientWorld μ) := do
  if w.client.state ≠ .nameLookup then .error .assertion
  else
    let info ← w.client.info.toNameLookup
    if ¬ info.pending then .error .assertion
    else
      let w := w.setInfo (.nameLookup { info with pending := false })
      if info.destroyedWhilePending then w.destroyClientRpc codec
      else w.clientFailed codec "name lookup failed (for name from %s): %s"

/-- `begin_name_lookup` -/
def beginNameLookup (codec : Codec μ) (w : ClientWorld μ) (lookup : LookupOutcome)
    (connect : ConnectOutcome) : Except Fault (ClientWorld μ) := do
  if w.client.state ≠ .init ∧ w.client.state ≠ .failedWaiting ∧ w.client.state ≠ .failed then
    .error .assertion
  else
    let w := { w with
      client := { w.client with state := .nameLookup, info := .nameLookup ⟨false, false, 0⟩ } }
    match w.client.addressType with
    | .local => w.beginConnecting codec connect
    | .tcp =>
        match w.client.name.findIdx? (· = 58) with
        | none =>
            w.clientFailed codec "name '%s' does not have a : in it (supposed to be HOST:PORT)"
        | some colon =>
            let port := UInt16.ofNat (atoi (w.client.name.drop (colon + 1)) % 2 ^ 16).toNat
            let w := w.setInfo (.nameLookup ⟨true, false, port⟩)
            match lookup with
            | .found => w.handleNameLookupSuccess codec connect
            | .notFound => w.handleNameLookupFailure codec
            | .later => return { w with resolving := true }

/-- `handle_init_idle` -/
def handleInitIdle (codec : Codec μ) (w : ClientWorld μ) (lookup : LookupOutcome)
    (connect : ConnectOutcome) : Except Fault (ClientWorld μ) :=
  if w.client.state ≠ .init then .error .assertion else w.beginNameLookup codec lookup connect

/-- `handle_autoreconnect_timeout` -/
def handleAutoreconnectTimeout (codec : Codec μ) (w : ClientWorld μ) (lookup : LookupOutcome)
    (connect : ConnectOutcome) : Except Fault (ClientWorld μ) := do
  if w.client.state ≠ .failedWaiting then .error .assertion
  else
    match w.client.info with
    | .failedWaiting _ errorMessage =>
        let errorMessages ← w.errorMessages.free errorMessage
        { w with errorMessages := errorMessages }.beginNameLookup codec lookup connect
    | _ => .error .access

/-! ## Responses -/

/-- The part of `handle_client_fd_events` for `PROTOBUF_C_EVENT_WRITABLE`, and whether it goes on. -/
def handleClientWritable (codec : Codec μ) (w : ClientWorld μ) (outcome : WritevOutcome) :
    Except Fault (ClientWorld μ × Bool) := do
  match outcome with
  | .fails => return (← w.clientFailed codec "writing to file-descriptor: %s", false)
  | .ignorable | .accepts _ =>
      let w := { w with client := { w.client with
        outgoing := w.client.outgoing.drop outcome.count } }
      if w.client.outgoing.length = 0 then
        return (w.watchFd (← w.getFd) eventReadable (some .clientEvents), true)
      else return (w, true)

/-- The part for `PROTOBUF_C_EVENT_READABLE`, up to the loop. -/
def handleClientReadable (codec : Codec μ) (w : ClientWorld μ) (outcome : ReadOutcome) :
    Except Fault (ClientWorld μ) := do
  match outcome with
  | .fails => w.clientFailed codec "reading from file-descriptor: %s"
  | .ignorable => return w
  | .received [] =>
      w.clientFailed codec "got end-of-file from server [%u bytes incoming, %u bytes outgoing]"
  | .received data => return { w with
      client := { w.client with incoming := w.client.incoming ++ data }
      responding := true }

/-- `handle_client_fd_events`, up to the loop. -/
def handleClientFdEvents (codec : Codec μ) (w : ClientWorld μ) (writable : Option WritevOutcome)
    (readable : Option ReadOutcome) : Except Fault (ClientWorld μ) := do
  if w.client.state ≠ .connected then .error .assertion
  else
    let (w, go) ← match writable with
      | none => pure (w, true)
      | some outcome => w.handleClientWritable codec outcome
    match readable, go with
    | some outcome, true => w.handleClientReadable codec outcome
    | _, _ => return w

/-- The loop over the responses ends. -/
def stopResponding (w : ClientWorld μ) : ClientWorld μ := { w with responding := false }

/-- What lies behind `closure->closure (msg, closure->closure_data)`: the entry at `closures`, which
was found before the call, is given back. -/
def releaseClosure (w : ClientWorld μ) (closures : ℕ) (request_id : UInt32) :
    Except Fault (ClientWorld μ) := do
  let c ← w.client.info.toConnected
  let arrays ← w.arrays.modify closures fun array =>
    array.set (request_id - 1).toNat (.unused c.firstFreeRequestId)
  return { w with arrays := arrays }.setInfo (.connected { c with firstFreeRequestId := request_id })

/-- One round of the loop over the responses. -/
def respond (codec : Codec μ) (w : ClientWorld μ) : Except Fault (ClientWorld μ) := do
  let incoming := w.client.incoming
  if incoming.length < 16 then return w.stopResponding
  else
    let message_length := headerWord incoming 2
    let request_id := headerWord incoming 3
    if (16 + message_length).toNat > incoming.length then return w.stopResponding
    else
      let c ← w.client.info.toConnected
      let array ← w.arrays.load c.closures
      if request_id > c.closuresAlloced ∨ request_id = 0 then
        w.stopResponding.clientFailed codec "bad request-id in response from server"
      else
        let cl ← readAtIndex array (request_id - 1).toNat
        match cl.responseType with
        | none => w.stopResponding.clientFailed codec "bad request-id in response from server"
        | some responseType =>
            let data := readBlock (incoming.drop 16) message_length.toNat
            let w := { w with client := { w.client with
              incoming := (incoming.drop 16).drop message_length.toNat } }
            match codec.unpack responseType data with
            | none => w.stopResponding.clientFailed codec "failed to unpack message"
            | some msg =>
                match cl.closure with
                | none => .error .access
                | some closure =>
                    (← w.callClosure codec closure (some msg)).releaseClosure c.closures request_id

end ClientWorld

/-- `protobuf_c_rpc_client_new` -/
def rpcClientNew {μ : Type} (self : ℕ) (type : AddressType) (name : List UInt8)
    (descriptor : ServiceDescriptor) (watched : Registered) : ClientWorld μ where
  self := self
  client := ⟨descriptor, [], [], type, name, none, true, 2000, .init, .init 0⟩
  live := true
  arrays := .empty
  errorMessages := .empty
  watched := watched
  idles := [0]
  timers := []
  nextHandle := 1
  resolving := false
  opened := []
  closed := []
  responding := false
  released := false
  invoked := 0
  called := []
  sent := []

end ProtobufC
