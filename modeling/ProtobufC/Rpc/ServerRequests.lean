import ProtobufC.Rpc.RemoteCalls
import ProtobufC.Rpc.ServerInvariant

/-! # The calls that a server has of a connection

The requests that the service has of one connection are calls: each is stored with the number and the
method of its call.  A round of the loop over the requests gives the service the next call of the stream,
and an answer queues the response to its call.
-/

namespace ProtobufC
open Library
set_option autoImplicit false

variable {μ : Type}

/-- What is sent back of the header of a request. -/
def requestView (requests : Store ServerRequest) (r : ℕ) : Option (UInt32 × UInt32) :=
  (requests.get r).map fun q => (q.requestId, q.methodIndex)

/-- The buffers of a connection. -/
def bufferView (connections : Store ServerConnection) (i : ℕ) : Option (List UInt8 × List UInt8) :=
  (connections.get i).map fun c => (c.incoming, c.outgoing)

namespace ServerWorld
variable {codec : Codec μ} {w w' : ServerWorld μ} {conn request rv : ℕ} {c : ServerConnection}
  {request_id method_index : UInt32}

/-! ## What is stored with a request -/

/-- `create_server_request` stores the words of the header, and leaves other requests and the buffers as
they were. -/
structure Stamped (w w' : ServerWorld μ) (rv : ℕ) (request_id method_index : UInt32) : Prop where
  service : w'.service = w.service
  threading : w'.threading = w.threading
  invoked : w'.invoked = w.invoked
  buffers : ∀ i, bufferView w'.connections i = bufferView w.connections i
  new : requestView w'.requests rv = some (request_id, method_index)
  old : ∀ r q, r ≠ rv → w.requests.get r = some q →
    requestView w'.requests r = some (q.requestId, q.methodIndex)

theorem takeServerRequest_kept (h : w.takeServerRequest = .ok (rv, w')) : ∃ requests next,
    w' = { w with requests := requests, recycledRequests := next } ∧
      ∀ r q, w.requests.get r = some q → requests.get r = some q := by
  unfold takeServerRequest at h
  cases hrecycled : w.recycledRequests with
  | none =>
    rw [hrecycled] at h
    obtain ⟨rfl, rfl⟩ := Prod.mk.inj (Except.ok.inj h)
    exact ⟨_, none, rfl, fun r q hq => Store.get_alloc_old hq _⟩
  | some first =>
    rw [hrecycled] at h
    obtain ⟨q, -, h⟩ := except_bind_eq_ok h
    cases hinfo : q.info with
    | recycled next =>
      rw [hinfo] at h
      obtain ⟨rfl, rfl⟩ := Prod.mk.inj (Except.ok.inj h)
      exact ⟨w.requests, next, rfl, fun _ _ hq => hq⟩
    | alive links =>
      rw [hinfo] at h
      exact absurd h (by simp)
    | defunct =>
      rw [hinfo] at h
      exact absurd h (by simp)

theorem bufferView_write {connections connections' : Store ServerConnection} {c' : ServerConnection}
    (hc : connections.get conn = some c) (h : connections.write conn c' = .ok connections')
    (hincoming : c'.incoming = c.incoming) (houtgoing : c'.outgoing = c.outgoing) (i : ℕ) :
    bufferView connections' i = bufferView connections i := by
  obtain rfl := Except.ok.inj ((Store.write_ok hc c').symm.trans h)
  unfold bufferView
  rw [Store.get_set hc]
  by_cases hi : i = conn
  · rw [if_pos hi, hi, hc, Option.map_some, Option.map_some, hincoming, houtgoing]
  · rw [if_neg hi]

theorem createServerRequest_stamped
    (h : w.createServerRequest conn request_id method_index = .ok (rv, w')) :
    Stamped w w' rv request_id method_index := by
  unfold createServerRequest at h
  obtain ⟨⟨rv', w₁⟩, htake, h⟩ := except_bind_eq_ok h
  obtain ⟨requests, next, rfl, hkept⟩ := takeServerRequest_kept htake
  obtain ⟨requests₁, hmodify, h⟩ := except_bind_eq_ok h
  obtain ⟨c, hload, h⟩ := except_bind_eq_ok h
  obtain ⟨⟨requests₂, ends⟩, happend, h⟩ := except_bind_eq_ok h
  obtain ⟨connections, hwrite, h⟩ := except_bind_eq_ok h
  obtain ⟨rfl, rfl⟩ := Prod.mk.inj (Except.ok.inj h)
  obtain ⟨q, hq, -⟩ := except_bind_eq_ok hmodify
  have hq := Store.load_ok.mp hq
  obtain rfl := Except.ok.inj ((Store.modify_ok hq _).symm.trans hmodify)
  have hview : ∀ r, requestView requests₂ r = requestView _ r :=
    fun r => (listAppend_sameBare happend).map (fun _ _ => rfl) r
  refine ⟨rfl, rfl, rfl, bufferView_write (Store.load_ok.mp hload) hwrite rfl rfl, ?_,
    fun r q' hr hq' => ?_⟩
  · rw [hview]
    unfold requestView
    rw [Store.get_set hq, if_pos rfl]
    rfl
  · rw [hview]
    unfold requestView
    rw [Store.get_set hq, if_neg hr, hkept r q' hq']
    rfl

/-- The bytes of an answer go to the buffer of its connection, and nothing else does. -/
structure Appended (w w' : ServerWorld μ) (conn : ℕ) (data : List UInt8) : Prop where
  service : w'.service = w.service
  threading : w'.threading = w.threading
  invoked : w'.invoked = w.invoked
  buffers : ∀ i, bufferView w'.connections i = (bufferView w.connections i).map fun b =>
    (b.1, if i = conn then b.2 ++ data else b.2)
  headers : ∀ r, requestView w'.requests r = requestView w.requests r

theorem queueResponse_appended {data : List UInt8} (h : w.queueResponse conn request data = .ok w') :
    Appended w w' conn data := by
  unfold queueResponse at h
  obtain ⟨c, hload, h⟩ := except_bind_eq_ok h
  have hc := Store.load_ok.mp hload
  obtain ⟨watched, hwatched⟩ : ∃ watched, (if c.outgoing.length = 0 then
      w.watchConnection c.fd (eventReadable ||| eventWritable) conn else w) =
      { w with watched := watched } := by
    by_cases hempty : c.outgoing.length = 0
    · exact ⟨_, if_pos hempty⟩
    · exact ⟨w.watched, if_neg hempty⟩
  simp only [hwatched] at h
  obtain ⟨⟨requests, ends⟩, hremove, h⟩ := except_bind_eq_ok h
  obtain ⟨connections, hwrite, h⟩ := except_bind_eq_ok h
  obtain rfl := Except.ok.inj ((Store.write_ok hc _).symm.trans hwrite)
  unfold freeServerRequest at h
  obtain ⟨requests', hmodify, h⟩ := except_bind_eq_ok h
  obtain rfl := Except.ok.inj h
  obtain ⟨q, hq, -⟩ := except_bind_eq_ok hmodify
  have hq := Store.load_ok.mp hq
  obtain rfl := Except.ok.inj ((Store.modify_ok hq _).symm.trans hmodify)
  refine ⟨rfl, rfl, rfl, fun i => ?_, fun r => ?_⟩
  · unfold bufferView
    show ((Store.mk (w.connections.cells.set conn _)).get i).map _ = _
    rw [Store.get_set hc]
    by_cases hi : i = conn
    · subst hi
      rw [if_pos rfl, hc]
      simp
    · rw [if_neg hi, Option.map_map]
      congr 1
      funext c'
      rw [Function.comp_apply, if_neg hi]
  · have hbare : requestView requests r = requestView w.requests r :=
      (listRemove_sameBare hremove).map (fun _ _ => rfl) r
    rw [← hbare]
    unfold requestView
    show ((Store.mk (requests.cells.set request _)).get r).map _ = _
    rw [Store.get_set hq]
    by_cases hr : r = request
    · rw [if_pos hr, hr]
      show _ = (requests.get request).map _
      rw [show requests.get request = some q from hq]
      rfl
    · rw [if_neg hr]

/-! ## A connection and the calls that the service has of it -/

/-- What was received, and what is still to be written. -/
def buffers (w : ServerWorld μ) (conn : ℕ) : List UInt8 × List UInt8 :=
  (bufferView w.connections conn).getD ([], [])

/-- The connection is open, and the service has these calls of it, each under its number. -/
structure Carries (w : ServerWorld μ) (conn : ℕ) (given : List (ℕ × RemoteCall μ)) : Prop where
  inv : w.Inv True []
  direct : w.threading = false
  connection : ∃ c, w.connections.get conn = some c
  pending : ∀ r, placeOf w.requests r = some (.pending conn) ↔ r ∈ given.map Prod.fst
  header : ∀ g ∈ given, requestView w.requests g.1 =
    some (g.2.requestId, UInt32.ofNat g.2.methodIndex)
  writes : ∀ writable, w.receiving = some (conn, writable) → writable ≠ some .fails

/-- What a step does at the two ends of each buffer of the connection, and what the service is given. -/
structure Move (w w' : ServerWorld μ) (conn : ℕ) (received taken written queued : List UInt8)
    (given : List (ℕ × μ)) : Prop where
  incoming : taken ++ (w'.buffers conn).1 = (w.buffers conn).1 ++ received
  outgoing : written ++ (w'.buffers conn).2 = (w.buffers conn).2 ++ queued
  invoked : w'.invoked = w.invoked ++ given
  service : w'.service = w.service

variable {given : List (ℕ × RemoteCall μ)} {writable : Option WritevOutcome}
  {readable : Option ReadOutcome}

theorem buffers_of_get (hc : w.connections.get conn = some c) :
    w.buffers conn = (c.incoming, c.outgoing) := by
  unfold buffers bufferView
  rw [hc]
  rfl

theorem get_of_set (hc : w.connections.get conn = some c) {c' : ServerConnection}
    (hw' : w'.connections = ⟨w.connections.cells.set conn (some c')⟩) :
    w'.connections.get conn = some c' := by
  rw [hw', Store.get_set hc, if_pos rfl]

/-- The buffers and the loop play no part. -/
theorem Carries.rebuffered (h : w.Carries conn given) (hinv : w'.Inv True [])
    (hrequests : w'.requests = w.requests) (hthreading : w'.threading = w.threading)
    (hconnection : ∃ c, w'.connections.get conn = some c)
    (hwrites : ∀ writable, w'.receiving = some (conn, writable) → writable ≠ some .fails) :
    w'.Carries conn given :=
  ⟨hinv, hthreading.trans h.direct, hconnection, by rw [hrequests]; exact h.pending,
    by rw [hrequests]; exact h.header, hwrites⟩

/-- What is written leaves the buffer. -/
theorem handleServerWritable_alive (hc : w.connections.get conn = some c)
    (hwrites : writable ≠ some .fails) : ∃ watched,
      w.handleServerWritable conn writable = .ok { w with
        connections := ⟨w.connections.cells.set conn
          (some { c with outgoing := c.outgoing.drop (writeCount writable) })⟩
        watched := watched } := by
  unfold handleServerWritable
  cases writable with
  | none =>
    refine ⟨w.watched, ?_⟩
    show _ = Except.ok { w with connections := ⟨w.connections.cells.set conn (some c)⟩ }
    rw [Store.set_get hc]
    rfl
  | some outcome =>
    simp only [Store.load_ok.mpr hc, except_ok_bind]
    by_cases hpos : c.outgoing.length > 0
    · have hgo : ∀ outcome : WritevOutcome, ∃ watched, ((do
            let connections ← w.connections.write conn
              { c with outgoing := c.outgoing.drop outcome.count }
            return if (c.outgoing.drop outcome.count).length = 0 then
              ({ w with connections := connections }.watchConnection c.fd eventReadable conn)
              else { w with connections := connections }) : Except Fault (ServerWorld μ)) = .ok { w with
          connections := ⟨w.connections.cells.set conn
            (some { c with outgoing := c.outgoing.drop outcome.count })⟩
          watched := watched } := by
        intro outcome
        simp only [Store.write_ok hc, except_ok_bind]
        by_cases hleft : (c.outgoing.drop outcome.count).length = 0
        · rw [if_pos hleft]
          exact ⟨_, rfl⟩
        · rw [if_neg hleft]
          exact ⟨w.watched, rfl⟩
      rw [if_pos hpos]
      cases outcome with
      | fails => exact absurd rfl hwrites
      | ignorable => exact hgo .ignorable
      | accepts count => exact hgo (.accepts count)
    · have hempty : c.outgoing = [] := List.length_eq_zero_iff.mp (by omega)
      have hsame : { c with outgoing := c.outgoing.drop (writeCount (some outcome)) } = c := by
        rw [hempty, List.drop_nil, ← hempty]
      rw [if_neg hpos, hsame, Store.set_get hc]
      exact ⟨w.watched, rfl⟩

/-- The connection is written to outside the loop over the requests. -/
theorem Carries.written (h : w.Carries conn given) (hnone : w.receiving = none)
    (hwrites : writable ≠ some .fails) :
    ∃ w', w.handleServerWritable conn writable = .ok w' ∧ w'.Carries conn given ∧ w'.receiving = none ∧
      w.Move w' conn [] [] ((w.buffers conn).2.take (writeCount writable)) [] [] := by
  obtain ⟨c, hc⟩ := h.connection
  obtain ⟨watched, hok⟩ := handleServerWritable_alive hc hwrites
  obtain ⟨w', hok', hinv, -⟩ := handleServerWritable_inv h.inv hnone hc writable
  have heq := Except.ok.inj (hok'.symm.trans hok)
  have hget : w'.connections.get conn =
      some { c with outgoing := c.outgoing.drop (writeCount writable) } := get_of_set hc (by rw [heq])
  have hbuffers := buffers_of_get hget
  have hreceiving : w'.receiving = none := by rw [heq]; exact hnone
  refine ⟨w', hok', h.rebuffered hinv (by rw [heq]) (by rw [heq]) ⟨_, hget⟩
    fun _ hr => absurd (hr.symm.trans hreceiving) (by simp), hreceiving, ?_, ?_, ?_, by rw [heq]⟩
  · rw [hbuffers, buffers_of_get hc, List.append_nil]
    rfl
  · rw [hbuffers, buffers_of_get hc, List.append_nil]
    exact List.take_append_drop _ _
  · rw [heq]
    exact (List.append_nil _).symm

/-! ## Steps -/

variable (codec) in
/-- The dispatcher reports the connection. -/
theorem Carries.events (h : w.Carries conn given) (hnone : w.receiving = none)
    (hwrites : writable ≠ some .fails) (halive : Alive readable)
    (hregistered : w.registeredFor conn (ClientWorld.reported writable readable) = true) :
    ∃ w', w.step codec (.events conn readable writable) = .ok w' ∧ w'.Carries conn given ∧
      w.Move w' conn (receivedBytes readable) []
        (if w'.receiving.isNone then (w.buffers conn).2.take (writeCount writable) else []) [] [] := by
  have hstep : w.step codec (.events conn readable writable) =
      w.handleServerConnectionEvents conn readable writable :=
    if_pos ⟨Option.isNone_iff_eq_none.mpr hnone, hregistered⟩
  have hwritten : w.handleServerConnectionEvents conn readable writable =
      w.handleServerWritable conn writable → receivedBytes readable = [] →
      ∃ w', w.step codec (.events conn readable writable) = .ok w' ∧ w'.Carries conn given ∧
        w.Move w' conn (receivedBytes readable) []
          (if w'.receiving.isNone then (w.buffers conn).2.take (writeCount writable) else []) [] [] := by
    intro hsame hbytes
    obtain ⟨w', hok, hcarries, hreceiving, hmove⟩ := h.written hnone hwrites
    refine ⟨w', hstep.trans (hsame.trans hok), hcarries, ?_⟩
    rw [hreceiving, hbytes]
    exact hmove
  cases readable with
  | none => exact hwritten rfl rfl
  | some outcome =>
    cases outcome with
    | ignorable => exact hwritten rfl rfl
    | fails => exact absurd rfl halive.1
    | received data =>
      cases data with
      | nil => exact absurd rfl halive.2
      | cons b data =>
        obtain ⟨c, hc⟩ := h.connection
        obtain ⟨w', hok, hinv, -⟩ := handleServerConnectionEvents_inv h.inv hnone hc
          (some (.received (b :: data))) writable
        have hrun : w.handleServerConnectionEvents conn (some (.received (b :: data))) writable =
            .ok { w with
              connections := ⟨w.connections.cells.set conn (some { c with
                incoming := c.incoming ++ b :: data })⟩
              receiving := some (conn, writable) } := by
          unfold handleServerConnectionEvents
          simp only [Store.modify_ok hc, except_ok_bind]
          rfl
        have heq := Except.ok.inj (hok.symm.trans hrun)
        have hget : w'.connections.get conn = some { c with incoming := c.incoming ++ b :: data } :=
          get_of_set hc (by rw [heq])
        have hreceiving : w'.receiving = some (conn, writable) := by rw [heq]
        refine ⟨w', hstep.trans hok, h.rebuffered hinv (by rw [heq]) (by rw [heq]) ⟨_, hget⟩
          fun writable' hr => ?_, ?_, ?_, ?_, by rw [heq]⟩
        · obtain rfl : writable = writable' := by simpa using hreceiving.symm.trans hr
          exact hwrites
        · rw [buffers_of_get hget, buffers_of_get hc]
          rfl
        · rw [buffers_of_get hget, buffers_of_get hc, hreceiving, List.append_nil]
          rfl
        · rw [heq]
          exact (List.append_nil _).symm

variable (codec) in
/-- The loop over the requests ends where it waits for more bytes, and the connection is written to. -/
theorem Carries.stops (h : w.Carries conn given) (hreceiving : w.receiving = some (conn, writable))
    (hwait : (w.buffers conn).1.length < 12 ∨
      (w.buffers conn).1.length < (12 + headerWord (w.buffers conn).1 1).toNat) :
    ∃ w', w.step codec .receive = .ok w' ∧ w'.Carries conn given ∧ w'.receiving = none ∧
      w.Move w' conn [] [] ((w.buffers conn).2.take (writeCount writable)) [] [] := by
  obtain ⟨c, hc⟩ := h.connection
  rw [buffers_of_get hc] at hwait
  have hstop : w.stopReceiving.Carries conn given :=
    h.rebuffered (h.inv.congr ⟨rfl, rfl, rfl, rfl, rfl, rfl⟩ rfl rfl rfl (fun _ => rfl) (fun _ => rfl)
      fun _ _ hr => absurd hr (by simp [stopReceiving])) rfl rfl ⟨c, hc⟩
      fun _ hr => absurd hr (by simp [stopReceiving])
  obtain ⟨w', hok, hcarries, hnone, hmove⟩ := hstop.written rfl (h.writes writable hreceiving)
  refine ⟨w', ?_, hcarries, hnone, hmove.incoming, hmove.outgoing, hmove.invoked, hmove.service⟩
  unfold step
  simp only [hreceiving]
  unfold receive
  simp only [Store.load_ok.mpr hc, except_ok_bind]
  by_cases hshort : c.incoming.length < 12
  · rw [if_pos hshort]
    exact hok
  · rw [if_neg hshort, if_pos (hwait.resolve_left hshort)]
    exact hok

/-- The service is given the call at the front of the buffer. -/
theorem Carries.gives (h : w.Carries conn given) (hreceiving : w.receiving = some (conn, writable))
    {call : RemoteCall μ} {more : List UInt8} (hin : (w.buffers conn).1 = call.request codec ++ more)
    (hmethod : w.service.methods[call.methodIndex]? = some call.method)
    (hindex : call.methodIndex < 2 ^ 32) (hsmall : 12 + (codec.pack call.input).length < 2 ^ 32)
    {message : μ} (hread : codec.unpack call.method.input (codec.pack call.input) = some message) :
    ∃ w' rv, w.step codec .receive = .ok w' ∧ w'.Carries conn (given ++ [(rv, call)]) ∧
      rv ∉ given.map Prod.fst ∧ w'.receiving = w.receiving ∧
      w.Move w' conn [] (call.request codec) [] [] [(rv, message)] := by
  obtain ⟨c, hc⟩ := h.connection
  rw [buffers_of_get hc] at hin
  have hin : c.incoming = call.request codec ++ more := hin
  obtain ⟨hword₀, hword₁, hword₂⟩ := call.headerWord_request codec more
  rw [← hin] at hword₀ hword₁ hword₂
  have hlength := congrArg List.length hin
  rw [List.length_append, call.length_request] at hlength
  have hsize : (headerWord c.incoming 1).toNat = (codec.pack call.input).length := by
    rw [hword₁, UInt32.toNat_ofNat', Nat.mod_eq_of_lt (by omega)]
  have hwhole : ¬ c.incoming.length < (12 + headerWord c.incoming 1).toNat := by
    rw [UInt32.toNat_add, hsize]
    show ¬ _ < (12 + _) % 2 ^ 32
    omega
  have hrest : (c.incoming.drop 12).drop (headerWord c.incoming 1).toNat = more := by
    rw [hsize, hin, call.drop_request, List.drop_left]
  have hblock : readBlock (c.incoming.drop 12) (headerWord c.incoming 1).toNat =
      codec.pack call.input := by
    rw [hsize, hin, call.drop_request, readBlock_append]
  have hfound : w.service.methods[(headerWord c.incoming 0).toNat]? = some call.method := by
    rw [hword₀, UInt32.toNat_ofNat', Nat.mod_eq_of_lt hindex, hmethod]
  -- the request is created with the bytes taken out of the buffer
  let w₁ : ServerWorld μ := { w with
    connections := ⟨w.connections.cells.set conn (some { c with incoming := more })⟩ }
  have hc₁ : w₁.connections.get conn = some { c with incoming := more } := get_of_set hc rfl
  obtain ⟨pending, recycled, hlaid⟩ := h.inv.core.laid
  have hlaid₁ : w₁.LaidOut pending recycled :=
    hlaid.congr rfl rfl (pendingView_write hc { c with incoming := more } rfl rfl)
  obtain ⟨rv, w₂, recycled', hcreate, hcreated, -⟩ :=
    createServerRequest_spec hlaid₁ hc₁ (headerWord c.incoming 2) (headerWord c.incoming 0)
  have hstamped := createServerRequest_stamped hcreate
  have hrun : w.receive codec conn writable = .ok (w₂.invokeService rv message) := by
    unfold receive
    simp only [Store.load_ok.mpr hc, except_ok_bind, if_neg hwhole, hfound, Store.write_ok hc, hrest,
      hblock, hread]
    rw [if_neg (by omega)]
    have hcreate' : createServerRequest { w with
        connections := ⟨w.connections.cells.set conn (some { c with incoming := more })⟩ } conn
          (headerWord c.incoming 2) (headerWord c.incoming 0) = .ok (rv, w₂) := hcreate
    simp only [hcreate', except_ok_bind]
    rfl
  obtain ⟨w', hok, hinv, -⟩ := receive_inv codec h.inv hc writable
  obtain rfl := Except.ok.inj (hrun.symm.trans hok)
  have hview : bufferView w₂.connections conn = some (more, c.outgoing) := by
    rw [hstamped.buffers]
    unfold bufferView
    rw [hc₁]
    rfl
  obtain ⟨c₂, hc₂, -⟩ := Option.map_eq_some_iff.mp hview
  have hbuffers : (w₂.invokeService rv message).buffers conn = (more, c.outgoing) :=
    congrArg (Option.getD · ([], [])) hview
  have hfresh : rv ∉ given.map Prod.fst := by
    intro hmem
    exact not_inService_of_fresh hcreated (.inr ⟨conn, (h.pending rv).mpr hmem⟩)
  refine ⟨_, rv, ?_, ⟨hinv, hstamped.threading.trans h.direct, ⟨c₂, hc₂⟩, fun r => ?_, fun g hg => ?_, ?_⟩,
    hfresh, hcreated.receiving, ?_, ?_, ?_, hstamped.service⟩
  · unfold step
    simp only [hreceiving]
    exact hrun
  · show placeOf w₂.requests r = _ ↔ _
    rw [hcreated.placed r, List.map_append, List.mem_append, ← h.pending r]
    by_cases hr : r = rv
    · rw [if_pos hr]
      simp [hr]
    · rw [if_neg hr]
      simp [hr, w₁]
  · show requestView w₂.requests g.1 = _
    obtain hg | hg := List.mem_append.mp hg
    · have hmem : g.1 ∈ given.map Prod.fst := List.mem_map_of_mem hg
      have hne : g.1 ≠ rv := fun heq => hfresh (heq ▸ hmem)
      obtain ⟨q, hq, -⟩ := placeOf_eq_some ((h.pending g.1).mpr hmem)
      have hheader := h.header g hg
      unfold requestView at hheader
      rw [hq] at hheader
      exact (hstamped.old g.1 q hne hq).trans hheader
    · obtain rfl := List.mem_singleton.mp hg
      rw [hstamped.new, hword₀, hword₂]
  · intro writable' hr
    exact h.writes writable' (hcreated.receiving.symm.trans hr)
  · rw [hbuffers, buffers_of_get hc, List.append_nil]
    exact hin.symm
  · rw [hbuffers, buffers_of_get hc, List.append_nil]
    rfl
  · show w₂.invoked ++ _ = _
    rw [hstamped.invoked]

theorem responseBytes_eq {q : ServerRequest} {call : RemoteCall μ} (hid : q.requestId = call.requestId)
    (hindex : q.methodIndex = UInt32.ofNat call.methodIndex) (message : Option μ) :
    responseBytes codec q message = call.response codec message := by
  unfold responseBytes RemoteCall.response RemoteCall.status Codec.reply
  rw [hid, hindex]
  cases message with
  | none => exact (List.append_nil _).symm
  | some message => rfl

variable (codec) in
/-- The service answers a call. -/
theorem Carries.answers (h : w.Carries conn given) {call : RemoteCall μ} (hgiven : (request, call) ∈ given)
    (message : Option μ) (inRpcThread : Bool) (write : ProxyWrite) :
    ∃ w', w.step codec (.answer request message inRpcThread write) = .ok w' ∧
      w'.Carries conn (given.filter fun g => g.1 ≠ request) ∧ w'.receiving = w.receiving ∧
      w.Move w' conn [] [] [] (call.response codec message) [] := by
  have hplace := (h.pending request).mpr (List.mem_map_of_mem hgiven)
  have howed : request ∈ w.owed := by
    have hawaited := h.inv.core.serving.owes trivial request (.inr ⟨conn, hplace⟩)
    unfold awaited at hawaited
    simpa using hawaited
  obtain ⟨q, hq, hqplace⟩ := placeOf_eq_some hplace
  obtain ⟨hid, hindex⟩ : q.requestId = call.requestId ∧ q.methodIndex = UInt32.ofNat call.methodIndex := by
    have hheader := h.header (request, call) hgiven
    unfold requestView at hheader
    rw [hq] at hheader
    exact Prod.mk.inj (Option.some.inj hheader)
  obtain ⟨w', hok, hinv, -⟩ := queueResponse_inv h.inv howed hplace (call.response codec message)
  have harranged : ({ w with owed := w.owed.erase request } : ServerWorld μ).Arranged :=
    h.inv.core.toArranged.congr rfl rfl rfl rfl rfl
  obtain ⟨w₁, hok₁, hresponded, -⟩ := queueResponse_arranged harranged hplace (call.response codec message)
  obtain rfl := Except.ok.inj (hok.symm.trans hok₁)
  have happended := queueResponse_appended hok
  obtain ⟨c, hc⟩ := h.connection
  have hview : bufferView w'.connections conn =
      some (c.incoming, c.outgoing ++ call.response codec message) := by
    rw [happended.buffers]
    unfold bufferView
    rw [hc, Option.map_some, Option.map_some, if_pos rfl]
  obtain ⟨c', hc', -⟩ := Option.map_eq_some_iff.mp hview
  have hbuffers : w'.buffers conn = (c.incoming, c.outgoing ++ call.response codec message) :=
    congrArg (Option.getD · ([], [])) hview
  refine ⟨w', ?_, ⟨hinv, happended.threading.trans h.direct, ⟨c', hc'⟩, fun r => ?_, fun g hg => ?_, ?_⟩,
    hresponded.receiving, ?_, ?_, ?_, happended.service⟩
  · have hproxy : ¬ (w.threading = true ∧ inRpcThread = false) := by
      rw [h.direct]
      simp
    unfold step serverConnectionResponseClosure
    simp only [if_pos howed, Store.load_ok.mpr hq, except_ok_bind, if_neg hproxy, (place_pending hqplace).1,
      responseBytes_eq hid hindex]
    exact hok
  · rw [hresponded.placed r]
    by_cases hr : r = request
    · rw [if_pos hr, hr]
      simp
    · rw [if_neg hr]
      refine (h.pending r).trans ⟨fun hmem => ?_, fun hmem => ?_⟩
      · obtain ⟨g, hg, rfl⟩ := List.mem_map.mp hmem
        exact List.mem_map_of_mem (List.mem_filter.mpr ⟨hg, decide_eq_true hr⟩)
      · obtain ⟨g, hg, rfl⟩ := List.mem_map.mp hmem
        exact List.mem_map_of_mem (List.mem_filter.mp hg).1
  · rw [happended.headers]
    exact h.header g (List.mem_filter.mp hg).1
  · intro writable hr
    exact h.writes writable (hresponded.receiving.symm.trans hr)
  · rw [hbuffers, buffers_of_get hc, List.append_nil]
    rfl
  · rw [hbuffers, buffers_of_get hc]
    rfl
  · rw [happended.invoked]
    exact (List.append_nil _).symm

end ServerWorld

end ProtobufC
