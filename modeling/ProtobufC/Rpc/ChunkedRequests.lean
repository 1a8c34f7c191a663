import ProtobufC.Rpc.ClientMachine
import ProtobufC.Rpc.Framing
import ProtobufC.Rpc.Server

/-! # Requests that come in pieces

A server reads the stream of a connection in pieces, and the loop over the requests runs after each of them.
A round of the loop is one delivery of a frame (`receive_setIncoming`); so the server ends where one that is
given the whole stream at once ends, as long as no header makes the size test wrap
(`readRequests_exact_iff`).
-/

namespace ProtobufC
open Library
set_option autoImplicit false

variable {μ : Type}

namespace ServerWorld
variable {codec : Codec μ} {w w' : ServerWorld μ} {conn : ℕ}

/-! ## The loop of the server -/

/-- The loop over the requests of a connection. -/
def requestLoop (codec : Codec μ) : ℕ → ServerWorld μ → Except Fault (ServerWorld μ)
  | 0, w => if w.receiving.isSome then .error .hang else .ok w
  | fuel + 1, w =>
      match w.receiving with
      | none => .ok w
      | some (conn, writable) => do requestLoop codec fuel (← w.receive codec conn writable)

/-- `handle_server_connection_events` is called for every piece, as long as the connection is there. -/
def readRequests (codec : Codec μ) (conn : ℕ) :
    List (List UInt8) → ServerWorld μ → Except Fault (ServerWorld μ)
  | [], w => .ok w
  | piece :: pieces, w =>
      match w.connections.get conn with
      | none => .ok w
      | some c => do
          let w ← w.handleServerConnectionEvents conn (some (.received piece)) none
          let w ← w.requestLoop codec ((c.incoming ++ piece).length + 1)
          readRequests codec conn pieces w

def setIncoming (w : ServerWorld μ) (conn : ℕ) (bs : List UInt8) : ServerWorld μ :=
  { w with connections := w.connections.mapAt conn fun c => { c with incoming := bs } }

/-- What is done with a request; false when the connection is closed. -/
def deliverRequest (codec : Codec μ) (conn : ℕ) (w : ServerWorld μ) (frame : RpcFrame) :
    Except Fault (ServerWorld μ × Bool) :=
  match w.service.methods[(headerWord frame.header 0).toNat]? with
  | none => do
      return (← w.stopReceiving.serverConnectionFailed conn .badRequest "bad method_index %u", false)
  | some method =>
      match codec.unpack method.input frame.payload with
      | none => do
          return (← w.stopReceiving.serverConnectionFailed conn .badRequest "error unpacking message",
            false)
      | some message => do
          let (rv, w) ← w.createServerRequest conn (headerWord frame.header 2) (headerWord frame.header 0)
          return (w.invokeService rv message, true)

/-- The stream is taken apart at once, and its requests are delivered in order. -/
def parseRequests (codec : Codec μ) (conn : ℕ) (w : ServerWorld μ) (stream : List UInt8) :
    Except Fault (ServerWorld μ) := do
  let (frames, rest) := requestFormat.exact.parse stream
  let (w, go) ← FrameReader.deliverAll (deliverRequest codec conn) frames
    { w with receiving := some (conn, none) }
  return if go then (w.setIncoming conn rest).stopReceiving else w

/-! ## What does not look at the buffer -/

theorem serverConnectionFailed_setIncoming (w : ServerWorld μ) (conn : ℕ) (bs : List UInt8)
    (code : RpcErrorCode) (format : String) :
    (w.setIncoming conn bs).serverConnectionFailed conn code format =
      w.serverConnectionFailed conn code format := by
  unfold serverConnectionFailed serverConnectionClose
  have hload : ((w.setIncoming conn bs).serverFailedLiteral code format).connections.load conn =
      (w.connections.load conn).map fun c => { c with incoming := bs } := by
    refine (Store.load_mapAt w.connections conn).trans ?_
    simp only [if_true]
  rw [hload]
  change _ = (w.connections.load conn >>= _)
  cases w.connections.load conn with
  | error e => rfl
  | ok c =>
    have hlinks : ∀ c : ServerConnection,
        connectionHook.links { c with incoming := bs } = connectionHook.links c := fun _ => rfl
    have hset : ∀ (c : ServerConnection) k, connectionHook.setLinks { c with incoming := bs } k =
        { connectionHook.setLinks c k with incoming := bs } := fun _ _ => rfl
    change (listRemove connectionHook (w.connections.mapAt conn _) w.connectionEnds conn >>= _) =
      (listRemove connectionHook w.connections w.connectionEnds conn >>= _)
    rw [listRemove_mapAt hlinks hset]
    cases listRemove connectionHook w.connections w.connectionEnds conn with
    | error e => rfl
    | ok r =>
      change (disassociateLoop (w.requests.cells.length + 1) w.requests c.firstPendingRequest >>= _) =
        (disassociateLoop (w.requests.cells.length + 1) w.requests c.firstPendingRequest >>= _)
      cases disassociateLoop (w.requests.cells.length + 1) w.requests c.firstPendingRequest with
      | error e => rfl
      | ok requests =>
        change ((r.1.mapAt conn _).free conn >>= _) = (r.1.free conn >>= _)
        rw [Store.free_mapAt_self]
        rfl

theorem takeServerRequest_setIncoming (w : ServerWorld μ) (conn : ℕ) (bs : List UInt8) :
    (w.setIncoming conn bs).takeServerRequest =
      w.takeServerRequest.map fun r => (r.1, r.2.setIncoming conn bs) := by
  have hrecycled : (w.setIncoming conn bs).recycledRequests = w.recycledRequests := rfl
  unfold takeServerRequest
  rw [hrecycled]
  cases w.recycledRequests with
  | none => rfl
  | some rv =>
    change (w.requests.load rv >>= _) = Except.map _ (w.requests.load rv >>= _)
    cases w.requests.load rv with
    | error e => rfl
    | ok request =>
      simp only [except_ok_bind]
      cases request.info with
      | alive links => rfl
      | defunct => rfl
      | recycled next => rfl

theorem createServerRequest_setIncoming (w : ServerWorld μ) (conn : ℕ) (bs : List UInt8)
    (request_id method_index : UInt32) :
    (w.setIncoming conn bs).createServerRequest conn request_id method_index =
      (w.createServerRequest conn request_id method_index).map fun r => (r.1, r.2.setIncoming conn bs) := by
  unfold createServerRequest
  rw [takeServerRequest_setIncoming]
  cases w.takeServerRequest with
  | error e => rfl
  | ok r =>
    obtain ⟨rv, w₁⟩ := r
    change (w₁.requests.modify rv _ >>= _) = Except.map _ (w₁.requests.modify rv _ >>= _)
    cases w₁.requests.modify rv _ with
    | error e => rfl
    | ok requests =>
      have hload : (w₁.setIncoming conn bs).connections.load conn =
          (w₁.connections.load conn).map fun c => { c with incoming := bs } := by
        refine (Store.load_mapAt w₁.connections conn).trans ?_
        simp only [if_true]
      change ((w₁.setIncoming conn bs).connections.load conn >>= _) =
        Except.map _ (w₁.connections.load conn >>= _)
      rw [hload]
      cases w₁.connections.load conn with
      | error e => rfl
      | ok c =>
        change (listAppend requestHook requests c.pendingEnds rv >>= _) =
          Except.map _ (listAppend requestHook requests c.pendingEnds rv >>= _)
        cases listAppend requestHook requests c.pendingEnds rv with
        | error e => rfl
        | ok r =>
          have hwrite := Store.write_mapAt (i := conn)
            (g := fun c : ServerConnection => { c with incoming := bs }) w₁.connections conn { c with
              nPendingRequests := c.nPendingRequests + 1
              firstPendingRequest := r.2.first
              lastPendingRequest := r.2.last }
          rw [if_pos rfl] at hwrite
          change ((w₁.connections.mapAt conn _).write conn _ >>= _) =
            Except.map _ (w₁.connections.write conn _ >>= _)
          rw [hwrite]
          cases w₁.connections.write conn _ with
          | error e => rfl
          | ok connections => rfl

/-! ## Rounds of the loop -/

theorem failed_setIncoming (w : ServerWorld μ) (conn : ℕ) (bs : List UInt8) (code : RpcErrorCode)
    (format : String) : (w.setIncoming conn bs).stopReceiving.serverConnectionFailed conn code format =
      w.stopReceiving.serverConnectionFailed conn code format :=
  serverConnectionFailed_setIncoming w.stopReceiving conn bs code format

theorem get_setIncoming {c : ServerConnection} (hc : w.connections.get conn = some c) (bs : List UInt8) :
    (w.setIncoming conn bs).connections.get conn = some { c with incoming := bs } := by
  refine (Store.get_mapAt w.connections conn _ conn).trans ?_
  rw [if_pos rfl, hc]
  rfl

theorem write_setIncoming {c : ServerConnection} (hc : w.connections.get conn = some c)
    (bs rest : List UInt8) :
    (w.setIncoming conn bs).connections.write conn { c with incoming := rest } =
      .ok (w.setIncoming conn rest).connections := by
  rw [Store.write_ok (get_setIncoming hc bs)]
  change Except.ok (Store.mk ((w.connections.mapAt conn _).cells.set conn _)) =
    Except.ok (w.connections.mapAt conn _)
  rw [Store.set_mapAt_self, Store.mapAt_of_some hc]

/-- A round of the loop delivers the frame at the front of the buffer, if there is one. -/
theorem receive_setIncoming {c : ServerConnection} (hc : w.connections.get conn = some c)
    (bs : List UInt8) :
    (w.setIncoming conn bs).receive codec conn none = match requestFormat.loop.take bs with
      | none => .ok (w.setIncoming conn bs).stopReceiving
      | some (frame, rest) => do
          let (w, go) ← w.deliverRequest codec conn frame
          return if go then w.setIncoming conn rest else w := by
  have hload := Store.load_ok.mpr (get_setIncoming hc bs)
  have hservice : (w.setIncoming conn bs).service = w.service := rfl
  have htake : requestFormat.loop.take bs = if bs.length < 12 then none
    else if bs.length < (12 + headerWord bs 1).toNat then none
    else some (⟨bs.take 12, readBlock (bs.drop 12) (headerWord bs 1).toNat⟩,
      (bs.drop 12).drop (headerWord bs 1).toNat) := rfl
  unfold receive
  rw [htake, hload]
  simp only [except_ok_bind]
  by_cases hshort : bs.length < 12
  · rw [if_pos hshort, if_pos hshort]
    rfl
  rw [if_neg hshort, if_neg hshort]
  by_cases hwait : bs.length < (12 + headerWord bs 1).toNat
  · rw [if_pos hwait, if_pos hwait]
    rfl
  rw [if_neg hwait, if_neg hwait, hservice]
  have hword : ∀ i < 3, headerWord (bs.take 12) i = headerWord bs i := fun i hi =>
    FrameFormat.headerWord_take (by omega) (by omega)
  unfold deliverRequest
  simp only [hword 0 (by omega), hword 2 (by omega)]
  cases w.service.methods[(headerWord bs 0).toNat]? with
  | none =>
    dsimp only
    rw [failed_setIncoming]
    exact FrameReader.refused_eq _ fun w : ServerWorld μ => w.setIncoming conn _
  | some method =>
    dsimp only
    rw [write_setIncoming hc, except_ok_bind]
    cases codec.unpack method.input (readBlock (bs.drop 12) (headerWord bs 1).toNat) with
    | none =>
      exact (failed_setIncoming w conn ((bs.drop 12).drop (headerWord bs 1).toNat) _ _).trans
        (FrameReader.refused_eq _ fun w : ServerWorld μ => w.setIncoming conn _)
    | some message =>
      have hcreate := createServerRequest_setIncoming w conn
        ((bs.drop 12).drop (headerWord bs 1).toNat) (headerWord bs 2) (headerWord bs 0)
      change (createServerRequest (w.setIncoming conn _) conn _ _ >>= _) = _
      rw [hcreate]
      cases w.createServerRequest conn (headerWord bs 2) (headerWord bs 0) with
      | error e => rfl
      | ok r => rfl

/-! ## The stream of a connection -/

/-- The server behind the frames of a piece: what is left goes back into the buffer. -/
def resume (conn : ℕ) (r : ServerWorld μ × Option (List UInt8)) : ServerWorld μ :=
  match r.2 with
  | none => r.1
  | some rest => (r.1.setIncoming conn rest).stopReceiving

/-- The loop goes on, or the connection is closed. -/
structure Looping (conn : ℕ) (w : ServerWorld μ) (go : Bool) : Prop where
  connection : (w.connections.get conn).isSome = go
  receiving : w.receiving = if go then some (conn, none) else none

theorem failed_looping {code : RpcErrorCode} {format : String} {go : Bool}
    (h : (do return (← w.stopReceiving.serverConnectionFailed conn code format, false)) =
      Except.ok (w', go)) : Looping conn w' go := by
  obtain ⟨w₁, hfailed, h⟩ := except_bind_eq_ok h
  obtain ⟨rfl, rfl⟩ := Prod.mk.inj (Except.ok.inj h)
  unfold serverConnectionFailed serverConnectionClose at hfailed
  obtain ⟨c, -, hfailed⟩ := except_bind_eq_ok hfailed
  obtain ⟨r, -, hfailed⟩ := except_bind_eq_ok hfailed
  obtain ⟨requests, -, hfailed⟩ := except_bind_eq_ok hfailed
  obtain ⟨connections, hfree, hfailed⟩ := except_bind_eq_ok hfailed
  obtain rfl := Except.ok.inj hfailed
  exact ⟨congrArg Option.isSome (Store.get_of_free hfree), rfl⟩

theorem takeServerRequest_receiving {rv : ℕ} (h : w.takeServerRequest = .ok (rv, w')) :
    w'.receiving = w.receiving := by
  unfold takeServerRequest at h
  cases hrecycled : w.recycledRequests with
  | none =>
    rw [hrecycled] at h
    obtain ⟨-, rfl⟩ := Prod.mk.inj (Except.ok.inj h)
    rfl
  | some first =>
    rw [hrecycled] at h
    obtain ⟨request, -, h⟩ := except_bind_eq_ok h
    cases hinfo : request.info with
    | alive links =>
      rw [hinfo] at h
      exact absurd h (by simp)
    | defunct =>
      rw [hinfo] at h
      exact absurd h (by simp)
    | recycled next =>
      rw [hinfo] at h
      obtain ⟨-, rfl⟩ := Prod.mk.inj (Except.ok.inj h)
      rfl

theorem deliverRequest_looping (w : ServerWorld μ) (frame : RpcFrame) (w' : ServerWorld μ) (go : Bool)
    (hw : Looping conn w true) (h : w.deliverRequest codec conn frame = .ok (w', go)) :
    Looping conn w' go := by
  unfold deliverRequest at h
  cases hmethod : w.service.methods[(headerWord frame.header 0).toNat]? with
  | none =>
    rw [hmethod] at h
    exact failed_looping h
  | some method =>
    simp only [hmethod] at h
    cases hunpack : codec.unpack method.input frame.payload with
    | none =>
      rw [hunpack] at h
      exact failed_looping h
    | some message =>
      simp only [hunpack] at h
      obtain ⟨⟨rv, w₁⟩, hcreate, h⟩ := except_bind_eq_ok h
      obtain ⟨rfl, rfl⟩ := Prod.mk.inj (Except.ok.inj h)
      unfold createServerRequest at hcreate
      obtain ⟨⟨rv₂, w₂⟩, htake, hcreate⟩ := except_bind_eq_ok hcreate
      obtain ⟨requests, -, hcreate⟩ := except_bind_eq_ok hcreate
      obtain ⟨c, -, hcreate⟩ := except_bind_eq_ok hcreate
      obtain ⟨appended, -, hcreate⟩ := except_bind_eq_ok hcreate
      obtain ⟨connections, hwrite, hcreate⟩ := except_bind_eq_ok hcreate
      obtain ⟨-, rfl⟩ := Prod.mk.inj (Except.ok.inj hcreate)
      exact ⟨congrArg Option.isSome (Store.get_of_write hwrite),
        (takeServerRequest_receiving htake).trans hw.receiving⟩

theorem requestLoop_of_stopped (fuel : ℕ) (h : w.receiving = none) :
    w.requestLoop codec fuel = .ok w := by
  cases fuel with
  | zero => exact if_neg (by simp [h])
  | succ fuel =>
    unfold requestLoop
    rw [h]

theorem Looping.there (h : Looping conn w true) : ∃ c, w.connections.get conn = some c :=
  Option.isSome_iff_exists.mp h.connection

variable (codec) in
/-- The loop delivers the frames of the buffer, as its size tests see them. -/
theorem requestLoop_eq {fuel : ℕ} {bs : List UInt8} (hfuel : bs.length < fuel) (hw : Looping conn w true) :
    (w.setIncoming conn bs).requestLoop codec fuel =
      (requestFormat.loop.drain (deliverRequest codec conn) w bs).map (resume conn) := by
  have hround : ∀ {w : ServerWorld μ} {bs : List UInt8} (fuel : ℕ), Looping conn w true →
      (w.setIncoming conn bs).requestLoop codec (fuel + 1) =
        (do requestLoop codec fuel (← (w.setIncoming conn bs).receive codec conn none)) := by
    intro w bs fuel hw
    have hreceiving : (w.setIncoming conn bs).receiving = some (conn, none) := hw.receiving
    rw [requestLoop, hreceiving]
  obtain ⟨fuel, rfl⟩ : ∃ n, fuel = n + 1 := ⟨fuel - 1, by omega⟩
  induction bs using FrameReader.induction (R := requestFormat.loop) generalizing w fuel with
  | hnone bs hnone =>
    obtain ⟨c, hc⟩ := hw.there
    rw [hround fuel hw, receive_setIncoming hc, FrameReader.drain_of_none hnone, hnone]
    exact requestLoop_of_stopped fuel rfl
  | hsome bs frame rest hsome ih =>
    obtain ⟨c, hc⟩ := hw.there
    rw [hround fuel hw, receive_setIncoming hc, FrameReader.drain_of_some hsome, hsome]
    dsimp only
    cases hdeliver : w.deliverRequest codec conn frame with
    | error e => rfl
    | ok r =>
      obtain ⟨w', go⟩ := r
      have hw' := deliverRequest_looping w frame w' go hw hdeliver
      simp only [except_ok_bind]
      cases go with
      | true =>
        have hshorter := requestFormat.loop.shrinks hsome
        obtain ⟨fuel, rfl⟩ : ∃ n, fuel = n + 1 := ⟨fuel - 1, by omega⟩
        exact ih hw' fuel (by omega)
      | false => exact requestLoop_of_stopped fuel hw'.receiving

theorem handleServerConnectionEvents_resume {bs piece : List UInt8} (hpiece : piece ≠ [])
    (hw : Looping conn w true) :
    (resume conn (w, some bs)).handleServerConnectionEvents conn (some (.received piece)) none =
      .ok (w.setIncoming conn (bs ++ piece)) := by
  obtain ⟨c, hc⟩ := hw.there
  cases piece with
  | nil => exact absurd rfl hpiece
  | cons b piece =>
    have hmodify : (w.setIncoming conn bs).connections.modify conn (fun c => { c with
        incoming := c.incoming ++ b :: piece }) =
        .ok (w.setIncoming conn (bs ++ b :: piece)).connections := by
      unfold Store.modify
      rw [Store.load_ok.mpr (get_setIncoming hc bs), except_ok_bind]
      exact write_setIncoming hc bs (bs ++ b :: piece)
    unfold handleServerConnectionEvents
    change ((w.setIncoming conn bs).connections.modify conn _ >>= _) = _
    rw [hmodify, except_ok_bind]
    have hreceiving : w.receiving = some (conn, none) := hw.receiving
    change Except.ok { w.setIncoming conn (bs ++ b :: piece) with receiving := some (conn, none) } = _
    rw [← hreceiving]
    rfl

variable (codec) in
/-- What the server does with the pieces is what it does with the frames that its loop sees. -/
theorem readRequests_eq {pieces : List (List UInt8)} {left : Option (List UInt8)}
    (hpieces : ∀ piece ∈ pieces, piece ≠ []) (hw : Looping conn w left.isSome) :
    (resume conn (w, left)).readRequests codec conn pieces =
      (requestFormat.loop.feed (deliverRequest codec conn) pieces (w, left)).map (resume conn) := by
  induction pieces generalizing w left with
  | nil => rfl
  | cons piece pieces ih =>
    unfold readRequests
    cases left with
    | none =>
      have hnone : (resume conn (w, none)).connections.get conn = none :=
        Option.isSome_eq_false_iff.mp hw.connection |> Option.isNone_iff_eq_none.mp
      rw [FrameReader.feed_none, hnone]
      rfl
    | some bs =>
      obtain ⟨c, hc⟩ := hw.there
      have hthere : (resume conn (w, some bs)).connections.get conn = some { c with incoming := bs } :=
        get_setIncoming hc bs
      have hloop := requestLoop_eq codec (Nat.lt_succ_self (bs ++ piece).length) hw
      rw [hthere]
      dsimp only
      rw [handleServerConnectionEvents_resume (hpieces piece List.mem_cons_self) hw,
        FrameReader.feed_cons, except_ok_bind]
      refine Eq.trans (congrArg (· >>= _) hloop) ?_
      cases hdrain : requestFormat.loop.drain (deliverRequest codec conn) w (bs ++ piece) with
      | error e => rfl
      | ok r =>
        exact ih (fun p hp => hpieces p (List.mem_cons_of_mem _ hp))
          (FrameReader.drain_kept deliverRequest_looping hw hdrain)

theorem parseRequests_eq (w : ServerWorld μ) (stream : List UInt8) :
    w.parseRequests codec conn stream = (requestFormat.exact.drain (deliverRequest codec conn)
      { w with receiving := some (conn, none) } stream).map (resume conn) := by
  unfold parseRequests
  rw [FrameReader.drain_eq_parse]
  dsimp only
  cases FrameReader.deliverAll (deliverRequest codec conn) (requestFormat.exact.parse stream).1
      { w with receiving := some (conn, none) } with
  | error e => rfl
  | ok r =>
    obtain ⟨w', go⟩ := r
    cases go with
    | true => rfl
    | false => rfl

theorem resume_length {left left' : Option (List UInt8)} (hw : Looping conn w left.isSome)
    (hw' : Looping conn w' left'.isSome) (h : resume conn (w, left) = resume conn (w', left')) :
    left.map List.length = left'.map List.length := by
  have hincoming : ∀ {w : ServerWorld μ} {left : Option (List UInt8)}, Looping conn w left.isSome →
      ((resume conn (w, left)).connections.get conn).map ServerConnection.incoming = left := by
    intro w left hw
    cases left with
    | none =>
      have hnone : w.connections.get conn = none :=
        Option.isNone_iff_eq_none.mp (Option.isSome_eq_false_iff.mp hw.connection)
      exact congrArg (Option.map ServerConnection.incoming) hnone
    | some bs =>
      obtain ⟨c, hc⟩ := hw.there
      exact congrArg (Option.map ServerConnection.incoming) (get_setIncoming hc bs)
  rw [← hincoming hw, h, hincoming hw']

/-- A server that is not in the loop has what is left in the buffer of the connection. -/
theorem eq_resume {c : ServerConnection} (hc : w.connections.get conn = some c)
    (hreceiving : w.receiving = none) :
    w = resume conn ({ w with receiving := some (conn, none) }, some c.incoming) := by
  have hsame : w.connections.mapAt conn (fun d => { d with incoming := c.incoming }) = w.connections := by
    rw [Store.mapAt_of_some hc]
    exact Store.set_get hc
  change w = { w with
    connections := w.connections.mapAt conn fun d => { d with incoming := c.incoming }
    receiving := none }
  rw [hsame, ← hreceiving]

/-- A server that is not in the loop does with the pieces what it does with the frames that its loop
sees. -/
theorem readRequests_feed (codec : Codec μ) {c : ServerConnection} (hc : w.connections.get conn = some c)
    (hreceiving : w.receiving = none) {pieces : List (List UInt8)}
    (hpieces : ∀ piece ∈ pieces, piece ≠ []) :
    w.readRequests codec conn pieces = (requestFormat.loop.feed (deliverRequest codec conn) pieces
      ({ w with receiving := some (conn, none) }, some c.incoming)).map (resume conn) := by
  have hw : Looping conn { w with receiving := some (conn, none) } (some c.incoming).isSome :=
    ⟨congrArg Option.isSome hc, rfl⟩
  have hread := readRequests_eq codec hpieces hw
  rw [← eq_resume hc hreceiving] at hread
  exact hread

/-- The requests are taken out of the stream of a connection right, however it comes in, just if the server
comes to no header that makes the sum wrap. -/
theorem readRequests_exact_iff (codec : Codec μ) (w : ServerWorld μ) (conn : ℕ) (c : ServerConnection)
    (pieces : List (List UInt8)) (hc : w.connections.get conn = some c) (hincoming : c.incoming = [])
    (hreceiving : w.receiving = none)
    (hpieces : ∀ piece ∈ pieces, piece ≠ [] ∧ piece.length ≤ FrameFormat.readSize) :
    (∀ before, before <+: pieces →
      w.readRequests codec conn before = w.parseRequests codec conn before.flatten) ↔
    ∀ before, before <+: pieces → ¬ requestFormat.LongAhead (deliverRequest codec conn)
      { w with receiving := some (conn, none) } before.flatten := by
  have hw : Looping conn { w with receiving := some (conn, none) } true :=
    ⟨congrArg Option.isSome hc, rfl⟩
  refine Iff.trans (forall_congr' fun before => forall_congr' fun hbefore => ?_)
    (FrameFormat.feed_loop_iff (f := requestFormat) (P := Looping conn)
      (@deliverRequest_looping μ codec conn) (fun _ _ _ _ hw hw' h => resume_length hw hw' h)
      (fun piece hpiece => (hpieces piece hpiece).2) hw)
  rw [readRequests_feed codec hc hreceiving fun piece hpiece => (hpieces piece (hbefore.subset hpiece)).1,
    hincoming, parseRequests_eq]

end ServerWorld

/-- A server with one connection, of a service with one method. -/
def waitingServer : ServerWorld (List UInt8) where
  service := ⟨[⟨0, 0⟩]⟩
  requests := .empty
  connections := (Store.empty.alloc ⟨3, [], [], none, none, 0, none, none⟩).2
  proxies := .empty
  connectionEnds := ⟨some 0, some 0⟩
  recycledRequests := none
  threading := false
  pipe := []
  proxyExtraData := []
  watched := fun _ => none
  receiving := none
  errors := []
  invoked := []
  owed := []
  written := []
  handled := []

/-- The first request of a connection, without a message. -/
def firstRequest : List UInt8 := headerBytes [0, 0, 1]

/-- `ServerWorld.readRequests_exact_iff` on a request that comes in two pieces. -/
theorem readRequests_firstRequest :
    waitingServer.readRequests bytesCodec 0 [firstRequest.take 10, firstRequest.drop 10] =
      waitingServer.parseRequests bytesCodec 0 firstRequest :=
  (ServerWorld.readRequests_exact_iff bytesCodec waitingServer 0 ⟨3, [], [], none, none, 0, none, none⟩
    [firstRequest.take 10, firstRequest.drop 10] rfl rfl rfl (by decide)).mpr
    (FrameFormat.not_longAhead_of_cut ⟨firstRequest, []⟩ (by decide) rfl)
    [firstRequest.take 10, firstRequest.drop 10] List.prefix_rfl

end ProtobufC
