import ProtobufC.Library.Records
import ProtobufC.Rpc.ServerLayout

/-! # The invariant of a server

Requests that the service has been given are pending or defunct, and no two of them are the same; the
answer to such a request is still owed or is in the pipe.  `Inv` is that, with the lists of the server and
the bytes of the pipe, and every step keeps it; a step ends in a fault only when the service answers a
request in the thread of the server whose connection was closed.
-/

namespace ProtobufC
open Library
set_option autoImplicit false

variable {μ : Type} (codec : Codec μ)

/-- The service has been given the request, and its memory is kept for the answer. -/
def InService (requests : Store ServerRequest) (r : ℕ) : Prop :=
  placeOf requests r = some .defunct ∨ ∃ conn, placeOf requests r = some (.pending conn)

namespace ServerWorld
variable {codec} {lossless : Prop} {w w' : ServerWorld μ} {transit : List (ℕ × ProxyResponse)}
  {conn request : ℕ} {c : ServerConnection}

/-! ## The invariant -/

/-- The requests whose answers have not arrived. -/
def awaited (w : ServerWorld μ) (transit : List (ℕ × ProxyResponse)) : List ℕ :=
  w.owed ++ transit.map fun x => x.2.request

/-- The answers that were written and not handled are in the pipe, and no others. -/
structure InPipe (w : ServerWorld μ) (transit : List (ℕ × ProxyResponse)) : Prop where
  written : w.written = w.handled ++ addresses transit
  bytes : w.proxyExtraData ++ w.pipe = (addresses transit).flatMap pointerBytes
  short : w.proxyExtraData.length < sizeofPointer
  once : w.written.Nodup
  known : ∀ p ∈ w.written, p < w.proxies.cells.length

/-- The answers that are stored. -/
structure Stored (proxies : Store ProxyResponse) (transit : List (ℕ × ProxyResponse)) : Prop where
  distinct : (addresses transit).Nodup
  iff : ∀ p pr, (p, pr) ∈ transit ↔ proxies.get p = some pr

/-- Answers are to come for requests in service, one for each; where no answer was lost, for all of
them. -/
structure Serving (lossless : Prop) (requests : Store ServerRequest) (awaited : List ℕ) : Prop where
  nodup : awaited.Nodup
  held : ∀ r ∈ awaited, InService requests r
  owes : lossless → ∀ r, InService requests r → r ∈ awaited

/-- The lists of the server, and the connection of the loop over requests. -/
structure Arranged (w : ServerWorld μ) : Prop where
  laid : ∃ pending recycled, w.LaidOut pending recycled
  linked : ∃ conns, w.ConnectionsLinked conns
  receiving : ∀ conn writable, w.receiving = some (conn, writable) →
    ∃ c, w.connections.get conn = some c

/-- What is kept in the middle of a function as well. -/
structure Core (lossless : Prop) (w : ServerWorld μ) (transit : List (ℕ × ProxyResponse)) : Prop
    extends w.Arranged where
  stored : Stored w.proxies transit
  serving : Serving lossless w.requests (w.awaited transit)

/-- What is kept between two steps. -/
structure Inv (lossless : Prop) (w : ServerWorld μ) (transit : List (ℕ × ProxyResponse)) : Prop where
  core : w.Core lossless transit
  inPipe : w.InPipe transit

theorem Arranged.congr (h : w.Arranged) (hrequests : w'.requests = w.requests)
    (hrecycled : w'.recycledRequests = w.recycledRequests)
    (hconnections : w'.connections = w.connections) (hends : w'.connectionEnds = w.connectionEnds)
    (hreceiving : w'.receiving = w.receiving) : w'.Arranged := by
  obtain ⟨pending, recycled, hlaid⟩ := h.laid
  obtain ⟨conns, hconns⟩ := h.linked
  refine ⟨⟨pending, recycled, hlaid.congr hrequests hrecycled fun i => by rw [hconnections]⟩,
    ⟨conns, hconns.congr hends fun i => by rw [hconnections]⟩, ?_⟩
  rw [hreceiving, hconnections]
  exact h.receiving

theorem SameProxies.inPipe (hsame : SameProxies w w') (h : w.InPipe transit) : w'.InPipe transit := by
  refine ⟨?_, ?_, ?_, ?_, ?_⟩
  · rw [hsame.written, hsame.handled]
    exact h.written
  · rw [hsame.extra, hsame.pipe]
    exact h.bytes
  · rw [hsame.extra]
    exact h.short
  · rw [hsame.written]
    exact h.once
  · rw [hsame.written, hsame.proxies]
    exact h.known

theorem SameProxies.awaited (hsame : SameProxies w w') (transit : List (ℕ × ProxyResponse)) :
    w'.awaited transit = w.awaited transit := by
  unfold ServerWorld.awaited
  rw [hsame.owed]

section
variable {requests requests' : Store ServerRequest} {awaited awaited' : List ℕ} {r : ℕ}

theorem Serving.congr (h : Serving lossless requests awaited)
    (hservice : ∀ i, InService requests' i ↔ InService requests i) :
    Serving lossless requests' awaited :=
  ⟨h.nodup, fun i hi => (hservice i).mpr (h.held i hi),
    fun hl i hi => h.owes hl i ((hservice i).mp hi)⟩

theorem Serving.perm (h : Serving lossless requests awaited) (hperm : awaited.Perm awaited') :
    Serving lossless requests awaited' :=
  ⟨hperm.nodup_iff.mp h.nodup, fun i hi => h.held i (hperm.mem_iff.mpr hi),
    fun hl i hi => hperm.mem_iff.mp (h.owes hl i hi)⟩

theorem Serving.join (h : Serving lossless requests awaited) (hnew : ¬ InService requests r)
    (hservice : ∀ i, InService requests' i ↔ i = r ∨ InService requests i) :
    Serving lossless requests' (r :: awaited) := by
  refine ⟨List.nodup_cons.mpr ⟨fun hin => hnew (h.held r hin), h.nodup⟩, fun i hi => ?_,
    fun hl i hi => ?_⟩
  · obtain rfl | hi := List.mem_cons.mp hi
    · exact (hservice i).mpr (.inl rfl)
    · exact (hservice i).mpr (.inr (h.held i hi))
  · obtain rfl | hi := (hservice i).mp hi
    · exact List.mem_cons_self
    · exact List.mem_cons_of_mem r (h.owes hl i hi)

theorem Serving.leave (h : Serving lossless requests (r :: awaited))
    (hservice : ∀ i, InService requests' i ↔ InService requests i ∧ i ≠ r) :
    Serving lossless requests' awaited := by
  obtain ⟨hnot, hnodup⟩ := List.nodup_cons.mp h.nodup
  refine ⟨hnodup, fun i hi => (hservice i).mpr ⟨h.held i (List.mem_cons_of_mem r hi), ?_⟩,
    fun hl i hi => ?_⟩
  · rintro rfl
    exact hnot hi
  · obtain ⟨hin, hne⟩ := (hservice i).mp hi
    exact (List.mem_cons.mp (h.owes hl i hin)).resolve_left hne

theorem Serving.lose (h : Serving lossless requests (r :: awaited)) (hlossy : ¬ lossless) :
    Serving lossless requests awaited :=
  ⟨(List.nodup_cons.mp h.nodup).2, fun i hi => h.held i (List.mem_cons_of_mem r hi),
    fun hl => absurd hl hlossy⟩

end

/-- What of a connection is not for the requests of the server. -/
def linksView (connections : Store ServerConnection) (i : ℕ) : Option (Option ℕ × Option ℕ) :=
  (connections.get i).map fun c => (c.prev, c.next)

theorem Inv.congr (h : w.Inv lossless transit) (hsame : SameProxies w w')
    (hrequests : w'.requests = w.requests) (hrecycled : w'.recycledRequests = w.recycledRequests)
    (hends : w'.connectionEnds = w.connectionEnds)
    (hpending : ∀ i, pendingView w'.connections i = pendingView w.connections i)
    (hlinks : ∀ i, linksView w'.connections i = linksView w.connections i)
    (hreceiving : ∀ conn writable, w'.receiving = some (conn, writable) →
      ∃ c, w.connections.get conn = some c) : w'.Inv lossless transit := by
  obtain ⟨pending, recycled, hlaid⟩ := h.core.laid
  obtain ⟨conns, hconns⟩ := h.core.linked
  refine ⟨⟨⟨⟨pending, recycled, hlaid.congr hrequests hrecycled hpending⟩,
    ⟨conns, hconns.congr hends hlinks⟩, fun conn writable hr => ?_⟩, hsame.proxies ▸ h.core.stored, ?_⟩,
    hsame.inPipe h.inPipe⟩
  · have hview := congrArg Option.isSome (hlinks conn)
    unfold linksView at hview
    rw [Option.isSome_map, Option.isSome_map] at hview
    rw [← Option.isSome_iff_exists, hview, Option.isSome_iff_exists]
    exact hreceiving conn writable hr
  · rw [hrequests, hsame.awaited]
    exact h.core.serving

theorem Inv.write (h : w.Inv lossless transit) (hc : w.connections.get conn = some c)
    (incoming outgoing : List UInt8) (watched : Registered) (receiving : Option (ℕ × Option WritevOutcome))
    (hreceiving : ∀ conn writable, receiving = some (conn, writable) →
      ∃ c, w.connections.get conn = some c) :
    Inv lossless { w with
      connections := ⟨w.connections.cells.set conn (some { c with
        incoming := incoming, outgoing := outgoing })⟩
      watched := watched
      receiving := receiving } transit := by
  refine h.congr ⟨rfl, rfl, rfl, rfl, rfl, rfl⟩ rfl rfl rfl (pendingView_write hc _ rfl rfl)
    (fun i => ?_) hreceiving
  unfold linksView
  change ((Store.mk (w.connections.cells.set conn _)).get i).map _ = _
  rw [Store.get_set hc]
  by_cases hi : i = conn
  · rw [if_pos hi, hi, hc, Option.map_some, Option.map_some]
  · rw [if_neg hi]

/-- A request in service that is pending afterwards was pending with the same connection. -/
def Stays (w w' : ServerWorld μ) : Prop :=
  ∀ r conn, InService w.requests r → placeOf w'.requests r = some (.pending conn) →
    placeOf w.requests r = some (.pending conn)

/-- So was every request that is pending afterwards. -/
def Keeps (w w' : ServerWorld μ) : Prop :=
  ∀ r conn, placeOf w'.requests r = some (.pending conn) →
    placeOf w.requests r = some (.pending conn)

/-- And but for one request that is new to a connection with `joins`. -/
def Gains (joins : ℕ → Prop) (w w' : ServerWorld μ) : Prop :=
  ∃ rv, ∀ r conn, placeOf w'.requests r = some (.pending conn) →
    placeOf w.requests r = some (.pending conn) ∨
      (r = rv ∧ joins conn ∧ ¬ InService w.requests rv)

theorem Keeps.of_eq (h : w'.requests = w.requests) : Keeps w w' := fun _ _ hpending => h ▸ hpending

theorem Keeps.gains (h : Keeps w w') (joins : ℕ → Prop) : Gains joins w w' :=
  ⟨0, fun r conn hpending => .inl (h r conn hpending)⟩

theorem Gains.stays {joins : ℕ → Prop} (h : Gains joins w w') : Stays w w' := by
  obtain ⟨rv, h⟩ := h
  intro r conn hin hpending
  obtain hold | ⟨rfl, -, hnot⟩ := h r conn hpending
  · exact hold
  · exact absurd hin hnot

/-- No request is new, and no answer is taken out of the pipe. -/
def Quiet (w w' : ServerWorld μ) : Prop := Keeps w w' ∧ w'.handled = w.handled

theorem Quiet.of_eq (hrequests : w'.requests = w.requests) (hhandled : w'.handled = w.handled) :
    Quiet w w' := ⟨.of_eq hrequests, hhandled⟩

/-! ## Closing -/

theorem inService_of_closed (h : Closed w w' conn) (r : ℕ) :
    InService w'.requests r ↔ InService w.requests r := by
  unfold InService
  rw [h.placed r]
  by_cases hr : placeOf w.requests r = some (.pending conn)
  · rw [if_pos hr, hr]
    simp
  · rw [if_neg hr]

theorem serverConnectionClose_inv (h : w.Inv lossless transit) (hnone : w.receiving = none)
    (hc : w.connections.get conn = some c) :
    ∃ w', w.serverConnectionClose conn = .ok w' ∧ w'.Inv lossless transit ∧ Quiet w w' := by
  obtain ⟨pending, recycled, hlaid⟩ := h.core.laid
  obtain ⟨conns, hconns⟩ := h.core.linked
  obtain ⟨w', hok, hclosed, hlaid', hconns'⟩ := serverConnectionClose_spec hlaid hconns hc
  have hreceiving : w'.receiving = none := hclosed.receiving.trans hnone
  refine ⟨w', hok, ⟨⟨⟨⟨_, _, hlaid'⟩, ⟨_, hconns'⟩, fun i writable hr => ?_⟩,
    hclosed.same.proxies ▸ h.core.stored, ?_⟩, hclosed.same.inPipe h.inPipe⟩, fun r i hr => ?_,
    hclosed.same.handled⟩
  · rw [hreceiving] at hr
    exact absurd hr (by simp)
  · rw [hclosed.same.awaited]
    exact h.core.serving.congr (inService_of_closed hclosed)
  · rw [hclosed.placed r] at hr
    split_ifs at hr
    · exact absurd hr (by simp)
    · exact hr

theorem serverConnectionFailed_inv (h : w.Inv lossless transit) (hnone : w.receiving = none)
    (hc : w.connections.get conn = some c) (code : RpcErrorCode) (format : String) :
    ∃ w', w.serverConnectionFailed conn code format = .ok w' ∧ w'.Inv lossless transit ∧
      Quiet w w' :=
  serverConnectionClose_inv (w := w.serverFailedLiteral code format)
    (h.congr ⟨rfl, rfl, rfl, rfl, rfl, rfl⟩ rfl rfl rfl (fun _ => rfl) (fun _ => rfl)
      h.core.receiving)
    hnone hc

/-! ## Events of a connection -/

theorem handleServerWritable_inv (h : w.Inv lossless transit) (hnone : w.receiving = none)
    (hc : w.connections.get conn = some c) (writable : Option WritevOutcome) :
    ∃ w', w.handleServerWritable conn writable = .ok w' ∧ w'.Inv lossless transit ∧
      Quiet w w' := by
  unfold handleServerWritable
  cases writable with
  | none => exact ⟨w, rfl, h, .of_eq rfl rfl⟩
  | some outcome =>
    simp only [Store.load_ok.mpr hc, except_ok_bind]
    by_cases hpos : c.outgoing.length > 0
    · rw [if_pos hpos]
      have hgo : ∀ outcome : WritevOutcome, ∃ w', ((do
            let connections ← w.connections.write conn
              { c with outgoing := c.outgoing.drop outcome.count }
            return if (c.outgoing.drop outcome.count).length = 0 then
              ({ w with connections := connections }.watchConnection c.fd eventReadable conn)
              else { w with connections := connections }) : Except Fault (ServerWorld μ)) = .ok w' ∧
          w'.Inv lossless transit ∧ Quiet w w' := by
        intro outcome
        simp only [Store.write_ok hc, except_ok_bind]
        have hkept := fun watched => h.write hc c.incoming (c.outgoing.drop outcome.count) watched
          w.receiving h.core.receiving
        by_cases hleft : (c.outgoing.drop outcome.count).length = 0
        · rw [if_pos hleft]
          exact ⟨_, rfl, hkept _, .of_eq rfl rfl⟩
        · rw [if_neg hleft]
          exact ⟨_, rfl, hkept w.watched, .of_eq rfl rfl⟩
      cases outcome with
      | fails => exact serverConnectionFailed_inv h hnone hc _ _
      | ignorable => exact hgo .ignorable
      | accepts count => exact hgo (.accepts count)
    · rw [if_neg hpos]
      exact ⟨w, rfl, h, .of_eq rfl rfl⟩

theorem handleServerConnectionEvents_inv (h : w.Inv lossless transit) (hnone : w.receiving = none)
    (hc : w.connections.get conn = some c) (readable : Option ReadOutcome)
    (writable : Option WritevOutcome) :
    ∃ w', w.handleServerConnectionEvents conn readable writable = .ok w' ∧
      w'.Inv lossless transit ∧ Quiet w w' := by
  have hwritable := handleServerWritable_inv h hnone hc writable
  unfold handleServerConnectionEvents
  split
  · exact hwritable
  · exact hwritable
  · exact serverConnectionFailed_inv h hnone hc .clientTerminated _
  · simp only [Store.load_ok.mpr hc, except_ok_bind]
    split_ifs
    · exact serverConnectionFailed_inv h hnone hc .clientTerminated _
    · exact serverConnectionClose_inv h hnone hc
  · rename_i data _
    simp only [Store.modify_ok hc, except_ok_bind]
    refine ⟨_, rfl, h.write hc (c.incoming ++ data) c.outgoing w.watched _ fun i o heq => ?_,
      .of_eq rfl rfl⟩
    obtain ⟨rfl, rfl⟩ := Prod.mk.inj (Option.some.inj heq)
    exact ⟨c, hc⟩

/-! ## Requests that come in -/

theorem mem_service_of_created {rv : ℕ} (h : Created w w' conn rv) (r : ℕ) :
    InService w'.requests r ↔ r = rv ∨ InService w.requests r := by
  unfold InService
  rw [h.placed r]
  by_cases hr : r = rv
  · rw [if_pos hr]
    simp [hr]
  · rw [if_neg hr]
    simp [hr]

theorem not_inService_of_fresh {rv : ℕ} (h : Created w w' conn rv) : ¬ InService w.requests rv := by
  rintro (hdefunct | ⟨i, hpending⟩)
  · obtain hnone | hplace := h.fresh
    · rw [hnone] at hdefunct
      exact absurd hdefunct (by simp)
    · rw [hplace] at hdefunct
      exact absurd hdefunct (by simp)
  · obtain hnone | hplace := h.fresh
    · rw [hnone] at hpending
      exact absurd hpending (by simp)
    · rw [hplace] at hpending
      exact absurd hpending (by simp)

theorem createServerRequest_inv (h : w.Inv lossless transit)
    (hc : w.connections.get conn = some c) (request_id method_index : UInt32) (message : μ) :
    ∃ rv w', w.createServerRequest conn request_id method_index = .ok (rv, w') ∧
      (w'.invokeService rv message).Inv lossless transit ∧ Gains (· = conn) w w' ∧
        w'.handled = w.handled := by
  obtain ⟨pending, recycled, hlaid⟩ := h.core.laid
  obtain ⟨conns, hconns⟩ := h.core.linked
  obtain ⟨rv, w', recycled', hok, hcreated, hlaid'⟩ :=
    createServerRequest_spec hlaid hc request_id method_index
  have hpipe := hcreated.same.inPipe h.inPipe
  refine ⟨rv, w', hok, ⟨⟨⟨⟨_, recycled', hlaid'.congr rfl rfl fun _ => rfl⟩, ⟨conns, ?_⟩,
    fun i writable hr => ?_⟩, hcreated.same.proxies ▸ h.core.stored, ?_⟩,
      ⟨hpipe.written, hpipe.bytes, hpipe.short, hpipe.once, hpipe.known⟩⟩,
      ⟨rv, fun r i hr => ?_⟩, hcreated.same.handled⟩
  · refine hconns.congr hcreated.ends fun i => ?_
    have := congrArg (Option.map fun x => (x.1, x.2.1)) (hcreated.connections i)
    rw [Option.map_map, Option.map_map] at this
    exact this
  · have hr' : w.receiving = some (i, writable) := hcreated.receiving ▸ hr
    have hisome := congrArg Option.isSome (hcreated.connections i)
    rw [Option.isSome_map, Option.isSome_map] at hisome
    change ∃ c, w'.connections.get i = some c
    rw [← Option.isSome_iff_exists, hisome, Option.isSome_iff_exists]
    exact h.core.receiving i writable hr'
  · have hjoin := h.core.serving.join (not_inService_of_fresh hcreated)
      (mem_service_of_created hcreated)
    refine hjoin.perm ?_
    unfold awaited
    change (rv :: (w.owed ++ _)).Perm ((w'.owed ++ [rv]) ++ _)
    rw [hcreated.same.owed, List.append_assoc, List.singleton_append]
    exact List.perm_middle.symm
  · rw [hcreated.placed r] at hr
    split_ifs at hr with hrv
    · rw [Option.some.injEq, Place.pending.injEq] at hr
      exact .inr ⟨hrv, hr.symm, not_inService_of_fresh hcreated⟩
    · exact .inl hr

/-- The next round of the loop over the requests gives one to the service. -/
def Invokes (codec : Codec μ) (w : ServerWorld μ) (c : ServerConnection) : Prop :=
  12 ≤ c.incoming.length ∧ (12 + headerWord c.incoming 1).toNat ≤ c.incoming.length ∧
    ∃ method message, w.service.methods[(headerWord c.incoming 0).toNat]? = some method ∧
      codec.unpack method.input
        (readBlock (c.incoming.drop 12) (headerWord c.incoming 1).toNat) = some message

theorem Quiet.receives {joins : ℕ → Prop} {x : Except Fault (ServerWorld μ)}
    (h : ∃ w', x = .ok w' ∧ w'.Inv lossless transit ∧ Quiet w w') :
    ∃ w', x = .ok w' ∧ w'.Inv lossless transit ∧ Gains joins w w' ∧ w'.handled = w.handled := by
  obtain ⟨w', hok, hinv, hquiet⟩ := h
  exact ⟨w', hok, hinv, hquiet.1.gains joins, hquiet.2⟩

theorem receive_inv (codec : Codec μ) (h : w.Inv lossless transit) (hc : w.connections.get conn = some c)
    (writable : Option WritevOutcome) :
    ∃ w', w.receive codec conn writable = .ok w' ∧ w'.Inv lossless transit ∧
      Gains (fun i => i = conn ∧ w.Invokes codec c) w w' ∧ w'.handled = w.handled := by
  have hstop : w.stopReceiving.Inv lossless transit :=
    h.congr ⟨rfl, rfl, rfl, rfl, rfl, rfl⟩ rfl rfl rfl (fun _ => rfl) (fun _ => rfl)
      fun _ _ hr => absurd hr (by simp [stopReceiving])
  have hstopped := handleServerWritable_inv hstop rfl hc writable
  unfold receive
  simp only [Store.load_ok.mpr hc, except_ok_bind]
  split_ifs with hshort hwait
  · exact Quiet.receives hstopped
  · exact Quiet.receives hstopped
  · cases hmethod : w.service.methods[(headerWord c.incoming 0).toNat]? with
    | none => exact Quiet.receives (serverConnectionFailed_inv hstop rfl hc .badRequest _)
    | some method =>
      simp only [Store.write_ok hc, except_ok_bind]
      have hread := h.write hc ((c.incoming.drop 12).drop (headerWord c.incoming 1).toNat) c.outgoing
        w.watched w.receiving h.core.receiving
      have hc' := Store.get_set hc (some { c with
        incoming := (c.incoming.drop 12).drop (headerWord c.incoming 1).toNat }) conn
      rw [if_pos rfl] at hc'
      cases hunpack : codec.unpack method.input
          (readBlock (c.incoming.drop 12) (headerWord c.incoming 1).toNat) with
      | none =>
        have hread' := h.write hc ((c.incoming.drop 12).drop (headerWord c.incoming 1).toNat)
          c.outgoing w.watched none fun _ _ hr => absurd hr (by simp)
        exact Quiet.receives (serverConnectionFailed_inv hread' rfl hc' .badRequest _)
      | some message =>
        obtain ⟨rv, w', hok, hinv, ⟨new, hgains⟩, hhandled⟩ := createServerRequest_inv hread hc'
          (headerWord c.incoming 2) (headerWord c.incoming 0) message
        refine ⟨_, ?_, hinv, ⟨new, fun r i hr => ?_⟩, hhandled⟩
        have hok' : createServerRequest { w with connections := ⟨w.connections.cells.set conn (some { c with
          incoming := (c.incoming.drop 12).drop (headerWord c.incoming 1).toNat })⟩ } conn
            (headerWord c.incoming 2) (headerWord c.incoming 0) = .ok (rv, w') := hok
        · simp only [hok', except_ok_bind]
          rfl
        · exact (hgains r i hr).imp id fun hnew => ⟨hnew.1, ⟨hnew.2.1, not_lt.mp hshort, not_lt.mp hwait,
            method, message, hmethod, hunpack⟩, hnew.2.2⟩

/-! ## Connections that are new -/

theorem handleServerListenerReadable_inv (h : w.Inv lossless transit) (new_fd : Option ℕ) :
    ∃ w', w.handleServerListenerReadable new_fd = .ok w' ∧ w'.Inv lossless transit ∧
      Quiet w w' := by
  cases new_fd with
  | none => exact ⟨w, rfl, h, .of_eq rfl rfl⟩
  | some fd =>
    obtain ⟨pending, recycled, hlaid⟩ := h.core.laid
    obtain ⟨conns, hconns⟩ := h.core.linked
    have hget := Store.get_alloc w.connections ⟨fd, [], [], none, none, 0, none, none⟩
    have hnew := Store.get_alloc_new w.connections ⟨fd, [], [], none, none, 0, none, none⟩
    set new := (w.connections.alloc ⟨fd, [], [], none, none, 0, none, none⟩).1 with hnew_eq
    have hnot : new ∉ conns := by
      intro hin
      obtain ⟨c, hc⟩ := (hconns.mem new).mp hin
      rw [hnew] at hc
      exact absurd hc (by simp)
    have hlist : IsList connectionHook
        (w.connections.alloc ⟨fd, [], [], none, none, 0, none, none⟩).2 w.connectionEnds conns := by
      refine hconns.list.congr fun i hi => (hget i).trans (if_neg ?_)
      rintro rfl
      exact hnot hi
    obtain ⟨connections, ends, happend, hlist', htouch⟩ :=
      listAppend_spec hlist ((hget new).trans (if_pos rfl)) hnot
    have hbare := htouch.bare
    have hview : ∀ i, pendingView connections i =
        if i = new then some (.empty, 0) else pendingView w.connections i := by
      intro i
      rw [pendingView_relink hbare i]
      unfold pendingView
      rw [hget i]
      by_cases hi : i = new
      · rw [if_pos hi, if_pos hi]
        rfl
      · rw [if_neg hi, if_neg hi]
    have hisSome : ∀ i, (∃ c, connections.get i = some c) ↔
        i = new ∨ ∃ c, w.connections.get i = some c := by
      intro i
      have hv := congrArg Option.isSome (hview i)
      unfold pendingView at hv
      rw [Option.isSome_map] at hv
      rw [← Option.isSome_iff_exists, hv, ← Option.isSome_iff_exists]
      by_cases hi : i = new
      · rw [if_pos hi]
        simp [hi]
      · rw [if_neg hi, Option.isSome_map]
        simp [hi]
    refine ⟨(({ w with connections := connections, connectionEnds := ends } : ServerWorld μ)
      ).watchConnection fd eventReadable new, ?_, ⟨⟨⟨⟨pending, recycled,
        hlaid.accept rfl rfl hnew hview⟩, ⟨conns ++ [new], hlist', fun i => ?_⟩,
        fun i writable hr => ?_⟩, h.core.stored, h.core.serving⟩, ⟨h.inPipe.written, h.inPipe.bytes,
        h.inPipe.short, h.inPipe.once, h.inPipe.known⟩⟩, .of_eq rfl rfl⟩
    · unfold handleServerListenerReadable
      simp only [← hnew_eq, happend, except_ok_bind]
      rfl
    · rw [List.mem_append, List.mem_singleton, hconns.mem i]
      exact (or_comm.trans (hisSome i).symm)
    · exact (hisSome i).mpr (.inr (h.core.receiving i writable hr))

/-! ## Answers -/

theorem queueResponse_arranged (h : w.Arranged)
    (hr : placeOf w.requests request = some (.pending conn)) (data : List UInt8) :
    ∃ w', w.queueResponse conn request data = .ok w' ∧ Responded w w' conn request data ∧
      w'.Arranged ∧ ∀ i, InService w'.requests i ↔ InService w.requests i ∧ i ≠ request := by
  obtain ⟨pending, recycled, hlaid⟩ := h.laid
  obtain ⟨conns, hconns⟩ := h.linked
  obtain ⟨w', hok, hresponded, hlaid'⟩ := queueResponse_spec hlaid hr data
  refine ⟨w', hok, hresponded, ⟨⟨_, _, hlaid'⟩, ⟨conns, ?_⟩, fun i writable hi => ?_⟩, fun i => ?_⟩
  · refine hconns.congr hresponded.ends fun i => ?_
    have := congrArg (Option.map fun x => (x.1, x.2.1)) (hresponded.connections i)
    rw [Option.map_map, Option.map_map] at this
    exact this
  · have hisome := congrArg Option.isSome (hresponded.connections i)
    rw [Option.isSome_map, Option.isSome_map] at hisome
    rw [← Option.isSome_iff_exists, hisome, Option.isSome_iff_exists]
    exact h.receiving i writable (hresponded.receiving ▸ hi)
  · unfold InService
    rw [hresponded.placed i]
    by_cases hi : i = request
    · rw [if_pos hi]
      simp [hi]
    · rw [if_neg hi]
      simp [hi]

/-- The answer to a defunct request leaves the service, and its memory is given back. -/
theorem free_arranged (h : w.Arranged) (hr : placeOf w.requests request = some .defunct) :
    ∃ requests, w.requests.free request = .ok requests ∧
      ({ w with requests := requests } : ServerWorld μ).Arranged ∧
      (∀ i, placeOf requests i = if i = request then none else placeOf w.requests i) ∧
      ∀ i, InService requests i ↔ InService w.requests i ∧ i ≠ request := by
  obtain ⟨pending, recycled, hlaid⟩ := h.laid
  obtain ⟨conns, hconns⟩ := h.linked
  obtain ⟨requests, hok, hlaid', hplaced⟩ := hlaid.free hr
  refine ⟨requests, hok, ⟨⟨pending, recycled, hlaid'⟩, ⟨conns, hconns.list, hconns.mem⟩,
    h.receiving⟩, hplaced, fun i => ?_⟩
  unfold InService
  rw [hplaced i]
  by_cases hi : i = request
  · rw [if_pos hi]
    simp [hi]
  · rw [if_neg hi]
    simp [hi]

theorem awaited_erase (h : request ∈ w.owed) (transit : List (ℕ × ProxyResponse)) :
    (w.awaited transit).Perm
      (request :: { w with owed := w.owed.erase request }.awaited transit) := by
  unfold awaited
  rw [← List.cons_append]
  exact (List.perm_cons_erase h).append_right _

/-- What `server_connection_response_closure` makes of an answer for the pipe. -/
def proxyOf (request : ℕ) (data : List UInt8) : ProxyResponse :=
  ⟨request, UInt32.ofNat data.length, data⟩

theorem proxyResponse_whole (h : w.Inv lossless transit) (howed : request ∈ w.owed)
    (data : List UInt8) :
    ∃ w', { w with owed := w.owed.erase request }.proxyResponse request data .whole = .ok w' ∧
      w'.Inv lossless (transit ++ [(w.proxies.cells.length, proxyOf request data)]) ∧
      w'.requests = w.requests ∧ w'.handled = w.handled := by
  have hget := Store.get_alloc w.proxies (proxyOf request data)
  have hnew : w.proxies.cells.length ∉ w.written :=
    fun hin => absurd (h.inPipe.known _ hin) (Nat.lt_irrefl _)
  have hfresh : w.proxies.cells.length ∉ addresses transit := by
    intro hin
    refine hnew ?_
    rw [h.inPipe.written]
    exact List.mem_append_right _ hin
  have hconcat : addresses (transit ++ [(w.proxies.cells.length, proxyOf request data)]) =
      addresses transit ++ [w.proxies.cells.length] := List.map_append
  refine ⟨_, rfl, ⟨⟨h.core.toArranged.congr rfl rfl rfl rfl rfl, ⟨?_, fun p pr => ?_⟩, ?_⟩,
    ⟨?_, ?_, h.inPipe.short, ?_, fun p hp => ?_⟩⟩, rfl, rfl⟩
  · rw [hconcat, ← List.concat_eq_append]
    exact h.core.stored.distinct.concat hfresh
  · change _ ↔ (w.proxies.alloc (proxyOf request data)).2.get p = some pr
    rw [hget p, List.mem_append, List.mem_singleton, Prod.mk.injEq, h.core.stored.iff]
    change _ ↔ (if p = w.proxies.cells.length then _ else _) = _
    by_cases hp : p = w.proxies.cells.length
    · rw [if_pos hp]
      have hnone := Store.get_alloc_new w.proxies (proxyOf request data)
      change w.proxies.get w.proxies.cells.length = none at hnone
      rw [hp, hnone]
      simp [eq_comm]
    · rw [if_neg hp]
      simp [hp]
  · refine h.core.serving.perm ((awaited_erase howed transit).trans ?_)
    unfold awaited
    rw [List.map_append, ← List.append_assoc]
    exact (List.perm_append_singleton _ _).symm
  · rw [hconcat, ← List.append_assoc, ← h.inPipe.written]
    rfl
  · rw [hconcat, List.flatMap_append, ← h.inPipe.bytes, List.append_assoc]
    simp [Store.alloc]
  · change (w.written ++ [w.proxies.cells.length]).Nodup
    rw [← List.concat_eq_append]
    exact h.inPipe.once.concat hnew
  · change p < (w.proxies.cells ++ [_]).length
    rw [List.length_append, List.length_singleton]
    obtain hp | hp := List.mem_append.mp (show p ∈ w.written ++ [w.proxies.cells.length] from hp)
    · exact (h.inPipe.known p hp).trans_le (Nat.le_succ _)
    · rw [List.mem_singleton.mp hp]
      exact Nat.lt_succ_self _

theorem proxyResponse_fails (h : w.Inv lossless transit) (howed : request ∈ w.owed)
    (hlossy : ¬ lossless) (data : List UInt8) :
    ∃ w', { w with owed := w.owed.erase request }.proxyResponse request data .fails = .ok w' ∧
      w'.Inv lossless transit ∧ w'.requests = w.requests ∧ w'.handled = w.handled := by
  have hget := Store.get_alloc w.proxies (proxyOf request data)
  have hnone := Store.get_alloc_new w.proxies (proxyOf request data)
  have hthere := (hget w.proxies.cells.length).trans (if_pos rfl)
  have hset := Store.get_set hthere none
  refine ⟨{ w with
      owed := w.owed.erase request
      proxies := ⟨(w.proxies.cells ++ [some (proxyOf request data)]).set w.proxies.cells.length none⟩
      errors := w.errors ++ [(.proxyProblem, "error writing to proxy-pipe")] }, ?_,
    ⟨⟨h.core.toArranged.congr rfl rfl rfl rfl rfl, ⟨h.core.stored.distinct, fun p pr => ?_⟩, ?_⟩,
    ⟨h.inPipe.written, h.inPipe.bytes, h.inPipe.short, h.inPipe.once, fun p hp => ?_⟩⟩, rfl, rfl⟩
  · unfold proxyResponse
    have hfree := Store.free_ok hthere
    simp only [Store.alloc, proxyOf, serverFailedLiteral] at hfree ⊢
    rw [hfree]
    rfl
  · rw [h.core.stored.iff]
    have hp := (hset p).trans (congrArg (ite _ none) (hget p))
    change _ ↔ (Store.mk ((w.proxies.cells ++ [some (proxyOf request data)]).set
      w.proxies.cells.length none)).get p = some pr
    change (Store.mk ((w.proxies.cells ++ [some (proxyOf request data)]).set
      w.proxies.cells.length none)).get p = if p = w.proxies.cells.length then none else
        if p = w.proxies.cells.length then some (proxyOf request data) else w.proxies.get p at hp
    change w.proxies.get w.proxies.cells.length = none at hnone
    rw [hp]
    by_cases hq : p = w.proxies.cells.length
    · rw [if_pos hq, hq, hnone]
    · rw [if_neg hq, if_neg hq]
  · exact (h.core.serving.perm (awaited_erase howed transit)).lose hlossy
  · change p < ((w.proxies.cells ++ [_]).set _ none).length
    rw [List.length_set, List.length_append, List.length_singleton]
    exact (h.inPipe.known p hp).trans_le (Nat.le_succ _)

/-! ## The pipe -/

/-- `request->conn` -/
def connectionOf (w : ServerWorld μ) (r : ℕ) : Option ℕ :=
  (w.requests.get r).bind ServerRequest.conn

/-- What the buffer of a connection gets from an answer. -/
def delivered (w : ServerWorld μ) (conn : ℕ) (pr : ProxyResponse) : List UInt8 :=
  if w.connectionOf pr.request = some conn then pr.data.take pr.len.toNat else []

/-- The effect of answers that are taken out of the pipe. -/
structure Delivered (w w' : ServerWorld μ) (now : List (ℕ × ProxyResponse)) : Prop where
  handled : w'.handled = w.handled ++ addresses now
  written : w'.written = w.written
  proxies : w'.proxies.cells.length = w.proxies.cells.length
  receiving : w'.receiving = w.receiving
  owed : w'.owed = w.owed
  placed : ∀ r, r ∉ now.map (fun x => x.2.request) → placeOf w'.requests r = placeOf w.requests r
  keeps : Keeps w w'
  outgoing : ∀ i, (w'.connections.get i).map ServerConnection.outgoing =
    (w.connections.get i).map fun c => c.outgoing ++ now.flatMap fun x => w.delivered i x.2

theorem connectionOf_pending {r : ℕ} (h : placeOf w.requests r = some (.pending conn)) :
    w.connectionOf r = some conn := by
  obtain ⟨q, hq, hplace⟩ := placeOf_eq_some h
  unfold connectionOf
  rw [hq]
  exact (place_pending hplace).1

theorem connectionOf_defunct {r : ℕ} (h : placeOf w.requests r = some .defunct) :
    w.connectionOf r = none := by
  obtain ⟨q, hq, hplace⟩ := placeOf_eq_some h
  unfold connectionOf
  rw [hq]
  exact (place_defunct hplace).1

theorem connectionOf_eq {r : ℕ} (h : InService w.requests r)
    (heq : placeOf w'.requests r = placeOf w.requests r) : w'.connectionOf r = w.connectionOf r := by
  obtain hdefunct | ⟨conn, hpending⟩ := h
  · rw [connectionOf_defunct hdefunct, connectionOf_defunct (heq.trans hdefunct)]
  · rw [connectionOf_pending hpending, connectionOf_pending (heq.trans hpending)]

theorem pointerOf_pointerBytes (p : ℕ) : pointerOf (pointerBytes p) = .ok p := if_pos rfl

theorem length_pointerBytes (p : ℕ) : (pointerBytes p).length = sizeofPointer := by
  unfold pointerBytes
  rw [List.length_map, List.length_range]

theorem Stored.tail {proxies : Store ProxyResponse} {p : ℕ} {pr : ProxyResponse}
    (h : Stored proxies ((p, pr) :: transit)) :
    ∃ proxies', proxies.free p = .ok proxies' ∧ Stored proxies' transit ∧
      proxies'.cells.length = proxies.cells.length := by
  have hp := (h.iff p pr).mp List.mem_cons_self
  have hget := Store.get_set hp none
  obtain ⟨hnot, hdistinct⟩ := List.nodup_cons.mp h.distinct
  refine ⟨_, Store.free_ok hp, ⟨hdistinct, fun q prq => ?_⟩, List.length_set⟩
  rw [hget q]
  by_cases hq : q = p
  · rw [if_pos hq]
    constructor
    · exact fun hin => absurd (List.mem_map.mpr ⟨(q, prq), hin, hq⟩) hnot
    · exact fun hnone => absurd hnone (by simp)
  · rw [if_neg hq, ← h.iff, List.mem_cons, Prod.mk.injEq]
    simp [hq]

theorem handleProxyResponse_spec {p : ℕ} {pr : ProxyResponse}
    (h : w.Core lossless ((p, pr) :: transit)) :
    ∃ w', w.handleProxyResponse p = .ok w' ∧ w'.Core lossless transit ∧
      Delivered w w' [(p, pr)] ∧ w'.pipe = w.pipe ∧ w'.proxyExtraData = w.proxyExtraData := by
  have hp := (h.stored.iff p pr).mp List.mem_cons_self
  obtain ⟨proxies, hfree, hstored, hlength⟩ := h.stored.tail
  have hserving : Serving lossless w.requests (pr.request :: w.awaited transit) :=
    h.serving.perm List.perm_middle
  obtain hdefunct | ⟨conn, hpending⟩ := hserving.held pr.request List.mem_cons_self
  · -- the connection was closed
    obtain ⟨q, hq, hplace⟩ := placeOf_eq_some hdefunct
    obtain ⟨requests, hok, harranged, hplaced, hservice⟩ := free_arranged h.toArranged hdefunct
    refine ⟨{ w with requests := requests, proxies := proxies, handled := w.handled ++ [p] }, ?_,
      ⟨harranged.congr rfl rfl rfl rfl rfl, hstored, hserving.leave hservice⟩,
        ⟨rfl, rfl, hlength, rfl, rfl, fun r hr => ?_, fun r i hr => ?_, fun i => ?_⟩, rfl, rfl⟩
    · unfold handleProxyResponse
      simp only [Store.load_ok.mpr hp, Store.load_ok.mpr hq, except_ok_bind, (place_defunct hplace).1,
        hok, except_ok_bind, pure_bind, hfree]
      rfl
    · exact (hplaced r).trans (if_neg (by simpa using hr))
    · rw [hplaced r] at hr
      split_ifs at hr
      exact hr
    · have hnone : w.delivered i pr = [] := by
        unfold delivered
        rw [connectionOf_defunct hdefunct, if_neg (by simp)]
      simp [hnone]
  · obtain ⟨q, hq, hplace⟩ := placeOf_eq_some hpending
    obtain ⟨w₁, hok, hresponded, harranged, hservice⟩ := queueResponse_arranged h.toArranged hpending
      (pr.data.take pr.len.toNat)
    have hsame := hresponded.same
    refine ⟨{ w₁ with proxies := proxies, handled := w₁.handled ++ [p] }, ?_,
      ⟨harranged.congr rfl rfl rfl rfl rfl, hstored, ?_⟩,
        ⟨?_, hsame.written, hlength, hresponded.receiving, hsame.owed, fun r hr => ?_,
          fun r i hr => ?_, fun i => ?_⟩,
        hsame.pipe, hsame.extra⟩
    · unfold handleProxyResponse
      simp only [Store.load_ok.mpr hp, Store.load_ok.mpr hq, except_ok_bind, (place_pending hplace).1,
        hok, hsame.proxies, hfree]
      rfl
    · have hleft := hserving.leave hservice
      rw [← hsame.awaited] at hleft
      exact hleft
    · change w₁.handled ++ [p] = _
      rw [hsame.handled]
      rfl
    · exact (hresponded.placed r).trans (if_neg (by simpa using hr))
    · have hr' := (hresponded.placed r).symm.trans hr
      split_ifs at hr' with hreq
      · exact absurd hr' (by simp)
      · exact hr'
    · have hview := congrArg (Option.map fun x => x.2.2) (hresponded.connections i)
      rw [Option.map_map, Option.map_map] at hview
      refine hview.trans ?_
      congr 1
      funext c
      rw [List.flatMap_singleton]
      unfold delivered
      rw [connectionOf_pending hpending]
      by_cases hi : i = conn
      · rw [if_pos (by rw [hi])]
        exact if_pos hi
      · rw [if_neg fun heq => hi (Option.some.inj heq).symm, List.append_nil]
        exact if_neg hi

theorem Delivered.refl (w : ServerWorld μ) : Delivered w w [] :=
  ⟨(List.append_nil _).symm, rfl, rfl, rfl, rfl, fun _ _ => rfl, .of_eq rfl, fun i => by simp⟩

theorem Delivered.append {w₁ : ServerWorld μ} {now now' : List (ℕ × ProxyResponse)}
    (h : Delivered w w₁ now) (h' : Delivered w₁ w' now')
    (hkept : ∀ y ∈ now', w₁.connectionOf y.2.request = w.connectionOf y.2.request) :
    Delivered w w' (now ++ now') := by
  refine ⟨?_, h'.written.trans h.written, h'.proxies.trans h.proxies,
    h'.receiving.trans h.receiving, h'.owed.trans h.owed, fun r hr => ?_,
    fun r i hr => h.keeps r i (h'.keeps r i hr), fun i => ?_⟩
  · rw [h'.handled, h.handled, List.append_assoc]
    exact congrArg _ List.map_append.symm
  · rw [List.map_append, List.mem_append, not_or] at hr
    rw [h'.placed r hr.2, h.placed r hr.1]
  · have hsame : (now'.flatMap fun y => w₁.delivered i y.2) =
        now'.flatMap fun y => w.delivered i y.2 :=
      List.flatMap_congr fun y hy => by
        unfold delivered
        rw [hkept y hy]
    have hview := congrArg (Option.map fun bytes =>
      bytes ++ now'.flatMap fun y => w.delivered i y.2) (h.outgoing i)
    rw [Option.map_map, Option.map_map] at hview
    rw [h'.outgoing i, hsame]
    refine hview.trans ?_
    congr 1
    funext c
    simp [List.append_assoc]

/-- The requests of answers that stay in the pipe keep their connections. -/
theorem Core.connectionOf_later {w₁ : ServerWorld μ} {now later : List (ℕ × ProxyResponse)}
    (h : w.Core lossless (now ++ later)) (hdelivered : Delivered w w₁ now) :
    ∀ y ∈ later, w₁.connectionOf y.2.request = w.connectionOf y.2.request := by
  intro y hy
  have hmem : y.2.request ∈ later.map fun x => x.2.request := List.mem_map_of_mem hy
  have hnodup := h.serving.nodup
  unfold awaited at hnodup
  rw [List.map_append] at hnodup
  -- no two answers are for the same request
  have hdisjoint := (List.nodup_append.mp (List.nodup_append.mp hnodup).2.1).2.2
  refine connectionOf_eq (h.serving.held _ (List.mem_append_right _ ?_)) (hdelivered.placed _ ?_)
  · rw [List.map_append]
    exact List.mem_append_right _ hmem
  · exact fun hnow => hdisjoint _ hnow _ hmem rfl

theorem Core.held_transit (h : w.Core lossless transit) :
    ∀ y ∈ transit, InService w.requests y.2.request :=
  fun _ hy => h.serving.held _ (List.mem_append_right _ (List.mem_map_of_mem hy))

theorem handleProxyResponses_spec : ∀ (now : List (ℕ × ProxyResponse)) {w : ServerWorld μ}
    {later : List (ℕ × ProxyResponse)} (tail : List PointerByte), w.Core lossless (now ++ later) →
    ∃ w', w.handleProxyResponses now.length ((addresses now).flatMap pointerBytes ++ tail) = .ok w' ∧
      w'.Core lossless later ∧ Delivered w w' now ∧ w'.pipe = w.pipe ∧
      w'.proxyExtraData = w.proxyExtraData := by
  intro now
  induction now with
  | nil => exact fun tail h => ⟨_, rfl, h, Delivered.refl _, rfl, rfl⟩
  | cons x now ih =>
    intro w later tail h
    obtain ⟨w₁, hone, hcore, hdelivered, hpipe, hextra⟩ := handleProxyResponse_spec h
    obtain ⟨w', hrest, hcore', hdelivered', hpipe', hextra'⟩ := ih tail hcore
    have hbuf : (addresses (x :: now)).flatMap pointerBytes ++ tail =
        pointerBytes x.1 ++ ((addresses now).flatMap pointerBytes ++ tail) := by
      rw [← List.append_assoc]
      rfl
    have hlength := length_pointerBytes x.1
    have hfirst : w.Core lossless ([x] ++ (now ++ later)) := h
    have hkept := hfirst.connectionOf_later hdelivered
    refine ⟨w', ?_, hcore', hdelivered.append hdelivered'
      (fun y hy => hkept y (List.mem_append_left later hy)),
      hpipe'.trans hpipe, hextra'.trans hextra⟩
    rw [hbuf, List.length_cons]
    unfold handleProxyResponses
    rw [List.take_left' hlength, List.drop_left' hlength, pointerOf_pointerBytes, except_ok_bind,
      hone, except_ok_bind]
    exact hrest

/-- The number of pointers that are whole after so many bytes were read. -/
def pointersRead (w : ServerWorld μ) (nread : ℕ) : ℕ :=
  (w.proxyExtraData ++
    w.pipe.take (min nread (sizeofPointer * proxyBufSize - w.proxyExtraData.length))).length /
      sizeofPointer

/-- A call of the handler takes out the answers whose pointers have come whole. -/
theorem handleProxyPipeReadable_spec (h : w.Inv lossless transit) (nread : ℕ) :
    ∃ w', w.handleProxyPipeReadable nread = .ok w' ∧
      w'.Inv lossless (transit.drop (w.pointersRead nread)) ∧
      Delivered w w' (transit.take (w.pointersRead nread)) := by
  set data := w.pipe.take (min nread (sizeofPointer * proxyBufSize - w.proxyExtraData.length))
    with hdata
  have hcount : w.pointersRead nread = (w.proxyExtraData ++ data).length / sizeofPointer := rfl
  unfold handleProxyPipeReadable
  simp only [← hdata]
  by_cases hnone : data = []
  · have hzero : w.pointersRead nread = 0 := by
      rw [hcount, hnone, List.append_nil]
      exact Nat.div_eq_of_lt h.inPipe.short
    rw [if_pos hnone, hzero]
    exact ⟨w, rfl, h, Delivered.refl w⟩
  · have hpipe : data ++ w.pipe.drop data.length = w.pipe :=
      List.prefix_iff_eq_append.mp (List.take_prefix _ w.pipe)
    have hstream : (w.proxyExtraData ++ data) ++ w.pipe.drop data.length =
        (addresses transit).flatMap pointerBytes := by
      rw [List.append_assoc, hpipe, h.inPipe.bytes]
    obtain ⟨hle, hfront, hrest, hshort⟩ :=
      records_front length_pointerBytes (by decide) hstream
    rw [← hcount] at hle hfront hrest hshort
    set n := w.pointersRead nread with hn
    have hnow : addresses (transit.take n) = (addresses transit).take n := List.map_take
    have hlater : addresses (transit.drop n) = (addresses transit).drop n := List.map_drop
    have hlength : (transit.take n).length = n := by
      rw [List.length_take, min_eq_left]
      simpa [addresses] using hle
    have hcore : ({ w with pipe := w.pipe.drop data.length } : ServerWorld μ).Core lossless
        (transit.take n ++ transit.drop n) := by
      rw [List.take_append_drop]
      exact ⟨h.core.toArranged.congr rfl rfl rfl rfl rfl, h.core.stored, h.core.serving⟩
    obtain ⟨w', hloop, hcore', hdelivered, hpipe', -⟩ :=
      handleProxyResponses_spec (transit.take n) ((w.proxyExtraData ++ data).drop (n * sizeofPointer))
        hcore
    rw [hlength, hnow, ← hfront] at hloop
    have hloop' : handleProxyResponses ((w.proxyExtraData ++ data).length / sizeofPointer)
        (w.proxyExtraData ++ data) { w with pipe := w.pipe.drop data.length } = .ok w' := hloop
    rw [if_neg hnone, hloop', except_ok_bind]
    refine ⟨_, rfl, ⟨⟨hcore'.toArranged.congr rfl rfl rfl rfl rfl, hcore'.stored, hcore'.serving⟩,
      ⟨?_, ?_, hshort, ?_, fun p hp => ?_⟩⟩, ⟨hdelivered.handled, hdelivered.written,
        hdelivered.proxies, hdelivered.receiving, hdelivered.owed, hdelivered.placed,
        hdelivered.keeps, hdelivered.outgoing⟩⟩
    · change w'.written = w'.handled ++ _
      rw [hdelivered.written, hdelivered.handled, List.append_assoc, hnow, hlater,
        List.take_append_drop]
      exact h.inPipe.written
    · change (w.proxyExtraData ++ data).drop (n * sizeofPointer) ++ w'.pipe = _
      rw [hpipe', hlater]
      exact hrest
    · change w'.written.Nodup
      rw [hdelivered.written]
      exact h.inPipe.once
    · change p < w'.proxies.cells.length
      rw [hdelivered.proxies]
      exact h.inPipe.known p (hdelivered.written ▸ hp)

/-! ## Steps -/

/-- What the surroundings keep to: `write` does not leave a part of a pointer in the pipe, and it does not
fail where no answer is to be lost. -/
def WritesWhole (lossless : Prop) (w : ServerWorld μ) : ServerLabel μ → Prop
  | .answer _ _ false (.partially _) => w.threading = false
  | .answer _ _ false .fails => lossless → w.threading = false
  | _ => True

/-- The service answers a request in the thread of the server, and its connection was closed. -/
def AnswersDefunct (w : ServerWorld μ) : ServerLabel μ → Prop
  | .answer request _ inRpcThread _ =>
      request ∈ w.owed ∧ ¬ (w.threading ∧ inRpcThread = false) ∧ w.connectionOf request = none
  | _ => False

/-- What a step does to the answers in the pipe. -/
def Moves (codec : Codec μ) (w : ServerWorld μ) (transit : List (ℕ × ProxyResponse))
    (w' : ServerWorld μ) (transit' : List (ℕ × ProxyResponse)) : ServerLabel μ → Prop
  | .answer request message false .whole =>
      if w.threading ∧ request ∈ w.owed then
        w'.requests = w.requests ∧ w'.handled = w.handled ∧ ∃ r, w.requests.get request = some r ∧
          transit' = transit ++
            [(w.proxies.cells.length, proxyOf request (responseBytes codec r message))]
      else transit' = transit ∧ w'.handled = w.handled
  | .proxyReadable nread =>
      if w.receiving = none then
        transit' = transit.drop (w.pointersRead nread) ∧
          Delivered w w' (transit.take (w.pointersRead nread))
      else transit' = transit ∧ w'.handled = w.handled
  | _ => transit' = transit ∧ w'.handled = w.handled

/-- The answer to a request whose connection is there, in the thread of the server. -/
theorem queueResponse_inv (h : w.Inv lossless transit) (howed : request ∈ w.owed)
    (hr : placeOf w.requests request = some (.pending conn)) (data : List UInt8) :
    ∃ w', { w with owed := w.owed.erase request }.queueResponse conn request data = .ok w' ∧
      w'.Inv lossless transit ∧ Quiet w w' := by
  have harranged : ({ w with owed := w.owed.erase request } : ServerWorld μ).Arranged :=
    h.core.toArranged.congr rfl rfl rfl rfl rfl
  obtain ⟨w', hok, hresponded, harranged', hservice⟩ := queueResponse_arranged harranged hr data
  have hpipe : w'.InPipe transit := hresponded.same.inPipe
    ⟨h.inPipe.written, h.inPipe.bytes, h.inPipe.short, h.inPipe.once, h.inPipe.known⟩
  refine ⟨w', hok, ⟨⟨harranged', ?_, ?_⟩, hpipe⟩, fun r i hr' => ?_, hresponded.same.handled⟩
  · rw [hresponded.same.proxies]
    exact h.core.stored
  · rw [hresponded.same.awaited]
    exact (h.core.serving.perm (awaited_erase howed transit)).leave hservice
  · rw [hresponded.placed r] at hr'
    split_ifs at hr'
    · exact absurd hr' (by simp)
    · exact hr'

/-- An answer in the thread of the server, after its connection was closed: the request is written to
after it was freed. -/
theorem answersDefunct_faults (h : w.Inv lossless transit) {label : ServerLabel μ}
    (hdefunct : w.AnswersDefunct label) : w.step codec label = .error .access := by
  cases label with
  | answer request message inRpcThread write =>
    obtain ⟨howed, hdirect, hconn⟩ := hdefunct
    have hin := h.core.serving.held request (List.mem_append_left _ howed)
    obtain ⟨q, hq⟩ : ∃ q, w.requests.get request = some q := by
      obtain hplace | ⟨conn, hplace⟩ := hin
      · obtain ⟨q, hq, -⟩ := placeOf_eq_some hplace
        exact ⟨q, hq⟩
      · obtain ⟨q, hq, -⟩ := placeOf_eq_some hplace
        exact ⟨q, hq⟩
    have hnone : q.conn = none := by
      unfold connectionOf at hconn
      rw [hq] at hconn
      exact hconn
    have hfreed : (Store.mk (w.requests.cells.set request none)).modify request
        (fun r => { r with info := .recycled w.recycledRequests }) = .error .access :=
      (Store.freed_of_free hq).modify _
    unfold step serverConnectionResponseClosure
    simp only [if_pos howed, Store.load_ok.mpr hq, except_ok_bind, if_neg hdirect, hnone,
      Store.free_ok hq]
    unfold freeServerRequest
    rw [hfreed]
    rfl
  | accept _ => exact absurd hdefunct id
  | events _ _ _ => exact absurd hdefunct id
  | receive => exact absurd hdefunct id
  | proxyReadable _ => exact absurd hdefunct id
  | configureThreading => exact absurd hdefunct id
  | other _ => exact absurd hdefunct id

theorem answer_spec (h : w.Inv lossless transit) (message : Option μ) (inRpcThread : Bool)
    (write : ProxyWrite) (hwhole : w.WritesWhole lossless (.answer request message inRpcThread write))
    (hdirect : ¬ w.AnswersDefunct (.answer request message inRpcThread write)) :
    ∃ w' transit', w.step codec (.answer request message inRpcThread write) = .ok w' ∧
      w'.Inv lossless transit' ∧ Keeps w w' ∧
      w.Moves codec transit w' transit' (.answer request message inRpcThread write) := by
  by_cases howed : request ∈ w.owed
  · have hin := h.core.serving.held request (List.mem_append_left _ howed)
    obtain ⟨q, hq⟩ : ∃ q, w.requests.get request = some q := by
      obtain hplace | ⟨conn, hplace⟩ := hin
      · obtain ⟨q, hq, -⟩ := placeOf_eq_some hplace
        exact ⟨q, hq⟩
      · obtain ⟨q, hq, -⟩ := placeOf_eq_some hplace
        exact ⟨q, hq⟩
    by_cases hproxy : w.threading ∧ inRpcThread = false
    · -- through the pipe
      have hstep : w.step codec (.answer request message inRpcThread write) =
          { w with owed := w.owed.erase request }.proxyResponse request
            (responseBytes codec q message) write := by
        unfold step serverConnectionResponseClosure
        simp only [if_pos howed, Store.load_ok.mpr hq, except_ok_bind, if_pos hproxy]
      obtain ⟨hthreading, rfl⟩ := hproxy
      rw [hstep]
      cases write with
      | whole =>
        obtain ⟨w', hok, hinv, hrequests, hhandled⟩ := proxyResponse_whole h howed
          (responseBytes codec q message)
        exact ⟨w', _, hok, hinv, .of_eq hrequests,
          (if_pos ⟨hthreading, howed⟩).mpr ⟨hrequests, hhandled, q, hq, rfl⟩⟩
      | partially rv => exact absurd (hthreading.symm.trans hwhole) (by simp)
      | fails =>
        have hlossy : ¬ lossless := fun hl => absurd (hthreading.symm.trans (hwhole hl)) (by simp)
        obtain ⟨w', hok, hinv, hrequests, hhandled⟩ := proxyResponse_fails h howed hlossy
          (responseBytes codec q message)
        exact ⟨w', transit, hok, hinv, .of_eq hrequests, rfl, hhandled⟩
    · -- in the thread of the server
      have hmoves : ∀ w', w'.handled = w.handled → w.Moves codec transit w' transit
          (.answer request message inRpcThread write) := by
        intro w' hhandled
        cases inRpcThread with
        | true => exact ⟨rfl, hhandled⟩
        | false =>
          cases write with
          | whole => exact (if_neg fun hboth => hproxy ⟨hboth.1, rfl⟩).mpr ⟨rfl, hhandled⟩
          | partially rv => exact ⟨rfl, hhandled⟩
          | fails => exact ⟨rfl, hhandled⟩
      obtain hplace | ⟨conn, hplace⟩ := hin
      · exact absurd ⟨howed, hproxy, connectionOf_defunct hplace⟩ hdirect
      · obtain ⟨w', hok, hinv, hquiet⟩ := queueResponse_inv h howed hplace
          (responseBytes codec q message)
        have hconn : q.conn = some conn := by
          obtain ⟨q', hq', hplace'⟩ := placeOf_eq_some hplace
          obtain rfl := Option.some.inj (hq.symm.trans hq')
          exact (place_pending hplace').1
        refine ⟨w', transit, ?_, hinv, hquiet.1, hmoves w' hquiet.2⟩
        unfold step serverConnectionResponseClosure
        simp only [if_pos howed, Store.load_ok.mpr hq, except_ok_bind, if_neg hproxy, hconn]
        exact hok
  · refine ⟨w, transit, ?_, h, .of_eq rfl, ?_⟩
    · unfold step
      exact if_neg howed
    · cases inRpcThread with
      | true => exact ⟨rfl, rfl⟩
      | false =>
        cases write with
        | whole => exact (if_neg fun hboth => howed hboth.2).mpr ⟨rfl, rfl⟩
        | partially rv => exact ⟨rfl, rfl⟩
        | fails => exact ⟨rfl, rfl⟩

/-- The connection gets a request in this step. -/
def Joins (codec : Codec μ) (w : ServerWorld μ) (label : ServerLabel μ) (conn : ℕ) : Prop :=
  label = .receive ∧ ∃ writable c, w.receiving = some (conn, writable) ∧
    w.connections.get conn = some c ∧ w.Invokes codec c

/-- Every other step goes through, and keeps what is kept between two steps. -/
theorem step_spec (codec : Codec μ) (h : w.Inv lossless transit) (label : ServerLabel μ)
    (hwhole : w.WritesWhole lossless label) (hdirect : ¬ w.AnswersDefunct label) :
    ∃ w' transit', w.step codec label = .ok w' ∧ w'.Inv lossless transit' ∧
      Gains (w.Joins codec label) w w' ∧ w.Moves codec transit w' transit' label := by
  cases label with
  | answer request message inRpcThread write =>
    obtain ⟨w', transit', hok, hinv, hkeeps, hmoves⟩ :=
      answer_spec h message inRpcThread write hwhole hdirect
    exact ⟨w', transit', hok, hinv, hkeeps.gains _, hmoves⟩
  | accept new_fd =>
    unfold step
    by_cases hnone : w.receiving.isNone
    · obtain ⟨w', hok, hinv, hquiet⟩ := handleServerListenerReadable_inv h new_fd
      exact ⟨w', transit, (if_pos hnone).trans hok, hinv, hquiet.1.gains _, rfl, hquiet.2⟩
    · exact ⟨w, transit, if_neg hnone, h, (Keeps.of_eq rfl).gains _, rfl, rfl⟩
  | events conn readable writable =>
    unfold step
    by_cases hreported : w.receiving.isNone ∧
        w.registeredFor conn (ClientWorld.reported writable readable)
    · obtain ⟨c, hc⟩ : ∃ c, w.connections.get conn = some c := by
        cases hc : w.connections.get conn with
        | some c => exact ⟨c, rfl⟩
        | none =>
          have hregistered := hreported.2
          unfold registeredFor at hregistered
          rw [hc] at hregistered
          exact absurd hregistered (by simp)
      obtain ⟨w', hok, hinv, hquiet⟩ := handleServerConnectionEvents_inv h
        (Option.isNone_iff_eq_none.mp hreported.1) hc readable writable
      exact ⟨w', transit, (if_pos hreported).trans hok, hinv, hquiet.1.gains _, rfl, hquiet.2⟩
    · exact ⟨w, transit, if_neg hreported, h, (Keeps.of_eq rfl).gains _, rfl, rfl⟩
  | receive =>
    unfold step
    cases hreceiving : w.receiving with
    | none => exact ⟨w, transit, rfl, h, (Keeps.of_eq rfl).gains _, rfl, rfl⟩
    | some x =>
      obtain ⟨c, hc⟩ := h.core.receiving x.1 x.2 hreceiving
      obtain ⟨w', hok, hinv, ⟨rv, hgains⟩, hhandled⟩ := receive_inv codec h hc x.2
      refine ⟨w', transit, hok, hinv, ⟨rv, fun r i hr => (hgains r i hr).imp id ?_⟩, rfl, hhandled⟩
      rintro ⟨hrv, ⟨rfl, hinvokes⟩, hnot⟩
      exact ⟨hrv, ⟨rfl, x.2, c, hreceiving, hc, hinvokes⟩, hnot⟩
  | proxyReadable nread =>
    unfold step
    by_cases hnone : w.receiving.isNone
    · obtain ⟨w', hok, hinv, hdelivered⟩ := handleProxyPipeReadable_spec h nread
      exact ⟨w', _, (if_pos hnone).trans hok, hinv, hdelivered.keeps.gains _,
        (if_pos (Option.isNone_iff_eq_none.mp hnone)).mpr ⟨rfl, hdelivered⟩⟩
    · exact ⟨w, transit, if_neg hnone, h, (Keeps.of_eq rfl).gains _,
        (if_neg fun heq => hnone (Option.isNone_iff_eq_none.mpr heq)).mpr ⟨rfl, rfl⟩⟩
  | configureThreading =>
    unfold step
    by_cases hnone : w.receiving.isNone
    · exact ⟨_, transit, if_pos hnone, h.congr ⟨rfl, rfl, rfl, rfl, rfl, rfl⟩ rfl rfl rfl
        (fun _ => rfl) (fun _ => rfl) h.core.receiving, (Keeps.of_eq rfl).gains _, rfl,
        rfl⟩
    · exact ⟨w, transit, if_neg hnone, h, (Keeps.of_eq rfl).gains _, rfl, rfl⟩
  | other call =>
    unfold step
    by_cases hserves : call.fd?.any w.serves
    · exact ⟨w, transit, if_pos hserves, h, (Keeps.of_eq rfl).gains _, rfl, rfl⟩
    · exact ⟨_, transit, if_neg hserves, h.congr ⟨rfl, rfl, rfl, rfl, rfl, rfl⟩ rfl rfl rfl
        (fun _ => rfl) (fun _ => rfl) h.core.receiving, (Keeps.of_eq rfl).gains _, rfl,
        rfl⟩

theorem inv_serverNewFromFd (service : ServiceDescriptor) (watched : Registered) :
    (serverNewFromFd service watched : ServerWorld μ).Inv lossless [] := by
  have hempty : ∀ r, placeOf (serverNewFromFd service watched : ServerWorld μ).requests r = none :=
    fun _ => rfl
  have hlaid : (serverNewFromFd service watched : ServerWorld μ).LaidOut (fun _ => []) [] :=
    ⟨fun r => by simp [hempty r], fun _ r => by simp [hempty r], fun r => by simp [hempty r],
      fun _ _ hc => absurd hc (by simp [serverNewFromFd, Store.get_empty]),
      fun _ _ hc => absurd hc (by simp [serverNewFromFd, Store.get_empty]), fun _ _ => rfl, [], rfl, rfl⟩
  have hlinked : (serverNewFromFd service watched : ServerWorld μ).ConnectionsLinked [] :=
    ⟨isList_nil _, fun _ => by simp [serverNewFromFd, Store.get_empty]⟩
  refine ⟨⟨⟨⟨_, _, hlaid⟩, ⟨_, hlinked⟩, fun _ _ hr => absurd hr (by simp [serverNewFromFd])⟩,
    ⟨List.nodup_nil, fun _ _ => by simp [serverNewFromFd, Store.get_empty]⟩,
    ⟨List.nodup_nil, fun _ hr => absurd hr List.not_mem_nil, fun _ r hr => ?_⟩⟩,
    ⟨rfl, rfl, Nat.zero_lt_succ 7, List.nodup_nil, fun _ hp => absurd hp List.not_mem_nil⟩⟩
  obtain hdefunct | ⟨_, hpending⟩ := hr
  · rw [hempty r] at hdefunct
    exact absurd hdefunct (by simp)
  · rw [hempty r] at hpending
    exact absurd hpending (by simp)

theorem inv_of_step (h : w.Inv lossless transit) {label : ServerLabel μ}
    (hwhole : w.WritesWhole lossless label) (hok : w.step codec label = .ok w') :
    ∃ transit', w'.Inv lossless transit' ∧ Gains (w.Joins codec label) w w' ∧
      w.Moves codec transit w' transit' label := by
  have hdirect : ¬ w.AnswersDefunct label := by
    intro hdefunct
    rw [answersDefunct_faults h hdefunct] at hok
    exact absurd hok (by simp)
  obtain ⟨w₁, transit', hok', hinv, hgains, hmoves⟩ := step_spec codec h label hwhole hdirect
  obtain rfl := Except.ok.inj (hok'.symm.trans hok)
  exact ⟨transit', hinv, hgains, hmoves⟩

theorem runs_inv {service : ServiceDescriptor} {watched : Registered}
    (h : Runs (step codec) (WritesWhole lossless) (serverNewFromFd service watched) w) :
    ∃ transit, w.Inv lossless transit := by
  refine h.invariant (I := fun w => ∃ transit, w.Inv lossless transit)
    ⟨[], inv_serverNewFromFd service watched⟩ ?_
  rintro t label u ⟨transit, hinv⟩ hwhole hok
  obtain ⟨transit', hinv', -, -⟩ := inv_of_step hinv hwhole hok
  exact ⟨transit', hinv'⟩

end ServerWorld

end ProtobufC
