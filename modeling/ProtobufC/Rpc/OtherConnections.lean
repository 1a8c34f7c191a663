import ProtobufC.Rpc.ServerRequests

/-! # The other connections of a server

A connection and the calls that the service has of it are left alone by whatever the server does for its
other connections: it accepts and closes them, reads from them and answers them.
-/

namespace ProtobufC
open Library
set_option autoImplicit false

variable {μ : Type}

namespace ServerWorld
variable {codec : Codec μ} {w w' w'' : ServerWorld μ} {conn other request : ℕ} {c : ServerConnection}
  {writable : Option WritevOutcome} {given : List (ℕ × RemoteCall μ)}

/-! ## What is left alone -/

/-- The connection, its requests and what is stored with them are the same. -/
structure Leaves (conn : ℕ) (w w' : ServerWorld μ) : Prop where
  service : w'.service = w.service
  threading : w'.threading = w.threading
  buffer : bufferView w'.connections conn = bufferView w.connections conn
  pending : ∀ r, placeOf w'.requests r = some (.pending conn) ↔
    placeOf w.requests r = some (.pending conn)
  headers : ∀ r, placeOf w.requests r = some (.pending conn) →
    requestView w'.requests r = requestView w.requests r
  receiving : ∀ writable, w'.receiving = some (conn, writable) → w.receiving = some (conn, writable)

theorem Leaves.of_requests (hservice : w'.service = w.service) (hthreading : w'.threading = w.threading)
    (hbuffer : bufferView w'.connections conn = bufferView w.connections conn)
    (hrequests : w'.requests = w.requests)
    (hreceiving : ∀ writable, w'.receiving = some (conn, writable) → w.receiving = some (conn, writable)) :
    Leaves conn w w' :=
  ⟨hservice, hthreading, hbuffer, fun r => by rw [hrequests], fun r _ => by rw [hrequests], hreceiving⟩

theorem Leaves.trans (h : Leaves conn w w') (h' : Leaves conn w' w'') : Leaves conn w w'' :=
  ⟨h'.service.trans h.service, h'.threading.trans h.threading, h'.buffer.trans h.buffer,
    fun r => (h'.pending r).trans (h.pending r),
    fun r hr => (h'.headers r ((h.pending r).mpr hr)).trans (h.headers r hr),
    fun writable hr => h.receiving writable (h'.receiving writable hr)⟩

/-- A connection that is left alone goes on with its calls. -/
theorem Carries.leaves (h : w.Carries conn given) (hl : Leaves conn w w') (hinv : w'.Inv True []) :
    w'.Carries conn given := by
  refine ⟨hinv, hl.threading.trans h.direct, ?_, fun r => (hl.pending r).trans (h.pending r),
    fun g hg => ?_, fun writable hr => h.writes writable (hl.receiving writable hr)⟩
  · obtain ⟨c, hc⟩ := h.connection
    have hview := hl.buffer
    unfold bufferView at hview
    rw [hc] at hview
    obtain ⟨c', hc', -⟩ := Option.map_eq_some_iff.mp hview
    exact ⟨c', hc'⟩
  · rw [hl.headers g.1 ((h.pending g.1).mpr (List.mem_map_of_mem hg))]
    exact h.header g hg

theorem bufferView_set (hc : w.connections.get other = some c) (hne : conn ≠ other)
    (x : Option ServerConnection) :
    bufferView ⟨w.connections.cells.set other x⟩ conn = bufferView w.connections conn := by
  unfold bufferView
  rw [Store.get_set hc, if_neg hne]

/-! ## Closing -/

theorem disassociateLoop_headers : ∀ {fuel : ℕ} {requests requests' : Store ServerRequest} {p : Option ℕ},
    disassociateLoop fuel requests p = .ok requests' →
      ∀ r, requestView requests' r = requestView requests r := by
  intro fuel
  induction fuel with
  | zero =>
    intro requests requests' p h r
    cases p with
    | none =>
      obtain rfl := Except.ok.inj h
      rfl
    | some req => exact absurd h (by simp [disassociateLoop])
  | succ fuel ih =>
    intro requests requests' p h r
    cases p with
    | none =>
      obtain rfl := Except.ok.inj h
      rfl
    | some req =>
      obtain ⟨links, -, h⟩ := except_bind_eq_ok h
      obtain ⟨requests₁, hmodify, h⟩ := except_bind_eq_ok h
      obtain ⟨q, hq, -⟩ := except_bind_eq_ok hmodify
      have hq := Store.load_ok.mp hq
      obtain rfl := Except.ok.inj ((Store.modify_ok hq _).symm.trans hmodify)
      rw [ih h r]
      unfold requestView
      rw [Store.get_set hq]
      by_cases hr : r = req
      · rw [if_pos hr, hr, hq]
        rfl
      · rw [if_neg hr]

theorem serverConnectionClose_leaves (h : w.Inv True []) (hc : w.connections.get other = some c)
    (hne : conn ≠ other) (hok : w.serverConnectionClose other = .ok w') : Leaves conn w w' := by
  obtain ⟨pending, recycled, hlaid⟩ := h.core.laid
  obtain ⟨conns, hconns⟩ := h.core.linked
  obtain ⟨w₁, hok₁, hclosed, -⟩ := serverConnectionClose_spec hlaid hconns hc
  obtain rfl := Except.ok.inj (hok.symm.trans hok₁)
  have hpending : ∀ r, placeOf w'.requests r = some (.pending conn) ↔
      placeOf w.requests r = some (.pending conn) := by
    intro r
    rw [hclosed.placed r]
    by_cases hr : placeOf w.requests r = some (.pending other)
    · rw [if_pos hr, hr]
      simp [Ne.symm hne]
    · rw [if_neg hr]
  unfold serverConnectionClose at hok
  obtain ⟨c₀, -, hok⟩ := except_bind_eq_ok hok
  obtain ⟨⟨connections, ends⟩, hremove, hok⟩ := except_bind_eq_ok hok
  obtain ⟨requests, hloop, hok⟩ := except_bind_eq_ok hok
  obtain ⟨connections', hfree, hok⟩ := except_bind_eq_ok hok
  have heq := Except.ok.inj hok
  have hbare : bufferView connections conn = bufferView w.connections conn :=
    (listRemove_sameBare hremove).map (fun _ _ => rfl) conn
  refine ⟨by rw [← heq]; rfl, by rw [← heq]; rfl, ?_, hpending, fun r _ => ?_, fun writable hr => ?_⟩
  · rw [← heq, ← hbare]
    unfold bufferView
    exact congrArg _ (Store.get_of_free_ne hfree hne)
  · rw [← heq]
    exact disassociateLoop_headers hloop r
  · rw [← hclosed.receiving]
    exact hr

theorem serverConnectionFailed_leaves (h : w.Inv True []) (hc : w.connections.get other = some c)
    (hne : conn ≠ other) {code : RpcErrorCode} {format : String}
    (hok : w.serverConnectionFailed other code format = .ok w') : Leaves conn w w' := by
  have hfailed : (w.serverFailedLiteral code format).Inv True [] :=
    h.congr ⟨rfl, rfl, rfl, rfl, rfl, rfl⟩ rfl rfl rfl (fun _ => rfl) (fun _ => rfl) h.core.receiving
  have hl := serverConnectionClose_leaves hfailed hc hne hok
  exact ⟨hl.service, hl.threading, hl.buffer, hl.pending, hl.headers, hl.receiving⟩

/-! ## Reading and writing -/

theorem handleServerWritable_leaves (h : w.Inv True []) (hc : w.connections.get other = some c)
    (hne : conn ≠ other) (hok : w.handleServerWritable other writable = .ok w') : Leaves conn w w' := by
  by_cases hwrites : writable = some .fails
  · subst hwrites
    unfold handleServerWritable at hok
    simp only [Store.load_ok.mpr hc, except_ok_bind] at hok
    split_ifs at hok
    · exact serverConnectionFailed_leaves h hc hne hok
    · obtain rfl := Except.ok.inj hok
      exact .of_requests rfl rfl rfl rfl fun _ => id
  · obtain ⟨watched, hrun⟩ := handleServerWritable_alive hc hwrites
    obtain rfl := Except.ok.inj (hrun.symm.trans hok)
    exact .of_requests rfl rfl (bufferView_set hc hne _) rfl fun _ => id

theorem handleServerConnectionEvents_leaves (h : w.Inv True []) (hc : w.connections.get other = some c)
    (hne : conn ≠ other) {readable : Option ReadOutcome}
    (hok : w.handleServerConnectionEvents other readable writable = .ok w') : Leaves conn w w' := by
  cases readable with
  | none => exact handleServerWritable_leaves h hc hne hok
  | some outcome =>
    cases outcome with
    | ignorable => exact handleServerWritable_leaves h hc hne hok
    | fails => exact serverConnectionFailed_leaves h hc hne hok
    | received data =>
      cases data with
      | nil =>
        unfold handleServerConnectionEvents at hok
        simp only [Store.load_ok.mpr hc, except_ok_bind] at hok
        split_ifs at hok
        · exact serverConnectionFailed_leaves h hc hne hok
        · exact serverConnectionClose_leaves h hc hne hok
      | cons b data =>
        unfold handleServerConnectionEvents at hok
        simp only [Store.modify_ok hc, except_ok_bind] at hok
        obtain rfl := Except.ok.inj hok
        exact .of_requests rfl rfl (bufferView_set hc hne _) rfl fun writable' hr =>
          absurd (congrArg Prod.fst (Option.some.inj hr)) (Ne.symm hne)

/-! ## Requests and answers -/

theorem createServerRequest_leaves (h : w.Inv True []) (hc : w.connections.get other = some c)
    (hne : conn ≠ other) {request_id method_index : UInt32} {rv : ℕ}
    (hok : w.createServerRequest other request_id method_index = .ok (rv, w')) : Leaves conn w w' := by
  obtain ⟨pending, recycled, hlaid⟩ := h.core.laid
  obtain ⟨rv₁, w₁, recycled', hok₁, hcreated, -⟩ :=
    createServerRequest_spec hlaid hc request_id method_index
  obtain ⟨rfl, rfl⟩ := Prod.mk.inj (Except.ok.inj (hok.symm.trans hok₁))
  have hstamped := createServerRequest_stamped hok
  have hnot : ¬ placeOf w.requests rv = some (.pending conn) :=
    fun hr => not_inService_of_fresh hcreated (.inr ⟨conn, hr⟩)
  refine ⟨hstamped.service, hstamped.threading, hstamped.buffers conn, fun r => ?_, fun r hr => ?_,
    fun writable hr => ?_⟩
  · rw [hcreated.placed r]
    by_cases hr : r = rv
    · rw [if_pos hr, hr]
      simp [Ne.symm hne, hnot]
    · rw [if_neg hr]
  · have hr' : r ≠ rv := by
      rintro rfl
      exact hnot hr
    obtain ⟨q, hq, -⟩ := placeOf_eq_some hr
    rw [hstamped.old r q hr' hq]
    unfold requestView
    rw [hq]
    rfl
  · rw [← hcreated.receiving]
    exact hr

theorem receive_leaves (h : w.Inv True []) (hc : w.connections.get other = some c) (hne : conn ≠ other)
    (hok : w.receive codec other writable = .ok w') : Leaves conn w w' := by
  have hstop : w.stopReceiving.Inv True [] :=
    h.congr ⟨rfl, rfl, rfl, rfl, rfl, rfl⟩ rfl rfl rfl (fun _ => rfl) (fun _ => rfl)
      fun _ _ hr => absurd hr (by simp [stopReceiving])
  have hstopped : Leaves conn w w.stopReceiving :=
    .of_requests rfl rfl rfl rfl fun _ hr => absurd hr (by simp [stopReceiving])
  unfold receive at hok
  simp only [Store.load_ok.mpr hc, except_ok_bind] at hok
  split_ifs at hok with hshort hwait
  · exact hstopped.trans (handleServerWritable_leaves hstop hc hne hok)
  · exact hstopped.trans (handleServerWritable_leaves hstop hc hne hok)
  · cases hmethod : w.service.methods[(headerWord c.incoming 0).toNat]? with
    | none =>
      rw [hmethod] at hok
      exact hstopped.trans (serverConnectionFailed_leaves hstop hc hne hok)
    | some method =>
      simp only [hmethod, Store.write_ok hc, except_ok_bind] at hok
      let c₁ : ServerConnection := { c with
        incoming := (c.incoming.drop 12).drop (headerWord c.incoming 1).toNat }
      let w₁ : ServerWorld μ := { w with connections := ⟨w.connections.cells.set other (some c₁)⟩ }
      have hc₁ : w₁.connections.get other = some c₁ := get_of_set hc rfl
      have hwrite : ∀ receiving, (∀ i writable, receiving = some (i, writable) →
          ∃ c, w.connections.get i = some c) →
            ({ w₁ with receiving := receiving } : ServerWorld μ).Inv True [] :=
        fun receiving => h.write hc _ c.outgoing w.watched receiving
      have hwritten : Leaves conn w w₁ := .of_requests rfl rfl (bufferView_set hc hne _) rfl fun _ => id
      cases hunpack : codec.unpack method.input
          (readBlock (c.incoming.drop 12) (headerWord c.incoming 1).toNat) with
      | none =>
        simp only [hunpack] at hok
        have hstop₁ : w₁.stopReceiving.Inv True [] := hwrite none fun _ _ hr => absurd hr (by simp)
        have hl : Leaves conn w₁ w₁.stopReceiving :=
          .of_requests rfl rfl rfl rfl fun _ hr => absurd hr (by simp [stopReceiving])
        exact hwritten.trans (hl.trans (serverConnectionFailed_leaves hstop₁ hc₁ hne hok))
      | some message =>
        simp only [hunpack] at hok
        obtain ⟨⟨rv, w₂⟩, hcreate, hok⟩ := except_bind_eq_ok hok
        obtain rfl := Except.ok.inj hok
        have hl := createServerRequest_leaves (hwrite w.receiving h.core.receiving) hc₁ hne hcreate
        exact hwritten.trans ⟨hl.service, hl.threading, hl.buffer, hl.pending, hl.headers, hl.receiving⟩

theorem handleServerListenerReadable_leaves (hc : w.connections.get conn = some c) {new_fd : Option ℕ}
    (hok : w.handleServerListenerReadable new_fd = .ok w') : Leaves conn w w' := by
  unfold handleServerListenerReadable at hok
  cases new_fd with
  | none =>
    obtain rfl := Except.ok.inj hok
    exact .of_requests rfl rfl rfl rfl fun _ => id
  | some fd =>
    obtain ⟨⟨connections, ends⟩, happend, hok⟩ := except_bind_eq_ok hok
    obtain rfl := Except.ok.inj hok
    refine .of_requests rfl rfl ?_ rfl fun _ => id
    have hbare := (listAppend_sameBare happend).map
      (f := fun c : ServerConnection => (c.incoming, c.outgoing)) (fun _ _ => rfl) conn
    refine hbare.trans ?_
    unfold bufferView
    rw [Store.get_alloc_old hc, hc]

theorem queueResponse_leaves (h : w.Inv True []) (hne : conn ≠ other)
    (hr : placeOf w.requests request = some (.pending other)) {data : List UInt8}
    (hok : { w with owed := w.owed.erase request }.queueResponse other request data = .ok w') :
    Leaves conn w w' := by
  have harranged : ({ w with owed := w.owed.erase request } : ServerWorld μ).Arranged :=
    h.core.toArranged.congr rfl rfl rfl rfl rfl
  obtain ⟨w₁, hok₁, hresponded, -⟩ := queueResponse_arranged harranged hr data
  obtain rfl := Except.ok.inj (hok.symm.trans hok₁)
  have happended := queueResponse_appended hok
  refine ⟨happended.service, happended.threading, ?_, fun r => ?_, fun r _ => happended.headers r,
    fun writable hr => ?_⟩
  · rw [happended.buffers]
    simp only [if_neg hne]
    exact Option.map_id'
  · rw [hresponded.placed r]
    by_cases heq : r = request
    · rw [if_pos heq, heq]
      refine iff_of_false (by simp) fun hpending => ?_
      rw [hr] at hpending
      exact hne (Place.pending.inj (Option.some.inj hpending)).symm
    · rw [if_neg heq]
  · rw [← hresponded.receiving]
    exact hr

/-! ## Steps -/

/-- The step is about other connections. -/
def Elsewhere (w : ServerWorld μ) (conn : ℕ) : ServerLabel μ → Prop
  | .events other _ _ => conn ≠ other
  | .receive => ∀ writable, w.receiving ≠ some (conn, writable)
  | .answer request _ _ _ => w.connectionOf request ≠ some conn
  | .configureThreading => False
  | .accept _ | .proxyReadable _ | .other _ => True

theorem step_leaves {label : ServerLabel μ} (h : w.Carries conn given) (helse : w.Elsewhere conn label)
    (hok : w.step codec label = .ok w') : Leaves conn w w' := by
  have hsame : Leaves conn w w := .of_requests rfl rfl rfl rfl fun _ => id
  obtain ⟨c, hc⟩ := h.connection
  unfold step at hok
  cases label with
  | accept new_fd =>
    dsimp only at hok
    split_ifs at hok
    · exact handleServerListenerReadable_leaves hc hok
    · obtain rfl := Except.ok.inj hok
      exact hsame
  | events other readable writable =>
    dsimp only at hok
    split_ifs at hok with hreported
    · cases hother : w.connections.get other with
      | some c' => exact handleServerConnectionEvents_leaves h.inv hother helse hok
      | none =>
        have hregistered := hreported.2
        unfold registeredFor at hregistered
        rw [hother] at hregistered
        exact absurd hregistered (by simp)
    · obtain rfl := Except.ok.inj hok
      exact hsame
  | receive =>
    cases hreceiving : w.receiving with
    | none =>
      rw [hreceiving] at hok
      obtain rfl := Except.ok.inj hok
      exact hsame
    | some x =>
      obtain ⟨c', hc'⟩ := h.inv.core.receiving x.1 x.2 hreceiving
      simp only [hreceiving] at hok
      refine receive_leaves h.inv hc' ?_ hok
      rintro rfl
      exact helse x.2 hreceiving
  | answer request message inRpcThread write =>
    by_cases howed : request ∈ w.owed
    · have hproxy : ¬ (w.threading = true ∧ inRpcThread = false) := by
        rw [h.direct]
        simp
      simp only [if_pos howed] at hok
      obtain hplace | ⟨other, hplace⟩ := h.inv.core.serving.held request (List.mem_append_left _ howed)
      · have hfaults : w.step codec (.answer request message inRpcThread write) = .error .access :=
          answersDefunct_faults h.inv ⟨howed, hproxy, connectionOf_defunct hplace⟩
        unfold step at hfaults
        simp only [if_pos howed] at hfaults
        rw [hfaults] at hok
        exact absurd hok (by simp)
      · obtain ⟨q, hq, hqplace⟩ := placeOf_eq_some hplace
        have hne : conn ≠ other := by
          rintro rfl
          exact helse (connectionOf_pending hplace)
        unfold serverConnectionResponseClosure at hok
        simp only [Store.load_ok.mpr hq, except_ok_bind, if_neg hproxy, (place_pending hqplace).1] at hok
        exact queueResponse_leaves h.inv hne hplace hok
    · simp only [if_neg howed] at hok
      obtain rfl := Except.ok.inj hok
      exact hsame
  | proxyReadable nread =>
    -- nothing is in the pipe of a server with one thread
    have hpipe : w.pipe = [] := (List.append_eq_nil_iff.mp h.inv.inPipe.bytes).2
    dsimp only at hok
    split_ifs at hok
    · unfold handleProxyPipeReadable at hok
      simp only [hpipe, List.take_nil, if_true] at hok
      obtain rfl := Except.ok.inj hok
      exact hsame
    · obtain rfl := Except.ok.inj hok
      exact hsame
  | configureThreading => exact helse.elim
  | other call =>
    dsimp only at hok
    split_ifs at hok
    · obtain rfl := Except.ok.inj hok
      exact hsame
    · obtain rfl := Except.ok.inj hok
      exact .of_requests rfl rfl rfl rfl fun _ => id

/-- No answer gets into the pipe of a server with one thread. -/
theorem transit_eq_nil (hdirect : w.threading = false) {label : ServerLabel μ}
    {transit' : List (ℕ × ProxyResponse)} (h : w.Moves codec [] w' transit' label) : transit' = [] := by
  cases label with
  | answer request message inRpcThread write =>
    have hnot : ¬ (w.threading = true ∧ request ∈ w.owed) := by
      rw [hdirect]
      simp
    cases inRpcThread with
    | true => exact h.1
    | false =>
      cases write with
      | whole => exact ((if_neg hnot).mp h).1
      | partially rv => exact h.1
      | fails => exact h.1
  | proxyReadable nread =>
    unfold Moves at h
    split_ifs at h
    · exact h.1.trans List.drop_nil
    · exact h.1
  | accept _ | events _ _ _ | receive | configureThreading | other _ => exact h.1

/-- A step for other connections leaves the calls of this one alone. -/
theorem Carries.elsewhere (codec : Codec μ) (h : w.Carries conn given) {label : ServerLabel μ}
    (helse : w.Elsewhere conn label) (hdirect : ¬ w.AnswersDefunct label) :
    ∃ w', w.step codec label = .ok w' ∧ w'.Carries conn given ∧ Leaves conn w w' := by
  have hwhole : w.WritesWhole True label := by
    unfold WritesWhole
    split
    · exact h.direct
    · exact fun _ => h.direct
    · trivial
  obtain ⟨w', transit', hok, hinv, -, hmoves⟩ := step_spec codec h.inv label hwhole hdirect
  obtain rfl := transit_eq_nil h.direct hmoves
  have hl := step_leaves h helse hok
  exact ⟨w', hok, h.leaves hl hinv, hl⟩

end ServerWorld

end ProtobufC
