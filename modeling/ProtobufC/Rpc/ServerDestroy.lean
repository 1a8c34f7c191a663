import ProtobufC.Rpc.RequestsOwned
import ProtobufC.Rpc.WatchesExact

/-! # Destroying a server

`protobuf_c_rpc_server_destroy` closes the connections and releases the requests that are recycled.  What
is left are the requests that the service has still to answer, and what other users of the dispatcher have
registered; `serverDestroy_exact` says so for a server in any state that it is left in by a handler.
-/

namespace ProtobufC
open Library
set_option autoImplicit false

variable {μ : Type}

namespace ServerWorld

/-! ## The code -/

/-- The loop over the connections. -/
def closeConnections : ℕ → ServerWorld μ → Except Fault (ServerWorld μ)
  | 0, w => if w.connectionEnds.first = none then .ok w else .error .hang
  | fuel + 1, w =>
      match w.connectionEnds.first with
      | none => .ok w
      | some conn => do closeConnections fuel (← w.serverConnectionClose conn)

/-- The loop over the requests that are recycled. -/
def freeRecycled : ℕ → Store ServerRequest → Option ℕ → Except Fault (Store ServerRequest)
  | _, requests, none => .ok requests
  | 0, _, some _ => .error .hang
  | fuel + 1, requests, some req => do
      match (← requests.load req).info with
      | .recycled next => freeRecycled fuel (← requests.free req) next
      | .alive _ | .defunct => .error .access

/-- `protobuf_c_rpc_server_destroy`, as far as connections, requests and the dispatcher are concerned. -/
def serverDestroy (w : ServerWorld μ) (listening_fd : ℕ) : Except Fault (ServerWorld μ) := do
  let w ← closeConnections (w.connections.cells.length + 1) w
  let requests ← freeRecycled (w.requests.cells.length + 1) w.requests w.recycledRequests
  return { w with requests := requests, recycledRequests := none }.closeFd listening_fd

variable {w w' : ServerWorld μ} {conn : ℕ} {c : ServerConnection} {pending : ℕ → List ℕ}
  {recycled : List ℕ}

/-! ## Connections -/

/-- What closing a connection leaves of the file descriptors. -/
theorem serverConnectionClose_fds (hc : w.connections.get conn = some c)
    (hok : w.serverConnectionClose conn = .ok w') :
    w'.watched = (w.closeFd c.fd).watched ∧
      ∀ i, (w'.connections.get i).map ServerConnection.fd =
        if i = conn then none else (w.connections.get i).map ServerConnection.fd := by
  obtain ⟨c', hload, hok⟩ := except_bind_eq_ok hok
  obtain rfl := Option.some.inj (hc.symm.trans (Store.load_ok.mp hload))
  obtain ⟨⟨connections, ends⟩, hremove, hok⟩ := except_bind_eq_ok hok
  obtain ⟨requests, -, hok⟩ := except_bind_eq_ok hok
  obtain ⟨connections', hfree, hok⟩ := except_bind_eq_ok hok
  obtain rfl := Except.ok.inj hok
  refine ⟨rfl, fun i => ?_⟩
  have hrelink : (connections.get i).map ServerConnection.fd =
      (w.connections.get i).map ServerConnection.fd :=
    (listRemove_sameBare hremove).map (fun _ _ => rfl) i
  change (connections'.get i).map ServerConnection.fd = _
  by_cases hi : i = conn
  · rw [hi, Store.get_of_free hfree, if_pos rfl]
    rfl
  · rw [Store.get_of_free_ne hfree hi, if_neg hi]
    exact hrelink

/-- The file descriptor is that of a connection. -/
def HasFd (w : ServerWorld μ) (fd : ℕ) : Prop :=
  ∃ i, (w.connections.get i).map ServerConnection.fd = some fd

/-- All connections are closed: requests in service are defunct, and the others are recycled. -/
structure AllClosed (w w' : ServerWorld μ) : Prop where
  same : SameProxies w w'
  gone : ∀ i, w'.connections.get i = none
  placed : ∀ r place, placeOf w'.requests r = some place ↔
    place = .defunct ∧ InService w.requests r ∨
      place = .recycled ∧ placeOf w.requests r = some .recycled
  unregistered : ∀ fd, w.HasFd fd → w'.watched fd = none
  others : ∀ fd, ¬ w.HasFd fd → w'.watched fd = w.watched fd

theorem LaidOut.allClosed (h : w.LaidOut pending recycled) (hgone : ∀ i, w.connections.get i = none) :
    AllClosed w w := by
  have hnot : ∀ fd, ¬ w.HasFd fd := by
    rintro fd ⟨i, hi⟩
    rw [hgone i] at hi
    exact absurd hi (by simp)
  refine ⟨.refl w, hgone, fun r place => ⟨fun hplace => ?_, fun hor => ?_⟩,
    fun fd hfd => absurd hfd (hnot fd), fun _ _ => rfl⟩
  · cases place with
    | pending conn =>
      have hmem := (h.mem_pending conn r).mpr hplace
      rw [h.closed conn (hgone conn)] at hmem
      exact absurd hmem List.not_mem_nil
    | defunct => exact .inl ⟨rfl, .inl hplace⟩
    | recycled => exact .inr ⟨rfl, hplace⟩
    | nowhere => exact absurd hplace (h.somewhere r)
  · obtain ⟨rfl, hdefunct | ⟨conn, hpending⟩⟩ | ⟨rfl, hrecycled⟩ := hor
    · exact hdefunct
    · have hmem := (h.mem_pending conn r).mpr hpending
      rw [h.closed conn (hgone conn)] at hmem
      exact absurd hmem List.not_mem_nil
    · exact hrecycled

/-- One connection, and then the others. -/
theorem Closed.allClosed {w₁ : ServerWorld μ} (h : Closed w w₁ conn)
    (hc : w.connections.get conn = some c) (hok : w.serverConnectionClose conn = .ok w₁)
    (hrest : AllClosed w₁ w') : AllClosed w w' := by
  obtain ⟨hwatched, hfds⟩ := serverConnectionClose_fds hc hok
  have hown : w₁.watched c.fd = none := by
    rw [hwatched]
    exact if_pos rfl
  have hkept : ∀ fd, fd ≠ c.fd → w₁.watched fd = w.watched fd := by
    intro fd hne
    rw [hwatched]
    exact if_neg hne
  have hiff : ∀ fd, w.HasFd fd ↔ fd = c.fd ∨ w₁.HasFd fd := by
    intro fd
    constructor
    · rintro ⟨i, hi⟩
      by_cases heq : i = conn
      · rw [heq, hc, Option.map_some, Option.some.injEq] at hi
        exact .inl hi.symm
      · exact .inr ⟨i, by rw [hfds i, if_neg heq, hi]⟩
    · rintro (rfl | ⟨i, hi⟩)
      · exact ⟨conn, by rw [hc]; rfl⟩
      · rw [hfds i] at hi
        split_ifs at hi
        exact ⟨i, hi⟩
  have hrecycled : ∀ r, placeOf w₁.requests r = some .recycled ↔
      placeOf w.requests r = some .recycled := by
    intro r
    rw [h.placed r]
    by_cases hr : placeOf w.requests r = some (.pending conn)
    · rw [if_pos hr, hr]
      simp
    · rw [if_neg hr]
  refine ⟨⟨hrest.same.proxies.trans h.same.proxies, hrest.same.pipe.trans h.same.pipe,
    hrest.same.extra.trans h.same.extra, hrest.same.written.trans h.same.written,
    hrest.same.handled.trans h.same.handled, hrest.same.owed.trans h.same.owed⟩, hrest.gone,
    fun r place => ?_, fun fd hfd => ?_, fun fd hfd => ?_⟩
  · rw [hrest.placed r place, inService_of_closed h r, hrecycled r]
  · by_cases hlater : w₁.HasFd fd
    · exact hrest.unregistered fd hlater
    · obtain rfl := ((hiff fd).mp hfd).resolve_right hlater
      exact (hrest.others _ hlater).trans hown
  · rw [hiff fd, not_or] at hfd
    exact (hrest.others fd hfd.2).trans (hkept fd hfd.1)

theorem closeConnections_spec : ∀ (conns : List ℕ) (fuel : ℕ) {w : ServerWorld μ} {pending : ℕ → List ℕ},
    conns.length ≤ fuel → w.LaidOut pending recycled → w.ConnectionsLinked conns →
    ∃ w' pending', closeConnections fuel w = .ok w' ∧ AllClosed w w' ∧
      w'.LaidOut pending' recycled := by
  intro conns
  induction conns with
  | nil =>
    intro fuel w pending _ hlaid hconns
    have hfirst : w.connectionEnds.first = none := hconns.list.first
    have hgone : ∀ i, w.connections.get i = none := by
      intro i
      cases hi : w.connections.get i with
      | none => rfl
      | some c => exact absurd ((hconns.mem i).mpr ⟨c, hi⟩) List.not_mem_nil
    refine ⟨w, pending, ?_, hlaid.allClosed hgone, hlaid⟩
    cases fuel with
    | zero => exact if_pos hfirst
    | succ fuel => rw [closeConnections, hfirst]
  | cons conn conns ih =>
    intro fuel w pending hfuel hlaid hconns
    cases fuel with
    | zero => exact absurd hfuel (by simp)
    | succ fuel =>
      have hfirst : w.connectionEnds.first = some conn := hconns.list.first
      obtain ⟨c, hc⟩ := (hconns.mem conn).mp List.mem_cons_self
      obtain ⟨w₁, hok, hclosed, hlaid₁, hconns₁⟩ := serverConnectionClose_spec hlaid hconns hc
      rw [List.erase_cons_head] at hconns₁
      obtain ⟨w', pending', hloop, hall, hlaid'⟩ :=
        ih fuel (Nat.le_of_succ_le_succ hfuel) hlaid₁ hconns₁
      refine ⟨w', pending', ?_, hclosed.allClosed hc hok hall, hlaid'⟩
      rw [closeConnections, hfirst]
      dsimp only
      rw [hok, except_ok_bind]
      exact hloop

/-! ## Requests -/

theorem freeRecycled_spec : ∀ (xs : List (ℕ × ServerRequest)) (fuel : ℕ) {requests : Store ServerRequest}
    {p : Option ℕ}, xs.length ≤ fuel → Chain recycledNext requests.get p xs none →
    (∀ x ∈ xs, x.2.place = .recycled) →
    ∃ requests', freeRecycled fuel requests p = .ok requests' ∧
      ∀ r, requests'.get r = if r ∈ addresses xs then none else requests.get r := by
  intro xs
  induction xs with
  | nil =>
    intro fuel requests p _ hchain _
    obtain rfl : p = none := hchain
    exact ⟨requests, by cases fuel <;> rfl, fun r => rfl⟩
  | cons x xs ih =>
    intro fuel requests p hfuel hchain hplaces
    have hnodup := (List.nodup_cons.mp hchain.nodup).1
    obtain ⟨rfl, hget, hrest⟩ := hchain
    obtain ⟨next, hinfo⟩ := place_recycled (hplaces x List.mem_cons_self)
    have hnext : recycledNext x.2 = next := by
      unfold recycledNext
      rw [hinfo]
    have hset := Store.get_set hget none
    cases fuel with
    | zero => exact absurd hfuel (by simp)
    | succ fuel =>
      have hrest' : Chain recycledNext (Store.mk (requests.cells.set x.1 none)).get next xs none := by
        rw [← hnext]
        refine hrest.congr fun y hy => ?_
        rw [hset, if_neg fun heq => hnodup (List.mem_map.mpr ⟨y, hy, heq⟩)]
        exact hrest.store_eq y hy
      obtain ⟨requests', hok, hget'⟩ := ih fuel (Nat.le_of_succ_le_succ hfuel) hrest'
        fun y hy => hplaces y (List.mem_cons_of_mem x hy)
      refine ⟨requests', ?_, fun r => ?_⟩
      · rw [freeRecycled, Store.load_ok.mpr hget, except_ok_bind, hinfo]
        dsimp only
        rw [Store.free_ok hget, except_ok_bind]
        exact hok
      · change _ = if r ∈ x.1 :: addresses xs then none else requests.get r
        rw [hget' r, hset r]
        by_cases hr : r = x.1
        · simp [hr]
        · simp only [List.mem_cons, hr, false_or, if_false]

theorem length_recycled {requests : Store ServerRequest} {xs : List (ℕ × ServerRequest)} {p : Option ℕ}
    (h : Chain recycledNext requests.get p xs none) : xs.length ≤ requests.cells.length := by
  have hsub : addresses xs ⊆ List.range requests.cells.length := by
    intro r hr
    obtain ⟨x, hx, rfl⟩ := List.mem_map.mp hr
    exact List.mem_range.mpr (Store.get_lt (h.store_eq x hx))
  simpa using (h.nodup.subperm hsub).length_le

/-! ## The server -/

/-- What is left of a server. -/
structure Destroyed (w w' : ServerWorld μ) (listening_fd : ℕ) : Prop where
  same : SameProxies w w'
  connections : ∀ i, w'.connections.get i = none
  /-- Of the requests those that the service has been given and not answered. -/
  requests : ∀ r, w'.requests.get r ≠ none ↔ InService w.requests r
  defunct : ∀ r q, w'.requests.get r = some q → q.conn = none ∧ q.info = .defunct
  unregistered : ∀ fd, fd = listening_fd ∨ w.HasFd fd → w'.watched fd = none
  others : ∀ fd, fd ≠ listening_fd → ¬ w.HasFd fd → w'.watched fd = w.watched fd

theorem Arranged.destroyed (h : w.Arranged) (listening_fd : ℕ) :
    ∃ w', w.serverDestroy listening_fd = .ok w' ∧ w.Destroyed w' listening_fd := by
  obtain ⟨pending, recycled, hlaid⟩ := h.laid
  obtain ⟨conns, hconns⟩ := h.linked
  obtain ⟨w₁, pending₁, hclose, hall, hlaid₁⟩ := closeConnections_spec conns
    (w.connections.cells.length + 1) (Nat.le_succ_of_le hconns.list.length_le) hlaid hconns
  obtain ⟨xs, hxs, hchain⟩ := hlaid₁.chain
  have hmem : ∀ r, r ∈ addresses xs ↔ placeOf w₁.requests r = some .recycled := by
    intro r
    rw [hxs]
    exact hlaid₁.mem_recycled r
  have hplaces : ∀ x ∈ xs, x.2.place = .recycled := by
    intro x hx
    have hplace := (hmem x.1).mp (List.mem_map_of_mem hx)
    rw [placeOf_eq (hchain.store_eq x hx)] at hplace
    exact Option.some.inj hplace
  obtain ⟨requests, hfree, hget⟩ := freeRecycled_spec xs (w₁.requests.cells.length + 1)
    (Nat.le_succ_of_le (length_recycled hchain)) hchain hplaces
  -- what is neither recycled nor released was in service
  have hleft : ∀ r q, requests.get r = some q → q.place = .defunct ∧ InService w.requests r := by
    intro r q hq
    rw [hget r] at hq
    split_ifs at hq with hr
    obtain ⟨hplace, hin⟩ | ⟨hplace, hrecycled⟩ := (hall.placed r q.place).mp (placeOf_eq hq)
    · exact ⟨hplace, hin⟩
    · exact absurd ((hmem r).mpr ((hall.placed r .recycled).mpr (.inr ⟨rfl, hrecycled⟩))) hr
  refine ⟨{ w₁ with requests := requests, recycledRequests := none }.closeFd listening_fd, ?_,
    ⟨hall.same.proxies, hall.same.pipe, hall.same.extra, hall.same.written, hall.same.handled,
      hall.same.owed⟩, hall.gone, fun r => ⟨fun hne => ?_, fun hin hnone => ?_⟩, fun r q hq => ?_,
    fun fd hfd => ?_, fun fd hne hfd => ?_⟩
  · unfold serverDestroy
    rw [hclose, except_ok_bind, hfree]
    rfl
  · obtain ⟨q, hq⟩ := Option.ne_none_iff_exists'.mp hne
    exact (hleft r q hq).2
  · have hplace := (hall.placed r .defunct).mpr (.inl ⟨rfl, hin⟩)
    obtain ⟨q, hq, -⟩ := placeOf_eq_some hplace
    have hr : r ∉ addresses xs := by
      intro hr
      rw [(hmem r).mp hr] at hplace
      exact absurd hplace (by simp)
    have hkept : requests.get r = some q := by
      rw [hget r, if_neg hr, hq]
    exact absurd (hkept.symm.trans hnone) (by simp)
  · exact place_defunct (hleft r q hq).1
  · change (if fd = listening_fd then none else w₁.watched fd) = none
    by_cases hlistening : fd = listening_fd
    · exact if_pos hlistening
    · rw [if_neg hlistening]
      exact hall.unregistered fd (hfd.resolve_left hlistening)
  · change (if fd = listening_fd then none else w₁.watched fd) = w.watched fd
    rw [if_neg hne]
    exact hall.others fd hfd

end ServerWorld

variable {codec : Codec μ}

/-- In whatever state a server is, destroying it ends without a fault: every connection is closed and
unregistered, and of the requests exactly those stay allocated that the service has been given and not
answered; where no answer was lost, these are the requests whose answers are due. -/
theorem serverDestroy_exact {service : ServiceDescriptor} {watched : Registered} {lossless : Prop}
    {w : ServerWorld μ} (hruns : Runs (ServerWorld.step codec) (ServerWorld.WritesWhole lossless)
      (serverNewFromFd service watched) w) (listening_fd : ℕ) :
    ∃ w', w.serverDestroy listening_fd = .ok w' ∧ w.Destroyed w' listening_fd ∧
      (lossless → ∀ r, w'.requests.get r ≠ none ↔ w.AnswerDue r) := by
  obtain ⟨transit, hinv⟩ := ServerWorld.runs_inv hruns
  obtain ⟨w', hok, hdestroyed⟩ := hinv.core.toArranged.destroyed listening_fd
  refine ⟨w', hok, hdestroyed, fun hlossless r => ?_⟩
  obtain rfl : lossless = True := eq_true hlossless
  rw [hdestroyed.requests r, hinv.answerDue_iff r]
  exact ⟨fun hin => hinv.core.serving.owes trivial r hin, fun hr => hinv.core.serving.held r hr⟩

/-- A server with a connection, whose request is with the service. -/
theorem serverDestroy_exact_pending : ∃ w w', Runs (ServerWorld.step bytesCodec)
    (ServerWorld.WritesWhole True) (serverNewFromFd ⟨[⟨0, 0⟩]⟩ fun _ => none) w ∧
      w.owed = [0] ∧ w.serverDestroy 4 = .ok w' ∧ w.Destroyed w' 4 ∧
      ∀ r, w'.requests.get r ≠ none ↔ w.AnswerDue r := by
  have hruns : ∃ w, Runs (ServerWorld.step bytesCodec) (ServerWorld.WritesWhole True)
      (serverNewFromFd ⟨[⟨0, 0⟩]⟩ fun _ => none) w ∧ w.owed = [0] :=
    ⟨_, .tail .receive (.tail .receive (.tail (.events 0 (some (.received (headerBytes [0, 0, 9]))) none)
      (.tail (.accept (some 5)) (.refl _) trivial rfl) trivial rfl) trivial rfl) trivial rfl, rfl⟩
  obtain ⟨w, hruns, howed⟩ := hruns
  obtain ⟨w', hok, hdestroyed, hdue⟩ := serverDestroy_exact hruns 4
  exact ⟨w, w', hruns, howed, hok, hdestroyed, hdue trivial⟩

end ProtobufC
