import ProtobufC.Rpc.ProxyPipe

/-! # Where the memory of a request is

A `ServerRequest` is pending with its connection, kept for the answer of the service, among the recycled
requests or freed.  `RequestsOwned` says that it is in just one of these places, which a server keeps to as
long as the service answers no request in the thread of the server after its connection was closed: that
answer frees the request, and then writes to it to recycle it.
-/

namespace ProtobufC
open Library
set_option autoImplicit false

variable {μ : Type} (codec : Codec μ)

/-- Who has the memory of a request. -/
inductive Owner
  | connection (conn : ℕ)
  | service
  | server
  | nobody
  deriving DecidableEq

/-- The place of a request of this owner; a request that is freed is in no place. -/
def Owner.place : Owner → Option Place
  | .connection conn => some (.pending conn)
  | .service => some .defunct
  | .server => some .recycled
  | .nobody => none

theorem Owner.place_injective : Function.Injective Owner.place := by
  intro o o' h
  cases o <;> cases o' <;> simp_all [Owner.place]

namespace ServerWorld
variable {codec} {w w' : ServerWorld μ} {transit : List (ℕ × ProxyResponse)} {conn r : ℕ}
  {pending : ℕ → List ℕ} {recycled : List ℕ} {c : ServerConnection}

/-! ## The statement -/

/-- The service has still to answer the request, or its answer is in the pipe. -/
def AnswerDue (w : ServerWorld μ) (r : ℕ) : Prop :=
  r ∈ w.owed ∨ ∃ p pr, w.proxies.get p = some pr ∧ pr.request = r

/-- The request is where its owner keeps it; `pending` and `recycled` are the lists of the server. -/
def OwnedBy (w : ServerWorld μ) (pending : ℕ → List ℕ) (recycled : List ℕ) (r : ℕ) : Owner → Prop
  | .connection conn => (∃ c, w.connections.get conn = some c) ∧ (pending conn).count r = 1 ∧
      ∃ q, w.requests.get r = some q ∧ q.conn = some conn
  | .service => (∃ q, w.requests.get r = some q ∧ q.conn = none) ∧ w.AnswerDue r
  | .server => recycled.count r = 1
  | .nobody => w.requests.Freed r

/-- Every request has one owner; the lists are those that the pointers of the server lead through, and
`n_pending_requests` is right.  A request that is freed is not handed out, and cannot be freed again. -/
structure RequestsOwned (w : ServerWorld μ) : Prop where
  owners : ∃ pending recycled,
    (∀ conn c, w.connections.get conn = some c →
      IsList requestHook w.requests c.pendingEnds (pending conn) ∧
        c.nPendingRequests.toNat = (pending conn).length) ∧
    (∃ xs, addresses xs = recycled ∧
      Chain recycledNext w.requests.get w.recycledRequests xs none) ∧
    ∀ r < w.requests.cells.length, ∃! owner, w.OwnedBy pending recycled r owner
  created : ∀ conn request_id method_index rv w',
    w.createServerRequest conn request_id method_index = .ok (rv, w') → ¬ w.requests.Freed rv
  freed : ∀ r, w.requests.Freed r → w.requests.free r = .error .release

/-- The connection that gets a request has fewer than `UINT_MAX` of them. -/
def CountFits (codec : Codec μ) (w : ServerWorld μ) (label : ServerLabel μ) : Prop :=
  ∀ conn c, w.Joins codec label conn → w.connections.get conn = some c →
    c.nPendingRequests.toNat < 2 ^ 32 - 1

/-- What is given: answers go into the pipe whole, and the counters do not wrap. -/
def Given (codec : Codec μ) (w : ServerWorld μ) (label : ServerLabel μ) : Prop :=
  w.WritesWhole True label ∧ w.CountFits codec label

/-! ## Counting -/

/-- The number of requests that are pending with the connection. -/
def pendingCount (w : ServerWorld μ) (conn : ℕ) : ℕ :=
  ((List.range w.requests.cells.length).filter
    fun r => placeOf w.requests r = some (.pending conn)).length

theorem placeOf_lt {place : Place} (h : placeOf w.requests r = some place) :
    r < w.requests.cells.length := by
  obtain ⟨q, hq, -⟩ := placeOf_eq_some h
  exact Store.get_lt hq

theorem mem_pendingCount : r ∈ (List.range w.requests.cells.length).filter
      (fun r => placeOf w.requests r = some (.pending conn)) ↔
    placeOf w.requests r = some (.pending conn) := by
  rw [List.mem_filter, List.mem_range, decide_eq_true_iff]
  exact ⟨fun h => h.2, fun h => ⟨placeOf_lt h, h⟩⟩

theorem nodup_pendingCount : ((List.range w.requests.cells.length).filter
    fun r => placeOf w.requests r = some (.pending conn)).Nodup :=
  List.nodup_range.filter _

theorem LaidOut.length_pending (h : w.LaidOut pending recycled)
    (hc : w.connections.get conn = some c) : (pending conn).length = w.pendingCount conn := by
  refine List.Perm.length_eq ?_
  rw [List.perm_ext_iff_of_nodup (h.lists conn c hc).nodup nodup_pendingCount]
  intro r
  rw [h.mem_pending, mem_pendingCount]

/-- A step adds at most one request to those of a connection, and none to those of one that gets none. -/
theorem Gains.pendingCount_le {joins : ℕ → Prop} (h : Gains joins w w') (conn : ℕ) :
    w'.pendingCount conn ≤ w.pendingCount conn + 1 ∧
      (¬ joins conn → w'.pendingCount conn ≤ w.pendingCount conn) := by
  obtain ⟨rv, h⟩ := h
  constructor
  · have hsub : (List.range w'.requests.cells.length).filter
        (fun r => placeOf w'.requests r = some (.pending conn)) ⊆
        rv :: (List.range w.requests.cells.length).filter
          fun r => placeOf w.requests r = some (.pending conn) := by
      intro r hr
      obtain hold | ⟨rfl, -, -⟩ := h r conn (mem_pendingCount.mp hr)
      · exact List.mem_cons_of_mem _ (mem_pendingCount.mpr hold)
      · exact List.mem_cons_self
    exact (nodup_pendingCount.subperm hsub).length_le
  · intro hnot
    have hsub : (List.range w'.requests.cells.length).filter
        (fun r => placeOf w'.requests r = some (.pending conn)) ⊆
        (List.range w.requests.cells.length).filter
          fun r => placeOf w.requests r = some (.pending conn) := by
      intro r hr
      obtain hold | ⟨-, hjoins, -⟩ := h r conn (mem_pendingCount.mp hr)
      · exact mem_pendingCount.mpr hold
      · exact absurd hjoins hnot
    exact (nodup_pendingCount.subperm hsub).length_le

/-! ## The invariant -/

/-- No answer is lost, and the counters of the connections have not wrapped. -/
structure Keeping (w : ServerWorld μ) : Prop where
  inv : ∃ transit, w.Inv True transit
  counts : ∀ conn, w.pendingCount conn < 2 ^ 32

theorem Inv.answerDue_iff (h : w.Inv True transit) (r : ℕ) :
    w.AnswerDue r ↔ r ∈ w.awaited transit := by
  unfold AnswerDue awaited
  rw [List.mem_append, List.mem_map]
  refine or_congr_right ⟨?_, ?_⟩
  · rintro ⟨p, pr, hp, hr⟩
    exact ⟨(p, pr), (h.core.stored.iff p pr).mpr hp, hr⟩
  · rintro ⟨⟨p, pr⟩, hmem, hr⟩
    exact ⟨p, pr, (h.core.stored.iff p pr).mp hmem, hr⟩

/-- The owner of a request is told by its place. -/
theorem Inv.ownedBy_iff (h : w.Inv True transit) (hlaid : w.LaidOut pending recycled)
    (hr : r < w.requests.cells.length) (owner : Owner) :
    w.OwnedBy pending recycled r owner ↔ placeOf w.requests r = owner.place := by
  cases owner with
  | connection conn =>
    constructor
    · rintro ⟨-, hcount, -⟩
      exact (hlaid.mem_pending conn r).mp (List.count_pos_iff.mp (hcount ▸ Nat.one_pos))
    · intro hplace
      obtain ⟨c, hc⟩ := hlaid.open_of_pending hplace
      obtain ⟨q, hq, hpending⟩ := placeOf_eq_some hplace
      exact ⟨⟨c, hc⟩, List.count_eq_one_of_mem (hlaid.lists conn c hc).nodup
        ((hlaid.mem_pending conn r).mpr hplace), q, hq, (place_pending hpending).1⟩
  | service =>
    constructor
    · rintro ⟨⟨q, hq, hnone⟩, hdue⟩
      obtain hdefunct | ⟨conn, hpending⟩ := h.core.serving.held r ((h.answerDue_iff r).mp hdue)
      · exact hdefunct
      · obtain ⟨q', hq', hplace⟩ := placeOf_eq_some hpending
        obtain rfl := Option.some.inj (hq.symm.trans hq')
        rw [(place_pending hplace).1] at hnone
        exact absurd hnone (by simp)
    · intro hplace
      obtain ⟨q, hq, hdefunct⟩ := placeOf_eq_some hplace
      exact ⟨⟨q, hq, (place_defunct hdefunct).1⟩,
        (h.answerDue_iff r).mpr (h.core.serving.owes trivial r (.inl hplace))⟩
  | server =>
    obtain ⟨xs, hxs, hchain⟩ := hlaid.chain
    constructor
    · intro hcount
      exact (hlaid.mem_recycled r).mp (List.count_pos_iff.mp (Nat.lt_of_lt_of_eq Nat.one_pos hcount.symm))
    · intro hplace
      refine List.count_eq_one_of_mem ?_ ((hlaid.mem_recycled r).mpr hplace)
      rw [← hxs]
      exact hchain.nodup
  | nobody =>
    constructor
    · intro hfreed
      unfold placeOf
      rw [hfreed.2]
      rfl
    · intro hplace
      exact ⟨hr, Option.map_eq_none_iff.mp hplace⟩

theorem exists_owner (hlaid : w.LaidOut pending recycled) (r : ℕ) :
    ∃ owner : Owner, placeOf w.requests r = owner.place := by
  cases hplace : placeOf w.requests r with
  | none => exact ⟨.nobody, rfl⟩
  | some place =>
    cases place with
    | pending conn => exact ⟨.connection conn, rfl⟩
    | defunct => exact ⟨.service, rfl⟩
    | recycled => exact ⟨.server, rfl⟩
    | nowhere => exact absurd hplace (hlaid.somewhere r)

/-- `create_server_request` hands out memory that is recycled or new. -/
theorem not_freed_of_created {request_id method_index : UInt32} {rv : ℕ}
    (hok : w.createServerRequest conn request_id method_index = .ok (rv, w')) : ¬ w.requests.Freed rv := by
  unfold createServerRequest at hok
  obtain ⟨⟨rv₀, w₀⟩, htake, hok⟩ := except_bind_eq_ok hok
  obtain ⟨requests, -, hok⟩ := except_bind_eq_ok hok
  obtain ⟨c, -, hok⟩ := except_bind_eq_ok hok
  obtain ⟨appended, -, hok⟩ := except_bind_eq_ok hok
  obtain ⟨connections, -, hok⟩ := except_bind_eq_ok hok
  obtain rfl : rv₀ = rv := congrArg Prod.fst (Except.ok.inj hok)
  rintro ⟨hlt, hnone⟩
  unfold takeServerRequest at htake
  cases hrecycled : w.recycledRequests with
  | some first =>
    simp only [hrecycled] at htake
    obtain ⟨q, hq, htake⟩ := except_bind_eq_ok htake
    cases hinfo : q.info with
    | recycled next =>
      simp only [hinfo] at htake
      obtain rfl : first = rv₀ := congrArg Prod.fst (Except.ok.inj htake)
      rw [Store.load_ok.mp hq] at hnone
      exact absurd hnone (by simp)
    | alive links => simp [hinfo] at htake
    | defunct => simp [hinfo] at htake
  | none =>
    simp only [hrecycled] at htake
    obtain rfl : w.requests.cells.length = rv₀ := congrArg Prod.fst (Except.ok.inj htake)
    exact absurd hlt (Nat.lt_irrefl _)

theorem Keeping.owned (h : w.Keeping) : w.RequestsOwned := by
  obtain ⟨transit, hinv⟩ := h.inv
  obtain ⟨pending, recycled, hlaid⟩ := hinv.core.laid
  refine ⟨⟨pending, recycled, fun conn c hc => ⟨hlaid.lists conn c hc, ?_⟩, hlaid.chain,
    fun r hr => ?_⟩, fun _ _ _ _ _ hok => not_freed_of_created hok, fun r hfreed => ?_⟩
  · rw [hlaid.count conn c hc, UInt32.toNat_ofNat', Nat.mod_eq_of_lt]
    rw [hlaid.length_pending hc]
    exact h.counts conn
  · obtain ⟨owner, howner⟩ := exists_owner hlaid r
    refine ⟨owner, (hinv.ownedBy_iff hlaid hr owner).mpr howner, fun owner' howned => ?_⟩
    have howner' := (hinv.ownedBy_iff hlaid hr owner').mp howned
    exact Owner.place_injective (howner'.symm.trans howner)
  · unfold Store.free
    rw [hfreed.2]

/-! ## Steps -/

/-- The counter of a connection that gets a request had not reached its maximum. -/
theorem Keeping.pendingCount_step (h : w.Keeping) {label : ServerLabel μ}
    (hgains : Gains (w.Joins codec label) w w') (hfits : w.CountFits codec label) (conn : ℕ) :
    w'.pendingCount conn < 2 ^ 32 := by
  obtain ⟨hone, hnone⟩ := hgains.pendingCount_le conn
  have hbefore := h.counts conn
  by_cases hjoins : w.Joins codec label conn
  · obtain ⟨-, writable, c, -, hc, -⟩ := id hjoins
    obtain ⟨transit, hinv⟩ := h.inv
    obtain ⟨pending, recycled, hlaid⟩ := hinv.core.laid
    have hcounter := hfits conn c hjoins hc
    rw [hlaid.count conn c hc, hlaid.length_pending hc, UInt32.toNat_ofNat',
      Nat.mod_eq_of_lt hbefore] at hcounter
    omega
  · exact (hnone hjoins).trans_lt hbefore

theorem Keeping.step (h : w.Keeping) {label : ServerLabel μ} (hgiven : w.Given codec label)
    (hdirect : ¬ w.AnswersDefunct label) : ∃ w', w.step codec label = .ok w' ∧ w'.Keeping := by
  obtain ⟨transit, hinv⟩ := h.inv
  obtain ⟨w', transit', hok, hinv', hgains, -⟩ := step_spec codec hinv label hgiven.1 hdirect
  exact ⟨w', hok, ⟨transit', hinv'⟩, h.pendingCount_step hgains hgiven.2⟩

theorem keeping_serverNewFromFd (service : ServiceDescriptor) (watched : Registered) :
    (serverNewFromFd service watched : ServerWorld μ).Keeping :=
  ⟨⟨[], inv_serverNewFromFd service watched⟩, fun _ => Nat.two_pow_pos 32⟩

end ServerWorld

/-! ## Runs -/

/-- Every request has one owner in every state of every run, and no step ends in a fault. -/
def AlwaysOwned : Prop :=
  ∀ (service : ServiceDescriptor) (watched : Registered) (labels : List (ServerLabel μ)),
    AllowedAlong (ServerWorld.step codec) (ServerWorld.Given codec) labels
      (serverNewFromFd service watched) →
    SafeAlong (ServerWorld.step codec) ServerWorld.RequestsOwned labels
      (serverNewFromFd service watched)

/-- Every request has one owner all along a run just if the service answers none in the thread of the
server after its connection was closed. -/
theorem requestsOwned_iff (service : ServiceDescriptor) (watched : Registered)
    (labels : List (ServerLabel μ))
    (hgiven : AllowedAlong (ServerWorld.step codec) (ServerWorld.Given codec) labels
      (serverNewFromFd service watched)) :
    SafeAlong (ServerWorld.step codec) ServerWorld.RequestsOwned labels
      (serverNewFromFd service watched) ↔
    AllowedAlong (ServerWorld.step codec) (fun w label => ¬ w.AnswersDefunct label) labels
      (serverNewFromFd service watched) := by
  refine safeAlong_iff_given (I := ServerWorld.Keeping) (fun w h => h.owned) ?_ ?_ labels _
    (ServerWorld.keeping_serverNewFromFd service watched) hgiven
  · intro w label h hgiven hdirect
    exact h.step hgiven hdirect
  · intro w label h hgiven hnot t hok
    obtain ⟨transit, hinv⟩ := h.inv
    rw [ServerWorld.answersDefunct_faults hinv (not_not.mp hnot)] at hok
    exact absurd hok (by simp)

/-- A request comes in on a connection, which is closed before the service answers; `rest` follows. -/
def closedRun (rest : List (ServerLabel (List UInt8))) : List (ServerLabel (List UInt8)) :=
  [.accept (some 5), .configureThreading,
    .events 0 (some (.received (headerBytes [0, 0, 9]))) none, .receive, .receive,
    .events 0 (some (.received [])) none] ++ rest

theorem ServerWorld.countFits_of_ne {codec : Codec μ} {w : ServerWorld μ} {label : ServerLabel μ}
    (hlabel : label ≠ .receive) : w.CountFits codec label :=
  fun _ _ hjoins _ => absurd hjoins.1 hlabel

theorem ServerWorld.countFits_of_counter {codec : Codec μ} {w : ServerWorld μ} {conn : ℕ}
    {writable : Option WritevOutcome} {count : UInt32} (hreceiving : w.receiving = some (conn, writable))
    (hcounter : (w.connections.get conn).map ServerConnection.nPendingRequests = some count)
    (hcount : count.toNat < 2 ^ 32 - 1) : w.CountFits codec .receive := by
  rintro conn' c ⟨-, writable', -, hreceiving', -⟩ hc
  obtain ⟨rfl, -⟩ := Prod.mk.inj (Option.some.inj (hreceiving.symm.trans hreceiving'))
  rw [hc] at hcounter
  obtain rfl := Option.some.inj hcounter
  exact hcount

/-- What is given holds along the run, if it does along what follows. -/
theorem given_closedRun {rest : List (ServerLabel (List UInt8))}
    (hrest : ∀ w, AllowedAlong (ServerWorld.step bytesCodec) (ServerWorld.Given bytesCodec) rest w) :
    AllowedAlong (ServerWorld.step bytesCodec) (ServerWorld.Given bytesCodec) (closedRun rest)
      (serverNewFromFd ⟨[⟨0, 0⟩]⟩ fun _ => none) := by
  refine .cons ⟨trivial, ServerWorld.countFits_of_ne (by simp)⟩ rfl
    (.cons ⟨trivial, ServerWorld.countFits_of_ne (by simp)⟩ rfl
    (.cons ⟨trivial, ServerWorld.countFits_of_ne (by simp)⟩ rfl
    (.cons ⟨trivial, ServerWorld.countFits_of_counter rfl rfl (by decide)⟩ rfl
    (.cons ⟨trivial, ServerWorld.countFits_of_counter rfl rfl (by decide)⟩ rfl
    (.cons ⟨trivial, ServerWorld.countFits_of_ne (by simp)⟩ rfl (hrest _))))))

theorem given_of_answer {labels : List (ServerLabel (List UInt8))}
    (hlabels : ∀ label ∈ labels, label ≠ .receive ∧ ∀ w, ServerWorld.WritesWhole True w label)
    (w : ServerWorld (List UInt8)) :
    AllowedAlong (ServerWorld.step bytesCodec) (ServerWorld.Given bytesCodec) labels w :=
  allowedAlong_of_forall
    (fun label hlabel w => ⟨(hlabels label hlabel).2 w,
      ServerWorld.countFits_of_ne (hlabels label hlabel).1⟩) w

theorem requestsOwned_iff_proxied : SafeAlong (ServerWorld.step bytesCodec) ServerWorld.RequestsOwned
    (closedRun [.answer 0 (some [1]) false .whole, .proxyReadable 8])
    (serverNewFromFd ⟨[⟨0, 0⟩]⟩ fun _ => none) := by
  refine (requestsOwned_iff bytesCodec ⟨[⟨0, 0⟩]⟩ (fun _ => none) _ (given_closedRun
    (given_of_answer (by simp [ServerWorld.WritesWhole])))).mpr ?_
  refine .cons id rfl (.cons id rfl (.cons id rfl (.cons id rfl (.cons id rfl (.cons id rfl
    (.cons ?_ rfl (.cons id rfl trivial)))))))
  exact fun hdefunct => hdefunct.2.1 ⟨rfl, rfl⟩

theorem not_alwaysOwned : ¬ AlwaysOwned bytesCodec := by
  intro h
  have hsafe := h ⟨[⟨0, 0⟩]⟩ (fun _ => none) (closedRun [.answer 0 (some [1]) true .whole])
    (given_closedRun (given_of_answer (by simp [ServerWorld.WritesWhole])))
  obtain ⟨-, _, hok, -, _, hok₁, -, _, hok₂, -, _, hok₃, -, _, hok₄, -, _, hok₅, -, w, hok₆, -⟩ := hsafe
  obtain rfl := Except.ok.inj hok
  obtain rfl := Except.ok.inj hok₁
  obtain rfl := Except.ok.inj hok₂
  obtain rfl := Except.ok.inj hok₃
  obtain rfl := Except.ok.inj hok₄
  obtain rfl := Except.ok.inj hok₅
  have hfault : (Except.error .access : Except Fault (ServerWorld (List UInt8))) = .ok w := hok₆
  exact absurd hfault (by simp)

end ProtobufC
