import ProtobufC.Library.Chain
import ProtobufC.Rpc.ServerMachine

/-! # Where the requests of a server are

`info` of a request is links of the pending list of its connection, nothing, or a link of the requests
that are recycled; `LaidOut` says that the lists of a server are these requests.  Every function that moves
a request from one place to another has one lemma: that it succeeds where its arguments are in the place it
takes them from, and where the requests are afterwards.
-/

namespace ProtobufC
open Library
set_option autoImplicit false

variable {μ : Type}

/-! ## Places -/

/-- The place of a request. -/
inductive Place
  | pending (conn : ℕ)
  | defunct
  | recycled
  | nowhere
  deriving DecidableEq

def ServerRequest.place (request : ServerRequest) : Place :=
  match request.info, request.conn with
  | .alive _, some conn => .pending conn
  | .alive _, none => .nowhere
  | .defunct, none => .defunct
  | .defunct, some _ => .nowhere
  | .recycled _, _ => .recycled

/-- What the loop of `server_connection_close` makes of a request. -/
def ServerRequest.disassociated (request : ServerRequest) : ServerRequest :=
  { request with conn := none, info := .defunct }

def placeOf (requests : Store ServerRequest) (r : ℕ) : Option Place :=
  (requests.get r).map ServerRequest.place

/-- `info.recycled.next` -/
def recycledNext (request : ServerRequest) : Option ℕ :=
  match request.info with
  | .recycled next => next
  | .alive _ | .defunct => none

section
variable {requests requests' : Store ServerRequest} {r : ℕ} {request : ServerRequest} {conn : ℕ}

theorem placeOf_eq (h : requests.get r = some request) : placeOf requests r = some request.place := by
  unfold placeOf
  rw [h]
  rfl

theorem placeOf_eq_some {place : Place} (h : placeOf requests r = some place) :
    ∃ request, requests.get r = some request ∧ request.place = place := Option.map_eq_some_iff.mp h

theorem place_pending (h : request.place = .pending conn) :
    request.conn = some conn ∧ ∃ links, request.info = .alive links := by
  obtain ⟨requestId, methodIndex, c, info⟩ := request
  cases info <;> cases c <;> simp_all [ServerRequest.place]

theorem place_defunct (h : request.place = .defunct) :
    request.conn = none ∧ request.info = .defunct := by
  obtain ⟨requestId, methodIndex, c, info⟩ := request
  cases info <;> cases c <;> simp_all [ServerRequest.place]

theorem place_recycled (h : request.place = .recycled) : ∃ next, request.info = .recycled next := by
  obtain ⟨requestId, methodIndex, c, info⟩ := request
  cases info <;> cases c <;> simp_all [ServerRequest.place]

theorem place_of_hook {links : Links} (h : requestHook.links request = some links) :
    request.place = request.conn.elim .nowhere .pending := by
  obtain ⟨requestId, methodIndex, c, info⟩ := request
  cases info with
  | alive _ => cases c <;> rfl
  | defunct => exact absurd h (by simp [requestHook])
  | recycled _ => exact absurd h (by simp [requestHook])

theorem placeOf_set (h : requests.get r = some request) (x : Option ServerRequest) (i : ℕ) :
    placeOf ⟨requests.cells.set r x⟩ i =
      if i = r then x.map ServerRequest.place else placeOf requests i := by
  unfold placeOf
  rw [Store.get_set h]
  by_cases hi : i = r
  · rw [if_pos hi, if_pos hi]
  · rw [if_neg hi, if_neg hi]

/-- An update of the links of requests that keep links leaves every request in its place. -/
theorem placeOf_touched {l : List ℕ} (h : Touched requestHook requests requests' l)
    (hold : ∀ i ∈ l, ∃ a k, requests.get i = some a ∧ requestHook.links a = some k)
    (hnew : ∀ i ∈ l, ∃ a k, requests'.get i = some a ∧ requestHook.links a = some k) (i : ℕ) :
    placeOf requests' i = placeOf requests i := by
  by_cases hi : i ∈ l
  · obtain ⟨a, k, ha, hk⟩ := hold i hi
    obtain ⟨a', k', ha', hk'⟩ := hnew i hi
    have hconn : a'.conn = a.conn := by
      have hbare := h.bare.map (f := ServerRequest.conn) (fun _ _ => rfl) i
      rwa [ha, ha', Option.map_some, Option.map_some, Option.some.injEq] at hbare
    rw [placeOf_eq ha, placeOf_eq ha', place_of_hook hk, place_of_hook hk', hconn]
  · unfold placeOf
    rw [h.kept i hi]

end

/-! ## Lists of a server -/

namespace ServerWorld
variable {w w' : ServerWorld μ} {pending : ℕ → List ℕ} {recycled : List ℕ} {conn request : ℕ}
  {c : ServerConnection}

/-- The pending lists of the connections and the recycled requests are the requests in these places. -/
structure LaidOut (w : ServerWorld μ) (pending : ℕ → List ℕ) (recycled : List ℕ) : Prop where
  somewhere : ∀ r, placeOf w.requests r ≠ some .nowhere
  mem_pending : ∀ conn r, r ∈ pending conn ↔ placeOf w.requests r = some (.pending conn)
  mem_recycled : ∀ r, r ∈ recycled ↔ placeOf w.requests r = some .recycled
  lists : ∀ conn c, w.connections.get conn = some c →
    IsList requestHook w.requests c.pendingEnds (pending conn)
  count : ∀ conn c, w.connections.get conn = some c →
    c.nPendingRequests = UInt32.ofNat (pending conn).length
  closed : ∀ conn, w.connections.get conn = none → pending conn = []
  chain : ∃ xs, addresses xs = recycled ∧
    Chain recycledNext w.requests.get w.recycledRequests xs none

/-- What of a connection its pending list depends on. -/
def pendingView (connections : Store ServerConnection) (conn : ℕ) : Option (ListEnds × UInt32) :=
  (connections.get conn).map fun c => (c.pendingEnds, c.nPendingRequests)

theorem LaidOut.congr (h : w.LaidOut pending recycled) (hrequests : w'.requests = w.requests)
    (hrecycled : w'.recycledRequests = w.recycledRequests)
    (hview : ∀ i, pendingView w'.connections i = pendingView w.connections i) :
    w'.LaidOut pending recycled := by
  have hget : ∀ i c', w'.connections.get i = some c' → ∃ c, w.connections.get i = some c ∧
      c.pendingEnds = c'.pendingEnds ∧ c.nPendingRequests = c'.nPendingRequests := by
    intro i c' hc'
    have hv := hview i
    unfold pendingView at hv
    rw [hc'] at hv
    obtain ⟨c, hc, heq⟩ := Option.map_eq_some_iff.mp hv.symm
    exact ⟨c, hc, Prod.mk.inj heq⟩
  refine ⟨?_, ?_, ?_, fun i c' hc' => ?_, fun i c' hc' => ?_, fun i hi => h.closed i ?_, ?_⟩
  · rw [hrequests]
    exact h.somewhere
  · rw [hrequests]
    exact h.mem_pending
  · rw [hrequests]
    exact h.mem_recycled
  · obtain ⟨c, hc, hends, -⟩ := hget i c' hc'
    rw [hrequests, ← hends]
    exact h.lists i c hc
  · obtain ⟨c, hc, -, hcount⟩ := hget i c' hc'
    rw [← hcount]
    exact h.count i c hc
  · have hv := hview i
    unfold pendingView at hv
    rw [hi] at hv
    exact Option.map_eq_none_iff.mp hv.symm
  · rw [hrequests, hrecycled]
    exact h.chain

theorem pendingView_write {connections : Store ServerConnection}
    (hc : connections.get conn = some c) (c' : ServerConnection)
    (hends : c'.pendingEnds = c.pendingEnds) (hcount : c'.nPendingRequests = c.nPendingRequests)
    (i : ℕ) : pendingView ⟨connections.cells.set conn (some c')⟩ i = pendingView connections i := by
  unfold pendingView
  rw [Store.get_set hc]
  by_cases hi : i = conn
  · rw [if_pos hi, hi, hc, Option.map_some, Option.map_some, hends, hcount]
  · rw [if_neg hi]

theorem pendingView_relink {connections connections' : Store ServerConnection}
    (h : SameBare connectionHook connections connections') (i : ℕ) :
    pendingView connections' i = pendingView connections i := h.map (fun _ _ => rfl) i

theorem LaidOut.open_of_pending (h : w.LaidOut pending recycled)
    (hr : placeOf w.requests request = some (.pending conn)) :
    ∃ c, w.connections.get conn = some c := by
  cases hc : w.connections.get conn with
  | some c => exact ⟨c, rfl⟩
  | none =>
    have hmem := (h.mem_pending conn request).mpr hr
    rw [h.closed conn hc] at hmem
    exact absurd hmem List.not_mem_nil

theorem LaidOut.not_mem (h : w.LaidOut pending recycled) {r : ℕ} {place : Option Place}
    (hr : placeOf w.requests r = place) (hne : place ≠ some (.pending conn)) : r ∉ pending conn := by
  intro hmem
  rw [h.mem_pending, hr] at hmem
  exact hne hmem

/-! ## What is left alone -/

/-- The pipe, its responses and what is owed are the same. -/
structure SameProxies (w w' : ServerWorld μ) : Prop where
  proxies : w'.proxies = w.proxies
  pipe : w'.pipe = w.pipe
  extra : w'.proxyExtraData = w.proxyExtraData
  written : w'.written = w.written
  handled : w'.handled = w.handled
  owed : w'.owed = w.owed

theorem SameProxies.refl (w : ServerWorld μ) : SameProxies w w := ⟨rfl, rfl, rfl, rfl, rfl, rfl⟩

/-! ## Taking a request from its connection -/

/-- The effect of a response on the requests and the connections. -/
structure Responded (w w' : ServerWorld μ) (conn request : ℕ) (data : List UInt8) : Prop where
  same : SameProxies w w'
  ends : w'.connectionEnds = w.connectionEnds
  receiving : w'.receiving = w.receiving
  placed : ∀ r, placeOf w'.requests r =
    if r = request then some .recycled else placeOf w.requests r
  connections : ∀ i, (w'.connections.get i).map (fun c => (c.prev, c.next, c.outgoing)) =
    (w.connections.get i).map fun c =>
      (c.prev, c.next, if i = conn then c.outgoing ++ data else c.outgoing)

theorem freeServerRequest_spec {q : ServerRequest} (hq : w.requests.get request = some q) :
    w.freeServerRequest request = .ok { w with
      requests := ⟨w.requests.cells.set request
        (some { q with info := .recycled w.recycledRequests })⟩
      recycledRequests := some request } := by
  unfold freeServerRequest
  rw [Store.modify_ok hq]
  rfl

theorem ofNat_succ_sub_one (n : ℕ) : UInt32.ofNat (n + 1) - 1 = UInt32.ofNat n := by
  rw [UInt32.ofNat_add]
  exact UInt32.add_sub_cancel _ _

theorem queueResponse_spec (h : w.LaidOut pending recycled)
    (hr : placeOf w.requests request = some (.pending conn)) (data : List UInt8) :
    ∃ w', w.queueResponse conn request data = .ok w' ∧ Responded w w' conn request data ∧
      w'.LaidOut (Function.update pending conn ((pending conn).erase request))
        (request :: recycled) := by
  obtain ⟨c, hc⟩ := h.open_of_pending hr
  have hmem := (h.mem_pending conn request).mpr hr
  have hlist := h.lists conn c hc
  obtain ⟨xs, ys, hsplit⟩ := List.append_of_mem hmem
  have hnodup := hlist.nodup
  rw [hsplit, List.nodup_middle, List.nodup_cons] at hnodup
  have herase : (pending conn).erase request = xs ++ ys := by
    rw [hsplit, List.erase_append_right _ fun hin => hnodup.1 (List.mem_append_left _ hin),
      List.erase_cons_head]
  rw [hsplit] at hlist
  obtain ⟨requests, ends, hremove, hlist', htouch⟩ := listRemove_spec hlist
  have hplaces := placeOf_touched htouch
    (fun i hi => hlist.linked_mem i (by simp at hi ⊢; tauto)) hlist'.linked_mem
  obtain ⟨q, hq, hqplace⟩ := placeOf_eq_some ((hplaces request).trans hr)
  have hset := placeOf_set hq (some { q with info := .recycled w.recycledRequests })
  have hget := Store.get_set hq (some { q with info := .recycled w.recycledRequests })
  have hconn := Store.get_set hc (some { c with
    outgoing := c.outgoing ++ data
    nPendingRequests := c.nPendingRequests - 1
    firstPendingRequest := ends.first
    lastPendingRequest := ends.last })
  -- what is registered plays no part
  obtain ⟨watched, hwatched⟩ : ∃ watched, (if c.outgoing.length = 0 then
      w.watchConnection c.fd (eventReadable ||| eventWritable) conn else w) =
      { w with watched := watched } := by
    by_cases hempty : c.outgoing.length = 0
    · exact ⟨_, if_pos hempty⟩
    · exact ⟨w.watched, if_neg hempty⟩
  have hplaced : ∀ r, placeOf ⟨requests.cells.set request
      (some { q with info := .recycled w.recycledRequests })⟩ r =
        if r = request then some .recycled else placeOf w.requests r := by
    intro r
    rw [hset r, hplaces r]
    rfl
  -- requests elsewhere are stored as they were
  have hkept : ∀ r, r ∉ pending conn → (Store.mk (requests.cells.set request
      (some { q with info := .recycled w.recycledRequests }))).get r = w.requests.get r := by
    intro r hnot
    have hne : r ≠ request := by
      rintro rfl
      exact hnot hmem
    rw [hget r, if_neg hne, htouch.kept r]
    rw [hsplit] at hnot
    simp at hnot ⊢
    tauto
  have hrun : w.queueResponse conn request data = .ok { w with
      watched := watched
      requests := ⟨requests.cells.set request
        (some { q with info := .recycled w.recycledRequests })⟩
      recycledRequests := some request
      connections := ⟨w.connections.cells.set conn (some { c with
        outgoing := c.outgoing ++ data
        nPendingRequests := c.nPendingRequests - 1
        firstPendingRequest := ends.first
        lastPendingRequest := ends.last })⟩ } := by
    have hremove' : listRemove requestHook w.requests
        ({ c with outgoing := c.outgoing ++ data } : ServerConnection).pendingEnds request =
          .ok (requests, ends) := hremove
    unfold queueResponse
    simp only [Store.load_ok.mpr hc, except_ok_bind, hwatched, hremove', Store.write_ok hc]
    exact freeServerRequest_spec (w := { w with
      requests := requests
      watched := watched
      connections := _ }) hq
  refine ⟨_, hrun, ⟨⟨rfl, rfl, rfl, rfl, rfl, rfl⟩, rfl, rfl, hplaced, fun i => ?_⟩,
    ⟨fun r => ?_, fun i r => ?_, fun r => ?_, fun i c' hc' => ?_, fun i c' hc' => ?_,
      fun i hi => ?_, ?_⟩⟩
  · change ((Store.mk (w.connections.cells.set conn _)).get i).map _ = _
    rw [hconn i]
    by_cases hi : i = conn
    · rw [if_pos hi, hi, hc, Option.map_some, Option.map_some, if_pos rfl]
    · rw [if_neg hi]
      congr 1
      funext c'
      rw [if_neg hi]
  · rw [hplaced r]
    split_ifs
    · simp
    · exact h.somewhere r
  · rw [hplaced r]
    by_cases hi : i = conn
    · subst hi
      rw [Function.update_self, (hsplit ▸ hlist.nodup : (pending i).Nodup).mem_erase_iff,
        h.mem_pending]
      split_ifs with hreq <;> simp [hreq]
    · rw [Function.update_of_ne hi, h.mem_pending]
      split_ifs with hreq
      · rw [hreq, hr]
        simp [Ne.symm hi]
      · rfl
  · rw [hplaced r, List.mem_cons, h.mem_recycled]
    split_ifs with hreq <;> simp [hreq]
  · rw [hconn i] at hc'
    by_cases hi : i = conn
    · subst hi
      rw [if_pos rfl, Option.some.injEq] at hc'
      subst hc'
      rw [Function.update_self, herase]
      exact hlist'.congr fun r hin => by
        rw [hget r, if_neg]
        rintro rfl
        exact hnodup.1 hin
    · rw [if_neg hi] at hc'
      rw [Function.update_of_ne hi]
      refine (h.lists i c' hc').congr fun r hin => hkept r (h.not_mem ((h.mem_pending i r).mp hin) ?_)
      simp [hi]
  · rw [hconn i] at hc'
    by_cases hi : i = conn
    · subst hi
      rw [if_pos rfl, Option.some.injEq] at hc'
      subst hc'
      rw [Function.update_self, herase]
      change c.nPendingRequests - 1 = _
      rw [h.count i c hc, hsplit, List.length_append, List.length_cons, List.length_append,
        ← Nat.add_assoc]
      exact ofNat_succ_sub_one _
    · rw [if_neg hi] at hc'
      rw [Function.update_of_ne hi]
      exact h.count i c' hc'
  · have hne : i ≠ conn := by
      rintro rfl
      rw [hconn i, if_pos rfl] at hi
      exact absurd hi (by simp)
    rw [hconn i, if_neg hne] at hi
    rw [Function.update_of_ne hne]
    exact h.closed i hi
  · obtain ⟨zs, haddr, hchain⟩ := h.chain
    refine ⟨(request, { q with info := .recycled w.recycledRequests }) :: zs, by simp [haddr], rfl, ?_,
      hchain.congr fun x hx => ?_⟩
    · exact (hget request).trans (if_pos rfl)
    · have hin : x.1 ∈ recycled := haddr ▸ List.mem_map_of_mem hx
      exact (hkept x.1 (h.not_mem ((h.mem_recycled x.1).mp hin) (by simp))).trans
        (hchain.store_eq x hx)

/-! ## Giving a request to a connection -/

/-- The effect of `create_server_request` on the requests and the connections. -/
structure Created (w w' : ServerWorld μ) (conn rv : ℕ) : Prop where
  same : SameProxies w w'
  ends : w'.connectionEnds = w.connectionEnds
  receiving : w'.receiving = w.receiving
  fresh : placeOf w.requests rv = none ∨ placeOf w.requests rv = some .recycled
  placed : ∀ r, placeOf w'.requests r =
    if r = rv then some (.pending conn) else placeOf w.requests r
  connections : ∀ i, (w'.connections.get i).map (fun c => (c.prev, c.next, c.outgoing)) =
    (w.connections.get i).map fun c => (c.prev, c.next, c.outgoing)

/-- The memory of a request comes from the recycled ones or is new. -/
theorem takeServerRequest_spec (h : w.LaidOut pending recycled) : ∃ rv requests next recycled' q,
    w.takeServerRequest = .ok (rv, { w with requests := requests, recycledRequests := next }) ∧
      (placeOf w.requests rv = none ∨ placeOf w.requests rv = some .recycled) ∧
      requests.get rv = some q ∧ (∀ r, r ≠ rv → requests.get r = w.requests.get r) ∧
      (∀ r, r ∈ recycled' ↔ r ∈ recycled ∧ r ≠ rv) ∧
      ∃ xs, addresses xs = recycled' ∧ Chain recycledNext requests.get next xs none := by
  obtain ⟨xs, haddr, hchain⟩ := h.chain
  have hnodup := hchain.nodup
  unfold takeServerRequest
  cases hrecycled : w.recycledRequests with
  | none =>
    have hget := Store.get_alloc w.requests ⟨0, 0, none, .alive ⟨none, none⟩⟩
    have hnew : w.requests.get w.requests.cells.length = none :=
      Store.get_alloc_new w.requests ⟨0, 0, none, .alive ⟨none, none⟩⟩
    rw [hrecycled] at hchain
    have hnil : recycled = [] := by
      cases xs with
      | nil => exact haddr.symm
      | cons x xs => exact absurd hchain.1 (by simp)
    refine ⟨w.requests.cells.length, _, none, recycled, _, ?_, .inl ?_, (hget _).trans (if_pos rfl),
      fun r hr => (hget r).trans (if_neg hr), fun r => ?_, [], ?_, rfl⟩
    · cases w
      cases hrecycled
      rfl
    · unfold placeOf
      rw [hnew]
      rfl
    · rw [hnil]
      simp
    · rw [hnil]
      rfl
  | some rv =>
    rw [hrecycled] at hchain
    cases xs with
    | nil => exact absurd hchain (by simp [Chain])
    | cons x xs =>
      obtain ⟨hp, hstore, hrest⟩ := hchain
      obtain rfl : rv = x.1 := by simpa using hp
      have hmem : x.1 ∈ recycled := by simp [← haddr]
      have hplace := (h.mem_recycled x.1).mp hmem
      obtain ⟨q, hq, hqplace⟩ := placeOf_eq_some hplace
      obtain rfl : x.2 = q := Option.some.inj (hstore.symm.trans hq)
      obtain ⟨next, hinfo⟩ := place_recycled hqplace
      have hnext : recycledNext x.2 = next := by
        unfold recycledNext
        rw [hinfo]
      rw [hnext] at hrest
      refine ⟨x.1, w.requests, next, addresses xs, x.2, ?_, .inr hplace, hstore, fun _ _ => rfl,
        fun r => ?_, xs, rfl, hrest⟩
      · simp only [Store.load_ok.mpr hstore, except_ok_bind, hinfo]
        rfl
      · have hout : x.1 ∉ addresses xs := (List.nodup_cons.mp hnodup).1
        rw [← haddr]
        change r ∈ addresses xs ↔ r ∈ x.1 :: addresses xs ∧ r ≠ x.1
        rw [List.mem_cons]
        constructor
        · exact fun hr => ⟨.inr hr, fun heq => hout (heq ▸ hr)⟩
        · rintro ⟨rfl | hr, hne⟩
          · exact absurd rfl hne
          · exact hr

theorem createServerRequest_spec (h : w.LaidOut pending recycled)
    (hc : w.connections.get conn = some c) (request_id method_index : UInt32) :
    ∃ rv w' recycled', w.createServerRequest conn request_id method_index = .ok (rv, w') ∧
      Created w w' conn rv ∧
      w'.LaidOut (Function.update pending conn (pending conn ++ [rv])) recycled' := by
  obtain ⟨rv, requests, next, recycled', q, htake, hfresh, hq, hkept, hrecycled, hchain⟩ :=
    takeServerRequest_spec h
  have hnot : ∀ i, rv ∉ pending i := by
    intro i
    obtain hnone | hplace := hfresh
    · exact h.not_mem hnone (by simp)
    · exact h.not_mem hplace (by simp)
  -- the request is stored, and stands in no list yet
  have hq' : (Store.mk (requests.cells.set rv (some { q with
      conn := some conn, requestId := request_id, methodIndex := method_index }))).get rv = some
        { q with conn := some conn, requestId := request_id, methodIndex := method_index } :=
    (Store.get_set hq _ rv).trans (if_pos rfl)
  have hlist : ∀ i c, w.connections.get i = some c → IsList requestHook (Store.mk (requests.cells.set rv
      (some { q with conn := some conn, requestId := request_id, methodIndex := method_index })))
        c.pendingEnds (pending i) := by
    intro i c hc
    refine (h.lists i c hc).congr fun r hr => ?_
    have hne : r ≠ rv := by
      rintro rfl
      exact hnot i hr
    rw [Store.get_set hq, if_neg hne, hkept r hne]
  obtain ⟨requests', ends, happend, hlist', htouch⟩ :=
    listAppend_spec (hlist conn c hc) hq' (hnot conn)
  have hconn := Store.get_set hc (some { c with
    nPendingRequests := c.nPendingRequests + 1
    firstPendingRequest := ends.first
    lastPendingRequest := ends.last })
  have hrun : w.createServerRequest conn request_id method_index = .ok (rv, { w with
      requests := requests'
      recycledRequests := next
      connections := ⟨w.connections.cells.set conn (some { c with
        nPendingRequests := c.nPendingRequests + 1
        firstPendingRequest := ends.first
        lastPendingRequest := ends.last })⟩ }) := by
    unfold createServerRequest
    simp only [htake, except_ok_bind, Store.modify_ok hq, Store.load_ok.mpr hc, happend,
      Store.write_ok hc]
    rfl
  -- requests in no pending list of this connection are stored as they were
  have hsame : ∀ r, r ≠ rv → r ∉ pending conn → requests'.get r = w.requests.get r := by
    intro r hne hr
    rw [htouch.kept r (by simp [hne, hr]), Store.get_set hq, if_neg hne, hkept r hne]
  have hplaced : ∀ r, placeOf requests' r =
      if r = rv then some (.pending conn) else placeOf w.requests r := by
    intro r
    by_cases hne : r = rv
    · subst hne
      obtain ⟨a, k, ha, hk⟩ := hlist'.linked_mem r (by simp)
      have hbare := htouch.bare.map (f := ServerRequest.conn) (fun _ _ => rfl) r
      rw [ha, hq', Option.map_some, Option.map_some, Option.some.injEq] at hbare
      rw [if_pos rfl, placeOf_eq ha, place_of_hook hk, hbare]
      rfl
    · rw [if_neg hne]
      by_cases hr : r ∈ pending conn
      · obtain ⟨a, k, ha, hk⟩ := hlist'.linked_mem r (List.mem_append_left _ hr)
        have hbare := htouch.bare.map (f := ServerRequest.conn) (fun _ _ => rfl) r
        rw [ha, Store.get_set hq, if_neg hne, hkept r hne] at hbare
        obtain ⟨b, hb, hplace⟩ := placeOf_eq_some ((h.mem_pending conn r).mp hr)
        rw [hb, Option.map_some, Option.map_some, Option.some.injEq] at hbare
        rw [placeOf_eq ha, place_of_hook hk, hbare, (place_pending hplace).1,
          (h.mem_pending conn r).mp hr]
        rfl
      · unfold placeOf
        rw [hsame r hne hr]
  refine ⟨rv, _, recycled', hrun, ⟨⟨rfl, rfl, rfl, rfl, rfl, rfl⟩, rfl, rfl, hfresh, hplaced,
    fun i => ?_⟩, ⟨fun r => ?_, fun i r => ?_, fun r => ?_, fun i c' hc' => ?_, fun i c' hc' => ?_,
      fun i hi => ?_, ?_⟩⟩
  · change ((Store.mk (w.connections.cells.set conn _)).get i).map _ = _
    rw [hconn i]
    by_cases hi : i = conn
    · rw [if_pos hi, hi, hc, Option.map_some, Option.map_some]
    · rw [if_neg hi]
  · rw [hplaced r]
    split_ifs
    · simp
    · exact h.somewhere r
  · rw [hplaced r]
    by_cases hi : i = conn
    · subst hi
      rw [Function.update_self, List.mem_append, List.mem_singleton, h.mem_pending]
      split_ifs with hreq <;> simp [hreq]
    · rw [Function.update_of_ne hi, h.mem_pending]
      split_ifs with hreq
      · rw [hreq]
        constructor
        · exact fun hin => absurd ((h.mem_pending i rv).mpr hin) (hnot i)
        · simp [Ne.symm hi]
      · rfl
  · rw [hplaced r, hrecycled, h.mem_recycled]
    split_ifs with hreq <;> simp [hreq]
  · rw [hconn i] at hc'
    by_cases hi : i = conn
    · subst hi
      rw [if_pos rfl, Option.some.injEq] at hc'
      subst hc'
      rw [Function.update_self]
      exact hlist'
    · rw [if_neg hi] at hc'
      rw [Function.update_of_ne hi]
      refine (h.lists i c' hc').congr fun r hin => hsame r ?_ ?_
      · rintro rfl
        exact hnot i hin
      · exact h.not_mem ((h.mem_pending i r).mp hin) (by simp [hi])
  · rw [hconn i] at hc'
    by_cases hi : i = conn
    · subst hi
      rw [if_pos rfl, Option.some.injEq] at hc'
      subst hc'
      rw [Function.update_self, List.length_append, List.length_singleton, UInt32.ofNat_add,
        ← h.count i c hc]
      rfl
    · rw [if_neg hi] at hc'
      rw [Function.update_of_ne hi]
      exact h.count i c' hc'
  · have hne : i ≠ conn := by
      rintro rfl
      rw [hconn i, if_pos rfl] at hi
      exact absurd hi (by simp)
    rw [hconn i, if_neg hne] at hi
    rw [Function.update_of_ne hne]
    exact h.closed i hi
  · obtain ⟨xs, haddr, hchain⟩ := hchain
    refine ⟨xs, haddr, hchain.congr fun x hx => ?_⟩
    obtain ⟨hin, hne⟩ := (hrecycled x.1).mp (haddr ▸ List.mem_map_of_mem hx)
    have hstored := hchain.store_eq x hx
    rw [hkept x.1 hne] at hstored
    rw [hsame x.1 hne (h.not_mem ((h.mem_recycled x.1).mp hin) (by simp)), hstored]

/-! ## Closing a connection -/

/-- The connections of the server are those in its list. -/
structure ConnectionsLinked (w : ServerWorld μ) (conns : List ℕ) : Prop where
  list : IsList connectionHook w.connections w.connectionEnds conns
  mem : ∀ i, i ∈ conns ↔ ∃ c, w.connections.get i = some c

theorem ConnectionsLinked.congr {conns : List ℕ} (h : w.ConnectionsLinked conns)
    (hends : w'.connectionEnds = w.connectionEnds)
    (hlinks : ∀ i, (w'.connections.get i).map (fun c => (c.prev, c.next)) =
      (w.connections.get i).map fun c => (c.prev, c.next)) : w'.ConnectionsLinked conns := by
  refine ⟨⟨hends ▸ h.list.first, hends ▸ h.list.last, h.list.nodup, fun xs i ys heq => ?_⟩,
    fun i => ?_⟩
  · obtain ⟨a, ha, hk⟩ := h.list.linked xs i ys heq
    have hview := hlinks i
    rw [ha] at hview
    obtain ⟨a', ha', hsame⟩ := Option.map_eq_some_iff.mp hview
    obtain ⟨hprev, hnext⟩ := Prod.mk.inj hsame
    refine ⟨a', ha', ?_⟩
    rw [← hk]
    change some (Links.mk a'.prev a'.next) = some ⟨a.prev, a.next⟩
    rw [hprev, hnext]
  · rw [h.mem]
    have hview := congrArg Option.isSome (hlinks i)
    rw [Option.isSome_map, Option.isSome_map] at hview
    rw [← Option.isSome_iff_exists, ← Option.isSome_iff_exists, hview]

/-- The effect of `server_connection_close`. -/
structure Closed (w w' : ServerWorld μ) (conn : ℕ) : Prop where
  same : SameProxies w w'
  receiving : w'.receiving = w.receiving
  placed : ∀ r, placeOf w'.requests r =
    if placeOf w.requests r = some (.pending conn) then some .defunct else placeOf w.requests r
  connections : ∀ i, (w'.connections.get i).map ServerConnection.outgoing =
    if i = conn then none else (w.connections.get i).map ServerConnection.outgoing

theorem disassociateLoop_spec : ∀ (l : List ℕ) (fuel : ℕ) (requests : Store ServerRequest),
    l.length < fuel → l.Nodup → (∀ (xs : List ℕ) (i : ℕ) (ys : List ℕ), l = xs ++ i :: ys →
      ∃ a k, requests.get i = some a ∧ requestHook.links a = some k ∧ k.next = ys.head?) →
    ∃ requests', disassociateLoop fuel requests l.head? = .ok requests' ∧
      ∀ r, requests'.get r = if r ∈ l then (requests.get r).map ServerRequest.disassociated
        else requests.get r := by
  intro l
  induction l with
  | nil =>
    intro fuel requests _ _ _
    cases fuel with
    | zero => exact ⟨requests, rfl, fun r => by simp⟩
    | succ fuel => exact ⟨requests, rfl, fun r => by simp⟩
  | cons i is ih =>
    intro fuel requests hfuel hnodup hlinked
    obtain ⟨hnot, hnodup⟩ := List.nodup_cons.mp hnodup
    obtain ⟨a, k, ha, hk, hnext⟩ := hlinked [] i is rfl
    cases fuel with
    | zero => exact absurd hfuel (by simp)
    | succ fuel =>
      have hset := Store.get_set ha (some a.disassociated)
      -- the rest of the list is not touched
      obtain ⟨requests', hrest, hget⟩ := ih fuel ⟨requests.cells.set i (some a.disassociated)⟩
        (by simpa using hfuel) hnodup fun xs j ys heq => by
          obtain ⟨b, l, hb, hl⟩ := hlinked (i :: xs) j ys (by rw [heq]; rfl)
          refine ⟨b, l, ?_, hl⟩
          rw [hset j, if_neg, hb]
          rintro rfl
          exact hnot (by simp [heq])
      refine ⟨requests', ?_, fun r => ?_⟩
      · rw [← hrest, ← hnext]
        simp only [List.head?_cons, disassociateLoop, readLinks_ok ha hk, except_ok_bind,
          Store.modify_ok ha]
        rfl
      · rw [hget r, hset r]
        by_cases hri : r = i
        · subst hri
          rw [if_neg hnot, if_pos rfl, if_pos List.mem_cons_self, ha, Option.map_some]
        · rw [if_neg hri]
          simp [hri]

theorem serverConnectionClose_spec {conns : List ℕ} (h : w.LaidOut pending recycled)
    (hconns : w.ConnectionsLinked conns) (hc : w.connections.get conn = some c) :
    ∃ w', w.serverConnectionClose conn = .ok w' ∧ Closed w w' conn ∧
      w'.LaidOut (Function.update pending conn []) recycled ∧
      w'.ConnectionsLinked (conns.erase conn) := by
  obtain ⟨xs, ys, hsplit⟩ := List.append_of_mem ((hconns.mem conn).mpr ⟨c, hc⟩)
  have hlist := hconns.list
  have hnodup := hlist.nodup
  rw [hsplit, List.nodup_middle, List.nodup_cons] at hnodup
  have herase : conns.erase conn = xs ++ ys := by
    rw [hsplit, List.erase_append_right _ fun hin => hnodup.1 (List.mem_append_left _ hin),
      List.erase_cons_head]
  rw [hsplit] at hlist
  obtain ⟨connections, ends, hremove, hlist', htouch⟩ := listRemove_spec hlist
  have hc' : connections.get conn = some c := by rw [htouch.kept conn hnodup.1, hc]
  have hpending := h.lists conn c hc
  obtain ⟨requests, hloop, hget⟩ := disassociateLoop_spec (pending conn)
    (w.requests.cells.length + 1) w.requests (Nat.lt_succ_of_le hpending.length_le)
    hpending.nodup fun xs i ys heq => by
      obtain ⟨a, ha, hk⟩ := hpending.linked xs i ys heq
      exact ⟨a, _, ha, hk, rfl⟩
  have hrun : w.serverConnectionClose conn = .ok { w.closeFd c.fd with
      connections := ⟨connections.cells.set conn none⟩
      connectionEnds := ends
      requests := requests } := by
    have hfirst : c.firstPendingRequest = (pending conn).head? := hpending.first
    have hremove' : listRemove connectionHook (w.closeFd c.fd).connections
        (w.closeFd c.fd).connectionEnds conn = .ok (connections, ends) := hremove
    have hloop' : disassociateLoop ((w.closeFd c.fd).requests.cells.length + 1)
        (w.closeFd c.fd).requests (pending conn).head? = .ok requests := hloop
    unfold serverConnectionClose
    simp only [Store.load_ok.mpr hc, except_ok_bind, hremove', hfirst, hloop', Store.free_ok hc']
    rfl
  have hfree := Store.get_set hc' none
  have hplaced : ∀ r, placeOf requests r =
      if placeOf w.requests r = some (.pending conn) then some .defunct else placeOf w.requests r := by
    intro r
    have hr := hget r
    by_cases hin : r ∈ pending conn
    · have hplace := (h.mem_pending conn r).mp hin
      obtain ⟨q, hq, -⟩ := placeOf_eq_some hplace
      rw [if_pos hin, hq] at hr
      rw [if_pos hplace, placeOf_eq hr]
      rfl
    · rw [if_neg hin] at hr
      rw [if_neg fun hplace => hin ((h.mem_pending conn r).mpr hplace)]
      unfold placeOf
      rw [hr]
  have hkept : ∀ r, r ∉ pending conn → requests.get r = w.requests.get r :=
    fun r hr => (hget r).trans (if_neg hr)
  have hview := pendingView_relink (listRemove_sameBare hremove)
  have hothers : ∀ i c', (Store.mk (connections.cells.set conn none)).get i = some c' →
      i ≠ conn ∧ ∃ c, w.connections.get i = some c ∧ c.pendingEnds = c'.pendingEnds ∧
        c.nPendingRequests = c'.nPendingRequests := by
    intro i c' hc'
    rw [hfree i] at hc'
    by_cases hi : i = conn
    · rw [if_pos hi] at hc'
      exact absurd hc' (by simp)
    · rw [if_neg hi] at hc'
      have hv := hview i
      unfold pendingView at hv
      rw [hc'] at hv
      obtain ⟨c, hc, heq⟩ := Option.map_eq_some_iff.mp hv.symm
      exact ⟨hi, c, hc, Prod.mk.inj heq⟩
  refine ⟨_, hrun, ⟨⟨rfl, rfl, rfl, rfl, rfl, rfl⟩, rfl, hplaced, fun i => ?_⟩,
    ⟨fun r => ?_, fun i r => ?_, fun r => ?_, fun i c' hc' => ?_, fun i c' hc' => ?_,
      fun i hi => ?_, ?_⟩, ⟨?_, fun i => ?_⟩⟩
  · change ((Store.mk (connections.cells.set conn none)).get i).map _ = _
    rw [hfree i]
    by_cases hi : i = conn
    · rw [if_pos hi, if_pos hi]
      rfl
    · rw [if_neg hi, if_neg hi]
      exact (listRemove_sameBare hremove).map (fun _ _ => rfl) i
  · rw [hplaced r]
    split_ifs
    · simp
    · exact h.somewhere r
  · rw [hplaced r]
    by_cases hi : i = conn
    · subst hi
      rw [Function.update_self]
      split_ifs with hr <;> simp [hr]
    · rw [Function.update_of_ne hi, h.mem_pending]
      split_ifs with hr
      · rw [hr]
        simp [Ne.symm hi]
      · rfl
  · rw [hplaced r, h.mem_recycled]
    split_ifs with hr <;> simp [hr]
  · obtain ⟨hi, c, hc, hends, -⟩ := hothers i c' hc'
    rw [Function.update_of_ne hi, ← hends]
    exact (h.lists i c hc).congr fun r hr => hkept r
      (h.not_mem ((h.mem_pending i r).mp hr) (by simp [hi]))
  · obtain ⟨hi, c, hc, -, hcount⟩ := hothers i c' hc'
    rw [Function.update_of_ne hi, ← hcount]
    exact h.count i c hc
  · by_cases hne : i = conn
    · rw [hne, Function.update_self]
    · rw [Function.update_of_ne hne]
      refine h.closed i ?_
      have hgone := (hfree i).symm.trans hi
      rw [if_neg hne] at hgone
      have hv := hview i
      unfold pendingView at hv
      rw [hgone] at hv
      exact Option.map_eq_none_iff.mp hv.symm
  · obtain ⟨zs, haddr, hchain⟩ := h.chain
    refine ⟨zs, haddr, hchain.congr fun x hx => ?_⟩
    have hin : x.1 ∈ recycled := haddr ▸ List.mem_map_of_mem hx
    exact (hkept x.1 (h.not_mem ((h.mem_recycled x.1).mp hin) (by simp))).trans
      (hchain.store_eq x hx)
  · rw [herase]
    refine hlist'.congr fun i hi => (hfree i).trans (if_neg ?_)
    rintro rfl
    exact hnodup.1 hi
  · have hisome := congrArg Option.isSome
      ((listRemove_sameBare hremove).map (f := ServerConnection.outgoing) (fun _ _ => rfl) i)
    rw [Option.isSome_map, Option.isSome_map] at hisome
    rw [hconns.list.nodup.mem_erase_iff, hconns.mem]
    change _ ↔ ∃ c, (Store.mk (connections.cells.set conn none)).get i = some c
    rw [hfree i]
    by_cases hi : i = conn
    · simp [hi]
    · rw [if_neg hi, ← Option.isSome_iff_exists, ← Option.isSome_iff_exists, hisome]
      simp [hi]

/-! ## Accepting a connection -/

theorem LaidOut.accept (h : w.LaidOut pending recycled) (hrequests : w'.requests = w.requests)
    (hrecycled : w'.recycledRequests = w.recycledRequests) (hnew : w.connections.get conn = none)
    (hview : ∀ i, pendingView w'.connections i =
      if i = conn then some (.empty, 0) else pendingView w.connections i) :
    w'.LaidOut pending recycled := by
  have hempty := h.closed conn hnew
  have hget : ∀ i c', w'.connections.get i = some c' →
      (i = conn ∧ c'.pendingEnds = .empty ∧ c'.nPendingRequests = 0) ∨
      ∃ c, w.connections.get i = some c ∧ c.pendingEnds = c'.pendingEnds ∧
        c.nPendingRequests = c'.nPendingRequests := by
    intro i c' hc'
    have hv := hview i
    by_cases hi : i = conn
    · rw [if_pos hi] at hv
      unfold pendingView at hv
      rw [hc'] at hv
      exact .inl ⟨hi, Prod.mk.inj (Option.some.inj hv)⟩
    · rw [if_neg hi] at hv
      unfold pendingView at hv
      rw [hc'] at hv
      obtain ⟨c, hc, heq⟩ := Option.map_eq_some_iff.mp hv.symm
      exact .inr ⟨c, hc, Prod.mk.inj heq⟩
  refine ⟨?_, ?_, ?_, fun i c' hc' => ?_, fun i c' hc' => ?_, fun i hi => ?_, ?_⟩
  · rw [hrequests]
    exact h.somewhere
  · rw [hrequests]
    exact h.mem_pending
  · rw [hrequests]
    exact h.mem_recycled
  · obtain ⟨rfl, hends, -⟩ | ⟨c, hc, hends, -⟩ := hget i c' hc'
    · rw [hends, hempty]
      exact isList_nil _
    · rw [hrequests, ← hends]
      exact h.lists i c hc
  · obtain ⟨rfl, -, hcount⟩ | ⟨c, hc, -, hcount⟩ := hget i c' hc'
    · rw [hcount, hempty]
      rfl
    · rw [← hcount]
      exact h.count i c hc
  · have hv := hview i
    unfold pendingView at hv
    rw [hi] at hv
    by_cases hne : i = conn
    · rw [hne, hempty]
    · rw [if_neg hne] at hv
      exact h.closed i (Option.map_eq_none_iff.mp hv.symm)
  · rw [hrequests, hrecycled]
    exact h.chain

/-! ## Freeing a request -/

theorem LaidOut.free (h : w.LaidOut pending recycled)
    (hr : placeOf w.requests request = some .defunct) :
    ∃ requests, w.requests.free request = .ok requests ∧
      ({ w with requests := requests } : ServerWorld μ).LaidOut pending recycled ∧
      ∀ r, placeOf requests r = if r = request then none else placeOf w.requests r := by
  obtain ⟨q, hq, -⟩ := placeOf_eq_some hr
  have hplaced := placeOf_set hq none
  have hget := Store.get_set hq none
  have hkept : ∀ r, placeOf w.requests r ≠ some .defunct →
      (Store.mk (w.requests.cells.set request none)).get r = w.requests.get r := by
    intro r hne
    rw [hget r, if_neg]
    rintro rfl
    exact hne hr
  refine ⟨_, Store.free_ok hq, ⟨fun r => ?_, fun i r => ?_, fun r => ?_, fun i c hc => ?_, h.count,
    h.closed, ?_⟩, hplaced⟩
  · rw [hplaced r]
    split_ifs
    · simp
    · exact h.somewhere r
  · rw [h.mem_pending, hplaced r]
    split_ifs with hreq
    · rw [hreq, hr]
      simp
    · rfl
  · rw [h.mem_recycled, hplaced r]
    split_ifs with hreq
    · rw [hreq, hr]
      simp
    · rfl
  · refine (h.lists i c hc).congr fun r hin => hkept r ?_
    rw [(h.mem_pending i r).mp hin]
    simp
  · obtain ⟨xs, haddr, hchain⟩ := h.chain
    refine ⟨xs, haddr, hchain.congr fun x hx => ?_⟩
    have hin : x.1 ∈ recycled := haddr ▸ List.mem_map_of_mem hx
    refine (hkept x.1 ?_).trans (hchain.store_eq x hx)
    rw [(h.mem_recycled x.1).mp hin]
    simp

end ServerWorld

end ProtobufC
