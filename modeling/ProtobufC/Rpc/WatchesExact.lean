import ProtobufC.Rpc.EarlyRequests
import ProtobufC.Rpc.ServerMachine

/-! # What is registered with the dispatcher

Bytes that wait in a buffer are sent only if the file descriptor is registered as writable, and a
connection that is not registered as readable hears of nothing.  `WatchesExact` says that a connection
is registered for just what it needs.  The server keeps that, but for an answer through the pipe whose
length does not fit the word that the pipe has for it; the client registers nothing when it has connected,
and does so with the first request.
-/

namespace ProtobufC
open Library
set_option autoImplicit false

variable {μ : Type} (codec : Codec μ)

/-! ## What should be registered -/

/-- Every connection is registered, as writable just if its buffer holds bytes. -/
def ServerWorld.WatchesExact (w : ServerWorld μ) : Prop :=
  ∀ conn c, w.connections.get conn = some c → w.watched c.fd =
    some (connectedEvents c.outgoing, RpcHandler.serverConnectionEvents.callback conn)

/-- The same for a client. -/
def ClientWorld.WatchesExact (w : ClientWorld μ) : Prop :=
  w.client.state = .connected → ∃ fd, w.client.fd = some fd ∧ w.watched fd =
    some (connectedEvents w.client.outgoing, RpcHandler.clientEvents.callback w.self)

/-- An answer that goes through the pipe has a length that is not 0 in the word for it. -/
def ServerWorld.LengthFits (w : ServerWorld μ) : ServerLabel μ → Prop
  | .answer request message false .whole => w.threading = true →
      ∀ r, w.requests.get request = some r →
        UInt32.ofNat (responseBytes codec r message).length ≠ 0
  | _ => True

/-! ## The server -/

namespace ServerWorld
variable {codec} {w w' : ServerWorld μ}

/-- What of a connection its registration depends on. -/
def view (w : ServerWorld μ) (conn : ℕ) : Option (ℕ × List UInt8) :=
  (w.connections.get conn).map fun c => (c.fd, c.outgoing)

theorem view_eq {conn : ℕ} {c : ServerConnection} (h : w.connections.get conn = some c) :
    w.view conn = some (c.fd, c.outgoing) := by
  unfold view
  rw [h]
  rfl

theorem watchesExact_iff : w.WatchesExact ↔ ∀ conn fd outgoing, w.view conn = some (fd, outgoing) →
    w.watched fd =
      some (connectedEvents outgoing, RpcHandler.serverConnectionEvents.callback conn) := by
  constructor
  · intro h conn fd outgoing hview
    obtain ⟨c, hc, heq⟩ := Option.map_eq_some_iff.mp hview
    obtain ⟨rfl, rfl⟩ := Prod.mk.inj heq
    exact h conn c hc
  · exact fun h conn c hc => h conn c.fd c.outgoing (view_eq hc)

theorem serverCallback_inj {conn conn' : ℕ} (h : RpcHandler.serverConnectionEvents.callback conn =
    RpcHandler.serverConnectionEvents.callback conn') : conn = conn' := congrArg Callback.data h

theorem WatchesExact.congr (h : w.WatchesExact) (hview : ∀ i, w'.view i = w.view i)
    (hwatched : w'.watched = w.watched) : w'.WatchesExact := by
  rw [watchesExact_iff] at h ⊢
  intro conn fd outgoing hv
  rw [hwatched]
  exact h conn fd outgoing (by rw [← hview, hv])

/-- One connection changes, and what is registered for its file descriptor. -/
theorem WatchesExact.update (h : w.WatchesExact) {conn : ℕ} {c : ServerConnection}
    (hc : w.connections.get conn = some c) (hothers : ∀ i, i ≠ conn → w'.view i = w.view i)
    (hself : ∀ fd outgoing, w'.view conn = some (fd, outgoing) → fd = c.fd ∧ w'.watched c.fd =
      some (connectedEvents outgoing, RpcHandler.serverConnectionEvents.callback conn))
    (hkept : ∀ f, f ≠ c.fd → w'.watched f = w.watched f) : w'.WatchesExact := by
  have hold := h conn c hc
  rw [watchesExact_iff] at h ⊢
  intro i fd outgoing hv
  by_cases hi : i = conn
  · subst hi
    obtain ⟨rfl, hnew⟩ := hself fd outgoing hv
    exact hnew
  · have hreg := h i fd outgoing (by rw [← hothers i hi, hv])
    -- another connection has another file descriptor
    have hfd : fd ≠ c.fd := by
      rintro rfl
      rw [hold, Option.some.injEq, Prod.mk.injEq] at hreg
      exact hi (serverCallback_inj hreg.2).symm
    rw [hkept fd hfd, hreg]

theorem view_write {connections : Store ServerConnection} {conn : ℕ} {c c' : ServerConnection}
    (hc : w.connections.get conn = some c) (hok : w.connections.write conn c' = .ok connections)
    (i : ℕ) : (connections.get i).map (fun c => (c.fd, c.outgoing)) =
      if i = conn then some (c'.fd, c'.outgoing) else w.view i := by
  obtain rfl := Except.ok.inj ((Store.write_ok hc c').symm.trans hok)
  rw [Store.get_set hc]
  by_cases hi : i = conn
  · rw [if_pos hi, if_pos hi]
    rfl
  · rw [if_neg hi, if_neg hi]
    rfl

theorem view_relink {store store' : Store ServerConnection}
    (h : SameBare connectionHook store store') (i : ℕ) :
    (store'.get i).map (fun c => (c.fd, c.outgoing)) =
      (store.get i).map (fun c => (c.fd, c.outgoing)) := h.map (fun _ _ => rfl) i

theorem freeServerRequest_frame {request : ℕ} (hok : w.freeServerRequest request = .ok w') :
    w'.connections = w.connections ∧ w'.watched = w.watched ∧ w'.proxies = w.proxies := by
  obtain ⟨requests, -, hok⟩ := except_bind_eq_ok hok
  obtain rfl := Except.ok.inj hok
  exact ⟨rfl, rfl, rfl⟩

theorem queueResponse_watches (h : w.WatchesExact) {conn request : ℕ} {data : List UInt8}
    (hdata : data ≠ []) (hok : w.queueResponse conn request data = .ok w') :
    w'.WatchesExact ∧ w'.proxies = w.proxies := by
  obtain ⟨c, hload, hok⟩ := except_bind_eq_ok hok
  have hc := Store.load_ok.mp hload
  have hnew : connectedEvents (c.outgoing ++ data) = eventReadable ||| eventWritable :=
    if_pos (by rw [List.length_append]; have := List.length_pos_iff.mpr hdata; omega)
  have hreg := h conn c hc
  by_cases hempty : c.outgoing.length = 0
  · simp only [if_pos hempty] at hok
    obtain ⟨r, -, hok⟩ := except_bind_eq_ok hok
    obtain ⟨connections, hwrite, hok⟩ := except_bind_eq_ok hok
    obtain ⟨hconns, hwatched, hproxies⟩ := freeServerRequest_frame hok
    refine ⟨h.update hc (fun i hi => ?_) (fun fd outgoing hv => ?_) (fun f hf => ?_), hproxies⟩
    · unfold view
      rw [hconns]
      exact (view_write (w := w) hc hwrite i).trans (if_neg hi)
    · unfold view at hv
      rw [hconns] at hv
      have hview := (view_write (w := w) hc hwrite conn).trans (if_pos rfl)
      obtain ⟨rfl, rfl⟩ := Prod.mk.inj (Option.some.inj (hv.symm.trans hview))
      refine ⟨rfl, ?_⟩
      rw [hwatched, hnew]
      exact if_pos rfl
    · rw [hwatched]
      exact if_neg hf
  · simp only [if_neg hempty] at hok
    obtain ⟨r, -, hok⟩ := except_bind_eq_ok hok
    obtain ⟨connections, hwrite, hok⟩ := except_bind_eq_ok hok
    obtain ⟨hconns, hwatched, hproxies⟩ := freeServerRequest_frame hok
    have hwritable : connectedEvents c.outgoing = eventReadable ||| eventWritable :=
      if_pos (by omega)
    refine ⟨h.update hc (fun i hi => ?_) (fun fd outgoing hv => ?_) (fun f _ => by rw [hwatched]),
      hproxies⟩
    · unfold view
      rw [hconns]
      exact (view_write (w := w) hc hwrite i).trans (if_neg hi)
    · unfold view at hv
      rw [hconns] at hv
      have hview := (view_write (w := w) hc hwrite conn).trans (if_pos rfl)
      obtain ⟨rfl, rfl⟩ := Prod.mk.inj (Option.some.inj (hv.symm.trans hview))
      refine ⟨rfl, ?_⟩
      rw [hwatched, hnew, ← hwritable]
      exact hreg

/-- A connection is closed, and nothing is registered for its file descriptor. -/
theorem serverConnectionClose_watches (h : w.WatchesExact) {conn : ℕ}
    (hok : w.serverConnectionClose conn = .ok w') : w'.WatchesExact ∧ w'.proxies = w.proxies := by
  obtain ⟨c, hload, hok⟩ := except_bind_eq_ok hok
  have hc := Store.load_ok.mp hload
  obtain ⟨⟨connections, ends⟩, hremove, hok⟩ := except_bind_eq_ok hok
  obtain ⟨requests, -, hok⟩ := except_bind_eq_ok hok
  obtain ⟨connections', hfree, hok⟩ := except_bind_eq_ok hok
  obtain rfl := Except.ok.inj hok
  have hrelink := view_relink (listRemove_sameBare hremove)
  have hrel : (connections.get conn).map (fun c => (c.fd, c.outgoing)) = some (c.fd, c.outgoing) :=
    (hrelink conn).trans (view_eq hc)
  obtain ⟨c', hc', -⟩ := Option.map_eq_some_iff.mp hrel
  obtain rfl := Except.ok.inj ((Store.free_ok hc').symm.trans hfree)
  have hget := Store.get_set hc' none
  refine ⟨h.update hc (fun i hi => ?_) (fun fd outgoing hv => ?_) (fun f hf => if_neg hf), rfl⟩
  · unfold view
    change ((Store.mk (connections.cells.set conn none)).get i).map _ = _
    rw [hget, if_neg hi]
    exact hrelink i
  · unfold view at hv
    change ((Store.mk (connections.cells.set conn none)).get conn).map _ = _ at hv
    rw [hget, if_pos rfl] at hv
    exact absurd hv (by simp)

theorem serverConnectionFailed_watches (h : w.WatchesExact) {conn : ℕ} {code : RpcErrorCode}
    {format : String} (hok : w.serverConnectionFailed conn code format = .ok w') :
    w'.WatchesExact ∧ w'.proxies = w.proxies :=
  serverConnectionClose_watches (w := w.serverFailedLiteral code format) h hok

theorem handleServerWritable_watches (h : w.WatchesExact) {conn : ℕ}
    {writable : Option WritevOutcome} (hok : w.handleServerWritable conn writable = .ok w') :
    w'.WatchesExact ∧ w'.proxies = w.proxies := by
  unfold handleServerWritable at hok
  cases writable with
  | none =>
    obtain rfl := Except.ok.inj hok
    exact ⟨h, rfl⟩
  | some outcome =>
    obtain ⟨c, hload, hok⟩ := except_bind_eq_ok hok
    have hc := Store.load_ok.mp hload
    have hreg := h conn c hc
    by_cases hpos : c.outgoing.length > 0
    · rw [if_pos hpos] at hok
      have hwritable : connectedEvents c.outgoing = eventReadable ||| eventWritable := if_pos hpos
      have hgo : ∀ outcome : WritevOutcome,
          ((do
            let connections ← w.connections.write conn
              { c with outgoing := c.outgoing.drop outcome.count }
            return if (c.outgoing.drop outcome.count).length = 0 then
              ({ w with connections := connections }.watchConnection c.fd eventReadable conn)
              else { w with connections := connections }) : Except Fault (ServerWorld μ)) = .ok w' →
          w'.WatchesExact ∧ w'.proxies = w.proxies := by
        intro outcome hok
        obtain ⟨connections, hwrite, hok⟩ := except_bind_eq_ok hok
        have hview := view_write (w := w) hc hwrite
        obtain rfl := Except.ok.inj hok
        by_cases hleft : (c.outgoing.drop outcome.count).length = 0
        · rw [if_pos hleft]
          refine ⟨h.update hc (fun i hi => (hview i).trans (if_neg hi)) (fun fd outgoing hv => ?_)
            (fun f hf => if_neg hf), rfl⟩
          obtain ⟨rfl, rfl⟩ := Prod.mk.inj
            (Option.some.inj (hv.symm.trans ((hview conn).trans (if_pos rfl))))
          have hread : connectedEvents (c.outgoing.drop outcome.count) = eventReadable :=
            if_neg (by omega)
          refine ⟨rfl, (if_pos rfl).trans ?_⟩
          rw [hread]
          rfl
        · rw [if_neg hleft]
          refine ⟨h.update hc (fun i hi => (hview i).trans (if_neg hi)) (fun fd outgoing hv => ?_)
            (fun f hf => rfl), rfl⟩
          obtain ⟨rfl, rfl⟩ := Prod.mk.inj
            (Option.some.inj (hv.symm.trans ((hview conn).trans (if_pos rfl))))
          have hwrite : connectedEvents (c.outgoing.drop outcome.count) =
            eventReadable ||| eventWritable := if_pos (by omega)
          refine ⟨rfl, hreg.trans ?_⟩
          rw [hwritable, hwrite]
      cases outcome with
      | fails => exact serverConnectionFailed_watches h hok
      | ignorable => exact hgo .ignorable hok
      | accepts count => exact hgo (.accepts count) hok
    · rw [if_neg hpos] at hok
      obtain rfl := Except.ok.inj hok
      exact ⟨h, rfl⟩

/-- No answer in the pipe is without bytes. -/
def ProxiesFull (w : ServerWorld μ) : Prop :=
  ∀ p pr, w.proxies.get p = some pr → pr.data.take pr.len.toNat ≠ []

/-- What is kept between two steps. -/
structure Watch (w : ServerWorld μ) : Prop where
  exact : w.WatchesExact
  full : w.ProxiesFull

theorem Watch.mono (h : w.Watch) (hnew : w'.WatchesExact ∧ w'.proxies = w.proxies) : w'.Watch :=
  ⟨hnew.1, by unfold ProxiesFull; rw [hnew.2]; exact h.full⟩

theorem Watch.congr (h : w.Watch) (hview : ∀ i, w'.view i = w.view i)
    (hwatched : w'.watched = w.watched) (hproxies : w'.proxies = w.proxies) : w'.Watch :=
  h.mono ⟨h.exact.congr hview hwatched, hproxies⟩

theorem handleProxyResponse_watch (h : w.Watch) {p : ℕ} (hok : w.handleProxyResponse p = .ok w') :
    w'.Watch := by
  obtain ⟨pr, hload, hok⟩ := except_bind_eq_ok hok
  have hpr := Store.load_ok.mp hload
  obtain ⟨request, -, hok⟩ := except_bind_eq_ok hok
  have hdone : ∀ {w₁ : ServerWorld μ}, w₁.Watch →
      ((do return { w₁ with proxies := ← w₁.proxies.free p, handled := w₁.handled ++ [p] }) :
        Except Fault (ServerWorld μ)) = .ok w' → w'.Watch := by
    intro w₁ h₁ hok
    obtain ⟨proxies, hfree, hok⟩ := except_bind_eq_ok hok
    obtain rfl := Except.ok.inj hok
    refine ⟨h₁.exact.congr (fun _ => rfl) rfl, fun q prq hq => ?_⟩
    cases hget : w₁.proxies.get p with
    | none =>
      unfold Store.free at hfree
      rw [hget] at hfree
      exact absurd hfree (by simp)
    | some a =>
      obtain rfl := Except.ok.inj ((Store.free_ok hget).symm.trans hfree)
      rw [Store.get_set hget] at hq
      by_cases hqp : q = p
      · rw [if_pos hqp] at hq
        exact absurd hq (by simp)
      · rw [if_neg hqp] at hq
        exact h₁.full q prq hq
  cases hconn : request.conn with
  | none =>
    rw [hconn] at hok
    obtain ⟨requests, -, hok⟩ := except_bind_eq_ok hok
    have hfreed : ({ w with requests := requests } : ServerWorld μ).Watch :=
      h.congr (fun _ => rfl) rfl rfl
    exact hdone hfreed hok
  | some conn =>
    rw [hconn] at hok
    obtain ⟨w₁, hqueue, hok⟩ := except_bind_eq_ok hok
    exact hdone (h.mono (queueResponse_watches h.exact (h.full p pr hpr) hqueue)) hok

theorem handleProxyResponses_watch : ∀ (count : ℕ) {buf : List PointerByte} {w : ServerWorld μ},
    w.Watch → w.handleProxyResponses count buf = .ok w' → w'.Watch := by
  intro count
  induction count with
  | zero =>
    intro buf w h hok
    obtain rfl := Except.ok.inj hok
    exact h
  | succ count ih =>
    intro buf w h hok
    obtain ⟨p, -, hok⟩ := except_bind_eq_ok hok
    obtain ⟨w₁, hone, hok⟩ := except_bind_eq_ok hok
    exact ih (handleProxyResponse_watch h hone) hok

theorem handleProxyPipeReadable_watch (h : w.Watch) {nread : ℕ}
    (hok : w.handleProxyPipeReadable nread = .ok w') : w'.Watch := by
  unfold handleProxyPipeReadable at hok
  dsimp only at hok
  split_ifs at hok with hnone
  · obtain rfl := Except.ok.inj hok
    exact h
  · obtain ⟨w₁, hloop, hok⟩ := except_bind_eq_ok hok
    obtain rfl := Except.ok.inj hok
    refine (handleProxyResponses_watch _ ?_ hloop).congr (fun _ => rfl) rfl rfl
    exact h.congr (fun _ => rfl) rfl rfl

/-- A request is new to its connection, and nothing else of the connection changes. -/
theorem createServerRequest_watch (h : w.Watch) {conn : ℕ} {request_id method_index : UInt32}
    {r : ℕ × ServerWorld μ} (hok : w.createServerRequest conn request_id method_index = .ok r) :
    r.2.Watch := by
  obtain ⟨⟨rv, w₁⟩, htake, hok⟩ := except_bind_eq_ok hok
  have h₁ : w₁.connections = w.connections ∧ w₁.watched = w.watched ∧ w₁.proxies = w.proxies := by
    unfold takeServerRequest at htake
    cases hrecycled : w.recycledRequests with
    | none =>
      rw [hrecycled] at htake
      obtain ⟨rfl, rfl⟩ := Prod.mk.inj (Except.ok.inj htake)
      exact ⟨rfl, rfl, rfl⟩
    | some rv' =>
      rw [hrecycled] at htake
      obtain ⟨request, -, htake⟩ := except_bind_eq_ok htake
      cases hinfo : request.info with
      | alive _ => rw [hinfo] at htake; exact absurd htake (by simp)
      | defunct => rw [hinfo] at htake; exact absurd htake (by simp)
      | recycled next =>
        rw [hinfo] at htake
        obtain ⟨rfl, rfl⟩ := Prod.mk.inj (Except.ok.inj htake)
        exact ⟨rfl, rfl, rfl⟩
  obtain ⟨requests, -, hok⟩ := except_bind_eq_ok hok
  obtain ⟨c, hload, hok⟩ := except_bind_eq_ok hok
  obtain ⟨⟨requests', ends⟩, -, hok⟩ := except_bind_eq_ok hok
  obtain ⟨connections, hwrite, hok⟩ := except_bind_eq_ok hok
  obtain rfl := Except.ok.inj hok
  have hc := Store.load_ok.mp hload
  refine h.congr (fun i => (view_write (w := w₁) hc hwrite i).trans ?_) h₁.2.1 h₁.2.2
  have hview : w₁.view i = w.view i := by
    unfold view
    rw [h₁.1]
  by_cases hi : i = conn
  · rw [if_pos hi, ← hview, hi, view_eq hc]
  · rw [if_neg hi, hview]

theorem receive_watch (h : w.Watch) {conn : ℕ} {writable : Option WritevOutcome}
    (hok : w.receive codec conn writable = .ok w') : w'.Watch := by
  have hstop : w.stopReceiving.Watch := h.congr (fun _ => rfl) rfl rfl
  obtain ⟨c, hload, hok⟩ := except_bind_eq_ok hok
  have hc := Store.load_ok.mp hload
  dsimp only at hok
  split_ifs at hok with hshort hwait
  · exact hstop.mono (handleServerWritable_watches hstop.exact hok)
  · exact hstop.mono (handleServerWritable_watches hstop.exact hok)
  · cases hmethod : w.service.methods[(headerWord c.incoming 0).toNat]? with
    | none =>
      rw [hmethod] at hok
      exact hstop.mono (serverConnectionFailed_watches hstop.exact hok)
    | some method =>
      rw [hmethod] at hok
      obtain ⟨connections, hwrite, hok⟩ := except_bind_eq_ok hok
      have hread : ({ w with connections := connections } : ServerWorld μ).Watch := by
        refine h.congr (fun i => (view_write hc hwrite i).trans ?_) rfl rfl
        by_cases hi : i = conn
        · rw [if_pos hi, hi, view_eq hc]
        · rw [if_neg hi]
      cases hunpack : codec.unpack method.input
          (readBlock (c.incoming.drop 12) (headerWord c.incoming 1).toNat) with
      | none =>
        rw [hunpack] at hok
        have hread' : ({ w with connections := connections } : ServerWorld μ).stopReceiving.Watch :=
          hread.congr (fun _ => rfl) rfl rfl
        exact hread'.mono (serverConnectionFailed_watches hread'.exact hok)
      | some message =>
        rw [hunpack] at hok
        obtain ⟨⟨rv, w₁⟩, hcreate, hok⟩ := except_bind_eq_ok hok
        obtain rfl := Except.ok.inj hok
        exact (createServerRequest_watch hread hcreate).congr (fun _ => rfl) rfl rfl

theorem handleServerConnectionEvents_watch (h : w.Watch) {conn : ℕ} {readable : Option ReadOutcome}
    {writable : Option WritevOutcome}
    (hok : w.handleServerConnectionEvents conn readable writable = .ok w') : w'.Watch := by
  unfold handleServerConnectionEvents at hok
  split at hok
  · exact h.mono (handleServerWritable_watches h.exact hok)
  · exact h.mono (handleServerWritable_watches h.exact hok)
  · exact h.mono (serverConnectionFailed_watches h.exact hok)
  · obtain ⟨c, -, hok⟩ := except_bind_eq_ok hok
    split_ifs at hok
    · exact h.mono (serverConnectionFailed_watches h.exact hok)
    · exact h.mono (serverConnectionClose_watches h.exact hok)
  · obtain ⟨connections, hmodify, hok⟩ := except_bind_eq_ok hok
    obtain rfl := Except.ok.inj hok
    obtain ⟨c, hload, hwrite⟩ := except_bind_eq_ok hmodify
    have hc := Store.load_ok.mp hload
    refine h.congr (fun i => (view_write hc hwrite i).trans ?_) rfl rfl
    by_cases hi : i = conn
    · rw [if_pos hi, hi, view_eq hc]
    · rw [if_neg hi]

/-- A connection that is new is registered as readable, and has no bytes to send. -/
theorem handleServerListenerReadable_watch (h : w.Watch) {new_fd : Option ℕ}
    (hfresh : ∀ fd, new_fd = some fd → w.watched fd = none)
    (hok : w.handleServerListenerReadable new_fd = .ok w') : w'.Watch := by
  unfold handleServerListenerReadable at hok
  cases new_fd with
  | none =>
    obtain rfl := Except.ok.inj hok
    exact h
  | some fd =>
    obtain ⟨⟨connections, ends⟩, happend, hok⟩ := except_bind_eq_ok hok
    obtain rfl := Except.ok.inj hok
    have hview : ∀ i, (connections.get i).map (fun c => (c.fd, c.outgoing)) =
        if i = w.connections.cells.length then some (fd, []) else w.view i := by
      intro i
      rw [view_relink (listAppend_sameBare happend) i, Store.get_alloc]
      unfold view
      change (if i = w.connections.cells.length then _ else _ : Option ServerConnection).map _ = _
      by_cases hi : i = w.connections.cells.length
      · rw [if_pos hi, if_pos hi]
        rfl
      · rw [if_neg hi, if_neg hi]
    refine ⟨watchesExact_iff.mpr fun conn f outgoing hv => ?_, h.full⟩
    have hv' := (hview conn).symm.trans hv
    change (if f = fd then _ else w.watched f) = _
    by_cases hconn : conn = w.connections.cells.length
    · rw [if_pos hconn] at hv'
      obtain ⟨rfl, rfl⟩ := Prod.mk.inj (Option.some.inj hv')
      rw [if_pos rfl, hconn]
      rfl
    · rw [if_neg hconn] at hv'
      have hreg := watchesExact_iff.mp h.exact conn f outgoing hv'
      rw [if_neg, hreg]
      rintro rfl
      rw [hfresh f rfl] at hreg
      exact absurd hreg (by simp)

theorem proxyResponse_watch (h : w.Watch) {request : ℕ} {data : List UInt8} {write : ProxyWrite}
    (hfull : write = .whole → data.take (UInt32.ofNat data.length).toNat ≠ [])
    (hok : w.proxyResponse request data write = .ok w') : w'.Watch := by
  have hget := Store.get_alloc w.proxies ⟨request, UInt32.ofNat data.length, data⟩
  have hlost : ∀ {proxies : Store ProxyResponse},
      (w.proxies.alloc ⟨request, UInt32.ofNat data.length, data⟩).2.free w.proxies.cells.length =
        .ok proxies → ∀ p pr, proxies.get p = some pr → pr.data.take pr.len.toNat ≠ [] := by
    intro proxies hfree p pr hp
    have hnew : (w.proxies.alloc ⟨request, UInt32.ofNat data.length, data⟩).2.get
        w.proxies.cells.length = some ⟨request, UInt32.ofNat data.length, data⟩ := by
      rw [hget]
      exact if_pos rfl
    obtain rfl := Except.ok.inj ((Store.free_ok hnew).symm.trans hfree)
    rw [Store.get_set hnew, hget] at hp
    by_cases hpn : p = w.proxies.cells.length
    · rw [if_pos hpn] at hp
      exact absurd hp (by simp)
    · rw [if_neg hpn] at hp
      exact h.full p pr ((if_neg hpn).symm.trans hp)
  unfold proxyResponse at hok
  cases write with
  | whole =>
    obtain rfl := Except.ok.inj hok
    refine ⟨h.exact.congr (fun _ => rfl) rfl, fun p pr hp => ?_⟩
    have hp' := (hget p).symm.trans hp
    by_cases hpn : p = w.proxies.cells.length
    · obtain rfl := Option.some.inj ((if_pos hpn).symm.trans hp')
      exact hfull rfl
    · exact h.full p pr ((if_neg hpn).symm.trans hp')
  | partially rv =>
    obtain ⟨proxies, hfree, hok⟩ := except_bind_eq_ok hok
    obtain rfl := Except.ok.inj hok
    exact ⟨h.exact.congr (fun _ => rfl) rfl, hlost hfree⟩
  | fails =>
    obtain ⟨proxies, hfree, hok⟩ := except_bind_eq_ok hok
    obtain rfl := Except.ok.inj hok
    exact ⟨h.exact.congr (fun _ => rfl) rfl, hlost hfree⟩

theorem responseBytes_ne_nil (codec : Codec μ) (r : ServerRequest) (message : Option μ) :
    responseBytes codec r message ≠ [] := by
  intro hnil
  have hlength := congrArg List.length hnil
  cases message with
  | none =>
    unfold responseBytes at hlength
    rw [length_headerBytes] at hlength
    exact absurd hlength (by simp)
  | some message =>
    unfold responseBytes at hlength
    rw [List.length_append, length_headerBytes] at hlength
    exact absurd hlength (by simp)

theorem take_len_ne_nil {data : List UInt8} (hlen : UInt32.ofNat data.length ≠ 0) :
    data.take (UInt32.ofNat data.length).toNat ≠ [] := by
  intro hnil
  obtain hzero | hnone := List.take_eq_nil_iff.mp hnil
  · exact hlen (UInt32.toNat_inj.mp hzero)
  · rw [hnone] at hlen
    exact hlen rfl

theorem step_watch (h : w.Watch) {label : ServerLabel μ} (hproper : w.Proper label)
    (hfits : w.LengthFits codec label) (hok : w.step codec label = .ok w') : w'.Watch := by
  unfold step at hok
  cases label with
  | accept new_fd =>
    dsimp only at hok
    split_ifs at hok
    · refine handleServerListenerReadable_watch h (fun fd hfd => ?_) hok
      subst hfd
      exact hproper
    · obtain rfl := Except.ok.inj hok
      exact h
  | events conn readable writable =>
    dsimp only at hok
    split_ifs at hok
    · exact handleServerConnectionEvents_watch h hok
    · obtain rfl := Except.ok.inj hok
      exact h
  | receive =>
    dsimp only at hok
    split at hok
    · obtain rfl := Except.ok.inj hok
      exact h
    · exact receive_watch h hok
  | answer request message inRpcThread write =>
    dsimp only at hok
    split_ifs at hok
    · have h₀ : ({ w with owed := w.owed.erase request } : ServerWorld μ).Watch :=
        h.congr (fun _ => rfl) rfl rfl
      obtain ⟨r, hload, hok⟩ := except_bind_eq_ok hok
      have hr := Store.load_ok.mp hload
      dsimp only at hok
      split_ifs at hok with hproxy
      · refine proxyResponse_watch h₀ (fun hwhole => take_len_ne_nil ?_) hok
        obtain ⟨hthreading, hthread⟩ := hproxy
        subst hwhole hthread
        exact hfits hthreading r hr
      · cases hconn : r.conn with
        | none =>
          rw [hconn] at hok
          obtain ⟨requests, -, hok⟩ := except_bind_eq_ok hok
          obtain ⟨hconns, hwatched, hproxies⟩ := freeServerRequest_frame hok
          refine h₀.congr (fun i => ?_) hwatched hproxies
          unfold view
          rw [hconns]
        | some conn =>
          rw [hconn] at hok
          exact h₀.mono (queueResponse_watches h₀.exact (responseBytes_ne_nil codec r message) hok)
    · obtain rfl := Except.ok.inj hok
      exact h
  | proxyReadable nread =>
    dsimp only at hok
    split_ifs at hok
    · exact handleProxyPipeReadable_watch h hok
    · obtain rfl := Except.ok.inj hok
      exact h
  | configureThreading =>
    dsimp only at hok
    split_ifs at hok
    · obtain rfl := Except.ok.inj hok
      exact h.congr (fun _ => rfl) rfl rfl
    · obtain rfl := Except.ok.inj hok
      exact h
  | other call =>
    dsimp only at hok
    split_ifs at hok with hserves
    · obtain rfl := Except.ok.inj hok
      exact h
    · obtain rfl := Except.ok.inj hok
      refine ⟨fun conn c hc => ?_, h.full⟩
      have hreg := h.exact conn c hc
      -- the call is about another file descriptor
      have hfd : ∀ fd, call.fd? = some fd → c.fd ≠ fd := by
        rintro fd hcall rfl
        refine hserves ?_
        rw [hcall, Option.any_some]
        unfold serves
        rw [List.any_eq_true]
        exact ⟨some c, List.mem_of_getElem? (Option.join_eq_some_iff.mp hc), by simp⟩
      cases call with
      | watchFd fd events callback => exact (if_neg (hfd fd rfl)).trans hreg
      | fdClosed fd => exact (if_neg (hfd fd rfl)).trans hreg
      | clearChanges => exact hreg

/-- Every connection of a server is registered for what it needs, whatever happens. -/
theorem runs_watchesExact {service : ServiceDescriptor} {watched : Registered}
    (h : Runs (step codec) (fun w label => w.Proper label ∧ w.LengthFits codec label)
      (serverNewFromFd service watched) w) : w.Watch := by
  have hnew : (serverNewFromFd service watched : ServerWorld μ).Watch :=
    ⟨fun _ _ hc => absurd hc (by simp [serverNewFromFd, Store.get_empty]),
      fun _ _ hp => absurd hp (by simp [serverNewFromFd, Store.get_empty])⟩
  exact h.invariant (I := Watch) hnew fun t label u ht hallowed hok =>
    step_watch ht hallowed.1 hallowed.2 hok

end ServerWorld

/-! ## Servers and clients -/

/-- Between any two events the connections of a server and a client that is connected are registered for
what they need. -/
def AlwaysWatched : Prop :=
  (∀ (service : ServiceDescriptor) (watched : Registered) (w : ServerWorld μ),
    Runs (ServerWorld.step codec) ServerWorld.Proper (serverNewFromFd service watched) w →
      w.WatchesExact) ∧
  ∀ (self : ℕ) (watched : Registered) (type : AddressType) (name : List UInt8)
    (descriptor : ServiceDescriptor) (w : ClientWorld μ), Unregistered self watched →
    Runs (ClientWorld.step codec) ClientWorld.Proper
      (rpcClientNew self type name descriptor watched) w → w.WatchesExact

/-- A client is registered for what it needs just if there was a request on its connection. -/
theorem ClientWorld.Inv.watchesExact_iff {w : ClientWorld μ} {reclosed : List ℕ}
    (h : w.Inv reclosed) : w.WatchesExact ↔ w.client.state = .connected → w.sent ≠ [] := by
  have hnot : ∀ {s : ClientState}, w.client.state = s → s ≠ .connected →
      (w.WatchesExact ↔ w.client.state = .connected → w.sent ≠ []) := by
    intro s hs hne
    subst hs
    exact ⟨fun _ hstate => absurd hstate hne, fun _ hstate => absurd hstate hne⟩
  cases h with
  | init idle state info waits quiet holds calm => exact hnot state (by simp)
  | nameLookup info' state info pending waits quiet holds calm => exact hnot state (by simp)
  | connecting info' fd state info waits quiet holds watched calm => exact hnot state (by simp)
  | connected c array free fd connected =>
    have hwatched := connected.watching.watched
    have hsocket := connected.watching.socket
    constructor
    · intro hexact hstate hsent
      obtain ⟨fd', hfd', hreg⟩ := hexact hstate
      obtain rfl : fd = fd' := Option.some.inj (hsocket.symm.trans hfd')
      rw [hwatched, if_pos hsent] at hreg
      exact absurd hreg (by simp)
    · intro hsent hstate
      exact ⟨fd, hsocket, by rw [hwatched, if_neg (hsent hstate)]⟩
  | failedWaiting _ _ _ state _ _ _ _ _ _ => exact hnot state (by simp)
  | failed _ _ state _ _ _ _ _ _ => exact hnot state (by simp)
  | destroyed state _ _ _ _ _ _ _ _ => exact hnot state (by simp)

/-- A server whose answers through the pipe have a length that the pipe can tell keeps its connections
registered for what they need; a client does so from the first request of a connection on, and not
before. -/
theorem watchesExact_when :
    (∀ (service : ServiceDescriptor) (watched : Registered) (w : ServerWorld μ),
      Runs (ServerWorld.step codec) (fun w label => w.Proper label ∧ w.LengthFits codec label)
        (serverNewFromFd service watched) w → w.WatchesExact) ∧
    ∀ (self : ℕ) (watched : Registered) (type : AddressType) (name : List UInt8)
      (descriptor : ServiceDescriptor) (w : ClientWorld μ), Unregistered self watched →
      Runs (ClientWorld.step codec) ClientWorld.Proper
        (rpcClientNew self type name descriptor watched) w →
      (w.WatchesExact ↔ w.client.state = .connected → w.sent ≠ []) := by
  constructor
  · intro service watched w hruns
    exact (ServerWorld.runs_watchesExact hruns).exact
  · intro self watched type name descriptor w hnew hruns
    obtain ⟨reclosed, hinv⟩ := reachable_inv codec hnew hruns
    exact hinv.watchesExact_iff

/-- A server with one connection, and a client that has made a request. -/
theorem watchesExact_when_request :
    (∃ w, ServerWorld.step bytesCodec (serverNewFromFd ⟨[⟨0, 0⟩]⟩ fun _ => none)
      (.accept (some 5)) = .ok w ∧ w.WatchesExact) ∧
    ∃ w₁ w₂, ClientWorld.step bytesCodec localClient (.idle .later (.connected 5)) = .ok w₁ ∧
      ClientWorld.step bytesCodec w₁ (.invoke (requestThen .done)) = .ok w₂ ∧ w₂.WatchesExact := by
  constructor
  · exact ⟨_, rfl, (watchesExact_when bytesCodec).1 ⟨[⟨0, 0⟩]⟩ (fun _ => none) _
      (.tail (.accept (some 5)) (.refl _) ⟨rfl, trivial⟩ rfl)⟩
  · refine ⟨_, _, rfl, rfl, ((watchesExact_when bytesCodec).2 7 (fun _ => none) .local [] ⟨[⟨0, 0⟩]⟩ _
      (fun _ _ _ h => absurd h (by simp)) (.tail (.invoke (requestThen .done))
        (.tail (.idle .later (.connected 5)) (.refl localClient) (fun _ _ => rfl) rfl)
        ⟨Nat.zero_lt_one, fun _ => trivial, trivial⟩ rfl)).mpr fun _ => ?_⟩
    exact List.cons_ne_nil (0, 1) []

/-- A client that has connected and made no request. -/
theorem watchesExact_fails : ¬ AlwaysWatched bytesCodec := by
  intro h
  have hexact : ClientWorld.WatchesExact _ := h.2 7 (fun _ => none) .local [] ⟨[⟨0, 0⟩]⟩ _
    (fun _ _ _ h => absurd h (by simp))
    (.tail (.idle .later (.connected 5)) (.refl localClient) (fun _ _ => rfl) rfl)
  obtain ⟨fd, -, hreg⟩ := hexact rfl
  have hnone : (none : Option (UInt32 × Callback)) = some _ := hreg
  exact absurd hnone (by simp)

end ProtobufC
