import ProtobufC.Rpc.RpcSteps

/-! # Every call gets its own answer

A run of the system is a run of `Exchange.Step`: the calls that a client makes over its connection are
given to the service in the order in which they are made, and every closure is called once, with the
answer to its own call.
-/

namespace ProtobufC
open Library
set_option autoImplicit false

namespace RpcSystem
variable {μ : Type} {codec : Codec μ} {s s' : RpcSystem μ} {e : Exchange μ} {es : List (RpcEvent μ)}

/-! ## Runs -/

theorem Fresh.carries_client (h : s.Fresh codec) : s.client.Carries [] := by
  obtain ⟨self, type, name, descriptor, watched, hnew, hruns⟩ := h.client
  have hinv : ∃ reclosed, s.client.Inv reclosed := by
    refine hruns.invariant (I := fun w => ∃ reclosed, w.Inv reclosed)
      ⟨[], rpcClientNew_inv hnew type name descriptor⟩ fun t label u ht hallowed hok => ?_
    obtain ⟨reclosed, ht⟩ := ht
    have hends : Ends (fun _ => True) _ _ :=
      step_spec codec ht hallowed.1 hallowed.2 fun _ => trivial
    exact ⟨_, (hends.post hok).1⟩
  obtain ⟨reclosed, hinv⟩ := hinv
  refine ⟨⟨fun _ hcall => absurd hcall List.not_mem_nil, List.nodup_nil⟩, reclosed, ?_⟩
  have hstate := h.connected
  cases hinv with
  | connected c array free fd connected => exact ⟨c, array, free, fd, connected⟩
  | init _ state | nameLookup _ state | connecting _ _ state | failedWaiting _ _ _ state
  | failed _ _ state | destroyed state => exact absurd (state.symm.trans hstate) (by simp)

theorem Fresh.carries_server (h : s.Fresh codec) : s.server.Carries s.conn [] := by
  obtain ⟨service, watched, hruns⟩ := h.server
  obtain ⟨transit, hinv⟩ := ServerWorld.runs_inv hruns
  obtain ⟨c, hc, -, -, hfirst⟩ := h.connection
  obtain rfl : transit = [] := by
    have hbytes := hinv.inPipe.bytes
    rw [h.drained.1, h.drained.2] at hbytes
    cases transit with
    | nil => rfl
    | cons x transit =>
      have hlength := congrArg List.length hbytes
      simp [addresses, ServerWorld.length_pointerBytes, sizeofPointer] at hlength
      omega
  obtain ⟨pending, recycled, hlaid⟩ := hinv.core.laid
  have hnone : pending s.conn = [] :=
    List.head?_eq_none_iff.mp ((hlaid.lists s.conn c hc).first.symm.trans hfirst)
  refine ⟨hinv, h.direct, ⟨c, hc⟩, fun r => ?_, fun _ hg => absurd hg List.not_mem_nil,
    fun writable hreceiving => absurd hreceiving (h.idle writable)⟩
  rw [← hlaid.mem_pending, hnone]
  exact Iff.rfl

/-- At the start there are no calls. -/
theorem Fresh.represents (h : s.Fresh codec) : s.Represents codec .empty := by
  have hclient := h.carries_client
  have houtgoing : s.client.client.outgoing = [] := by
    obtain ⟨reclosed, c, array, free, fd, hconn⟩ := hclient.connected
    exact hconn.watching.quiet h.unsent
  obtain ⟨c, hc, hincoming, hleaving, -⟩ := h.connection
  refine ⟨hclient, h.carries_server, List.nodup_nil, h.service, h.few,
    fun _ hcall => absurd hcall List.not_mem_nil, ?_, ?_, fun _ hcall => absurd hcall List.not_mem_nil,
    fun _ ha => absurd ha List.not_mem_nil⟩
  · rw [ServerWorld.buffers_of_get hc, hincoming, h.nothing.1, houtgoing]
    rfl
  · rw [ServerWorld.buffers_of_get hc, hleaving, h.nothing.2, h.unreceived]
    rfl

/-- The calls go on in a run as the events say. -/
theorem Fresh.simulated (h : s.Fresh codec) (hruns : Runs (step codec) (Allowed codec) s s') :
    ∃ es e, Trace (Exchange.Step codec) .empty es e ∧ s'.Represents codec e ∧ Shows s es s' := by
  refine hruns.simulated Shows.refl
    (fun s es s' es' s'' h h' => h.trans h') (fun t label t' e ht hallowed hok => ?_) h.represents
  obtain ⟨u, es, e', hstep, htrace, hrepresents, hshows⟩ := ht.step hallowed
  obtain rfl := Except.ok.inj (hstep.symm.trans hok)
  exact ⟨es, e', htrace, hrepresents, hshows⟩

/-! ## What the calls of a run come to -/

/-- The serials of the calls are different. -/
theorem Shows.nodup_serials (h : Shows s es s') :
    ((es.filterMap RpcEvent.asked?).map RemoteCall.serial).Nodup := by
  rw [h.serials]
  exact List.nodup_range'

theorem Shows.asked_serials (h : Shows s es s') (hnone : s.asked = []) :
    s'.asked.map Prod.snd = (es.filterMap RpcEvent.asked?).map RemoteCall.serial := by
  rw [h.asked, hnone, List.nil_append, List.map_map]
  rfl

theorem Shows.called_serials (h : Shows s es s') :
    (s'.client.called.drop s.client.called.length).map Prod.fst =
      (es.filterMap RpcEvent.returned?).map Prod.fst := by
  rw [h.called, List.drop_left, List.map_map]
  rfl

/-- No bytes of the connection are left at either end or under way, and the service owes no answer. -/
structure Drained (s : RpcSystem μ) : Prop where
  client : s.client.client.incoming = [] ∧ s.client.client.outgoing = []
  server : s.server.buffers s.conn = ([], [])
  wires : s.toServer = [] ∧ s.toClient = []
  owed : ∀ request ∈ s.server.owed, s.server.connectionOf request ≠ some s.conn

theorem request_ne_nil (codec : Codec μ) (call : RemoteCall μ) : call.request codec ≠ [] := by
  intro hnil
  have hlength := call.length_request codec
  rw [hnil, List.length_nil] at hlength
  omega

theorem response_ne_nil (codec : Codec μ) (call : RemoteCall μ) (answer : Option μ) :
    call.response codec answer ≠ [] := by
  intro hnil
  have hlength := call.length_response codec answer
  rw [hnil, List.length_nil] at hlength
  omega

/-- There are no calls exactly when the connection is drained. -/
theorem Represents.drained_iff (h : s.Represents codec e) : s.Drained ↔ e.calls = [] := by
  have hrequests := h.requests
  have hresponses := h.responses
  unfold Exchange.calls
  constructor
  · rintro ⟨⟨hin, hout⟩, hbuffers, ⟨hto, hfrom⟩, howed⟩
    have hasked : e.asked = [] := by
      rw [hbuffers, hto, hout] at hrequests
      refine List.eq_nil_iff_forall_not_mem.mpr fun call hcall => request_ne_nil codec call ?_
      exact List.flatMap_eq_nil_iff.mp hrequests.symm call hcall
    have hanswered : e.answered = [] := by
      rw [hbuffers, hfrom, hin] at hresponses
      refine List.eq_nil_iff_forall_not_mem.mpr fun a ha => response_ne_nil codec a.1 a.2 ?_
      exact List.flatMap_eq_nil_iff.mp hresponses.symm a ha
    have hgiven : e.given = [] := by
      refine List.eq_nil_iff_forall_not_mem.mpr fun g hg => ?_
      have hplace := (h.server.pending g.1).mpr (List.mem_map_of_mem hg)
      have hawaited := h.server.inv.core.serving.owes trivial g.1 (.inr ⟨s.conn, hplace⟩)
      unfold ServerWorld.awaited at hawaited
      exact howed g.1 (by simpa using hawaited) (ServerWorld.connectionOf_pending hplace)
    rw [hasked, hgiven, hanswered]
    rfl
  · intro hnone
    obtain ⟨hfront, hanswered⟩ := List.append_eq_nil_iff.mp hnone
    obtain ⟨hasked, hgiven⟩ := List.append_eq_nil_iff.mp hfront
    rw [hasked] at hrequests
    rw [List.map_eq_nil_iff.mp hanswered] at hresponses
    obtain ⟨hrest, hout⟩ := List.append_eq_nil_iff.mp hrequests
    obtain ⟨hreceived, hto⟩ := List.append_eq_nil_iff.mp hrest
    obtain ⟨hrest, hqueued⟩ := List.append_eq_nil_iff.mp hresponses
    obtain ⟨hin, hfrom⟩ := List.append_eq_nil_iff.mp hrest
    refine ⟨⟨hin, hout⟩, Prod.ext hreceived hqueued, ⟨hto, hfrom⟩, fun request howed hconn => ?_⟩
    obtain ⟨call, hcall⟩ := h.given_of_owed howed hconn
    rw [List.map_eq_nil_iff.mp hgiven] at hcall
    exact absurd hcall List.not_mem_nil

/-- All calls that were asked have returned exactly when the connection is drained. -/
theorem Fresh.complete_iff (h : s.Fresh codec) (hrepresents : s'.Represents codec e)
    (hperm : (e.calls.map RemoteCall.serial ++ (es.filterMap RpcEvent.returned?).map Prod.fst).Perm
      ((es.filterMap RpcEvent.asked?).map RemoteCall.serial)) (hshows : Shows s es s') :
    ((s'.client.called.drop s.client.called.length).map Prod.fst).Perm (s'.asked.map Prod.snd) ↔
      s'.Drained := by
  rw [hrepresents.drained_iff, hshows.asked_serials h.unseen.1, hshows.called_serials]
  constructor
  · intro hall
    have hlength := (hperm.trans hall.symm).length_eq
    rw [List.length_append, List.length_map] at hlength
    exact List.length_eq_zero_iff.mp (by omega)
  · intro hnone
    rw [hnone] at hperm
    exact hperm

end RpcSystem

/-! ## A system to run -/

/-- A client and a server of a service with one method. -/
def localSystem {μ : Type} (codec : Codec μ) : RpcSystem μ :=
  let client := rpcClientNew 7 .local [] ⟨[⟨0, 0⟩]⟩ fun _ => none
  let server := serverNewFromFd ⟨[⟨0, 0⟩]⟩ fun _ => none
  { client := (client.step codec (.idle .later (.connected 5))).toOption.getD client
    server := (server.step codec (.accept (some 3))).toOption.getD server
    conn := 0
    toServer := []
    toClient := []
    asked := []
    given := []
    answered := [] }

theorem localSystem_fresh {μ : Type} (codec : Codec μ) : (localSystem codec).Fresh codec where
  client := ⟨7, .local, [], ⟨[⟨0, 0⟩]⟩, fun _ => none, fun _ _ _ h => absurd h (by simp),
    .tail (.idle .later (.connected 5)) (.refl _) ⟨fun _ _ => rfl, trivial⟩ rfl⟩
  connected := rfl
  unsent := rfl
  unreceived := rfl
  server := ⟨⟨[⟨0, 0⟩]⟩, fun _ => none, .tail (.accept (some 3)) (.refl _) trivial rfl⟩
  direct := rfl
  idle := fun _ h =>
    absurd (h.symm.trans (show (localSystem codec).server.receiving = none from rfl)) (by simp)
  connection := ⟨⟨3, [], [], none, none, 0, none, none⟩, rfl, rfl, rfl, rfl⟩
  drained := ⟨rfl, rfl⟩
  service := rfl
  few := show 1 ≤ 2 ^ 32 by norm_num
  nothing := ⟨rfl, rfl⟩
  unseen := ⟨rfl, rfl, rfl⟩


/-- A closure that makes no invocations may be called. -/
theorem allowed_respond {μ : Type} {codec : Codec μ} {s : RpcSystem μ} {closure : Passed μ} {message : μ}
    (h : s.client.nextDelivery codec = some (closure, message))
    (hdone : closure.closure (some message) = .done) : s.Allowed codec .respond := by
  refine ⟨fun c array i cl closure' message' hd => ?_, fun x hx => ?_⟩
  · obtain ⟨rfl, rfl⟩ := Prod.mk.inj (Option.some.inj (h.symm.trans hd.nextDelivery))
    rw [hdone]
    exact Nat.zero_le _
  · have hruns : s.client.runs codec .respond = .done := by
      dsimp only [ClientWorld.runs]
      rw [h]
      cases s.client.responding with
      | true => exact hdone
      | false => rfl
    rw [hruns] at hx
    exact absurd hx List.not_mem_nil

/-- A request of one byte, and the answer of one byte. -/
theorem localSystem_run : ∃ s,
    Runs (RpcSystem.step bytesCodec) (RpcSystem.Allowed bytesCodec) (localSystem bytesCodec) s ∧
      s.client.called = [(0, some [8])] ∧ s.asked = [((0, [7]), 0)] ∧ s.given = [(0, [7])] := by
  have hwrites : ∀ n, some (WritevOutcome.accepts n) ≠ some .fails := by simp
  have hnone : (none : Option WritevOutcome) ≠ some .fails := by simp
  refine ⟨_, .tail .respond
    (.tail (.clientEvents none (some 17)) (.tail (.serverEvents none (some (.accepts 17)))
    (.tail (.answer 0 (some [8]) true .whole) (.tail .receive (.tail .receive
    (.tail (.serverEvents (some 13) none) (.tail (.clientEvents (some (.accepts 13)) none)
    (.tail (.invoke (.invoke 0 [7] (fun _ => .done) 0 .done)) (.refl (localSystem bytesCodec)) ?_ rfl)
      (hwrites 13) rfl) hnone rfl) trivial rfl) trivial rfl) ?_ rfl) (hwrites 17) rfl) hnone rfl) ?_ rfl,
    rfl, rfl, rfl⟩
  · refine ⟨⟨Nat.zero_lt_one, fun _ => trivial, trivial⟩, fun c array _ hinfo hget => ?_, fun x hx => ?_⟩
    · cases hinfo
      cases hget
      exact .inl (by decide)
    · obtain rfl := List.mem_singleton.mp (show x ∈ [((0, [7]) : ℕ × List UInt8)] from hx)
      exact ⟨by decide, fun _ _ => ⟨[7], rfl⟩⟩
  · exact fun _ _ _ _ => ⟨by decide, [8], rfl⟩
  · exact allowed_respond
      (show _ = some ((⟨0, fun _ => .done⟩ : Passed (List UInt8)), ([8] : List UInt8)) from rfl) rfl

/-! ## Runs of the system -/

section
variable {μ : Type} {codec : Codec μ} {s s' : RpcSystem μ}

/-- A client and its server carry out remote calls: the events of a run are those of a trace of
`Exchange.Step`, the bytes that are buffered and under way are the requests and the responses of the calls
that have not returned, and no step can fail. -/
theorem rpcSystem_refines (h : s.Fresh codec)
    (hruns : Runs (RpcSystem.step codec) (RpcSystem.Allowed codec) s s') :
    (∃ es e, Trace (Exchange.Step codec) .empty es e ∧ s'.Represents codec e ∧ s.Shows es s') ∧
      ∀ label, s'.Allowed codec label → ∃ s'', s'.step codec label = .ok s'' := by
  obtain ⟨es, e, htrace, hrepresents, hshows⟩ := h.simulated hruns
  refine ⟨⟨es, e, htrace, hrepresents, hshows⟩, fun label hallowed => ?_⟩
  obtain ⟨s'', -, -, hok, -⟩ := hrepresents.step hallowed
  exact ⟨s'', hok⟩

theorem rpcSystem_refines_local : ∃ s,
    Runs (RpcSystem.step bytesCodec) (RpcSystem.Allowed bytesCodec) (localSystem bytesCodec) s ∧
      s.client.called = [(0, some [8])] ∧
      (∃ es e, Trace (Exchange.Step bytesCodec) .empty es e ∧ s.Represents bytesCodec e ∧
        (localSystem bytesCodec).Shows es s) ∧
      ∀ label, s.Allowed bytesCodec label → ∃ s', s.step bytesCodec label = .ok s' := by
  obtain ⟨s, hruns, hcalled, -⟩ := localSystem_run
  exact ⟨s, hruns, hcalled, rpcSystem_refines (localSystem_fresh bytesCodec) hruns⟩

/-- The service is given the messages in the order of the calls; a closure is called at most once, and gets
what the answer to its own call is read as. -/
theorem calls_exact (h : s.Fresh codec)
    (hruns : Runs (RpcSystem.step codec) (RpcSystem.Allowed codec) s s') :
    ∃ es, s.Shows es s' ∧ Exchange.ReturnedOwn codec es ∧
      ((es.filterMap RpcEvent.returned?).map Prod.fst).Nodup ∧
      ∃ before, before <+: es.filterMap RpcEvent.asked? ∧
        List.Forall₂ (fun call g => codec.unpack call.method.input (codec.pack call.input) = some g.2)
          before (es.filterMap RpcEvent.given?) := by
  obtain ⟨es, e, htrace, -, hshows⟩ := h.simulated hruns
  have hperm := Exchange.perm_asked htrace
  have hnodup := hperm.nodup_iff.mpr hshows.nodup_serials
  obtain ⟨before, hasked, hgiven⟩ := Exchange.given_in_order htrace
  exact ⟨es, hshows, (Exchange.traced_of_trace htrace).returned, (List.nodup_append.mp hnodup).2.1,
    before, ⟨e.asked, hasked.symm⟩, hgiven⟩

theorem calls_exact_local : ∃ s es,
    Runs (RpcSystem.step bytesCodec) (RpcSystem.Allowed bytesCodec) (localSystem bytesCodec) s ∧
      s.client.called = [(0, some [8])] ∧ (localSystem bytesCodec).Shows es s ∧
      Exchange.ReturnedOwn bytesCodec es := by
  obtain ⟨s, hruns, hcalled, -⟩ := localSystem_run
  obtain ⟨es, hshows, hreturned, -⟩ := calls_exact (localSystem_fresh bytesCodec) hruns
  exact ⟨s, es, hruns, hcalled, hshows, hreturned⟩

/-- The closures of all calls have been called exactly when the connection is drained. -/
theorem calls_complete_iff (h : s.Fresh codec)
    (hruns : Runs (RpcSystem.step codec) (RpcSystem.Allowed codec) s s') :
    ((s'.client.called.drop s.client.called.length).map Prod.fst).Perm (s'.asked.map Prod.snd) ↔
      s'.Drained := by
  obtain ⟨es, e, htrace, hrepresents, hshows⟩ := h.simulated hruns
  exact h.complete_iff hrepresents (Exchange.perm_asked htrace) hshows

theorem calls_complete_iff_local : ∃ s,
    Runs (RpcSystem.step bytesCodec) (RpcSystem.Allowed bytesCodec) (localSystem bytesCodec) s ∧
      s.client.called = [(0, some [8])] ∧ s.Drained := by
  obtain ⟨s, hruns, hcalled, hasked, -⟩ := localSystem_run
  refine ⟨s, hruns, hcalled, (calls_complete_iff (localSystem_fresh bytesCodec) hruns).mp ?_⟩
  rw [hcalled, hasked]
  exact .refl _

end

end ProtobufC
