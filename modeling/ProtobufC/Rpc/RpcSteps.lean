import ProtobufC.Rpc.Framing
import ProtobufC.Rpc.RpcSystem

/-! # Steps of a client and its server

The bytes on their way to the server are the requests of the calls that were asked, and the bytes on
their way to the client are the responses to the calls that were answered; between the two, the service
has the calls that it was given.  So every step of the system is a trace of `Exchange.Step`.
-/

namespace ProtobufC
open Library
set_option autoImplicit false

namespace RpcSystem
variable {μ : Type} {codec : Codec μ} {s s' s'' : RpcSystem μ} {e e' : Exchange μ}
  {es es' : List (RpcEvent μ)}

/-! ## What a system stands for -/

/-- The calls of the exchange are where the system has them. -/
structure Represents (codec : Codec μ) (s : RpcSystem μ) (e : Exchange μ) : Prop where
  client : s.client.Carries e.calls
  server : s.server.Carries s.conn e.given
  numbered : (e.given.map Prod.fst).Nodup
  service : s.client.client.service = s.server.service
  few : s.server.service.nMethods ≤ 2 ^ 32
  methods : ∀ call ∈ e.calls, s.server.service.methods[call.methodIndex]? = some call.method
  requests : (s.server.buffers s.conn).1 ++ s.toServer ++ s.client.client.outgoing =
    e.asked.flatMap (RemoteCall.request codec)
  responses : s.client.client.incoming ++ s.toClient ++ (s.server.buffers s.conn).2 =
    e.answered.flatMap fun a => a.1.response codec a.2
  sendable : ∀ call ∈ e.asked, Sendable codec s.server.service (call.methodIndex, call.input)
  answerable : ∀ a ∈ e.answered, Answerable codec a.1.method a.2

/-- What of the system the events are. -/
structure Shows (s : RpcSystem μ) (es : List (RpcEvent μ)) (s' : RpcSystem μ) : Prop where
  conn : s'.conn = s.conn
  service : s'.client.client.service = s.client.client.service
  asked : s'.asked = s.asked ++
    (es.filterMap RpcEvent.asked?).map fun call => ((call.methodIndex, call.input), call.serial)
  methods : ∀ call ∈ es.filterMap RpcEvent.asked?,
    s.client.client.service.methods[call.methodIndex]? = some call.method
  sent : s'.client.sent = s.client.sent ++
    (es.filterMap RpcEvent.asked?).map fun call => (call.serial, call.requestId)
  invoked : s'.client.invoked = s.client.invoked + (es.filterMap RpcEvent.asked?).length
  serials : (es.filterMap RpcEvent.asked?).map RemoteCall.serial =
    List.range' s.client.invoked (es.filterMap RpcEvent.asked?).length
  given : s'.given = s.given ++ es.filterMap RpcEvent.given?
  answered : s'.answered = s.answered ++ es.filterMap RpcEvent.answered?
  called : s'.client.called = s.client.called ++
    (es.filterMap RpcEvent.returned?).map fun r => (r.1, some r.2)

theorem Shows.refl (s : RpcSystem μ) : Shows s [] s :=
  ⟨rfl, rfl, (List.append_nil _).symm, fun _ hcall => absurd hcall List.not_mem_nil,
    (List.append_nil _).symm, rfl, rfl, (List.append_nil _).symm, (List.append_nil _).symm,
    (List.append_nil _).symm⟩

theorem Shows.trans (h : Shows s es s') (h' : Shows s' es' s'') : Shows s (es ++ es') s'' where
  conn := h'.conn.trans h.conn
  service := h'.service.trans h.service
  asked := by rw [h'.asked, h.asked, List.filterMap_append, List.map_append, List.append_assoc]
  methods := by
    intro call hcall
    rw [List.filterMap_append] at hcall
    obtain hcall | hcall := List.mem_append.mp hcall
    · exact h.methods call hcall
    · rw [← h.service]
      exact h'.methods call hcall
  sent := by rw [h'.sent, h.sent, List.filterMap_append, List.map_append, List.append_assoc]
  invoked := by rw [h'.invoked, h.invoked, List.filterMap_append, List.length_append, Nat.add_assoc]
  serials := by
    rw [List.filterMap_append, List.map_append, h.serials, h'.serials, h.invoked, List.length_append,
      List.range'_append_1]
  given := by rw [h'.given, h.given, List.filterMap_append, List.append_assoc]
  answered := by rw [h'.answered, h.answered, List.filterMap_append, List.append_assoc]
  called := by rw [h'.called, h.called, List.filterMap_append, List.map_append, List.append_assoc]

theorem Shows.of_server (server : ServerWorld μ) : Shows s [] { s with server := server } :=
  ⟨rfl, rfl, (List.append_nil _).symm, fun _ hcall => absurd hcall List.not_mem_nil,
    (List.append_nil _).symm, rfl, rfl, (List.append_nil _).symm, (List.append_nil _).symm,
    (List.append_nil _).symm⟩

/-- The result of a step: it goes through, and the calls go on as the events say. -/
def Refines (codec : Codec μ) (s : RpcSystem μ) (e : Exchange μ) (x : Except Fault (RpcSystem μ)) : Prop :=
  ∃ s' es e', x = .ok s' ∧ Trace (Exchange.Step codec) e es e' ∧ s'.Represents codec e' ∧ Shows s es s'

theorem Represents.stays (h : s.Represents codec e) : Refines codec s e (.ok s) :=
  ⟨s, [], e, rfl, .refl, h, .refl s⟩

/-! ## Calls that are made -/

theorem trace_asks (e : Exchange μ) (new : List (RemoteCall μ)) :
    Trace (Exchange.Step codec) e (new.map .ask) { e with asked := e.asked ++ new } := by
  induction new generalizing e with
  | nil =>
    rw [List.append_nil]
    exact .refl
  | cons call new ih =>
    have hrest := ih { e with asked := e.asked ++ [call] }
    rw [List.append_assoc] at hrest
    exact (Trace.single (.ask e call)).append hrest

theorem filterMap_ask (new : List (RemoteCall μ)) :
    (new.map RpcEvent.ask).filterMap RpcEvent.asked? = new ∧
      (new.map RpcEvent.ask).filterMap RpcEvent.given? = [] ∧
      (new.map RpcEvent.ask).filterMap RpcEvent.answered? = [] ∧
      (new.map RpcEvent.ask).filterMap RpcEvent.returned? = [] := by
  refine ⟨?_, ?_, ?_, ?_⟩
  · rw [List.filterMap_map]
    exact List.filterMap_some
  · rw [List.filterMap_map]
    exact List.filterMap_eq_nil_iff.mpr fun _ _ => rfl
  · rw [List.filterMap_map]
    exact List.filterMap_eq_nil_iff.mpr fun _ _ => rfl
  · rw [List.filterMap_map]
    exact List.filterMap_eq_nil_iff.mpr fun _ _ => rfl

theorem perm_calls_ask (e : Exchange μ) (new : List (RemoteCall μ)) :
    (e.calls ++ new).Perm ({ e with asked := e.asked ++ new } : Exchange μ).calls := by
  unfold Exchange.calls
  simp only [List.append_assoc]
  refine List.Perm.append_left _ ?_
  rw [← List.append_assoc]
  exact List.perm_append_comm

/-! ## What a step of either end does to the streams -/

theorem zipIdx_calls {calls : List (ℕ × μ)} {new : List (RemoteCall μ)} {k : ℕ}
    (hcalls : new.map (fun call => (call.methodIndex, call.input)) = calls)
    (hserials : new.map RemoteCall.serial = List.range' k new.length) :
    calls.zipIdx k = new.map fun call => ((call.methodIndex, call.input), call.serial) := by
  rw [List.zipIdx_eq_zip_range', ← hcalls, List.length_map, ← hserials, List.zip_map']

/-- A step of the client: it takes the responses `taken` to calls that return, and makes new calls. -/
theorem Represents.clientMoves (h : s.Represents codec e) {client : ClientWorld μ}
    {received taken written toClient : List UInt8} {returned : List (ℕ × μ)}
    {calls : List (ℕ × μ)} {new : List (RemoteCall μ)} {answered : List (RemoteCall μ × Option μ)}
    (hmove : s.client.Move codec client received taken written returned new)
    (hcalls : new.map (fun call => (call.methodIndex, call.input)) = calls)
    (hcarries : client.Carries (({ e with answered := answered } : Exchange μ).calls ++ new))
    (hsendable : ∀ x ∈ calls, Sendable codec s.client.client.service x)
    (hreceived : received ++ toClient = s.toClient)
    (htaken : (e.answered.flatMap fun a => a.1.response codec a.2) =
      taken ++ answered.flatMap fun a => a.1.response codec a.2)
    (hrest : ∀ a ∈ answered, a ∈ e.answered)
    (htrace : Trace (Exchange.Step codec) e (returned.map fun r => .return_ r.1 r.2)
      { e with answered := answered }) :
    Refines codec s e (.ok { s with
      client := client
      toServer := s.toServer ++ written
      toClient := toClient
      asked := s.asked ++ calls.zipIdx s.client.invoked }) := by
  obtain ⟨hasked, hgiven, hanswered, hreturned⟩ := filterMap_ask new
  have hperm := perm_calls_ask ({ e with answered := answered } : Exchange μ) new
  have hreturns : ∀ {β : Type} (f : RpcEvent μ → Option β), (∀ r : ℕ × μ, f (.return_ r.1 r.2) = none) →
      (returned.map fun r => RpcEvent.return_ r.1 r.2).filterMap f = [] := by
    intro β f hf
    rw [List.filterMap_map]
    exact List.filterMap_eq_nil_iff.mpr fun r _ => hf r
  have hback :
      (returned.map fun r => RpcEvent.return_ r.1 r.2).filterMap RpcEvent.returned? = returned := by
    rw [List.filterMap_map]
    exact List.filterMap_some
  refine ⟨_, _, _, rfl, htrace.append (trace_asks _ new), ⟨hcarries.perm hperm, h.server, h.numbered,
    hmove.service.trans h.service, h.few, fun call hcall => ?_, ?_, ?_, fun call hcall => ?_,
    fun a ha => h.answerable a (hrest a ha)⟩, ⟨rfl, hmove.service, ?_, ?_, ?_, ?_, ?_, ?_, ?_, ?_⟩⟩
  · obtain hcall | hcall := List.mem_append.mp (hperm.mem_iff.mpr hcall)
    · refine h.methods call ?_
      unfold Exchange.calls at hcall ⊢
      obtain hcall | hcall := List.mem_append.mp hcall
      · exact List.mem_append_left _ hcall
      · obtain ⟨a, ha, rfl⟩ := List.mem_map.mp hcall
        exact List.mem_append_right _ (List.mem_map_of_mem (hrest a ha))
    · rw [← h.service]
      exact hmove.methods call hcall
  · show (s.server.buffers s.conn).1 ++ (s.toServer ++ written) ++ client.client.outgoing = _
    rw [List.append_assoc, List.append_assoc, hmove.outgoing, List.flatMap_append, ← h.requests]
    simp only [List.append_assoc]
  · show client.client.incoming ++ toClient ++ (s.server.buffers s.conn).2 = _
    refine (List.append_right_inj taken).mp ?_
    rw [← htaken, ← h.responses, ← List.append_assoc, ← List.append_assoc, hmove.incoming, ← hreceived]
    simp only [List.append_assoc]
  · obtain hcall | hcall := List.mem_append.mp hcall
    · exact h.sendable call hcall
    · rw [← h.service]
      exact hsendable _ (hcalls ▸ List.mem_map_of_mem hcall)
  · rw [List.filterMap_append, hreturns _ fun _ => rfl, hasked, zipIdx_calls hcalls hmove.serials]
    rfl
  · rw [List.filterMap_append, hreturns _ fun _ => rfl, hasked]
    exact hmove.methods
  · rw [List.filterMap_append, hreturns _ fun _ => rfl, hasked]
    exact hmove.sent
  · rw [List.filterMap_append, hreturns _ fun _ => rfl, hasked]
    exact hmove.invoked
  · rw [List.filterMap_append, hreturns _ fun _ => rfl, hasked]
    exact hmove.serials
  · rw [List.filterMap_append, hreturns _ fun _ => rfl, hgiven]
    exact (List.append_nil _).symm
  · rw [List.filterMap_append, hreturns _ fun _ => rfl, hanswered]
    exact (List.append_nil _).symm
  · rw [List.filterMap_append, hback, hreturned, List.append_nil]
    exact hmove.called

/-- A step of the server. -/
theorem Represents.serverMoves (h : s.Represents codec e) {server : ServerWorld μ}
    {received taken written queued toServer : List UInt8} {given : List (ℕ × μ)}
    (answered : List (ℕ × Option μ))
    (hmove : s.server.Move server s.conn received taken written queued given)
    (hcarries : server.Carries s.conn e'.given) (hnumbered : (e'.given.map Prod.fst).Nodup)
    (hcalls : e.calls.Perm e'.calls) (hreceived : received ++ toServer = s.toServer)
    (htaken : e.asked.flatMap (RemoteCall.request codec) =
      taken ++ e'.asked.flatMap (RemoteCall.request codec))
    (hqueued : (e'.answered.flatMap fun a => a.1.response codec a.2) =
      (e.answered.flatMap fun a => a.1.response codec a.2) ++ queued)
    (hrest : ∀ call ∈ e'.asked, call ∈ e.asked)
    (hanswerable : ∀ a ∈ e'.answered, Answerable codec a.1.method a.2)
    (htrace : Trace (Exchange.Step codec) e es e')
    (hshows : es.filterMap RpcEvent.asked? = [] ∧ es.filterMap RpcEvent.given? = given ∧
      es.filterMap RpcEvent.answered? = answered ∧ es.filterMap RpcEvent.returned? = []) :
    Refines codec s e (.ok { s with
      server := server
      toServer := toServer
      toClient := s.toClient ++ written
      given := s.given ++ given
      answered := s.answered ++ answered }) := by
  obtain ⟨hasked, hgiven, hanswered, hreturned⟩ := hshows
  refine ⟨_, es, e', rfl, htrace, ⟨h.client.perm hcalls, hcarries, hnumbered,
    h.service.trans hmove.service.symm, ?_, fun call hcall => ?_, ?_, ?_, fun call hcall => ?_,
    hanswerable⟩, ⟨rfl, rfl, ?_, ?_, ?_, ?_, ?_, ?_, ?_, ?_⟩⟩
  · show server.service.nMethods ≤ _
    rw [hmove.service]
    exact h.few
  · show server.service.methods[_]? = _
    rw [hmove.service]
    exact h.methods call (hcalls.mem_iff.mpr hcall)
  · show (server.buffers s.conn).1 ++ toServer ++ s.client.client.outgoing = _
    refine (List.append_right_inj taken).mp ?_
    rw [← htaken, ← h.requests, ← List.append_assoc, ← List.append_assoc, hmove.incoming, ← hreceived]
    simp only [List.append_assoc]
  · show s.client.client.incoming ++ (s.toClient ++ written) ++ (server.buffers s.conn).2 = _
    rw [List.append_assoc, List.append_assoc, hmove.outgoing, hqueued, ← h.responses]
    simp only [List.append_assoc]
  · show Sendable codec server.service _
    rw [hmove.service]
    exact h.sendable call (hrest call hcall)
  · rw [hasked]
    exact (List.append_nil _).symm
  · rw [hasked]
    exact fun _ hcall => absurd hcall List.not_mem_nil
  · rw [hasked]
    exact (List.append_nil _).symm
  · rw [hasked]
    rfl
  · rw [hasked]
    rfl
  · rw [hgiven]
  · rw [hanswered]
  · rw [hreturned]
    exact (List.append_nil _).symm

/-! ## Steps -/

theorem Represents.invoke (h : s.Represents codec e) {script : Script μ}
    (hallowed : s.Allowed codec (.invoke script)) : Refines codec s e (s.step codec (.invoke script)) := by
  obtain ⟨hproper, hroom, hsendable⟩ := hallowed
  obtain ⟨client, new, hok, hcarries, hmove, hnew⟩ := h.client.invoke codec hproper hroom
  have hrun : s.step codec (.invoke script) = .ok { s with
      client := client
      toServer := s.toServer ++ []
      toClient := s.toClient
      asked := s.asked ++ s.asks codec (.invoke script) } := by
    unfold step
    simp only [hok, except_ok_bind, List.append_nil]
    rfl
  rw [hrun]
  exact h.clientMoves hmove hnew hcarries hsendable rfl rfl (fun _ => id) .refl

theorem arrival_bytes (wire : List UInt8) (readable : Option ℕ) :
    Alive (readable.map (arrival wire)) ∧ receivedBytes (readable.map (arrival wire)) ++
      wire.drop (receivedBytes (readable.map (arrival wire))).length = wire := by
  cases readable with
  | none => exact ⟨⟨by simp, by simp⟩, rfl⟩
  | some n =>
    unfold arrival Alive
    rw [Option.map_some]
    by_cases hnil : wire.take n = []
    · rw [if_pos hnil]
      exact ⟨⟨by simp, by simp⟩, rfl⟩
    · rw [if_neg hnil]
      refine ⟨⟨by simp, by simpa using hnil⟩, ?_⟩
      show wire.take n ++ wire.drop (wire.take n).length = wire
      rw [List.length_take]
      obtain hle | hle := Nat.le_total n wire.length
      · rw [Nat.min_eq_left hle, List.take_append_drop]
      · rw [Nat.min_eq_right hle, List.drop_length, List.take_of_length_le hle, List.append_nil]

theorem Represents.clientEvents (h : s.Represents codec e) {writable : Option WritevOutcome}
    {readable : Option ℕ} (hallowed : s.Allowed codec (.clientEvents writable readable)) :
    Refines codec s e (s.step codec (.clientEvents writable readable)) := by
  obtain ⟨halive, hbytes⟩ := arrival_bytes s.toClient readable
  unfold step
  dsimp only
  by_cases hready : s.client.responding = false ∧ s.client.registeredFor .clientEvents
      (ClientWorld.reported writable (readable.map (arrival s.toClient))) = true
  · rw [if_pos hready]
    obtain ⟨client, hok, hcarries, hmove⟩ := h.client.events hallowed halive hready.1 hready.2
    rw [hok]
    have hmoves := h.clientMoves hmove rfl (by rwa [List.append_nil])
      (fun _ hx => absurd hx List.not_mem_nil) hbytes rfl (fun _ => id) .refl
    rw [List.map_nil, List.zipIdx_nil, List.append_nil] at hmoves
    exact hmoves
  · rw [if_neg hready]
    exact h.stays

/-- What of a stream of pieces is at hand has its first piece at the front, or is a part of it. -/
theorem front_cases {α : Type} {here rest first more : List α} (h : here ++ rest = first ++ more) :
    (∃ tail, here = first ++ tail) ∨ ∃ a tail, first = here ++ a :: tail := by
  obtain ⟨as, hfirst, -⟩ | ⟨bs, hhere, -⟩ := List.append_eq_append_iff.mp h
  · cases as with
    | nil => exact .inl ⟨[], by rw [hfirst, List.append_nil, List.append_nil]⟩
    | cons a tail => exact .inr ⟨a, tail, hfirst⟩
  · exact .inl ⟨bs, hhere⟩

/-- A part of a response is waited with. -/
theorem response_waits {call : RemoteCall μ} {answer : Option μ} {here tail : List UInt8} {b : UInt8}
    (hsmall : 16 + (codec.reply answer).length < 2 ^ 32)
    (hcut : call.response codec answer = here ++ b :: tail) :
    here.length < 16 ∨ (16 + headerWord here 2).toNat > here.length := by
  by_cases hshort : here.length < 16
  · exact .inl hshort
  · right
    have hword : headerWord here 2 = UInt32.ofNat (codec.reply answer).length := by
      rw [← (call.headerWord_response codec answer []).1, List.append_nil, hcut]
      exact (FrameFormat.headerWord_append (by omega) _).symm
    have hlength := congrArg List.length hcut
    rw [call.length_response, List.length_append, List.length_cons] at hlength
    rw [hword, UInt32.toNat_add, UInt32.toNat_ofNat', Nat.mod_eq_of_lt (a := (codec.reply answer).length)
      (by omega)]
    show (16 + _) % 2 ^ 32 > _
    omega

theorem Represents.respond (h : s.Represents codec e) (hallowed : s.Allowed codec .respond) :
    Refines codec s e (s.step codec .respond) := by
  obtain ⟨hroom, hsendable⟩ := hallowed
  have hrun : ∀ {client : ClientWorld μ}, s.client.step codec .respond = .ok client →
      s.step codec .respond = .ok { s with
        client := client
        toServer := s.toServer ++ []
        toClient := s.toClient
        asked := s.asked ++ s.asks codec .respond } := by
    intro client hok
    unfold step
    simp only [hok, except_ok_bind, List.append_nil]
    rfl
  by_cases hresponding : s.client.responding = true
  · have hstops : (s.client.client.incoming.length < 16 ∨
        (16 + headerWord s.client.client.incoming 2).toNat > s.client.client.incoming.length) →
        Refines codec s e (s.step codec .respond) := by
      intro hwait
      obtain ⟨client, hok, hcarries, hmove, hnew⟩ := h.client.stops codec hresponding hwait
      rw [hrun hok]
      exact h.clientMoves hmove hnew.symm (by rwa [List.append_nil]) hsendable rfl rfl (fun _ => id) .refl
    have hstream := h.responses
    rw [List.append_assoc] at hstream
    cases hanswered : e.answered with
    | nil =>
      rw [hanswered] at hstream
      have hempty := (List.append_eq_nil_iff.mp hstream).1
      exact hstops (.inl (by rw [hempty]; exact Nat.zero_lt_succ 15))
    | cons a answered =>
      obtain ⟨call, answer⟩ := a
      rw [hanswered, List.flatMap_cons] at hstream
      obtain ⟨hsmall, message, hread⟩ := h.answerable (call, answer) (hanswered ▸ List.mem_cons_self)
      obtain ⟨tail, hfront⟩ | ⟨b, tail, hcut⟩ := front_cases hstream
      · have hperm : e.calls.Perm (call :: ({ e with answered := answered } : Exchange μ).calls) := by
          unfold Exchange.calls
          rw [hanswered, List.map_cons]
          exact List.perm_middle
        obtain ⟨client, new, hok, hcarries, hmove, hnew⟩ :=
          (h.client.perm hperm).returns hresponding hroom hfront hsmall hread
        rw [hrun hok]
        refine h.clientMoves hmove hnew hcarries hsendable rfl ?_
          (fun a ha => hanswered ▸ List.mem_cons_of_mem _ ha)
          (.single (.return_ e call answer answered message hanswered hread))
        rw [hanswered]
        rfl
      · exact hstops (response_waits hsmall hcut)
  · have hok : s.client.step codec .respond = .ok s.client := if_neg hresponding
    have hnone : s.asks codec .respond = [] := by
      unfold asks
      rw [show s.client.runs codec .respond = .done by
        dsimp only [ClientWorld.runs]
        rw [Bool.eq_false_iff.mpr hresponding]]
      rfl
    rw [hrun hok, hnone, List.append_nil, List.append_nil]
    exact h.stays

/-- A step of the server that gives no call and answers none. -/
theorem Represents.serverStays (h : s.Represents codec e) {server : ServerWorld μ}
    {received written toServer : List UInt8}
    (hmove : s.server.Move server s.conn received [] written [] [])
    (hcarries : server.Carries s.conn e.given) (hreceived : received ++ toServer = s.toServer) :
    Refines codec s e (.ok { s with
      server := server, toServer := toServer, toClient := s.toClient ++ written }) := by
  have hstays := h.serverMoves [] hmove hcarries h.numbered (.refl _) hreceived rfl
    (List.append_nil _).symm (fun _ => id) h.answerable .refl ⟨rfl, rfl, rfl, rfl⟩
  simp only [List.append_nil] at hstays
  exact hstays

theorem Represents.serverEvents (h : s.Represents codec e) {readable : Option ℕ}
    {writable : Option WritevOutcome} (hallowed : s.Allowed codec (.serverEvents readable writable)) :
    Refines codec s e (s.step codec (.serverEvents readable writable)) := by
  obtain ⟨halive, hbytes⟩ := arrival_bytes s.toServer readable
  unfold step
  dsimp only
  by_cases hready : s.server.receiving.isNone = true ∧ s.server.registeredFor s.conn
      (ClientWorld.reported writable (readable.map (arrival s.toServer))) = true
  · rw [if_pos hready]
    obtain ⟨server, hok, hcarries, hmove⟩ := h.server.events codec
      (Option.isNone_iff_eq_none.mp hready.1) hallowed halive hready.2
    rw [hok]
    exact h.serverStays hmove hcarries hbytes
  · rw [if_neg hready]
    exact h.stays

/-- A part of a request is waited with. -/
theorem request_waits {call : RemoteCall μ} {here tail : List UInt8} {b : UInt8}
    (hsmall : 12 + (codec.pack call.input).length < 2 ^ 32)
    (hcut : call.request codec = here ++ b :: tail) :
    here.length < 12 ∨ here.length < (12 + headerWord here 1).toNat := by
  by_cases hshort : here.length < 12
  · exact .inl hshort
  · right
    have hword : headerWord here 1 = UInt32.ofNat (codec.pack call.input).length := by
      rw [← (call.headerWord_request codec []).2.1, List.append_nil, hcut]
      exact (FrameFormat.headerWord_append (by omega) _).symm
    have hlength := congrArg List.length hcut
    rw [call.length_request, List.length_append, List.length_cons] at hlength
    rw [hword, UInt32.toNat_add, UInt32.toNat_ofNat', Nat.mod_eq_of_lt (a := (codec.pack call.input).length)
      (by omega)]
    show _ < (12 + _) % 2 ^ 32
    omega

theorem perm_calls_give {call : RemoteCall μ} {asked : List (RemoteCall μ)}
    (hfirst : e.asked = call :: asked) (request : ℕ) : e.calls.Perm
      ({ e with asked := asked, given := e.given ++ [(request, call)] } : Exchange μ).calls := by
  unfold Exchange.calls
  rw [hfirst, List.map_append]
  simp only [List.append_assoc, List.cons_append]
  refine List.perm_middle.symm.trans (List.Perm.append_left asked ?_)
  exact List.perm_middle.symm

theorem Represents.receive (h : s.Represents codec e) : Refines codec s e (s.step codec .receive) := by
  unfold step
  cases hreceiving : s.server.receiving with
  | none => exact h.stays
  | some x =>
    obtain ⟨conn, writable⟩ := x
    dsimp only
    by_cases hconn : conn = s.conn
    · subst hconn
      rw [if_pos rfl]
      have hstops : ((s.server.buffers s.conn).1.length < 12 ∨
          (s.server.buffers s.conn).1.length < (12 + headerWord (s.server.buffers s.conn).1 1).toNat) →
          Refines codec s e (do
            let server ← s.server.step codec .receive
            return { s with
              server := server
              toClient := s.toClient ++ s.written server writable
              given := s.given ++ server.invoked.drop s.server.invoked.length }) := by
        intro hwait
        obtain ⟨server, hok, hcarries, hnone, hmove⟩ := h.server.stops codec hreceiving hwait
        have hinvoked : server.invoked.drop s.server.invoked.length = [] := by
          rw [hmove.invoked, List.append_nil, List.drop_length]
        have hwritten : s.written server writable =
            (s.server.buffers s.conn).2.take (writeCount writable) := by
          unfold written
          rw [hnone]
          rfl
        rw [hok, except_ok_bind, hinvoked, hwritten, List.append_nil]
        exact h.serverStays hmove hcarries rfl
      have hstream := h.requests
      rw [List.append_assoc] at hstream
      cases hasked : e.asked with
      | nil =>
        rw [hasked] at hstream
        have hempty := (List.append_eq_nil_iff.mp hstream).1
        exact hstops (.inl (by rw [hempty]; exact Nat.zero_lt_succ 11))
      | cons call asked =>
        rw [hasked, List.flatMap_cons] at hstream
        have hmem : call ∈ e.asked := hasked ▸ List.mem_cons_self
        have hmethod := h.methods call (List.mem_append_left _ (List.mem_append_left _ hmem))
        obtain ⟨hsmall, hreadable⟩ := h.sendable call hmem
        obtain ⟨message, hread⟩ := hreadable call.method hmethod
        obtain ⟨tail, hfront⟩ | ⟨b, tail, hcut⟩ := front_cases hstream
        · have hindex : call.methodIndex < 2 ^ 32 :=
            (List.getElem?_eq_some_iff.mp hmethod).1.trans_le h.few
          obtain ⟨server, rv, hok, hcarries, hfresh, hsame, hmove⟩ :=
            h.server.gives hreceiving hfront hmethod hindex hsmall hread
          have hinvoked : server.invoked.drop s.server.invoked.length = [(rv, message)] := by
            rw [hmove.invoked, List.drop_left]
          have hwritten : s.written server writable = [] := by
            unfold written
            rw [hsame, hreceiving]
            rfl
          rw [hok, except_ok_bind, hinvoked, hwritten]
          have hgives := h.serverMoves [] hmove hcarries ?_ (perm_calls_give hasked rv) rfl ?_
            (List.append_nil _).symm ?_ h.answerable
            (.single (.give e call asked rv message hasked hread hfresh)) ⟨rfl, rfl, rfl, rfl⟩
          · simp only [List.append_nil] at hgives ⊢
            exact hgives
          · rw [List.map_append]
            exact h.numbered.append (List.nodup_singleton rv) (by simpa using hfresh)
          · rw [hasked]
            rfl
          · exact fun call' hcall' => hasked ▸ List.mem_cons_of_mem _ hcall'
        · exact hstops (request_waits hsmall hcut)
    · rw [if_neg hconn]
      exact h.stays

theorem perm_calls_answer {call : RemoteCall μ} {request : ℕ} (hnumbered : (e.given.map Prod.fst).Nodup)
    (has : (request, call) ∈ e.given) (message : Option μ) : e.calls.Perm
      ({ e with
        given := e.given.filter fun g => g.1 ≠ request
        answered := e.answered ++ [(call, message)] } : Exchange μ).calls := by
  unfold Exchange.calls
  rw [List.map_append]
  simp only [List.append_assoc]
  refine List.Perm.append_left _ ?_
  refine ((Exchange.perm_filter_ne hnumbered has).map Prod.snd).append_right _ |>.trans ?_
  rw [List.map_cons, List.cons_append, List.map_singleton, ← List.append_assoc]
  exact (List.perm_append_singleton _ _).symm

/-- What the service owes on the connection is one of the calls that it has. -/
theorem Represents.given_of_owed (h : s.Represents codec e) {request : ℕ} (howed : request ∈ s.server.owed)
    (hconn : s.server.connectionOf request = some s.conn) : ∃ call, (request, call) ∈ e.given := by
  obtain hplace | ⟨conn, hplace⟩ :=
    h.server.inv.core.serving.held request (List.mem_append_left _ howed)
  · rw [ServerWorld.connectionOf_defunct hplace] at hconn
    exact absurd hconn (by simp)
  · obtain rfl : conn = s.conn := by
      rw [ServerWorld.connectionOf_pending hplace] at hconn
      exact Option.some.inj hconn
    obtain ⟨⟨r, call⟩, hmem, rfl⟩ := List.mem_map.mp ((h.server.pending request).mp hplace)
    exact ⟨call, hmem⟩

theorem Represents.answer (h : s.Represents codec e) {request : ℕ} {message : Option μ}
    {inRpcThread : Bool} {write : ProxyWrite}
    (hallowed : s.Allowed codec (.answer request message inRpcThread write)) :
    Refines codec s e (s.step codec (.answer request message inRpcThread write)) := by
  unfold step
  dsimp only
  by_cases howed : request ∈ s.server.owed ∧ s.server.connectionOf request = some s.conn
  · rw [if_pos howed]
    obtain ⟨call, hgiven⟩ := h.given_of_owed howed.1 howed.2
    have hmethod := h.methods call
      (List.mem_append_left _ (List.mem_append_right _ (List.mem_map_of_mem hgiven)))
    have hanswerable : Answerable codec call.method message := by
      obtain ⟨q, hq, hheader⟩ := Option.map_eq_some_iff.mp (h.server.header (request, call) hgiven)
      refine hallowed q call.method hq ?_
      rw [(Prod.mk.inj hheader).2, UInt32.toNat_ofNat',
        Nat.mod_eq_of_lt ((List.getElem?_eq_some_iff.mp hmethod).1.trans_le h.few)]
      exact hmethod
    obtain ⟨server, hok, hcarries, -, hmove⟩ :=
      h.server.answers codec hgiven message inRpcThread write
    rw [hok, except_ok_bind]
    have hanswers := h.serverMoves [(request, message)] hmove hcarries
      (h.numbered.sublist (List.filter_sublist.map Prod.fst)) (perm_calls_answer h.numbered hgiven message)
      rfl rfl (by rw [List.flatMap_append, List.flatMap_singleton]) (fun _ => id) ?_
      (.single (.answer e call request message hgiven)) ⟨rfl, rfl, rfl, rfl⟩
    · simp only [List.append_nil] at hanswers
      exact hanswers
    · intro a ha
      obtain ha | ha := List.mem_append.mp ha
      · exact h.answerable a ha
      · obtain rfl := List.mem_singleton.mp ha
        exact hanswerable
  · rw [if_neg howed]
    exact h.stays

theorem Represents.elsewhere (h : s.Represents codec e) {label : ServerLabel μ}
    (hallowed : s.Allowed codec (.elsewhere label)) :
    Refines codec s e (s.step codec (.elsewhere label)) := by
  obtain ⟨server, hok, hcarries, hleaves⟩ := h.server.elsewhere codec hallowed.1 hallowed.2
  have hbuffers : server.buffers s.conn = s.server.buffers s.conn :=
    congrArg (Option.getD · ([], [])) hleaves.buffer
  have hrun : s.step codec (.elsewhere label) = .ok { s with server := server } := by
    unfold step
    simp only [hok, except_ok_bind]
    rfl
  refine ⟨_, [], e, hrun, .refl, ⟨h.client, hcarries, h.numbered, h.service.trans hleaves.service.symm, ?_,
    fun call hcall => ?_, ?_, ?_, fun call hcall => ?_, h.answerable⟩,
    .of_server server⟩
  · show server.service.nMethods ≤ _
    rw [hleaves.service]
    exact h.few
  · show server.service.methods[_]? = _
    rw [hleaves.service]
    exact h.methods call hcall
  · show (server.buffers s.conn).1 ++ _ ++ _ = _
    rw [hbuffers]
    exact h.requests
  · show _ ++ _ ++ (server.buffers s.conn).2 = _
    rw [hbuffers]
    exact h.responses
  · show Sendable codec server.service _
    rw [hleaves.service]
    exact h.sendable call hcall

/-- Every step that is allowed goes through, and the calls go on with it. -/
theorem Represents.step (h : s.Represents codec e) {label : RpcLabel μ} (hallowed : s.Allowed codec label) :
    Refines codec s e (s.step codec label) := by
  cases label with
  | invoke script => exact h.invoke hallowed
  | clientEvents writable readable => exact h.clientEvents hallowed
  | respond => exact h.respond hallowed
  | serverEvents readable writable => exact h.serverEvents hallowed
  | receive => exact h.receive
  | answer request message inRpcThread write => exact h.answer hallowed
  | elsewhere label => exact h.elsewhere hallowed

end RpcSystem

end ProtobufC
