import ProtobufC.Rpc.CallsExact
import ProtobufC.Wire.InputBounds
import ProtobufC.Wire.RoundTrip
import ProtobufC.Wire.ThreeWalks

/-! # Calls with protobuf-c messages

Messages that are packed by `protobuf_c_message_pack` and read by `protobuf_c_message_unpack` arrive at the
other end as what they mean: with the wire format for a codec, the service is given the normal form of the
message that was asked, and the closure the normal form of the message that was answered.
-/

namespace ProtobufC
open Library
set_option autoImplicit false

variable {S : Schema} {d : DescriptorId} {m m' : Message} {data : List UInt8}

/-! ## The wire format as a codec -/

/-- Messages are packed into a block of their size, and read into memory of their own. -/
def wireCodec (S : Schema) : Codec Message where
  pack m :=
    let packed : Except Fault (List UInt8) := do
      let size ← messageGetPackedSize S m
      let (_, data) ← messagePack S m 0 (List.replicate size 0)
      return data
    packed.toOption.getD []
  unpack d data :=
    match messageUnpack countingHeap.toAllocator S d data (0, []) with
    | .ok (.ref _ m, _) => some m.erase
    | .ok (.null, _) | .error _ => none

/-- A message of the type that the other end can read. -/
structure Fits (S : Schema) (d : DescriptorId) (m : Message) : Prop where
  descriptor : m.descriptor = d
  packable : m.Packable S
  readable : m.Readable S
  short : 16 + (m.encode S).length < 2 ^ 32

theorem wireCodec_pack (hm : m.Packable S) (hshort : (m.encode S).length < 2 ^ 32) :
    (wireCodec S).pack m = m.encode S := by
  have hsize := messageGetPackedSize_eq hm
  obtain ⟨-, hpack⟩ := messagePack_encode hm hsize hshort (List.length_replicate (a := (0 : UInt8)))
  unfold wireCodec
  simp only [hsize, except_ok_bind, hpack]
  rfl

theorem wireCodec_unpack (hdec : decode S d data = some m) (hshort : data.length < 2 ^ 32) :
    (wireCodec S).unpack d data = some m := by
  obtain ⟨a, m', s', hrun, herase, -⟩ :=
    messageUnpack_of_decode countingHeap_infallible hshort hdec (0, [])
  unfold wireCodec
  simp only [hrun, herase]

theorem decode_of_wireCodec (h : (wireCodec S).unpack d data = some m) : decode S d data = some m := by
  unfold wireCodec at h
  dsimp only at h
  cases hrun : messageUnpack countingHeap.toAllocator S d data (0, []) with
  | error fault =>
    rw [hrun] at h
    exact absurd h (by simp)
  | ok result =>
    obtain ⟨read, s⟩ := result
    rw [hrun] at h
    cases read with
    | null => exact absurd h (by simp)
    | ref a m' =>
      obtain rfl : m'.erase = m := Option.some.inj h
      exact messageUnpack_decode hrun

/-- No bytes are read as the initialised message. -/
theorem wireCodec_unpack_nil (h : (wireCodec S).unpack d [] = some m) : m = S.initMessage d := by
  have hdec := decode_of_wireCodec h
  rw [decode_eq] at hdec
  unfold decodeLayer at hdec
  simp only [tokenize_nil, Option.bind_eq_bind, Option.bind_some] at hdec
  split_ifs at hdec
  exact (Option.some.inj hdec).symm

/-- What the wire format gives of a message. -/
theorem Fits.unpack (h : Fits S d m) :
    (wireCodec S).unpack d ((wireCodec S).pack m) = some (m.normal S) := by
  have hshort := h.short
  rw [wireCodec_pack h.packable (by omega), ← h.descriptor]
  exact wireCodec_unpack (decode_encode h.readable h.packable (by omega)) (by omega)

theorem Fits.sendable {service : ServiceDescriptor} {x : ℕ × Message}
    (h : ∀ method, service.methods[x.1]? = some method → Fits S method.input x.2)
    (hshort : 12 + ((wireCodec S).pack x.2).length < 2 ^ 32) :
    RpcSystem.Sendable (wireCodec S) service x :=
  ⟨hshort, fun method hmethod => ⟨_, (h method hmethod).unpack⟩⟩

theorem Fits.answerable {method : MethodDescriptor} (h : Fits S d m) (hd : method.output = d) :
    RpcSystem.Answerable (wireCodec S) method (some m) := by
  have hread := h.unpack
  have hshort := h.short
  rw [← hd] at hread
  refine ⟨?_, m.normal S, hread⟩
  change 16 + ((wireCodec S).pack m).length < 2 ^ 32
  rw [wireCodec_pack h.packable (by omega)]
  exact hshort

/-! ## Runs -/

/-- The service is given the normal forms of the messages, in the order of the calls, and a closure the
normal form of the answer to its own call; where the service answers NULL, that is the initialised
message. -/
theorem messages_exact {s s' : RpcSystem Message} (h : s.Fresh (wireCodec S))
    (hruns : Runs (RpcSystem.step (wireCodec S)) (RpcSystem.Allowed (wireCodec S)) s s') :
    ∃ es, s.Shows es s' ∧
      (∃ before, before <+: es.filterMap RpcEvent.asked? ∧
        List.Forall₂ (fun call g => Fits S call.method.input call.input → g.2 = call.input.normal S)
          before (es.filterMap RpcEvent.given?)) ∧
      ∀ before serial message after, es = before ++ .return_ serial message :: after →
        ∃ call answer, Exchange.AnsweredWith (wireCodec S) before call answer ∧ serial = call.serial ∧
          (∀ m, answer = some m → Fits S call.method.output m → message = m.normal S) ∧
          (answer = none → message = S.initMessage call.method.output) := by
  obtain ⟨es, e, htrace, -, hshows⟩ := h.simulated hruns
  obtain ⟨before, hasked, hgiven⟩ := Exchange.given_in_order htrace
  refine ⟨es, hshows, ⟨before, ⟨e.asked, hasked.symm⟩, hgiven.imp fun call g hread hfits => ?_⟩,
    fun before serial message after heq => ?_⟩
  · exact Option.some.inj (hread.symm.trans hfits.unpack)
  · obtain ⟨call, answer, hanswered, hserial, hread⟩ :=
      (Exchange.traced_of_trace htrace).returned before serial message after heq
    refine ⟨call, answer, hanswered, hserial, fun m hm hfits => ?_, fun hnone => ?_⟩
    · rw [hm] at hread
      exact Option.some.inj (hread.symm.trans hfits.unpack)
    · rw [hnone] at hread
      exact wireCodec_unpack_nil hread

/-- What the closure of a call is to be called with: NULL if the service answers NULL, and otherwise the
message. -/
def Outcome (S : Schema) (method : MethodDescriptor) (answer called : Option Message) : Prop :=
  match answer with
  | none => called = none
  | some m => Fits S method.output m → called = some (m.normal S)

theorem outcome_iff {method : MethodDescriptor} {answer : Option Message} {message : Message}
    (hread : (wireCodec S).unpack method.output ((wireCodec S).reply answer) = some message) :
    Outcome S method answer (some message) ↔ answer ≠ none := by
  cases answer with
  | none => simp [Outcome]
  | some m =>
    refine ⟨fun _ => by simp, fun _ hfits => ?_⟩
    exact congrArg some (Option.some.inj (hread.symm.trans hfits.unpack))

/-- The connection stays up, and no call is lost or returned twice.  A closure is called with a message that
is right exactly if the answer to its own call is not NULL; so where the service never answers NULL, all
are. -/
theorem outcomes_exact {s s' : RpcSystem Message} (h : s.Fresh (wireCodec S))
    (hruns : Runs (RpcSystem.step (wireCodec S)) (RpcSystem.Allowed (wireCodec S)) s s') :
    s'.client.client.state = .connected ∧ (∃ c, s'.server.connections.get s'.conn = some c) ∧
    (((s'.client.called.drop s.client.called.length).map Prod.fst).Perm (s'.asked.map Prod.snd) ↔
      s'.Drained) ∧
    ∃ es, s.Shows es s' ∧ ((es.filterMap RpcEvent.returned?).map Prod.fst).Nodup ∧
      (∀ before serial message after, es = before ++ .return_ serial message :: after →
        ∃ call answer, Exchange.AnsweredWith (wireCodec S) before call answer ∧ serial = call.serial ∧
          (Outcome S call.method answer (some message) ↔ answer ≠ none)) ∧
      ((∀ a ∈ s'.answered, a.2 ≠ none) →
        ∀ before serial message after, es = before ++ .return_ serial message :: after →
          ∃ call m, Exchange.AnsweredWith (wireCodec S) before call (some m) ∧ serial = call.serial ∧
            (Fits S call.method.output m → message = m.normal S)) := by
  obtain ⟨es, e, htrace, hrepresents, hshows⟩ := h.simulated hruns
  obtain ⟨reclosed, c, array, free, fd, hconn⟩ := hrepresents.client.connected
  have hperm := Exchange.perm_asked htrace
  have hnodup := hperm.nodup_iff.mpr hshows.nodup_serials
  have hreturned : ∀ before serial message after, es = before ++ .return_ serial message :: after →
      ∃ call answer, Exchange.AnsweredWith (wireCodec S) before call answer ∧ serial = call.serial ∧
        (Outcome S call.method answer (some message) ↔ answer ≠ none) := by
    intro before serial message after heq
    obtain ⟨call, answer, hanswered, hserial, hread⟩ :=
      (Exchange.traced_of_trace htrace).returned before serial message after heq
    exact ⟨call, answer, hanswered, hserial, outcome_iff hread⟩
  refine ⟨hconn.table.state, hrepresents.server.connection, h.complete_iff hrepresents hperm hshows, es,
    hshows, (List.nodup_append.mp hnodup).2.1, hreturned, fun hnever before serial message after heq => ?_⟩
  obtain ⟨call, answer, hanswered, hserial, hright⟩ := hreturned before serial message after heq
  cases answer with
  | some m =>
    exact ⟨call, m, hanswered, hserial, fun hfits => Option.some.inj (hright.mpr (by simp) hfits)⟩
  | none =>
    -- such an answer would be among those of the run
    obtain ⟨first, last, request, rfl, -⟩ := hanswered
    have hmem : (request, none) ∈ s'.answered := by
      rw [hshows.answered, heq]
      simp [RpcEvent.answered?]
    exact absurd rfl (hnever _ hmem)

/-! ## Two calls -/

/-- A message of the numbers given. -/
def numbersMessage (vs : List UInt32) : Message := .mk 0 [.repeated (.ofList (vs.map .word32))] .null

theorem numbersMessage_fits {vs : List UInt32}
    (hshort : 16 + ((numbersMessage vs).encode repeatedInt32Schema).length < 2 ^ 32) :
    Fits repeatedInt32Schema 0 (numbersMessage vs) := by
  have hword : ∀ v ∈ vs.map Value.word32, ∃ w, v = .word32 w := by
    intro v hv
    obtain ⟨w, -, rfl⟩ := List.mem_map.mp hv
    exact ⟨w, rfl⟩
  have hleaf : ∀ c, c ∉ (numbersMessage vs).children := by
    intro c hc
    obtain ⟨slot, hslot, hc⟩ := List.mem_flatMap.mp hc
    rw [List.mem_singleton.mp hslot] at hc
    obtain ⟨v, hv, hc⟩ := List.mem_flatMap.mp hc
    obtain ⟨w, rfl⟩ := hword v hv
    exact absurd hc List.not_mem_nil
  refine ⟨rfl, .intro _ (.cons ⟨rfl, rfl, fun v hv => ?_⟩ .nil) rfl (fun _ hu => absurd hu List.not_mem_nil)
    fun c hc => absurd hc (hleaf c), .intro _ (.cons (fun v hv => ?_) .nil)
    (fun _ hu => absurd hu List.not_mem_nil) fun c hc => absurd hc (hleaf c), hshort⟩
  · obtain ⟨w, rfl⟩ := hword v hv
    exact ⟨trivial, trivial, by simp [Value.NonNull]⟩
  · obtain ⟨w, rfl⟩ := hword v hv
    exact ⟨by simp, fun _ hc => absurd hc List.not_mem_nil⟩

/-- Two calls, of which one has a number. -/
def twoCalls : Script Message :=
  .invoke 0 (numbersMessage [5]) (fun _ => .done) 0 (.invoke 0 (numbersMessage []) (fun _ => .done) 0 .done)

/-- The requests of the two calls. -/
def callBytes : List UInt8 := headerBytes [0, 2, 1] ++ [8, 5] ++ headerBytes [0, 0, 2]

/-- The answer to the second call, and behind it the one to the first. -/
def answerBytes (answer : Option Message) : List UInt8 × List UInt8 :=
  (responseBytes (wireCodec repeatedInt32Schema) ⟨2, 0, some 0, .alive ⟨some 0, none⟩⟩ answer,
    responseBytes (wireCodec repeatedInt32Schema) ⟨1, 0, some 0, .alive ⟨none, none⟩⟩
      (some (numbersMessage [7])))

/-- The entry of a call that has not returned. -/
def openClosure (serial : ℕ) : Closure Message := ⟨some 0, some ⟨serial, fun _ => .done⟩, 0⟩

/-- The client behind its two calls, with the events for which it was registered. -/
def callingClient (events : List UInt32) (incoming outgoing : List UInt8) (responding : Bool)
    (free : UInt32) (table : List (Closure Message)) (called : List (ℕ × Option Message)) :
    ClientWorld Message :=
  let w := events.foldl (fun w events => w.watchFd 5 events (some .clientEvents))
    (localSystem (wireCodec repeatedInt32Schema)).client
  { w with
    client := { w.client with info := .connected ⟨2, free, 1⟩, incoming := incoming, outgoing := outgoing }
    arrays := ⟨[none, some table]⟩
    responding := responding
    invoked := 2
    called := called
    sent := [(0, 1), (1, 2)] }

/-- The server with its requests. -/
def callingServer (events : List UInt32) (connection : ServerConnection) (requests : List ServerRequest)
    (recycled : Option ℕ) (receiving : Bool) (invoked : List (ℕ × Message)) (owed : List ℕ) :
    ServerWorld Message :=
  let w := events.foldl (fun w events => w.watchConnection 3 events 0)
    (localSystem (wireCodec repeatedInt32Schema)).server
  { w with
    connections := ⟨[some connection]⟩
    requests := ⟨requests.map some⟩
    recycledRequests := recycled
    receiving := if receiving then some (0, none) else none
    invoked := invoked
    owed := owed }

/-- The calls were made. -/
def askedSystem : RpcSystem Message := { localSystem (wireCodec repeatedInt32Schema) with
  client := callingClient [eventReadable ||| eventWritable] [] callBytes false 0
    [openClosure 0, openClosure 1] []
  asked := [((0, numbersMessage [5]), 0), ((0, numbersMessage []), 1)] }

/-- Their bytes are at the server. -/
def sentSystem : RpcSystem Message := { askedSystem with
  client := callingClient [eventReadable ||| eventWritable, eventReadable] [] [] false 0
    [openClosure 0, openClosure 1] []
  server := callingServer [] ⟨3, callBytes, [], none, none, 0, none, none⟩ [] none true [] [] }

/-- The service has both. -/
def givenSystem : RpcSystem Message := { sentSystem with
  server := callingServer [] ⟨3, [], [], none, none, 2, some 0, some 1⟩
    [⟨1, 0, some 0, .alive ⟨none, some 1⟩⟩, ⟨2, 0, some 0, .alive ⟨some 0, none⟩⟩] none false
    [(0, numbersMessage [5]), (1, numbersMessage [])] [0, 1]
  given := [(0, numbersMessage [5]), (1, numbersMessage [])] }

/-- The second was answered. -/
def answeringSystem (answer : Option Message) : RpcSystem Message := { givenSystem with
  server := callingServer [eventReadable ||| eventWritable]
    ⟨3, [], (answerBytes answer).1, none, none, 1, some 0, some 0⟩
    [⟨1, 0, some 0, .alive ⟨none, none⟩⟩, ⟨2, 0, some 0, .recycled none⟩] (some 1) false
    [(0, numbersMessage [5]), (1, numbersMessage [])] [0]
  answered := [(1, answer)] }

/-- Both were answered. -/
def answeredSystem (answer : Option Message) : RpcSystem Message := { answeringSystem answer with
  server := callingServer [eventReadable ||| eventWritable]
    ⟨3, [], (answerBytes answer).1 ++ (answerBytes answer).2, none, none, 0, none, none⟩
    [⟨1, 0, some 0, .recycled (some 1)⟩, ⟨2, 0, some 0, .recycled none⟩] (some 0) false
    [(0, numbersMessage [5]), (1, numbersMessage [])] []
  answered := [(1, answer), (0, some (numbersMessage [7]))] }

/-- The answers are at the client, where the closures called were given these messages. -/
def repliedSystem (answer : Option Message) (incoming : List UInt8) (free : UInt32)
    (table : List (Closure Message)) (called : List (ℕ × Option Message)) : RpcSystem Message :=
  { answeredSystem answer with
    client := callingClient [eventReadable ||| eventWritable, eventReadable] incoming [] true free table
      called
    server := callingServer [eventReadable ||| eventWritable, eventReadable]
      ⟨3, [], [], none, none, 0, none, none⟩
      [⟨1, 0, some 0, .recycled (some 1)⟩, ⟨2, 0, some 0, .recycled none⟩] (some 0) false
      [(0, numbersMessage [5]), (1, numbersMessage [])] [] }

theorem askedSystem_runs : Runs (RpcSystem.step (wireCodec repeatedInt32Schema))
    (RpcSystem.Allowed (wireCodec repeatedInt32Schema)) (localSystem (wireCodec repeatedInt32Schema))
      givenSystem := by
  have hsent : ∃ s, askedSystem.step (wireCodec repeatedInt32Schema)
      (.clientEvents (some (.accepts 100)) none) = .ok s ∧
        s.step (wireCodec repeatedInt32Schema) (.serverEvents (some 100) none) = .ok sentSystem :=
    ⟨_, rfl, rfl⟩
  have hgiven : ∃ s s', sentSystem.step (wireCodec repeatedInt32Schema) .receive = .ok s ∧
      s.step (wireCodec repeatedInt32Schema) .receive = .ok s' ∧
        s'.step (wireCodec repeatedInt32Schema) .receive = .ok givenSystem := ⟨_, _, rfl, rfl, rfl⟩
  obtain ⟨s₁, hwrite, hread⟩ := hsent
  obtain ⟨s₂, s₃, hfirst, hsecond, hend⟩ := hgiven
  refine .tail .receive (.tail .receive (.tail .receive (.tail (.serverEvents (some 100) none)
    (.tail (.clientEvents (some (.accepts 100)) none) (.tail (.invoke twoCalls) (.refl _) ?_ rfl)
    ?_ hwrite) ?_ hread) trivial hfirst) trivial hsecond) trivial hend
  · refine ⟨⟨Nat.zero_lt_one, fun _ => trivial, Nat.zero_lt_one, fun _ => trivial, trivial⟩,
      fun c array _ hinfo hget => ?_, fun x hx => ?_⟩
    · cases hinfo
      cases hget
      exact .inr (by decide)
    · have hmethod : ∀ method, (ServiceDescriptor.mk [⟨0, 0⟩]).methods[0]? = some method →
          (⟨0, 0⟩ : MethodDescriptor) = method := fun _ => Option.some.inj
      obtain rfl | hx := List.mem_cons.mp (show x ∈ [((0, numbersMessage [5]) : ℕ × Message),
        (0, numbersMessage [])] from hx)
      · exact Fits.sendable (fun method h => hmethod method h ▸ numbersMessage_fits (by decide)) (by decide)
      · obtain rfl := List.mem_singleton.mp hx
        exact Fits.sendable (fun method h => hmethod method h ▸ numbersMessage_fits (by decide)) (by decide)
  · exact fun h => absurd h (by simp)
  · exact fun h => absurd h (by simp)

/-- The answers come back to the closures, the one to the second call first. -/
theorem twoCalls_runs (answer : Option Message)
    (hanswer : answer = none ∨ answer = some (numbersMessage [9])) :
    ∃ s, Runs (RpcSystem.step (wireCodec repeatedInt32Schema))
      (RpcSystem.Allowed (wireCodec repeatedInt32Schema)) (localSystem (wireCodec repeatedInt32Schema)) s ∧
        s.given = [(0, numbersMessage [5]), (1, numbersMessage [])] ∧
        s.answered = [(1, answer), (0, some (numbersMessage [7]))] ∧
        s.client.called =
          [(1, some (answer.getD (numbersMessage []))), (0, some (numbersMessage [7]))] := by
  have hservice : ∀ {i : ℕ} {method : MethodDescriptor},
      (ServiceDescriptor.mk [⟨0, 0⟩]).methods[i]? = some method → method = ⟨0, 0⟩ := fun h =>
    List.mem_singleton.mp (List.mem_of_getElem? h)
  have hnine : Fits repeatedInt32Schema 0 (numbersMessage [9]) := numbersMessage_fits (by decide)
  have hseven : Fits repeatedInt32Schema 0 (numbersMessage [7]) := numbersMessage_fits (by decide)
  have hanswerable : RpcSystem.Answerable (wireCodec repeatedInt32Schema) ⟨0, 0⟩ answer := by
    obtain rfl | rfl := hanswer
    · exact ⟨by decide, numbersMessage [], rfl⟩
    · exact hnine.answerable rfl
  have hwritten : ∃ s, (answeredSystem answer).step (wireCodec repeatedInt32Schema)
      (.serverEvents none (some (.accepts 100))) = .ok s ∧
        s.step (wireCodec repeatedInt32Schema) (.clientEvents none (some 100)) =
          .ok (repliedSystem answer ((answerBytes answer).1 ++ (answerBytes answer).2) 0
            [openClosure 0, openClosure 1] []) := by
    obtain rfl | rfl := hanswer
    · exact ⟨_, rfl, rfl⟩
    · exact ⟨_, rfl, rfl⟩
  have hdelivery : (repliedSystem answer ((answerBytes answer).1 ++ (answerBytes answer).2) 0
      [openClosure 0, openClosure 1] []).client.nextDelivery (wireCodec repeatedInt32Schema) =
        some (⟨1, fun _ => .done⟩, answer.getD (numbersMessage [])) := by
    obtain rfl | rfl := hanswer <;> rfl
  have hreturned : (repliedSystem answer ((answerBytes answer).1 ++ (answerBytes answer).2) 0
      [openClosure 0, openClosure 1] []).step (wireCodec repeatedInt32Schema) .respond =
        .ok (repliedSystem answer (answerBytes answer).2 2 [openClosure 0, .unused 0]
          [(1, some (answer.getD (numbersMessage [])))]) := by
    obtain rfl | rfl := hanswer <;> rfl
  have hlast : (repliedSystem answer (answerBytes answer).2 2 [openClosure 0, .unused 0]
      [(1, some (answer.getD (numbersMessage [])))]).step (wireCodec repeatedInt32Schema) .respond =
        .ok (repliedSystem answer [] 1 [.unused 2, .unused 0]
          [(1, some (answer.getD (numbersMessage []))), (0, some (numbersMessage [7]))]) := by
    obtain rfl | rfl := hanswer <;> rfl
  obtain ⟨s, hwrite, hread⟩ := hwritten
  refine ⟨_, .tail .respond (.tail .respond (.tail (.clientEvents none (some 100))
    (.tail (.serverEvents none (some (.accepts 100)))
      (.tail (t := answeringSystem answer) (.answer 0 (some (numbersMessage [7])) true .whole)
        (.tail (t := givenSystem) (.answer 1 answer true .whole) askedSystem_runs ?_ ?_) ?_ ?_)
      ?_ hwrite) ?_ hread) (allowed_respond hdelivery rfl) hreturned) ?_ hlast, rfl, rfl, rfl⟩
  · exact fun q method _ hmethod => hservice hmethod ▸ hanswerable
  · obtain rfl | rfl := hanswer <;> rfl
  · exact fun q method _ hmethod => hservice hmethod ▸ hseven.answerable rfl
  · obtain rfl | rfl := hanswer <;> rfl
  · exact fun h => absurd h (by simp)
  · exact fun h => absurd h (by simp)
  · exact allowed_respond (show _ = some ((⟨0, fun _ => .done⟩ : Passed Message), numbersMessage [7]) from
      by obtain rfl | rfl := hanswer <;> rfl) rfl

/-- `messages_exact` where the second call is answered first, and with NULL. -/
theorem messages_exact_twoCalls : ∃ s es, Runs (RpcSystem.step (wireCodec repeatedInt32Schema))
    (RpcSystem.Allowed (wireCodec repeatedInt32Schema)) (localSystem (wireCodec repeatedInt32Schema)) s ∧
      s.answered = [(1, none), (0, some (numbersMessage [7]))] ∧
      (localSystem (wireCodec repeatedInt32Schema)).Shows es s ∧
      es.filterMap RpcEvent.given? = [(0, numbersMessage [5]), (1, numbersMessage [])] ∧
      es.filterMap RpcEvent.returned? = [(1, numbersMessage []), (0, numbersMessage [7])] := by
  obtain ⟨s, hruns, hgiven, hanswered, hcalled⟩ := twoCalls_runs none (.inl rfl)
  obtain ⟨es, hshows, -⟩ := messages_exact (localSystem_fresh (wireCodec repeatedInt32Schema)) hruns
  refine ⟨s, es, hruns, hanswered, hshows, hshows.given.symm.trans hgiven, ?_⟩
  have hinj : Function.Injective fun r : ℕ × Message => (r.1, some r.2) := fun r r' heq =>
    Prod.ext (Prod.mk.inj heq).1 (Option.some.inj (Prod.mk.inj heq).2)
  exact List.map_injective_iff.mpr hinj (hshows.called.symm.trans hcalled)

/-- `outcomes_exact` where the answers come in the other order. -/
theorem outcomes_exact_twoCalls : ∃ s es, Runs (RpcSystem.step (wireCodec repeatedInt32Schema))
    (RpcSystem.Allowed (wireCodec repeatedInt32Schema)) (localSystem (wireCodec repeatedInt32Schema)) s ∧
      s.answered = [(1, some (numbersMessage [9])), (0, some (numbersMessage [7]))] ∧
      s.client.called = [(1, some (numbersMessage [9])), (0, some (numbersMessage [7]))] ∧
      (localSystem (wireCodec repeatedInt32Schema)).Shows es s ∧
      ∀ before serial message after, es = before ++ .return_ serial message :: after →
        ∃ call m, Exchange.AnsweredWith (wireCodec repeatedInt32Schema) before call (some m) ∧
          serial = call.serial ∧
            (Fits repeatedInt32Schema call.method.output m → message = m.normal repeatedInt32Schema) := by
  obtain ⟨s, hruns, -, hanswered, hcalled⟩ := twoCalls_runs (some (numbersMessage [9])) (.inr rfl)
  obtain ⟨-, -, -, es, hshows, -, -, hright⟩ :=
    outcomes_exact (localSystem_fresh (wireCodec repeatedInt32Schema)) hruns
  refine ⟨s, es, hruns, hanswered, hcalled, hshows, hright fun a ha => ?_⟩
  rw [hanswered] at ha
  obtain rfl | ha := List.mem_cons.mp ha
  · simp
  · obtain rfl := List.mem_singleton.mp ha
    simp

/-- The service answers the second call with NULL, and its closure is called with a message. -/
theorem outcomes_fail : ∃ s, Runs (RpcSystem.step (wireCodec repeatedInt32Schema))
    (RpcSystem.Allowed (wireCodec repeatedInt32Schema)) (localSystem (wireCodec repeatedInt32Schema)) s ∧
      s.given = [(0, numbersMessage [5]), (1, numbersMessage [])] ∧ (1, none) ∈ s.answered ∧
      (1, some (numbersMessage [])) ∈ s.client.called ∧ (1, none) ∉ s.client.called := by
  obtain ⟨s, hruns, hgiven, hanswered, hcalled⟩ := twoCalls_runs none (.inl rfl)
  exact ⟨s, hruns, hgiven, by simp [hanswered], by simp [hcalled], by simp [hcalled]⟩

end ProtobufC
