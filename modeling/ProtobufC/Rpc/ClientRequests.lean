import ProtobufC.Rpc.ClientRuns
import ProtobufC.Rpc.RemoteCalls

/-! # The calls of a client

What the code of a user leaves in the buffer and in the table of a connected client, call by call: the
bytes of each request behind those that are there, and a closure that waits under a number that no other
call has.
-/

namespace ProtobufC
open Library
set_option autoImplicit false

variable {μ : Type}

/-- The invocations that the code makes, by method and message. -/
def Script.calls : Script μ → List (ℕ × μ)
  | .done => []
  | .invoke methodIndex input _ _ rest => (methodIndex, input) :: rest.calls

namespace ClientWorld
variable {codec : Codec μ} {w w' w'' : ClientWorld μ} {c : ConnectedInfo} {array : List (Closure μ)}
  {free : List (ℕ × Closure μ)} {reclosed : List ℕ} {fd : ℕ} {call : RemoteCall μ}
  {new new' : List (RemoteCall μ)}

/-! ## Waiting for a response -/

/-- The closure of the call is in the table, under the number of the call. -/
def AwaitsReply (w : ClientWorld μ) (call : RemoteCall μ) : Prop :=
  ∃ c array i cl, w.client.info = .connected c ∧ w.arrays.get c.closures = some array ∧
    slotIndex call.requestId = some i ∧ array[i]? = some cl ∧
    cl.responseType = some call.method.output ∧ cl.waiting = some call.serial

theorem Table.unique (h : w.Table c array free) {c' : ConnectedInfo} {array' : List (Closure μ)}
    (hinfo : w.client.info = .connected c') (hget : w.arrays.get c'.closures = some array') :
    c' = c ∧ array' = array := by
  obtain rfl : c = c' := by simpa using h.info.symm.trans hinfo
  exact ⟨rfl, Option.some.inj (hget.symm.trans h.get)⟩

theorem AwaitsReply.entry (h : w.AwaitsReply call) (ht : w.Table c array free) :
    ∃ i cl, slotIndex call.requestId = some i ∧ array[i]? = some cl ∧
      cl.responseType = some call.method.output ∧ cl.waiting = some call.serial := by
  obtain ⟨c', array', i, cl, hinfo, hget, hentry⟩ := h
  obtain ⟨rfl, rfl⟩ := ht.unique hinfo hget
  exact ⟨i, cl, hentry⟩

theorem AwaitsReply.congr (h : w.AwaitsReply call) (hinfo : w'.client.info = w.client.info)
    (harrays : w'.arrays = w.arrays) : w'.AwaitsReply call := by
  obtain ⟨c, array, i, cl, hi, hget, hentry⟩ := h
  exact ⟨c, array, i, cl, hinfo.trans hi, harrays ▸ hget, hentry⟩

/-! ## What code of the user leaves -/

/-- The calls `new` were made. -/
structure Asks (codec : Codec μ) (w w' : ClientWorld μ) (new : List (RemoteCall μ)) : Prop where
  frame : w.SameButRequests w'
  outgoing : w'.client.outgoing = w.client.outgoing ++ new.flatMap (RemoteCall.request codec)
  sent : w'.sent = w.sent ++ new.map fun call => (call.serial, call.requestId)
  invoked : w'.invoked = w.invoked + new.length
  serials : new.map RemoteCall.serial = List.range' w.invoked new.length
  kept : ∀ call, w.AwaitsReply call → w'.AwaitsReply call
  awaits : ∀ call ∈ new, w'.AwaitsReply call
  fresh : ∀ call, w.AwaitsReply call → call.requestId ∉ new.map RemoteCall.requestId
  distinct : (new.map RemoteCall.requestId).Nodup
  methods : ∀ call ∈ new, w.client.service.methods[call.methodIndex]? = some call.method

theorem SameButRequests.service (h : w.SameButRequests w') :
    w'.client.service = w.client.service := by
  obtain ⟨_, _, _, _, _, _, rfl⟩ := h
  rfl

theorem SameButRequests.state (h : w.SameButRequests w') : w'.client.state = w.client.state := by
  obtain ⟨_, _, _, _, _, _, rfl⟩ := h
  rfl

theorem Asks.refl (w : ClientWorld μ) : Asks codec w w [] :=
  ⟨⟨_, _, _, _, _, _, rfl⟩, by simp, by simp, rfl, rfl, fun _ h => h, fun _ h => absurd h List.not_mem_nil,
    fun _ _ => List.not_mem_nil, List.nodup_nil, fun _ h => absurd h List.not_mem_nil⟩

theorem Asks.trans (h : Asks codec w w' new) (h' : Asks codec w' w'' new') :
    Asks codec w w'' (new ++ new') where
  frame := h.frame.trans h'.frame
  outgoing := by rw [h'.outgoing, h.outgoing, List.flatMap_append, List.append_assoc]
  sent := by rw [h'.sent, h.sent, List.map_append, List.append_assoc]
  invoked := by rw [h'.invoked, h.invoked, List.length_append, Nat.add_assoc]
  serials := by
    rw [List.map_append, h.serials, h'.serials, h.invoked, List.length_append, List.range'_append_1]
  kept := fun call hcall => h'.kept call (h.kept call hcall)
  awaits := by
    intro call hcall
    obtain hcall | hcall := List.mem_append.mp hcall
    · exact h'.kept call (h.awaits call hcall)
    · exact h'.awaits call hcall
  fresh := by
    intro call hcall hmem
    rw [List.map_append] at hmem
    obtain hmem | hmem := List.mem_append.mp hmem
    · exact h.fresh call hcall hmem
    · exact h'.fresh call (h.kept call hcall) hmem
  distinct := by
    rw [List.map_append]
    refine h.distinct.append h'.distinct fun id hid hid' => ?_
    obtain ⟨call, hcall, rfl⟩ := List.mem_map.mp hid
    exact h'.fresh call (h.awaits call hcall) hid'
  methods := by
    intro call hcall
    obtain hcall | hcall := List.mem_append.mp hcall
    · exact h.methods call hcall
    · rw [← h.frame.service]
      exact h'.methods call hcall

/-- One request. -/
theorem Enqueued.asks {methodIndex : ℕ} {input : μ} {closure : Option μ → Script μ}
    {c' : ConnectedInfo} {array' : List (Closure μ)} {free' : List (ℕ × Closure μ)} {request_id : UInt32}
    (he : Enqueued { w with invoked := w.invoked + 1 } codec methodIndex input ⟨w.invoked, closure⟩ c array
      free w' c' array' free' request_id)
    (ht : w.Table c array free) : ∃ method,
      Asks codec w w' [⟨w.invoked, request_id, methodIndex, method, input⟩] := by
  obtain ⟨i, method, cl, hid, hmethod, hentry, htype, hclosure⟩ := he.entry
  obtain ⟨arrays, heq⟩ := he.eq
  have hwaiting : cl.waiting = some w.invoked := by
    unfold Closure.waiting
    rw [htype, hclosure]
    rfl
  refine ⟨method, ?_, ?_, ?_, ?_, rfl, fun call hcall => ?_, fun call hcall => ?_,
    fun call hcall hmem => ?_, List.nodup_singleton _, fun call hcall => ?_⟩
  · rw [heq]
    exact ⟨_, _, _, _, _, _, rfl⟩
  · rw [heq, List.flatMap_singleton]
    exact List.append_assoc _ _ _
  · rw [heq]
    rfl
  · rw [heq]
    rfl
  · obtain ⟨j, a, hj, ha, hatype, hawaits⟩ := hcall.entry ht
    exact ⟨c', array', j, a, he.table.info, he.table.get, hj, he.kept j a ha (by rw [hatype]; simp),
      hatype, hawaits⟩
  · obtain rfl := List.mem_singleton.mp hcall
    exact ⟨c', array', i, cl, he.table.info, he.table.get, hid, hentry, htype, hwaiting⟩
  · obtain ⟨j, a, hj, ha, hatype, -⟩ := hcall.entry ht
    rw [List.map_singleton, List.mem_singleton] at hmem
    rw [hmem] at hj
    rw [he.fresh j a hj ha] at hatype
    exact absurd hatype (by simp)
  · obtain rfl := List.mem_singleton.mp hcall
    exact hmethod

/-- What is registered for the connection plays no part. -/
theorem Asks.rewatched (h : Asks codec w w' new) {watched : Registered}
    (heq : w'' = { w' with watched := watched }) : Asks codec w w'' new := by
  subst heq
  obtain ⟨_, _, _, _, _, _, hw'⟩ := h.frame
  refine ⟨?_, h.outgoing, h.sent, h.invoked, h.serials, h.kept, h.awaits, h.fresh, h.distinct, h.methods⟩
  rw [hw']
  exact ⟨_, _, _, _, _, _, rfl⟩

theorem updateConnectedClientWatch_ok_eq (h : w.updateConnectedClientWatch = .ok w') :
    ∃ watched, w' = { w with watched := watched } := by
  unfold updateConnectedClientWatch at h
  by_cases hstate : w.client.state ≠ .connected
  · rw [if_pos hstate] at h
    exact absurd h (by simp)
  · rw [if_neg hstate] at h
    obtain ⟨fd, -, h⟩ := except_bind_eq_ok h
    exact ⟨_, (Except.ok.inj h).symm⟩

theorem invokeClientRpc_asks (h : w.Table c array free) (hstate : w.client.state = .connected)
    {methodIndex : ℕ} (hmethod : methodIndex < w.client.service.nMethods) {input : μ}
    {closure : Option μ → Script μ} {closureData : UInt64}
    {callNow : ClientWorld μ → Except Fault (ClientWorld μ)}
    (hok : invokeClientRpc codec { w with invoked := w.invoked + 1 } methodIndex input
      ⟨w.invoked, closure⟩ closureData callNow = .ok w') :
    ∃ call c' array' free', Asks codec w w' [call] ∧
      (call.methodIndex, call.input) = (methodIndex, input) ∧ w'.Table c' array' free' := by
  have ht : Table { w with invoked := w.invoked + 1 } c array free :=
    ⟨h.info, h.get, h.length, h.pos, h.free⟩
  have hends : Ends (fun _ => True) _ _ := enqueueRequest_spec codec ht hmethod input
    ⟨w.invoked, closure⟩ closureData fun _ _ => trivial
  unfold invokeClientRpc at hok
  simp only [hstate] at hok
  obtain ⟨w₁, hqueue, hok⟩ := except_bind_eq_ok hok
  obtain ⟨c₁, array₁, free₁, request_id, he⟩ := hends.post hqueue
  obtain ⟨method, hasks⟩ := Enqueued.asks he h
  refine ⟨⟨w.invoked, request_id, methodIndex, method, input⟩, c₁, array₁, free₁, ?_, rfl, ?_⟩
  · split_ifs at hok
    · obtain rfl := Except.ok.inj hok
      exact hasks
    · obtain ⟨watched, heq⟩ := updateConnectedClientWatch_ok_eq hok
      exact hasks.rewatched heq
  · split_ifs at hok
    · obtain rfl := Except.ok.inj hok
      exact he.table
    · obtain ⟨watched, rfl⟩ := updateConnectedClientWatch_ok_eq hok
      exact ⟨he.table.info, he.table.get, he.table.length, he.table.pos, he.table.free⟩

/-- Code of the user on a connection asks its calls in order. -/
theorem runScript_asks (script : Script μ) : ∀ {w w' : ClientWorld μ} {c : ConnectedInfo}
    {array : List (Closure μ)} {free : List (ℕ × Closure μ)},
    w.Table c array free → w.client.state = .connected → script.Valid w.client.service.nMethods →
    w.runScript codec script = .ok w' →
    ∃ new, Asks codec w w' new ∧ new.map (fun call => (call.methodIndex, call.input)) = script.calls := by
  induction script with
  | done =>
    intro w w' c array free _ _ _ hok
    obtain rfl := Except.ok.inj hok
    exact ⟨[], .refl _, rfl⟩
  | invoke methodIndex input closure closureData rest _ ihrest =>
    intro w w' c array free h hstate hvalid hok
    obtain ⟨hmethod, -, hrest⟩ := hvalid
    rw [runScript] at hok
    obtain ⟨w₁, hinvoke, hok⟩ := except_bind_eq_ok hok
    obtain ⟨call, c₁, array₁, free₁, hasks, hcall, h₁⟩ := invokeClientRpc_asks h hstate hmethod hinvoke
    obtain ⟨new, hnew, hcalls⟩ := ihrest h₁ (hasks.frame.state.trans hstate)
      (hasks.frame.service ▸ hrest) hok
    refine ⟨call :: new, hasks.trans hnew, ?_⟩
    rw [List.map_cons, hcall, hcalls]
    rfl

/-! ## A connection with calls under way -/

/-- The closures of these calls wait, under different numbers. -/
structure Awaits (w : ClientWorld μ) (calls : List (RemoteCall μ)) : Prop where
  awaits : ∀ call ∈ calls, w.AwaitsReply call
  distinct : (calls.map RemoteCall.requestId).Nodup

/-- The client is connected, and these calls have not returned. -/
structure Carries (w : ClientWorld μ) (calls : List (RemoteCall μ)) : Prop extends w.Awaits calls where
  connected : ∃ reclosed c array free fd, w.Connected reclosed c array free fd

/-- What a step does at the two ends of each buffer, and which calls it makes and returns. -/
structure Move (codec : Codec μ) (w w' : ClientWorld μ) (received taken written : List UInt8)
    (returned : List (ℕ × μ)) (new : List (RemoteCall μ)) : Prop where
  incoming : taken ++ w'.client.incoming = w.client.incoming ++ received
  outgoing : written ++ w'.client.outgoing = w.client.outgoing ++ new.flatMap (RemoteCall.request codec)
  called : w'.called = w.called ++ returned.map fun r => (r.1, some r.2)
  sent : w'.sent = w.sent ++ new.map fun call => (call.serial, call.requestId)
  invoked : w'.invoked = w.invoked + new.length
  serials : new.map RemoteCall.serial = List.range' w.invoked new.length
  service : w'.client.service = w.client.service
  methods : ∀ call ∈ new, w.client.service.methods[call.methodIndex]? = some call.method

/-- The closure that the next round of the loop over the responses calls, and with which message. -/
def nextDelivery (codec : Codec μ) (w : ClientWorld μ) : Option (Passed μ × μ) :=
  if w.client.incoming.length < 16 ∨
      (16 + headerWord w.client.incoming 2).toNat > w.client.incoming.length then none
  else do
    let c ← w.client.info.toConnected.toOption
    let array ← w.arrays.get c.closures
    let cl ← array[← slotIndex (headerWord w.client.incoming 3)]?
    let message ← codec.unpack (← cl.responseType)
      (readBlock (w.client.incoming.drop 16) (headerWord w.client.incoming 2).toNat)
    return (← cl.closure, message)

/-- The code of the user that a step of a connected client runs. -/
def runs (codec : Codec μ) (w : ClientWorld μ) : ClientLabel μ → Script μ
  | .invoke script => if w.usable then script else .done
  | .respond =>
      match w.responding, w.nextDelivery codec with
      | true, some (closure, message) => closure.closure (some message)
      | _, _ => .done
  | .idle _ _ | .resolved _ _ | .connectEvents _ | .events _ _ | .timeout _ _ | .destroy
  | .setAutoreconnect _ | .other _ => .done

variable {calls : List (RemoteCall μ)}

theorem Awaits.congr (h : w.Awaits calls) (hinfo : w'.client.info = w.client.info)
    (harrays : w'.arrays = w.arrays) : w'.Awaits calls :=
  ⟨fun call hcall => (h.awaits call hcall).congr hinfo harrays, h.distinct⟩

theorem Carries.perm {calls' : List (RemoteCall μ)} (h : w.Carries calls) (hperm : calls.Perm calls') :
    w.Carries calls' :=
  ⟨⟨fun call hcall => h.awaits call (hperm.mem_iff.mpr hcall),
    (hperm.map RemoteCall.requestId).nodup_iff.mp h.distinct⟩, h.connected⟩

theorem Move.stay (hincoming : w'.client.incoming = w.client.incoming)
    (houtgoing : w'.client.outgoing = w.client.outgoing) (hcalled : w'.called = w.called)
    (hsent : w'.sent = w.sent) (hinvoked : w'.invoked = w.invoked)
    (hservice : w'.client.service = w.client.service) : Move codec w w' [] [] [] [] [] :=
  ⟨by rw [hincoming, List.append_nil]; rfl, by rw [houtgoing]; simp, by rw [hcalled]; simp,
    by rw [hsent]; simp, hinvoked, rfl, hservice, fun _ hcall => absurd hcall List.not_mem_nil⟩

theorem Asks.move (h : Asks codec w w' new) : Move codec w w' [] [] [] [] new := by
  have hincoming : w'.client.incoming = w.client.incoming := by
    obtain ⟨_, _, _, _, _, _, rfl⟩ := h.frame
    rfl
  have hcalled : w'.called = w.called := by
    obtain ⟨_, _, _, _, _, _, rfl⟩ := h.frame
    rfl
  exact ⟨by rw [hincoming, List.append_nil]; rfl, h.outgoing, by rw [hcalled]; simp, h.sent, h.invoked,
    h.serials, h.frame.service, h.methods⟩

theorem Requested.connected {w w' : ClientWorld μ} {reclosed : List ℕ} {n : ℕ} {c' : ConnectedInfo}
    {array' : List (Closure μ)} {free' : List (ℕ × Closure μ)}
    (hr : Requested w fd n [] c array free w' c' array' free') (hwaits : w.Waits [] [] false false)
    (hholds : w.Holds reclosed none) : w'.Connected reclosed c' array' free' fd := by
  have hwatching := hr.watching
  have htable := hr.table
  have hacc := hr.accounted
  obtain ⟨_, _, _, _, _, _, rfl⟩ := hr.frame
  exact ⟨⟨hwaits.live, hwaits.idles, hwaits.timers, hwaits.resolving, hwaits.released⟩,
    ⟨hholds.sockets, hholds.messages⟩, htable, hwatching, hacc⟩

/-- The calls that were made are under way too. -/
theorem Asks.awaits_append (h : Asks codec w w' new) (hcalls : w.Awaits calls) :
    w'.Awaits (calls ++ new) := by
  refine ⟨fun call hcall => ?_, ?_⟩
  · obtain hcall | hcall := List.mem_append.mp hcall
    · exact h.kept call (hcalls.awaits call hcall)
    · exact h.awaits call hcall
  · rw [List.map_append]
    refine hcalls.distinct.append h.distinct fun id hid hid' => ?_
    obtain ⟨call, hcall, rfl⟩ := List.mem_map.mp hid
    exact h.fresh call (hcalls.awaits call hcall) hid'

/-- The entry of a call that has returned is given back, and the other calls wait on. -/
theorem Released.awaits {i : ℕ} (hr : Released w c array free i call.requestId w')
    (ht : w.Table c array free) (hid : slotIndex call.requestId = some i) (h : w.Awaits (call :: calls)) :
    w'.Awaits calls := by
  have hdistinct := h.distinct
  rw [List.map_cons, List.nodup_cons] at hdistinct
  refine ⟨fun other hother => ?_, hdistinct.2⟩
  obtain ⟨j, cl, hj, hentry, htype, hwaiting⟩ := (h.awaits other (List.mem_cons_of_mem _ hother)).entry ht
  refine ⟨_, _, j, cl, hr.table.info, hr.table.get, hj, ?_, htype, hwaiting⟩
  rw [List.getElem?_set_ne, hentry]
  rintro rfl
  refine hdistinct.1 ?_
  rw [← slotIndex_inj hj hid]
  exact List.mem_map_of_mem hother

/-! ## Steps -/

variable (codec) in
theorem Carries.invoke (h : w.Carries calls) {script : Script μ} (hproper : w.Proper (.invoke script))
    (hroom : w.Room codec (.invoke script)) : ∃ w' new, w.step codec (.invoke script) = .ok w' ∧
      w'.Carries (calls ++ new) ∧ w.Move codec w' [] [] [] [] new ∧
      new.map (fun call => (call.methodIndex, call.input)) = (w.runs codec (.invoke script)).calls := by
  by_cases husable : w.usable = true
  · obtain ⟨reclosed, c, array, free, fd, hconn⟩ := h.connected
    have hfree : freeEntries array = free.length := by
      have hlen := hconn.table.free.length_eq
      unfold freeEntries
      omega
    have hends : Ends (fun _ => False) _ _ := runScript_connected codec script hconn.table hconn.watching
      hconn.accounted hproper fun hfull => hfull
        (hfree ▸ hroom c array hconn.table.state hconn.table.info hconn.table.get)
    obtain ⟨w', hok, c', array', free', hr⟩ := hends.total fun _ => id
    obtain ⟨new, hasks, hcalls⟩ := runScript_asks script hconn.table.toTable hconn.table.state hproper hok
    refine ⟨w', new, (if_pos husable).trans hok,
      ⟨hasks.awaits_append h.toAwaits,
        ⟨reclosed, c', array', free', fd, Requested.connected hr hconn.waits hconn.holds⟩⟩,
      hasks.move, ?_⟩
    rw [hcalls, show w.runs codec (.invoke script) = script from if_pos husable]
  · refine ⟨w, [], if_neg husable, by rwa [List.append_nil], .stay rfl rfl rfl rfl rfl rfl, ?_⟩
    rw [show w.runs codec (.invoke script) = .done from if_neg husable]
    rfl

variable (codec) in
theorem handleClientReadable_alive (w : ClientWorld μ) {readable : Option ReadOutcome}
    (halive : Alive readable) : ∃ responding,
      readable.elim (.ok w) (w.handleClientReadable codec) = .ok { w with
        client := { w.client with incoming := w.client.incoming ++ receivedBytes readable }
        responding := responding } := by
  have hnothing : w.client.incoming ++ [] = w.client.incoming := List.append_nil _
  cases readable with
  | none =>
    refine ⟨w.responding, ?_⟩
    unfold receivedBytes
    rw [hnothing]
    rfl
  | some outcome =>
    cases outcome with
    | fails => exact absurd rfl halive.1
    | ignorable =>
      refine ⟨w.responding, ?_⟩
      unfold receivedBytes
      rw [hnothing]
      rfl
    | received data =>
      cases data with
      | nil => exact absurd rfl halive.2
      | cons b data => exact ⟨true, rfl⟩

variable (codec) in
theorem handleClientWritable_alive (h : w.Connected reclosed c array free fd) (hsent : w.sent ≠ [])
    {outcome : WritevOutcome} (halive : outcome ≠ .fails) :
    ∃ w', w.handleClientWritable codec outcome = .ok (w', true) ∧
      w'.Connected reclosed c array free fd ∧ ∃ watched, w' = { w with
        client := { w.client with outgoing := w.client.outgoing.drop outcome.count }
        watched := watched } := by
  obtain ⟨w', hok, -, hconn⟩ := written_spec h hsent outcome.count rfl
  refine ⟨w', ?_, hconn, ?_⟩
  · cases outcome with
    | fails => exact absurd rfl halive
    | ignorable => exact hok
    | accepts count => exact hok
  · split_ifs at hok
    · obtain ⟨f, -, hok⟩ := except_bind_eq_ok hok
      exact ⟨_, (congrArg Prod.fst (Except.ok.inj hok)).symm⟩
    · exact ⟨w.watched, (congrArg Prod.fst (Except.ok.inj hok)).symm⟩

/-- The dispatcher reports a connection, which is written to and read from. -/
theorem Carries.events (h : w.Carries calls) {writable : Option WritevOutcome}
    {readable : Option ReadOutcome} (hwrites : writable ≠ some .fails) (halive : Alive readable)
    (hcalm : w.responding = false)
    (hregistered : w.registeredFor .clientEvents (reported writable readable) = true) :
    ∃ w', w.step codec (.events writable readable) = .ok w' ∧ w'.Carries calls ∧
      w.Move codec w' (receivedBytes readable) [] (w.client.outgoing.take (writeCount writable)) [] [] := by
  obtain ⟨reclosed, c, array, free, fd, hconn⟩ := h.connected
  obtain ⟨-, -, -, -, -, hsent⟩ := (Inv.connected c array free fd hconn).of_events hregistered
  -- the part for reading begins where the part for writing ends
  obtain ⟨w₁, hok₁, hconn₁, watched, heq⟩ : ∃ w₁, w.handleClientFdEvents codec writable readable =
        readable.elim (.ok w₁) (w₁.handleClientReadable codec) ∧
      w₁.Connected reclosed c array free fd ∧ ∃ watched, w₁ = { w with
        client := { w.client with outgoing := w.client.outgoing.drop (writeCount writable) }
        watched := watched } := by
    unfold handleClientFdEvents
    rw [if_neg (not_not.mpr hconn.table.state)]
    cases writable with
    | none => exact ⟨w, by cases readable <;> rfl, hconn, w.watched, rfl⟩
    | some outcome =>
      obtain ⟨w₁, hok, hconn₁, heq⟩ := handleClientWritable_alive codec hconn hsent
        fun hfails : outcome = .fails => hwrites (congrArg some hfails)
      refine ⟨w₁, ?_, hconn₁, heq⟩
      simp only [hok, except_ok_bind]
      cases readable <;> rfl
  obtain ⟨responding, hok⟩ := handleClientReadable_alive codec w₁ halive
  refine ⟨_, (if_pos ⟨hcalm, hregistered⟩).trans (hok₁.trans hok),
    ⟨h.toAwaits.congr ?_ ?_, ⟨reclosed, c, array, free, fd, hconn₁.buffered _ responding⟩⟩, ?_⟩
  · rw [heq]
  · rw [heq]
  · rw [heq]
    exact ⟨rfl, by simp, by simp, by simp, rfl, rfl, rfl, fun _ hcall => absurd hcall List.not_mem_nil⟩

theorem Delivers.nextDelivery {i : ℕ} {cl : Closure μ} {closure : Passed μ} {msg : μ}
    (h : w.Delivers codec c array i cl closure msg) : w.nextDelivery codec = some (closure, msg) := by
  obtain ⟨type, htype, hmsg⟩ := h.message
  have hwhole : ¬ (w.client.incoming.length < 16 ∨
      (16 + headerWord w.client.incoming 2).toNat > w.client.incoming.length) :=
    not_or.mpr ⟨not_lt.mpr h.header, not_lt.mpr h.whole⟩
  unfold ClientWorld.nextDelivery
  rw [if_neg hwhole, h.info]
  simp only [Info.toConnected, Except.toOption, Option.bind_eq_bind, Option.bind_some, h.get, h.slot,
    h.entry, htype, hmsg, h.closure]
  rfl

theorem runs_respond (hresponding : w.responding = true) {closure : Passed μ} {msg : μ}
    (h : w.nextDelivery codec = some (closure, msg)) :
    w.runs codec .respond = closure.closure (some msg) := by
  dsimp only [runs]
  rw [h, hresponding]

variable (codec) in
/-- The loop over the responses ends where it waits for more bytes. -/
theorem Carries.stops (h : w.Carries calls) (hresponding : w.responding = true)
    (hwait : w.client.incoming.length < 16 ∨
      (16 + headerWord w.client.incoming 2).toNat > w.client.incoming.length) :
    ∃ w', w.step codec .respond = .ok w' ∧ w'.Carries calls ∧ w.Move codec w' [] [] [] [] [] ∧
      (w.runs codec .respond).calls = [] := by
  obtain ⟨reclosed, c, array, free, fd, hconn⟩ := h.connected
  refine ⟨w.stopResponding, ?_, ⟨h.toAwaits.congr rfl rfl, ⟨reclosed, c, array, free, fd,
    hconn.buffered w.client.incoming false⟩⟩, .stay rfl rfl rfl rfl rfl rfl, ?_⟩
  swap
  · have hnone : w.nextDelivery codec = none := if_pos hwait
    dsimp only [runs]
    rw [hnone, hresponding]
    rfl
  refine (if_pos hresponding).trans ?_
  unfold respond
  by_cases hheader : w.client.incoming.length < 16
  · simp only [if_pos hheader]
    rfl
  · simp only [if_neg hheader, if_pos (hwait.resolve_left hheader)]
    rfl

theorem closure_of_waiting {cl : Closure μ} {k : ℕ} (h : cl.waiting = some k) :
    ∃ passed, cl.closure = some passed ∧ passed.serial = k := by
  unfold Closure.waiting at h
  cases htype : cl.responseType with
  | none =>
    rw [htype] at h
    exact absurd h (by simp)
  | some type =>
    rw [htype] at h
    exact Option.map_eq_some_iff.mp h

/-- The response to a call is at the front of the buffer, and its closure is what is called next. -/
theorem AwaitsReply.delivers (h : w.AwaitsReply call) (ht : w.Table c array free) {answer : Option μ}
    {more : List UInt8} (hin : w.client.incoming = call.response codec answer ++ more)
    (hsmall : 16 + (codec.reply answer).length < 2 ^ 32) {msg : μ}
    (hread : codec.unpack call.method.output (codec.reply answer) = some msg) :
    ∃ i cl closure, w.Delivers codec c array i cl closure msg ∧ closure.serial = call.serial := by
  obtain ⟨i, cl, hslot, hentry, htype, hwaiting⟩ := h.entry ht
  obtain ⟨closure, hclosure, hserial⟩ := closure_of_waiting hwaiting
  have hlength := call.length_response codec answer
  have hsize : (headerWord w.client.incoming 2).toNat = (codec.reply answer).length := by
    rw [hin, (call.headerWord_response codec answer more).1, UInt32.toNat_ofNat',
      Nat.mod_eq_of_lt (by omega)]
  refine ⟨i, cl, closure, ⟨ht.info, ht.get, ?_, ?_, ?_, hentry, hclosure, call.method.output, htype, ?_⟩,
    hserial⟩
  · rw [hin, List.length_append, hlength]
    omega
  · rw [UInt32.toNat_add, hsize, hin, List.length_append, hlength]
    show (16 + _) % 2 ^ 32 ≤ _
    omega
  · rw [hin, (call.headerWord_response codec answer more).2]
    exact hslot
  · rw [hsize, hin, call.drop_response, readBlock_append]
    exact hread

theorem delivering_incoming {answer : Option μ} {more : List UInt8}
    (hin : w.client.incoming = call.response codec answer ++ more)
    (hsmall : 16 + (codec.reply answer).length < 2 ^ 32) (closure : Passed μ) (msg : μ) :
    (w.delivering closure msg).client.incoming = more := by
  show (w.client.incoming.drop 16).drop (headerWord w.client.incoming 2).toNat = more
  rw [hin, (call.headerWord_response codec answer more).1, call.drop_response, UInt32.toNat_ofNat',
    Nat.mod_eq_of_lt (by omega), List.drop_left]

/-- A response is delivered: the call returns, and its closure may make others. -/
theorem Carries.returns (h : w.Carries (call :: calls)) (hresponding : w.responding = true)
    (hroom : w.Room codec .respond) {answer : Option μ} {more : List UInt8}
    (hin : w.client.incoming = call.response codec answer ++ more)
    (hsmall : 16 + (codec.reply answer).length < 2 ^ 32) {msg : μ}
    (hread : codec.unpack call.method.output (codec.reply answer) = some msg) :
    ∃ w' new, w.step codec .respond = .ok w' ∧ w'.Carries (calls ++ new) ∧
      w.Move codec w' [] (call.response codec answer) [] [(call.serial, msg)] new ∧
      new.map (fun call => (call.methodIndex, call.input)) = (w.runs codec .respond).calls := by
  obtain ⟨reclosed, c, array, free, fd, hconn⟩ := h.connected
  obtain ⟨i, cl, closure, hd, hserial⟩ :=
    (h.awaits call List.mem_cons_self).delivers hconn.table.toTable hin hsmall hread
  have hfits := hroom c array i cl closure msg hd
  have hid : headerWord w.client.incoming 3 = call.requestId := by
    rw [hin, (call.headerWord_response codec answer more).2]
  have hslot := hd.slot
  rw [hid] at hslot
  obtain ⟨type, htype, -⟩ := hd.message
  have hfree : freeEntries array = free.length := by
    have hlen := hconn.table.free.length_eq
    unfold freeEntries
    omega
  obtain ⟨w', hok, hdelivered⟩ := respond_fits codec hconn hd hfits
  have hsteps := hok
  rw [respond_delivers codec hconn.table.toTable hd, hid] at hsteps
  obtain ⟨w₂, hrun, hrelease⟩ := except_bind_eq_ok hsteps
  -- the closure runs while the entry of its call is still in use
  have hends : Ends (fun _ => False) _ _ := runScript_delivering codec hconn hd fun hfull => hfull hfits
  obtain ⟨c₂, array₂, free₂, h₂⟩ := hends.post hrun
  have hvalid := hconn.table.valid cl (List.mem_of_getElem? hd.entry) closure hd.closure (some msg)
  have htable : (w.delivering closure msg).Table c array free :=
    ⟨hconn.table.info, hconn.table.get, hconn.table.length, hconn.table.pos, hconn.table.free⟩
  obtain ⟨new, hasks, hcalls⟩ := runScript_asks _ htable hconn.table.state hvalid hrun
  have hsame : c₂.closures = c.closures := by
    obtain ⟨hsame, -⟩ | ⟨hfull, -⟩ := h₂.room
    · exact hsame
    · omega
  obtain ⟨w₃, hok₃, hr⟩ := releaseClosure_table h₂.table.toTable hslot
    (h₂.kept i cl hd.entry (by rw [htype]; simp)) (by rw [htype]; simp)
  rw [hsame, hrelease] at hok₃
  obtain rfl := Except.ok.inj hok₃
  have hdelivering : (w.delivering closure msg).Awaits (call :: calls) := h.toAwaits.congr rfl rfl
  have hawaits : w₂.Awaits (call :: (calls ++ new)) := hasks.awaits_append hdelivering
  have hmove := hasks.move
  obtain ⟨arrays, heq⟩ := hr.eq
  have hresponding₂ : w₂.responding = true := by
    obtain ⟨_, _, _, _, _, _, rfl⟩ := hasks.frame
    exact hresponding
  obtain ⟨c', array', free', fd', hconn'⟩ := hdelivered.inv.of_responding (by rw [heq]; exact hresponding₂)
  refine ⟨w', new, (if_pos hresponding).trans hok,
    ⟨Released.awaits hr h₂.table.toTable hslot hawaits, ⟨reclosed, c', array', free', fd', hconn'⟩⟩,
    ⟨?_, ?_, ?_, ?_, ?_, ?_, ?_, ?_⟩, ?_⟩
  · have hincoming : w₂.client.incoming = (w.delivering closure msg).client.incoming := by
      have := hmove.incoming
      rwa [List.nil_append, List.append_nil] at this
    rw [heq, List.append_nil]
    show call.response codec answer ++ w₂.client.incoming = _
    rw [hincoming, delivering_incoming hin hsmall, hin]
  · rw [heq]
    exact hmove.outgoing
  · rw [hdelivered.called, hserial]
    rfl
  · rw [heq]
    exact hmove.sent
  · rw [heq]
    exact hmove.invoked
  · exact hmove.serials
  · rw [heq]
    exact hmove.service
  · exact hmove.methods
  · rw [hcalls, runs_respond hresponding hd.nextDelivery]

end ClientWorld

end ProtobufC
