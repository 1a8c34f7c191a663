import ProtobufC.Rpc.ClientMachine
import ProtobufC.Rpc.Framing

/-! # Responses that come in pieces

A client reads its stream in pieces, and the loop over the responses runs after each of them.  A round of
the loop is one delivery of a frame (`respond_setIncoming`), because nothing that a round does looks at the
rest of the buffer; so the client ends where one that is given the whole stream at once ends, as long as
no header makes the size test wrap (`readResponses_exact_iff`).
-/

namespace ProtobufC
open Library
set_option autoImplicit false

variable {μ : Type} (codec : Codec μ)

namespace ClientWorld
variable {codec}

/-! ## The loop of the client -/

/-- The loop over the responses. -/
def responseLoop (codec : Codec μ) : ℕ → ClientWorld μ → Except Fault (ClientWorld μ)
  | 0, w => if w.responding then .error .hang else .ok w
  | fuel + 1, w => if w.responding then do responseLoop codec fuel (← w.respond codec) else .ok w

/-- `handle_client_fd_events` is called for every piece, as long as the client is connected. -/
def readResponses (codec : Codec μ) : List (List UInt8) → ClientWorld μ → Except Fault (ClientWorld μ)
  | [], w => .ok w
  | piece :: pieces, w =>
      if w.client.state = .connected then do
        let w ← w.handleClientFdEvents codec none (some (.received piece))
        let w ← w.responseLoop codec (w.client.incoming.length + 1)
        readResponses codec pieces w
      else .ok w

def setIncoming (w : ClientWorld μ) (bs : List UInt8) : ClientWorld μ :=
  { w with client := { w.client with incoming := bs } }

/-- What is done with a response; false when the client has failed. -/
def deliverResponse (codec : Codec μ) (w : ClientWorld μ) (frame : RpcFrame) :
    Except Fault (ClientWorld μ × Bool) := do
  let request_id := headerWord frame.header 3
  let c ← w.client.info.toConnected
  let array ← w.arrays.load c.closures
  if request_id > c.closuresAlloced ∨ request_id = 0 then
    return (← w.stopResponding.clientFailed codec "bad request-id in response from server", false)
  else
    let cl ← readAtIndex array (request_id - 1).toNat
    match cl.responseType with
    | none =>
        return (← w.stopResponding.clientFailed codec "bad request-id in response from server", false)
    | some responseType =>
        match codec.unpack responseType frame.payload with
        | none => return (← w.stopResponding.clientFailed codec "failed to unpack message", false)
        | some msg =>
            match cl.closure with
            | none => .error .access
            | some closure => do
                let w ← w.callClosure codec closure (some msg)
                return (← w.releaseClosure c.closures request_id, true)

/-- The stream is taken apart at once, and its responses are delivered in order. -/
def parseResponses (codec : Codec μ) (w : ClientWorld μ) (stream : List UInt8) :
    Except Fault (ClientWorld μ) := do
  let (frames, rest) := responseFormat.exact.parse stream
  let (w, go) ← FrameReader.deliverAll (deliverResponse codec) frames { w with responding := true }
  return if go then (w.setIncoming rest).stopResponding else w

/-! ## What does not look at the buffer -/

variable {w w' : ClientWorld μ}

theorem growClosureArray_setIncoming (w : ClientWorld μ) (bs : List UInt8) :
    (w.setIncoming bs).growClosureArray = w.growClosureArray.map (·.setIncoming bs) := by
  refine except_bind_eq_map fun c => except_bind_eq_map fun old => ?_
  split_ifs
  · rfl
  · exact except_bind_eq_map fun arrays => rfl

variable (codec) in
theorem enqueueRequest_setIncoming (w : ClientWorld μ) (bs : List UInt8) (methodIndex : ℕ) (input : μ)
    (closure : Passed μ) (closureData : UInt64) :
    (w.setIncoming bs).enqueueRequest codec methodIndex input closure closureData =
      (w.enqueueRequest codec methodIndex input closure closureData).map (·.setIncoming bs) := by
  have hmethods : (w.setIncoming bs).client.service.methods[methodIndex]? =
    w.client.service.methods[methodIndex]? := rfl
  unfold enqueueRequest
  rw [hmethods]
  cases w.client.service.methods[methodIndex]? with
  | none => rfl
  | some method =>
    refine except_bind_eq_map fun c => ?_
    dsimp only
    split_ifs
    · rw [growClosureArray_setIncoming]
      exact except_map_bind_eq fun w => except_bind_eq_map fun c => except_bind_eq_map fun closures =>
        except_bind_eq_map fun cl => except_bind_eq_map fun arrays => rfl
    · exact except_map_bind_eq (x := pure w) (k := (·.setIncoming bs)) fun w => except_bind_eq_map fun c =>
        except_bind_eq_map fun closures => except_bind_eq_map fun cl => except_bind_eq_map fun arrays => rfl

theorem updateConnectedClientWatch_setIncoming (w : ClientWorld μ) (bs : List UInt8) :
    (w.setIncoming bs).updateConnectedClientWatch =
      w.updateConnectedClientWatch.map (·.setIncoming bs) := by
  have hstate : (w.setIncoming bs).client.state = w.client.state := rfl
  have houtgoing : (w.setIncoming bs).client.outgoing = w.client.outgoing := rfl
  unfold updateConnectedClientWatch
  rw [hstate, houtgoing]
  split_ifs
  · rfl
  · exact except_bind_eq_map fun fd => rfl
  · exact except_bind_eq_map fun fd => rfl

variable (codec) in
theorem invokeClientRpc_setIncoming (w : ClientWorld μ) (bs : List UInt8) (methodIndex : ℕ) (input : μ)
    (closure : Passed μ) (closureData : UInt64) (callNow : ClientWorld μ → Except Fault (ClientWorld μ))
    (hcall : ∀ w, callNow (w.setIncoming bs) = (callNow w).map (·.setIncoming bs)) :
    (w.setIncoming bs).invokeClientRpc codec methodIndex input closure closureData callNow =
      (w.invokeClientRpc codec methodIndex input closure closureData callNow).map (·.setIncoming bs) := by
  have hstate : (w.setIncoming bs).client.state = w.client.state := rfl
  have houtgoing : (w.setIncoming bs).client.outgoing = w.client.outgoing := rfl
  have hqueue := enqueueRequest_setIncoming codec w bs methodIndex input closure closureData
  unfold invokeClientRpc
  rw [hstate, houtgoing, hqueue]
  cases w.client.state with
  | init => rfl
  | nameLookup => rfl
  | connecting => rfl
  | connected =>
    refine except_map_bind_eq fun w => ?_
    split_ifs
    · rfl
    · exact updateConnectedClientWatch_setIncoming w bs
  | failedWaiting => exact hcall w
  | failed => exact hcall w
  | destroyed => exact hcall w

/-- Code of the user does not look at the buffer. -/
theorem runScript_setIncoming (script : Script μ) (w : ClientWorld μ) (bs : List UInt8) :
    (w.setIncoming bs).runScript codec script = (w.runScript codec script).map (·.setIncoming bs) := by
  induction script generalizing w with
  | done => rfl
  | invoke methodIndex input closure closureData rest ihclosure ihrest =>
    unfold runScript
    have hinvoke := invokeClientRpc_setIncoming codec { w with invoked := w.invoked + 1 } bs
      methodIndex input ⟨w.invoked, closure⟩ closureData
      (fun w' => runScript codec (closure none) (w'.record w.invoked none))
      fun w' => ihclosure none (w'.record w.invoked none)
    refine Eq.trans (congrArg (· >>= _) hinvoke) (except_map_bind_eq fun w => ihrest w)

theorem abandonFd_setIncoming (w : ClientWorld μ) (bs : List UInt8) :
    (w.setIncoming bs).abandonFd = w.abandonFd.setIncoming bs := by
  unfold abandonFd
  have hfd : (w.setIncoming bs).client.fd = w.client.fd := rfl
  rw [hfd]
  cases w.client.fd with
  | none => rfl
  | some fd => rfl

/-- A client that fails drops what is in its buffer. -/
theorem clientFailed_setIncoming (codec : Codec μ) (w : ClientWorld μ) (bs : List UInt8)
    (format_str : String) :
    (w.setIncoming bs).clientFailed codec format_str = w.clientFailed codec format_str := by
  unfold clientFailed
  simp only [abandonFd_setIncoming]
  rfl

/-! ## What ends the loop -/

/-- What the loop looks at is the same. -/
structure SameLoop (w w' : ClientWorld μ) : Prop where
  state : w'.client.state = w.client.state
  responding : w'.responding = w.responding

theorem SameLoop.trans {w'' : ClientWorld μ} (h : SameLoop w w') (h' : SameLoop w' w'') :
    SameLoop w w'' := ⟨h'.state.trans h.state, h'.responding.trans h.responding⟩

theorem growClosureArray_sameLoop (h : w.growClosureArray = .ok w') : SameLoop w w' := by
  unfold growClosureArray at h
  obtain ⟨c, -, h⟩ := except_bind_eq_ok h
  obtain ⟨old, -, h⟩ := except_bind_eq_ok h
  dsimp only at h
  split_ifs at h
  obtain ⟨arrays, -, h⟩ := except_bind_eq_ok h
  obtain rfl := Except.ok.inj h
  exact ⟨rfl, rfl⟩

theorem enqueueRequest_sameLoop {methodIndex : ℕ} {input : μ} {closure : Passed μ} {closureData : UInt64}
    (h : w.enqueueRequest codec methodIndex input closure closureData = .ok w') : SameLoop w w' := by
  unfold enqueueRequest at h
  cases hmethod : w.client.service.methods[methodIndex]? with
  | none =>
    rw [hmethod] at h
    exact absurd h (by simp)
  | some method =>
    rw [hmethod] at h
    obtain ⟨c, -, h⟩ := except_bind_eq_ok h
    dsimp only at h
    obtain ⟨w₁, hgrown, h⟩ : ∃ w₁, SameLoop w w₁ ∧ (do
        let c ← w₁.client.info.toConnected
        let closures ← w₁.arrays.load c.closures
        let cl ← readAtIndex closures (c.firstFreeRequestId - 1).toNat
        let arrays ← w₁.arrays.modify c.closures fun closures =>
          closures.set (c.firstFreeRequestId - 1).toNat ⟨some method.output, some closure, closureData⟩
        return { w₁ with
          arrays := arrays
          client := { w₁.client with
            info := .connected { c with firstFreeRequestId := pointerToUint cl.closureData }
            outgoing := w₁.client.outgoing ++ headerBytes [UInt32.ofNat methodIndex,
              UInt32.ofNat (codec.pack input).length, c.firstFreeRequestId] ++ codec.pack input }
          sent := w₁.sent ++ [(closure.serial, c.firstFreeRequestId)] }) = .ok w' := by
      split_ifs at h
      · obtain ⟨w₁, hgrow, h⟩ := except_bind_eq_ok h
        exact ⟨w₁, growClosureArray_sameLoop hgrow, h⟩
      · exact ⟨w, ⟨rfl, rfl⟩, h⟩
    obtain ⟨c, -, h⟩ := except_bind_eq_ok h
    obtain ⟨closures, -, h⟩ := except_bind_eq_ok h
    obtain ⟨cl, -, h⟩ := except_bind_eq_ok h
    obtain ⟨arrays, -, h⟩ := except_bind_eq_ok h
    obtain rfl := Except.ok.inj h
    exact ⟨hgrown.state, hgrown.responding⟩

theorem updateConnectedClientWatch_sameLoop (h : w.updateConnectedClientWatch = .ok w') :
    SameLoop w w' := by
  unfold updateConnectedClientWatch at h
  by_cases hstate : w.client.state ≠ .connected
  · rw [if_pos hstate] at h
    exact absurd h (by simp)
  · rw [if_neg hstate] at h
    obtain ⟨fd, -, h⟩ := except_bind_eq_ok h
    obtain rfl := Except.ok.inj h
    exact ⟨rfl, rfl⟩

theorem invokeClientRpc_sameLoop {methodIndex : ℕ} {input : μ} {closure : Passed μ}
    {closureData : UInt64} {callNow : ClientWorld μ → Except Fault (ClientWorld μ)}
    (hcall : callNow w = .ok w' → SameLoop w w')
    (h : w.invokeClientRpc codec methodIndex input closure closureData callNow = .ok w') :
    SameLoop w w' := by
  unfold invokeClientRpc at h
  cases hstate : w.client.state with
  | init => rw [hstate] at h; exact enqueueRequest_sameLoop h
  | nameLookup => rw [hstate] at h; exact enqueueRequest_sameLoop h
  | connecting => rw [hstate] at h; exact enqueueRequest_sameLoop h
  | connected =>
    rw [hstate] at h
    obtain ⟨w₁, hqueue, h⟩ := except_bind_eq_ok h
    have hqueued := enqueueRequest_sameLoop hqueue
    split_ifs at h
    · obtain rfl := Except.ok.inj h
      exact hqueued
    · exact hqueued.trans (updateConnectedClientWatch_sameLoop h)
  | failedWaiting => rw [hstate] at h; exact hcall h
  | failed => rw [hstate] at h; exact hcall h
  | destroyed => rw [hstate] at h; exact hcall h

theorem runScript_sameLoop {script : Script μ} (h : w.runScript codec script = .ok w') :
    SameLoop w w' := by
  induction script generalizing w w' with
  | done =>
    obtain rfl := Except.ok.inj h
    exact ⟨rfl, rfl⟩
  | invoke methodIndex input closure closureData rest ihclosure ihrest =>
    unfold runScript at h
    obtain ⟨w₁, hinvoke, h⟩ := except_bind_eq_ok h
    have hinvoked : SameLoop { w with invoked := w.invoked + 1 } w₁ := by
      refine invokeClientRpc_sameLoop (fun hcall => ?_) hinvoke
      have hcalled := ihclosure none hcall
      exact ⟨hcalled.state, hcalled.responding⟩
    exact SameLoop.trans ⟨hinvoked.state, hinvoked.responding⟩ (ihrest h)

theorem callClosures_sameLoop {closures : List (Closure μ)} (h : callClosures codec closures w = .ok w') :
    SameLoop w w' := by
  induction closures generalizing w with
  | nil =>
    obtain rfl := Except.ok.inj h
    exact ⟨rfl, rfl⟩
  | cons cl closures ih =>
    unfold callClosures at h
    cases htype : cl.responseType with
    | none =>
      simp only [htype] at h
      exact ih h
    | some responseType =>
      cases hclosure : cl.closure with
      | none =>
        simp only [htype, hclosure] at h
        exact absurd h (by simp)
      | some closure =>
        simp only [htype, hclosure] at h
        obtain ⟨w₁, hcall, h⟩ := except_bind_eq_ok h
        have hcalled : SameLoop (w.record closure.serial none) w₁ := runScript_sameLoop hcall
        exact SameLoop.trans ⟨hcalled.state, hcalled.responding⟩ (ih h)

theorem abandonClosures_sameLoop {closures : Option ConnectedInfo}
    (h : w.abandonClosures codec closures = .ok w') : SameLoop w w' := by
  unfold abandonClosures at h
  cases closures with
  | none =>
    obtain rfl := Except.ok.inj h
    exact ⟨rfl, rfl⟩
  | some c =>
    obtain ⟨array, -, h⟩ := except_bind_eq_ok h
    split_ifs at h
    obtain ⟨w₁, hcalls, h⟩ := except_bind_eq_ok h
    obtain ⟨arrays, -, h⟩ := except_bind_eq_ok h
    obtain rfl := Except.ok.inj h
    have hcalled := callClosures_sameLoop hcalls
    exact ⟨hcalled.state, hcalled.responding⟩

theorem abandonFd_responding (w : ClientWorld μ) : w.abandonFd.responding = w.responding := by
  unfold abandonFd
  cases w.client.fd with
  | none => rfl
  | some fd => rfl

/-- A client that has failed is not connected. -/
theorem clientFailed_ends {format_str : String} (h : w.clientFailed codec format_str = .ok w') :
    w'.client.state ≠ .connected ∧ w'.responding = w.responding := by
  unfold clientFailed at h
  obtain ⟨closures, -, h⟩ := except_bind_eq_ok h
  have hsame := abandonClosures_sameLoop h
  rw [hsame.state, hsame.responding]
  split_ifs
  · exact ⟨by simp, abandonFd_responding w⟩
  · exact ⟨by simp, abandonFd_responding w⟩

/-! ## Rounds of the loop -/

variable (codec) in
theorem callClosure_setIncoming (w : ClientWorld μ) (bs : List UInt8) (closure : Passed μ)
    (message : Option μ) : (w.setIncoming bs).callClosure codec closure message =
      (w.callClosure codec closure message).map (·.setIncoming bs) :=
  runScript_setIncoming (closure.closure message) (w.record closure.serial message) bs

theorem releaseClosure_setIncoming (w : ClientWorld μ) (bs : List UInt8) (closures : ℕ)
    (request_id : UInt32) : (w.setIncoming bs).releaseClosure closures request_id =
      (w.releaseClosure closures request_id).map (·.setIncoming bs) :=
  except_bind_eq_map fun _ => except_bind_eq_map fun _ => rfl

theorem failed_setIncoming (w : ClientWorld μ) (bs : List UInt8) (format_str : String) :
    (w.setIncoming bs).stopResponding.clientFailed codec format_str =
      w.stopResponding.clientFailed codec format_str :=
  clientFailed_setIncoming codec w.stopResponding bs format_str

/-- A round of the loop delivers the frame at the front of the buffer, if there is one. -/
theorem respond_setIncoming (w : ClientWorld μ) (bs : List UInt8) :
    (w.setIncoming bs).respond codec = match responseFormat.loop.take bs with
      | none => .ok (w.setIncoming bs).stopResponding
      | some (frame, rest) => do
          let (w, go) ← w.deliverResponse codec frame
          return if go then w.setIncoming rest else w := by
  have hincoming : (w.setIncoming bs).client.incoming = bs := rfl
  have hinfo : (w.setIncoming bs).client.info = w.client.info := rfl
  have harrays : (w.setIncoming bs).arrays = w.arrays := rfl
  have htake : responseFormat.loop.take bs = if bs.length < 16 then none
    else if bs.length < (16 + headerWord bs 2).toNat then none
    else some (⟨bs.take 16, readBlock (bs.drop 16) (headerWord bs 2).toNat⟩,
      (bs.drop 16).drop (headerWord bs 2).toNat) := rfl
  unfold respond
  rw [htake, hincoming, hinfo, harrays]
  by_cases hshort : bs.length < 16
  · rw [if_pos hshort, if_pos hshort]
    rfl
  rw [if_neg hshort, if_neg hshort]
  by_cases hwait : bs.length < (16 + headerWord bs 2).toNat
  · rw [if_pos hwait]
    dsimp only
    rw [if_pos hwait]
    rfl
  rw [if_neg hwait]
  dsimp only
  rw [if_neg hwait]
  have hword : headerWord (bs.take 16) 3 = headerWord bs 3 :=
    FrameFormat.headerWord_take (by omega) (by omega)
  unfold deliverResponse
  simp only [hword]
  cases w.client.info.toConnected with
  | error e => rfl
  | ok c =>
    simp only [except_ok_bind]
    cases w.arrays.load c.closures with
    | error e => rfl
    | ok array =>
      simp only [except_ok_bind, failed_setIncoming]
      split_ifs
      · exact FrameReader.refused_eq _ fun w : ClientWorld μ => w.setIncoming _
      · cases readAtIndex array (headerWord bs 3 - 1).toNat with
        | error e => rfl
        | ok cl =>
          simp only [except_ok_bind]
          cases cl.responseType with
          | none => exact FrameReader.refused_eq _ fun w : ClientWorld μ => w.setIncoming _
          | some responseType =>
            dsimp only
            cases codec.unpack responseType
                (readBlock (bs.drop 16) (headerWord bs 2).toNat) with
            | none =>
              exact (failed_setIncoming w ((bs.drop 16).drop (headerWord bs 2).toNat) _).trans
                (FrameReader.refused_eq _ fun w : ClientWorld μ => w.setIncoming _)
            | some msg =>
              cases cl.closure with
              | none => rfl
              | some closure =>
                have hcall := callClosure_setIncoming codec w
                  ((bs.drop 16).drop (headerWord bs 2).toNat) closure (some msg)
                refine Eq.trans (congrArg (· >>= _) hcall) ?_
                dsimp only
                cases w.callClosure codec closure (some msg) with
                | error e => rfl
                | ok w₁ =>
                  refine (releaseClosure_setIncoming w₁ _ _ _).trans ?_
                  simp only [except_ok_bind]
                  cases w₁.releaseClosure c.closures (headerWord bs 3) with
                  | error e => rfl
                  | ok w₂ => rfl

/-! ## The stream of the client -/

/-- The client behind the frames of a piece: what is left goes back into the buffer. -/
def resume (r : ClientWorld μ × Option (List UInt8)) : ClientWorld μ :=
  match r.2 with
  | none => r.1
  | some rest => (r.1.setIncoming rest).stopResponding

/-- The loop goes on, or the client has failed. -/
structure Looping (w : ClientWorld μ) (go : Bool) : Prop where
  state : w.client.state = .connected ↔ go = true
  responding : w.responding = go

theorem releaseClosure_sameLoop {closures : ℕ} {request_id : UInt32}
    (h : w.releaseClosure closures request_id = .ok w') : SameLoop w w' := by
  unfold releaseClosure at h
  obtain ⟨c, -, h⟩ := except_bind_eq_ok h
  obtain ⟨arrays, -, h⟩ := except_bind_eq_ok h
  obtain rfl := Except.ok.inj h
  exact ⟨rfl, rfl⟩

theorem failed_looping {format_str : String} {go : Bool}
    (h : (do return (← w.stopResponding.clientFailed codec format_str, false)) = Except.ok (w', go)) :
    w'.Looping go := by
  obtain ⟨w₁, hfailed, h⟩ := except_bind_eq_ok h
  obtain ⟨rfl, rfl⟩ := Prod.mk.inj (Except.ok.inj h)
  obtain ⟨hstate, hresponding⟩ := clientFailed_ends hfailed
  exact ⟨⟨fun heq => absurd heq hstate, fun heq => absurd heq (by simp)⟩, hresponding⟩

theorem deliverResponse_looping (w : ClientWorld μ) (frame : RpcFrame) (w' : ClientWorld μ) (go : Bool)
    (hw : w.Looping true) (h : w.deliverResponse codec frame = .ok (w', go)) : w'.Looping go := by
  unfold deliverResponse at h
  obtain ⟨c, -, h⟩ := except_bind_eq_ok h
  obtain ⟨array, -, h⟩ := except_bind_eq_ok h
  by_cases hbad : headerWord frame.header 3 > c.closuresAlloced ∨ headerWord frame.header 3 = 0
  · rw [if_pos hbad] at h
    exact failed_looping h
  · rw [if_neg hbad] at h
    obtain ⟨cl, -, h⟩ := except_bind_eq_ok h
    cases htype : cl.responseType with
    | none =>
      rw [htype] at h
      exact failed_looping h
    | some responseType =>
      simp only [htype] at h
      cases hunpack : codec.unpack responseType frame.payload with
      | none =>
        rw [hunpack] at h
        exact failed_looping h
      | some msg =>
        simp only [hunpack] at h
        cases hclosure : cl.closure with
        | none =>
          rw [hclosure] at h
          exact absurd h (by simp)
        | some closure =>
          rw [hclosure] at h
          obtain ⟨w₁, hcall, h⟩ := except_bind_eq_ok h
          obtain ⟨w₂, hrelease, h⟩ := except_bind_eq_ok h
          obtain ⟨rfl, rfl⟩ := Prod.mk.inj (Except.ok.inj h)
          have hcalled : SameLoop (w.record closure.serial (some msg)) w₁ := runScript_sameLoop hcall
          have hsame := hcalled.trans (releaseClosure_sameLoop hrelease)
          exact ⟨hsame.state ▸ hw.state, hsame.responding.trans hw.responding⟩

theorem responseLoop_of_stopped (fuel : ℕ) (h : w.responding = false) :
    w.responseLoop codec fuel = .ok w := by
  cases fuel with
  | zero => exact if_neg (by simp [h])
  | succ fuel => exact if_neg (by simp [h])

variable (codec) in
/-- The loop delivers the frames of the buffer, as its size tests see them. -/
theorem responseLoop_eq {fuel : ℕ} {bs : List UInt8} (hfuel : bs.length < fuel) (hw : w.Looping true) :
    (w.setIncoming bs).responseLoop codec fuel =
      (responseFormat.loop.drain (deliverResponse codec) w bs).map resume := by
  have hresponding : (w.setIncoming bs).responding = true := hw.responding
  obtain ⟨fuel, rfl⟩ : ∃ n, fuel = n + 1 := ⟨fuel - 1, by omega⟩
  unfold responseLoop
  rw [if_pos hresponding, respond_setIncoming]
  induction bs using FrameReader.induction (R := responseFormat.loop) generalizing w fuel with
  | hnone bs hnone =>
    rw [FrameReader.drain_of_none hnone, hnone]
    exact responseLoop_of_stopped fuel rfl
  | hsome bs frame rest hsome ih =>
    rw [FrameReader.drain_of_some hsome, hsome]
    dsimp only
    cases hdeliver : w.deliverResponse codec frame with
    | error e => rfl
    | ok r =>
      obtain ⟨w', go⟩ := r
      have hw' := deliverResponse_looping w frame w' go hw hdeliver
      simp only [except_ok_bind]
      cases go with
      | true =>
        have hshorter := responseFormat.loop.shrinks hsome
        obtain ⟨fuel, rfl⟩ : ∃ n, fuel = n + 1 := ⟨fuel - 1, by omega⟩
        have hstep := ih hw' hw'.responding fuel (by omega)
        simp only [if_true]
        rw [← hstep, ← respond_setIncoming]
        exact if_pos hw'.responding
      | false => exact responseLoop_of_stopped fuel hw'.responding

theorem handleClientFdEvents_resume {bs piece : List UInt8} (hpiece : piece ≠ []) (hw : w.Looping true) :
    (resume (w, some bs)).handleClientFdEvents codec none (some (.received piece)) =
      .ok (w.setIncoming (bs ++ piece)) := by
  have hstate : (resume (w, some bs)).client.state = .connected := hw.state.mpr rfl
  have hresponding : w.responding = true := hw.responding
  cases piece with
  | nil => exact absurd rfl hpiece
  | cons b piece =>
    unfold handleClientFdEvents
    rw [if_neg (not_not.mpr hstate)]
    change Except.ok { (w.setIncoming (bs ++ b :: piece)) with responding := true } = _
    rw [← hresponding]
    rfl

variable (codec) in
/-- What the client does with the pieces is what it does with the frames that its loop sees. -/
theorem readResponses_eq {pieces : List (List UInt8)} {left : Option (List UInt8)}
    (hpieces : ∀ piece ∈ pieces, piece ≠ []) (hw : w.Looping left.isSome) :
    (resume (w, left)).readResponses codec pieces =
      (responseFormat.loop.feed (deliverResponse codec) pieces (w, left)).map resume := by
  induction pieces generalizing w left with
  | nil => rfl
  | cons piece pieces ih =>
    unfold readResponses
    cases left with
    | none =>
      rw [FrameReader.feed_none]
      exact if_neg fun hstate => absurd (hw.state.mp hstate) (by simp)
    | some bs =>
      have hstate : (resume (w, some bs)).client.state = .connected := hw.state.mpr rfl
      have hloop := responseLoop_eq codec (Nat.lt_succ_self (bs ++ piece).length) hw
      rw [if_pos hstate, handleClientFdEvents_resume (hpieces piece List.mem_cons_self) hw,
        FrameReader.feed_cons, except_ok_bind]
      refine Eq.trans (congrArg (· >>= _) hloop) ?_
      cases hdrain : responseFormat.loop.drain (deliverResponse codec) w (bs ++ piece) with
      | error e => rfl
      | ok r =>
        exact ih (fun p hp => hpieces p (List.mem_cons_of_mem _ hp))
          (FrameReader.drain_kept deliverResponse_looping hw hdrain)

theorem parseResponses_eq (w : ClientWorld μ) (stream : List UInt8) :
    w.parseResponses codec stream = (responseFormat.exact.drain (deliverResponse codec)
      { w with responding := true } stream).map resume := by
  unfold parseResponses
  rw [FrameReader.drain_eq_parse]
  dsimp only
  cases FrameReader.deliverAll (deliverResponse codec) (responseFormat.exact.parse stream).1
      { w with responding := true } with
  | error e => rfl
  | ok r =>
    obtain ⟨w', go⟩ := r
    cases go with
    | true => rfl
    | false => rfl

theorem resume_length {left left' : Option (List UInt8)} (hw : w.Looping left.isSome)
    (hw' : w'.Looping left'.isSome) (h : resume (w, left) = resume (w', left')) :
    left.map List.length = left'.map List.length := by
  have hstate : ∀ {w : ClientWorld μ} {left : Option (List UInt8)}, w.Looping left.isSome →
      ((resume (w, left)).client.state = .connected ↔ left.isSome = true) := by
    intro w left hw
    cases left with
    | none => exact hw.state
    | some bs => exact hw.state
  have hsome : left.isSome = true ↔ left'.isSome = true := by
    rw [← hstate hw, h, hstate hw']
  cases left with
  | none =>
    cases left' with
    | none => rfl
    | some bs' => exact absurd (hsome.mpr rfl) (by simp)
  | some bs =>
    cases left' with
    | none => exact absurd (hsome.mp rfl) (by simp)
    | some bs' =>
      have hincoming : bs = bs' := congrArg (fun w => w.client.incoming) h
      rw [hincoming]

/-- A client that is not in the loop has what is left in its buffer. -/
theorem eq_resume (hresponding : w.responding = false) :
    w = resume ({ w with responding := true }, some w.client.incoming) := by
  cases w with
  | mk self client live arrays errorMessages watched idles timers nextHandle resolving opened closed
      responding released invoked called sent =>
    obtain rfl : responding = false := hresponding
    rfl

/-- A client that is not in the loop does with the pieces what it does with the frames that its loop
sees. -/
theorem readResponses_feed (codec : Codec μ) (hstate : w.client.state = .connected)
    (hresponding : w.responding = false) {pieces : List (List UInt8)}
    (hpieces : ∀ piece ∈ pieces, piece ≠ []) :
    w.readResponses codec pieces = (responseFormat.loop.feed (deliverResponse codec) pieces
      ({ w with responding := true }, some w.client.incoming)).map resume := by
  have hw : Looping { w with responding := true } (some w.client.incoming).isSome :=
    ⟨by simp [hstate], rfl⟩
  have hread := readResponses_eq codec hpieces hw
  rw [← eq_resume hresponding] at hread
  exact hread

/-- The responses are taken out of the stream right, however it comes in, just if the client comes to no
header that makes the sum wrap. -/
theorem readResponses_exact_iff (codec : Codec μ) (w : ClientWorld μ) (pieces : List (List UInt8))
    (hstate : w.client.state = .connected) (hincoming : w.client.incoming = [])
    (hresponding : w.responding = false)
    (hpieces : ∀ piece ∈ pieces, piece ≠ [] ∧ piece.length ≤ FrameFormat.readSize) :
    (∀ before, before <+: pieces →
      w.readResponses codec before = w.parseResponses codec before.flatten) ↔
    ∀ before, before <+: pieces → ¬ responseFormat.LongAhead (deliverResponse codec)
      { w with responding := true } before.flatten := by
  have hw : Looping { w with responding := true } true := ⟨by simp [hstate], rfl⟩
  refine Iff.trans (forall_congr' fun before => forall_congr' fun hbefore => ?_)
    (FrameFormat.feed_loop_iff (f := responseFormat) (P := Looping)
      (@deliverResponse_looping μ codec) (fun _ _ _ _ hw hw' h => resume_length hw hw' h)
      (fun piece hpiece => (hpieces piece hpiece).2) hw)
  rw [readResponses_feed codec hstate hresponding fun piece hpiece =>
    (hpieces piece (hbefore.subset hpiece)).1, hincoming, parseResponses_eq]

end ClientWorld

/-- A client that waits for the response to its first request. -/
def waitingClient : ClientWorld (List UInt8) := { localClient with
  client := { localClient.client with
    state := .connected
    fd := some 3
    info := .connected ⟨1, 0, 0⟩ }
  arrays := (Store.empty.alloc [⟨some 0, some ⟨0, fun _ => .done⟩, 0⟩]).2 }

/-- `ClientWorld.readResponses_exact_iff` on a response that comes in two pieces. -/
theorem readResponses_firstResponse :
    waitingClient.readResponses bytesCodec [firstResponse.take 10, firstResponse.drop 10] =
      waitingClient.parseResponses bytesCodec firstResponse :=
  (ClientWorld.readResponses_exact_iff bytesCodec waitingClient
    [firstResponse.take 10, firstResponse.drop 10] rfl rfl rfl (by decide)).mpr
    (FrameFormat.not_longAhead_of_cut ⟨firstResponse, []⟩ (by decide) rfl)
    [firstResponse.take 10, firstResponse.drop 10] List.prefix_rfl

end ProtobufC
