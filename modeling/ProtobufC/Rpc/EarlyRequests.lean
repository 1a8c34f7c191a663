import ProtobufC.Rpc.ClientRuns

/-! # Requests before there is a connection

`invoke_client_rpc` enqueues a request also where the client has no connection yet.  The closure table
is a member of the union `info`, and in these states another member is the one that is in use, so that
`enqueue_request` reads, and would write, what is not a closure table.
-/

namespace ProtobufC
open Library
set_option autoImplicit false

variable {μ : Type} (codec : Codec μ)

/-- There is no connection yet. -/
def ClientState.Early : ClientState → Prop
  | .init | .nameLookup | .connecting => True
  | .connected | .failedWaiting | .failed | .destroyed => False

namespace ClientWorld

/-- The closure waits in the table under this request number. -/
def WaitsUnder (w : ClientWorld μ) (request_id : UInt32) (k : ℕ) : Prop :=
  ∃ c array i cl, w.client.info = .connected c ∧ w.arrays.get c.closures = some array ∧
    slotIndex request_id = some i ∧ array[i]? = some cl ∧ cl.waiting = some k

/-- The invocation leaves the union as it is, and a closure that it does not call waits under the number
in the header once the client is connected. -/
def KeepsRequest (w : ClientWorld μ) (methodIndex : ℕ) (input : μ) (closure : Passed μ)
    (closureData : UInt64) (callNow : ClientWorld μ → Except Fault (ClientWorld μ)) : Prop :=
  ∃ w', w.invokeClientRpc codec methodIndex input closure closureData callNow = .ok w' ∧
    w'.client.info = w.client.info ∧
    (closure.serial ∉ w'.called.map Prod.fst → ∃ request_id,
      (closure.serial, request_id) ∈ w'.sent ∧
        w'.setStateConnected.WaitsUnder request_id closure.serial)

theorem Inv.early {w : ClientWorld μ} {reclosed : List ℕ} (h : w.Inv reclosed)
    (hearly : w.client.state.Early) : w.client.info.toConnected = .error .access := by
  have hnot : ∀ {s : ClientState}, w.client.state = s → ¬ s.Early → False := by
    intro s hs hne
    rw [hs] at hearly
    exact hne hearly
  cases h with
  | init idle state info waits quiet holds calm => rw [info]; rfl
  | nameLookup info' state info pending waits quiet holds calm => rw [info]; rfl
  | connecting info' fd state info waits quiet holds watched calm => rw [info]; rfl
  | connected c array free fd connected => exact (hnot connected.table.state id).elim
  | failedWaiting _ _ _ state _ _ _ _ _ _ => exact (hnot state id).elim
  | failed _ _ state _ _ _ _ _ _ => exact (hnot state id).elim
  | destroyed state _ _ _ _ _ _ _ _ => exact (hnot state id).elim

theorem invokeClientRpc_early {w : ClientWorld μ} (hearly : w.client.state.Early)
    (hinfo : w.client.info.toConnected = .error .access) {methodIndex : ℕ}
    (hmethod : methodIndex < w.client.service.nMethods) (input : μ) (closure : Passed μ)
    (closureData : UInt64) (callNow : ClientWorld μ → Except Fault (ClientWorld μ)) :
    w.invokeClientRpc codec methodIndex input closure closureData callNow = .error .access := by
  have henqueue : w.enqueueRequest codec methodIndex input closure closureData = .error .access := by
    unfold enqueueRequest
    rw [List.getElem?_eq_getElem hmethod]
    simp only [hinfo, except_error_bind]
  unfold invokeClientRpc
  cases hstate : w.client.state with
  | init | nameLookup | connecting => exact henqueue
  | connected | failedWaiting | failed | destroyed =>
    rw [hstate] at hearly
    exact hearly.elim

/-- Code of the user that makes no invocation does nothing, and other code faults. -/
theorem runScript_early {w : ClientWorld μ} (hearly : w.client.state.Early)
    (hinfo : w.client.info.toConnected = .error .access) {script : Script μ}
    (hvalid : script.Valid w.client.service.nMethods) {w' : ClientWorld μ}
    (hok : w.runScript codec script = .ok w') : w' = w := by
  cases script with
  | done => exact (Except.ok.inj hok).symm
  | invoke methodIndex input closure closureData rest =>
    rw [runScript] at hok
    obtain ⟨w₁, hone, -⟩ := except_bind_eq_ok hok
    have hfault := invokeClientRpc_early codec (w := { w with invoked := w.invoked + 1 }) hearly hinfo
      hvalid.1 input ⟨w.invoked, closure⟩ closureData
      fun w' => ClientWorld.runScript codec (closure none) (w'.record w.invoked none)
    exact absurd (hone.symm.trans hfault) (by simp)

end ClientWorld

theorem reachable_inv {self : ℕ} {watched : Registered} (hnew : Unregistered self watched)
    {type : AddressType} {name : List UInt8} {descriptor : ServiceDescriptor} {w : ClientWorld μ}
    (h : Runs (ClientWorld.step codec) ClientWorld.Proper
      (rpcClientNew self type name descriptor watched) w) : ∃ reclosed, w.Inv reclosed := by
  refine h.invariant (I := fun w => ∃ reclosed, w.Inv reclosed)
    ⟨[], rpcClientNew_inv hnew type name descriptor⟩ fun t label u ht hproper hok => ?_
  obtain ⟨reclosed, ht⟩ := ht
  by_cases htakes : t.Takes label
  · have hends : Ends (fun _ => True) _ _ := step_spec codec ht hproper htakes fun _ => trivial
    exact ⟨_, (hends.post hok).1⟩
  · cases label with
    | invoke script =>
      have hearly : t.client.state.Early := by
        have hnot : ¬ (t.client.state = .connected ∨ t.client.state.Down) := htakes
        cases hstate : t.client.state with
        | init | nameLookup | connecting => trivial
        | connected => exact absurd (.inl hstate) hnot
        | failedWaiting | failed | destroyed => exact absurd (.inr (by rw [hstate]; trivial)) hnot
      unfold ClientWorld.step at hok
      dsimp only at hok
      split_ifs at hok with husable
      · rw [ClientWorld.runScript_early codec hearly (ht.early hearly) hproper hok]
        exact ⟨reclosed, ht⟩
      · rw [← Except.ok.inj hok]
        exact ⟨reclosed, ht⟩
    | idle _ _ | resolved _ _ | connectEvents _ | events _ _ | respond | timeout _ _ | destroy
    | setAutoreconnect _ | other _ => exact absurd trivial htakes

/-- No request that is made before there is a connection is kept. -/
theorem earlyRequest_lost {self : ℕ} {watched : Registered} (hnew : Unregistered self watched)
    {type : AddressType} {name : List UInt8} {descriptor : ServiceDescriptor} {w : ClientWorld μ}
    (h : Runs (ClientWorld.step codec) ClientWorld.Proper
      (rpcClientNew self type name descriptor watched) w) (hearly : w.client.state.Early)
    {methodIndex : ℕ} (hmethod : methodIndex < w.client.service.nMethods) (input : μ)
    (closure : Passed μ) (closureData : UInt64)
    (callNow : ClientWorld μ → Except Fault (ClientWorld μ)) :
    w.invokeClientRpc codec methodIndex input closure closureData callNow = .error .access ∧
      ¬ w.KeepsRequest codec methodIndex input closure closureData callNow := by
  obtain ⟨reclosed, hinv⟩ := reachable_inv codec hnew h
  have hfault := ClientWorld.invokeClientRpc_early codec hearly (hinv.early hearly) hmethod input
    closure closureData callNow
  refine ⟨hfault, fun hkeeps => ?_⟩
  obtain ⟨w', hok, -⟩ := hkeeps
  exact absurd (hfault.symm.trans hok) (by simp)

/-- A request while a connect is in progress. -/
theorem earlyRequest_lost_connecting : ∃ w, ClientWorld.step bytesCodec localClient
      (.idle .later (.inProgress 5)) = .ok w ∧
      ¬ w.KeepsRequest bytesCodec 0 [] ⟨0, fun _ => .done⟩ 0 .ok := by
  have hnew : Unregistered 7 fun _ => none := fun _ _ _ h => absurd h (by simp)
  exact ⟨_, rfl, (earlyRequest_lost bytesCodec hnew (.tail (.idle .later (.inProgress 5))
    (.refl localClient) (fun _ _ => rfl) rfl) trivial Nat.zero_lt_one [] ⟨0, fun _ => .done⟩ 0 .ok).2⟩

/-- A request of a client that is new. -/
theorem earlyRequest_fails : ¬ localClient.KeepsRequest bytesCodec 0 [] ⟨0, fun _ => .done⟩ 0 .ok := by
  intro h
  obtain ⟨w', hok, -⟩ := h
  have herror : (Except.ok w' : Except Fault (ClientWorld (List UInt8))) = .error .access :=
    hok.symm.trans rfl
  exact absurd herror (by simp)

end ProtobufC
