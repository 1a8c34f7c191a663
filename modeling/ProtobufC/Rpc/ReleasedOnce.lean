import ProtobufC.Rpc.ClientRuns

/-! # What a client releases

A client obtains file descriptors, error messages and closure arrays, and has at most one of each at a
time.  Each is released once, at the latest when the client goes on to another, except where a connect
that was in progress fails: `handle_client_fd_connect_events` closes the file descriptor and leaves it
in the client, where `client_failed` finds it and closes it again.
-/

namespace ProtobufC
open Library
set_option autoImplicit false

variable {μ : Type} (codec : Codec μ)

namespace ClientWorld

/-- The error message that the client has. -/
def errorMessage? (w : ClientWorld μ) : Option ℕ :=
  match w.client.state, w.client.info with
  | .failedWaiting, .failedWaiting _ errorMessage => some errorMessage
  | .failed, .failed errorMessage => some errorMessage
  | _, _ => none

/-- The closure array that the client has. -/
def closures? (w : ClientWorld μ) : Option ℕ :=
  match w.client.state, w.client.info with
  | .connected, .connected c => some c.closures
  | _, _ => none

/-- Everything that was obtained is what the client has, or was released once; and a file descriptor
that was closed is not registered. -/
structure ReleasedOnce (w : ClientWorld μ) : Prop where
  sockets : (w.closed ++ w.client.fd.toList).Perm w.opened
  held : w.client.fd ≠ none → w.client.state = .connecting ∨ w.client.state = .connected
  unused : ∀ fd, w.Serves fd → w.client.fd = some fd
  errorMessages : ∀ j, (w.errorMessages.get j).isSome = true ↔ w.errorMessage? = some j
  arrays : ∀ j, (w.arrays.get j).isSome = true ↔ w.closures? = some j

theorem isSome_iff {α : Type} {store : Store α} {held : Option ℕ}
    (honly : ∀ j a, store.get j = some a → held = some j)
    (hthere : ∀ j, held = some j → ∃ a, store.get j = some a) (j : ℕ) :
    (store.get j).isSome = true ↔ held = some j := by
  rw [Option.isSome_iff_exists]
  constructor
  · intro h
    obtain ⟨a, ha⟩ := h
    exact honly j a ha
  · exact hthere j

theorem Quiet.releasedOnce {w : ClientWorld μ} {fd : Option ℕ} (quiet : w.Quiet fd)
    {message : Option ℕ} (holds : w.Holds [] message)
    (hfd : fd ≠ none → w.client.state = .connecting ∨ w.client.state = .connected)
    (hmessage : w.errorMessage? = message)
    (htext : ∀ j, message = some j → ∃ text, w.errorMessages.get j = some text)
    (hclosures : w.closures? = none) : w.ReleasedOnce where
  sockets := by
    have hsockets := holds.sockets
    rw [List.append_nil] at hsockets
    exact hsockets
  held := by
    rw [quiet.socket]
    exact hfd
  unused := quiet.serves
  errorMessages := by
    rw [hmessage]
    exact isSome_iff holds.messages htext
  arrays := by
    rw [hclosures]
    refine isSome_iff (fun j a hj => ?_) (fun j hj => absurd hj (by simp))
    rw [quiet.arrays j] at hj
    exact absurd hj (by simp)

theorem Connected.releasedOnce {w : ClientWorld μ} {c : ConnectedInfo} {array : List (Closure μ)}
    {free : List (ℕ × Closure μ)} {fd : ℕ} (h : w.Connected [] c array free fd) :
    w.ReleasedOnce where
  sockets := by
    have hsockets := h.holds.sockets
    rw [List.append_nil] at hsockets
    exact hsockets
  held := fun _ => .inr h.table.state
  unused := h.watching.serves
  errorMessages := by
    have hmessage : w.errorMessage? = none := by
      unfold errorMessage?
      rw [h.table.state]
    rw [hmessage]
    exact isSome_iff h.holds.messages fun j hj => absurd hj (by simp)
  arrays := by
    have hclosures : w.closures? = some c.closures := by
      unfold closures?
      rw [h.table.state, h.table.info]
    rw [hclosures]
    refine isSome_iff (fun j a hj => ?_) (fun j hj => ?_)
    · rw [h.table.only j a hj]
    · exact ⟨array, Option.some.inj hj ▸ h.table.get⟩

theorem Inv.releasedOnce {w : ClientWorld μ} (h : w.Inv []) : w.ReleasedOnce := by
  have hnot : ∀ {s : ClientState}, w.client.state = s → s ≠ .connected → w.closures? = none := by
    intro s hs hne
    unfold closures?
    cases s <;> rw [hs]
    exact absurd rfl hne
  have hmessage : ∀ {s : ClientState}, w.client.state = s → s ≠ .failedWaiting → s ≠ .failed →
      w.errorMessage? = none := by
    intro s hs hwaiting hfailed
    unfold errorMessage?
    cases s <;> rw [hs]
    · exact absurd rfl hwaiting
    · exact absurd rfl hfailed
  have hno : ∀ (j : ℕ), (none : Option ℕ) = some j → ∃ text, w.errorMessages.get j = some text :=
    fun j hj => absurd hj (by simp)
  cases h with
  | init idle state info waits quiet holds calm =>
    exact quiet.releasedOnce holds (absurd rfl) (hmessage state (by simp) (by simp)) hno
      (hnot state (by simp))
  | nameLookup info' state info pending waits quiet holds calm =>
    exact quiet.releasedOnce holds (absurd rfl) (hmessage state (by simp) (by simp)) hno
      (hnot state (by simp))
  | connecting info' fd state info waits quiet holds watched calm =>
    exact quiet.releasedOnce holds (fun _ => .inl state) (hmessage state (by simp) (by simp)) hno
      (hnot state (by simp))
  | connected c array free fd connected => exact connected.releasedOnce
  | failedWaiting timer message text state info waits text' quiet holds calm =>
    refine quiet.releasedOnce holds (absurd rfl) ?_ (fun j hj => ?_) (hnot state (by simp))
    · unfold errorMessage?
      rw [state, info]
    · exact ⟨text, Option.some.inj hj ▸ text'⟩
  | failed message text state info waits text' quiet holds calm =>
    refine quiet.releasedOnce holds (absurd rfl) ?_ (fun j hj => ?_) (hnot state (by simp))
    · unfold errorMessage?
      rw [state, info]
    · exact ⟨text, Option.some.inj hj ▸ text'⟩
  | destroyed state live idles timers resolving released quiet holds calm =>
    exact quiet.releasedOnce holds (absurd rfl) (hmessage state (by simp) (by simp)) hno
      (hnot state (by simp))

theorem Connected.sockets {w : ClientWorld μ} {reclosed : List ℕ} {c : ConnectedInfo}
    {array : List (Closure μ)} {free : List (ℕ × Closure μ)} {fd : ℕ}
    (h : w.Connected reclosed c array free fd) :
    (w.closed ++ w.client.fd.toList).Perm (w.opened ++ reclosed) := h.holds.sockets

theorem Inv.sockets {w : ClientWorld μ} {reclosed : List ℕ} (h : w.Inv reclosed) :
    (w.closed ++ w.client.fd.toList).Perm (w.opened ++ reclosed) := by
  cases h with
  | connected c array free fd connected => exact connected.sockets
  | init _ _ _ _ _ holds _ | nameLookup _ _ _ _ _ _ holds _ | connecting _ _ _ _ _ _ holds _ _
  | failedWaiting _ _ _ _ _ _ _ _ holds _ | failed _ _ _ _ _ _ _ holds _
  | destroyed _ _ _ _ _ _ _ holds _ => exact holds.sockets

theorem Inv.not_releasedOnce {w : ClientWorld μ} {reclosed : List ℕ} (h : w.Inv reclosed)
    (hne : reclosed ≠ []) : ¬ w.ReleasedOnce := by
  intro hreleased
  have hlen := (hreleased.sockets.symm.trans h.sockets).length_eq
  rw [List.length_append] at hlen
  exact hne (List.length_eq_zero_iff.mp (by omega))

/-- The file descriptor of a connect in progress that has failed is closed twice. -/
theorem DelayedFailure.closesTwice_ne {w : ClientWorld μ} {label : ClientLabel μ}
    (h : w.DelayedFailure label) : w.closesTwice label ≠ [] := by
  unfold closesTwice
  rw [if_pos h]
  cases hfd : w.client.fd with
  | none => exact absurd (not_registeredFor hfd ▸ h.2.2) (by simp)
  | some fd => simp

end ClientWorld

/-! ## Runs -/

/-- In every run without a connect that fails while it is in progress, everything is released once, and
no step fails an assertion or frees something twice; a step that reports such a failure ends this, and no
other step does. -/
theorem releasedOnce_iff {self : ℕ} {watched : Registered} (hnew : Unregistered self watched)
    {type : AddressType} {name : List UInt8} {descriptor : ServiceDescriptor} {w : ClientWorld μ}
    (h : Runs (ClientWorld.step codec)
      (fun w label => w.Proper label ∧ w.Takes label ∧ ¬ w.DelayedFailure label)
      (rpcClientNew self type name descriptor watched) w) :
    w.ReleasedOnce ∧ ∀ label, w.Proper label → w.Takes label →
      Ends (fun e => e = .access ∧ ¬ w.Room codec label) (w.step codec label) fun w' =>
        (w'.ReleasedOnce ↔ ¬ w.DelayedFailure label) := by
  have hinv : w.Inv [] := by
    refine h.invariant (rpcClientNew_inv hnew type name descriptor) fun t label u ht hallowed hok => ?_
    obtain ⟨hproper, htakes, hnot⟩ := hallowed
    have hends : Ends (fun _ => True) _ _ := step_spec codec ht hproper htakes fun _ => trivial
    have hkept := (hends.post hok).1
    rw [closesTwice_nil hnot] at hkept
    exact hkept
  refine ⟨hinv.releasedOnce, fun label hproper htakes => ?_⟩
  refine (step_spec codec hinv hproper htakes fun hroom => ⟨rfl, hroom⟩).imp fun w' hw' => ?_
  by_cases hfailure : w.DelayedFailure label
  · exact iff_of_false (hw'.1.not_releasedOnce hfailure.closesTwice_ne) (not_not.mpr hfailure)
  · refine iff_of_true ?_ hfailure
    have hkept := hw'.1
    rw [closesTwice_nil hfailure] at hkept
    exact hkept.releasedOnce

/-- A refused connect, a second one that comes about, a request, the end of the file, and the end of the
client. -/
theorem releasedOnce_reconnected : ∃ w, Runs (ClientWorld.step bytesCodec)
      (fun w label => w.Proper label ∧ w.Takes label ∧ ¬ w.DelayedFailure label) localClient w ∧
    w.ReleasedOnce ∧ w.opened = [5, 6] ∧ w.closed = [5, 6] ∧ w.called = [(0, none)] := by
  have hnew : Unregistered 7 fun _ => none := fun _ _ _ h => absurd h (by simp)
  have hquiet : ∀ {w : ClientWorld (List UInt8)} {label}, label ≠ .connectEvents .fatal →
      ¬ w.DelayedFailure label := fun hne h => hne h.1
  have hruns : ∃ w, Runs (ClientWorld.step bytesCodec)
      (fun w label => w.Proper label ∧ w.Takes label ∧ ¬ w.DelayedFailure label) localClient w ∧
      w.opened = [5, 6] ∧ w.closed = [5, 6] ∧ w.called = [(0, none)] := by
    refine ⟨_, .tail .destroy (.tail (.events none (some (.received [])))
      (.tail (.invoke (requestThen .done)) (.tail (.connectEvents .none)
      (.tail (.timeout .later (.inProgress 6)) (.tail (.idle .later (.refused 5)) (.refl localClient)
      ⟨fun _ _ => rfl, trivial, hquiet (by simp)⟩ rfl) ⟨fun fd hfd => ?_, trivial, hquiet (by simp)⟩ rfl)
      ⟨trivial, trivial, hquiet (by simp)⟩ rfl)
      ⟨⟨Nat.zero_lt_one, fun _ => trivial, trivial⟩, .inl rfl, hquiet (by simp)⟩ rfl)
      ⟨trivial, trivial, hquiet (by simp)⟩ rfl) ⟨trivial, trivial, hquiet (by simp)⟩ rfl, rfl, rfl, rfl⟩
    obtain rfl := Option.some.inj hfd
    rfl
  obtain ⟨w, hruns, hopened, hclosed, hcalled⟩ := hruns
  exact ⟨w, hruns, (releasedOnce_iff bytesCodec hnew hruns).1, hopened, hclosed, hcalled⟩

/-- A connect that fails while it is in progress. -/
theorem releasedOnce_fails : ¬ ∀ w, Runs (ClientWorld.step bytesCodec)
      (fun w label => w.Proper label ∧ w.Takes label) localClient w → w.ReleasedOnce := by
  intro hall
  have hsockets := (hall _ (.tail (.connectEvents .fatal)
    (.tail (.idle .later (.inProgress 5)) (.refl localClient) ⟨fun _ _ => rfl, trivial⟩ rfl)
    ⟨trivial, trivial⟩ rfl)).sockets.length_eq
  exact absurd hsockets (by decide)

end ProtobufC
