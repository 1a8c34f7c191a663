import ProtobufC.Rpc.ClientStates

/-! # Every step of a client

A step of a run leads from one of the states of the client to another.  It can fault only where the
table has no room: where a closure that is called with a message makes more invocations than the table
has free entries, or where there are more than 2^31 requests.
-/

namespace ProtobufC
open Library
set_option autoImplicit false

variable {μ : Type} (codec : Codec μ) {ub : Fault → Prop}

namespace ClientWorld

/-! ## What a step may meet -/

/-- Invocations are made only where the client takes them. -/
def Takes (w : ClientWorld μ) : ClientLabel μ → Prop
  | .invoke _ => w.client.state = .connected ∨ w.client.state.Down
  | .idle _ _ | .resolved _ _ | .connectEvents _ | .events _ _ | .respond | .timeout _ _ | .destroy
  | .setAutoreconnect _ | .other _ => True

/-- The table has room for the invocations of a step. -/
def Room (w : ClientWorld μ) : ClientLabel μ → Prop
  | .invoke script => ∀ c array, w.client.state = .connected → w.client.info = .connected c →
      w.arrays.get c.closures = some array →
      script.length ≤ freeEntries array ∨ (outstanding array).length + script.length ≤ 2 ^ 31
  | .respond => ∀ c array i cl closure msg, w.Delivers codec c array i cl closure msg →
      (closure.closure (some msg)).length ≤ freeEntries array
  | .idle _ _ | .resolved _ _ | .connectEvents _ | .events _ _ | .timeout _ _ | .destroy
  | .setAutoreconnect _ | .other _ => True

/-- `getsockopt` reports that a connect that was in progress has failed. -/
def DelayedFailure (w : ClientWorld μ) (label : ClientLabel μ) : Prop :=
  label = .connectEvents .fatal ∧ w.responding = false ∧ w.registeredFor .clientConnectEvents 0 = true

instance (w : ClientWorld μ) (label : ClientLabel μ) : Decidable (w.DelayedFailure label) :=
  match label with
  | .connectEvents .fatal =>
      decidable_of_iff (w.responding = false ∧ w.registeredFor .clientConnectEvents 0 = true)
        ⟨fun h => ⟨rfl, h⟩, fun h => h.2⟩
  | .connectEvents .none | .connectEvents .ignorable => isFalse fun h => absurd h.1 (by simp)
  | .idle _ _ | .resolved _ _ | .events _ _ | .respond | .timeout _ _ | .invoke _ | .destroy
  | .setAutoreconnect _ | .other _ => isFalse fun h => absurd h.1 (by simp)

/-- The file descriptors that a step closes once more than it should. -/
def closesTwice (w : ClientWorld μ) (label : ClientLabel μ) : List ℕ :=
  if w.DelayedFailure label then w.client.fd.toList else []

/-- What a step calls: closures with NULL, or the closure that the next response is for. -/
def Calls (w : ClientWorld μ) (reclosed : List ℕ) (label : ClientLabel μ) (w' : ClientWorld μ) :
    Prop :=
  (w.NullCalls w' ∧ (label = .respond → w.responding = true →
    ∀ c array i cl closure msg, ¬ w.Delivers codec c array i cl closure msg)) ∨
  label = .respond ∧ ∃ c array i cl closure msg, w.Delivers codec c array i cl closure msg ∧
    w.Delivered reclosed i closure msg w'

end ClientWorld

section
variable {w : ClientWorld μ} {reclosed : List ℕ}

/-! ## What others do -/

/-- Other users of the dispatcher and the options of the client do not matter. -/
theorem ClientWorld.Inv.surrounded (h : w.Inv reclosed) {watched : Registered}
    (hsame : ∀ fd, w.client.fd = some fd → watched fd = w.watched fd)
    (hown : ∀ f, ClientWorld.Serves { w with watched := watched } f → w.Serves f)
    (autoreconnect : Bool) (autoreconnectMillis : UInt32) :
    ClientWorld.Inv reclosed { w with
      watched := watched
      client := { w.client with
        autoreconnect := autoreconnect, autoreconnectMillis := autoreconnectMillis } } := by
  have hquiet : ∀ {fd : Option ℕ}, w.Quiet fd → ClientWorld.Quiet { w with
      watched := watched
      client := { w.client with
        autoreconnect := autoreconnect, autoreconnectMillis := autoreconnectMillis } } fd :=
    fun q => ⟨q.socket, q.incoming, q.outgoing, q.accounted, q.arrays, fun f hf => q.own f (hown f hf)⟩
  have hwaits : ∀ {idles timers : List ℕ} {resolving released : Bool},
      w.Waits idles timers resolving released → ClientWorld.Waits { w with
      watched := watched
      client := { w.client with
        autoreconnect := autoreconnect, autoreconnectMillis := autoreconnectMillis } }
      idles timers resolving released :=
    fun q => ⟨q.live, q.idles, q.timers, q.resolving, q.released⟩
  have hholds : ∀ {message : Option ℕ}, w.Holds reclosed message → ClientWorld.Holds { w with
      watched := watched
      client := { w.client with
        autoreconnect := autoreconnect, autoreconnectMillis := autoreconnectMillis } }
      reclosed message :=
    fun q => ⟨q.sockets, q.messages⟩
  cases h with
  | init idle state info waits quiet holds calm =>
    exact .init idle state info (hwaits waits) (hquiet quiet) (hholds holds) calm
  | nameLookup info' state info pending waits quiet holds calm =>
    exact .nameLookup info' state info pending (hwaits waits) (hquiet quiet) (hholds holds) calm
  | connecting info' fd state info waits quiet holds watched' calm =>
    exact .connecting info' fd state info (hwaits waits) (hquiet quiet) (hholds holds)
      ((hsame fd quiet.socket).trans watched') calm
  | connected c array free fd connected =>
    obtain ⟨waits, holds, table, watching, accounted⟩ := connected
    exact .connected c array free fd ⟨hwaits waits, hholds holds,
      table.congr ⟨rfl, rfl, rfl⟩ rfl rfl (Nat.le_refl _) ⟨[], (List.append_nil _).symm⟩,
      ⟨watching.socket, (hsame fd watching.socket).trans watching.watched, watching.quiet,
        fun f hf => watching.own f (hown f hf)⟩, accounted⟩
  | failedWaiting timer message text state info waits text' quiet holds calm =>
    exact .failedWaiting timer message text state info (hwaits waits) text' (hquiet quiet)
      (hholds holds) calm
  | failed message text state info waits text' quiet holds calm =>
    exact .failed message text state info (hwaits waits) text' (hquiet quiet) (hholds holds) calm
  | destroyed state live idles timers resolving released quiet holds calm =>
    exact .destroyed state live idles timers resolving released (hquiet quiet) (hholds holds) calm

/-! ## What a state waits for -/

theorem ClientWorld.Inv.of_idles (h : w.Inv reclosed) {idle : ℕ} {idles : List ℕ}
    (hidles : w.idles = idle :: idles) : idles = [] ∧ w.client.state = .init ∧
      w.Waits [idle] [] false false ∧ w.Quiet none ∧ w.Holds reclosed none := by
  cases h with
  | init idle' state info waits quiet holds calm =>
    obtain ⟨rfl, rfl⟩ : idle' = idle ∧ [] = idles := by
      have heq := waits.idles.symm.trans hidles
      simpa using heq
    exact ⟨rfl, state, waits, quiet, holds⟩
  | nameLookup _ _ _ _ waits _ _ _ => exact absurd (waits.idles.symm.trans hidles) (by simp)
  | connecting _ _ _ _ waits _ _ _ _ => exact absurd (waits.idles.symm.trans hidles) (by simp)
  | connected _ _ _ _ connected =>
    exact absurd (connected.waits.idles.symm.trans hidles) (by simp)
  | failedWaiting _ _ _ _ _ waits _ _ _ _ =>
    exact absurd (waits.idles.symm.trans hidles) (by simp)
  | failed _ _ _ _ waits _ _ _ _ => exact absurd (waits.idles.symm.trans hidles) (by simp)
  | destroyed _ _ idles' _ _ _ _ _ _ => exact absurd (idles'.symm.trans hidles) (by simp)

theorem ClientWorld.Inv.of_timers (h : w.Inv reclosed) {timer : ℕ} {timers : List ℕ}
    (htimers : w.timers = timer :: timers) : timers = [] ∧ w.client.state = .failedWaiting ∧
      w.Waits [] [timer] false false ∧ w.Quiet none ∧ w.responding = false ∧
      ∃ message text, w.client.info = .failedWaiting timer message ∧
        w.errorMessages.get message = some text ∧ w.Holds reclosed (some message) := by
  cases h with
  | init _ _ _ waits _ _ _ => exact absurd (waits.timers.symm.trans htimers) (by simp)
  | nameLookup _ _ _ _ waits _ _ _ => exact absurd (waits.timers.symm.trans htimers) (by simp)
  | connecting _ _ _ _ waits _ _ _ _ => exact absurd (waits.timers.symm.trans htimers) (by simp)
  | connected _ _ _ _ connected =>
    exact absurd (connected.waits.timers.symm.trans htimers) (by simp)
  | failedWaiting timer' message text state info waits text' quiet holds calm =>
    obtain ⟨rfl, rfl⟩ : timer' = timer ∧ [] = timers := by
      have heq := waits.timers.symm.trans htimers
      simpa using heq
    exact ⟨rfl, state, waits, quiet, calm, message, text, info, text', holds⟩
  | failed _ _ _ _ waits _ _ _ _ => exact absurd (waits.timers.symm.trans htimers) (by simp)
  | destroyed _ _ _ timers' _ _ _ _ _ => exact absurd (timers'.symm.trans htimers) (by simp)

theorem ClientWorld.Inv.of_resolving (h : w.Inv reclosed) (hresolving : w.resolving = true) :
    ∃ info', ClientWorld.Resolved { w with resolving := false } reclosed info' := by
  cases h with
  | init _ _ _ waits _ _ _ => exact absurd (waits.resolving.symm.trans hresolving) (by simp)
  | nameLookup info' state info pending waits quiet holds calm =>
    exact ⟨info', state, info, pending, ⟨waits.live, waits.idles, waits.timers, rfl, waits.released⟩,
      ⟨quiet.socket, quiet.incoming, quiet.outgoing, quiet.accounted, quiet.arrays, quiet.own⟩,
      ⟨holds.sockets, holds.messages⟩, calm⟩
  | connecting _ _ _ _ waits _ _ _ _ =>
    exact absurd (waits.resolving.symm.trans hresolving) (by simp)
  | connected _ _ _ _ connected =>
    exact absurd (connected.waits.resolving.symm.trans hresolving) (by simp)
  | failedWaiting _ _ _ _ _ waits _ _ _ _ =>
    exact absurd (waits.resolving.symm.trans hresolving) (by simp)
  | failed _ _ _ _ waits _ _ _ _ => exact absurd (waits.resolving.symm.trans hresolving) (by simp)
  | destroyed _ _ _ _ resolving _ _ _ _ => exact absurd (resolving.symm.trans hresolving) (by simp)

theorem callback_ne (data : ℕ) :
    RpcHandler.clientEvents.callback data ≠ RpcHandler.clientConnectEvents.callback data := by
  unfold RpcHandler.callback
  simp

/-- A function is registered where the client has a file descriptor only. -/
theorem ClientWorld.not_registeredFor {handler : RpcHandler} {events : UInt32} (hfd : w.client.fd = none) :
    w.registeredFor handler events = false := by
  unfold ClientWorld.registeredFor
  rw [hfd]
  rfl

theorem ClientWorld.registeredFor_callback {handler : RpcHandler} {events : UInt32} {fd : ℕ}
    (h : w.registeredFor handler events = true) (hfd : w.client.fd = some fd) :
    ∃ e, w.watched fd = some (e, handler.callback w.self) := by
  unfold ClientWorld.registeredFor at h
  rw [hfd, Option.bind_some] at h
  cases hwatched : w.watched fd with
  | none => rw [hwatched] at h; exact absurd h (by simp)
  | some r =>
    rw [hwatched] at h
    obtain ⟨hr, -⟩ : r.2 = handler.callback w.self ∧ _ := by simpa using h
    exact ⟨r.1, by rw [← hr]⟩

/-- The function for a connect in progress is registered in one state only. -/
theorem ClientWorld.Inv.of_connectEvents (h : w.Inv reclosed)
    (hreg : w.registeredFor .clientConnectEvents 0 = true) : ∃ info' fd,
      w.client.state = .connecting ∧ w.client.info = .nameLookup info' ∧ w.Waits [] [] false false ∧
      w.Quiet (some fd) ∧ w.Holds reclosed none ∧ w.responding = false ∧
      w.watched fd = some (eventReadable ||| eventWritable,
        RpcHandler.clientConnectEvents.callback w.self) := by
  have hnone : ∀ {P : Prop}, w.Quiet none → P := fun q => by
    rw [ClientWorld.not_registeredFor q.socket] at hreg
    exact absurd hreg (by simp)
  cases h with
  | init _ _ _ _ quiet _ _ => exact hnone quiet
  | nameLookup _ _ _ _ _ quiet _ _ => exact hnone quiet
  | connecting info' fd state info waits quiet holds watched calm =>
    exact ⟨info', fd, state, info, waits, quiet, holds, calm, watched⟩
  | connected c array free fd connected =>
    obtain ⟨e, he⟩ := ClientWorld.registeredFor_callback hreg connected.watching.socket
    rw [connected.watching.watched] at he
    split_ifs at he
    exact absurd (congrArg Prod.snd (Option.some.inj he)) (callback_ne w.self)
  | failedWaiting _ _ _ _ _ _ _ quiet _ _ => exact hnone quiet
  | failed _ _ _ _ _ _ quiet _ _ => exact hnone quiet
  | destroyed _ _ _ _ _ _ quiet _ _ => exact hnone quiet

/-- The function for a connection is registered once there was a request on it. -/
theorem ClientWorld.Inv.of_events (h : w.Inv reclosed) {events : UInt32}
    (hreg : w.registeredFor .clientEvents events = true) :
    ∃ c array free fd, w.Connected reclosed c array free fd ∧ w.sent ≠ [] := by
  have hnone : ∀ {P : Prop}, w.Quiet none → P := fun q => by
    rw [ClientWorld.not_registeredFor q.socket] at hreg
    exact absurd hreg (by simp)
  cases h with
  | init _ _ _ _ quiet _ _ => exact hnone quiet
  | nameLookup _ _ _ _ _ quiet _ _ => exact hnone quiet
  | connecting info' fd state info waits quiet holds watched calm =>
    obtain ⟨e, he⟩ := ClientWorld.registeredFor_callback hreg quiet.socket
    rw [watched] at he
    exact absurd (congrArg Prod.snd (Option.some.inj he)).symm (callback_ne w.self)
  | connected c array free fd connected =>
    obtain ⟨e, he⟩ := ClientWorld.registeredFor_callback hreg connected.watching.socket
    rw [connected.watching.watched] at he
    refine ⟨c, array, free, fd, connected, fun hnil => ?_⟩
    rw [if_pos hnil] at he
    exact absurd he (by simp)
  | failedWaiting _ _ _ _ _ _ _ quiet _ _ => exact hnone quiet
  | failed _ _ _ _ _ _ quiet _ _ => exact hnone quiet
  | destroyed _ _ _ _ _ _ quiet _ _ => exact hnone quiet

theorem ClientWorld.Inv.of_responding (h : w.Inv reclosed) (hresponding : w.responding = true) :
    ∃ c array free fd, w.Connected reclosed c array free fd := by
  cases h with
  | connected c array free fd connected => exact ⟨c, array, free, fd, connected⟩
  | init _ _ _ _ _ _ calm | nameLookup _ _ _ _ _ _ _ calm | connecting _ _ _ _ _ _ _ _ calm
  | failedWaiting _ _ _ _ _ _ _ _ _ calm | failed _ _ _ _ _ _ _ _ calm
  | destroyed _ _ _ _ _ _ _ _ calm => exact absurd (calm.symm.trans hresponding) (by simp)

/-! ## Invocations -/

theorem ClientWorld.Connected.runScript {c : ConnectedInfo} {array : List (Closure μ)}
    {free : List (ℕ × Closure μ)} {fd : ℕ} (h : w.Connected reclosed c array free fd)
    {script : Script μ} (hvalid : script.Valid w.client.service.nMethods)
    (hub : ¬ (script.length ≤ freeEntries array ∨
      (outstanding array).length + script.length ≤ 2 ^ 31) → ub .access) :
    Ends ub (w.runScript codec script) fun w' => w'.Inv reclosed ∧ w.NullCalls w' := by
  have hfree : freeEntries array = free.length := by
    have hlen := h.table.free.length_eq
    unfold freeEntries
    omega
  rw [hfree] at hub
  refine (runScript_connected codec script h.table h.watching h.accounted hvalid hub).imp
    fun w' hw' => ?_
  obtain ⟨c', array', free', hr⟩ := hw'
  have hwatching := hr.watching
  have htable := hr.table
  have hacc := hr.accounted
  obtain ⟨_, _, _, _, _, _, rfl⟩ := hr.frame
  exact ⟨.connected c' array' free' fd
    ⟨⟨h.waits.live, h.waits.idles, h.waits.timers, h.waits.resolving, h.waits.released⟩,
      ⟨h.holds.sockets, h.holds.messages⟩, htable, hwatching, hacc⟩, [], by simp,
    (List.append_nil _).symm⟩

theorem ClientWorld.Inv.runScript (h : w.Inv reclosed) {script : Script μ}
    (htakes : w.client.state = .connected ∨ w.client.state.Down) (hreleased : w.released = false)
    (hvalid : script.Valid w.client.service.nMethods)
    (hub : ¬ w.Room codec (.invoke script) → ub .access) :
    Ends ub (w.runScript codec script) fun w' => w'.Inv reclosed ∧ w.NullCalls w' := by
  have hnone : ∀ {s : ClientState}, w.client.state = s → s ≠ .connected → ¬ s.Down → False := by
    intro s hs hne hdown
    rw [hs] at htakes
    exact htakes.elim hne hdown
  cases h with
  | init _ state _ _ _ _ _ => exact (hnone state (by simp) id).elim
  | nameLookup _ state _ _ _ _ _ _ => exact (hnone state (by simp) id).elim
  | connecting _ _ state _ _ _ _ _ _ => exact (hnone state (by simp) id).elim
  | connected c array free fd connected =>
    refine connected.runScript codec hvalid fun hfull => hub fun hroom => hfull ?_
    exact hroom c array connected.table.state connected.table.info connected.table.get
  | failedWaiting timer message text state info waits text' quiet holds calm =>
    refine (runScript_down codec script (by rw [state]; trivial) quiet.accounted).imp fun w' hw' => ?_
    obtain ⟨hcalls, hacc⟩ := hw'
    refine ⟨?_, hcalls.nullCalls⟩
    obtain ⟨_, _, -, rfl⟩ := hcalls
    exact .failedWaiting timer message text state info
      ⟨waits.live, waits.idles, waits.timers, waits.resolving, waits.released⟩ text'
      ⟨quiet.socket, quiet.incoming, quiet.outgoing, hacc, quiet.arrays, quiet.own⟩
      ⟨holds.sockets, holds.messages⟩ calm
  | failed message text state info waits text' quiet holds calm =>
    refine (runScript_down codec script (by rw [state]; trivial) quiet.accounted).imp fun w' hw' => ?_
    obtain ⟨hcalls, hacc⟩ := hw'
    refine ⟨?_, hcalls.nullCalls⟩
    obtain ⟨_, _, -, rfl⟩ := hcalls
    exact .failed message text state info
      ⟨waits.live, waits.idles, waits.timers, waits.resolving, waits.released⟩ text'
      ⟨quiet.socket, quiet.incoming, quiet.outgoing, hacc, quiet.arrays, quiet.own⟩
      ⟨holds.sockets, holds.messages⟩ calm
  | destroyed _ _ _ _ _ released _ _ _ =>
    exact absurd (hreleased.symm.trans released) (by simp)

/-! ## Steps -/

theorem step_idle_eq {idle : ℕ} {idles : List ℕ} (hresponding : w.responding = false)
    (hidles : w.idles = idle :: idles) (lookup : LookupOutcome) (connect : ConnectOutcome) :
    w.step codec (.idle lookup connect) =
      ClientWorld.handleInitIdle codec { w with idles := idles } lookup connect := by
  cases w
  dsimp only at hresponding hidles
  subst hresponding hidles
  rfl

theorem step_timeout_eq {timer : ℕ} {timers : List ℕ} (hresponding : w.responding = false)
    (htimers : w.timers = timer :: timers) (lookup : LookupOutcome) (connect : ConnectOutcome) :
    w.step codec (.timeout lookup connect) =
      ClientWorld.handleAutoreconnectTimeout codec { w with timers := timers } lookup connect := by
  cases w
  dsimp only at hresponding htimers
  subst hresponding htimers
  rfl

theorem step_idle (h : w.Inv reclosed) {lookup : LookupOutcome} {connect : ConnectOutcome}
    (hfresh : ∀ fd, connect.fd? = some fd → w.watched fd = none) :
    Ends ub (w.step codec (.idle lookup connect)) fun w' => w'.Inv reclosed ∧ w.NullCalls w' := by
  cases hresponding : w.responding with
  | true =>
    have hstay : w.step codec (.idle lookup connect) = .ok w := by
      unfold ClientWorld.step
      rw [hresponding]
    exact ends_of_ok hstay ⟨h, .refl w⟩
  | false =>
    cases hidles : w.idles with
    | nil =>
      have hstay : w.step codec (.idle lookup connect) = .ok w := by
        unfold ClientWorld.step
        rw [hresponding, hidles]
      exact ends_of_ok hstay ⟨h, .refl w⟩
    | cons idle idles =>
      obtain ⟨rfl, hstate, hwaits, hquiet, hholds⟩ := h.of_idles hidles
      rw [step_idle_eq codec hresponding hidles]
      unfold ClientWorld.handleInitIdle
      rw [if_neg (not_not.mpr hstate)]
      exact (beginNameLookup_spec codec (w := { w with idles := [] }) (.inl hstate)
        ⟨hwaits.live, rfl, hwaits.timers, hwaits.resolving, hwaits.released⟩
        ⟨hquiet.socket, hquiet.incoming, hquiet.outgoing, hquiet.accounted, hquiet.arrays, hquiet.own⟩
        ⟨hholds.sockets, hholds.messages⟩ hresponding lookup hfresh).imp
        fun w' hw' => ⟨hw'.1, hw'.2.congr rfl rfl⟩

theorem step_timeout (h : w.Inv reclosed) {lookup : LookupOutcome} {connect : ConnectOutcome}
    (hfresh : ∀ fd, connect.fd? = some fd → w.watched fd = none) :
    Ends ub (w.step codec (.timeout lookup connect)) fun w' => w'.Inv reclosed ∧ w.NullCalls w' := by
  cases hresponding : w.responding with
  | true =>
    have hstay : w.step codec (.timeout lookup connect) = .ok w := by
      unfold ClientWorld.step
      rw [hresponding]
    exact ends_of_ok hstay ⟨h, .refl w⟩
  | false =>
    cases htimers : w.timers with
    | nil =>
      have hstay : w.step codec (.timeout lookup connect) = .ok w := by
        unfold ClientWorld.step
        rw [hresponding, htimers]
      exact ends_of_ok hstay ⟨h, .refl w⟩
    | cons timer timers =>
      obtain ⟨rfl, hstate, hwaits, hquiet, -, message, text, hinfo, htext, hholds⟩ :=
        h.of_timers htimers
      rw [step_timeout_eq codec hresponding htimers]
      unfold ClientWorld.handleAutoreconnectTimeout
      rw [if_neg (not_not.mpr hstate)]
      simp only [hinfo, Store.free_ok htext, except_ok_bind]
      exact (beginNameLookup_spec codec (w := { w with
          timers := []
          errorMessages := ⟨w.errorMessages.cells.set message none⟩ }) (.inr hstate)
        ⟨hwaits.live, hwaits.idles, rfl, hwaits.resolving, hwaits.released⟩
        ⟨hquiet.socket, hquiet.incoming, hquiet.outgoing, hquiet.accounted, hquiet.arrays, hquiet.own⟩
        ⟨hholds.sockets, hholds.free htext⟩ hresponding lookup hfresh).imp
        fun w' hw' => ⟨hw'.1, hw'.2.congr rfl rfl⟩

theorem step_resolved (h : w.Inv reclosed) {found : Bool} {connect : ConnectOutcome}
    (hfresh : ∀ fd, connect.fd? = some fd → w.watched fd = none) :
    Ends ub (w.step codec (.resolved found connect)) fun w' => w'.Inv reclosed ∧ w.NullCalls w' := by
  unfold ClientWorld.step
  dsimp only
  by_cases hready : w.responding = false ∧ w.resolving = true
  · rw [if_pos hready]
    obtain ⟨info', hresolved⟩ := h.of_resolving hready.2
    cases found with
    | true =>
      exact (handleNameLookupSuccess_spec codec hresolved hfresh).imp
        fun w' hw' => ⟨hw'.1, hw'.2.congr rfl rfl⟩
    | false =>
      exact (handleNameLookupFailure_spec codec hresolved).imp
        fun w' hw' => ⟨hw'.1, hw'.2.congr rfl rfl⟩
  · rw [if_neg hready]
    exact ⟨h, .refl w⟩

theorem closesTwice_nil {label : ClientLabel μ} (h : ¬ w.DelayedFailure label) :
    w.closesTwice label = [] := if_neg h

/-- A connect in progress is reported; where it has failed, its file descriptor is closed twice. -/
theorem step_connectEvents (h : w.Inv reclosed) (error : SocketError) :
    Ends ub (w.step codec (.connectEvents error)) fun w' =>
      w'.Inv (reclosed ++ w.closesTwice (.connectEvents error)) ∧ w.NullCalls w' := by
  unfold ClientWorld.step
  dsimp only
  by_cases hready : w.responding = false ∧ w.registeredFor .clientConnectEvents 0 = true
  · rw [if_pos hready]
    obtain ⟨info', fd, hstate, hinfo, hwaits, hquiet, hholds, hcalm, hwatched⟩ :=
      h.of_connectEvents hready.2
    have htwice : reclosed ++ w.closesTwice (.connectEvents error) =
        if error = .fatal then reclosed ++ [fd] else reclosed := by
      unfold ClientWorld.closesTwice
      by_cases hfatal : error = .fatal
      · rw [if_pos hfatal, if_pos ⟨by rw [hfatal], hready.1, hready.2⟩, hquiet.socket]
        rfl
      · rw [if_neg hfatal, if_neg, List.append_nil]
        intro hfailure
        obtain rfl : error = .fatal := by simpa using hfailure.1
        exact hfatal rfl
    rw [htwice]
    exact handleClientFdConnectEvents_spec codec hstate hinfo hwaits hquiet hwatched hholds hcalm error
  · rw [if_neg hready, closesTwice_nil (fun hfailure => hready hfailure.2), List.append_nil]
    exact ⟨h, .refl w⟩

theorem step_events (h : w.Inv reclosed) (writable : Option WritevOutcome)
    (readable : Option ReadOutcome) :
    Ends ub (w.step codec (.events writable readable)) fun w' => w'.Inv reclosed ∧ w.NullCalls w' := by
  unfold ClientWorld.step
  dsimp only
  split_ifs with hready
  · obtain ⟨c, array, free, fd, hconn, hsent⟩ := h.of_events hready.2
    exact handleClientFdEvents_spec codec hconn hready.1 hsent writable readable
  · exact ⟨h, .refl w⟩

theorem step_respond (h : w.Inv reclosed) (hub : ¬ w.Room codec .respond → ub .access) :
    Ends ub (w.step codec .respond) fun w' => w'.Inv reclosed ∧ w.Calls codec reclosed .respond w' := by
  unfold ClientWorld.step
  dsimp only
  split_ifs with hresponding
  · obtain ⟨c, array, free, fd, hconn⟩ := h.of_responding hresponding
    refine (respond_spec codec hconn fun i cl closure msg hdelivers hfull => hub fun hroom => ?_).imp
      fun w' hw' => ?_
    · exact hfull (hroom c array i cl closure msg hdelivers)
    · obtain ⟨hinv, hnull, hnone⟩ | ⟨i, cl, closure, msg, hdelivers, hdelivered⟩ := hw'
      · refine ⟨hinv, .inl ⟨hnull, fun _ _ c' array' i cl closure msg hd => ?_⟩⟩
        obtain rfl : c = c' := by
          have hinfo := hconn.table.info.symm.trans hd.info
          simpa using hinfo
        obtain rfl : array = array' := Option.some.inj (hconn.table.get.symm.trans hd.get)
        exact hnone i cl closure msg hd
      · exact ⟨hdelivered.inv, .inr ⟨rfl, c, array, i, cl, closure, msg, hdelivers, hdelivered⟩⟩
  · exact ⟨h, .inl ⟨.refl w, fun _ hresponding' => absurd hresponding' hresponding⟩⟩

theorem step_invoke (h : w.Inv reclosed) {script : Script μ} (hproper : w.Proper (.invoke script))
    (htakes : w.Takes (.invoke script)) (hub : ¬ w.Room codec (.invoke script) → ub .access) :
    Ends ub (w.step codec (.invoke script)) fun w' => w'.Inv reclosed ∧ w.NullCalls w' := by
  unfold ClientWorld.step
  dsimp only
  split_ifs with husable
  · have hboth : w.responding = false ∧ w.released = false := by
      unfold ClientWorld.usable at husable
      simpa using husable
    exact h.runScript codec htakes hboth.2 hproper hub
  · exact ⟨h, .refl w⟩

theorem step_destroy (h : w.Inv reclosed) :
    Ends ub (w.step codec .destroy) fun w' => w'.Inv reclosed ∧ w.NullCalls w' := by
  unfold ClientWorld.step
  dsimp only
  split_ifs with husable
  · have hboth : w.responding = false ∧ w.released = false := by
      unfold ClientWorld.usable at husable
      simpa using husable
    exact h.destroy codec hboth.2 hboth.1
  · exact ⟨h, .refl w⟩

theorem step_setAutoreconnect (h : w.Inv reclosed) (millis : Option UInt32) :
    Ends ub (w.step codec (.setAutoreconnect millis)) fun w' => w'.Inv reclosed ∧ w.NullCalls w' := by
  have hnull : ∀ client, w.NullCalls { w with client := client } :=
    fun _ => ⟨[], by simp, (List.append_nil _).symm⟩
  unfold ClientWorld.step
  dsimp only
  split_ifs with husable
  · cases millis with
    | none => exact ⟨h.surrounded (fun _ _ => rfl) (fun _ hf => hf) false _, hnull _⟩
    | some millis => exact ⟨h.surrounded (fun _ _ => rfl) (fun _ hf => hf) true millis, hnull _⟩
  · exact ⟨h, .refl w⟩

theorem step_other (h : w.Inv reclosed) {call : DispatchCall} (hproper : w.Proper (.other call)) :
    Ends ub (w.step codec (.other call)) fun w' => w'.Inv reclosed ∧ w.NullCalls w' := by
  unfold ClientWorld.step
  dsimp only
  split_ifs with hours
  · exact ⟨h, .refl w⟩
  · have hinv : ClientWorld.Inv reclosed { w with watched := call.registers w.watched } :=
      h.surrounded (fun fd hfd => ?_) (fun f hf => ?_) w.client.autoreconnect
        w.client.autoreconnectMillis
    · exact ⟨hinv, [], by simp, (List.append_nil _).symm⟩
    · have hne : call.fd? ≠ some fd := by
        intro heq
        exact hours ⟨by rw [heq]; rfl, by rw [heq, hfd]⟩
      cases call with
      | watchFd fd' events callback => exact if_neg fun heq => hne (by rw [heq]; rfl)
      | fdClosed fd' => exact if_neg fun heq => hne (by rw [heq]; rfl)
      | clearChanges => rfl
    · obtain ⟨events, callback, hget, hown⟩ := hf
      cases call with
      | watchFd fd' events' callback' =>
        have hget' : (if f = fd' then callback'.map (events', ·) else w.watched f) =
          some (events, callback) := hget
        split_ifs at hget' with hf
        · cases callback' with
          | none => exact absurd hget' (by simp)
          | some callback' =>
            obtain rfl : callback' = callback := congrArg Prod.snd (Option.some.inj hget')
            exact absurd hown (hproper callback' rfl)
        · exact ⟨events, callback, hget', hown⟩
      | fdClosed fd' =>
        have hget' : (if f = fd' then none else w.watched f) = some (events, callback) := hget
        split_ifs at hget' with hf
        exact ⟨events, callback, hget', hown⟩
      | clearChanges => exact ⟨events, callback, hget, hown⟩

theorem step_spec (h : w.Inv reclosed) {label : ClientLabel μ} (hproper : w.Proper label)
    (htakes : w.Takes label) (hub : ¬ w.Room codec label → ub .access) :
    Ends ub (w.step codec label) fun w' =>
      w'.Inv (reclosed ++ w.closesTwice label) ∧ w.Calls codec reclosed label w' := by
  have hnull : ∀ {w' : ClientWorld μ}, ¬ w.DelayedFailure label → label ≠ .respond →
      w'.Inv reclosed ∧ w.NullCalls w' →
      w'.Inv (reclosed ++ w.closesTwice label) ∧ w.Calls codec reclosed label w' := by
    intro w' hnot hne hw'
    rw [closesTwice_nil hnot, List.append_nil]
    exact ⟨hw'.1, .inl ⟨hw'.2, fun heq => absurd heq hne⟩⟩
  cases label with
  | idle lookup connect =>
    exact (step_idle codec h hproper).imp fun w' => hnull (fun hf => absurd hf.1 (by simp)) (by simp)
  | resolved found connect =>
    exact (step_resolved codec h hproper).imp fun w' => hnull (fun hf => absurd hf.1 (by simp)) (by simp)
  | connectEvents error =>
    exact (step_connectEvents codec h error).imp fun w' hw' =>
      ⟨hw'.1, .inl ⟨hw'.2, fun heq => absurd heq (by simp)⟩⟩
  | events writable readable =>
    exact (step_events codec h writable readable).imp fun w' =>
      hnull (fun hf => absurd hf.1 (by simp)) (by simp)
  | respond =>
    rw [closesTwice_nil (fun hf => absurd hf.1 (by simp)), List.append_nil]
    exact step_respond codec h hub
  | timeout lookup connect =>
    exact (step_timeout codec h hproper).imp fun w' => hnull (fun hf => absurd hf.1 (by simp)) (by simp)
  | invoke script =>
    exact (step_invoke codec h hproper htakes hub).imp fun w' =>
      hnull (fun hf => absurd hf.1 (by simp)) (by simp)
  | destroy => exact (step_destroy codec h).imp fun w' => hnull (fun hf => absurd hf.1 (by simp)) (by simp)
  | setAutoreconnect millis =>
    exact (step_setAutoreconnect codec h millis).imp fun w' =>
      hnull (fun hf => absurd hf.1 (by simp)) (by simp)
  | other call =>
    exact (step_other codec h hproper).imp fun w' => hnull (fun hf => absurd hf.1 (by simp)) (by simp)

/-! ## The start -/

/-- Nothing of a client that is new is registered. -/
def Unregistered (self : ℕ) (watched : Registered) : Prop :=
  ∀ fd events callback, watched fd = some (events, callback) → callback ∉ ownCallbacks self

theorem rpcClientNew_inv {self : ℕ} {watched : Registered} (h : Unregistered self watched)
    (type : AddressType) (name : List UInt8) (descriptor : ServiceDescriptor) :
    (rpcClientNew self type name descriptor watched : ClientWorld μ).Inv [] := by
  refine .init 0 rfl rfl ⟨rfl, rfl, rfl, rfl, rfl⟩ ⟨rfl, rfl, rfl, List.Perm.refl _, fun j => ?_, ?_⟩
    ⟨List.Perm.refl _, fun j text hj => ?_⟩ rfl
  · exact Store.get_empty j
  · intro f hf
    obtain ⟨events, callback, hget, hown⟩ := hf
    exact absurd hown (h f events callback hget)
  · rw [show (rpcClientNew self type name descriptor watched : ClientWorld μ).errorMessages =
      .empty from rfl, Store.get_empty] at hj
    exact absurd hj (by simp)

end

end ProtobufC
