import ProtobufC.Rpc.ClientInvariant

/-! # The states of the client

What holds in each state of a client, and that every step of a run leads from one state to another.
-/

namespace ProtobufC
open Library
set_option autoImplicit false

variable {μ : Type} (codec : Codec μ) {ub : Fault → Prop}

/-! ## States -/

namespace ClientWorld

/-- What is still to come from the dispatcher, the resolver and the user. -/
structure Waits (w : ClientWorld μ) (idles timers : List ℕ) (resolving released : Bool) : Prop where
  live : w.live = true
  idles : w.idles = idles
  timers : w.timers = timers
  resolving : w.resolving = resolving
  released : w.released = released

/-- There is no connection: the buffers are empty, every closure was called, and every table was
freed. -/
structure Quiet (w : ClientWorld μ) (fd : Option ℕ) : Prop where
  socket : w.client.fd = fd
  incoming : w.client.incoming = []
  outgoing : w.client.outgoing = []
  accounted : w.Accounted [] []
  arrays : ∀ j, w.arrays.get j = none
  own : ∀ f, w.Serves f → fd = some f

/-- Every file descriptor that was opened is that of the client or was closed, those of `reclosed` once
more than that, and every error message but that of the client was freed. -/
structure Holds (w : ClientWorld μ) (reclosed : List ℕ) (message : Option ℕ) : Prop where
  sockets : (w.closed ++ w.client.fd.toList).Perm (w.opened ++ reclosed)
  messages : ∀ j text, w.errorMessages.get j = some text → message = some j

/-- A client with a connection. -/
structure Connected (w : ClientWorld μ) (reclosed : List ℕ) (c : ConnectedInfo)
    (array : List (Closure μ)) (free : List (ℕ × Closure μ)) (fd : ℕ) : Prop where
  waits : w.Waits [] [] false false
  holds : w.Holds reclosed none
  table : w.HasTable c array free
  watching : w.Watching fd
  accounted : w.Accounted (outstanding array) []

/-- A client in one of its states, between two steps. -/
inductive Inv (reclosed : List ℕ) (w : ClientWorld μ) : Prop
  | init (idle : ℕ) (state : w.client.state = .init) (info : w.client.info = .init idle)
      (waits : w.Waits [idle] [] false false) (quiet : w.Quiet none) (holds : w.Holds reclosed none)
      (calm : w.responding = false)
  | nameLookup (info' : NameLookupInfo) (state : w.client.state = .nameLookup)
      (info : w.client.info = .nameLookup info') (pending : info'.pending = true)
      (waits : w.Waits [] [] true info'.destroyedWhilePending) (quiet : w.Quiet none)
      (holds : w.Holds reclosed none) (calm : w.responding = false)
  | connecting (info' : NameLookupInfo) (fd : ℕ) (state : w.client.state = .connecting)
      (info : w.client.info = .nameLookup info') (waits : w.Waits [] [] false false)
      (quiet : w.Quiet (some fd)) (holds : w.Holds reclosed none)
      (watched : w.watched fd = some (eventReadable ||| eventWritable,
        RpcHandler.clientConnectEvents.callback w.self)) (calm : w.responding = false)
  | connected (c : ConnectedInfo) (array : List (Closure μ)) (free : List (ℕ × Closure μ)) (fd : ℕ)
      (connected : w.Connected reclosed c array free fd)
  | failedWaiting (timer message : ℕ) (text : String) (state : w.client.state = .failedWaiting)
      (info : w.client.info = .failedWaiting timer message)
      (waits : w.Waits [] [timer] false false) (text : w.errorMessages.get message = some text)
      (quiet : w.Quiet none) (holds : w.Holds reclosed (some message)) (calm : w.responding = false)
  | failed (message : ℕ) (text : String) (state : w.client.state = .failed)
      (info : w.client.info = .failed message) (waits : w.Waits [] [] false false)
      (text : w.errorMessages.get message = some text) (quiet : w.Quiet none)
      (holds : w.Holds reclosed (some message)) (calm : w.responding = false)
  | destroyed (state : w.client.state = .destroyed) (live : w.live = false) (idles : w.idles = [])
      (timers : w.timers = []) (resolving : w.resolving = false) (released : w.released = true)
      (quiet : w.Quiet none) (holds : w.Holds reclosed none) (calm : w.responding = false)

/-- Closures are called with NULL only. -/
def NullCalls (w w' : ClientWorld μ) : Prop :=
  ∃ calls, (∀ call ∈ calls, call.2 = none) ∧ w'.called = w.called ++ calls

theorem NullCalls.refl (w : ClientWorld μ) : w.NullCalls w := ⟨[], by simp, by rw [List.append_nil]⟩

theorem OnlyCalls.nullCalls {w w' : ClientWorld μ} (h : w.OnlyCalls w') : w.NullCalls w' := by
  obtain ⟨n, calls, hnull, rfl⟩ := h
  exact ⟨calls, hnull, rfl⟩

theorem NullCalls.congr {w w' v v' : ClientWorld μ} (h : w.NullCalls w') (hv : v.called = w.called)
    (hv' : v'.called = w'.called) : v.NullCalls v' := by
  obtain ⟨calls, hnull, heq⟩ := h
  exact ⟨calls, hnull, by rw [hv', heq, hv]⟩

end ClientWorld

/-! ## Failure and destruction -/

section
variable {w : ClientWorld μ} {reclosed : List ℕ}

/-- The closures that are given up, as the table that is taken over has them; no other table is left. -/
def ClientWorld.Abandons (w : ClientWorld μ) (closures : Option ConnectedInfo) (waiting : List ℕ) :
    Prop :=
  match closures with
  | none => waiting = [] ∧ ∀ j, w.arrays.get j = none
  | some c => ∃ array, w.arrays.get c.closures = some array ∧
      array.length = c.closuresAlloced.toNat ∧
      (∀ cl ∈ array, cl.responseType ≠ none → ∃ passed, cl.closure = some passed) ∧
      waiting = outstanding array ∧ ∀ j a, w.arrays.get j = some a → j = c.closures

theorem ClientWorld.Quiet.abandons {fd : Option ℕ} (h : w.Quiet fd) : w.Abandons none [] :=
  ⟨rfl, h.arrays⟩

theorem ClientWorld.HasTable.abandons {c : ConnectedInfo} {array : List (Closure μ)}
    {free : List (ℕ × Closure μ)} (h : w.HasTable c array free) :
    w.Abandons (some c) (outstanding array) := by
  refine ⟨array, h.get, h.length, fun cl hcl hused => ?_, rfl, h.only⟩
  obtain ⟨i, hi⟩ := List.mem_iff_getElem?.mp hcl
  exact h.free.used i cl hi hused

theorem abandonClosures_spec {closures : Option ConnectedInfo} {waiting : List ℕ}
    (h : w.Abandons closures waiting) (hdown : w.client.state.Down) (ha : w.Accounted waiting []) :
    Ends ub (w.abandonClosures codec closures) fun w' =>
      ∃ arrays w₁, w.OnlyCalls w₁ ∧ w₁.Accounted [] [] ∧ w' = { w₁ with arrays := arrays } ∧
        ∀ j, arrays.get j = none := by
  cases closures with
  | none =>
    obtain ⟨rfl, hnone⟩ : waiting = [] ∧ _ := h
    exact ⟨w.arrays, w, .refl w, ha, rfl, hnone⟩
  | some c =>
    obtain ⟨array, hget, hlen, hused, rfl, honly⟩ := h
    unfold ClientWorld.abandonClosures
    simp only [Store.load_ok.mpr hget, except_ok_bind]
    rw [if_neg (by omega), ← hlen, List.take_length]
    rw [← List.append_nil (outstanding array)] at ha
    refine (callClosures_down codec array hused hdown ha).bind fun w₁ h₁ => ?_
    have hsame : w₁.arrays = w.arrays := by
      obtain ⟨_, _, -, rfl⟩ := h₁.1
      rfl
    simp only [hsame, Store.free_ok hget, except_ok_bind, except_pure, ends_ok]
    refine ⟨_, w₁, h₁.1, h₁.2, rfl, fun j => ?_⟩
    rw [Store.get_set hget]
    split_ifs with hj
    · rfl
    · cases hold : w.arrays.get j with
      | none => rfl
      | some a => exact absurd (honly j a hold) hj

theorem abandonFd_eq (w : ClientWorld μ) : ∃ watched,
    w.abandonFd = { w with
      watched := watched
      closed := w.closed ++ w.client.fd.toList
      client := { w.client with fd := none } } ∧
    ((∀ f, w.Serves f → w.client.fd = some f) → ∀ f, ¬ w.abandonFd.Serves f) := by
  unfold ClientWorld.abandonFd
  cases hfd : w.client.fd with
  | none =>
    have hclient : { w.client with fd := none } = w.client := by rw [← hfd]
    refine ⟨w.watched, ?_, fun hown f hf => absurd (hown f hf) (by simp)⟩
    rw [hclient, Option.toList_none, List.append_nil]
  | some fd =>
    refine ⟨(w.closeFd fd).watched, rfl, fun hown f hf => ?_⟩
    obtain ⟨hne, hold⟩ : f ≠ fd ∧ w.Serves f := serves_closeFd hf
    exact hne (Option.some.inj (hown f hold)).symm

theorem ClientWorld.Holds.alloc {reclosed : List ℕ} (h : w.Holds reclosed none) (text : String) :
    (w.errorMessages.alloc text).2.get (w.errorMessages.alloc text).1 = some text ∧
      ∀ j text', (w.errorMessages.alloc text).2.get j = some text' →
        some (w.errorMessages.alloc text).1 = some j := by
  refine ⟨by rw [Store.get_alloc, if_pos rfl], fun j text' hj => ?_⟩
  rw [Store.get_alloc] at hj
  split_ifs at hj with hnew
  · rw [hnew]
  · exact absurd (h.messages j text' hj) (by simp)

theorem ClientWorld.Holds.free {reclosed : List ℕ} {message : ℕ} {text : String}
    (h : w.Holds reclosed (some message)) (ht : w.errorMessages.get message = some text) :
    ∀ j text', (Store.mk (w.errorMessages.cells.set message none)).get j = some text' →
      (none : Option ℕ) = some j := by
  intro j text' hj
  rw [Store.get_set ht] at hj
  split_ifs at hj with hsame
  exact absurd (Option.some.inj (h.messages j text' hj)).symm hsame

/-- `client_failed` leads to one of the failed states, and calls the closures that wait. -/
theorem clientFailed_spec {closures : Option ConnectedInfo} {waiting reclosed : List ℕ}
    (hfailing : ClientWorld.failingTable w.client = .ok closures) (h : w.Abandons closures waiting)
    (hwaits : w.Waits [] [] false false) (ha : w.Accounted waiting []) (hholds : w.Holds reclosed none)
    (hown : ∀ f, w.Serves f → w.client.fd = some f) (hcalm : w.responding = false)
    (format_str : String) :
    Ends ub (w.clientFailed codec format_str) fun w' =>
      w'.Inv reclosed ∧ w.NullCalls w' ∧ w'.client.state.Down := by
  obtain ⟨watched, hfd, hserves⟩ := abandonFd_eq w
  have hnone := hserves hown
  rw [hfd] at hnone
  obtain ⟨htext, honly⟩ := hholds.alloc format_str
  unfold ClientWorld.clientFailed
  simp only [hfailing, except_ok_bind, hfd]
  by_cases hauto : w.client.autoreconnect = true
  · rw [if_pos hauto]
    refine Ends.imp (abandonClosures_spec codec h ?_ ha) ?_
    · trivial
    · intro w' hw'
      obtain ⟨arrays, w₁, hcalls, hacc, rfl, harrays⟩ := hw'
      have hnull := hcalls.nullCalls
      obtain ⟨n, calls, hcallsnull, rfl⟩ := hcalls
      refine ⟨?_, hnull.congr rfl rfl, trivial⟩
      refine .failedWaiting w.nextHandle (w.errorMessages.alloc format_str).1 format_str rfl rfl
        ⟨hwaits.live, hwaits.idles, ?_, hwaits.resolving, hwaits.released⟩ htext
        ⟨rfl, rfl, rfl, hacc, harrays, fun f hf => absurd hf (hnone f)⟩ ⟨?_, honly⟩ hcalm
      · show w.timers ++ [w.nextHandle] = _
        rw [hwaits.timers, List.nil_append]
      · show ((w.closed ++ w.client.fd.toList) ++ []).Perm _
        rw [List.append_nil]
        exact hholds.sockets
  · rw [if_neg hauto]
    refine Ends.imp (abandonClosures_spec codec h ?_ ha) ?_
    · trivial
    · intro w' hw'
      obtain ⟨arrays, w₁, hcalls, hacc, rfl, harrays⟩ := hw'
      have hnull := hcalls.nullCalls
      obtain ⟨n, calls, hcallsnull, rfl⟩ := hcalls
      refine ⟨?_, hnull.congr rfl rfl, trivial⟩
      refine .failed (w.errorMessages.alloc format_str).1 format_str rfl rfl
        ⟨hwaits.live, hwaits.idles, hwaits.timers, hwaits.resolving, hwaits.released⟩ htext
        ⟨rfl, rfl, rfl, hacc, harrays, fun f hf => absurd hf (hnone f)⟩ ⟨?_, honly⟩ hcalm
      show ((w.closed ++ w.client.fd.toList) ++ []).Perm _
      rw [List.append_nil]
      exact hholds.sockets

theorem destroyClientRpc_spec {w₁ : ClientWorld μ} {closures : Option ConnectedInfo}
    {waiting reclosed : List ℕ} (hrelease : w.releaseState = .ok (w₁, some closures))
    (h : w₁.Abandons closures waiting) (hwaits : w₁.Waits [] [] false true)
    (ha : w₁.Accounted waiting []) (hholds : w₁.Holds reclosed none)
    (hown : ∀ f, w₁.Serves f → w₁.client.fd = some f) (hcalm : w₁.responding = false) :
    Ends ub (w.destroyClientRpc codec) fun w' =>
      w'.Inv reclosed ∧ w₁.NullCalls w' ∧ w'.client.state.Down := by
  obtain ⟨watched, hfd, hserves⟩ := abandonFd_eq w₁
  have hnone := hserves hown
  rw [hfd] at hnone
  unfold ClientWorld.destroyClientRpc
  simp only [hrelease, except_ok_bind, hfd]
  refine Ends.bind (abandonClosures_spec codec h ?_ ha) ?_
  · trivial
  · intro w' hw'
    obtain ⟨arrays, w₂, hcalls, hacc, rfl, harrays⟩ := hw'
    have hnull := hcalls.nullCalls
    obtain ⟨n, calls, hcallsnull, rfl⟩ := hcalls
    refine ⟨.destroyed rfl rfl hwaits.idles hwaits.timers hwaits.resolving hwaits.released
      ⟨rfl, rfl, rfl, hacc, harrays, fun f hf => absurd hf (hnone f)⟩ ⟨?_, hholds.messages⟩ hcalm,
      hnull.congr rfl rfl, trivial⟩
    show ((w₁.closed ++ w₁.client.fd.toList) ++ []).Perm _
    rw [List.append_nil]
    exact hholds.sockets

theorem ClientWorld.Quiet.serves {fd : Option ℕ} (h : w.Quiet fd) :
    ∀ f, w.Serves f → w.client.fd = some f := by
  intro f hf
  rw [h.socket]
  exact h.own f hf

theorem ClientWorld.Watching.serves {fd : ℕ} (h : w.Watching fd) :
    ∀ f, w.Serves f → w.client.fd = some f := by
  intro f hf
  rw [h.own f hf]
  exact h.socket

theorem ClientWorld.Inv.destroy {reclosed : List ℕ} (h : w.Inv reclosed)
    (hreleased : w.released = false) (hcalm : w.responding = false) :
    Ends ub (ClientWorld.destroyClientRpc codec { w with released := true }) fun w' =>
      w'.Inv reclosed ∧ w.NullCalls w' := by
  have hdrop : ∀ {w₁ w' : ClientWorld μ}, w₁.called = w.called →
      w'.Inv reclosed ∧ w₁.NullCalls w' ∧ w'.client.state.Down → w'.Inv reclosed ∧ w.NullCalls w' := by
    intro w₁ w' hcalled hw'
    exact ⟨hw'.1, hw'.2.1.congr hcalled.symm rfl⟩
  cases h with
  | init idle state info waits quiet holds calm =>
    let w₁ : ClientWorld μ := { w with released := true, idles := [] }
    have hrelease : ClientWorld.releaseState { w with released := true } = .ok (w₁, some none) := by
      unfold ClientWorld.releaseState
      simp only [state, info, waits.idles, removeHandle, if_pos (List.mem_singleton_self idle),
        List.erase_cons_head, except_ok_bind]
      rfl
    refine (destroyClientRpc_spec codec hrelease quiet.abandons ?_ quiet.accounted
      ⟨holds.sockets, holds.messages⟩ quiet.serves calm).imp fun w' hw' => hdrop rfl hw'
    exact ⟨waits.live, rfl, waits.timers, waits.resolving, rfl⟩
  | nameLookup info' state info pending waits quiet holds calm =>
    have hlater : ClientWorld.destroyClientRpc codec { w with released := true } =
        .ok (ClientWorld.setInfo { w with released := true }
          (.nameLookup { info' with destroyedWhilePending := true })) := by
      unfold ClientWorld.destroyClientRpc ClientWorld.releaseState
      simp only [state, info, Info.toNameLookup, except_ok_bind, pending, if_true]
      rfl
    refine ends_of_ok hlater ⟨?_, [], by simp, (List.append_nil _).symm⟩
    exact .nameLookup { info' with destroyedWhilePending := true } state rfl pending
      ⟨waits.live, waits.idles, waits.timers, waits.resolving, rfl⟩
      ⟨quiet.socket, quiet.incoming, quiet.outgoing, quiet.accounted, quiet.arrays, quiet.own⟩
      ⟨holds.sockets, holds.messages⟩ calm
  | connecting info' fd state info waits quiet holds watched calm =>
    have hrelease : ClientWorld.releaseState { w with released := true } =
        .ok ({ w with released := true }, some none) := by
      unfold ClientWorld.releaseState
      simp only [state]
      rfl
    refine (destroyClientRpc_spec codec hrelease quiet.abandons ?_ quiet.accounted
      ⟨holds.sockets, holds.messages⟩ quiet.serves calm).imp fun w' hw' => hdrop rfl hw'
    exact ⟨waits.live, waits.idles, waits.timers, waits.resolving, rfl⟩
  | connected c array free fd connected =>
    obtain ⟨waits, holds, table, watching, accounted⟩ := connected
    have hrelease : ClientWorld.releaseState { w with released := true } =
        .ok ({ w with released := true }, some (some c)) := by
      unfold ClientWorld.releaseState
      simp only [table.state, table.info, Info.toConnected, except_ok_bind]
      rfl
    refine (destroyClientRpc_spec codec hrelease table.abandons ?_ accounted
      ⟨holds.sockets, holds.messages⟩ watching.serves hcalm).imp fun w' hw' => hdrop rfl hw'
    exact ⟨waits.live, waits.idles, waits.timers, waits.resolving, rfl⟩
  | failedWaiting timer message text state info waits text' quiet holds calm =>
    let w₁ : ClientWorld μ := { w with
      released := true
      timers := []
      errorMessages := ⟨w.errorMessages.cells.set message none⟩ }
    have hrelease : ClientWorld.releaseState { w with released := true } = .ok (w₁, some none) := by
      unfold ClientWorld.releaseState
      simp only [state, info, waits.timers, removeHandle, if_pos (List.mem_singleton_self timer),
        List.erase_cons_head, except_ok_bind, Store.free_ok text']
      rfl
    refine (destroyClientRpc_spec codec hrelease quiet.abandons ?_ quiet.accounted
      ⟨holds.sockets, holds.free text'⟩ quiet.serves calm).imp fun w' hw' => hdrop rfl hw'
    exact ⟨waits.live, waits.idles, rfl, waits.resolving, rfl⟩
  | failed message text state info waits text' quiet holds calm =>
    let w₁ : ClientWorld μ := { w with
      released := true
      errorMessages := ⟨w.errorMessages.cells.set message none⟩ }
    have hrelease : ClientWorld.releaseState { w with released := true } = .ok (w₁, some none) := by
      unfold ClientWorld.releaseState
      simp only [state, info, except_ok_bind, Store.free_ok text']
      rfl
    refine (destroyClientRpc_spec codec hrelease quiet.abandons ?_ quiet.accounted
      ⟨holds.sockets, holds.free text'⟩ quiet.serves calm).imp fun w' hw' => hdrop rfl hw'
    exact ⟨waits.live, waits.idles, waits.timers, waits.resolving, rfl⟩
  | destroyed state live idles timers resolving released quiet holds calm =>
    rw [released] at hreleased
    exact absurd hreleased (by simp)

/-! ## Connecting -/

/-- A client that looks a name up, when the lookup is over. -/
structure ClientWorld.Looking (w : ClientWorld μ) (reclosed : List ℕ) : Prop where
  state : w.client.state = .nameLookup
  info : ∃ info', w.client.info = .nameLookup info' ∧ info'.pending = false
  waits : w.Waits [] [] false false
  quiet : w.Quiet none
  holds : w.Holds reclosed none
  calm : w.responding = false

theorem ClientWorld.Looking.failing (h : w.Looking reclosed) :
    ClientWorld.failingTable w.client = .ok none := by
  obtain ⟨info', hinfo, hpending⟩ := h.info
  unfold ClientWorld.failingTable
  simp only [h.state, hinfo, Info.toNameLookup, except_ok_bind, hpending]
  rfl

theorem setStateConnected_inv {fd : ℕ} (hwaits : w.Waits [] [] false false)
    (hquiet : w.Quiet (some fd)) (hholds : w.Holds reclosed none) (hwatched : w.watched fd = none) :
    w.setStateConnected.Inv reclosed := by
  let r := w.arrays.alloc [Closure.unused 0]
  refine .connected ⟨1, 1, r.1⟩ [.unused 0] [(0, .unused 0)] fd
    ⟨⟨hwaits.live, hwaits.idles, hwaits.timers, hwaits.resolving, hwaits.released⟩,
      ⟨hholds.sockets, hholds.messages⟩, ⟨setStateConnected_table w, rfl, ?_, ?_, ?_, ?_, ?_⟩,
      ⟨hquiet.socket, ?_, fun _ => hquiet.outgoing, ?_⟩, ?_⟩
  · intro j a hj
    have hget : w.setStateConnected.arrays.get j = if j = r.1 then some [.unused 0]
      else w.arrays.get j := Store.get_alloc w.arrays [Closure.unused 0] j
    rw [hget] at hj
    split_ifs at hj with hnew
    · exact hnew
    · rw [hquiet.arrays j] at hj
      exact absurd hj (by simp)
  · intro i cl k hi hk
    have hcl : cl = .unused 0 := List.mem_singleton.mp (List.mem_of_getElem? hi)
    rw [hcl] at hk
    exact absurd hk (by simp [Closure.waiting, Closure.unused])
  · intro cl hcl passed hpassed
    rw [List.mem_singleton.mp hcl] at hpassed
    exact absurd hpassed (by simp [Closure.unused])
  · exact fun p hp => absurd hp List.not_mem_nil
  · exact fun p hp => absurd hp List.not_mem_nil
  · exact hwatched
  · exact fun f hf => (Option.some.inj (hquiet.own f hf)).symm
  · exact hquiet.accounted

theorem beginConnecting_spec (h : w.Looking reclosed) {connect : ConnectOutcome}
    (hfresh : ∀ fd, connect.fd? = some fd → w.watched fd = none) :
    Ends ub (w.beginConnecting codec connect) fun w' => w'.Inv reclosed ∧ w.NullCalls w' := by
  obtain ⟨info', hinfo, hpending⟩ := h.info
  have hwaits := h.waits
  have hquiet := h.quiet
  have hholds := h.holds
  have hnone : w.client.fd.toList = [] := by rw [hquiet.socket]; rfl
  have hclosed : w.closed.Perm (w.opened ++ reclosed) := by
    have hsockets := hholds.sockets
    rw [hnone, List.append_nil] at hsockets
    exact hsockets
  have hopen : ∀ fd, (w.closed ++ [fd]).Perm ((w.opened ++ [fd]) ++ reclosed) := by
    intro fd
    rw [List.append_assoc]
    exact (List.perm_append_singleton fd _).trans
      ((hclosed.cons fd).trans List.perm_middle.symm)
  have hown : ∀ f, ¬ w.Serves f := fun f hf => absurd (hquiet.own f hf) (by simp)
  unfold ClientWorld.beginConnecting
  rw [if_neg (not_not.mpr h.state)]
  cases connect with
  | noSocket =>
    refine (clientFailed_spec codec (w := { w with
      opened := w.opened ++ []
      client := { w.client with state := .connecting, fd := none } }) rfl ⟨rfl, hquiet.arrays⟩
      ⟨hwaits.live, hwaits.idles, hwaits.timers, hwaits.resolving, hwaits.released⟩ hquiet.accounted
      ⟨?_, hholds.messages⟩ (fun f hf => absurd hf (hown f)) h.calm _).imp
      fun w' hw' => ⟨hw'.1, hw'.2.1.congr rfl rfl⟩
    show (w.closed ++ []).Perm ((w.opened ++ []) ++ reclosed)
    rw [List.append_nil, List.append_nil]
    exact hclosed
  | inProgress fd =>
    refine ⟨.connecting info' fd rfl hinfo
      ⟨hwaits.live, hwaits.idles, hwaits.timers, hwaits.resolving, hwaits.released⟩
      ⟨rfl, hquiet.incoming, hquiet.outgoing, hquiet.accounted, hquiet.arrays, fun f hf => ?_⟩
      ⟨hopen fd, hholds.messages⟩ ?_ h.calm, [], by simp, (List.append_nil _).symm⟩
    · obtain rfl | hold := serves_watchFd hf
      · rfl
      · exact absurd hold (hown f)
    · exact watchFd_watched _ fd _ .clientConnectEvents
  | refused fd =>
    refine (clientFailed_spec codec (w := { w with
      opened := w.opened ++ [fd]
      closed := w.closed ++ [fd]
      client := { w.client with state := .connecting, fd := none } }) rfl ⟨rfl, hquiet.arrays⟩
      ⟨hwaits.live, hwaits.idles, hwaits.timers, hwaits.resolving, hwaits.released⟩ hquiet.accounted
      ⟨?_, hholds.messages⟩ (fun f hf => absurd hf (hown f)) h.calm _).imp
      fun w' hw' => ⟨hw'.1, hw'.2.1.congr rfl rfl⟩
    show ((w.closed ++ [fd]) ++ []).Perm _
    rw [List.append_nil]
    exact hopen fd
  | connected fd =>
    have hconnected : ClientWorld.Quiet { w with
        opened := w.opened ++ [fd]
        client := { w.client with state := .connecting, fd := some fd } } (some fd) :=
      ⟨rfl, hquiet.incoming, hquiet.outgoing, hquiet.accounted, hquiet.arrays,
        fun f hf => absurd hf (hown f)⟩
    exact ⟨setStateConnected_inv
      ⟨hwaits.live, hwaits.idles, hwaits.timers, hwaits.resolving, hwaits.released⟩ hconnected
      ⟨hopen fd, hholds.messages⟩ (hfresh fd rfl), [], by simp, (List.append_nil _).symm⟩

/-- A client that looks a name up, when the resolver calls back. -/
structure ClientWorld.Resolved (w : ClientWorld μ) (reclosed : List ℕ) (info' : NameLookupInfo) :
    Prop where
  state : w.client.state = .nameLookup
  info : w.client.info = .nameLookup info'
  pending : info'.pending = true
  waits : w.Waits [] [] false info'.destroyedWhilePending
  quiet : w.Quiet none
  holds : w.Holds reclosed none
  calm : w.responding = false

theorem ClientWorld.Resolved.destroy {info' : NameLookupInfo} (h : w.Resolved reclosed info')
    (hdestroyed : info'.destroyedWhilePending = true) :
    Ends ub ((w.setInfo (.nameLookup { info' with pending := false })).destroyClientRpc codec)
      fun w' => w'.Inv reclosed ∧ w.NullCalls w' := by
  have hwaits := h.waits
  rw [hdestroyed] at hwaits
  have hrelease : (w.setInfo (.nameLookup { info' with pending := false })).releaseState =
      .ok (w.setInfo (.nameLookup { info' with pending := false }), some none) := by
    unfold ClientWorld.releaseState ClientWorld.setInfo
    simp only [h.state, Info.toNameLookup, except_ok_bind]
    rfl
  refine (destroyClientRpc_spec codec hrelease h.quiet.abandons ?_ h.quiet.accounted
    ⟨h.holds.sockets, h.holds.messages⟩ h.quiet.serves h.calm).imp
    fun w' hw' => ⟨hw'.1, hw'.2.1.congr rfl rfl⟩
  exact ⟨hwaits.live, hwaits.idles, hwaits.timers, hwaits.resolving, hwaits.released⟩

theorem ClientWorld.Resolved.looking {info' : NameLookupInfo} (h : w.Resolved reclosed info')
    (hdestroyed : ¬ info'.destroyedWhilePending = true) :
    (w.setInfo (.nameLookup { info' with pending := false })).Looking reclosed := by
  have hwaits := h.waits
  rw [Bool.not_eq_true] at hdestroyed
  rw [hdestroyed] at hwaits
  exact ⟨h.state, ⟨_, rfl, rfl⟩,
    ⟨hwaits.live, hwaits.idles, hwaits.timers, hwaits.resolving, hwaits.released⟩,
    ⟨h.quiet.socket, h.quiet.incoming, h.quiet.outgoing, h.quiet.accounted, h.quiet.arrays,
      h.quiet.own⟩, ⟨h.holds.sockets, h.holds.messages⟩, h.calm⟩

theorem handleNameLookupSuccess_spec {info' : NameLookupInfo} (h : w.Resolved reclosed info')
    {connect : ConnectOutcome} (hfresh : ∀ fd, connect.fd? = some fd → w.watched fd = none) :
    Ends ub (w.handleNameLookupSuccess codec connect) fun w' => w'.Inv reclosed ∧ w.NullCalls w' := by
  unfold ClientWorld.handleNameLookupSuccess
  rw [if_neg (not_not.mpr h.state)]
  simp only [h.info, Info.toNameLookup, except_ok_bind]
  rw [if_neg (not_not.mpr h.pending)]
  by_cases hdestroyed : info'.destroyedWhilePending = true
  · rw [if_pos hdestroyed]
    exact h.destroy codec hdestroyed
  · rw [if_neg hdestroyed]
    exact (beginConnecting_spec codec (h.looking hdestroyed) hfresh).imp
      fun w' hw' => ⟨hw'.1, hw'.2.congr rfl rfl⟩

theorem handleNameLookupFailure_spec {info' : NameLookupInfo} (h : w.Resolved reclosed info') :
    Ends ub (w.handleNameLookupFailure codec) fun w' => w'.Inv reclosed ∧ w.NullCalls w' := by
  unfold ClientWorld.handleNameLookupFailure
  rw [if_neg (not_not.mpr h.state)]
  simp only [h.info, Info.toNameLookup, except_ok_bind]
  rw [if_neg (not_not.mpr h.pending)]
  by_cases hdestroyed : info'.destroyedWhilePending = true
  · rw [if_pos hdestroyed]
    exact h.destroy codec hdestroyed
  · rw [if_neg hdestroyed]
    have hlooking := h.looking hdestroyed
    exact (clientFailed_spec codec hlooking.failing hlooking.quiet.abandons hlooking.waits
      hlooking.quiet.accounted hlooking.holds hlooking.quiet.serves hlooking.calm _).imp
      fun w' hw' => ⟨hw'.1, hw'.2.1.congr rfl rfl⟩

theorem beginNameLookup_spec (hstate : w.client.state = .init ∨ w.client.state = .failedWaiting)
    (hwaits : w.Waits [] [] false false) (hquiet : w.Quiet none) (hholds : w.Holds reclosed none)
    (hcalm : w.responding = false) (lookup : LookupOutcome) {connect : ConnectOutcome}
    (hfresh : ∀ fd, connect.fd? = some fd → w.watched fd = none) :
    Ends ub (w.beginNameLookup codec lookup connect) fun w' => w'.Inv reclosed ∧ w.NullCalls w' := by
  have hmay : ¬ (w.client.state ≠ .init ∧ w.client.state ≠ .failedWaiting ∧
      w.client.state ≠ .failed) := by
    intro h
    obtain hinit | hfailed := hstate
    · exact h.1 hinit
    · exact h.2.1 hfailed
  let w₁ : ClientWorld μ := { w with
    client := { w.client with state := .nameLookup, info := .nameLookup ⟨false, false, 0⟩ } }
  have hlooking : w₁.Looking reclosed := ⟨rfl, ⟨_, rfl, rfl⟩,
    ⟨hwaits.live, hwaits.idles, hwaits.timers, hwaits.resolving, hwaits.released⟩,
    ⟨hquiet.socket, hquiet.incoming, hquiet.outgoing, hquiet.accounted, hquiet.arrays, hquiet.own⟩,
    ⟨hholds.sockets, hholds.messages⟩, hcalm⟩
  unfold ClientWorld.beginNameLookup
  rw [if_neg hmay]
  dsimp only
  split
  · exact (beginConnecting_spec codec hlooking hfresh).imp fun w' hw' => ⟨hw'.1, hw'.2.congr rfl rfl⟩
  · split
    · exact (clientFailed_spec codec hlooking.failing hlooking.quiet.abandons hlooking.waits
        hlooking.quiet.accounted hlooking.holds hlooking.quiet.serves hlooking.calm _).imp
        fun w' hw' => ⟨hw'.1, hw'.2.1.congr rfl rfl⟩
    · rename_i colon hcolon
      let info' : NameLookupInfo := ⟨true, false,
        UInt16.ofNat (atoi (w.client.name.drop (colon + 1)) % 2 ^ 16).toNat⟩
      have hresolved : (w₁.setInfo (.nameLookup info')).Resolved reclosed info' := ⟨rfl, rfl, rfl,
        ⟨hwaits.live, hwaits.idles, hwaits.timers, hwaits.resolving, hwaits.released⟩,
        ⟨hquiet.socket, hquiet.incoming, hquiet.outgoing, hquiet.accounted, hquiet.arrays, hquiet.own⟩,
        ⟨hholds.sockets, hholds.messages⟩, hcalm⟩
      cases lookup with
      | found =>
        exact (handleNameLookupSuccess_spec codec hresolved hfresh).imp
          fun w' hw' => ⟨hw'.1, hw'.2.congr rfl rfl⟩
      | notFound =>
        exact (handleNameLookupFailure_spec codec hresolved).imp
          fun w' hw' => ⟨hw'.1, hw'.2.congr rfl rfl⟩
      | later =>
        refine ⟨.nameLookup info' rfl rfl rfl ?_ ?_ ⟨hholds.sockets, hholds.messages⟩ hcalm, [],
          by simp, (List.append_nil _).symm⟩
        · exact ⟨hwaits.live, hwaits.idles, hwaits.timers, rfl, hwaits.released⟩
        · exact ⟨hquiet.socket, hquiet.incoming, hquiet.outgoing, hquiet.accounted, hquiet.arrays,
            hquiet.own⟩

/-! ## Events of a connection -/

theorem ClientWorld.Connected.failing {c : ConnectedInfo} {array : List (Closure μ)}
    {free : List (ℕ × Closure μ)} {fd : ℕ} (h : w.Connected reclosed c array free fd) :
    ClientWorld.failingTable w.client = .ok (some c) := by
  unfold ClientWorld.failingTable
  simp only [h.table.state, h.table.info, Info.toConnected, except_ok_bind]
  rfl

/-- What was received, and whether it is being looked at, does not matter. -/
theorem ClientWorld.Connected.buffered {c : ConnectedInfo} {array : List (Closure μ)}
    {free : List (ℕ × Closure μ)} {fd : ℕ} (h : w.Connected reclosed c array free fd)
    (incoming : List UInt8) (responding : Bool) :
    ClientWorld.Connected { w with
      client := { w.client with incoming := incoming }, responding := responding }
      reclosed c array free fd :=
  ⟨⟨h.waits.live, h.waits.idles, h.waits.timers, h.waits.resolving, h.waits.released⟩,
    ⟨h.holds.sockets, h.holds.messages⟩,
    h.table.congr ⟨rfl, rfl, rfl⟩ rfl rfl (Nat.le_refl _) ⟨[], (List.append_nil _).symm⟩,
    ⟨h.watching.socket, h.watching.watched, h.watching.quiet, h.watching.own⟩, h.accounted⟩

theorem ClientWorld.Connected.failed {c : ConnectedInfo} {array : List (Closure μ)}
    {free : List (ℕ × Closure μ)} {fd : ℕ} (h : w.Connected reclosed c array free fd)
    (hcalm : w.responding = false) (format_str : String) :
    Ends ub (w.clientFailed codec format_str) fun w' =>
      w'.Inv reclosed ∧ w.NullCalls w' ∧ w'.client.state.Down :=
  clientFailed_spec codec h.failing h.table.abandons h.waits h.accounted h.holds h.watching.serves
    hcalm format_str

theorem handleClientFdConnectEvents_spec {info' : NameLookupInfo} {fd : ℕ}
    (hstate : w.client.state = .connecting) (hinfo : w.client.info = .nameLookup info')
    (hwaits : w.Waits [] [] false false) (hquiet : w.Quiet (some fd))
    (hwatched : w.watched fd = some (eventReadable ||| eventWritable,
      RpcHandler.clientConnectEvents.callback w.self)) (hholds : w.Holds reclosed none)
    (hcalm : w.responding = false) (error : SocketError) :
    Ends ub (w.handleClientFdConnectEvents codec error) fun w' =>
      w'.Inv (if error = .fatal then reclosed ++ [fd] else reclosed) ∧ w.NullCalls w' := by
  unfold ClientWorld.handleClientFdConnectEvents ClientWorld.getFd
  rw [hquiet.socket]
  cases error with
  | none =>
    have hquiet' : (w.watchFd fd 0 none).Quiet (some fd) := by
      refine ⟨hquiet.socket, hquiet.incoming, hquiet.outgoing, hquiet.accounted, hquiet.arrays,
        fun f hf => ?_⟩
      obtain rfl | hold := serves_watchFd hf
      · rfl
      · exact hquiet.own f hold
    refine ⟨setStateConnected_inv ?_ hquiet' ⟨hholds.sockets, hholds.messages⟩ ?_, [], by simp,
      (List.append_nil _).symm⟩
    · exact ⟨hwaits.live, hwaits.idles, hwaits.timers, hwaits.resolving, hwaits.released⟩
    · unfold ClientWorld.watchFd DispatchCall.registers
      exact if_pos rfl
  | ignorable =>
    exact ⟨.connecting info' fd hstate hinfo hwaits hquiet hholds hwatched hcalm, .refl w⟩
  | fatal =>
    have hfailing : ClientWorld.failingTable (w.closeFd fd).client = .ok none := by
      unfold ClientWorld.failingTable ClientWorld.closeFd
      simp only [hstate]
      rfl
    refine (clientFailed_spec codec hfailing ⟨rfl, hquiet.arrays⟩
      ⟨hwaits.live, hwaits.idles, hwaits.timers, hwaits.resolving, hwaits.released⟩
      hquiet.accounted ⟨?_, hholds.messages⟩ (fun f hf => hquiet.serves f (serves_closeFd hf).2)
      hcalm _).imp fun w' hw' => ⟨hw'.1, hw'.2.1.congr rfl rfl⟩
    -- the file descriptor is closed here, and is still that of the client
    show ((w.closed ++ [fd]) ++ w.client.fd.toList).Perm (w.opened ++ (reclosed ++ [fd]))
    have hsockets := hholds.sockets
    rw [hquiet.socket, Option.toList_some] at hsockets ⊢
    rw [← List.append_assoc]
    exact hsockets.append_right [fd]

theorem written_spec {c : ConnectedInfo} {array : List (Closure μ)} {free : List (ℕ × Closure μ)}
    {fd : ℕ} (h : w.Connected reclosed c array free fd) (hsent : w.sent ≠ []) {w₁ : ClientWorld μ}
    (count : ℕ)
    (heq : w₁ = { w with client := { w.client with outgoing := w.client.outgoing.drop count } }) :
    ∃ w', (if w₁.client.outgoing.length = 0 then
        return (w₁.watchFd (← w₁.getFd) eventReadable (some .clientEvents), true)
      else return (w₁, true) : Except Fault (ClientWorld μ × Bool)) = .ok (w', true) ∧
      (∃ outgoing watched, w' = { w with
        client := { w.client with outgoing := outgoing }, watched := watched }) ∧
      w'.Connected reclosed c array free fd := by
  have hwaits : w₁.Waits [] [] false false := by
    rw [heq]
    exact ⟨h.waits.live, h.waits.idles, h.waits.timers, h.waits.resolving, h.waits.released⟩
  have htable : w₁.HasTable c array free := by
    rw [heq]
    exact h.table.congr ⟨rfl, rfl, rfl⟩ rfl rfl (Nat.le_refl _) ⟨[], (List.append_nil _).symm⟩
  have hholds : w₁.Holds reclosed none := by
    rw [heq]
    exact ⟨h.holds.sockets, h.holds.messages⟩
  have hown : ∀ f, w₁.Serves f → f = fd := by
    rw [heq]
    exact h.watching.own
  have hsocket : w₁.client.fd = some fd := by
    rw [heq]
    exact h.watching.socket
  have hsent₁ : w₁.sent ≠ [] := by
    rw [heq]
    exact hsent
  have hacc : w₁.Accounted (outstanding array) [] := by
    rw [heq]
    exact h.accounted
  by_cases hempty : w₁.client.outgoing.length = 0
  · have hfd : w₁.getFd = .ok fd := by
      unfold ClientWorld.getFd
      rw [hsocket]
    have hevents : connectedEvents w₁.client.outgoing = eventReadable := by
      unfold connectedEvents
      rw [if_neg (by omega)]
    refine ⟨w₁.watchFd fd eventReadable (some .clientEvents), ?_, ?_, ?_⟩
    · rw [if_pos hempty, hfd]
      rfl
    · rw [heq]
      exact ⟨_, _, rfl⟩
    · refine ⟨⟨hwaits.live, hwaits.idles, hwaits.timers, hwaits.resolving, hwaits.released⟩,
        ⟨hholds.sockets, hholds.messages⟩,
        htable.congr ⟨rfl, rfl, rfl⟩ rfl rfl (Nat.le_refl _) ⟨[], (List.append_nil _).symm⟩,
        ⟨hsocket, ?_, fun hnil => absurd hnil hsent₁, fun f hf => (serves_watchFd hf).elim id (hown f)⟩,
        hacc⟩
      show (w₁.watchFd fd eventReadable (some .clientEvents)).watched fd =
        if w₁.sent = [] then none else some (connectedEvents w₁.client.outgoing, _)
      rw [if_neg hsent₁, watchFd_watched, hevents]
      rfl
  · have hwatched := h.watching.watched
    rw [if_neg hsent] at hwatched
    have hmore : w.client.outgoing.length > 0 := by
      have hle : w₁.client.outgoing.length ≤ w.client.outgoing.length := by
        rw [heq]
        show (w.client.outgoing.drop count).length ≤ _
        rw [List.length_drop]
        omega
      omega
    have hevents : connectedEvents w₁.client.outgoing = connectedEvents w.client.outgoing := by
      unfold connectedEvents
      rw [if_pos (by omega), if_pos hmore]
    refine ⟨w₁, if_neg hempty, ?_, hwaits, hholds, htable,
      ⟨hsocket, ?_, fun hnil => absurd hnil hsent₁, hown⟩, hacc⟩
    · rw [heq]
      exact ⟨_, _, rfl⟩
    · rw [if_neg hsent₁, hevents, heq]
      exact hwatched

/-- The part of the handler for a writable connection goes on with it, or the client has failed. -/
theorem handleClientWritable_spec {c : ConnectedInfo} {array : List (Closure μ)}
    {free : List (ℕ × Closure μ)} {fd : ℕ} (h : w.Connected reclosed c array free fd)
    (hcalm : w.responding = false) (hsent : w.sent ≠ []) (outcome : WritevOutcome) :
    Ends ub (w.handleClientWritable codec outcome) fun r =>
      (r.2 = true ∧ (∃ outgoing watched, r.1 = { w with
        client := { w.client with outgoing := outgoing }, watched := watched }) ∧
        r.1.Connected reclosed c array free fd) ∨
      (r.2 = false ∧ r.1.Inv reclosed ∧ w.NullCalls r.1) := by
  cases outcome with
  | fails =>
    refine (h.failed codec hcalm _).bind fun w' hw' => ?_
    exact .inr ⟨rfl, hw'.1, hw'.2.1⟩
  | ignorable =>
    obtain ⟨w', hok, hframe, hconn⟩ := written_spec h hsent 0 rfl
    exact ends_of_ok hok (.inl ⟨rfl, hframe, hconn⟩)
  | accepts count =>
    obtain ⟨w', hok, hframe, hconn⟩ := written_spec h hsent count rfl
    exact ends_of_ok hok (.inl ⟨rfl, hframe, hconn⟩)

theorem handleClientReadable_spec {c : ConnectedInfo} {array : List (Closure μ)}
    {free : List (ℕ × Closure μ)} {fd : ℕ} (h : w.Connected reclosed c array free fd)
    (hcalm : w.responding = false) (outcome : ReadOutcome) :
    Ends ub (w.handleClientReadable codec outcome) fun w' => w'.Inv reclosed ∧ w.NullCalls w' := by
  cases outcome with
  | fails => exact (h.failed codec hcalm _).imp fun w' hw' => ⟨hw'.1, hw'.2.1⟩
  | ignorable => exact ⟨.connected c array free fd h, .refl w⟩
  | received data =>
    cases data with
    | nil => exact (h.failed codec hcalm _).imp fun w' hw' => ⟨hw'.1, hw'.2.1⟩
    | cons b data =>
      exact ⟨.connected c array free fd (h.buffered _ true), [], by simp, (List.append_nil _).symm⟩

theorem handleClientFdEvents_spec {c : ConnectedInfo} {array : List (Closure μ)}
    {free : List (ℕ × Closure μ)} {fd : ℕ} (h : w.Connected reclosed c array free fd)
    (hcalm : w.responding = false) (hsent : w.sent ≠ []) (writable : Option WritevOutcome)
    (readable : Option ReadOutcome) :
    Ends ub (w.handleClientFdEvents codec writable readable) fun w' =>
      w'.Inv reclosed ∧ w.NullCalls w' := by
  have hstay : ∀ w₁ : ClientWorld μ, w₁.Connected reclosed c array free fd → w₁.called = w.called →
      w₁.Inv reclosed ∧ w.NullCalls w₁ := fun w₁ hconn hcalled =>
    ⟨.connected c array free fd hconn, [], by simp, by rw [hcalled, List.append_nil]⟩
  have hread : ∀ w₁ : ClientWorld μ, w₁.Connected reclosed c array free fd → w₁.responding = false →
      w₁.called = w.called → ∀ outcome, Ends ub (w₁.handleClientReadable codec outcome) fun w' =>
        w'.Inv reclosed ∧ w.NullCalls w' := by
    intro w₁ hconn hcalm₁ hcalled outcome
    exact (handleClientReadable_spec codec hconn hcalm₁ outcome).imp
      fun w' hw' => ⟨hw'.1, hw'.2.congr hcalled.symm rfl⟩
  unfold ClientWorld.handleClientFdEvents
  rw [if_neg (not_not.mpr h.table.state)]
  cases writable with
  | none =>
    cases readable with
    | none => exact hstay w h rfl
    | some outcome => exact hread w h hcalm rfl outcome
  | some outcome =>
    refine (handleClientWritable_spec codec h hcalm hsent outcome).bind fun r hr => ?_
    obtain ⟨w₁, go⟩ := r
    obtain ⟨rfl, ⟨outgoing, watched, rfl⟩, hconn⟩ | ⟨rfl, hinv, hnull⟩ := hr
    · cases readable with
      | none => exact hstay _ hconn rfl
      | some outcome' => exact hread _ hconn hcalm rfl outcome'
    · cases readable with
      | none => exact ⟨hinv, hnull⟩
      | some outcome' => exact ⟨hinv, hnull⟩

/-! ## Responses -/

/-- The entries that are free. -/
def freeEntries (array : List (Closure μ)) : ℕ := array.length - (outstanding array).length

/-- The next round of the loop over the responses calls this closure with this message. -/
structure ClientWorld.Delivers (w : ClientWorld μ) (c : ConnectedInfo) (array : List (Closure μ))
    (i : ℕ) (cl : Closure μ) (closure : Passed μ) (msg : μ) : Prop where
  info : w.client.info = .connected c
  get : w.arrays.get c.closures = some array
  header : 16 ≤ w.client.incoming.length
  whole : (16 + headerWord w.client.incoming 2).toNat ≤ w.client.incoming.length
  slot : slotIndex (headerWord w.client.incoming 3) = some i
  entry : array[i]? = some cl
  closure : cl.closure = some closure
  message : ∃ type, cl.responseType = some type ∧ codec.unpack type (readBlock
    (w.client.incoming.drop 16) (headerWord w.client.incoming 2).toNat) = some msg

/-- What the round leaves when it delivers a message: the closure was called, and its entry is free in
the table that the client has now. -/
structure ClientWorld.Delivered (w : ClientWorld μ) (reclosed : List ℕ) (i : ℕ) (closure : Passed μ)
    (msg : μ) (w' : ClientWorld μ) : Prop where
  inv : w'.Inv reclosed
  called : w'.called = w.called ++ [(closure.serial, some msg)]
  free : ∃ c array cl, w'.client.info = .connected c ∧ w'.arrays.get c.closures = some array ∧
    array[i]? = some cl ∧ cl.responseType = none

/-- Behind a call that left the array alone, the entry is given back. -/
theorem releaseClosure_spec {c : ConnectedInfo} {array : List (Closure μ)}
    {free : List (ℕ × Closure μ)} {fd i k : ℕ} {cl : Closure μ} {request_id : UInt32}
    (hwaits : w.Waits [] [] false false) (hholds : w.Holds reclosed none) (h : w.HasTable c array free)
    (hw : w.Watching fd) (ha : w.Accounted (outstanding array) [k])
    (hid : slotIndex request_id = some i) (hi : array[i]? = some cl) (hk : cl.waiting = some k)
    (hcalled : k ∈ w.called.map Prod.fst) :
    ∃ w' c' array', w.releaseClosure c.closures request_id = .ok w' ∧
      w'.Connected reclosed c' array' ((i, .unused c.firstFreeRequestId) :: free) fd ∧
      w'.called = w.called ∧ array'[i]? = some (.unused c.firstFreeRequestId) := by
  have hused : cl.responseType ≠ none := by
    intro hnone
    unfold Closure.waiting at hk
    rw [hnone] at hk
    exact absurd hk (by simp)
  obtain ⟨w', hok, hr⟩ := releaseClosure_table h.toTable hid hi hused
  have htable := hr.hasTable h hi hk hcalled
  obtain ⟨arrays, heq⟩ := hr.eq
  refine ⟨w', { c with firstFreeRequestId := request_id },
    array.set i (.unused c.firstFreeRequestId), hok, ⟨?_, ?_, htable, ?_, ?_⟩, ?_, ?_⟩
  · rw [heq]
    exact ⟨hwaits.live, hwaits.idles, hwaits.timers, hwaits.resolving, hwaits.released⟩
  · rw [heq]
    exact ⟨hholds.sockets, hholds.messages⟩
  · rw [heq]
    exact ⟨hw.socket, hw.watched, hw.quiet, hw.own⟩
  · rw [heq]
    show (w.called.map Prod.fst ++ outstanding (array.set i _)).Perm (List.range w.invoked ++ [])
    have hperm := outstanding_set hi (.unused c.firstFreeRequestId)
    rw [hk] at hperm
    -- the entry that is given back held the one serial that is counted twice
    have hall := ((hperm.append_left (w.called.map Prod.fst)).trans ha)
    have hmove : (k :: (w.called.map Prod.fst ++
        outstanding (array.set i (.unused c.firstFreeRequestId)))).Perm
        (k :: (List.range w.invoked ++ [])) := by
      refine List.perm_middle.symm.trans (hall.trans ?_)
      rw [List.append_nil]
      exact List.perm_append_singleton k _
    exact hmove.cons_inv
  · rw [heq]
  · rw [List.getElem?_set, if_pos rfl, if_pos (List.getElem?_eq_some_iff.mp hi).1]

/-- A round that delivers nothing: the loop ends, or the client fails. -/
theorem respond_quiet {c : ConnectedInfo} {array : List (Closure μ)} {free : List (ℕ × Closure μ)}
    {fd : ℕ} (h : w.Connected reclosed c array free fd)
    (hnone : ∀ i cl closure msg, ¬ w.Delivers codec c array i cl closure msg) :
    Ends ub (w.respond codec) fun w' => w'.Inv reclosed ∧ w.NullCalls w' := by
  have hstop : w.stopResponding.Connected reclosed c array free fd :=
    h.buffered w.client.incoming false
  have hstopped : w.stopResponding.Inv reclosed ∧ w.NullCalls w.stopResponding :=
    ⟨.connected c array free fd hstop, [], by simp, (List.append_nil _).symm⟩
  have hbad : Ends ub (w.stopResponding.clientFailed codec
      "bad request-id in response from server") fun w' => w'.Inv reclosed ∧ w.NullCalls w' :=
    (hstop.failed codec rfl _).imp fun w' hw' => ⟨hw'.1, hw'.2.1.congr rfl rfl⟩
  unfold ClientWorld.respond
  by_cases hheader : w.client.incoming.length < 16
  · simp only [if_pos hheader]
    exact hstopped
  by_cases hwhole : (16 + headerWord w.client.incoming 2).toNat > w.client.incoming.length
  · simp only [if_neg hheader, if_pos hwhole]
    exact hstopped
  have hinfo : w.client.info.toConnected = .ok c := by rw [h.table.info]; rfl
  simp only [if_neg hheader, if_neg hwhole, hinfo, except_ok_bind, Store.load_ok.mpr h.table.get]
  by_cases hrange : headerWord w.client.incoming 3 > c.closuresAlloced ∨
      headerWord w.client.incoming 3 = 0
  · rw [if_pos hrange]
    exact hbad
  obtain ⟨i, cl, hid, hcl⟩ := h.table.slot hrange
  rw [if_neg hrange]
  simp only [slotIndex_sub hid, readAtIndex, hcl, except_ok_bind]
  cases htype : cl.responseType with
  | none => exact hbad
  | some type =>
    obtain ⟨closure, hclosure⟩ := h.table.free.used i cl hcl (by rw [htype]; simp)
    simp only
    cases hmsg : codec.unpack type (readBlock (w.client.incoming.drop 16)
        (headerWord w.client.incoming 2).toNat) with
    | none =>
      let w₁ : ClientWorld μ := { w with client := { w.client with
        incoming := (w.client.incoming.drop 16).drop (headerWord w.client.incoming 2).toNat } }
      have h₁ : w₁.stopResponding.Connected reclosed c array free fd := h.buffered _ false
      exact (h₁.failed codec rfl _).imp fun w' hw' => ⟨hw'.1, hw'.2.1.congr rfl rfl⟩
    | some msg =>
      exact absurd ⟨h.table.info, h.table.get, by omega, by omega, hid, hcl, hclosure, type, htype, hmsg⟩
        (hnone i cl closure msg)

/-- The client when the closure of a response is called. -/
def ClientWorld.delivering (w : ClientWorld μ) (closure : Passed μ) (msg : μ) : ClientWorld μ :=
  ClientWorld.record { w with client := { w.client with
    incoming := (w.client.incoming.drop 16).drop (headerWord w.client.incoming 2).toNat } }
    closure.serial (some msg)

theorem respond_delivers {c : ConnectedInfo} {array : List (Closure μ)} {free : List (ℕ × Closure μ)}
    (h : w.Table c array free) {i : ℕ} {cl : Closure μ} {closure : Passed μ} {msg : μ}
    (hd : w.Delivers codec c array i cl closure msg) :
    w.respond codec = (do
      (← (w.delivering closure msg).runScript codec (closure.closure (some msg))).releaseClosure
        c.closures (headerWord w.client.incoming 3)) := by
  obtain ⟨type, htype, hmsg⟩ := hd.message
  have hheader := hd.header
  have hwhole := hd.whole
  have hinfo : w.client.info.toConnected = .ok c := by rw [h.info]; rfl
  unfold ClientWorld.respond
  simp only [if_neg (not_lt.mpr hheader), if_neg (not_lt.mpr hwhole), hinfo, except_ok_bind,
    Store.load_ok.mpr h.get]
  rw [if_neg (h.range hd.slot hd.entry)]
  simp only [slotIndex_sub hd.slot, readAtIndex, hd.entry, except_ok_bind, htype, hmsg, hd.closure]
  rfl

/-- The closure of a response makes its invocations, while the table can grow. -/
theorem runScript_delivering {c : ConnectedInfo} {array : List (Closure μ)}
    {free : List (ℕ × Closure μ)} {fd : ℕ} (h : w.Connected reclosed c array free fd) {i : ℕ}
    {cl : Closure μ} {closure : Passed μ} {msg : μ} (hd : w.Delivers codec c array i cl closure msg)
    (hub : ¬ (closure.closure (some msg)).length ≤ freeEntries array → ub .access) :
    Ends ub ((w.delivering closure msg).runScript codec (closure.closure (some msg))) fun w' =>
      ∃ c' array' free', Requested (w.delivering closure msg) fd (closure.closure (some msg)).length
        [closure.serial] c array free w' c' array' free' := by
  have htable : (w.delivering closure msg).HasTable c array free :=
    h.table.congr ⟨rfl, rfl, rfl⟩ rfl rfl (Nat.le_refl _) ⟨_, rfl⟩
  have hacc : (w.delivering closure msg).Accounted (outstanding array) [closure.serial] := by
    show ((w.called ++ [(closure.serial, some msg)]).map Prod.fst ++ outstanding array).Perm
      (List.range w.invoked ++ [closure.serial])
    rw [List.map_append, List.append_assoc]
    have hacc := h.accounted
    unfold ClientWorld.Accounted at hacc
    rw [List.append_nil] at hacc
    exact List.perm_middle.trans ((hacc.cons closure.serial).trans
      (List.perm_append_singleton _ _).symm)
  have hwatching : (w.delivering closure msg).Watching fd :=
    ⟨h.watching.socket, h.watching.watched, h.watching.quiet, h.watching.own⟩
  have hvalid := h.table.valid cl (List.mem_of_getElem? hd.entry) closure hd.closure (some msg)
  have hfree : freeEntries array = free.length := by
    have hlen := h.table.free.length_eq
    unfold freeEntries
    omega
  exact runScript_connected codec (closure.closure (some msg)) htable hwatching hacc hvalid
    fun hfull => hub (by rw [hfree]; omega)

theorem respond_fits {c : ConnectedInfo} {array : List (Closure μ)} {free : List (ℕ × Closure μ)}
    {fd : ℕ} (h : w.Connected reclosed c array free fd) {i : ℕ} {cl : Closure μ} {closure : Passed μ}
    {msg : μ} (hd : w.Delivers codec c array i cl closure msg)
    (hfits : (closure.closure (some msg)).length ≤ freeEntries array) :
    ∃ w', w.respond codec = .ok w' ∧ w.Delivered reclosed i closure msg w' := by
  obtain ⟨type, htype, -⟩ := hd.message
  have hk : cl.waiting = some closure.serial := by
    unfold Closure.waiting
    rw [htype, hd.closure]
    rfl
  have hfree : freeEntries array = free.length := by
    have hlen := h.table.free.length_eq
    unfold freeEntries
    omega
  have hends : Ends (fun _ => False) _ _ := runScript_delivering codec h hd fun hfull => hfull hfits
  obtain ⟨w₂, hok₂, c₂, array₂, free₂, h₂⟩ := hends.total fun _ => id
  obtain ⟨hsame, -⟩ | ⟨hfull, -⟩ := h₂.room
  · have hwaits₂ : w₂.Waits [] [] false false := by
      obtain ⟨_, _, _, _, _, _, rfl⟩ := h₂.frame
      exact ⟨h.waits.live, h.waits.idles, h.waits.timers, h.waits.resolving, h.waits.released⟩
    have hholds₂ : w₂.Holds reclosed none := by
      obtain ⟨_, _, _, _, _, _, rfl⟩ := h₂.frame
      exact ⟨h.holds.sockets, h.holds.messages⟩
    have hcalled₂ : w₂.called = w.called ++ [(closure.serial, some msg)] := by
      obtain ⟨_, _, _, _, _, _, rfl⟩ := h₂.frame
      rfl
    have hrecorded : closure.serial ∈ w₂.called.map Prod.fst := by
      rw [hcalled₂]
      exact List.mem_map.mpr ⟨(closure.serial, some msg),
        List.mem_append_right _ (List.mem_singleton_self _), rfl⟩
    obtain ⟨w₃, c₃, array₃, hok₃, hconn, hcalled, hentry⟩ := releaseClosure_spec hwaits₂ hholds₂
      h₂.table h₂.watching h₂.accounted hd.slot (h₂.kept i cl hd.entry (by rw [htype]; simp)) hk
      hrecorded
    rw [hsame] at hok₃
    refine ⟨w₃, ?_, .connected c₃ array₃ _ fd hconn, hcalled.trans hcalled₂,
      ⟨c₃, array₃, _, hconn.table.info, hconn.table.get, hentry, rfl⟩⟩
    rw [respond_delivers codec h.table.toTable hd, hok₂, except_ok_bind]
    exact hok₃
  · omega

/-- Where the closure of a response makes more invocations than there are free entries, the array that
holds its entry is freed while it runs, and is written afterwards. -/
theorem respond_overruns {c : ConnectedInfo} {array : List (Closure μ)} {free : List (ℕ × Closure μ)}
    {fd : ℕ} (h : w.Connected reclosed c array free fd) {i : ℕ} {cl : Closure μ} {closure : Passed μ}
    {msg : μ} (hd : w.Delivers codec c array i cl closure msg)
    (hmore : freeEntries array < (closure.closure (some msg)).length) :
    w.respond codec = .error .access := by
  have hfree : freeEntries array = free.length := by
    have hlen := h.table.free.length_eq
    unfold freeEntries
    omega
  have hends : Ends (fun e => e = .access) _ _ := runScript_delivering codec h hd fun _ => rfl
  rw [respond_delivers codec h.table.toTable hd]
  cases hrun : (w.delivering closure msg).runScript codec (closure.closure (some msg)) with
  | error e =>
    rw [hrun] at hends
    obtain rfl : e = .access := hends
    rfl
  | ok w₂ =>
    obtain ⟨c₂, array₂, free₂, h₂⟩ := hends.post hrun
    obtain ⟨-, hlen⟩ | ⟨-, hgone⟩ := h₂.room
    · omega
    · unfold ClientWorld.releaseClosure
      simp only [except_ok_bind, h₂.table.info, Info.toConnected, hgone.modify, except_error_bind]

/-- One round of the loop over the responses: it ends, the client fails, or a message is delivered.  A
fault is where the closure makes more invocations than the table has free entries. -/
theorem respond_spec {c : ConnectedInfo} {array : List (Closure μ)} {free : List (ℕ × Closure μ)}
    {fd : ℕ} (h : w.Connected reclosed c array free fd)
    (hub : ∀ i cl closure msg, w.Delivers codec c array i cl closure msg →
      ¬ (closure.closure (some msg)).length ≤ freeEntries array → ub .access) :
    Ends ub (w.respond codec) fun w' =>
      (w'.Inv reclosed ∧ w.NullCalls w' ∧
        ∀ i cl closure msg, ¬ w.Delivers codec c array i cl closure msg) ∨
      ∃ i cl closure msg, w.Delivers codec c array i cl closure msg ∧
        w.Delivered reclosed i closure msg w' := by
  by_cases hdelivers : ∃ i cl closure msg, w.Delivers codec c array i cl closure msg
  · obtain ⟨i, cl, closure, msg, hd⟩ := hdelivers
    by_cases hfits : (closure.closure (some msg)).length ≤ freeEntries array
    · obtain ⟨w', hok, hdelivered⟩ := respond_fits codec h hd hfits
      exact ends_of_ok hok (.inr ⟨i, cl, closure, msg, hd, hdelivered⟩)
    · rw [respond_overruns codec h hd (not_le.mp hfits)]
      exact hub i cl closure msg hd hfits
  · have hnone : ∀ i cl closure msg, ¬ w.Delivers codec c array i cl closure msg :=
      fun i cl closure msg hd => hdelivers ⟨i, cl, closure, msg, hd⟩
    exact (respond_quiet codec h hnone).imp fun w' hw' => .inl ⟨hw'.1, hw'.2, hnone⟩

end

end ProtobufC
