import ProtobufC.Rpc.ClientMachine
import ProtobufC.Rpc.ClosureTable

/-! # The client between two events

What holds of a client in each of its states, and what each function of the client does to it.  Three
things are kept at once: every invocation is accounted for, by a closure that was called or that waits
in the table; the table is sound; and the file descriptor is registered as the state of the connection
says.
-/

namespace ProtobufC
open Library
set_option autoImplicit false

variable {μ : Type} (codec : Codec μ) {ub : Fault → Prop}

/-! ## Invariants -/

/-- Every invocation has its closure called or in `waiting`, and those of `twice` have both. -/
def ClientWorld.Accounted (w : ClientWorld μ) (waiting twice : List ℕ) : Prop :=
  (w.called.map Prod.fst ++ waiting).Perm (List.range w.invoked ++ twice)

/-- The client has the table `array`, with the free list `free`, and no other array. -/
structure ClientWorld.HasTable (w : ClientWorld μ) (c : ConnectedInfo) (array : List (Closure μ))
    (free : List (ℕ × Closure μ)) : Prop extends w.Table c array free where
  state : w.client.state = .connected
  only : ∀ j a, w.arrays.get j = some a → j = c.closures
  sent : ∀ (i : ℕ) (cl : Closure μ) (k : ℕ), array[i]? = some cl → cl.waiting = some k →
    (k, UInt32.ofNat (i + 1)) ∈ w.sent
  valid : ∀ cl ∈ array, ∀ passed, cl.closure = some passed →
    ∀ message, (passed.closure message).Valid w.client.service.nMethods
  bound : ∀ p ∈ w.sent, p.1 < w.invoked
  pending : ∀ p ∈ w.sent, p.1 ∉ w.called.map Prod.fst →
    ∃ (i : ℕ) (cl : Closure μ), slotIndex p.2 = some i ∧ array[i]? = some cl ∧ cl.waiting = some p.1

/-- A function of the client is registered for this file descriptor. -/
def ClientWorld.Serves (w : ClientWorld μ) (fd : ℕ) : Prop :=
  ∃ events callback, w.watched fd = some (events, callback) ∧ callback ∈ ownCallbacks w.self

/-- What should be registered for a connection. -/
def connectedEvents (outgoing : List UInt8) : UInt32 :=
  if outgoing.length > 0 then eventReadable ||| eventWritable else eventReadable

/-- The file descriptor is registered, once there was a request, and no other one is. -/
structure ClientWorld.Watching (w : ClientWorld μ) (fd : ℕ) : Prop where
  socket : w.client.fd = some fd
  watched : w.watched fd = if w.sent = [] then none
    else some (connectedEvents w.client.outgoing, RpcHandler.clientEvents.callback w.self)
  quiet : w.sent = [] → w.client.outgoing = []
  own : ∀ f, w.Serves f → f = fd

/-! ## The table -/

section
variable {w : ClientWorld μ} {c : ConnectedInfo} {array : List (Closure μ)}
  {free : List (ℕ × Closure μ)}

theorem Enqueued.hasTable {methodIndex : ℕ} {input : μ} {closure : Passed μ} {w' : ClientWorld μ}
    {c' : ConnectedInfo} {array' : List (Closure μ)} {free' : List (ℕ × Closure μ)}
    {request_id : UInt32}
    (he : Enqueued w codec methodIndex input closure c array free w' c' array' free' request_id)
    (h : w.HasTable c array free) (hserial : closure.serial < w.invoked)
    (hvalid : ∀ message, (closure.closure message).Valid w.client.service.nMethods) :
    w'.HasTable c' array' free' := by
  obtain ⟨arrays, heq⟩ := he.eq
  have hsent : w'.sent = w.sent ++ [(closure.serial, request_id)] := by rw [heq]
  have hservice : w'.client.service = w.client.service := by rw [heq]
  have hinvoked : w'.invoked = w.invoked := by rw [heq]
  have hcalled : w'.called = w.called := by rw [heq]
  refine ⟨he.table, ?_, fun j a hj => ?_, fun i cl k hi hk => ?_, fun cl hcl passed hpassed => ?_,
    fun p hp => ?_, fun p hp hwaits => ?_⟩
  · rw [heq]
    exact h.state
  · obtain hnew | ⟨hne, hold⟩ := he.only j a hj
    · exact hnew
    · exact absurd (h.only j a hold) hne
  · rw [hsent]
    obtain ⟨hid, hclosure⟩ | hold | ⟨hnone, -⟩ := he.cases i cl hi
    · have hname : request_id = UInt32.ofNat (i + 1) := by
        apply UInt32.toNat.inj
        have hlt := (List.getElem?_eq_some_iff.mp hi).1
        rw [UInt32.toNat_ofNat', slotIndex_eq_some.mp hid,
          Nat.mod_eq_of_lt (by have := he.table.lt; omega)]
      obtain rfl : closure.serial = k := by
        unfold Closure.waiting at hk
        rw [hclosure] at hk
        cases htype : cl.responseType with
        | none => rw [htype] at hk; exact absurd hk (by simp)
        | some type => rw [htype] at hk; exact Option.some.inj hk
      rw [← hname]
      exact List.mem_append_right _ (List.mem_singleton_self _)
    · exact List.mem_append_left _ (h.sent i cl k hold hk)
    · unfold Closure.waiting at hk
      rw [hnone] at hk
      exact absurd hk (by simp)
  · rw [hservice]
    obtain ⟨i, hi⟩ := List.mem_iff_getElem?.mp hcl
    obtain ⟨-, hclosure⟩ | hold | ⟨-, hnone⟩ := he.cases i cl hi
    · obtain rfl : closure = passed := Option.some.inj (hclosure.symm.trans hpassed)
      exact hvalid
    · exact h.valid cl (List.mem_of_getElem? hold) passed hpassed
    · rw [hnone] at hpassed
      exact absurd hpassed (by simp)
  · rw [hsent] at hp
    rw [hinvoked]
    obtain hp | hp := List.mem_append.mp hp
    · exact h.bound p hp
    · rw [List.mem_singleton.mp hp]
      exact hserial
  · rw [hsent] at hp
    rw [hcalled] at hwaits
    obtain hp | hp := List.mem_append.mp hp
    · obtain ⟨i, cl, hid, hi, hk⟩ := h.pending p hp hwaits
      refine ⟨i, cl, hid, he.kept i cl hi (fun hnone => ?_), hk⟩
      unfold Closure.waiting at hk
      rw [hnone] at hk
      exact absurd hk (by simp)
    · obtain ⟨i, method, cl, hid, -, hi, htype, hclosure⟩ := he.entry
      rw [List.mem_singleton.mp hp]
      refine ⟨i, cl, hid, hi, ?_⟩
      unfold Closure.waiting
      rw [htype, hclosure]
      rfl

/-- An entry that is given back keeps the table sound, where its closure was called. -/
theorem Released.hasTable {i k : ℕ} {request_id : UInt32} {w' : ClientWorld μ} {cl₀ : Closure μ}
    (hr : Released w c array free i request_id w') (h : w.HasTable c array free)
    (hi₀ : array[i]? = some cl₀) (hk₀ : cl₀.waiting = some k) (hcalled₀ : k ∈ w.called.map Prod.fst) :
    w'.HasTable { c with firstFreeRequestId := request_id }
      (array.set i (.unused c.firstFreeRequestId)) ((i, .unused c.firstFreeRequestId) :: free) := by
  obtain ⟨arrays, heq⟩ := hr.eq
  have hcases : ∀ (j : ℕ) (cl : Closure μ),
      (array.set i (.unused c.firstFreeRequestId))[j]? = some cl →
      array[j]? = some cl ∨ cl = .unused c.firstFreeRequestId := by
    intro j cl hj
    rw [List.getElem?_set] at hj
    split_ifs at hj with hji hlt
    · exact .inr (Option.some.inj hj).symm
    · exact .inl hj
  have hsent : w'.sent = w.sent := by rw [heq]
  have hservice : w'.client.service = w.client.service := by rw [heq]
  have hinvoked : w'.invoked = w.invoked := by rw [heq]
  have hcalled : w'.called = w.called := by rw [heq]
  refine ⟨hr.table, ?_, fun j a hj => ?_, fun j cl k hj hk => ?_, fun cl hcl passed hpassed => ?_, ?_,
    fun p hp hwaits => ?_⟩
  · rw [heq]
    exact h.state
  · obtain hnew | ⟨hne, hold⟩ := hr.only j a hj
    · exact hnew
    · exact absurd (h.only j a hold) hne
  · rw [hsent]
    obtain hold | rfl := hcases j cl hj
    · exact h.sent j cl k hold hk
    · exact absurd hk (by simp [Closure.waiting, Closure.unused])
  · rw [hservice]
    obtain ⟨j, hj⟩ := List.mem_iff_getElem?.mp hcl
    obtain hold | rfl := hcases j cl hj
    · exact h.valid cl (List.mem_of_getElem? hold) passed hpassed
    · exact absurd hpassed (by simp [Closure.unused])
  · rw [hsent, hinvoked]
    exact h.bound
  · rw [hsent] at hp
    rw [hcalled] at hwaits
    obtain ⟨j, cl, hjd, hj, hk⟩ := h.pending p hp hwaits
    refine ⟨j, cl, hjd, ?_, hk⟩
    rw [List.getElem?_set_ne, hj]
    rintro rfl
    obtain rfl : cl₀ = cl := Option.some.inj (hi₀.symm.trans hj)
    obtain rfl : k = p.1 := Option.some.inj (hk₀.symm.trans hk)
    exact hwaits hcalled₀

end

/-! ## Code of the user on a connection -/

/-- What code of the user changes while the client is connected. -/
def ClientWorld.SameButRequests (w w' : ClientWorld μ) : Prop :=
  ∃ arrays info outgoing watched invoked sent, w' = { w with
    arrays := arrays
    client := { w.client with info := info, outgoing := outgoing }
    watched := watched
    invoked := invoked
    sent := sent }

theorem ClientWorld.SameButRequests.trans {w w' w'' : ClientWorld μ} (h : w.SameButRequests w')
    (h' : w'.SameButRequests w'') : w.SameButRequests w'' := by
  obtain ⟨_, _, _, _, _, _, rfl⟩ := h
  obtain ⟨_, _, _, _, _, _, rfl⟩ := h'
  exact ⟨_, _, _, _, _, _, rfl⟩

/-- What `n` invocations leave of a connection.  The array is the same while there are enough free
entries, and freed otherwise. -/
structure Requested (w : ClientWorld μ) (fd n : ℕ) (twice : List ℕ) (c : ConnectedInfo)
    (array : List (Closure μ)) (free : List (ℕ × Closure μ)) (w' : ClientWorld μ)
    (c' : ConnectedInfo) (array' : List (Closure μ)) (free' : List (ℕ × Closure μ)) : Prop where
  frame : w.SameButRequests w'
  invoked : w'.invoked = w.invoked + n
  watching : w'.Watching fd
  table : w'.HasTable c' array' free'
  accounted : w'.Accounted (outstanding array') twice
  waiting : (outstanding array').length = (outstanding array).length + n
  kept : ∀ (i : ℕ) (cl : Closure μ), array[i]? = some cl → cl.responseType ≠ none →
    array'[i]? = some cl
  room : c'.closures = c.closures ∧ free'.length + n = free.length ∨
    free.length < n ∧ w'.arrays.Freed c.closures
  freed : ∀ j, w.arrays.Freed j → w'.arrays.Freed j

section
variable {w : ClientWorld μ} {c : ConnectedInfo} {array : List (Closure μ)}
  {free : List (ℕ × Closure μ)} {fd : ℕ}

theorem updateConnectedClientWatch_ok (hstate : w.client.state = .connected)
    (hfd : w.client.fd = some fd) : w.updateConnectedClientWatch =
      .ok (w.watchFd fd (connectedEvents w.client.outgoing) (some .clientEvents)) := by
  unfold ClientWorld.updateConnectedClientWatch ClientWorld.getFd
  rw [if_neg (not_not.mpr hstate), hfd]
  rfl

theorem watchFd_watched (w : ClientWorld μ) (fd : ℕ) (events : UInt32) (handler : RpcHandler) :
    (w.watchFd fd events (some handler)).watched fd = some (events, handler.callback w.self) := by
  unfold ClientWorld.watchFd DispatchCall.registers
  exact if_pos rfl

theorem serves_watchFd {events : UInt32} {handler : Option RpcHandler} {f : ℕ}
    (h : (w.watchFd fd events handler).Serves f) : f = fd ∨ w.Serves f := by
  obtain ⟨e, callback, hget, hown⟩ := h
  by_cases hf : f = fd
  · exact .inl hf
  · refine .inr ⟨e, callback, ?_, hown⟩
    rw [← hget]
    exact (if_neg hf).symm

theorem serves_closeFd {f : ℕ} (h : (w.closeFd fd).Serves f) : f ≠ fd ∧ w.Serves f := by
  obtain ⟨e, callback, hget, hown⟩ := h
  by_cases hf : f = fd
  · have hnone : (w.closeFd fd).watched f = none := if_pos hf
    rw [hnone] at hget
    exact absurd hget (by simp)
  · refine ⟨hf, e, callback, ?_, hown⟩
    rw [← hget]
    exact (if_neg hf).symm

theorem Enqueued.watching {methodIndex : ℕ} {input : μ} {closure : Passed μ} {w' : ClientWorld μ}
    {c' : ConnectedInfo} {array' : List (Closure μ)} {free' : List (ℕ × Closure μ)}
    {request_id : UInt32}
    (he : Enqueued w codec methodIndex input closure c array free w' c' array' free' request_id)
    (hw : w.Watching fd) (hstate : w.client.state = .connected) :
    ∃ w'', (if ¬ w.client.outgoing.length > 0 then w'.updateConnectedClientWatch else .ok w') =
        .ok w'' ∧ (∃ watched, w'' = { w' with watched := watched }) ∧ w''.Watching fd := by
  obtain ⟨arrays, heq⟩ := he.eq
  have hown : ∀ f, w'.Serves f → f = fd := by
    rw [heq]
    exact hw.own
  have hsent : w'.sent ≠ [] := by
    rw [heq]
    simp
  have hout : w'.client.outgoing.length > 0 := by
    rw [heq]
    show 0 < (_ ++ headerBytes _ ++ _).length
    rw [List.length_append, List.length_append, length_headerBytes]
    simp
  have hfd : w'.client.fd = some fd := by
    rw [heq]
    exact hw.socket
  by_cases hhad : w.client.outgoing.length > 0
  · refine ⟨w', if_neg (not_not.mpr hhad), ⟨w'.watched, rfl⟩, hfd, ?_, fun h => absurd h hsent, hown⟩
    have hold : w.sent ≠ [] := by
      intro hnil
      rw [hw.quiet hnil] at hhad
      exact absurd hhad (by simp)
    have hwatched := hw.watched
    rw [if_neg hold] at hwatched
    rw [if_neg hsent]
    have hevents : connectedEvents w'.client.outgoing = connectedEvents w.client.outgoing := by
      unfold connectedEvents
      rw [if_pos hout, if_pos hhad]
    rw [hevents, heq]
    exact hwatched
  · refine ⟨w'.watchFd fd (connectedEvents w'.client.outgoing) (some .clientEvents), ?_, ⟨_, rfl⟩, ?_⟩
    · rw [if_pos hhad]
      exact updateConnectedClientWatch_ok (by rw [heq]; exact hstate) hfd
    · refine ⟨hfd, ?_, fun h => absurd h hsent, fun f hf => (serves_watchFd hf).elim id (hown f)⟩
      show (w'.watchFd fd _ _).watched fd = if w'.sent = [] then none else _
      rw [if_neg hsent]
      exact watchFd_watched w' fd _ .clientEvents

theorem ClientWorld.HasTable.congr {w' : ClientWorld μ} (h : w.HasTable c array free)
    (hclient : w'.client.state = w.client.state ∧ w'.client.info = w.client.info ∧
      w'.client.service = w.client.service)
    (harrays : w'.arrays = w.arrays) (hsent : w'.sent = w.sent) (hinvoked : w.invoked ≤ w'.invoked)
    (hcalled : ∃ calls, w'.called = w.called ++ calls) :
    w'.HasTable c array free := by
  obtain ⟨hstate, hinfo, hservice⟩ := hclient
  refine ⟨⟨hinfo.trans h.info, ?_, h.length, h.pos, h.free⟩, hstate.trans h.state, ?_, ?_, ?_, ?_, ?_⟩
  · rw [harrays]
    exact h.get
  · rw [harrays]
    exact h.only
  · rw [hsent]
    exact h.sent
  · rw [hservice]
    exact h.valid
  · intro p hp
    rw [hsent] at hp
    exact (h.bound p hp).trans_le hinvoked
  · intro p hp hwaits
    obtain ⟨calls, hcalls⟩ := hcalled
    rw [hsent] at hp
    rw [hcalls, List.map_append] at hwaits
    exact h.pending p hp fun hmem => hwaits (List.mem_append_left _ hmem)

theorem invokeClientRpc_connected {twice : List ℕ} (h : w.HasTable c array free) (hw : w.Watching fd)
    (ha : w.Accounted (outstanding array) twice) {methodIndex : ℕ}
    (hmethod : methodIndex < w.client.service.nMethods) (input : μ) {closure : Option μ → Script μ}
    (hvalid : ∀ message, (closure message).Valid w.client.service.nMethods) (closureData : UInt64)
    (callNow : ClientWorld μ → Except Fault (ClientWorld μ))
    (hub : free = [] → ¬ (outstanding array).length + 1 ≤ 2 ^ 31 → ub .access) :
    Ends ub (ClientWorld.invokeClientRpc codec { w with invoked := w.invoked + 1 } methodIndex input
      ⟨w.invoked, closure⟩ closureData callNow) fun w' =>
        ∃ c' array' free', Requested w fd 1 twice c array free w' c' array' free' := by
  have h₀ : ClientWorld.HasTable { w with invoked := w.invoked + 1 } c array free :=
    h.congr ⟨rfl, rfl, rfl⟩ rfl rfl (Nat.le_succ _) ⟨[], (List.append_nil _).symm⟩
  have henq := enqueueRequest_spec codec h₀.toTable hmethod input ⟨w.invoked, closure⟩ closureData hub
  have hstate : w.client.state = .connected := h.state
  unfold ClientWorld.invokeClientRpc
  simp only [hstate]
  refine henq.bind fun w₁ h₁ => ?_
  obtain ⟨c₁, array₁, free₁, request_id, he⟩ := h₁
  obtain ⟨w₂, hwatch, ⟨watched, hw₂⟩, hwatching⟩ := he.watching codec
    ⟨hw.socket, hw.watched, hw.quiet, hw.own⟩ hstate
  have htable := he.hasTable codec h₀ (Nat.lt_succ_self _) hvalid
  obtain ⟨arrays, heq⟩ := he.eq
  have hlen := he.waiting.length_eq
  refine ends_of_ok hwatch ⟨c₁, array₁, free₁, ?_, ?_, hwatching, ?_, ?_, ?_, he.kept, ?_, ?_⟩
  · rw [hw₂, heq]
    exact ⟨_, _, _, _, _, _, rfl⟩
  · rw [hw₂, heq]
  · rw [hw₂]
    exact htable.congr ⟨rfl, rfl, rfl⟩ rfl rfl (Nat.le_refl _) ⟨[], (List.append_nil _).symm⟩
  · rw [hw₂, heq]
    show (w.called.map Prod.fst ++ outstanding array₁).Perm (List.range (w.invoked + 1) ++ twice)
    have hcons := (he.waiting.append_left (w.called.map Prod.fst)).trans List.perm_middle
    refine hcons.trans ((ha.cons w.invoked).trans ?_)
    rw [List.range_succ, List.append_assoc, List.singleton_append]
    exact List.perm_middle.symm
  · rw [hlen]
    rfl
  · rw [hw₂]
    obtain hroom | ⟨hnil, hgone⟩ := he.room
    · exact .inl hroom
    · exact .inr ⟨by rw [hnil]; exact Nat.zero_lt_one, hgone⟩
  · rw [hw₂]
    exact he.freed

theorem Requested.trans {n m : ℕ} {twice : List ℕ} {w₁ w₂ : ClientWorld μ} {c₁ c₂ : ConnectedInfo}
    {array₁ array₂ : List (Closure μ)} {free₁ free₂ : List (ℕ × Closure μ)}
    (h : Requested w fd n twice c array free w₁ c₁ array₁ free₁)
    (h' : Requested w₁ fd m twice c₁ array₁ free₁ w₂ c₂ array₂ free₂) :
    Requested w fd (n + m) twice c array free w₂ c₂ array₂ free₂ where
  frame := h.frame.trans h'.frame
  invoked := by rw [h'.invoked, h.invoked, Nat.add_assoc]
  watching := h'.watching
  table := h'.table
  accounted := h'.accounted
  waiting := by rw [h'.waiting, h.waiting, Nat.add_assoc]
  kept := fun i cl hi hused => h'.kept i cl (h.kept i cl hi hused) hused
  room := by
    obtain ⟨hsame, hfree⟩ | ⟨hfull, hgone⟩ := h.room
    · obtain ⟨hsame', hfree'⟩ | ⟨hfull', hgone'⟩ := h'.room
      · exact .inl ⟨hsame'.trans hsame, by omega⟩
      · rw [hsame] at hgone'
        exact .inr ⟨by omega, hgone'⟩
    · exact .inr ⟨by omega, h'.freed _ hgone⟩
  freed := fun j hj => h'.freed j (h.freed j hj)

/-- Code of the user on a connection makes its invocations, while the table has room or can grow. -/
theorem runScript_connected (script : Script μ) : ∀ {w : ClientWorld μ} {c : ConnectedInfo}
    {array : List (Closure μ)} {free : List (ℕ × Closure μ)} {twice : List ℕ},
    w.HasTable c array free → w.Watching fd → w.Accounted (outstanding array) twice →
    script.Valid w.client.service.nMethods →
    (¬ (script.length ≤ free.length ∨ (outstanding array).length + script.length ≤ 2 ^ 31) →
      ub .access) →
    Ends ub (w.runScript codec script) fun w' => ∃ c' array' free',
      Requested w fd script.length twice c array free w' c' array' free' := by
  induction script with
  | done =>
    intro w c array free twice h hw ha _ _
    exact ⟨c, array, free, ⟨_, _, _, _, _, _, rfl⟩, rfl, hw, h, ha, rfl, fun _ _ hi _ => hi,
      .inl ⟨rfl, rfl⟩, fun _ hj => hj⟩
  | invoke methodIndex input closure closureData rest ihc ihr =>
    intro w c array free twice h hw ha hvalid hub
    obtain ⟨hmethod, hclosure, hrest⟩ := hvalid
    have hlen : (Script.invoke methodIndex input closure closureData rest).length =
      1 + rest.length := Nat.add_comm _ _
    rw [hlen] at hub ⊢
    have hone := invokeClientRpc_connected codec h hw ha hmethod input hclosure
      closureData (fun w' => ClientWorld.runScript codec (closure none) (w'.record w.invoked none))
      fun hnil hfull => hub fun hroom => by
        rw [hnil, List.length_nil] at hroom
        omega
    rw [ClientWorld.runScript]
    refine hone.bind fun w₁ h₁ => ?_
    obtain ⟨c₁, array₁, free₁, h₁⟩ := h₁
    have hservice : w₁.client.service = w.client.service := by
      obtain ⟨_, _, _, _, _, _, rfl⟩ := h₁.frame
      rfl
    have hrest' := ihr h₁.table h₁.watching h₁.accounted (by rw [hservice]; exact hrest)
      fun hfull => hub fun hroom => hfull (by
        rw [h₁.waiting]
        obtain ⟨-, hfree⟩ | ⟨hnone, -⟩ := h₁.room
        · omega
        · omega)
    refine hrest'.imp fun w₂ h₂ => ?_
    obtain ⟨c₂, array₂, free₂, h₂⟩ := h₂
    exact ⟨c₂, array₂, free₂, h₁.trans h₂⟩

end

/-! ## Code of the user without a connection -/

/-- Nothing happens but calls with NULL. -/
def ClientWorld.OnlyCalls (w w' : ClientWorld μ) : Prop :=
  ∃ n calls, (∀ call ∈ calls, call.2 = none) ∧
    w' = { w with invoked := n, called := w.called ++ calls }

theorem ClientWorld.OnlyCalls.refl (w : ClientWorld μ) : w.OnlyCalls w :=
  ⟨w.invoked, [], by simp, by rw [List.append_nil]⟩

theorem ClientWorld.OnlyCalls.trans {w w' w'' : ClientWorld μ} (h : w.OnlyCalls w')
    (h' : w'.OnlyCalls w'') : w.OnlyCalls w'' := by
  obtain ⟨n, calls, hnull, rfl⟩ := h
  obtain ⟨n', calls', hnull', rfl⟩ := h'
  refine ⟨n', calls ++ calls', fun call hcall => ?_, ?_⟩
  · obtain hcall | hcall := List.mem_append.mp hcall
    · exact hnull call hcall
    · exact hnull' call hcall
  · rw [← List.append_assoc]

theorem ClientWorld.OnlyCalls.record (w : ClientWorld μ) (serial : ℕ) :
    w.OnlyCalls (w.record serial none) :=
  ⟨w.invoked, [(serial, none)], by simp, rfl⟩

/-- The client has failed or is being destroyed. -/
def ClientState.Down : ClientState → Prop
  | .failedWaiting | .failed | .destroyed => True
  | .init | .nameLookup | .connecting | .connected => False

theorem ClientWorld.OnlyCalls.state {w w' : ClientWorld μ} (h : w.OnlyCalls w') :
    w'.client = w.client := by
  obtain ⟨_, _, -, rfl⟩ := h
  rfl

theorem runScript_down (script : Script μ) : ∀ {w : ClientWorld μ} {waiting : List ℕ},
    w.client.state.Down → w.Accounted waiting [] →
    Ends ub (w.runScript codec script) fun w' => w.OnlyCalls w' ∧ w'.Accounted waiting [] := by
  induction script with
  | done => exact fun {w} _ _ ha => ⟨.refl w, ha⟩
  | invoke methodIndex input closure closureData rest ihc ihr =>
    intro w waiting hdown ha
    have hnow : ClientWorld.invokeClientRpc codec { w with invoked := w.invoked + 1 } methodIndex input
        ⟨w.invoked, closure⟩ closureData
        (fun w' => ClientWorld.runScript codec (closure none) (w'.record w.invoked none)) =
        ClientWorld.runScript codec (closure none)
          (ClientWorld.record { w with invoked := w.invoked + 1 } w.invoked none) := by
      unfold ClientWorld.invokeClientRpc
      cases hstate : w.client.state with
      | failedWaiting | failed | destroyed => rfl
      | init | nameLookup | connecting | connected =>
        rw [hstate] at hdown
        exact hdown.elim
    have hcalled : w.OnlyCalls
        (ClientWorld.record { w with invoked := w.invoked + 1 } w.invoked none) :=
      ⟨w.invoked + 1, [(w.invoked, none)], by simp, rfl⟩
    have hacc : ClientWorld.Accounted
        (ClientWorld.record { w with invoked := w.invoked + 1 } w.invoked none) waiting [] := by
      show ((w.called ++ [(w.invoked, none)]).map Prod.fst ++ waiting).Perm
        (List.range (w.invoked + 1) ++ [])
      rw [List.map_append, List.append_assoc, List.range_succ, List.append_nil]
      refine List.perm_middle.trans ((List.Perm.cons w.invoked ?_).trans
        (List.perm_append_singleton _ _).symm)
      unfold ClientWorld.Accounted at ha
      rw [List.append_nil] at ha
      exact ha
    rw [ClientWorld.runScript, hnow]
    refine (ihc none (w := ClientWorld.record { w with invoked := w.invoked + 1 } w.invoked none) hdown
      hacc).bind fun w₁ h₁ => ?_
    have hdown₁ : w₁.client.state.Down := by
      rw [h₁.1.state]
      exact hdown
    refine (ihr hdown₁ h₁.2).imp fun w₂ h₂ => ?_
    exact ⟨(hcalled.trans h₁.1).trans h₂.1, h₂.2⟩

theorem callClosures_down : ∀ (closures : List (Closure μ)) {w : ClientWorld μ} {waiting : List ℕ},
    (∀ cl ∈ closures, cl.responseType ≠ none → ∃ passed, cl.closure = some passed) →
    w.client.state.Down → w.Accounted (outstanding closures ++ waiting) [] →
    Ends ub (w.callClosures codec closures) fun w' => w.OnlyCalls w' ∧ w'.Accounted waiting [] := by
  intro closures
  induction closures with
  | nil => exact fun {w} {waiting} _ _ ha => ⟨.refl w, ha⟩
  | cons cl closures ih =>
    intro w waiting hused hdown ha
    have hrest := fun cl' hcl' => hused cl' (List.mem_cons_of_mem cl hcl')
    rw [ClientWorld.callClosures]
    cases htype : cl.responseType with
    | none =>
      have hskip : outstanding (cl :: closures) = outstanding closures := by
        unfold outstanding
        rw [List.filterMap_cons_none]
        unfold Closure.waiting
        rw [htype]
      rw [hskip] at ha
      exact ih hrest hdown ha
    | some type =>
      obtain ⟨passed, hpassed⟩ := hused cl List.mem_cons_self (by rw [htype]; simp)
      have hfirst : outstanding (cl :: closures) = passed.serial :: outstanding closures := by
        unfold outstanding
        rw [List.filterMap_cons_some]
        unfold Closure.waiting
        rw [htype, hpassed]
        rfl
      have hacc : (w.record passed.serial none).Accounted (outstanding closures ++ waiting) [] := by
        show ((w.called ++ [(passed.serial, none)]).map Prod.fst ++ _).Perm _
        rw [List.map_append, List.append_assoc]
        rw [hfirst] at ha
        exact ha
      have hcall : w.OnlyCalls (w.record passed.serial none) := .record w passed.serial
      simp only [hpassed]
      unfold ClientWorld.callClosure
      have hrun : Ends ub _ _ :=
        runScript_down codec (passed.closure none) (w := w.record passed.serial none) hdown hacc
      refine hrun.bind fun w₁ h₁ => ?_
      have hdown₁ : w₁.client.state.Down := by
        rw [h₁.1.state]
        exact hdown
      refine (ih hrest hdown₁ h₁.2).imp fun w₂ h₂ => ?_
      exact ⟨(hcall.trans h₁.1).trans h₂.1, h₂.2⟩

end ProtobufC
