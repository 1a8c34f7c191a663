import ProtobufC.Rpc.ServerInvariant

/-! # Answers from other threads

The pipe of a server is a queue of answers: an answer that is written whole goes in at one end, and the
handler takes answers out at the other, whatever the sizes of its reads.  `ProxiesExact` says that, for a
state and for every sequence of calls of the handler that may follow.  A response is copied behind a
`ProxyResponse` whose `len` is an `unsigned`, so a response of 2^32 bytes or more loses bytes on this way,
which it does not in the thread of the server; the queue is exact just if no such response is proxied to
a connection that is there.
-/

namespace ProtobufC
open Library
set_option autoImplicit false

variable {μ : Type} (codec : Codec μ)

namespace ServerWorld
variable {codec} {w w' : ServerWorld μ} {transit : List (ℕ × ProxyResponse)} {conn : ℕ}

/-! ## The queue -/

/-- The pointers in the queue are those that were written and not handled; of at most one there are some
bytes, and not all, in `proxy_extra_data`. -/
structure Queued (w : ServerWorld μ) (pointers : List ℕ) : Prop where
  written : w.written = w.handled ++ pointers
  once : w.written.Nodup
  bytes : w.proxyExtraData ++ w.pipe = pointers.flatMap pointerBytes
  short : w.proxyExtraData.length < sizeofPointer

/-- The response behind a pointer, if it is for a request of this connection. -/
def responseFor (w : ServerWorld μ) (conn p : ℕ) : List UInt8 :=
  match w.proxies.get p with
  | none => []
  | some pr => if w.connectionOf pr.request = some conn then pr.data else []

/-- Pointers leave the queue, and their responses are appended to the buffers of the connections that are
there, in order. -/
structure Passes (w w' : ServerWorld μ) (pointers : List ℕ) : Prop where
  handled : w'.handled = w.handled ++ pointers
  written : w'.written = w.written
  outgoing : ∀ conn, (w'.connections.get conn).map ServerConnection.outgoing =
    (w.connections.get conn).map fun c => c.outgoing ++ pointers.flatMap (w.responseFor conn)

/-- Successive calls of the handler. -/
def handlerCalls (w : ServerWorld μ) (nreads : List ℕ) : Except Fault (ServerWorld μ) :=
  nreads.foldlM handleProxyPipeReadable w

/-- The service answers a request through the pipe, and the pointer is written whole. -/
def Proxies (w : ServerWorld μ) (request : ℕ) (message : Option μ) (label : ServerLabel μ) : Prop :=
  label = .answer request message false .whole ∧ w.threading ∧ request ∈ w.owed

/-- What a step puts into the queue: the response that is proxied, or nothing. -/
def Enters (codec : Codec μ) (w w' : ServerWorld μ) (label : ServerLabel μ) (pointers : List ℕ) :
    Prop :=
  (pointers = [] ∧ ∀ request message, ¬ w.Proxies request message label) ∨
    ∃ request message p r, w.Proxies request message label ∧ pointers = [p] ∧
      w.requests.get request = some r ∧ (w'.proxies.get p).map (fun pr => (pr.request, pr.data)) =
        some (request, responseBytes codec r message)

/-- The queue is exact: it stands as it should, every sequence of calls of the handler takes out a front
of it, and a step puts nothing in but the response that is proxied. -/
structure ProxiesExact (codec : Codec μ) (w : ServerWorld μ) : Prop where
  queued : ∃ pointers, w.Queued pointers
  calls : ∀ pointers, w.Queued pointers → ∀ nreads, ∃ w' now later, pointers = now ++ later ∧
    w.handlerCalls nreads = .ok w' ∧ w'.Queued later ∧ Passes w w' now
  steps : ∀ pointers, w.Queued pointers → ∀ label w', w.WritesWhole False label →
    w.step codec label = .ok w' → ∃ entering now later, pointers ++ entering = now ++ later ∧
      w'.Queued later ∧ w'.handled = w.handled ++ now ∧ Enters codec w w' label entering ∧
      ((∀ nread, label ≠ .proxyReadable nread) → now = []) ∧
      ∀ p ∈ later, p ∈ pointers → w'.proxies.get p = w.proxies.get p

/-- A response that is proxied has a length that `len` can tell, or its connection was closed. -/
def ResponseFits (codec : Codec μ) (w : ServerWorld μ) (label : ServerLabel μ) : Prop :=
  ∀ request message r, w.Proxies request message label → w.requests.get request = some r →
    r.conn ≠ none → (responseBytes codec r message).length < 2 ^ 32

/-! ## Calls of the handler -/

theorem handlerCalls_spec : ∀ (nreads : List ℕ) {w : ServerWorld μ}
    {transit : List (ℕ × ProxyResponse)}, w.Inv False transit →
    ∃ w' now later, transit = now ++ later ∧ w.handlerCalls nreads = .ok w' ∧ w'.Inv False later ∧
      Delivered w w' now := by
  intro nreads
  induction nreads with
  | nil => exact fun h => ⟨_, [], _, rfl, rfl, h, Delivered.refl _⟩
  | cons nread nreads ih =>
    intro w transit h
    obtain ⟨w₁, hok, hinv, hdelivered⟩ := handleProxyPipeReadable_spec h nread
    obtain ⟨w', now, later, hsplit, hcalls, hinv', hdelivered'⟩ := ih hinv
    have hwhole : transit = transit.take (w.pointersRead nread) ++ (now ++ later) := by
      rw [← hsplit, List.take_append_drop]
    have hcore : w.Core False (transit.take (w.pointersRead nread) ++ (now ++ later)) :=
      hwhole ▸ h.core
    refine ⟨w', transit.take (w.pointersRead nread) ++ now, later, by rw [List.append_assoc, ← hwhole],
      ?_, hinv', hdelivered.append hdelivered' fun y hy => ?_⟩
    · unfold handlerCalls
      rw [List.foldlM_cons, hok]
      exact hcalls
    · exact hcore.connectionOf_later hdelivered y (List.mem_append_left later hy)

theorem pointersRead_pos (h : w.Inv False transit) (hne : transit ≠ []) :
    0 < w.pointersRead sizeofPointer := by
  have hbytes := congrArg List.length h.inPipe.bytes
  rw [length_records length_pointerBytes, List.length_append] at hbytes
  have hpos : 0 < (addresses transit).length := by
    rw [List.length_map]
    exact List.length_pos_iff.mpr hne
  have hmul : sizeofPointer ≤ (addresses transit).length * sizeofPointer := Nat.le_mul_of_pos_left _ hpos
  have hshort := h.inPipe.short
  unfold pointersRead
  rw [List.length_append, List.length_take]
  refine Nat.div_pos ?_ (Nat.zero_lt_succ 7)
  simp only [sizeofPointer, proxyBufSize] at *
  omega

theorem drains : ∀ (n : ℕ) {w : ServerWorld μ} {transit : List (ℕ × ProxyResponse)},
    w.Inv False transit → transit.length ≤ n →
    ∃ w', w.handlerCalls (List.replicate n sizeofPointer) = .ok w' ∧ w'.Inv False [] := by
  intro n
  induction n with
  | zero =>
    intro w transit h hlength
    obtain rfl := List.length_eq_zero_iff.mp (Nat.le_zero.mp hlength)
    exact ⟨w, rfl, h⟩
  | succ n ih =>
    intro w transit h hlength
    obtain ⟨w₁, hok, hinv, -⟩ := handleProxyPipeReadable_spec h sizeofPointer
    have hless : (transit.drop (w.pointersRead sizeofPointer)).length ≤ n := by
      rw [List.length_drop]
      by_cases hne : transit = []
      · rw [hne]
        simp
      · have := pointersRead_pos h hne
        omega
    obtain ⟨w', hcalls, hempty⟩ := ih hinv hless
    refine ⟨w', ?_, hempty⟩
    unfold handlerCalls
    rw [List.replicate_succ, List.foldlM_cons, hok]
    exact hcalls

/-! ## The invariant -/

/-- Every response in the queue is whole, or its connection was closed. -/
def Fitting (w : ServerWorld μ) (transit : List (ℕ × ProxyResponse)) : Prop :=
  ∀ x ∈ transit, ∀ conn, w.connectionOf x.2.request = some conn →
    x.2.data.take x.2.len.toNat = x.2.data

theorem Inv.queued (h : w.Inv False transit) : w.Queued (addresses transit) :=
  ⟨h.inPipe.written, h.inPipe.once, h.inPipe.bytes, h.inPipe.short⟩

theorem Inv.pointers_eq (h : w.Inv False transit) {pointers : List ℕ} (hqueued : w.Queued pointers) :
    pointers = addresses transit :=
  List.append_cancel_left (hqueued.written.symm.trans h.inPipe.written)

theorem responseFor_eq {x : ℕ × ProxyResponse} (h : w.Inv False transit) (hx : x ∈ transit) :
    w.responseFor conn x.1 = if w.connectionOf x.2.request = some conn then x.2.data else [] := by
  unfold responseFor
  rw [(h.core.stored.iff x.1 x.2).mp hx]

theorem Delivered.passes {now later : List (ℕ × ProxyResponse)} (h : w.Inv False (now ++ later))
    (hdelivered : Delivered w w' now) (hfitting : w.Fitting (now ++ later)) :
    Passes w w' (addresses now) := by
  refine ⟨hdelivered.handled, hdelivered.written, fun conn => ?_⟩
  have hsame : (now.flatMap fun x => w.delivered conn x.2) =
      (addresses now).flatMap (w.responseFor conn) := by
    rw [List.flatMap_map]
    refine List.flatMap_congr fun x hx => ?_
    have hin := List.mem_append_left later hx
    rw [responseFor_eq h hin]
    unfold delivered
    by_cases hconn : w.connectionOf x.2.request = some conn
    · rw [if_pos hconn, if_pos hconn, hfitting x hin conn hconn]
    · rw [if_neg hconn, if_neg hconn]
  rw [hdelivered.outgoing conn, hsame]

theorem Moves.split {transit' : List (ℕ × ProxyResponse)} {label : ServerLabel μ}
    (hmoves : w.Moves codec transit w' transit' label) :
    ∃ entering now, transit ++ entering = now ++ transit' ∧
      w'.handled = w.handled ++ addresses now ∧
      ((∀ nread, label ≠ .proxyReadable nread) → now = []) ∧
      ((entering = [] ∧ ∀ request message, ¬ w.Proxies request message label) ∨
        ∃ request message r, w.Proxies request message label ∧ w'.requests = w.requests ∧
          w.requests.get request = some r ∧ entering =
            [(w.proxies.cells.length, proxyOf request (responseBytes codec r message))]) := by
  -- nothing moves
  have hstill : transit' = transit ∧ w'.handled = w.handled →
      (∀ request message, ¬ w.Proxies request message label) →
      ∃ entering now, transit ++ entering = now ++ transit' ∧
        w'.handled = w.handled ++ addresses now ∧
        ((∀ nread, label ≠ .proxyReadable nread) → now = []) ∧
        ((entering = [] ∧ ∀ request message, ¬ w.Proxies request message label) ∨
          ∃ request message r, w.Proxies request message label ∧ w'.requests = w.requests ∧
            w.requests.get request = some r ∧ entering =
              [(w.proxies.cells.length, proxyOf request (responseBytes codec r message))]) := by
    rintro ⟨rfl, hhandled⟩ hnot
    exact ⟨[], [], by simp, by simp [hhandled], fun _ => rfl, .inl ⟨rfl, hnot⟩⟩
  cases label with
  | answer request message inRpcThread write =>
    cases inRpcThread with
    | true => exact hstill hmoves fun _ _ h => absurd h.1 (by simp)
    | false =>
      cases write with
      | whole =>
        by_cases hproxy : w.threading ∧ request ∈ w.owed
        · obtain ⟨hrequests, hhandled, r, hr, rfl⟩ := (if_pos hproxy).mp hmoves
          exact ⟨_, [], rfl, by simp [hhandled], fun _ => rfl,
            .inr ⟨request, message, r, ⟨rfl, hproxy⟩, hrequests, hr, rfl⟩⟩
        · refine hstill ((if_neg hproxy).mp hmoves) fun _ _ h => hproxy ?_
          obtain ⟨heq, hthreading, howed⟩ := h
          obtain ⟨rfl, -⟩ := ServerLabel.answer.inj heq
          exact ⟨hthreading, howed⟩
      | partially rv => exact hstill hmoves fun _ _ h => absurd h.1 (by simp)
      | fails => exact hstill hmoves fun _ _ h => absurd h.1 (by simp)
  | proxyReadable nread =>
    by_cases hnone : w.receiving = none
    · obtain ⟨rfl, hdelivered⟩ := (if_pos hnone).mp hmoves
      refine ⟨[], transit.take (w.pointersRead nread), ?_, hdelivered.handled,
        fun hnot => absurd rfl (hnot nread), .inl ⟨rfl, fun _ _ h => absurd h.1 (by simp)⟩⟩
      rw [List.append_nil, List.take_append_drop]
    · exact hstill ((if_neg hnone).mp hmoves) fun _ _ h => absurd h.1 (by simp)
  | accept _ => exact hstill hmoves fun _ _ h => absurd h.1 (by simp)
  | events _ _ _ => exact hstill hmoves fun _ _ h => absurd h.1 (by simp)
  | receive => exact hstill hmoves fun _ _ h => absurd h.1 (by simp)
  | configureThreading => exact hstill hmoves fun _ _ h => absurd h.1 (by simp)
  | other _ => exact hstill hmoves fun _ _ h => absurd h.1 (by simp)

/-- The queue of a server is exact while every response in it is whole. -/
theorem Inv.exact (h : w.Inv False transit) (hfitting : w.Fitting transit) :
    w.ProxiesExact codec := by
  refine ⟨⟨_, h.queued⟩, fun pointers hqueued nreads => ?_, fun pointers hqueued label w' hwhole hok => ?_⟩
  · obtain rfl := h.pointers_eq hqueued
    obtain ⟨w', now, later, rfl, hcalls, hinv, hdelivered⟩ := handlerCalls_spec nreads h
    exact ⟨w', addresses now, addresses later, List.map_append, hcalls, hinv.queued,
      hdelivered.passes h hfitting⟩
  · obtain rfl := h.pointers_eq hqueued
    obtain ⟨transit', hinv, -, hmoves⟩ := inv_of_step h hwhole hok
    obtain ⟨entering, now, hsplit, hhandled, hnow, henters⟩ := hmoves.split
    refine ⟨addresses entering, addresses now, addresses transit', ?_, hinv.queued, hhandled, ?_,
      fun hnot => by rw [hnow hnot]; rfl, fun p hp hin => ?_⟩
    · have := congrArg (List.map Prod.fst) hsplit
      rwa [List.map_append, List.map_append] at this
    · obtain ⟨rfl, hnot⟩ | ⟨request, message, r, hproxies, -, hr, rfl⟩ := henters
      · exact .inl ⟨rfl, hnot⟩
      · have hmem : (w.proxies.cells.length, proxyOf request (responseBytes codec r message)) ∈
            transit' := by
          rw [hnow fun nread heq => absurd (hproxies.1.symm.trans heq) (by simp)] at hsplit
          rw [List.nil_append] at hsplit
          rw [← hsplit]
          simp
        refine .inr ⟨request, message, _, r, hproxies, rfl, hr, ?_⟩
        rw [(hinv.core.stored.iff _ _).mp hmem]
        rfl
    · -- the response behind a pointer that stays is the same
      obtain ⟨x, hx, rfl⟩ := List.mem_map.mp hp
      obtain ⟨y, hy, heq⟩ := List.mem_map.mp hin
      have hthere : y ∈ now ++ transit' := hsplit ▸ List.mem_append_left entering hy
      obtain hleft | hstayed := List.mem_append.mp hthere
      · have honce := hinv.inPipe.once
        rw [hinv.inPipe.written, hhandled, List.append_assoc] at honce
        have hdisjoint := (List.nodup_append.mp (List.nodup_append.mp honce).2.1).2.2
        exact absurd heq (hdisjoint _ (List.mem_map_of_mem hleft) _ (List.mem_map_of_mem hx))
      · rw [← heq, (h.core.stored.iff _ _).mp hy, (hinv.core.stored.iff _ _).mp hstayed]

theorem toNat_ofNat_length {data : List UInt8} (hlength : data.length < 2 ^ 32) :
    (UInt32.ofNat data.length).toNat = data.length := by
  rw [UInt32.toNat_ofNat']
  exact Nat.mod_eq_of_lt hlength

/-- A connection of a request in service is the one whose list it is in. -/
theorem pending_of_connectionOf {r : ℕ} (h : InService w.requests r)
    (hconn : w.connectionOf r = some conn) : placeOf w.requests r = some (.pending conn) := by
  obtain hdefunct | ⟨i, hpending⟩ := h
  · rw [connectionOf_defunct hdefunct] at hconn
    exact absurd hconn (by simp)
  · rw [connectionOf_pending hpending] at hconn
    rw [hpending, Option.some.inj hconn]

theorem Fitting.step {transit' : List (ℕ × ProxyResponse)} {label : ServerLabel μ}
    (hfitting : w.Fitting transit) (h : w.Inv False transit) (h' : w'.Inv False transit')
    (hstays : Stays w w') (hmoves : w.Moves codec transit w' transit' label)
    (hfits : w.ResponseFits codec label) : w'.Fitting transit' := by
  intro x hx conn hconn
  have hpending := pending_of_connectionOf (h'.core.held_transit x hx) hconn
  obtain ⟨entering, now, hsplit, -, -, henters⟩ := hmoves.split
  have hthere : x ∈ transit ++ entering := hsplit ▸ List.mem_append_right now hx
  obtain hold | hnew := List.mem_append.mp hthere
  · exact hfitting x hold conn
      (connectionOf_pending (hstays _ conn (h.core.held_transit x hold) hpending))
  · obtain ⟨rfl, -⟩ | ⟨request, message, r, hproxies, hrequests, hr, rfl⟩ := henters
    · exact absurd hnew List.not_mem_nil
    · obtain rfl := List.mem_singleton.mp hnew
      have hopen : r.conn ≠ none := by
        unfold connectionOf at hconn
        rw [hrequests] at hconn
        change (w.requests.get request).bind _ = _ at hconn
        rw [hr] at hconn
        change r.conn = _ at hconn
        rw [hconn]
        simp
      have hlength := hfits request message r hproxies hr hopen
      change (responseBytes codec r message).take (UInt32.ofNat _).toNat = _
      rw [toNat_ofNat_length hlength]
      exact List.take_of_length_le (Nat.le_refl _)

theorem length_flatMap_le {ι : Type} {f g : ι → List UInt8} {l : List ι}
    (h : ∀ i ∈ l, (f i).length ≤ (g i).length) : (l.flatMap f).length ≤ (l.flatMap g).length := by
  induction l with
  | nil => exact Nat.le_refl _
  | cons i l ih =>
    rw [List.flatMap_cons, List.flatMap_cons, List.length_append, List.length_append]
    exact Nat.add_le_add (h i List.mem_cons_self) (ih fun j hj => h j (List.mem_cons_of_mem i hj))

theorem delivered_le {x : ℕ × ProxyResponse} (h : w.Inv False transit) (hx : x ∈ transit) :
    (w.delivered conn x.2).length ≤ (w.responseFor conn x.1).length := by
  rw [responseFor_eq h hx]
  unfold delivered
  by_cases hconn : w.connectionOf x.2.request = some conn
  · rw [if_pos hconn, if_pos hconn, List.length_take]
    exact Nat.min_le_right ..
  · rw [if_neg hconn, if_neg hconn]

theorem delivered_lt {p request : ℕ} {data : List UInt8} (h : w.Inv False transit)
    (hx : (p, proxyOf request data) ∈ transit) (hconn : w.connectionOf request = some conn)
    (hlong : 2 ^ 32 ≤ data.length) :
    (w.delivered conn (proxyOf request data)).length < (w.responseFor conn p).length := by
  have hresponse : w.responseFor conn p =
      if w.connectionOf request = some conn then data else [] := responseFor_eq h hx
  rw [hresponse, if_pos hconn]
  change (if w.connectionOf request = some conn then data.take (UInt32.ofNat data.length).toNat
    else []).length < _
  rw [if_pos hconn, List.length_take]
  exact (Nat.min_le_left ..).trans_lt ((UInt32.toNat_lt _).trans_le hlong)

theorem not_exact_of_long (h : w.Inv False transit) {label : ServerLabel μ}
    (hnot : ¬ w.ResponseFits codec label) :
    ∃ w', w.step codec label = .ok w' ∧ ¬ w'.ProxiesExact codec := by
  unfold ResponseFits at hnot
  push Not at hnot
  obtain ⟨request, message, r, ⟨rfl, hthreading, howed⟩, hr, hopen, hlong⟩ := hnot
  obtain ⟨conn, hconn⟩ := Option.ne_none_iff_exists'.mp hopen
  obtain ⟨w', transit', hok, hinv, -, hmoves⟩ := step_spec codec h
    (.answer request message false .whole) trivial fun hdefunct => hdefunct.2.1 ⟨hthreading, rfl⟩
  refine ⟨w', hok, fun hexact => ?_⟩
  obtain ⟨entering, now, hsplit, -, hnow, henters⟩ := hmoves.split
  obtain ⟨-, hnone⟩ | ⟨request', message', r', hproxies, hrequests, hr', rfl⟩ := henters
  · exact hnone request message ⟨rfl, hthreading, howed⟩
  · obtain ⟨rfl, rfl, -⟩ := ServerLabel.answer.inj hproxies.1
    obtain rfl := Option.some.inj (hr.symm.trans hr')
    rw [hnow fun _ heq => absurd heq (by simp), List.nil_append] at hsplit
    subst hsplit
    set x := (w.proxies.cells.length, proxyOf request (responseBytes codec r message)) with hx
    have hmem : x ∈ transit ++ [x] := by simp
    have hconn' : w'.connectionOf request = some conn := by
      unfold connectionOf
      rw [hrequests, hr]
      exact hconn
    -- the connection is there, and the queue is emptied
    obtain ⟨pending, recycled, hlaid⟩ := hinv.core.laid
    obtain ⟨c, hc⟩ := hlaid.open_of_pending
      (pending_of_connectionOf (hinv.core.held_transit x hmem) hconn')
    obtain ⟨w₁, hdrained, hempty⟩ := drains _ hinv (Nat.le_refl _)
    obtain ⟨w₂, now₂, later₂, hsplit₂, hcalls₂, hinv₂, hdelivered⟩ := handlerCalls_spec _ hinv
    obtain rfl := Except.ok.inj (hdrained.symm.trans hcalls₂)
    obtain ⟨w₃, now₃, later₃, hsplit₃, hcalls₃, hqueued₃, hpasses⟩ :=
      hexact.calls _ hinv.queued (List.replicate (transit ++ [x]).length sizeofPointer)
    obtain rfl := Except.ok.inj (hdrained.symm.trans hcalls₃)
    have hlater₂ : later₂ = [] :=
      List.map_eq_nil_iff.mp (hempty.pointers_eq hinv₂.queued)
    have hlater₃ : later₃ = [] := hempty.pointers_eq hqueued₃
    rw [hlater₂, List.append_nil] at hsplit₂
    rw [hlater₃, List.append_nil] at hsplit₃
    subst hsplit₂ hsplit₃
    -- two accounts of what the buffer of the connection gets
    have hsame := (hdelivered.outgoing conn).symm.trans (hpasses.outgoing conn)
    rw [hc, Option.map_some, Option.map_some, Option.some.injEq] at hsame
    have hlengths := congrArg List.length (List.append_cancel_left hsame)
    rw [List.flatMap_map, List.flatMap_append, List.flatMap_append, List.length_append,
      List.length_append, List.flatMap_singleton, List.flatMap_singleton] at hlengths
    have hfront := length_flatMap_le (l := transit) (f := fun y => w'.delivered conn y.2)
      (g := fun y => w'.responseFor conn y.1) fun y hy =>
        delivered_le hinv (List.mem_append_left [x] hy)
    have hlast : (w'.delivered conn x.2).length < (w'.responseFor conn x.1).length :=
      delivered_lt hinv hmem hconn' hlong
    omega

end ServerWorld

/-! ## Runs -/

/-- The queue of a server is exact in every state of every run in which pointers are written whole. -/
def AlwaysExact : Prop :=
  ∀ (service : ServiceDescriptor) (watched : Registered) (labels : List (ServerLabel μ)),
    AllowedAlong (ServerWorld.step codec) (ServerWorld.WritesWhole False) labels
      (serverNewFromFd service watched) →
    HoldsAlong (ServerWorld.step codec) (ServerWorld.ProxiesExact codec) labels
      (serverNewFromFd service watched)

/-- The queue of a server is exact along a run just if every response that is proxied to a connection that
is there has a length that its `len` can tell. -/
theorem proxiesExact_iff (service : ServiceDescriptor) (watched : Registered)
    (labels : List (ServerLabel μ))
    (hwhole : AllowedAlong (ServerWorld.step codec) (ServerWorld.WritesWhole False) labels
      (serverNewFromFd service watched)) :
    HoldsAlong (ServerWorld.step codec) (ServerWorld.ProxiesExact codec) labels
      (serverNewFromFd service watched) ↔
    AllowedAlong (ServerWorld.step codec) (ServerWorld.ResponseFits codec) labels
      (serverNewFromFd service watched) := by
  refine holdsAlong_iff_given
    (I := fun w => ∃ transit, w.Inv False transit ∧ w.Fitting transit) ?_ ?_ ?_ labels _
    ⟨[], ServerWorld.inv_serverNewFromFd service watched, fun x hx => absurd hx List.not_mem_nil⟩ hwhole
  · rintro w ⟨transit, hinv, hfitting⟩
    exact hinv.exact hfitting
  · rintro w label w' ⟨transit, hinv, hfitting⟩ hwrites hfits hok
    obtain ⟨transit', hinv', hgains, hmoves⟩ := ServerWorld.inv_of_step hinv hwrites hok
    exact ⟨transit', hinv', hfitting.step hinv hinv' hgains.stays hmoves hfits⟩
  · rintro w label ⟨transit, hinv, -⟩ - hnot
    exact ServerWorld.not_exact_of_long hinv hnot

/-- A service of one method, its request, an answer from another thread, and three reads of which the
first ends within the pointer. -/
def proxiedRun (answer : List UInt8) : List (ServerLabel (List UInt8)) :=
  [.accept (some 5), .configureThreading,
    .events 0 (some (.received (headerBytes [0, 0, 9]))) none, .receive,
    .answer 0 (some answer) false .whole, .receive, .proxyReadable 5, .proxyReadable 0, .proxyReadable 8]

theorem writesWhole_proxiedRun (answer : List UInt8) (service : ServiceDescriptor)
    (watched : Registered) :
    AllowedAlong (ServerWorld.step bytesCodec) (ServerWorld.WritesWhole False) (proxiedRun answer)
      (serverNewFromFd service watched) := by
  refine allowedAlong_of_forall (fun label hlabel w => ?_) _
  simp only [proxiedRun, List.mem_cons, List.not_mem_nil, or_false] at hlabel
  obtain rfl | rfl | rfl | rfl | rfl | rfl | rfl | rfl | rfl := hlabel <;> trivial

theorem proxiesExact_iff_split : HoldsAlong (ServerWorld.step bytesCodec)
    (ServerWorld.ProxiesExact bytesCodec) (proxiedRun [1, 2, 3])
    (serverNewFromFd ⟨[⟨0, 0⟩]⟩ fun _ => none) := by
  refine (proxiesExact_iff bytesCodec ⟨[⟨0, 0⟩]⟩ (fun _ => none) (proxiedRun [1, 2, 3])
    (writesWhole_proxiedRun [1, 2, 3] _ _)).mpr (allowedAlong_of_forall (fun label hlabel w => ?_) _)
  intro request message r hproxies _ _
  obtain ⟨rfl, -⟩ := hproxies
  simp only [proxiedRun, List.mem_cons, List.not_mem_nil, or_false, reduceCtorEq, false_or,
    ServerLabel.answer.injEq] at hlabel
  obtain ⟨-, rfl, -⟩ := hlabel
  exact Nat.lt_of_le_of_lt (Nat.le_refl 19) (by decide)

/-- A message whose response has just 2^32 bytes. -/
def longAnswer : List UInt8 := List.replicate (2 ^ 32 - 16) 0

theorem length_response (r : ServerRequest) (answer : List UInt8) :
    (responseBytes bytesCodec r (some answer)).length = 16 + answer.length := by
  unfold responseBytes
  rw [List.length_append, length_headerBytes]
  rfl

/-- The request of the run is answered with a response that is too long. -/
theorem not_holds_of_longAnswer {w : ServerWorld (List UInt8)} {labels : List (ServerLabel (List UInt8))}
    (hholds : HoldsAlong (ServerWorld.step bytesCodec) (ServerWorld.ProxiesExact bytesCodec)
      (.answer 0 (some longAnswer) false .whole :: labels) w)
    (hruns : Runs (ServerWorld.step bytesCodec) (ServerWorld.WritesWhole False)
      (serverNewFromFd ⟨[⟨0, 0⟩]⟩ fun _ => none) w) (hthreading : w.threading) (howed : 0 ∈ w.owed)
    (hr : w.requests.get 0 = some ⟨9, 0, some 0, .alive ⟨none, none⟩⟩) : False := by
  obtain ⟨transit, hinv⟩ := ServerWorld.runs_inv hruns
  have hlong : ¬ w.ResponseFits bytesCodec (.answer 0 (some longAnswer) false .whole) := by
    intro hfits
    have hlength := hfits 0 (some longAnswer) _ ⟨rfl, hthreading, howed⟩ hr (by simp)
    rw [length_response, longAnswer, List.length_replicate] at hlength
    exact absurd hlength (by decide)
  obtain ⟨w', hok, hnot⟩ := ServerWorld.not_exact_of_long hinv hlong
  have hrest := hholds.2 w' hok
  cases labels with
  | nil => exact hnot hrest
  | cons _ _ => exact hnot hrest.1

theorem not_alwaysExact : ¬ AlwaysExact bytesCodec := by
  intro h
  have hholds := h ⟨[⟨0, 0⟩]⟩ (fun _ => none) (proxiedRun longAnswer)
    (writesWhole_proxiedRun longAnswer _ _)
  have hanswer := (((hholds.2 _ rfl).2 _ rfl).2 _ rfl).2 _ rfl
  exact not_holds_of_longAnswer hanswer
    (.tail .receive (.tail (.events 0 (some (.received (headerBytes [0, 0, 9]))) none)
      (.tail .configureThreading (.tail (.accept (some 5)) (.refl _) trivial rfl) trivial rfl)
        trivial rfl) trivial rfl) rfl List.mem_cons_self rfl

end ProtobufC
