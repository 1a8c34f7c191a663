import ProtobufC.Rpc.ClientRuns

/-! # Every closure is called once

Every closure that is passed to an invocation is called at most once, and exactly once where the client
has failed or is destroyed.  A response calls the closure of the request that is outstanding under its
number, and makes the number free, unless that closure makes more invocations than the table has free
entries: then the table is replaced while the closure runs, and what lies behind the call writes to the
array that was freed.
-/

namespace ProtobufC
open Library
set_option autoImplicit false

variable {μ : Type} (codec : Codec μ)

namespace ClientWorld

/-- The request `k` was sent under this number and has no response yet. -/
def Outstanding (w : ClientWorld μ) (request_id : UInt32) (k : ℕ) : Prop :=
  (k, request_id) ∈ w.sent ∧ k ∉ w.called.map Prod.fst

/-- The slot of the number is free in the table that the client has. -/
def SlotFree (w : ClientWorld μ) (request_id : UInt32) : Prop :=
  ∃ c array i cl, w.client.info = .connected c ∧ w.arrays.get c.closures = some array ∧
    slotIndex request_id = some i ∧ array[i]? = some cl ∧ cl.responseType = none

/-- No closure was called twice, only those of invocations were called, and where the client has failed
or is destroyed all of them were. -/
structure FiresOnce (w : ClientWorld μ) : Prop where
  nodup : (w.called.map Prod.fst).Nodup
  issued : ∀ k ∈ w.called.map Prod.fst, k < w.invoked
  all : w.client.state.Down → (w.called.map Prod.fst).Perm (List.range w.invoked)

/-- A step calls closures with NULL only, and then there was no response to deliver; or it calls the
closure of the one request that is outstanding under the number in the response, which is free then. -/
def Answers (w : ClientWorld μ) (label : ClientLabel μ) (w' : ClientWorld μ) : Prop :=
  (w.NullCalls w' ∧ (label = .respond → w.responding = true →
    ∀ c array i cl closure msg, ¬ w.Delivers codec c array i cl closure msg)) ∨
  ∃ k msg, w.Outstanding (headerWord w.client.incoming 3) k ∧
    (∀ k', w.Outstanding (headerWord w.client.incoming 3) k' → k' = k) ∧
    w'.called = w.called ++ [(k, some msg)] ∧ w'.SlotFree (headerWord w.client.incoming 3)

theorem Accounted.nodup {w : ClientWorld μ} {waiting : List ℕ} (h : w.Accounted waiting []) :
    (w.called.map Prod.fst ++ waiting).Nodup := by
  unfold Accounted at h
  rw [List.append_nil] at h
  exact h.nodup_iff.mpr List.nodup_range

theorem Accounted.firesOnce {w : ClientWorld μ} {waiting : List ℕ} (h : w.Accounted waiting [])
    (hall : w.client.state.Down → waiting = []) : w.FiresOnce where
  nodup := (List.nodup_append.mp h.nodup).1
  issued := by
    intro k hk
    unfold Accounted at h
    rw [List.append_nil] at h
    exact List.mem_range.mp (h.mem_iff.mp (List.mem_append_left _ hk))
  all := by
    intro hdown
    unfold Accounted at h
    rw [hall hdown, List.append_nil, List.append_nil] at h
    exact h

theorem Inv.firesOnce {w : ClientWorld μ} {reclosed : List ℕ} (h : w.Inv reclosed) : w.FiresOnce := by
  cases h with
  | connected c array free fd connected =>
    refine connected.accounted.firesOnce fun hdown => ?_
    rw [connected.table.state] at hdown
    exact hdown.elim
  | init _ _ _ _ quiet _ _ | nameLookup _ _ _ _ _ quiet _ _ | connecting _ _ _ _ _ quiet _ _ _
  | failedWaiting _ _ _ _ _ _ _ quiet _ _ | failed _ _ _ _ _ _ quiet _ _
  | destroyed _ _ _ _ _ _ quiet _ _ => exact quiet.accounted.firesOnce fun _ => rfl

/-- The closure of a response is that of the one request outstanding under its number. -/
theorem Connected.outstanding_delivers {w : ClientWorld μ} {reclosed : List ℕ} {c : ConnectedInfo}
    {array : List (Closure μ)} {free : List (ℕ × Closure μ)} {fd : ℕ}
    (h : w.Connected reclosed c array free fd) {i : ℕ} {cl : Closure μ} {closure : Passed μ} {msg : μ}
    (hd : w.Delivers codec c array i cl closure msg) :
    w.Outstanding (headerWord w.client.incoming 3) closure.serial ∧
      ∀ k', w.Outstanding (headerWord w.client.incoming 3) k' → k' = closure.serial := by
  obtain ⟨type, htype, -⟩ := hd.message
  have hk : cl.waiting = some closure.serial := by
    unfold Closure.waiting
    rw [htype, hd.closure]
    rfl
  refine ⟨⟨?_, fun hcalled => ?_⟩, fun k' hk' => ?_⟩
  · rw [← ofNat_of_slotIndex hd.slot]
    exact h.table.sent i cl closure.serial hd.entry hk
  · have hwaits : closure.serial ∈ outstanding array :=
      List.mem_filterMap.mpr ⟨cl, List.mem_of_getElem? hd.entry, hk⟩
    exact (List.nodup_append.mp h.accounted.nodup).2.2 _ hcalled _ hwaits rfl
  · obtain ⟨j, a, hjd, hj, ha⟩ := h.table.pending _ hk'.1 hk'.2
    obtain rfl : i = j := Option.some.inj (hd.slot.symm.trans hjd)
    obtain rfl : cl = a := Option.some.inj (hd.entry.symm.trans hj)
    exact Option.some.inj (ha.symm.trans hk)

theorem Calls.answers {w w' : ClientWorld μ} {reclosed : List ℕ} {label : ClientLabel μ}
    (h : w.Calls codec reclosed label w') (hinv : w.Inv reclosed)
    (hresponding : label = .respond → w'.called ≠ w.called → w.responding = true) :
    w.Answers codec label w' := by
  obtain hnull | ⟨hlabel, c, array, i, cl, closure, msg, hd, hdelivered⟩ := h
  · exact .inl hnull
  · have hcalled := hdelivered.called
    have hruns := hresponding hlabel (by rw [hcalled]; simp)
    obtain ⟨c', array', free, fd, hconn⟩ := hinv.of_responding hruns
    obtain rfl : c' = c := by
      have hinfo := hconn.table.info.symm.trans hd.info
      simpa using hinfo
    obtain rfl : array' = array := Option.some.inj (hconn.table.get.symm.trans hd.get)
    obtain ⟨hout, hunique⟩ := hconn.outstanding_delivers codec hd
    obtain ⟨c'', array'', cl'', hinfo, hget, hentry, hfree⟩ := hdelivered.free
    exact .inr ⟨closure.serial, msg, hout, hunique, hcalled, c'', array'', i, cl'', hinfo, hget, hd.slot,
      hentry, hfree⟩

end ClientWorld

/-! ## Runs -/

/-- In every run in which the table has room for the invocations of each step, every closure is called
once; a response whose closure makes more invocations than that makes the step write to memory that was
freed. -/
theorem firesOnce_iff {self : ℕ} {watched : Registered} (hnew : Unregistered self watched)
    {type : AddressType} {name : List UInt8} {descriptor : ServiceDescriptor} {w : ClientWorld μ}
    (h : Runs (ClientWorld.step codec)
      (fun w label => w.Proper label ∧ w.Takes label ∧ w.Room codec label)
      (rpcClientNew self type name descriptor watched) w) :
    w.FiresOnce ∧ ∀ label, w.Proper label → w.Takes label →
      (w.Room codec label →
        ∃ w', w.step codec label = .ok w' ∧ w'.FiresOnce ∧ w.Answers codec label w') ∧
      (label = .respond → w.responding = true → ¬ w.Room codec label →
        w.step codec label = .error .access) := by
  have hinv : ∃ reclosed, w.Inv reclosed := by
    refine h.invariant (I := fun w => ∃ reclosed, w.Inv reclosed)
      ⟨[], rpcClientNew_inv hnew type name descriptor⟩ fun t label u ht hallowed hok => ?_
    obtain ⟨reclosed, ht⟩ := ht
    have hends : Ends (fun _ => True) _ _ :=
      step_spec codec ht hallowed.1 hallowed.2.1 fun _ => trivial
    exact ⟨_, (hends.post hok).1⟩
  obtain ⟨reclosed, hinv⟩ := hinv
  refine ⟨hinv.firesOnce, fun label hproper htakes => ⟨fun hroom => ?_, fun hlabel hruns hroom => ?_⟩⟩
  · have hends : Ends (fun _ => False) _ _ :=
      step_spec codec hinv hproper htakes fun hfull => hfull hroom
    obtain ⟨w', hok, hinv', hcalls⟩ := hends.total fun _ => id
    refine ⟨w', hok, hinv'.firesOnce, hcalls.answers codec hinv fun hlabel hne => ?_⟩
    by_contra hruns
    rw [hlabel] at hok
    unfold ClientWorld.step at hok
    dsimp only at hok
    rw [if_neg hruns] at hok
    exact hne (by rw [Except.ok.inj hok])
  · obtain ⟨c, array, free, fd, hconn⟩ := hinv.of_responding hruns
    rw [hlabel] at hroom ⊢
    unfold ClientWorld.step
    dsimp only
    rw [if_pos hruns]
    have hmore : ∃ c' array' i cl closure msg, w.Delivers codec c' array' i cl closure msg ∧
        ¬ (closure.closure (some msg)).length ≤ freeEntries array' := by
      by_contra hnot
      refine hroom fun c' array' i cl closure msg hd => ?_
      by_contra hlong
      exact hnot ⟨c', array', i, cl, closure, msg, hd, hlong⟩
    obtain ⟨c', array', i, cl, closure, msg, hd, hlong⟩ := hmore
    obtain rfl : c = c' := by
      have hinfo := hconn.table.info.symm.trans hd.info
      simpa using hinfo
    obtain rfl : array = array' := Option.some.inj (hconn.table.get.symm.trans hd.get)
    exact respond_overruns codec hconn hd (not_le.mp hlong)

/-- A connection, one request, and the response to it. -/
theorem firesOnce_answered : ∃ w w', Runs (ClientWorld.step bytesCodec)
      (fun w label => w.Proper label ∧ w.Takes label ∧ w.Room bytesCodec label) localClient w ∧
      w.called = [] ∧ w.step bytesCodec .respond = .ok w' ∧ w'.FiresOnce := by
  have hnew : Unregistered 7 fun _ => none := fun _ _ _ h => absurd h (by simp)
  have hvalid : (requestThen .done).Valid 1 := ⟨Nat.zero_lt_one, fun _ => trivial, trivial⟩
  have hrun : ∃ w, Runs (ClientWorld.step bytesCodec)
      (fun w label => w.Proper label ∧ w.Takes label ∧ w.Room bytesCodec label) localClient w ∧
      w.called = [] ∧ w.Room bytesCodec .respond := by
    refine ⟨_, .tail (.events none (some (.received firstResponse)))
      (.tail (.invoke (requestThen .done)) (.tail (.idle .later (.connected 5)) (.refl localClient)
        ⟨fun _ _ => rfl, trivial, trivial⟩ rfl) ⟨hvalid, .inl rfl, ?_⟩ rfl)
      ⟨trivial, trivial, trivial⟩ rfl, rfl, ?_⟩
    · intro c array _ hinfo hget
      cases hinfo
      cases hget
      exact .inl (by decide)
    · intro c array i cl closure msg hd
      cases hd.info
      cases hd.get
      obtain rfl := List.mem_singleton.mp (List.mem_of_getElem? hd.entry)
      cases hd.closure
      exact Nat.zero_le _
  obtain ⟨w, hw, hcalled, hroom⟩ := hrun
  obtain ⟨w', hok, hfires, -⟩ := ((firesOnce_iff bytesCodec hnew hw).2 .respond trivial trivial).1 hroom
  exact ⟨w, w', hw, hcalled, hok, hfires⟩

/-- The closure of the first request makes another request when the response comes, and the table that
has room for one is replaced. -/
theorem firesOnce_fails : ¬ ∀ w, Runs (ClientWorld.step bytesCodec)
      (fun w label => w.Proper label ∧ w.Takes label) localClient w →
      ∀ label, w.Proper label → w.Takes label →
        ∃ w', w.step bytesCodec label = .ok w' ∧ w'.FiresOnce ∧ w.Answers bytesCodec label w' := by
  intro hall
  have hvalid : (requestThen (requestThen .done)).Valid 1 :=
    ⟨Nat.zero_lt_one, fun _ => ⟨Nat.zero_lt_one, fun _ => trivial, trivial⟩, trivial⟩
  obtain ⟨w', hok, -⟩ := hall _ (.tail (.events none (some (.received firstResponse)))
    (.tail (.invoke (requestThen (requestThen .done))) (.tail (.idle .later (.connected 5))
      (.refl localClient) ⟨fun _ _ => rfl, trivial⟩ rfl) ⟨hvalid, .inl rfl⟩ rfl)
    ⟨trivial, trivial⟩ rfl) .respond trivial trivial
  have herror : (Except.ok w' : Except Fault (ClientWorld (List UInt8))) = .error .access :=
    hok.symm.trans rfl
  exact absurd herror (by simp)

end ProtobufC
