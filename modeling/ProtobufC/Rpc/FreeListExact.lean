import ProtobufC.Rpc.ClosureTable
import ProtobufC.Rpc.ClientMachine

/-! # The free list of a connection

The table from `set_state_connected` on, under requests and completions in any order.  The request
numbers that `first_free_request_id` leads to and those of the requests without a response are together
all numbers of the table, each once.
-/

namespace ProtobufC
open Library
set_option autoImplicit false

variable {μ : Type} (codec : Codec μ)

/-! ## What is read off the table -/

/-- The request numbers that `first_free_request_id` leads to through `closure_data`; none where the
links leave the table or do not end. -/
def freeIds (closures : List (Closure μ)) : ℕ → UInt32 → Option (List UInt32)
  | 0, request_id => if request_id = 0 then some [] else none
  | n + 1, request_id =>
      if request_id = 0 then some []
      else do
        let cl ← closures[(request_id - 1).toNat]?
        let ids ← freeIds closures n (pointerToUint cl.closureData)
        return request_id :: ids

namespace ClientWorld

/-- The check of a request number in a response. -/
def accepts (w : ClientWorld μ) (request_id : UInt32) : Except Fault Bool := do
  let c ← w.client.info.toConnected
  let array ← w.arrays.load c.closures
  if request_id > c.closuresAlloced ∨ request_id = 0 then return false
  else return (← readAtIndex array (request_id - 1).toNat).responseType.isSome

/-- The whole of the next response was received. -/
def WholeResponse (w : ClientWorld μ) : Prop :=
  16 ≤ w.client.incoming.length ∧
    (16 + headerWord w.client.incoming 2).toNat ≤ w.client.incoming.length

/-- What the loop over the responses does for an entry of the table with a response type. -/
def takeResponse (w : ClientWorld μ) (c : ConnectedInfo) (cl : Closure μ) (responseType : DescriptorId) :
    Except Fault (ClientWorld μ) := do
  let length := (headerWord w.client.incoming 2).toNat
  let data := readBlock (w.client.incoming.drop 16) length
  let request_id := headerWord w.client.incoming 3
  let w := { w with client := { w.client with incoming := (w.client.incoming.drop 16).drop length } }
  match codec.unpack responseType data with
  | none => w.stopResponding.clientFailed codec "failed to unpack message"
  | some msg =>
      match cl.closure with
      | none => .error .access
      | some closure =>
          (← w.callClosure codec closure (some msg)).releaseClosure c.closures request_id

/-- The loop makes this check: where a number is not accepted the client fails, and where it is, the
response is taken. -/
theorem respond_of_accepts {w : ClientWorld μ} (hwhole : w.WholeResponse) {b : Bool}
    (h : w.accepts (headerWord w.client.incoming 3) = .ok b) :
    (b = false →
      w.respond codec = w.stopResponding.clientFailed codec "bad request-id in response from server") ∧
    (b = true → ∃ c array cl responseType, w.client.info.toConnected = .ok c ∧
      w.arrays.load c.closures = .ok array ∧
      readAtIndex array (headerWord w.client.incoming 3 - 1).toNat = .ok cl ∧
      cl.responseType = some responseType ∧ w.respond codec = w.takeResponse codec c cl responseType) := by
  unfold accepts at h
  obtain ⟨c, hc, h⟩ := except_bind_eq_ok h
  obtain ⟨array, harray, h⟩ := except_bind_eq_ok h
  unfold respond
  simp only [if_neg (not_lt.mpr hwhole.1), if_neg (not_lt.mpr hwhole.2), hc, harray, except_ok_bind]
  by_cases hrange : headerWord w.client.incoming 3 > c.closuresAlloced ∨
      headerWord w.client.incoming 3 = 0
  · rw [if_pos hrange] at h ⊢
    obtain rfl := Except.ok.inj h
    exact ⟨fun _ => rfl, fun hb => absurd hb (by simp)⟩
  · rw [if_neg hrange] at h ⊢
    obtain ⟨cl, hcl, h⟩ := except_bind_eq_ok h
    obtain rfl := Except.ok.inj h
    simp only [hcl, except_ok_bind]
    cases htype : cl.responseType with
    | none => exact ⟨fun _ => rfl, fun hb => absurd hb (by simp)⟩
    | some responseType =>
      exact ⟨fun hb => absurd hb (by simp),
        fun _ => ⟨c, array, cl, responseType, rfl, harray, hcl, htype, rfl⟩⟩

end ClientWorld

/-! ## Requests and completions -/

/-- A client with a table, and the numbers of the requests that have no response yet. -/
structure TableRun (μ : Type) where
  world : ClientWorld μ
  outstanding : List UInt32

/-- What happens to the table. -/
inductive TableLabel (μ : Type)
  | request (methodIndex : ℕ) (input : μ) (closure : Passed μ) (closureData : UInt64)
  | complete (request_id : UInt32)

namespace TableRun

/-- A request is outstanding from then on, under the number in its header; the slot of a response that
is accepted is released in the table that the client has. -/
def step (r : TableRun μ) : TableLabel μ → Except Fault (TableRun μ)
  | .request methodIndex input closure closureData => do
      let w ← r.world.enqueueRequest codec methodIndex input closure closureData
      return ⟨w, r.outstanding ++ (w.sent.drop r.world.sent.length).map Prod.snd⟩
  | .complete request_id => do
      if ← r.world.accepts request_id then
        let c ← r.world.client.info.toConnected
        let w ← r.world.releaseClosure c.closures request_id
        return ⟨w, r.outstanding.erase request_id⟩
      else return r

/-- Requests are for methods of the service, while there are fewer than 2^31 slots. -/
def Allowed (r : TableRun μ) : TableLabel μ → Prop
  | .request methodIndex _ _ _ => methodIndex < r.world.client.service.nMethods ∧
      ∀ c, r.world.client.info = .connected c → c.closuresAlloced.toNat < 2 ^ 31
  | .complete _ => True

end TableRun

/-- All request numbers of a table. -/
def allIds (n : ℕ) : List UInt32 := (List.range n).map fun i => UInt32.ofNat (i + 1)

/-- The free list of the client has exactly the slots that are not in use, and these are the ones whose
number is not outstanding. -/
def ClientWorld.ExactFreeList (w : ClientWorld μ) (outstanding : List UInt32) : Prop :=
  ∃ c array ids, w.client.info = .connected c ∧ w.arrays.get c.closures = some array ∧
    array.length = c.closuresAlloced.toNat ∧
    freeIds array array.length c.firstFreeRequestId = some ids ∧
    (ids ++ outstanding).Perm (allIds array.length) ∧ (ids ++ outstanding).Nodup ∧
    (∀ id, id ∈ ids ↔ ∃ i cl, slotIndex id = some i ∧ array[i]? = some cl ∧ cl.responseType = none) ∧
    ∀ id, w.accepts id = .ok (decide (id ∈ outstanding))

/-! ## Tables -/

section
variable {w : ClientWorld μ} {c : ConnectedInfo} {array : List (Closure μ)}
  {free : List (ℕ × Closure μ)} {outstanding : List UInt32}

theorem freeIds_chain : ∀ {xs : List (ℕ × Closure μ)} {n : ℕ} {first : UInt32},
    Chain Closure.nextFree (array[·]?) (slotIndex first) xs none → xs.length ≤ n →
    freeIds array n first = some (xs.map fun x => UInt32.ofNat (x.1 + 1)) := by
  intro xs
  induction xs with
  | nil =>
    intro n first h _
    have hnone : slotIndex first = none := h
    have hzero : first = 0 := by
      unfold slotIndex at hnone
      by_contra hne
      rw [if_neg hne] at hnone
      exact absurd hnone (by simp)
    cases n with
    | zero => exact if_pos hzero
    | succ n => exact if_pos hzero
  | cons x xs ih =>
    intro n first h hlen
    obtain ⟨hfirst, hstore, hrest⟩ := h
    have hne : first ≠ 0 := by
      intro hzero
      rw [hzero] at hfirst
      exact absurd hfirst (by simp)
    have hstore' : array[x.1]? = some x.2 := hstore
    cases n with
    | zero => exact absurd hlen (by simp)
    | succ n =>
      rw [freeIds, if_neg hne, slotIndex_sub hfirst, hstore']
      have htail := ih hrest (Nat.le_of_succ_le_succ hlen)
      show (freeIds array n (pointerToUint x.2.closureData)).bind _ = _
      rw [htail, List.map_cons, ofNat_of_slotIndex hfirst]
      rfl

/-- The slot of this number is in use. -/
def InUse (array : List (Closure μ)) (id : UInt32) : Prop :=
  ∃ i cl, slotIndex id = some i ∧ array[i]? = some cl ∧ cl.responseType ≠ none

/-- The numbers that are outstanding are those of the slots in use. -/
structure TableRun.Inv (r : TableRun μ) (c : ConnectedInfo) (array : List (Closure μ))
    (free : List (ℕ × Closure μ)) : Prop where
  table : r.world.Table c array free
  nodup : r.outstanding.Nodup
  mem : ∀ id, id ∈ r.outstanding ↔ InUse array id

theorem ClientWorld.Table.accepts (h : w.Table c array free) (id : UInt32) :
    ∃ b, w.accepts id = .ok b ∧ (b = true ↔ InUse array id) := by
  have hinfo : w.client.info.toConnected = .ok c := by rw [h.info]; rfl
  unfold ClientWorld.accepts
  simp only [hinfo, except_ok_bind, Store.load_ok.mpr h.get]
  by_cases hrange : id > c.closuresAlloced ∨ id = 0
  · rw [if_pos hrange]
    refine ⟨false, rfl, iff_of_false (by simp) fun huse => ?_⟩
    obtain ⟨i, cl, hid, hi, -⟩ := huse
    exact h.range hid hi hrange
  · obtain ⟨i, cl, hid, hi⟩ := h.slot hrange
    rw [if_neg hrange, slotIndex_sub hid]
    unfold readAtIndex
    simp only [hi, except_ok_bind]
    refine ⟨_, rfl, ?_⟩
    rw [Option.isSome_iff_ne_none]
    constructor
    · exact fun hused => ⟨i, cl, hid, hi, hused⟩
    · intro huse
      obtain ⟨j, a, hjd, hj, hused⟩ := huse
      obtain rfl : i = j := Option.some.inj (hid.symm.trans hjd)
      obtain rfl : cl = a := Option.some.inj (hi.symm.trans hj)
      exact hused

end

/-! ## Steps -/

section
variable {r : TableRun μ} {c : ConnectedInfo} {array : List (Closure μ)}
  {free : List (ℕ × Closure μ)}

theorem setStateConnected_tableInv (w : ClientWorld μ) : TableRun.Inv ⟨w.setStateConnected, []⟩
    ⟨1, 1, (w.arrays.alloc [Closure.unused 0]).1⟩ [.unused 0] [(0, .unused 0)] where
  table := setStateConnected_table w
  nodup := List.nodup_nil
  mem := by
    intro id
    refine iff_of_false List.not_mem_nil fun huse => ?_
    obtain ⟨i, cl, -, hi, hused⟩ := huse
    rw [List.mem_singleton.mp (List.mem_of_getElem? hi)] at hused
    exact hused rfl

theorem request_spec (h : r.Inv c array free) {methodIndex : ℕ}
    (hmethod : methodIndex < r.world.client.service.nMethods)
    (hlt : c.closuresAlloced.toNat < 2 ^ 31) (input : μ) (closure : Passed μ) (closureData : UInt64) :
    ∃ r' c' array' free' id, r.step codec (.request methodIndex input closure closureData) = .ok r' ∧
      r'.Inv c' array' free' ∧ id ∉ r.outstanding ∧ r'.outstanding = r.outstanding ++ [id] := by
  have hroom : free = [] → ¬ (outstanding array).length + 1 ≤ 2 ^ 31 → False := by
    intro hnil hfull
    have hlen := h.table.free.length_eq
    rw [hnil, List.length_nil, h.table.length] at hlen
    omega
  have hends : Ends (fun _ => False) _ _ :=
    enqueueRequest_spec codec h.table hmethod input closure closureData hroom
  obtain ⟨w', hok, c', array', free', id, he⟩ := hends.total fun _ => id
  obtain ⟨arrays, heq⟩ := he.eq
  have hsent : (w'.sent.drop r.world.sent.length).map Prod.snd = [id] := by
    rw [heq]
    show ((r.world.sent ++ [(closure.serial, id)]).drop r.world.sent.length).map Prod.snd = [id]
    rw [List.drop_left]
    rfl
  obtain ⟨i, method, cl, hid, -, hi, htype, -⟩ := he.entry
  have hnew : id ∉ r.outstanding := by
    intro hmem
    obtain ⟨j, a, hjd, hj, hused⟩ := (h.mem id).mp hmem
    exact hused (he.fresh j a hjd hj)
  refine ⟨⟨w', r.outstanding ++ [id]⟩, c', array', free', id, ?_, ⟨he.table, ?_, fun id' => ?_⟩, hnew,
    rfl⟩
  · show (r.world.enqueueRequest codec methodIndex input closure closureData >>= _) = _
    rw [hok]
    show Except.ok _ = _
    rw [hsent]
  · exact List.nodup_append.mpr ⟨h.nodup, List.nodup_singleton _, fun a ha b hb hab =>
      hnew (List.mem_singleton.mp hb ▸ hab ▸ ha)⟩
  · rw [List.mem_append, List.mem_singleton, h.mem id']
    constructor
    · intro hcase
      obtain ⟨j, a, hjd, hj, hused⟩ | rfl := hcase
      · exact ⟨j, a, hjd, he.kept j a hj hused, hused⟩
      · exact ⟨i, cl, hid, hi, by rw [htype]; simp⟩
    · intro huse
      obtain ⟨j, a, hjd, hj, hused⟩ := huse
      obtain ⟨hjd', -⟩ | hold | ⟨hnone, -⟩ := he.cases j a hj
      · exact .inr (slotIndex_inj hjd hjd')
      · exact .inl ⟨j, a, hjd, hold, hused⟩
      · exact absurd hnone hused

theorem complete_spec (h : r.Inv c array free) (id : UInt32) :
    ∃ r' c' array' free', r.step codec (.complete id) = .ok r' ∧ r'.Inv c' array' free' ∧
      r'.outstanding = r.outstanding.erase id := by
  obtain ⟨b, haccepts, hb⟩ := h.table.accepts id
  have hinfo : r.world.client.info.toConnected = .ok c := by rw [h.table.info]; rfl
  unfold TableRun.step
  simp only [haccepts, except_ok_bind, hinfo]
  cases b with
  | false =>
    have hnot : id ∉ r.outstanding := fun hmem => absurd (hb.mpr ((h.mem id).mp hmem)) (by simp)
    exact ⟨r, c, array, free, rfl, h, (List.erase_of_not_mem hnot).symm⟩
  | true =>
    obtain ⟨i, cl, hid, hi, hused⟩ := hb.mp rfl
    obtain ⟨w', hok, hr⟩ := releaseClosure_table h.table hid hi hused
    refine ⟨⟨w', r.outstanding.erase id⟩, _, _, _, ?_, ⟨hr.table, h.nodup.erase id, fun id' => ?_⟩, rfl⟩
    · simp only [hok, except_ok_bind]
      rfl
    · rw [h.nodup.mem_erase_iff, h.mem id']
      have hget : ∀ (j : ℕ), (array.set i (.unused c.firstFreeRequestId))[j]? =
          if j = i then some (.unused c.firstFreeRequestId) else array[j]? := by
        intro j
        rw [List.getElem?_set]
        by_cases hj : j = i
        · rw [if_pos hj.symm, if_pos (List.getElem?_eq_some_iff.mp hi).1, if_pos hj]
        · rw [if_neg (Ne.symm hj), if_neg hj]
      constructor
      · intro hcase
        obtain ⟨hne, j, a, hjd, hj, hused'⟩ := hcase
        refine ⟨j, a, hjd, ?_, hused'⟩
        rw [hget, if_neg, hj]
        rintro rfl
        exact hne (slotIndex_inj hjd hid)
      · intro huse
        obtain ⟨j, a, hjd, hj, hused'⟩ := huse
        rw [hget] at hj
        split_ifs at hj with hji
        · rw [← Option.some.inj hj] at hused'
          exact absurd rfl hused'
        · refine ⟨?_, j, a, hjd, hj, hused'⟩
          rintro rfl
          exact hji (Option.some.inj (hjd.symm.trans hid))

/-! ## The free list is exact -/

theorem TableRun.Inv.exact (h : r.Inv c array free) : r.world.ExactFreeList r.outstanding := by
  have hlt := h.table.lt
  have hfits : ∀ x ∈ free, x.1 < array.length := fun x hx =>
    (List.getElem?_eq_some_iff.mp (h.table.free.chain.store_eq x hx)).1
  have hlen : free.length ≤ array.length := by
    have hsum := h.table.free.length_eq
    omega
  let ids := free.map fun x => UInt32.ofNat (x.1 + 1)
  have hids : ∀ id, id ∈ ids ↔
      ∃ i cl, slotIndex id = some i ∧ array[i]? = some cl ∧ cl.responseType = none := by
    intro id
    constructor
    · intro hmem
      obtain ⟨x, hx, rfl⟩ := List.mem_map.mp hmem
      have hstore := h.table.free.chain.store_eq x hx
      refine ⟨x.1, x.2, slotIndex_ofNat (by have := hfits x hx; omega), hstore, ?_⟩
      exact (h.table.free.unused x.1 x.2 hstore).mpr (List.mem_map_of_mem hx)
    · intro hunused
      obtain ⟨i, cl, hid, hi, hnone⟩ := hunused
      obtain ⟨x, hx, rfl⟩ := List.mem_map.mp ((h.table.free.unused i cl hi).mp hnone)
      exact List.mem_map.mpr ⟨x, hx, ofNat_of_slotIndex hid⟩
  have hnodup : ids.Nodup := by
    have haddr : (addresses free).Nodup := h.table.free.chain.nodup
    have hmap : ids = (addresses free).map fun i => UInt32.ofNat (i + 1) := by
      simp only [ids, addresses, List.map_map]
      rfl
    rw [hmap]
    refine haddr.map_on fun i hi j hj hij => ?_
    obtain ⟨x, hx, rfl⟩ := List.mem_map.mp hi
    obtain ⟨y, hy, rfl⟩ := List.mem_map.mp hj
    have hx' := slotIndex_ofNat (i := x.1) (by have := hfits x hx; omega)
    have hy' := slotIndex_ofNat (i := y.1) (by have := hfits y hy; omega)
    rw [hij] at hx'
    exact Option.some.inj (hx'.symm.trans hy')
  have hboth : (ids ++ r.outstanding).Nodup := by
    refine List.nodup_append.mpr ⟨hnodup, h.nodup, fun a ha b hb hab => ?_⟩
    obtain ⟨i, cl, hid, hi, hnone⟩ := (hids a).mp ha
    obtain ⟨j, a', hjd, hj, hused⟩ := (h.mem b).mp hb
    rw [hab] at hid
    obtain rfl : i = j := Option.some.inj (hid.symm.trans hjd)
    obtain rfl : cl = a' := Option.some.inj (hi.symm.trans hj)
    exact hused hnone
  have hall : (allIds array.length).Nodup := by
    refine (List.nodup_range).map_on fun i hi j hj hij => ?_
    have hi' := slotIndex_ofNat (i := i) (by have := List.mem_range.mp hi; omega)
    have hj' := slotIndex_ofNat (i := j) (by have := List.mem_range.mp hj; omega)
    rw [hij] at hi'
    exact Option.some.inj (hi'.symm.trans hj')
  refine ⟨c, array, ids, h.table.info, h.table.get, h.table.length,
    freeIds_chain h.table.free.chain hlen, ?_, hboth, hids, fun id => ?_⟩
  · refine (List.perm_ext_iff_of_nodup hboth hall).mpr fun id => ?_
    rw [List.mem_append, hids, h.mem]
    constructor
    · intro hcase
      obtain ⟨i, cl, hid, hi⟩ : ∃ i cl, slotIndex id = some i ∧ array[i]? = some cl := by
        obtain ⟨i, cl, hid, hi, -⟩ | ⟨i, cl, hid, hi, -⟩ := hcase
        · exact ⟨i, cl, hid, hi⟩
        · exact ⟨i, cl, hid, hi⟩
      exact List.mem_map.mpr ⟨i, List.mem_range.mpr (List.getElem?_eq_some_iff.mp hi).1,
        ofNat_of_slotIndex hid⟩
    · intro hmem
      obtain ⟨i, hi, rfl⟩ := List.mem_map.mp hmem
      obtain ⟨cl, hget⟩ : ∃ cl, array[i]? = some cl :=
        ⟨_, List.getElem?_eq_getElem (List.mem_range.mp hi)⟩
      have hid := slotIndex_ofNat (i := i) (by have := List.mem_range.mp hi; omega)
      by_cases hnone : cl.responseType = none
      · exact .inl ⟨i, cl, hid, hget, hnone⟩
      · exact .inr ⟨i, cl, hid, hget, hnone⟩
  · obtain ⟨b, haccepts, hb⟩ := h.table.accepts id
    rw [haccepts]
    congr 1
    rw [Bool.eq_iff_iff, decide_eq_true_iff, h.mem id]
    exact hb

end

/-- From `set_state_connected` on, the free list is exact after every sequence of requests and
completions; every request is given a number that is not outstanding, and every completion makes its
number free again.  The loop over the responses takes those for outstanding numbers, and for any other
the client fails. -/
theorem freeList_exact (w : ClientWorld μ) {r : TableRun μ}
    (h : Runs (TableRun.step codec) TableRun.Allowed ⟨w.setStateConnected, []⟩ r) :
    r.world.ExactFreeList r.outstanding ∧
      (∀ methodIndex input closure closureData,
        r.Allowed (.request methodIndex input closure closureData) →
        ∃ r' id, r.step codec (.request methodIndex input closure closureData) = .ok r' ∧
          id ∉ r.outstanding ∧ r'.outstanding = r.outstanding ++ [id]) ∧
      (∀ id, ∃ r', r.step codec (.complete id) = .ok r' ∧ r'.outstanding = r.outstanding.erase id) ∧
      (r.world.WholeResponse →
        (headerWord r.world.client.incoming 3 ∉ r.outstanding → r.world.respond codec =
          r.world.stopResponding.clientFailed codec "bad request-id in response from server") ∧
        (headerWord r.world.client.incoming 3 ∈ r.outstanding → ∃ c array cl responseType,
          r.world.client.info.toConnected = .ok c ∧ r.world.arrays.load c.closures = .ok array ∧
          readAtIndex array (headerWord r.world.client.incoming 3 - 1).toNat = .ok cl ∧
          cl.responseType = some responseType ∧
          r.world.respond codec = r.world.takeResponse codec c cl responseType)) := by
  have hinv : ∃ c array free, r.Inv c array free := by
    refine h.invariant (I := fun r => ∃ c array free, r.Inv c array free)
      ⟨_, _, _, setStateConnected_tableInv w⟩ fun t label u ht hallowed hok => ?_
    obtain ⟨c, array, free, ht⟩ := ht
    cases label with
    | request methodIndex input closure closureData =>
      obtain ⟨u', c', array', free', id, hok', hu', -⟩ := request_spec codec ht hallowed.1
        (hallowed.2 c ht.table.info) input closure closureData
      obtain rfl : u' = u := Except.ok.inj (hok'.symm.trans hok)
      exact ⟨c', array', free', hu'⟩
    | complete id =>
      obtain ⟨u', c', array', free', hok', hu', -⟩ := complete_spec codec ht id
      obtain rfl : u' = u := Except.ok.inj (hok'.symm.trans hok)
      exact ⟨c', array', free', hu'⟩
  obtain ⟨c, array, free, hinv⟩ := hinv
  refine ⟨hinv.exact, fun methodIndex input closure closureData hallowed => ?_, fun id => ?_,
    fun hwhole => ?_⟩
  · obtain ⟨r', _, _, _, id, hok, -, hnew, hout⟩ := request_spec codec hinv hallowed.1
      (hallowed.2 c hinv.table.info) input closure closureData
    exact ⟨r', id, hok, hnew, hout⟩
  · obtain ⟨r', _, _, _, hok, -, hout⟩ := complete_spec codec hinv id
    exact ⟨r', hok, hout⟩
  · obtain ⟨_, _, _, -, -, -, -, -, -, -, haccepts⟩ := hinv.exact
    obtain ⟨hrejected, htaken⟩ := ClientWorld.respond_of_accepts codec hwhole (haccepts _)
    exact ⟨fun hnot => hrejected (decide_eq_false hnot), fun hmem => htaken (decide_eq_true hmem)⟩

/-- Two requests, the response to the first, and a third request, which has its number. -/
theorem freeList_exact_reused : ∃ r, Runs (TableRun.step bytesCodec) TableRun.Allowed
      ⟨localClient.setStateConnected, []⟩ r ∧ r.outstanding = [2, 1] ∧
      r.world.ExactFreeList r.outstanding := by
  have hallowed : ∀ (r : TableRun (List UInt8)) (c : ConnectedInfo) (closure : Passed (List UInt8)),
      r.world.client.service.nMethods = 1 → r.world.client.info = .connected c →
      c.closuresAlloced.toNat < 2 ^ 31 → r.Allowed (.request 0 [] closure 0) := by
    intro r c closure hmethods hinfo hlt
    refine ⟨by rw [hmethods]; exact Nat.zero_lt_one, fun c' hc' => ?_⟩
    rw [hinfo] at hc'
    cases hc'
    exact hlt
  let request (serial : ℕ) : TableLabel (List UInt8) := .request 0 [] ⟨serial, fun _ => .done⟩ 0
  have hrun : ∃ r, Runs (TableRun.step bytesCodec) TableRun.Allowed
      ⟨localClient.setStateConnected, []⟩ r ∧ r.outstanding = [2, 1] := by
    refine ⟨_, .tail (request 2) (.tail (.complete 1) (.tail (request 1) (.tail (request 0) (.refl _)
      (hallowed _ _ _ rfl rfl ?_) rfl) (hallowed _ _ _ rfl rfl ?_) rfl) trivial rfl)
      (hallowed _ _ _ rfl rfl ?_) rfl, rfl⟩
    all_goals decide
  obtain ⟨r, hr, hout⟩ := hrun
  exact ⟨r, hr, hout, (freeList_exact bytesCodec localClient hr).1⟩

end ProtobufC
