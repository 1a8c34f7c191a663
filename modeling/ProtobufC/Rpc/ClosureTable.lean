import ProtobufC.Library.Runs
import ProtobufC.Rpc.ClientTable

/-! # Requests and the closure table

What growing the table, enqueueing a request and giving an entry back do to a client that has a table,
whatever else is true of it.
-/

namespace ProtobufC
open Library
set_option autoImplicit false

variable {μ : Type} (codec : Codec μ) {ub : Fault → Prop}

/-- The client has the table `array`, with the free list `free`. -/
structure ClientWorld.Table (w : ClientWorld μ) (c : ConnectedInfo) (array : List (Closure μ))
    (free : List (ℕ × Closure μ)) : Prop where
  info : w.client.info = .connected c
  get : w.arrays.get c.closures = some array
  length : array.length = c.closuresAlloced.toNat
  pos : 0 < array.length
  free : FreeList array c.firstFreeRequestId free

section
variable {w : ClientWorld μ} {c : ConnectedInfo} {array : List (Closure μ)}
  {free : List (ℕ × Closure μ)}

theorem ClientWorld.Table.lt (h : w.Table c array free) : array.length < 2 ^ 32 := by
  rw [h.length]
  exact c.closuresAlloced.toNat_lt

theorem ClientWorld.Table.first_zero (h : w.Table c array []) : c.firstFreeRequestId = 0 := by
  have hchain : slotIndex c.firstFreeRequestId = none := h.free.chain
  unfold slotIndex at hchain
  by_contra hne
  rw [if_neg hne] at hchain
  exact absurd hchain (by simp)

theorem ClientWorld.Table.first_ne (h : w.Table c array free) (hfree : free ≠ []) :
    c.firstFreeRequestId ≠ 0 := by
  intro h0
  obtain ⟨x, xs, rfl⟩ := List.exists_cons_of_ne_nil hfree
  have hchain := h.free.chain.1
  rw [h0] at hchain
  exact absurd hchain (by simp)

theorem slotIndex_sub {request_id : UInt32} {i : ℕ} (h : slotIndex request_id = some i) :
    (request_id - 1).toNat = i := by
  unfold slotIndex at h
  split_ifs at h
  exact Option.some.inj h

theorem ClientWorld.Table.slot (h : w.Table c array free) {id : UInt32}
    (hrange : ¬ (id > c.closuresAlloced ∨ id = 0)) :
    ∃ i cl, slotIndex id = some i ∧ array[i]? = some cl := by
  obtain ⟨hbound, hne⟩ := not_or.mp hrange
  have hle : id.toNat ≤ array.length := by
    rw [h.length]
    exact UInt32.le_iff_toNat_le.mp (UInt32.not_lt.mp hbound)
  have hpos : id.toNat ≠ 0 := fun h0 => hne (UInt32.toNat.inj (by rw [h0]; rfl))
  have hlt : id.toNat - 1 < array.length := by omega
  exact ⟨id.toNat - 1, _, slotIndex_eq_some.mpr (by omega), List.getElem?_eq_getElem hlt⟩

theorem ClientWorld.Table.range (h : w.Table c array free) {id : UInt32} {i : ℕ} {cl : Closure μ}
    (hid : slotIndex id = some i) (hi : array[i]? = some cl) :
    ¬ (id > c.closuresAlloced ∨ id = 0) := by
  have hlt := (List.getElem?_eq_some_iff.mp hi).1
  have hnat := slotIndex_eq_some.mp hid
  refine not_or.mpr ⟨UInt32.not_lt.mpr (UInt32.le_iff_toNat_le.mpr ?_), fun hzero => ?_⟩
  · rw [← h.length]
    omega
  · rw [hzero] at hid
    exact absurd hid (by simp)

theorem setStateConnected_table (w : ClientWorld μ) : w.setStateConnected.Table
    ⟨1, 1, (w.arrays.alloc [Closure.unused 0]).1⟩ [.unused 0] [(0, .unused 0)] := by
  refine ⟨rfl, ?_, rfl, Nat.zero_lt_one, freeList_new⟩
  show (w.arrays.alloc [Closure.unused 0]).2.get _ = _
  rw [Store.get_alloc, if_pos rfl]

/-! ## Growing -/

theorem unused_of_mem_fresh {n m : ℕ} {cl : Closure μ} (h : cl ∈ freshClosures n m) :
    cl.responseType = none ∧ cl.closure = none := by
  unfold freshClosures at h
  obtain h | h := List.mem_append.mp h
  · obtain ⟨k, -, rfl⟩ := List.mem_map.mp h
    exact ⟨rfl, rfl⟩
  · rw [List.mem_singleton.mp h]
    exact ⟨rfl, rfl⟩

/-- What growing leaves of a table that was full. -/
structure Grown (w : ClientWorld μ) (c : ConnectedInfo) (array : List (Closure μ))
    (w' : ClientWorld μ) (c' : ConnectedInfo) (array' : List (Closure μ))
    (free' : List (ℕ × Closure μ)) : Prop where
  eq : ∃ arrays, w' = { w with arrays := arrays, client := { w.client with info := .connected c' } }
  table : w'.Table c' array' free'
  room : free' ≠ []
  array : ∃ m, array' = array ++ freshClosures array.length m
  gone : w'.arrays.Freed c.closures
  freed : ∀ j, w.arrays.Freed j → w'.arrays.Freed j
  only : ∀ j a, w'.arrays.get j = some a → j = c'.closures ∨ j ≠ c.closures ∧ w.arrays.get j = some a

theorem Grown.kept {w' : ClientWorld μ} {c' : ConnectedInfo} {array' : List (Closure μ)}
    {free' : List (ℕ × Closure μ)} (h : Grown w c array w' c' array' free') {i : ℕ} {cl : Closure μ}
    (hi : array[i]? = some cl) : array'[i]? = some cl := by
  obtain ⟨m, rfl⟩ := h.array
  rw [← hi]
  exact List.getElem?_append_left (List.getElem?_eq_some_iff.mp hi).1

theorem Grown.cases {w' : ClientWorld μ} {c' : ConnectedInfo} {array' : List (Closure μ)}
    {free' : List (ℕ × Closure μ)} (h : Grown w c array w' c' array' free') {i : ℕ} {cl : Closure μ}
    (hi : array'[i]? = some cl) :
    array[i]? = some cl ∨ cl.responseType = none ∧ cl.closure = none := by
  obtain ⟨m, rfl⟩ := h.array
  by_cases hlt : i < array.length
  · left
    rw [← hi]
    exact (List.getElem?_append_left hlt).symm
  · right
    have hright : (freshClosures array.length m)[i - array.length]? = some cl := by
      rw [← hi]
      exact (List.getElem?_append_right (by omega)).symm
    exact unused_of_mem_fresh (List.mem_of_getElem? hright)

theorem growClosureArray_spec (h : w.Table c array []) (hlt : array.length < 2 ^ 31) :
    ∃ w' c' array' free', w.growClosureArray = .ok w' ∧ Grown w c array w' c' array' free' := by
  have hpos := h.pos
  have hsize : (c.closuresAlloced * 2).toNat = 2 * array.length := by
    rw [UInt32.toNat_mul, ← h.length]
    show array.length * 2 % 2 ^ 32 = _
    omega
  obtain ⟨m, hm⟩ : ∃ m, array.length = m + 1 := ⟨array.length - 1, by omega⟩
  obtain ⟨xs, hfree, hxs⟩ := h.free.grow (m := m) (by omega)
  let array' := array ++ freshClosures array.length m
  let r := w.arrays.alloc array'
  let c' : ConnectedInfo := ⟨c.closuresAlloced * 2, c.closuresAlloced + 1, r.1⟩
  let w' : ClientWorld μ := { w with
    arrays := ⟨r.2.cells.set c.closures none⟩, client := { w.client with info := .connected c' } }
  have hold : r.2.get c.closures = some array := Store.get_alloc_old h.get array'
  have hne : r.1 ≠ c.closures := by
    intro heq
    have hnew := Store.get_alloc_new w.arrays array'
    rw [heq, h.get] at hnew
    exact absurd hnew (by simp)
  have hget : ∀ (j : ℕ), w'.arrays.get j =
      if j = c.closures then none else if j = r.1 then some array' else w.arrays.get j := by
    intro j
    show (Store.mk (r.2.cells.set c.closures none)).get j = _
    rw [Store.get_set hold, Store.get_alloc]
  have hnew : array' = array.take c.closuresAlloced.toNat ++
      ((List.range ((c.closuresAlloced * 2).toNat - c.closuresAlloced.toNat - 1)).map fun k =>
        Closure.unused (UInt32.ofNat (c.closuresAlloced.toNat + k + 2))) ++
      [.unused c.firstFreeRequestId] := by
    rw [← h.length, List.take_length, hsize, h.first_zero, List.append_assoc,
      show 2 * array.length - array.length - 1 = m by omega]
    rfl
  have hlen : array'.length = 2 * array.length := by
    show (array ++ freshClosures array.length m).length = _
    unfold freshClosures
    simp only [List.length_append, List.length_map, List.length_range, List.length_singleton]
    omega
  refine ⟨w', c', array', xs, ?_, ⟨_, rfl⟩, ⟨rfl, ?_, ?_, ?_, ?_⟩, ?_, ⟨m, rfl⟩,
    Store.freed_of_free hold, fun j hj => (hj.alloc array').set hold none, fun j a hj => ?_⟩
  · unfold ClientWorld.growClosureArray
    have hgrows : ¬ (c.closuresAlloced * 2 ≤ c.closuresAlloced ∨
        array.length < c.closuresAlloced.toNat) := by
      rw [UInt32.le_iff_toNat_le, hsize, ← h.length]
      omega
    simp only [h.info, ClientWorld.setInfo, Info.toConnected, except_ok_bind, except_pure,
      Store.load_ok.mpr h.get, if_neg hgrows, ← hnew]
    rw [Store.free_ok hold]
    rfl
  · rw [hget, if_neg hne, if_pos rfl]
  · rw [hlen]
    exact hsize.symm
  · rw [hlen]
    omega
  · show FreeList array' (c.closuresAlloced + 1) xs
    have hone : c.closuresAlloced + 1 = UInt32.ofNat (array.length + 1) := by
      apply UInt32.toNat.inj
      rw [UInt32.toNat_add, UInt32.toNat_ofNat', ← h.length]
      rfl
    rw [hone]
    exact hfree
  · intro hnil
    rw [hnil] at hxs
    exact absurd hxs (by simp)
  · rw [hget] at hj
    split_ifs at hj with hclosures hr
    · exact .inl hr
    · exact .inr ⟨hclosures, hj⟩

theorem growClosureArray_full (h : w.Table c array free) (hge : 2 ^ 31 ≤ array.length) :
    w.growClosureArray = .error .access := by
  have hlt := h.lt
  have hwraps : c.closuresAlloced * 2 ≤ c.closuresAlloced := by
    rw [UInt32.le_iff_toNat_le, UInt32.toNat_mul, ← h.length]
    show array.length * 2 % 2 ^ 32 ≤ _
    omega
  unfold ClientWorld.growClosureArray
  simp only [h.info, Info.toConnected, except_ok_bind, Store.load_ok.mpr h.get,
    if_pos (Or.inl hwraps : c.closuresAlloced * 2 ≤ c.closuresAlloced ∨
      array.length < c.closuresAlloced.toNat)]

/-! ## Requests -/

/-- What a request leaves: the first free entry is in use, and an array that was full is freed. -/
structure Enqueued (w : ClientWorld μ) (codec : Codec μ) (methodIndex : ℕ) (input : μ)
    (closure : Passed μ) (c : ConnectedInfo) (array : List (Closure μ))
    (free : List (ℕ × Closure μ)) (w' : ClientWorld μ) (c' : ConnectedInfo)
    (array' : List (Closure μ)) (free' : List (ℕ × Closure μ)) (request_id : UInt32) : Prop where
  eq : ∃ arrays, w' = { w with
    arrays := arrays
    client := { w.client with
      info := .connected c'
      outgoing := w.client.outgoing ++ headerBytes [UInt32.ofNat methodIndex,
        UInt32.ofNat (codec.pack input).length, request_id] ++ codec.pack input }
    sent := w.sent ++ [(closure.serial, request_id)] }
  table : w'.Table c' array' free'
  entry : ∃ (i : ℕ) (method : MethodDescriptor) (cl : Closure μ), slotIndex request_id = some i ∧
    w.client.service.methods[methodIndex]? = some method ∧ array'[i]? = some cl ∧
    cl.responseType = some method.output ∧ cl.closure = some closure
  fresh : ∀ (i : ℕ) (cl : Closure μ), slotIndex request_id = some i → array[i]? = some cl →
    cl.responseType = none
  waiting : (outstanding array').Perm (closure.serial :: outstanding array)
  kept : ∀ (i : ℕ) (cl : Closure μ), array[i]? = some cl → cl.responseType ≠ none →
    array'[i]? = some cl
  cases : ∀ (i : ℕ) (cl : Closure μ), array'[i]? = some cl →
    (slotIndex request_id = some i ∧ cl.closure = some closure) ∨ array[i]? = some cl ∨
      cl.responseType = none ∧ cl.closure = none
  room : c'.closures = c.closures ∧ free'.length + 1 = free.length ∨
    free = [] ∧ w'.arrays.Freed c.closures
  freed : ∀ j, w.arrays.Freed j → w'.arrays.Freed j
  only : ∀ j a, w'.arrays.get j = some a → j = c'.closures ∨ j ≠ c.closures ∧ w.arrays.get j = some a

theorem enqueueRequest_free (h : w.Table c array free) (hfree : free ≠ []) {methodIndex : ℕ}
    {method : MethodDescriptor} (hmethod : w.client.service.methods[methodIndex]? = some method)
    (input : μ) (closure : Passed μ) (closureData : UInt64) :
    ∃ w' c' array' free' request_id,
      w.enqueueRequest codec methodIndex input closure closureData = .ok w' ∧
      Enqueued w codec methodIndex input closure c array free w' c' array' free' request_id := by
  have hne := h.first_ne hfree
  obtain ⟨⟨i, cl⟩, xs, rfl⟩ := List.exists_cons_of_ne_nil hfree
  obtain ⟨hfirst, hstore, -⟩ := h.free.chain
  have hi : array[i]? = some cl := hstore
  have hindex : (c.firstFreeRequestId - 1).toNat = i := by
    have hsome := hfirst
    unfold slotIndex at hsome
    rw [if_neg hne, Option.some.injEq] at hsome
    exact hsome
  have hlt := (List.getElem?_eq_some_iff.mp hi).1
  let new : Closure μ := ⟨some method.output, some closure, closureData⟩
  let c' : ConnectedInfo := { c with firstFreeRequestId := pointerToUint cl.closureData }
  have hget : ∀ (j : ℕ), (array.set i new)[j]? = if j = i then some new else array[j]? := by
    intro j
    rw [List.getElem?_set]
    by_cases hj : j = i
    · rw [if_pos hj.symm, if_pos (by omega), if_pos hj]
    · rw [if_neg (Ne.symm hj), if_neg hj]
  have hunused : cl.responseType = none :=
    (h.free.unused i cl hi).mpr (by simp [addresses])
  let w' : ClientWorld μ := { w with
    arrays := ⟨w.arrays.cells.set c.closures (some (array.set i new))⟩
    client := { w.client with
      info := .connected c'
      outgoing := w.client.outgoing ++ headerBytes [UInt32.ofNat methodIndex,
        UInt32.ofNat (codec.pack input).length, c.firstFreeRequestId] ++ codec.pack input }
    sent := w.sent ++ [(closure.serial, c.firstFreeRequestId)] }
  have harrays : ∀ (j : ℕ), w'.arrays.get j =
      if j = c.closures then some (array.set i new) else w.arrays.get j := Store.get_set h.get _
  refine ⟨w', c', array.set i new, xs, c.firstFreeRequestId, ?_, ⟨_, rfl⟩, ⟨rfl, ?_, ?_, ?_, ?_⟩, ?_,
    fun j a hj ha => ?_, ?_, fun j a hj hused => ?_, fun j a hj => ?_, .inl ⟨rfl, rfl⟩,
    fun j hj => hj.set h.get _, fun j a hj => ?_⟩
  · unfold ClientWorld.enqueueRequest
    rw [hmethod]
    simp only [h.info, Info.toConnected, except_ok_bind, if_neg hne, except_pure,
      Store.load_ok.mpr h.get, hindex, readAtIndex, hi, Store.modify_ok h.get]
    rfl
  · rw [harrays, if_pos rfl]
  · rw [List.length_set]
    exact h.length
  · rw [List.length_set]
    exact h.pos
  · exact h.free.take new (by simp [new]) rfl
  · exact ⟨i, method, new, hfirst, hmethod, by rw [hget, if_pos rfl], rfl, rfl⟩
  · obtain rfl : i = j := Option.some.inj (hfirst.symm.trans hj)
    obtain rfl : cl = a := Option.some.inj (hi.symm.trans ha)
    exact hunused
  · have hperm := outstanding_set hi new
    have hnone : cl.waiting = none := by
      unfold Closure.waiting
      rw [hunused]
    rw [hnone] at hperm
    exact hperm
  · rw [hget, if_neg, hj]
    rintro rfl
    rw [hi, Option.some.injEq] at hj
    rw [← hj] at hused
    exact hused hunused
  · rw [hget] at hj
    split_ifs at hj with hji
    · obtain rfl : new = a := by simpa using hj
      exact .inl ⟨by rw [hji]; exact hfirst, rfl⟩
    · exact .inr (.inl hj)
  · rw [harrays] at hj
    split_ifs at hj with hclosures
    · exact .inl hclosures
    · exact .inr ⟨hclosures, hj⟩

theorem enqueueRequest_full (h : w.Table c array []) (hlt : array.length < 2 ^ 31) {methodIndex : ℕ}
    {method : MethodDescriptor} (hmethod : w.client.service.methods[methodIndex]? = some method)
    (input : μ) (closure : Passed μ) (closureData : UInt64) :
    ∃ w' c' array' free' request_id,
      w.enqueueRequest codec methodIndex input closure closureData = .ok w' ∧
      Enqueued w codec methodIndex input closure c array [] w' c' array' free' request_id := by
  obtain ⟨w₁, c₁, array₁, free₁, hgrow, hgrown⟩ := growClosureArray_spec h hlt
  obtain ⟨arrays, hw₁⟩ := hgrown.eq
  have hclient : w₁.client = { w.client with info := .connected c₁ } := by rw [hw₁]
  have hservice : w₁.client.service = w.client.service := by rw [hclient]
  obtain ⟨w', c', array', free', request_id, hok, he⟩ := enqueueRequest_free codec hgrown.table
    hgrown.room (hservice.symm ▸ hmethod) input closure closureData
  refine ⟨w', c', array', free', request_id, ?_, ?_, he.table, ?_, ?_, ?_, ?_, ?_,
    .inr ⟨rfl, he.freed _ hgrown.gone⟩, fun j hj => he.freed j (hgrown.freed j hj), ?_⟩
  · rw [← hok]
    unfold ClientWorld.enqueueRequest
    simp only [hmethod, hservice, h.info, Info.toConnected, except_ok_bind, if_pos h.first_zero, hgrow,
      if_neg (hgrown.table.first_ne hgrown.room), except_pure, hgrown.table.info]
  · obtain ⟨arrays', heq⟩ := he.eq
    rw [hw₁] at heq
    exact ⟨arrays', heq⟩
  · obtain ⟨i, method', cl, hid, hmethod', hentry⟩ := he.entry
    exact ⟨i, method', cl, hid, hservice ▸ hmethod', hentry⟩
  · exact fun i cl hid hi => he.fresh i cl hid (hgrown.kept hi)
  · obtain ⟨m, heq⟩ := hgrown.array
    rw [← (outstanding_grown m : outstanding (array ++ freshClosures array.length m) = _), ← heq]
    exact he.waiting
  · exact fun i cl hi hused => he.kept i cl (hgrown.kept hi) hused
  · intro i cl hi
    obtain hnew | hold | hunused := he.cases i cl hi
    · exact .inl hnew
    · exact .inr (hgrown.cases hold)
    · exact .inr (.inr hunused)
  · intro j a hj
    obtain hnew | ⟨hne, hold⟩ := he.only j a hj
    · exact .inl hnew
    · obtain hgrew | hwas := hgrown.only j a hold
      · exact absurd hgrew hne
      · exact .inr hwas

/-- `enqueue_request` succeeds while the table has room or can grow. -/
theorem enqueueRequest_spec (h : w.Table c array free) {methodIndex : ℕ}
    (hmethod : methodIndex < w.client.service.nMethods) (input : μ) (closure : Passed μ)
    (closureData : UInt64)
    (hub : free = [] → ¬ (outstanding array).length + 1 ≤ 2 ^ 31 → ub .access) :
    Ends ub (w.enqueueRequest codec methodIndex input closure closureData) fun w' =>
      ∃ c' array' free' request_id,
        Enqueued w codec methodIndex input closure c array free w' c' array' free' request_id := by
  obtain ⟨method, hget⟩ : ∃ method, w.client.service.methods[methodIndex]? = some method :=
    ⟨_, List.getElem?_eq_getElem hmethod⟩
  by_cases hfree : free = []
  · subst hfree
    by_cases hlt : array.length < 2 ^ 31
    · obtain ⟨w', c', array', free', request_id, hok, he⟩ :=
        enqueueRequest_full codec h hlt hget input closure closureData
      exact ends_of_ok hok ⟨c', array', free', request_id, he⟩
    · have hlen := h.free.length_eq
      have hfails : w.enqueueRequest codec methodIndex input closure closureData = .error .access := by
        unfold ClientWorld.enqueueRequest
        simp only [hget, h.info, Info.toConnected, except_ok_bind, if_pos h.first_zero,
          growClosureArray_full h (not_lt.mp hlt), except_error_bind]
      rw [hfails]
      refine hub rfl ?_
      rw [List.length_nil] at hlen
      omega
  · obtain ⟨w', c', array', free', request_id, hok, he⟩ := enqueueRequest_free codec h hfree hget
      input closure closureData
    exact ends_of_ok hok ⟨c', array', free', request_id, he⟩

/-! ## Giving back -/

/-- What giving an entry back leaves. -/
structure Released (w : ClientWorld μ) (c : ConnectedInfo) (array : List (Closure μ))
    (free : List (ℕ × Closure μ)) (i : ℕ) (request_id : UInt32) (w' : ClientWorld μ) : Prop where
  eq : ∃ arrays, w' = { w with
    arrays := arrays
    client := { w.client with info := .connected { c with firstFreeRequestId := request_id } } }
  table : w'.Table { c with firstFreeRequestId := request_id }
    (array.set i (.unused c.firstFreeRequestId)) ((i, .unused c.firstFreeRequestId) :: free)
  only : ∀ j a, w'.arrays.get j = some a → j = c.closures ∨ j ≠ c.closures ∧ w.arrays.get j = some a

/-- The entry of a request is given back to the table that the client has. -/
theorem releaseClosure_table (h : w.Table c array free) {i : ℕ} {cl : Closure μ} {request_id : UInt32}
    (hid : slotIndex request_id = some i) (hi : array[i]? = some cl) (hused : cl.responseType ≠ none) :
    ∃ w', w.releaseClosure c.closures request_id = .ok w' ∧
      Released w c array free i request_id w' := by
  let array' := array.set i (.unused c.firstFreeRequestId)
  let w' : ClientWorld μ := ClientWorld.setInfo
    { w with arrays := ⟨w.arrays.cells.set c.closures (some array')⟩ }
    (.connected { c with firstFreeRequestId := request_id })
  have harrays : ∀ (j : ℕ), w'.arrays.get j =
      if j = c.closures then some array' else w.arrays.get j := Store.get_set h.get _
  refine ⟨w', ?_, ⟨_, rfl⟩, ⟨rfl, ?_, ?_, ?_, h.free.give hid hi hused⟩, fun j a hj => ?_⟩
  · unfold ClientWorld.releaseClosure
    simp only [h.info, Info.toConnected, except_ok_bind, Store.modify_ok h.get, slotIndex_sub hid]
    rfl
  · show w'.arrays.get c.closures = _
    rw [harrays, if_pos rfl]
  · rw [List.length_set]
    exact h.length
  · rw [List.length_set]
    exact h.pos
  · rw [harrays] at hj
    split_ifs at hj with hclosures
    · exact .inl hclosures
    · exact .inr ⟨hclosures, hj⟩

end

end ProtobufC
