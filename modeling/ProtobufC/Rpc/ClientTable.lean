import ProtobufC.Library.Chain
import ProtobufC.Rpc.Client

/-! # The closure table

The table of a connected client, as an array: its free list is a chain through the entries that are not
in use, and it has all of them.  Taking the first free entry, giving one back and growing an array that
is full keep this.
-/

namespace ProtobufC
open Library
set_option autoImplicit false

variable {μ : Type}

/-! ## Request numbers and entries -/

/-- The entry that a request number leads to; 0 leads to none. -/
def slotIndex (request_id : UInt32) : Option ℕ :=
  if request_id = 0 then none else some (request_id - 1).toNat

/-- The entry behind one of the free list. -/
def Closure.nextFree (cl : Closure μ) : Option ℕ := slotIndex (pointerToUint cl.closureData)

theorem pointerToUint_uintToPointer (ui : UInt32) : pointerToUint (uintToPointer ui) = ui := by
  unfold pointerToUint uintToPointer
  simp

@[simp] theorem Closure.nextFree_unused (next : UInt32) :
    (Closure.unused next : Closure μ).nextFree = slotIndex next := by
  unfold Closure.nextFree Closure.unused
  rw [pointerToUint_uintToPointer]

@[simp] theorem slotIndex_zero : slotIndex 0 = none := rfl

theorem slotIndex_eq_some {request_id : UInt32} {i : ℕ} :
    slotIndex request_id = some i ↔ request_id.toNat = i + 1 := by
  have hlt := request_id.toNat_lt
  unfold slotIndex
  by_cases h : request_id = 0
  · rw [if_pos h, h]
    simp
  · have hne : request_id.toNat ≠ 0 := fun h0 => h (UInt32.toNat.inj (by rw [h0]; rfl))
    have hsub : (request_id - 1).toNat = request_id.toNat - 1 := by
      rw [UInt32.toNat_sub_of_le _ _ (UInt32.le_iff_toNat_le.mpr (by show 1 ≤ _; omega))]
      rfl
    rw [if_neg h, hsub, Option.some.injEq]
    omega

theorem slotIndex_ofNat {i : ℕ} (h : i + 1 < 2 ^ 32) : slotIndex (UInt32.ofNat (i + 1)) = some i := by
  rw [slotIndex_eq_some, UInt32.toNat_ofNat', Nat.mod_eq_of_lt h]

theorem slotIndex_inj {id id' : UInt32} {i : ℕ} (h : slotIndex id = some i)
    (h' : slotIndex id' = some i) : id = id' :=
  UInt32.toNat.inj ((slotIndex_eq_some.mp h).trans (slotIndex_eq_some.mp h').symm)

theorem ofNat_of_slotIndex {id : UInt32} {i : ℕ} (h : slotIndex id = some i) :
    UInt32.ofNat (i + 1) = id := by
  rw [← slotIndex_eq_some.mp h]
  exact UInt32.ofNat_toNat

/-! ## Tables -/

/-- The closure that waits at an entry, by invocation. -/
def Closure.waiting (cl : Closure μ) : Option ℕ :=
  match cl.responseType with
  | none => none
  | some _ => cl.closure.map Passed.serial

/-- The closures that wait. -/
def outstanding (array : List (Closure μ)) : List ℕ := array.filterMap Closure.waiting

/-- `xs` is the free list, and it has every entry that is not in use. -/
structure FreeList (array : List (Closure μ)) (first : UInt32) (xs : List (ℕ × Closure μ)) : Prop where
  chain : Chain Closure.nextFree (array[·]?) (slotIndex first) xs none
  unused : ∀ (i : ℕ) (cl : Closure μ), array[i]? = some cl →
    (cl.responseType = none ↔ i ∈ addresses xs)
  used : ∀ (i : ℕ) (cl : Closure μ), array[i]? = some cl → cl.responseType ≠ none →
    ∃ passed, cl.closure = some passed

theorem freeList_new : FreeList ([.unused 0] : List (Closure μ)) 1 [(0, .unused 0)] where
  chain := ⟨rfl, rfl, rfl⟩
  unused := by
    intro i cl h
    cases i with
    | zero =>
      obtain rfl : Closure.unused 0 = cl := by simpa using h
      simp [Closure.unused]
    | succ i => exact absurd h (by simp)
  used := by
    intro i cl h hused
    cases i with
    | zero =>
      obtain rfl : Closure.unused 0 = cl := by simpa using h
      exact absurd rfl hused
    | succ i => exact absurd h (by simp)

section
variable {array : List (Closure μ)} {first : UInt32} {xs : List (ℕ × Closure μ)}

theorem FreeList.waiting (h : FreeList array first xs) {i : ℕ} {cl : Closure μ}
    (hi : array[i]? = some cl) : cl.waiting = none ↔ i ∈ addresses xs := by
  rw [← h.unused i cl hi]
  unfold Closure.waiting
  cases htype : cl.responseType with
  | none => simp
  | some type =>
    obtain ⟨passed, hpassed⟩ := h.used i cl hi (by rw [htype]; simp)
    rw [hpassed]
    simp

theorem FreeList.length_eq (h : FreeList array first xs) :
    (outstanding array).length + xs.length = array.length := by
  have hperm : (addresses xs).Perm
      ((List.range array.length).filter fun i => (array[i]?.bind Closure.waiting).isNone) := by
    refine (List.perm_ext_iff_of_nodup h.chain.nodup (List.nodup_range.filter _)).mpr fun i => ?_
    rw [List.mem_filter, List.mem_range]
    constructor
    · intro hi
      obtain ⟨x, hx, rfl⟩ := List.mem_map.mp hi
      have hget := h.chain.store_eq x hx
      refine ⟨(List.getElem?_eq_some_iff.mp hget).1, ?_⟩
      rw [hget, Option.bind_some, (h.waiting hget).mpr hi]
      rfl
    · intro hi
      have hget := List.getElem?_eq_getElem hi.1
      rw [hget, Option.bind_some, Option.isNone_iff_eq_none] at hi
      exact (h.waiting hget).mp hi.2
  have hfree : xs.length = array.countP fun cl => cl.waiting.isNone := by
    have hlen := hperm.length_eq
    rw [List.length_map] at hlen
    rw [hlen, ← List.countP_eq_length_filter]
    have hmap : array = (List.range array.length).map fun i => array[i]?.getD (.unused 0) := by
      apply List.ext_getElem?
      intro i
      by_cases hi : i < array.length
      · simp [hi]
      · simp [hi]
    conv_rhs => rw [hmap, List.countP_map]
    refine List.countP_congr fun i hi => ?_
    have hget := List.getElem?_eq_getElem (List.mem_range.mp hi)
    simp only [Function.comp_apply, hget, Option.bind_some, Option.getD_some]
  have hused : (outstanding array).length = array.countP fun cl => ¬ cl.waiting.isNone := by
    unfold outstanding
    rw [List.length_filterMap_eq_countP]
    refine List.countP_congr fun cl _ => ?_
    cases cl.waiting <;> simp
  have hsum := List.length_eq_countP_add_countP (fun cl : Closure μ => cl.waiting.isNone) (l := array)
  rw [hused, hfree]
  simp only [Bool.not_eq_true] at hsum ⊢
  omega

/-! ## Taking and giving back -/

theorem outstanding_set {i : ℕ} {cl : Closure μ} (h : array[i]? = some cl) (cl' : Closure μ) :
    (cl.waiting.toList ++ outstanding (array.set i cl')).Perm
      (cl'.waiting.toList ++ outstanding array) := by
  obtain ⟨hlt, hcl⟩ := List.getElem?_eq_some_iff.mp h
  have hperm : ∀ (x : Closure μ) (l : List (Closure μ)), outstanding (x :: l) =
      x.waiting.toList ++ outstanding l := by
    intro x l
    unfold outstanding
    rw [List.filterMap_cons]
    cases x.waiting <;> rfl
  have hset : (outstanding (array.set i cl')).Perm (outstanding (cl' :: array.eraseIdx i)) :=
    (List.set_perm_cons_eraseIdx hlt cl').filterMap _
  have hold : (outstanding array).Perm (outstanding (cl :: array.eraseIdx i)) := by
    have hcons := List.getElem_cons_eraseIdx_perm hlt
    rw [hcl] at hcons
    exact hcons.symm.filterMap _
  rw [hperm] at hset hold
  have h₁ := (hset.append_left cl.waiting.toList).trans (List.perm_append_comm_assoc _ _ _)
  exact h₁.trans (hold.symm.append_left _)

theorem FreeList.take {i : ℕ} {cl : Closure μ} (h : FreeList array first ((i, cl) :: xs))
    (cl' : Closure μ) {passed : Passed μ} (htype : cl'.responseType ≠ none)
    (hclosure : cl'.closure = some passed) :
    FreeList (array.set i cl') (pointerToUint cl.closureData) xs := by
  obtain ⟨-, hi, hrest⟩ := h.chain
  have hnodup := List.nodup_cons.mp h.chain.nodup
  have hlt := (List.getElem?_eq_some_iff.mp hi).1
  have hget : ∀ (j : ℕ), (array.set i cl')[j]? = if j = i then some cl' else array[j]? := by
    intro j
    rw [List.getElem?_set]
    by_cases hj : j = i
    · rw [if_pos hj.symm, if_pos (by omega), if_pos hj]
    · rw [if_neg (Ne.symm hj), if_neg hj]
  refine ⟨hrest.congr fun x hx => ?_, fun j c hj => ?_, fun j c hj hused => ?_⟩
  · show (array.set i cl')[x.1]? = some x.2
    rw [hget, if_neg]
    · exact hrest.store_eq x hx
    · intro heq
      have hmem : x.1 ∈ addresses xs := List.mem_map_of_mem hx
      rw [heq] at hmem
      exact hnodup.1 hmem
  · rw [hget] at hj
    split_ifs at hj with hji
    · obtain rfl : cl' = c := by simpa using hj
      rw [hji]
      exact iff_of_false htype hnodup.1
    · rw [h.unused j c hj]
      simp [addresses, hji]
  · rw [hget] at hj
    split_ifs at hj with hji
    · obtain rfl : cl' = c := by simpa using hj
      exact ⟨passed, hclosure⟩
    · exact h.used j c hj hused

theorem FreeList.give {request_id : UInt32} {i : ℕ} {cl : Closure μ} (h : FreeList array first xs)
    (hid : slotIndex request_id = some i) (hi : array[i]? = some cl) (hused : cl.responseType ≠ none) :
    FreeList (array.set i (.unused first)) request_id ((i, .unused first) :: xs) := by
  have hlt := (List.getElem?_eq_some_iff.mp hi).1
  have hout : i ∉ addresses xs := fun hmem => hused ((h.unused i cl hi).mpr hmem)
  have hget : ∀ (j : ℕ), (array.set i (.unused first))[j]? =
      if j = i then some (.unused first) else array[j]? := by
    intro j
    rw [List.getElem?_set]
    by_cases hj : j = i
    · rw [if_pos hj.symm, if_pos (by omega), if_pos hj]
    · rw [if_neg (Ne.symm hj), if_neg hj]
  refine ⟨⟨hid, ?_, ?_⟩, fun j c hj => ?_, fun j c hj hne => ?_⟩
  · show (array.set i (.unused first))[i]? = _
    rw [hget, if_pos rfl]
  · rw [Closure.nextFree_unused]
    refine h.chain.congr fun x hx => ?_
    show (array.set i (.unused first))[x.1]? = some x.2
    rw [hget, if_neg]
    · exact h.chain.store_eq x hx
    · intro heq
      have hmem : x.1 ∈ addresses xs := List.mem_map_of_mem hx
      rw [heq] at hmem
      exact hout hmem
  · rw [hget] at hj
    split_ifs at hj with hji
    · obtain rfl : Closure.unused first = c := by simpa using hj
      rw [hji]
      simp [Closure.unused]
    · rw [h.unused j c hj]
      simp [addresses, hji]
  · rw [hget] at hj
    split_ifs at hj with hji
    · obtain rfl : Closure.unused first = c := by simpa using hj
      exact absurd rfl hne
    · exact h.used j c hj hne

/-! ## Growing -/

/-- The new entries of a table that grows from `n` entries to `n + m + 1`. -/
def freshClosures (n m : ℕ) : List (Closure μ) :=
  ((List.range m).map fun k => .unused (UInt32.ofNat (n + k + 2))) ++ [.unused 0]

theorem freshClosures_cons (n m : ℕ) : (freshClosures n (m + 1) : List (Closure μ)) =
    .unused (UInt32.ofNat (n + 2)) :: freshClosures (n + 1) m := by
  unfold freshClosures
  rw [List.range_succ_eq_map, List.map_cons, List.map_map, List.cons_append]
  have hmap : (List.range m).map ((fun k => (Closure.unused (UInt32.ofNat (n + k + 2)) : Closure μ)) ∘
      Nat.succ) = (List.range m).map fun k => .unused (UInt32.ofNat (n + 1 + k + 2)) := by
    refine List.map_congr_left fun k _ => ?_
    rw [Function.comp_apply, show n + k.succ + 2 = n + 1 + k + 2 by omega]
  rw [hmap, Nat.add_zero]

theorem chain_fresh : ∀ (m : ℕ) (front : List (Closure μ)), front.length + m + 1 < 2 ^ 32 →
    ∃ xs, Chain Closure.nextFree ((front ++ freshClosures front.length m)[·]?) (some front.length) xs
        none ∧
      addresses xs = (List.range (m + 1)).map (front.length + ·) := by
  intro m
  induction m with
  | zero =>
    intro front _
    refine ⟨[(front.length, .unused 0)], ⟨rfl, ?_, rfl⟩, rfl⟩
    show (front ++ [Closure.unused 0])[front.length]? = _
    rw [List.getElem?_append_right (Nat.le_refl _), Nat.sub_self]
    rfl
  | succ m ih =>
    intro front hlt
    let cl : Closure μ := .unused (UInt32.ofNat (front.length + 2))
    obtain ⟨xs, hchain, haddr⟩ := ih (front ++ [cl]) (by rw [List.length_append]; simp; omega)
    rw [List.length_append, List.length_singleton] at hchain haddr
    have hwhole : front ++ [cl] ++ freshClosures (front.length + 1) m =
        front ++ freshClosures front.length (m + 1) := by
      rw [freshClosures_cons, List.append_assoc, List.singleton_append]
    rw [hwhole] at hchain
    refine ⟨(front.length, cl) :: xs, ⟨rfl, ?_, ?_⟩, ?_⟩
    · show (front ++ freshClosures front.length (m + 1))[front.length]? = some cl
      rw [freshClosures_cons, List.getElem?_append_right (Nat.le_refl _), Nat.sub_self]
      rfl
    · show Chain _ _ (slotIndex _) _ _
      have hnext : slotIndex (pointerToUint cl.closureData) = some (front.length + 1) := by
        show slotIndex (pointerToUint (uintToPointer _)) = _
        rw [pointerToUint_uintToPointer]
        exact slotIndex_ofNat (by omega)
      rw [hnext]
      exact hchain
    · show front.length :: addresses xs = _
      rw [haddr, List.range_succ_eq_map (n := m + 1), List.map_cons, List.map_map, Nat.add_zero]
      congr 1
      refine List.map_congr_left fun k _ => ?_
      rw [Function.comp_apply]
      omega

theorem FreeList.grow (h : FreeList array first []) {m : ℕ} (hlt : array.length + m + 1 < 2 ^ 32) :
    ∃ xs, FreeList (array ++ freshClosures array.length m) (UInt32.ofNat (array.length + 1)) xs ∧
      xs.length = m + 1 := by
  obtain ⟨xs, hchain, haddr⟩ := chain_fresh m array hlt
  have hfresh : ∀ cl ∈ (freshClosures array.length m : List (Closure μ)), cl.responseType = none := by
    intro cl hcl
    unfold freshClosures at hcl
    obtain hcl | hcl := List.mem_append.mp hcl
    · obtain ⟨k, -, rfl⟩ := List.mem_map.mp hcl
      rfl
    · rw [List.mem_singleton.mp hcl]
      rfl
  have hlen : (freshClosures array.length m : List (Closure μ)).length = m + 1 := by
    unfold freshClosures
    simp
  have hsize := congrArg List.length haddr
  simp only [List.length_map, List.length_range] at hsize
  refine ⟨xs, ⟨?_, fun i cl hi => ?_, fun i cl hi hused => ?_⟩, hsize⟩
  · rw [slotIndex_ofNat (by omega)]
    exact hchain
  · rw [haddr]
    by_cases hlt' : i < array.length
    · rw [List.getElem?_append_left hlt'] at hi
      rw [h.unused i cl hi]
      simp only [List.map_nil, List.not_mem_nil, List.mem_map, List.mem_range, false_iff, not_exists,
        not_and]
      omega
    · rw [List.getElem?_append_right (by omega)] at hi
      refine iff_of_true (hfresh cl (List.mem_of_getElem? hi)) ?_
      have hlt := (List.getElem?_eq_some_iff.mp hi).1
      rw [hlen] at hlt
      exact List.mem_map.mpr ⟨i - array.length, List.mem_range.mpr (by omega), by omega⟩
  · by_cases hlt' : i < array.length
    · rw [List.getElem?_append_left hlt'] at hi
      exact h.used i cl hi hused
    · rw [List.getElem?_append_right (by omega)] at hi
      exact absurd (hfresh cl (List.mem_of_getElem? hi)) hused

theorem outstanding_grown (m : ℕ) :
    outstanding (array ++ freshClosures array.length m) = outstanding array := by
  have hnil : outstanding (freshClosures array.length m : List (Closure μ)) = [] := by
    unfold outstanding freshClosures
    rw [List.filterMap_eq_nil_iff]
    intro cl hcl
    obtain hcl | hcl := List.mem_append.mp hcl
    · obtain ⟨k, -, rfl⟩ := List.mem_map.mp hcl
      rfl
    · rw [List.mem_singleton.mp hcl]
      rfl
  unfold outstanding at hnil ⊢
  rw [List.filterMap_append, hnil, List.append_nil]

end

end ProtobufC
