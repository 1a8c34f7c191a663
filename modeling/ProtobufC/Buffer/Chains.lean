import ProtobufC.Buffer.DataBuffer

/-! # Buffers as chains

`IsBuffer heap buffer xs` says that a buffer is the chain of the fragments `xs`; its bytes are
`contents xs`.  `Touches` is the frame of an operation: it leaves the fragments of all other buffers
alone, and what it adds was free.
-/

namespace ProtobufC
open Library
set_option autoImplicit false

/-! ## The heap -/

namespace FragmentHeap

theorem get_lt {heap : FragmentHeap} {i : ℕ} {frag : Fragment} (h : heap.get i = some frag) :
    i < heap.fragments.length := by
  by_contra hge
  unfold FragmentHeap.get at h
  rw [List.getElem?_eq_none (by omega)] at h
  exact absurd h (by simp)

theorem get_set {heap : FragmentHeap} {i : ℕ} {frag : Fragment} (h : heap.get i = some frag)
    (x : Option Fragment) (j : ℕ) : (heap.set i x).get j = if j = i then x else heap.get j := by
  have hlt := get_lt h
  unfold FragmentHeap.get FragmentHeap.set
  rw [List.getElem?_set]
  by_cases hj : j = i
  · rw [if_pos hj.symm, if_pos (by omega), if_pos hj]
    rfl
  · rw [if_neg (Ne.symm hj), if_neg hj]

theorem get_new (heap : FragmentHeap) (j : ℕ) : heap.newNativeFragment.2.get j =
    if j = heap.newNativeFragment.1 then
      some ⟨none, 0, 0, List.replicate fragmentDataSize 0⟩ else heap.get j := by
  unfold FragmentHeap.get FragmentHeap.newNativeFragment
  by_cases hj : j = heap.fragments.length
  · rw [if_pos hj, hj, List.getElem?_append_right (Nat.le_refl _), Nat.sub_self]
    rfl
  · rw [if_neg hj]
    by_cases hlt : j < heap.fragments.length
    · rw [List.getElem?_append_left hlt]
    · rw [List.getElem?_append_right (by omega), List.getElem?_eq_none (by simp; omega),
        List.getElem?_eq_none (by omega)]

theorem get_new_none (heap : FragmentHeap) : heap.get heap.newNativeFragment.1 = none := by
  unfold FragmentHeap.get FragmentHeap.newNativeFragment
  rw [List.getElem?_eq_none (Nat.le_refl _)]
  rfl

theorem load_ok {heap : FragmentHeap} {i : ℕ} {frag : Fragment} (h : heap.get i = some frag) :
    heap.load i = .ok frag := by
  unfold FragmentHeap.load
  rw [h]

theorem modify_ok {heap : FragmentHeap} {i : ℕ} {frag : Fragment} (h : heap.get i = some frag)
    (f : Fragment → Fragment) : heap.modify i f = .ok (heap.set i (some (f frag))) := by
  unfold FragmentHeap.modify
  rw [load_ok h]
  rfl

theorem recycle_ok {heap : FragmentHeap} {i : ℕ} {frag : Fragment} (h : heap.get i = some frag) :
    heap.recycle i = .ok (heap.set i none) := by
  unfold FragmentHeap.recycle
  rw [h]

end FragmentHeap

/-! ## Contents -/

/-- The data has its size and the bytes lie in it. -/
structure Fragment.Valid (frag : Fragment) : Prop where
  data : frag.data.length = fragmentDataSize
  range : frag.bufStart + frag.bufLength ≤ fragmentDataSize

theorem Fragment.Valid.length_bytes {frag : Fragment} (h : frag.Valid) :
    frag.bytes.length = frag.bufLength := by
  have := h.data
  have := h.range
  unfold Fragment.bytes
  rw [List.length_take, List.length_drop]
  omega

/-- The bytes of a chain of fragments. -/
def contents (xs : List (ℕ × Fragment)) : List UInt8 := xs.flatMap fun x => x.2.bytes

@[simp] theorem contents_nil : contents [] = [] := rfl

@[simp] theorem contents_cons (x : ℕ × Fragment) (xs : List (ℕ × Fragment)) :
    contents (x :: xs) = x.2.bytes ++ contents xs := List.flatMap_cons

@[simp] theorem contents_append (xs ys : List (ℕ × Fragment)) :
    contents (xs ++ ys) = contents xs ++ contents ys := List.flatMap_append

/-- Where the loops are, between two operations or in one. -/
structure IsChain (heap : FragmentHeap) (buffer : DataBuffer) (xs : List (ℕ × Fragment)) : Prop where
  chain : Chain Fragment.next heap.get buffer.firstFrag xs none
  last : buffer.lastFrag = xs.getLast?.map Prod.fst
  valid : ∀ x ∈ xs, x.2.Valid

/-- A buffer is the chain `xs`, and its size is the number of its bytes. -/
structure IsBuffer (heap : FragmentHeap) (buffer : DataBuffer) (xs : List (ℕ × Fragment)) : Prop
    extends IsChain heap buffer xs where
  size : buffer.size = (contents xs).length

theorem isBuffer_init (heap : FragmentHeap) : IsBuffer heap dataBufferInit [] where
  chain := rfl
  last := rfl
  valid := fun _ hx => absurd hx List.not_mem_nil
  size := rfl

theorem IsChain.length_le {heap : FragmentHeap} {buffer : DataBuffer} {xs : List (ℕ × Fragment)}
    (h : IsChain heap buffer xs) : xs.length ≤ heap.fuel := by
  have hsub : addresses xs ⊆ List.range heap.fragments.length := by
    intro i hi
    obtain ⟨x, hx, rfl⟩ := List.mem_map.mp hi
    exact List.mem_range.mpr (FragmentHeap.get_lt (h.chain.store_eq x hx))
  have hle := (h.chain.nodup.subperm hsub).length_le
  rw [List.length_map, List.length_range] at hle
  exact hle

/-- What an operation does to the heap when it turns the fragments `xs` into `xs'`. -/
structure Touches (heap heap' : FragmentHeap) (xs xs' : List (ℕ × Fragment)) : Prop where
  kept : ∀ (i : ℕ) (frag : Fragment), i ∉ addresses xs → heap.get i = some frag →
    heap'.get i = some frag
  fresh : ∀ i ∈ addresses xs', i ∈ addresses xs ∨ heap.get i = none

theorem Touches.refl (heap : FragmentHeap) (xs : List (ℕ × Fragment)) : Touches heap heap xs xs :=
  ⟨fun _ _ _ h => h, fun _ h => .inl h⟩

theorem Touches.trans {h₁ h₂ h₃ : FragmentHeap} {xs₁ xs₂ xs₃ : List (ℕ × Fragment)}
    (h : Touches h₁ h₂ xs₁ xs₂) (h' : Touches h₂ h₃ xs₂ xs₃) : Touches h₁ h₃ xs₁ xs₃ := by
  refine ⟨fun i frag hi hget => ?_, fun i hi => ?_⟩
  · refine h'.kept i frag (fun hmem => ?_) (h.kept i frag hi hget)
    obtain hold | hnone := h.fresh i hmem
    · exact hi hold
    · rw [hget] at hnone
      exact absurd hnone (by simp)
  · obtain hmem | hnone := h'.fresh i hi
    · exact h.fresh i hmem
    · by_contra hnot
      rw [not_or] at hnot
      obtain ⟨frag, hget⟩ := Option.ne_none_iff_exists'.mp hnot.2
      rw [h.kept i frag hnot.1 hget] at hnone
      exact absurd hnone (by simp)

theorem Touches.append_right {heap heap' : FragmentHeap} {xs xs' : List (ℕ × Fragment)}
    (h : Touches heap heap' xs xs') (ys : List (ℕ × Fragment)) :
    Touches heap heap' (xs ++ ys) (xs' ++ ys) := by
  refine ⟨fun i frag hi hget => h.kept i frag (fun hmem => hi ?_) hget, fun i hi => ?_⟩
  · rw [addresses, List.map_append]
    exact List.mem_append_left _ hmem
  · rw [addresses, List.map_append] at hi ⊢
    obtain hi | hi := List.mem_append.mp hi
    · obtain hold | hnone := h.fresh i hi
      · exact .inl (List.mem_append_left _ hold)
      · exact .inr hnone
    · exact .inl (List.mem_append_right _ hi)

theorem Touches.append_left {heap heap' : FragmentHeap} {xs xs' : List (ℕ × Fragment)}
    (h : Touches heap heap' xs xs') (ys : List (ℕ × Fragment)) :
    Touches heap heap' (ys ++ xs) (ys ++ xs') := by
  have hright := h.append_right ys
  refine ⟨fun i frag hi hget => hright.kept i frag (fun hmem => hi ?_) hget, fun i hi => ?_⟩
  · rw [addresses, List.map_append] at hmem ⊢
    exact List.mem_append.mpr (List.mem_append.mp hmem).symm
  · rw [addresses, List.map_append] at hi ⊢
    have hi' : i ∈ addresses (xs' ++ ys) := by
      rw [addresses, List.map_append]
      exact List.mem_append.mpr (List.mem_append.mp hi).symm
    obtain hold | hnone := hright.fresh i hi'
    · rw [addresses, List.map_append] at hold
      exact .inl (List.mem_append.mpr (List.mem_append.mp hold).symm)
    · exact .inr hnone

/-! ## One fragment at a time -/

section
variable {heap : FragmentHeap} {buffer : DataBuffer} {xs : List (ℕ × Fragment)}

theorem IsChain.replace_last {i : ℕ} {frag frag' : Fragment}
    (h : IsChain heap buffer (xs ++ [(i, frag)])) (hnext : frag'.next = none) (hvalid : frag'.Valid) :
    IsChain (heap.set i (some frag')) buffer (xs ++ [(i, frag')]) ∧
      Touches heap (heap.set i (some frag')) (xs ++ [(i, frag)]) (xs ++ [(i, frag')]) := by
  obtain ⟨hxs, hi, -⟩ := chain_concat.mp h.chain
  have hnodup := h.chain.nodup
  rw [addresses, List.map_append, List.map_singleton] at hnodup
  have hout : ∀ x ∈ xs, x.1 ≠ i := by
    intro x hx heq
    exact (List.nodup_append.mp hnodup).2.2 x.1 (List.mem_map_of_mem hx) i (by simp) heq
  refine ⟨⟨?_, ?_, ?_⟩, ?_, ?_⟩
  · refine chain_concat.mpr ⟨hxs.congr fun x hx => ?_, ?_, hnext⟩
    · rw [FragmentHeap.get_set hi, if_neg (hout x hx)]
      exact hxs.store_eq x hx
    · rw [FragmentHeap.get_set hi, if_pos rfl]
  · rw [h.last, List.getLast?_concat, List.getLast?_concat]
    rfl
  · intro x hx
    obtain hx | hx := List.mem_append.mp hx
    · exact h.valid x (List.mem_append_left _ hx)
    · rw [List.mem_singleton.mp hx]
      exact hvalid
  · intro j fr hj hget
    rw [FragmentHeap.get_set hi, if_neg, hget]
    rintro rfl
    exact hj (by simp [addresses])
  · intro j hj
    left
    simpa [addresses] using hj

theorem IsChain.push_new {i : ℕ} {frag : Fragment} (h : IsChain heap buffer (xs ++ [(i, frag)])) :
    let r := heap.newNativeFragment
    let frag' := { frag with next := some r.1 }
    IsChain (r.2.set i (some frag')) { buffer with lastFrag := some r.1 }
        (xs ++ [(i, frag')] ++ [(r.1, ⟨none, 0, 0, List.replicate fragmentDataSize 0⟩)]) ∧
      Touches heap (r.2.set i (some frag')) (xs ++ [(i, frag)])
        (xs ++ [(i, frag')] ++ [(r.1, ⟨none, 0, 0, List.replicate fragmentDataSize 0⟩)]) := by
  intro r frag'
  obtain ⟨hxs, hi, -⟩ := chain_concat.mp h.chain
  have hnodup := h.chain.nodup
  rw [addresses, List.map_append, List.map_singleton] at hnodup
  have hout : ∀ x ∈ xs, x.1 ≠ i := by
    intro x hx heq
    exact (List.nodup_append.mp hnodup).2.2 x.1 (List.mem_map_of_mem hx) i (by simp) heq
  have hnew := FragmentHeap.get_new_none heap
  have hold : ∀ (j : ℕ) (fr : Fragment), heap.get j = some fr → r.2.get j = some fr := by
    intro j fr hget
    rw [FragmentHeap.get_new, if_neg, hget]
    rintro rfl
    rw [hget] at hnew
    exact absurd hnew (by simp)
  have hne : r.1 ≠ i := by
    intro heq
    rw [← heq] at hi
    rw [hi] at hnew
    exact absurd hnew (by simp)
  have hget := FragmentHeap.get_set (hold i frag hi) (some frag')
  refine ⟨⟨?_, ?_, ?_⟩, ?_, ?_⟩
  · refine chain_concat.mpr ⟨chain_concat.mpr ⟨hxs.congr fun x hx => ?_, ?_, rfl⟩, ?_, rfl⟩
    · rw [hget, if_neg (hout x hx)]
      exact hold _ _ (hxs.store_eq x hx)
    · rw [hget, if_pos rfl]
    · rw [hget, if_neg hne, FragmentHeap.get_new, if_pos rfl]
  · rw [List.getLast?_concat]
    rfl
  · intro x hx
    obtain hx | hx := List.mem_append.mp hx
    · obtain hx | hx := List.mem_append.mp hx
      · exact h.valid x (List.mem_append_left _ hx)
      · have hv := h.valid (i, frag) (by simp)
        rw [List.mem_singleton.mp hx]
        exact ⟨hv.data, hv.range⟩
    · rw [List.mem_singleton.mp hx]
      exact ⟨List.length_replicate, Nat.zero_le _⟩
  · intro j fr hj hgetj
    rw [hget, if_neg, hold j fr hgetj]
    rintro rfl
    exact hj (by simp [addresses])
  · intro j hj
    simp only [addresses, List.map_append, List.map_singleton, List.mem_append,
      List.mem_singleton] at hj ⊢
    obtain hj | hj := hj
    · exact .inl hj
    · rw [hj]
      exact .inr hnew

theorem isChain_first_new (heap : FragmentHeap) (buffer : DataBuffer) :
    let r := heap.newNativeFragment
    IsChain r.2 { buffer with firstFrag := some r.1, lastFrag := some r.1 }
        [(r.1, ⟨none, 0, 0, List.replicate fragmentDataSize 0⟩)] ∧
      Touches heap r.2 [] [(r.1, ⟨none, 0, 0, List.replicate fragmentDataSize 0⟩)] := by
  intro r
  have hnew := FragmentHeap.get_new_none heap
  refine ⟨⟨⟨rfl, ?_, rfl⟩, rfl, ?_⟩, ?_, ?_⟩
  · rw [FragmentHeap.get_new, if_pos rfl]
  · intro x hx
    rw [List.mem_singleton.mp hx]
    exact ⟨List.length_replicate, Nat.zero_le _⟩
  · intro j fr _ hget
    rw [FragmentHeap.get_new, if_neg, hget]
    rintro rfl
    rw [hget] at hnew
    exact absurd hnew (by simp)
  · intro j hj
    obtain rfl : j = r.1 := by simpa [addresses] using hj
    exact .inr hnew

theorem IsChain.pop {i : ℕ} {frag : Fragment} (h : IsChain heap buffer ((i, frag) :: xs)) :
    IsChain (heap.set i none)
        { buffer with
          firstFrag := frag.next
          lastFrag := if frag.next.isNone then none else buffer.lastFrag } xs ∧
      Touches heap (heap.set i none) ((i, frag) :: xs) xs := by
  obtain ⟨-, hi, hrest⟩ := h.chain
  have hnodup := h.chain.nodup
  have hout : ∀ x ∈ xs, x.1 ≠ i := by
    intro x hx heq
    refine (List.nodup_cons.mp hnodup).1 ?_
    change i ∈ addresses xs
    rw [← heq]
    exact List.mem_map_of_mem hx
  refine ⟨⟨hrest.congr fun x hx => ?_, ?_, fun x hx => h.valid x (List.mem_cons_of_mem _ hx)⟩, ?_, ?_⟩
  · rw [FragmentHeap.get_set hi, if_neg (hout x hx)]
    exact hrest.store_eq x hx
  · cases xs with
    | nil =>
      have hnone : frag.next = none := hrest
      rw [if_pos (by rw [hnone]; rfl)]
      rfl
    | cons y ys =>
      have hsome : frag.next = some y.1 := hrest.1
      rw [if_neg (by rw [hsome]; simp), h.last, List.getLast?_cons_cons]
  · intro j fr hj hget
    rw [FragmentHeap.get_set hi, if_neg, hget]
    rintro rfl
    exact hj (by simp [addresses])
  · intro j hj
    exact .inl (List.mem_cons_of_mem _ hj)

theorem IsChain.replace_first {i : ℕ} {frag frag' : Fragment}
    (h : IsChain heap buffer ((i, frag) :: xs)) (hnext : frag'.next = frag.next)
    (hvalid : frag'.Valid) :
    IsChain (heap.set i (some frag')) buffer ((i, frag') :: xs) ∧
      Touches heap (heap.set i (some frag')) ((i, frag) :: xs) ((i, frag') :: xs) := by
  obtain ⟨hp, hi, hrest⟩ := h.chain
  have hnodup := h.chain.nodup
  have hout : ∀ x ∈ xs, x.1 ≠ i := by
    intro x hx heq
    refine (List.nodup_cons.mp hnodup).1 ?_
    change i ∈ addresses xs
    rw [← heq]
    exact List.mem_map_of_mem hx
  refine ⟨⟨⟨hp, ?_, ?_⟩, ?_, ?_⟩, ?_, ?_⟩
  · rw [FragmentHeap.get_set hi, if_pos rfl]
  · rw [hnext]
    refine hrest.congr fun x hx => ?_
    rw [FragmentHeap.get_set hi, if_neg (hout x hx)]
    exact hrest.store_eq x hx
  · rw [h.last]
    cases xs with
    | nil => rfl
    | cons y ys => rw [List.getLast?_cons_cons, List.getLast?_cons_cons]
  · intro x hx
    obtain rfl | hx := List.mem_cons.mp hx
    · exact hvalid
    · exact h.valid x (List.mem_cons_of_mem _ hx)
  · intro j fr hj hget
    rw [FragmentHeap.get_set hi, if_neg, hget]
    rintro rfl
    exact hj (by simp [addresses])
  · intro j hj
    exact .inl hj

end

end ProtobufC
