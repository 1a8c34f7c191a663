import ProtobufC.Buffer.Chains

/-! # What the operations do

For every operation of a data buffer: it does not fail, and the bytes it adds, removes, returns or moves
are the ones its name says.  Each loop is one lemma by induction.
-/

namespace ProtobufC
open Library
set_option autoImplicit false

/-! ## Appending -/

theorem fragmentAppend_ok {heap : FragmentHeap} {i : ℕ} {frag : Fragment} {bs : List UInt8}
    (hget : heap.get i = some frag) (hvalid : frag.Valid) (hroom : bs.length ≤ frag.avail) :
    ∃ frag', fragmentAppend heap i bs = .ok (heap.set i (some frag')) ∧ frag'.Valid ∧
      frag'.next = frag.next ∧ frag'.bytes = frag.bytes ++ bs ∧
      frag'.avail = frag.avail - bs.length := by
  have hdata := hvalid.data
  have hrange := hvalid.range
  have hlen : frag.bufStart + frag.bufLength + bs.length ≤ frag.data.length := by
    unfold Fragment.avail at hroom
    omega
  have hwrite : writeAt (frag.bufStart + frag.bufLength) bs frag.data =
      .ok ((), splice frag.data (frag.bufStart + frag.bufLength) bs) := by
    rw [writeAt, if_pos hlen]
  refine ⟨{ frag with
    data := splice frag.data (frag.bufStart + frag.bufLength) bs
    bufLength := frag.bufLength + bs.length }, ?_, ⟨?_, ?_⟩, rfl, ?_, ?_⟩
  · unfold fragmentAppend
    simp only [FragmentHeap.load_ok hget, hwrite, except_ok_bind]
    rfl
  · rw [← hdata]
    exact length_splice hlen
  · change frag.bufStart + (frag.bufLength + bs.length) ≤ fragmentDataSize
    omega
  · apply List.ext_getElem?
    intro j
    change (((splice frag.data (frag.bufStart + frag.bufLength) bs).drop frag.bufStart).take
      (frag.bufLength + bs.length))[j]? = (((frag.data.drop frag.bufStart).take frag.bufLength) ++ bs)[j]?
    have hold : ((frag.data.drop frag.bufStart).take frag.bufLength).length = frag.bufLength :=
      hvalid.length_bytes
    rw [List.getElem?_append, hold, List.getElem?_take, List.getElem?_take, List.getElem?_drop,
      List.getElem?_drop, getElem?_splice hlen]
    split_ifs <;> first
      | rfl
      | omega
      | (congr 1; omega)
      | (rw [List.getElem?_eq_none (by omega)])
  · change fragmentDataSize - frag.bufStart - (frag.bufLength + bs.length) = _
    unfold Fragment.avail
    omega

/-- How many rounds `data` takes at most. -/
def rounds (xs : List (ℕ × Fragment)) (data : List UInt8) : ℕ :=
  match xs.getLast? with
  | none => 2 * data.length
  | some x => if x.2.avail = 0 then 2 * data.length else 2 * data.length - 1

theorem rounds_le (xs : List (ℕ × Fragment)) (data : List UInt8) :
    2 * data.length - 1 ≤ rounds xs data ∧ rounds xs data ≤ 2 * data.length := by
  unfold rounds
  split
  · omega
  · split_ifs <;> omega

/-- There is a last fragment now; where there is no room to use, the next round finds some. -/
theorem lastWithRoom_spec {heap : FragmentHeap} {buffer : DataBuffer} {xs : List (ℕ × Fragment)}
    (h : IsChain heap buffer xs) :
    ∃ heap' buffer' ys i frag avail, lastWithRoom heap buffer = .ok (heap', buffer', i, avail) ∧
      IsChain heap' buffer' (ys ++ [(i, frag)]) ∧ Touches heap heap' xs (ys ++ [(i, frag)]) ∧
      contents (ys ++ [(i, frag)]) = contents xs ∧ buffer'.size = buffer.size ∧
      avail ≤ frag.avail ∧
      (avail = 0 → frag.avail ≠ 0 ∧ ∃ x, xs.getLast? = some x ∧ x.2.avail = 0) := by
  unfold lastWithRoom
  rw [h.last]
  obtain rfl | ⟨ys, x, rfl⟩ := xs.eq_nil_or_concat
  · obtain ⟨hchain, htouch⟩ := isChain_first_new heap buffer
    exact ⟨_, _, [], _, _, _, rfl, hchain, htouch, rfl, rfl, Nat.le_refl _,
      fun hzero => absurd hzero (by decide)⟩
  · obtain ⟨i, frag⟩ := x
    rw [List.concat_eq_append] at h ⊢
    obtain ⟨-, hget, -⟩ := chain_concat.mp h.chain
    rw [List.getLast?_concat]
    simp only [Option.map_some, FragmentHeap.load_ok hget, except_ok_bind]
    by_cases hfull : frag.avail ≤ 0
    · obtain ⟨hchain, htouch⟩ := h.push_new
      have hget' : heap.newNativeFragment.2.get i = some frag := by
        rw [FragmentHeap.get_new, if_neg, hget]
        rintro rfl
        have hnew := FragmentHeap.get_new_none heap
        rw [hget] at hnew
        exact absurd hnew (by simp)
      rw [if_pos hfull, FragmentHeap.modify_ok hget']
      refine ⟨_, _, _, _, _, frag.avail, rfl, hchain, htouch, ?_, rfl, ?_, fun _ => ⟨by decide, ?_⟩⟩
      · simp only [contents_append, contents_cons, contents_nil, List.append_nil]
        exact List.append_nil _
      · exact hfull.trans (Nat.zero_le _)
      · exact ⟨(i, frag), rfl, by omega⟩
    · rw [if_neg hfull]
      exact ⟨_, _, ys, i, frag, _, rfl, h, .refl _ _, rfl, rfl, Nat.le_refl _,
        fun hzero => absurd (Nat.le_of_eq hzero) hfull⟩

theorem fragmentLoop_spec : ∀ (fuel : ℕ) {heap : FragmentHeap} {buffer : DataBuffer}
    {xs : List (ℕ × Fragment)} (data : List UInt8), IsChain heap buffer xs →
    rounds xs data ≤ fuel → ∃ heap' buffer' xs', fragmentLoop fuel heap buffer data = .ok (heap', buffer') ∧
      IsChain heap' buffer' xs' ∧ Touches heap heap' xs xs' ∧ contents xs' = contents xs ++ data ∧
      buffer'.size = buffer.size := by
  intro fuel
  induction fuel with
  | zero =>
    intro heap buffer xs data h hfuel
    have hnil : data = [] := by
      refine List.eq_nil_of_length_eq_zero ?_
      unfold rounds at hfuel
      split at hfuel
      · omega
      · split_ifs at hfuel <;> omega
    subst hnil
    exact ⟨heap, buffer, xs, rfl, h, .refl heap xs, (List.append_nil _).symm, rfl⟩
  | succ fuel ih =>
    intro heap buffer xs data h hfuel
    cases hdata : data with
    | nil => exact ⟨heap, buffer, xs, rfl, h, .refl heap xs, (List.append_nil _).symm, rfl⟩
    | cons c cs =>
      rw [← hdata]
      have hpos : 0 < data.length := by rw [hdata]; simp
      obtain ⟨h₁, b₁, ys, i, frag, avail, hlast, hchain, htouch, hcont, hsize, havail, hfull⟩ :=
        lastWithRoom_spec h
      obtain ⟨hxs, hget, hnext⟩ := chain_concat.mp hchain.chain
      -- `k` bytes go into the last fragment
      obtain ⟨k, hk⟩ : ∃ k, k = if avail > data.length then data.length else avail := ⟨_, rfl⟩
      have hklen : (data.take k).length = k := by
        rw [List.length_take, hk]
        split_ifs <;> omega
      have hkavail : k ≤ frag.avail := by
        rw [hk]
        split_ifs <;> omega
      obtain ⟨frag', happ, hvalid, hnext', hbytes, hav'⟩ := fragmentAppend_ok hget
        (hchain.valid (i, frag) (by simp))
        (show (data.take k).length ≤ frag.avail by rw [hklen]; exact hkavail)
      obtain ⟨hchain', htouch'⟩ := hchain.replace_last (hnext'.trans hnext) hvalid
      have hrounds : rounds (ys ++ [(i, frag')]) (data.drop k) ≤ fuel := by
        have hle := (rounds_le (ys ++ [(i, frag')]) (data.drop k)).2
        have hge := (rounds_le xs data).1
        rw [List.length_drop] at hle
        by_cases hzero : avail = 0
        · obtain ⟨hroom, x, hx, hxfull⟩ := hfull hzero
          have hk0 : k = 0 := by
            rw [hk, hzero]
            split_ifs <;> omega
          have hnow : rounds xs data = 2 * data.length := by
            unfold rounds
            rw [hx]
            exact if_pos hxfull
          unfold rounds
          rw [List.getLast?_concat]
          simp only
          rw [hav', hklen, hk0, if_neg (by omega), List.drop_zero]
          omega
        · have hkpos : 0 < k := by
            rw [hk]
            split_ifs <;> omega
          omega
      obtain ⟨heap', buffer', xs', hloop, hdone, htouch'', hcont', hsize'⟩ :=
        ih (data.drop k) hchain' hrounds
      refine ⟨heap', buffer', xs', ?_, hdone, (htouch.trans htouch').trans htouch'', ?_,
        hsize'.trans hsize⟩
      · rw [hdata, fragmentLoop, ← hdata, hlast]
        simp only [except_ok_bind]
        rw [← hk, happ]
        exact hloop
      · have hsplit : contents (ys ++ [(i, frag')]) = contents xs ++ data.take k := by
          rw [← hcont, contents_append, contents_append]
          simp only [contents_cons, contents_nil, List.append_nil, hbytes, List.append_assoc]
        rw [hcont', hsplit, List.append_assoc, List.take_append_drop]

theorem dataBufferAppend_spec {heap : FragmentHeap} {buffer : DataBuffer}
    {xs : List (ℕ × Fragment)} (h : IsBuffer heap buffer xs) (data : List UInt8) :
    ∃ heap' buffer' xs', dataBufferAppend heap buffer data = .ok (heap', buffer') ∧
      IsBuffer heap' buffer' xs' ∧ Touches heap heap' xs xs' ∧
      contents xs' = contents xs ++ data := by
  have hchain : IsChain heap { buffer with size := buffer.size + data.length } xs :=
    ⟨h.chain, h.last, h.valid⟩
  obtain ⟨heap', buffer', xs', hloop, hdone, htouch, hcont, hsize⟩ :=
    fragmentLoop_spec (2 * data.length) data hchain (rounds_le xs data).2
  refine ⟨heap', buffer', xs', hloop, ⟨hdone, ?_⟩, htouch, hcont⟩
  rw [hsize, hcont, List.length_append, h.size]

/-! ## Removing -/

theorem removeLoop_spec : ∀ {xs : List (ℕ × Fragment)} (fuel : ℕ) {heap : FragmentHeap}
    {buffer : DataBuffer} (maxLength : ℕ) (removed : List UInt8), IsChain heap buffer xs →
    xs.length ≤ fuel → ∃ heap' buffer' xs',
      removeLoop fuel heap buffer maxLength removed =
        .ok (heap', buffer', removed ++ (contents xs).take maxLength) ∧
      IsChain heap' buffer' xs' ∧ Touches heap heap' xs xs' ∧
      contents xs' = (contents xs).drop maxLength ∧ buffer'.size = buffer.size := by
  intro xs
  induction xs with
  | nil =>
    intro fuel heap buffer maxLength removed h _
    have hfirst : buffer.firstFrag = none := h.chain
    refine ⟨heap, buffer, [], ?_, h, .refl heap [], by simp, rfl⟩
    unfold removeLoop
    rw [hfirst]
    split_ifs <;> simp
  | cons x xs ih =>
    intro fuel heap buffer maxLength removed h hfuel
    obtain ⟨i, frag⟩ := x
    obtain ⟨hfirst, hget, -⟩ := h.chain
    have hvalid := h.valid (i, frag) List.mem_cons_self
    have hlen : frag.bytes.length = frag.bufLength := hvalid.length_bytes
    obtain ⟨fuel, rfl⟩ : ∃ n, fuel = n + 1 := ⟨fuel - 1, by simp at hfuel; omega⟩
    by_cases hpos : maxLength > 0
    · unfold removeLoop
      rw [if_pos hpos, hfirst]
      simp only [FragmentHeap.load_ok hget, except_ok_bind]
      by_cases hall : frag.bufLength ≤ maxLength
      · -- the whole fragment
        obtain ⟨hpop, htouch⟩ := h.pop
        obtain ⟨heap', buffer', xs', hloop, hdone, htouch', hcont, hsize⟩ :=
          ih fuel (maxLength - frag.bufLength) (removed ++ frag.bytes) hpop (by simpa using hfuel)
        rw [if_pos hall, FragmentHeap.recycle_ok hget]
        refine ⟨heap', buffer', xs', ?_, hdone, htouch.trans htouch', ?_, hsize⟩
        · simp only [except_ok_bind]
          rw [hloop, contents_cons, List.take_append, hlen,
            List.take_of_length_le (l := frag.bytes) (by rw [hlen]; exact hall), List.append_assoc]
        · rw [hcont, contents_cons, List.drop_append, hlen,
            List.drop_of_length_le (l := frag.bytes) (by rw [hlen]; exact hall), List.nil_append]
      · -- the first bytes of the fragment
        have hrange : frag.bufStart + frag.bufLength ≤ fragmentDataSize := hvalid.range
        obtain ⟨hrep, htouch⟩ := h.replace_first
          (show Fragment.next { frag with
            bufLength := frag.bufLength - maxLength
            bufStart := frag.bufStart + maxLength } = frag.next from rfl)
          ⟨hvalid.data, by change frag.bufStart + maxLength + (frag.bufLength - maxLength) ≤ _; omega⟩
        rw [if_neg hall, FragmentHeap.modify_ok hget]
        refine ⟨_, _, _, ?_, hrep, htouch, ?_, rfl⟩
        · rw [contents_cons, List.take_append_of_le_length (by change maxLength ≤ frag.bytes.length; omega)]
          rfl
        · rw [contents_cons, contents_cons,
            List.drop_append_of_le_length (by change maxLength ≤ frag.bytes.length; omega)]
          congr 1
          change (frag.data.drop (frag.bufStart + maxLength)).take (frag.bufLength - maxLength) =
            ((frag.data.drop frag.bufStart).take frag.bufLength).drop maxLength
          rw [List.drop_take, List.drop_drop]
    · have hzero : maxLength = 0 := by omega
      subst hzero
      refine ⟨heap, buffer, (i, frag) :: xs, ?_, h, .refl heap _, rfl, rfl⟩
      unfold removeLoop
      rw [if_neg hpos, List.take_zero, List.append_nil]

theorem addSize_neg {size n : ℕ} (hle : n ≤ size) (hlt : size < 2 ^ 64) :
    addSize size (-n) = size - n := by
  unfold addSize
  rw [Int.emod_eq_of_lt (by omega) (by omega)]
  omega

theorem int32_ofNat_toInt {n : ℕ} (h : n < 2 ^ 31) : (Int32.ofNat n).toInt = n :=
  Int32.toInt_ofNat_of_lt h

theorem sizeOfInt_ofNat {n : ℕ} (h : n < 2 ^ 31) : sizeOfInt (Int32.ofNat n) = n := by
  unfold sizeOfInt
  rw [int32_ofNat_toInt h, Int.emod_eq_of_lt (by omega) (by omega)]
  rfl

section
variable {heap : FragmentHeap} {buffer : DataBuffer} {xs : List (ℕ × Fragment)}

/-- `protobuf_c_data_buffer_read` removes and returns the first bytes, and its assertion holds. -/
theorem dataBufferRead_large (h : IsBuffer heap buffer xs) (hlong : (contents xs).length < 2 ^ 64)
    (maxLength : ℕ) : ∃ heap' buffer' xs',
      dataBufferRead heap buffer maxLength = .ok (heap', buffer', (contents xs).take maxLength) ∧
      IsBuffer heap' buffer' xs' ∧ Touches heap heap' xs xs' ∧
      contents xs' = (contents xs).drop maxLength := by
  obtain ⟨heap', buffer', xs', hloop, hdone, htouch, hcont, hsize⟩ :=
    removeLoop_spec (heap.fuel + 1) maxLength [] h.toIsChain (Nat.le_succ_of_le h.toIsChain.length_le)
  have hsub : addSize buffer'.size (-(min maxLength (contents xs).length : ℕ)) =
      (contents xs).length - min maxLength (contents xs).length := by
    rw [hsize, h.size]
    exact addSize_neg (Nat.min_le_right _ _) (by omega)
  refine ⟨heap', { buffer' with
    size := (contents xs).length - min maxLength (contents xs).length }, xs', ?_,
    ⟨⟨hdone.chain, hdone.last, hdone.valid⟩, ?_⟩, htouch, hcont⟩
  · unfold dataBufferRead
    rw [hloop]
    simp only [except_ok_bind, List.nil_append, List.length_take, hsub]
    rw [if_pos (by omega)]
    rfl
  · rw [hcont, List.length_drop]
    change (contents xs).length - _ = _
    omega

theorem dataBufferRead_spec (h : IsBuffer heap buffer xs) (hsmall : (contents xs).length < 2 ^ 31)
    (maxLength : ℕ) : ∃ heap' buffer' xs',
      dataBufferRead heap buffer maxLength = .ok (heap', buffer', (contents xs).take maxLength) ∧
      IsBuffer heap' buffer' xs' ∧ Touches heap heap' xs xs' ∧
      contents xs' = (contents xs).drop maxLength :=
  dataBufferRead_large h (by omega) maxLength

/-- `protobuf_c_data_buffer_discard` removes the first bytes, and counts them in an `int`. -/
theorem dataBufferDiscard_run (h : IsBuffer heap buffer xs) (maxDiscard : ℕ) :
    ∃ heap' buffer' xs', dataBufferDiscard heap buffer maxDiscard = .ok (heap', buffer',
        sizeOfInt (Int32.ofNat (min maxDiscard (contents xs).length))) ∧
      IsChain heap' buffer' xs' ∧ Touches heap heap' xs xs' ∧
      contents xs' = (contents xs).drop maxDiscard ∧ buffer'.size = addSize (contents xs).length
        (-(Int32.ofNat (min maxDiscard (contents xs).length)).toInt) := by
  obtain ⟨heap', buffer', xs', hloop, hdone, htouch, hcont, hsize⟩ :=
    removeLoop_spec (heap.fuel + 1) maxDiscard [] h.toIsChain (Nat.le_succ_of_le h.toIsChain.length_le)
  refine ⟨heap', { buffer' with
    size := addSize (contents xs).length
      (-(Int32.ofNat (min maxDiscard (contents xs).length)).toInt) }, xs', ?_,
    ⟨hdone.chain, hdone.last, hdone.valid⟩, htouch, hcont, rfl⟩
  unfold dataBufferDiscard
  rw [hloop]
  simp only [except_ok_bind, List.nil_append, List.length_take, hsize, h.size]
  rfl

theorem dataBufferDiscard_large (h : IsBuffer heap buffer xs) (hsize : (contents xs).length < 2 ^ 64)
    (maxDiscard : ℕ) (hsmall : min maxDiscard (contents xs).length < 2 ^ 31) :
    ∃ heap' buffer' xs', dataBufferDiscard heap buffer maxDiscard =
        .ok (heap', buffer', min maxDiscard (contents xs).length) ∧
      IsBuffer heap' buffer' xs' ∧ Touches heap heap' xs xs' ∧
      contents xs' = (contents xs).drop maxDiscard := by
  obtain ⟨heap', buffer', xs', hrun, hdone, htouch, hcont, hrest⟩ := dataBufferDiscard_run h maxDiscard
  rw [sizeOfInt_ofNat hsmall] at hrun
  refine ⟨heap', buffer', xs', hrun, ⟨hdone, ?_⟩, htouch, hcont⟩
  rw [hrest, int32_ofNat_toInt hsmall, addSize_neg (Nat.min_le_right _ _) hsize, hcont,
    List.length_drop]
  omega

theorem dataBufferDiscard_spec (h : IsBuffer heap buffer xs) (hsmall : (contents xs).length < 2 ^ 31)
    (maxDiscard : ℕ) : ∃ heap' buffer' xs',
      dataBufferDiscard heap buffer maxDiscard =
        .ok (heap', buffer', min maxDiscard (contents xs).length) ∧
      IsBuffer heap' buffer' xs' ∧ Touches heap heap' xs xs' ∧
      contents xs' = (contents xs).drop maxDiscard :=
  dataBufferDiscard_large h (by omega) maxDiscard (by omega)

end

theorem resetLoop_spec : ∀ {xs : List (ℕ × Fragment)} (fuel : ℕ) {heap : FragmentHeap}
    {p : Option ℕ}, Chain Fragment.next heap.get p xs none → xs.length ≤ fuel →
    ∃ heap', resetLoop fuel heap p = .ok heap' ∧ Touches heap heap' xs [] := by
  intro xs
  induction xs with
  | nil =>
    intro fuel heap p h _
    obtain rfl : p = none := h
    exact ⟨heap, by cases fuel <;> rfl, .refl heap []⟩
  | cons x xs ih =>
    intro fuel heap p h hfuel
    obtain ⟨i, frag⟩ := x
    have hnodup := h.nodup
    obtain ⟨rfl, hget, hrest⟩ := h
    obtain ⟨fuel, rfl⟩ : ∃ n, fuel = n + 1 := ⟨fuel - 1, by simp at hfuel; omega⟩
    have hkept : ∀ (j : ℕ) (fr : Fragment), j ≠ i → heap.get j = some fr →
        (heap.set i none).get j = some fr := by
      intro j fr hj hgetj
      rw [FragmentHeap.get_set hget, if_neg hj, hgetj]
    have hrest' : Chain Fragment.next (heap.set i none).get frag.next xs none := by
      refine hrest.congr fun x hx => hkept x.1 x.2 (fun heq => ?_) (hrest.store_eq x hx)
      refine (List.nodup_cons.mp hnodup).1 ?_
      change i ∈ addresses xs
      rw [← heq]
      exact List.mem_map_of_mem hx
    obtain ⟨heap', hloop, htouch⟩ := ih fuel hrest' (by simpa using hfuel)
    refine ⟨heap', ?_, fun j fr hj hgetj => ?_, fun j hj => absurd hj List.not_mem_nil⟩
    · simp only [resetLoop, FragmentHeap.load_ok hget, FragmentHeap.recycle_ok hget, except_ok_bind]
      exact hloop
    · simp only [addresses, List.map_cons, List.mem_cons, not_or] at hj
      exact htouch.kept j fr hj.2 (hkept j fr hj.1 hgetj)

theorem dataBufferClear_spec {heap : FragmentHeap} {buffer : DataBuffer} {xs : List (ℕ × Fragment)}
    (h : IsBuffer heap buffer xs) :
    ∃ heap', dataBufferClear heap buffer = .ok heap' ∧ Touches heap heap' xs [] :=
  resetLoop_spec (heap.fuel + 1) h.chain (Nat.le_succ_of_le h.toIsChain.length_le)

theorem dataBufferReset_spec {heap : FragmentHeap} {buffer : DataBuffer} {xs : List (ℕ × Fragment)}
    (h : IsBuffer heap buffer xs) :
    ∃ heap' buffer', dataBufferReset heap buffer = .ok (heap', buffer') ∧
      IsBuffer heap' buffer' [] ∧ Touches heap heap' xs [] := by
  obtain ⟨heap', hloop, htouch⟩ := dataBufferClear_spec h
  refine ⟨heap', dataBufferInit, ?_, isBuffer_init heap', htouch⟩
  unfold dataBufferClear at hloop
  unfold dataBufferReset
  rw [hloop]
  rfl

/-! ## Looking -/

/-- The bytes of some fragments. -/
def fragmentBytes (frags : List Fragment) : List UInt8 := frags.flatMap Fragment.bytes

theorem fragmentBytes_cons (frag : Fragment) (frags : List Fragment) :
    fragmentBytes (frag :: frags) = frag.bytes ++ fragmentBytes frags := List.flatMap_cons

theorem fragmentBytes_eq (xs : List (ℕ × Fragment)) :
    fragmentBytes (xs.map Prod.snd) = contents xs := by
  unfold fragmentBytes contents
  rw [List.flatMap_map]

theorem DataBuffer.walk_eq {σ ρ : Type} {heap : FragmentHeap} {buffer : DataBuffer}
    {xs : List (ℕ × Fragment)} (h : IsChain heap buffer xs) (step : σ → Fragment → σ ⊕ ρ)
    (done : σ → ρ) (s : σ) :
    buffer.walk heap step done s = .ok (walkList step done (xs.map Prod.snd) s) :=
  walk_chain step done (heap.fuel + 1) s h.chain (Nat.le_succ_of_le h.length_le)

theorem peek_walk : ∀ (frags : List Fragment) (n : ℕ) (copied : List UInt8) (rv : Int32),
    (∀ frag ∈ frags, frag.Valid) →
    walkList peekStep Prod.snd frags (n, copied, rv) =
      (copied ++ (fragmentBytes frags).take n,
        rv + Int32.ofNat (min n (fragmentBytes frags).length)) := by
  intro frags
  induction frags with
  | nil =>
    intro n copied rv _
    simp only [walkList, fragmentBytes, List.flatMap_nil, List.take_nil, List.append_nil,
      List.length_nil, Nat.min_zero]
    exact congrArg _ (by grind)
  | cons frag frags ih =>
    intro n copied rv hvalid
    have hlen := (hvalid frag List.mem_cons_self).length_bytes
    have hrest : ∀ f ∈ frags, f.Valid := fun f hf => hvalid f (List.mem_cons_of_mem _ hf)
    rw [fragmentBytes_cons, walkList, peekStep]
    by_cases hpos : n > 0
    · by_cases hall : frag.bufLength ≤ n
      · simp only [if_pos hpos, if_pos hall]
        rw [ih _ _ _ hrest, List.take_append, List.length_append, hlen,
          List.take_of_length_le (l := frag.bytes) (by omega), List.append_assoc,
          show min n (frag.bufLength + (fragmentBytes frags).length) =
            frag.bufLength + min (n - frag.bufLength) (fragmentBytes frags).length by omega,
          Int32.ofNat_add, Int32.add_assoc]
      · simp only [if_pos hpos, if_neg hall]
        rw [List.take_append_of_le_length (by omega), List.length_append, hlen,
          Nat.min_eq_left (by omega)]
    · have hzero : n = 0 := by omega
      subst hzero
      simp only [if_neg hpos, List.take_zero, List.append_nil, Nat.zero_min]
      exact congrArg _ (by grind)

theorem indexOf_walk (c : UInt8) : ∀ (frags : List Fragment) (rv : Int32),
    (∀ frag ∈ frags, frag.Valid) →
    walkList (indexOfStep c) (fun _ => none) frags rv =
      ((fragmentBytes frags).findIdx? (· = c)).map fun k => Int32.ofNat k + rv := by
  intro frags
  induction frags with
  | nil => exact fun rv _ => rfl
  | cons frag frags ih =>
    intro rv hvalid
    have hlen := (hvalid frag List.mem_cons_self).length_bytes
    rw [fragmentBytes_cons, List.findIdx?_append, walkList, indexOfStep]
    cases hfind : frag.bytes.findIdx? (· = c) with
    | some k => rfl
    | none =>
      simp only [Option.none_or, Option.map_map]
      rw [ih _ fun f hf => hvalid f (List.mem_cons_of_mem _ hf)]
      cases (fragmentBytes frags).findIdx? (· = c) with
      | none => rfl
      | some k =>
        simp only [Option.map_some, Function.comp_apply, hlen, Int32.ofNat_add]
        exact congrArg some (by grind)

theorem writev_walk : ∀ (frags : List Fragment) (n : ℕ) (iov : List (List UInt8)),
    walkList writevStep Prod.snd frags (n, iov) = iov ++ (frags.take n).map Fragment.bytes := by
  intro frags
  induction frags with
  | nil =>
    intro n iov
    simp [walkList]
  | cons frag frags ih =>
    intro n iov
    rw [walkList, writevStep]
    cases n with
    | zero => simp
    | succ n =>
      simp only [Nat.succ_pos, if_true, gt_iff_lt, Nat.add_sub_cancel]
      rw [ih, List.take_succ_cons, List.map_cons, List.append_assoc]
      rfl

theorem writev_prefix (frags : List Fragment) (n : ℕ) :
    ((frags.take n).map Fragment.bytes).flatten <+: fragmentBytes frags := by
  have hsplit : fragmentBytes frags =
      fragmentBytes (frags.take n) ++ fragmentBytes (frags.drop n) := by
    unfold fragmentBytes
    rw [← List.flatMap_append, List.take_append_drop]
  rw [hsplit]
  exact ⟨_, rfl⟩

theorem writevLen_walk : ∀ (frags : List Fragment) (n bytes : ℕ) (iov : List (List UInt8)),
    (∀ frag ∈ frags, frag.Valid) → ∃ blocks : List (List UInt8),
    walkList writevLenStep (fun s => s.2.2) frags (n, bytes, iov) = iov ++ blocks ∧
      blocks.flatten <+: (fragmentBytes frags).take bytes := by
  intro frags
  induction frags with
  | nil => exact fun n bytes iov _ => ⟨[], (List.append_nil _).symm, List.nil_prefix⟩
  | cons frag frags ih =>
    intro n bytes iov hvalid
    have hlen := (hvalid frag List.mem_cons_self).length_bytes
    rw [walkList, writevLenStep]
    by_cases hgo : n > 0 ∧ bytes > 0
    · obtain ⟨blocks, hwalk, hiov⟩ := ih (n - 1) (bytes - min frag.bufLength bytes)
        (iov ++ [frag.bytes.take bytes]) fun f hf => hvalid f (List.mem_cons_of_mem _ hf)
      refine ⟨frag.bytes.take bytes :: blocks, ?_, ?_⟩
      · simp only [if_pos hgo]
        rw [hwalk, List.append_assoc]
        rfl
      · rw [fragmentBytes_cons, List.take_append, List.flatten_cons, hlen]
        refine (List.prefix_append_right_inj _).mpr ?_
        rwa [show bytes - min frag.bufLength bytes = bytes - frag.bufLength by omega] at hiov
    · simp only [if_neg hgo]
      exact ⟨[], (List.append_nil _).symm, List.nil_prefix⟩

section
variable {heap : FragmentHeap} {buffer : DataBuffer} {xs : List (ℕ × Fragment)}

theorem IsChain.valid_map (h : IsChain heap buffer xs) : ∀ frag ∈ xs.map Prod.snd, frag.Valid := by
  intro frag hmem
  obtain ⟨x, hx, rfl⟩ := List.mem_map.mp hmem
  exact h.valid x hx

theorem dataBufferPeek_large (h : IsBuffer heap buffer xs) (maxLength : ℕ)
    (hsmall : min maxLength (contents xs).length < 2 ^ 31) : dataBufferPeek heap buffer maxLength =
      .ok ((contents xs).take maxLength, min maxLength (contents xs).length) := by
  unfold dataBufferPeek
  rw [DataBuffer.walk_eq h.toIsChain, peek_walk _ _ _ _ h.toIsChain.valid_map, fragmentBytes_eq,
    Int32.zero_add]
  simp only [except_ok_bind, List.nil_append, sizeOfInt_ofNat hsmall]
  rfl

theorem dataBufferPeek_spec (h : IsBuffer heap buffer xs) (hsmall : (contents xs).length < 2 ^ 31)
    (maxLength : ℕ) : dataBufferPeek heap buffer maxLength =
      .ok ((contents xs).take maxLength, min maxLength (contents xs).length) :=
  dataBufferPeek_large h maxLength (by omega)

theorem dataBufferFind_spec (h : IsBuffer heap buffer xs) (c : UInt8) :
    dataBufferFind heap buffer c =
      .ok (((contents xs).findIdx? (· = c)).map fun k => Int32.ofNat k) := by
  unfold dataBufferFind
  rw [DataBuffer.walk_eq h.toIsChain, indexOf_walk _ _ _ h.toIsChain.valid_map, fragmentBytes_eq]
  simp only [Int32.add_zero]

theorem dataBufferIndexOf_spec (h : IsBuffer heap buffer xs) (c : UInt8) :
    dataBufferIndexOf heap buffer c =
      .ok (((contents xs).findIdx? (· = c)).elim (-1) fun k => Int32.ofNat k) := by
  unfold dataBufferIndexOf
  rw [dataBufferFind_spec h]
  cases (contents xs).findIdx? (· = c) <;> rfl

theorem findIdx?_lt {α : Type} {p : α → Bool} {l : List α} {k : ℕ} (h : l.findIdx? p = some k) :
    k < l.length := by
  obtain ⟨hlt, -⟩ := List.findIdx?_eq_some_iff_getElem.mp h
  exact hlt

theorem ofNat_succ_size {k : ℕ} (h : k + 1 < 2 ^ 31) :
    sizeOfInt (Int32.ofNat k + 1) = k + 1 := by
  have heq : Int32.ofNat k + 1 = Int32.ofNat (k + 1) := (Int32.ofNat_add k 1).symm
  rw [heq, sizeOfInt_ofNat h]

theorem fillString_terminated (data : List UInt8) (k : ℕ) (hk : k < data.length) :
    fillString (k + 1) (data.take (k + 1)) (some k) = .ok (data.take k ++ [0]) := by
  have hlen : (data.take (k + 1)).length = k + 1 := by
    rw [List.length_take]
    omega
  have hwhole : splice (List.replicate (k + 1) (0 : UInt8)) 0 (data.take (k + 1)) =
      data.take (k + 1) := by
    unfold splice
    rw [hlen, List.take_zero, List.drop_of_length_le (by simp)]
    simp
  have hwrite : writeAt 0 (data.take (k + 1)) (List.replicate (k + 1) 0) =
      .ok ((), data.take (k + 1)) := by
    rw [writeAt, if_pos (by rw [hlen, List.length_replicate]; omega), hwhole]
  have hend : writeAt k [0] (data.take (k + 1)) = .ok ((), data.take k ++ [0]) := by
    rw [writeAt, if_pos (by rw [hlen]; simp), splice, List.drop_of_length_le (by rw [hlen]; simp),
      List.append_nil, List.take_take, Nat.min_eq_left (by omega)]
  simp only [fillString, hwrite, except_ok_bind, hend]
  rfl

theorem fillString_whole (data : List UInt8) : fillString data.length data none = .ok data := by
  have hwhole : splice (List.replicate data.length (0 : UInt8)) 0 data = data := by
    unfold splice
    rw [List.take_zero, List.drop_of_length_le (by simp)]
    simp
  have hwrite : writeAt 0 data (List.replicate data.length 0) = .ok ((), data) := by
    rw [writeAt, if_pos (by rw [List.length_replicate]; omega), hwhole]
  simp only [fillString, hwrite, except_ok_bind]
  rfl

/-- The first line is removed and comes with a NUL in place of its newline. -/
theorem dataBufferReadLine_spec (h : IsBuffer heap buffer xs)
    (hsmall : (contents xs).length < 2 ^ 31) :
    match (contents xs).findIdx? (· = 10) with
    | none => dataBufferReadLine heap buffer = .ok (heap, buffer, none)
    | some k => ∃ heap' buffer' xs', dataBufferReadLine heap buffer =
          .ok (heap', buffer', some ((contents xs).take k ++ [0])) ∧
        IsBuffer heap' buffer' xs' ∧ Touches heap heap' xs xs' ∧
        contents xs' = (contents xs).drop (k + 1) := by
  unfold dataBufferReadLine
  rw [dataBufferFind_spec h]
  cases hfind : (contents xs).findIdx? (· = 10) with
  | none => rfl
  | some k =>
    have hk := findIdx?_lt hfind
    obtain ⟨heap', buffer', xs', hread, hbuffer, htouch, hcont⟩ :=
      dataBufferRead_spec h hsmall (k + 1)
    refine ⟨heap', buffer', xs', ?_, hbuffer, htouch, hcont⟩
    simp only [Option.map_some, except_ok_bind, ofNat_succ_size (k := k) (by omega), hread,
      sizeOfInt_ofNat (n := k) (by omega), fillString_terminated _ k hk]
    rfl

theorem dataBufferParseString0_spec (h : IsBuffer heap buffer xs)
    (hsmall : (contents xs).length < 2 ^ 31) :
    match (contents xs).findIdx? (· = 0) with
    | none => dataBufferParseString0 heap buffer = .ok (heap, buffer, none)
    | some k => ∃ heap' buffer' xs', dataBufferParseString0 heap buffer =
          .ok (heap', buffer', some ((contents xs).take (k + 1))) ∧
        IsBuffer heap' buffer' xs' ∧ Touches heap heap' xs xs' ∧
        contents xs' = (contents xs).drop (k + 1) := by
  unfold dataBufferParseString0
  rw [dataBufferIndexOf_spec h]
  cases hfind : (contents xs).findIdx? (· = 0) with
  | none =>
    simp only [Option.elim_none, except_ok_bind]
    rw [if_pos (by decide)]
    rfl
  | some k =>
    have hk := findIdx?_lt hfind
    obtain ⟨heap', buffer', xs', hread, hbuffer, htouch, hcont⟩ :=
      dataBufferRead_spec h hsmall (k + 1)
    refine ⟨heap', buffer', xs', ?_, hbuffer, htouch, hcont⟩
    have hlen : ((contents xs).take (k + 1)).length = k + 1 := by
      rw [List.length_take]
      omega
    have hfill := fillString_whole ((contents xs).take (k + 1))
    rw [hlen] at hfill
    have hnonneg : ¬ Int32.ofNat k < 0 := by
      rw [Int32.lt_iff_toInt_lt, int32_ofNat_toInt (by omega)]
      change ¬ (k : ℤ) < 0
      omega
    simp only [Option.elim_some, except_ok_bind]
    rw [if_neg hnonneg, ofNat_succ_size (by omega), hread]
    simp only [except_ok_bind, hfill]
    rfl

theorem firstByte_walk : ∀ (frags : List Fragment), (∀ frag ∈ frags, frag.Valid) →
    ∀ (c : UInt8) (bs : List UInt8), fragmentBytes frags = c :: bs → ∃ frag : Fragment,
    walkList (fun (_ : Unit) (frag : Fragment) =>
      if frag.bufLength > 0 then .inr (some frag) else .inl ()) (fun _ => none) frags () =
        some frag ∧ frag.data[frag.bufStart]? = some c := by
  intro frags
  induction frags with
  | nil => exact fun _ c bs h => absurd h (by simp [fragmentBytes])
  | cons frag frags ih =>
    intro hvalid c bs hbytes
    have hlen := (hvalid frag List.mem_cons_self).length_bytes
    rw [fragmentBytes_cons] at hbytes
    by_cases hpos : frag.bufLength > 0
    · refine ⟨frag, by rw [walkList, if_pos hpos], ?_⟩
      have hfirst : frag.bytes[0]? = some c := by
        have h0 : (frag.bytes ++ fragmentBytes frags)[0]? = some c := by rw [hbytes]; rfl
        rwa [List.getElem?_append_left (by omega)] at h0
      unfold Fragment.bytes at hfirst
      rwa [List.getElem?_take_of_lt hpos, List.getElem?_drop, Nat.add_zero] at hfirst
    · have hnil : frag.bytes = [] := List.eq_nil_of_length_eq_zero (by omega)
      rw [hnil, List.nil_append] at hbytes
      obtain ⟨frag', hwalk, hget⟩ := ih (fun f hf => hvalid f (List.mem_cons_of_mem _ hf)) c bs hbytes
      refine ⟨frag', ?_, hget⟩
      rw [walkList, if_neg hpos]
      exact hwalk

/-- The first byte as an `int`, or -1. -/
def firstChar : List UInt8 → Int32
  | [] => -1
  | c :: _ => Int32.ofNat c.toNat

theorem dataBufferPeekChar_spec (h : IsBuffer heap buffer xs) :
    dataBufferPeekChar heap buffer = .ok (firstChar (contents xs)) := by
  unfold dataBufferPeekChar
  rw [h.size]
  cases hbytes : contents xs with
  | nil => rfl
  | cons c bs =>
    obtain ⟨frag, hwalk, hget⟩ := firstByte_walk _ h.toIsChain.valid_map c bs
      ((fragmentBytes_eq xs).trans hbytes)
    rw [if_neg (by simp), DataBuffer.walk_eq h.toIsChain]
    simp only [except_ok_bind]
    rw [hwalk]
    simp only [hget]
    rfl

theorem dataBufferReadChar_spec (h : IsBuffer heap buffer xs)
    (hsmall : (contents xs).length < 2 ^ 31) : ∃ heap' buffer' xs',
      dataBufferReadChar heap buffer = .ok (heap', buffer', firstChar (contents xs)) ∧
      IsBuffer heap' buffer' xs' ∧ Touches heap heap' xs xs' ∧
      contents xs' = (contents xs).drop 1 := by
  obtain ⟨heap', buffer', xs', hread, hbuffer, htouch, hcont⟩ := dataBufferRead_spec h hsmall 1
  refine ⟨heap', buffer', xs', ?_, hbuffer, htouch, hcont⟩
  unfold dataBufferReadChar
  rw [hread]
  cases contents xs <;> rfl

/-! ## Files -/

/-- How many bytes `writev` takes, and what is returned. -/
def WritevOutcome.taken (outcome : WritevOutcome) (iov : List (List UInt8)) : ℕ × Int32 :=
  match outcome with
  | .accepts count => (min count iov.flatten.length, Int32.ofNat (min count iov.flatten.length))
  | .ignorable => (0, 0)
  | .fails => (0, -1)

theorem finishWritev_spec (h : IsBuffer heap buffer xs) (hsmall : (contents xs).length < 2 ^ 31)
    {iov : List (List UInt8)} (hiov : iov.flatten <+: contents xs) (outcome : WritevOutcome) :
    ∃ heap' buffer' xs', finishWritev heap buffer iov outcome =
        .ok (heap', buffer', (outcome.taken iov).2) ∧
      IsBuffer heap' buffer' xs' ∧ Touches heap heap' xs xs' ∧
      contents xs' = (contents xs).drop (outcome.taken iov).1 := by
  cases outcome with
  | ignorable =>
    exact ⟨heap, buffer, xs, rfl, h, .refl heap xs, rfl⟩
  | fails =>
    exact ⟨heap, buffer, xs, rfl, h, .refl heap xs, rfl⟩
  | accepts count =>
    have hle := hiov.length_le
    obtain ⟨k, hk⟩ : ∃ k, k = min count iov.flatten.length := ⟨_, rfl⟩
    have hkint : (Int32.ofNat k).toInt = k := int32_ofNat_toInt (by omega)
    have hrv : (WritevOutcome.accepts count).rv iov = Int32.ofNat k := by
      rw [hk]
      rfl
    have htaken : (WritevOutcome.accepts count).taken iov = (k, Int32.ofNat k) := by
      rw [hk]
      rfl
    have hneg : ¬ (Int32.ofNat k < 0 ∧ WritevOutcome.accepts count = .ignorable) := by simp
    rw [htaken]
    simp only [finishWritev, hrv, if_neg hneg]
    by_cases hzero : k = 0
    · rw [hzero, if_pos (by decide)]
      exact ⟨heap, buffer, xs, rfl, h, .refl heap xs, rfl⟩
    · have hpos : ¬ Int32.ofNat k ≤ 0 := by
        rw [Int32.le_iff_toInt_le, hkint]
        change ¬ (k : ℤ) ≤ 0
        omega
      obtain ⟨heap', buffer', xs', hdiscard, hbuffer, htouch, hcont⟩ :=
        dataBufferDiscard_spec h hsmall k
      refine ⟨heap', buffer', xs', ?_, hbuffer, htouch, hcont⟩
      rw [if_neg hpos, sizeOfInt_ofNat (by omega), hdiscard]
      rfl

theorem dataBufferWritev_spec (h : IsBuffer heap buffer xs)
    (hsmall : (contents xs).length < 2 ^ 31) (outcome : WritevOutcome) :
    ∃ heap' buffer' xs' iov, dataBufferWritev heap buffer outcome =
        .ok (heap', buffer', iov, (outcome.taken iov).2) ∧
      iov.flatten <+: contents xs ∧ IsBuffer heap' buffer' xs' ∧ Touches heap heap' xs xs' ∧
      contents xs' = (contents xs).drop (outcome.taken iov).1 := by
  have hiov := writev_prefix (xs.map Prod.snd) maxFragmentsToWrite
  rw [fragmentBytes_eq] at hiov
  obtain ⟨heap', buffer', xs', hfinish, hbuffer, htouch, hcont⟩ :=
    finishWritev_spec h hsmall hiov outcome
  refine ⟨heap', buffer', xs', _, ?_, hiov, hbuffer, htouch, hcont⟩
  unfold dataBufferWritev
  rw [DataBuffer.walk_eq h.toIsChain, writev_walk, List.nil_append]
  simp only [except_ok_bind, hfinish]
  rfl

theorem dataBufferWritevLen_spec (h : IsBuffer heap buffer xs)
    (hsmall : (contents xs).length < 2 ^ 31) (maxBytes : ℕ) (outcome : WritevOutcome) :
    ∃ heap' buffer' xs' iov, dataBufferWritevLen heap buffer maxBytes outcome =
        .ok (heap', buffer', iov, (outcome.taken iov).2) ∧
      iov.flatten <+: (contents xs).take maxBytes ∧ IsBuffer heap' buffer' xs' ∧
      Touches heap heap' xs xs' ∧ contents xs' = (contents xs).drop (outcome.taken iov).1 := by
  obtain ⟨iov, hwalk, hiov⟩ := writevLen_walk (xs.map Prod.snd) maxFragmentsToWrite maxBytes []
    h.toIsChain.valid_map
  rw [fragmentBytes_eq] at hiov
  obtain ⟨heap', buffer', xs', hfinish, hbuffer, htouch, hcont⟩ :=
    finishWritev_spec h hsmall (hiov.trans (List.take_prefix _ _)) outcome
  refine ⟨heap', buffer', xs', iov, ?_, hiov, hbuffer, htouch, hcont⟩
  unfold dataBufferWritevLen
  rw [DataBuffer.walk_eq h.toIsChain, hwalk, List.nil_append]
  simp only [except_ok_bind, hfinish]
  rfl

end

theorem dataBufferReadInFd_spec {heap : FragmentHeap} {buffer : DataBuffer}
    {xs : List (ℕ × Fragment)} (h : IsBuffer heap buffer xs) (received : Option (List UInt8)) :
    ∃ heap' buffer' xs', dataBufferReadInFd heap buffer received =
        .ok (heap', buffer', received.elim (-1) fun data => Int32.ofNat data.length) ∧
      IsBuffer heap' buffer' xs' ∧ Touches heap heap' xs xs' ∧
      contents xs' = contents xs ++ received.getD [] := by
  cases received with
  | none => exact ⟨heap, buffer, xs, rfl, h, .refl heap xs, (List.append_nil _).symm⟩
  | some data =>
    obtain ⟨heap', buffer', xs', happ, hbuffer, htouch, hcont⟩ := dataBufferAppend_spec h data
    refine ⟨heap', buffer', xs', ?_, hbuffer, htouch, hcont⟩
    unfold dataBufferReadInFd
    simp only [happ, except_ok_bind]
    rfl

/-! ## Moving -/

/-- Two chains have no fragment in common. -/
def Apart (xs ys : List (ℕ × Fragment)) : Prop := ∀ i ∈ addresses ys, i ∉ addresses xs

theorem Apart.symm {xs ys : List (ℕ × Fragment)} (h : Apart xs ys) : Apart ys xs :=
  fun i hi hmem => h i hmem hi

theorem IsChain.kept {heap heap' : FragmentHeap} {buffer : DataBuffer}
    {xs xs' ys : List (ℕ × Fragment)} (h : IsChain heap buffer ys)
    (htouch : Touches heap heap' xs xs') (hapart : Apart xs ys) :
    IsChain heap' buffer ys ∧ Apart xs' ys := by
  have hstore := h.chain.store_eq
  refine ⟨⟨h.chain.congr fun y hy => ?_, h.last, h.valid⟩, fun i hi hmem => ?_⟩
  · exact htouch.kept y.1 y.2 (hapart y.1 (List.mem_map_of_mem hy)) (hstore y hy)
  · obtain hold | hnone := htouch.fresh i hmem
    · exact hapart i hi hold
    · obtain ⟨y, hy, rfl⟩ := List.mem_map.mp hi
      rw [hstore y hy] at hnone
      exact absurd hnone (by simp)

theorem IsChain.link {heap : FragmentHeap} {dst src : DataBuffer} {zs ys : List (ℕ × Fragment)}
    {j : ℕ} {frag : Fragment} (hdst : IsChain heap dst (zs ++ [(j, frag)]))
    (hsrc : IsChain heap src ys) (hne : ys ≠ []) (hapart : Apart (zs ++ [(j, frag)]) ys) :
    let frag' := { frag with next := src.firstFrag }
    IsChain (heap.set j (some frag')) { dst with lastFrag := src.lastFrag }
        (zs ++ [(j, frag')] ++ ys) ∧
      ∀ (i : ℕ) (fr : Fragment), i ≠ j → heap.get i = some fr →
        (heap.set j (some frag')).get i = some fr := by
  intro frag'
  obtain ⟨hzs, hget, -⟩ := chain_concat.mp hdst.chain
  have hnodup := hdst.chain.nodup
  rw [addresses, List.map_append, List.map_singleton] at hnodup
  have hset := FragmentHeap.get_set hget (some frag')
  have hkept : ∀ (i : ℕ) (fr : Fragment), i ≠ j → heap.get i = some fr →
      (heap.set j (some frag')).get i = some fr := by
    intro i fr hi hgeti
    rw [hset, if_neg hi, hgeti]
  refine ⟨⟨?_, ?_, ?_⟩, hkept⟩
  · refine chain_append.mpr ⟨src.firstFrag, chain_concat.mpr ⟨hzs.congr fun x hx => ?_, ?_, rfl⟩,
      hsrc.chain.congr fun y hy => ?_⟩
    · refine hkept x.1 x.2 (fun heq => ?_) (hzs.store_eq x hx)
      exact (List.nodup_append.mp hnodup).2.2 x.1 (List.mem_map_of_mem hx) j (by simp) heq
    · rw [hset, if_pos rfl]
    · refine hkept y.1 y.2 (fun heq => ?_) (hsrc.chain.store_eq y hy)
      exact hapart y.1 (List.mem_map_of_mem hy) (by simp [addresses, heq])
  · change src.lastFrag = _
    rw [hsrc.last, List.getLast?_append_of_ne_nil _ hne]
  · intro x hx
    obtain hx | hx := List.mem_append.mp hx
    · obtain hx | hx := List.mem_append.mp hx
      · exact hdst.valid x (List.mem_append_left _ hx)
      · have hv := hdst.valid (j, frag) (by simp)
        rw [List.mem_singleton.mp hx]
        exact ⟨hv.data, hv.range⟩
    · exact hsrc.valid x hx

theorem dataBufferDrain_spec {heap : FragmentHeap} {dst src : DataBuffer}
    {xs ys : List (ℕ × Fragment)} (hdst : IsBuffer heap dst xs) (hsrc : IsBuffer heap src ys)
    (hapart : Apart xs ys) :
    ∃ heap' dst' src' xs', dataBufferDrain heap dst src =
        .ok (heap', dst', src', (contents ys).length) ∧
      IsBuffer heap' dst' xs' ∧ IsBuffer heap' src' [] ∧
      Touches heap heap' (xs ++ ys) xs' ∧ contents xs' = contents xs ++ contents ys := by
  unfold dataBufferDrain
  rw [hsrc.size]
  cases ys with
  | nil =>
    have hnone : src.firstFrag = none := hsrc.chain
    rw [hnone, List.append_nil]
    exact ⟨heap, dst, src, xs, rfl, hdst, hsrc, .refl heap xs, (List.append_nil _).symm⟩
  | cons y ys =>
    have hsome : src.firstFrag = some y.1 := hsrc.chain.1
    rw [hsome, hdst.last]
    simp only [Option.isNone_some, Bool.false_eq_true, if_false]
    obtain rfl | ⟨zs, x, rfl⟩ := xs.eq_nil_or_concat
    · refine ⟨heap, _, dataBufferInit, y :: ys, rfl, ⟨⟨?_, hsrc.last, hsrc.valid⟩, ?_⟩,
        isBuffer_init heap, .refl heap _, rfl⟩
      · rw [← hsome]
        exact hsrc.chain
      · change dst.size + (contents (y :: ys)).length = _
        rw [hdst.size]
        exact Nat.zero_add _
    · obtain ⟨j, frag⟩ := x
      rw [List.concat_eq_append] at hdst hapart ⊢
      obtain ⟨-, hget, -⟩ := chain_concat.mp hdst.chain
      obtain ⟨hlink, hkept⟩ := hdst.toIsChain.link hsrc.toIsChain (List.cons_ne_nil y ys) hapart
      rw [List.getLast?_concat]
      simp only [Option.map_some, FragmentHeap.modify_ok hget, except_ok_bind, ← hsome]
      have hcont : contents (zs ++ [(j, { frag with next := src.firstFrag })] ++ y :: ys) =
          contents (zs ++ [(j, frag)]) ++ contents (y :: ys) := by
        simp only [contents_append, contents_cons, contents_nil, List.append_nil]
        rfl
      refine ⟨_, { dst with
          size := dst.size + (contents (y :: ys)).length
          lastFrag := src.lastFrag }, dataBufferInit, _, rfl, ⟨⟨hlink.chain, hlink.last,
        hlink.valid⟩, ?_⟩, isBuffer_init _, ⟨fun i fr hi hgeti => ?_, fun i hi => ?_⟩, hcont⟩
      · change dst.size + (contents (y :: ys)).length = _
        rw [hcont, List.length_append, hdst.size]
      · refine hkept i fr (fun heq => hi ?_) hgeti
        simp [addresses, heq]
      · left
        simpa [addresses] using hi

/-- The part of a round of the loop that hangs a fragment behind the last one of `dst`. -/
def hangBehind (heap : FragmentHeap) (dst : DataBuffer) (first : ℕ) :
    Except Fault (FragmentHeap × DataBuffer) := do
  let (heap, dst) ← match dst.lastFrag with
    | some last => do
        let heap ← heap.modify last fun frag => { frag with next := some first }
        pure (heap, dst)
    | none => pure (heap, { dst with firstFrag := some first })
  return (heap, { dst with lastFrag := some first })

theorem hangBehind_spec {heap : FragmentHeap} {dst src : DataBuffer} {xs ys : List (ℕ × Fragment)}
    {i : ℕ} {frag : Fragment} (hdst : IsChain heap dst xs) (hsrc : IsChain heap src ((i, frag) :: ys))
    (hapart : Apart xs ((i, frag) :: ys)) :
    ∃ heap' dst' xs', hangBehind (heap.set i (some { frag with next := none })) dst i =
        .ok (heap', dst') ∧ IsChain heap' dst' xs' ∧
      IsChain heap' { src with
        firstFrag := frag.next
        lastFrag := if frag.next.isNone then none else src.lastFrag } ys ∧
      Apart xs' ys ∧ addresses (xs' ++ ys) = addresses (xs ++ (i, frag) :: ys) ∧
      (∀ (k : ℕ) (fr : Fragment), k ∉ addresses (xs ++ (i, frag) :: ys) → heap.get k = some fr →
        heap'.get k = some fr) ∧
      contents xs' = contents xs ++ frag.bytes ∧ dst'.size = dst.size := by
  obtain ⟨-, hget, hrest⟩ := hsrc.chain
  have hnodup := hsrc.chain.nodup
  have hiys : i ∉ addresses ys := (List.nodup_cons.mp hnodup).1
  have hixs : i ∉ addresses xs := hapart i (by simp [addresses])
  have hvalid : Fragment.Valid { frag with next := none } := by
    have hv := hsrc.valid (i, frag) List.mem_cons_self
    exact ⟨hv.data, hv.range⟩
  have hset := FragmentHeap.get_set hget (some { frag with next := none })
  have hkept₁ : ∀ (k : ℕ) (fr : Fragment), k ≠ i → heap.get k = some fr →
      (heap.set i (some { frag with next := none })).get k = some fr := by
    intro k fr hk hgetk
    rw [hset, if_neg hk, hgetk]
  have hout : ∀ (zs : List (ℕ × Fragment)), i ∉ addresses zs → ∀ z ∈ zs, z.1 ≠ i := by
    intro zs hi z hz heq
    exact hi (heq ▸ List.mem_map_of_mem hz)
  have hsrc₁ : IsChain (heap.set i (some { frag with next := none })) { src with
      firstFrag := frag.next
      lastFrag := if frag.next.isNone then none else src.lastFrag } ys := by
    obtain ⟨hpop, -⟩ := hsrc.pop
    exact ⟨hrest.congr fun y hy => hkept₁ y.1 y.2 (hout ys hiys y hy) (hrest.store_eq y hy),
      hpop.last, hpop.valid⟩
  have hdst₁ : IsChain (heap.set i (some { frag with next := none })) dst xs :=
    ⟨hdst.chain.congr fun x hx => hkept₁ x.1 x.2 (hout xs hixs x hx) (hdst.chain.store_eq x hx),
      hdst.last, hdst.valid⟩
  have hone : IsChain (heap.set i (some { frag with next := none })) ⟨0, some i, some i⟩
      [(i, { frag with next := none })] := by
    refine ⟨⟨rfl, ?_, rfl⟩, rfl, fun x hx => ?_⟩
    · rw [hset, if_pos rfl]
    · rw [List.mem_singleton.mp hx]
      exact hvalid
  have hys : Apart xs ys := fun k hk => hapart k (List.mem_cons_of_mem i hk)
  unfold hangBehind
  rw [hdst.last]
  obtain rfl | ⟨zs, x, rfl⟩ := xs.eq_nil_or_concat
  · refine ⟨_, _, [(i, { frag with next := none })], rfl, ⟨hone.chain, rfl, hone.valid⟩, hsrc₁,
      ?_, rfl, fun k fr hk hgetk => hkept₁ k fr (fun heq => hk ?_) hgetk, List.append_nil _, rfl⟩
    · intro k hk hmem
      obtain rfl : k = i := by simpa [addresses] using hmem
      exact hiys hk
    · simp [addresses, heq]
  · obtain ⟨j, last⟩ := x
    rw [List.concat_eq_append] at hdst hdst₁ hapart hixs hys ⊢
    have hji : j ≠ i := hout _ hixs (j, last) (by simp)
    obtain ⟨-, hget₁, -⟩ := chain_concat.mp hdst₁.chain
    obtain ⟨hlink, hkept₂⟩ := hdst₁.link hone (by simp) (by
      intro k hk hmem
      obtain rfl : k = i := by simpa [addresses] using hk
      exact hixs hmem)
    rw [List.getLast?_concat]
    simp only [Option.map_some, FragmentHeap.modify_ok hget₁, except_ok_bind]
    refine ⟨_, _, _, rfl, ⟨hlink.chain, hlink.last, hlink.valid⟩, ⟨hsrc₁.chain.congr fun y hy => ?_,
      hsrc₁.last, hsrc₁.valid⟩, ?_, ?_, ?_, ?_, rfl⟩
    · refine hkept₂ y.1 y.2 (fun heq => ?_) (hsrc₁.chain.store_eq y hy)
      exact hys y.1 (List.mem_map_of_mem hy) (by simp [addresses, heq])
    · intro k hk hmem
      simp only [addresses, List.map_append, List.map_cons, List.map_nil, List.mem_append,
        List.mem_singleton, or_assoc] at hmem
      obtain hz | hj | hki := hmem
      · exact hys k hk (by simp only [addresses, List.map_append, List.mem_append]; exact .inl hz)
      · exact hys k hk (by simp [addresses, hj])
      · exact hiys (hki ▸ hk)
    · simp [addresses]
    · intro k fr hk hgetk
      refine hkept₂ k fr (fun heq => hk ?_) (hkept₁ k fr (fun heq => hk ?_) hgetk)
      · simp [addresses, heq]
      · simp [addresses, heq]
    · simp only [contents_append, contents_cons, contents_nil, List.append_nil]
      rfl

theorem transferLoop_spec : ∀ {ys xs : List (ℕ × Fragment)} (fuel : ℕ) {heap : FragmentHeap}
    {dst src : DataBuffer} (maxTransfer rv : ℕ), IsChain heap dst xs → IsChain heap src ys →
    Apart xs ys → ys.length ≤ fuel → ∃ heap' dst' src' xs' ys' moved,
      transferLoop fuel heap dst src maxTransfer rv =
        .ok (heap', dst', src', maxTransfer - moved, rv + moved) ∧
      IsChain heap' dst' xs' ∧ IsChain heap' src' ys' ∧ Apart xs' ys' ∧
      Touches heap heap' (xs ++ ys) (xs' ++ ys') ∧
      moved ≤ maxTransfer ∧ moved ≤ (contents ys).length ∧
      contents xs' = contents xs ++ (contents ys).take moved ∧
      contents ys' = (contents ys).drop moved ∧ dst'.size = dst.size ∧ src'.size = src.size ∧
      ∀ y ∈ ys'.head?, maxTransfer - moved < y.2.bufLength := by
  intro ys
  induction ys with
  | nil =>
    intro xs fuel heap dst src maxTransfer rv hdst hsrc hapart _
    have hnone : src.firstFrag = none := hsrc.chain
    refine ⟨heap, dst, src, xs, [], 0, ?_, hdst, hsrc, hapart, .refl heap _, Nat.zero_le _,
      Nat.zero_le _, by simp, rfl, rfl, rfl, fun y hy => absurd hy (by simp)⟩
    unfold transferLoop
    rw [hnone]
    rfl
  | cons y ys ih =>
    intro xs fuel heap dst src maxTransfer rv hdst hsrc hapart hfuel
    obtain ⟨i, frag⟩ := y
    obtain ⟨hfirst, hget, -⟩ := hsrc.chain
    have hlen : frag.bytes.length = frag.bufLength :=
      (hsrc.valid (i, frag) List.mem_cons_self).length_bytes
    obtain ⟨fuel, rfl⟩ : ∃ n, fuel = n + 1 := ⟨fuel - 1, by simp at hfuel; omega⟩
    by_cases hfits : maxTransfer ≥ frag.bufLength
    · obtain ⟨h₁, dst₁, xs₁, hhang, hdst₁, hsrc₁, hapart₁, haddr, hkept, hcont, hsize⟩ :=
        hangBehind_spec hdst hsrc hapart
      have htouch₁ : Touches heap h₁ (xs ++ (i, frag) :: ys) (xs₁ ++ ys) :=
        ⟨hkept, fun k hk => .inl (haddr ▸ hk)⟩
      obtain ⟨heap', dst', src', xs', ys', moved, hloop, hdst', hsrc', hapart', htouch, hmax, hle,
        hcont', hrest, hsize', hsize'', hstop⟩ := ih fuel (maxTransfer - frag.bufLength)
          (rv + frag.bufLength) hdst₁ hsrc₁ hapart₁ (by simpa using hfuel)
      refine ⟨heap', dst', src', xs', ys', frag.bufLength + moved, ?_, hdst', hsrc', hapart',
        htouch₁.trans htouch, by omega, ?_, ?_, ?_, hsize'.trans hsize, hsize'', ?_⟩
      · have hround : transferLoop (fuel + 1) heap dst src maxTransfer rv =
            (hangBehind (heap.set i (some { frag with next := none })) dst i).bind fun r =>
              transferLoop fuel r.1 r.2 { src with
                firstFrag := frag.next
                lastFrag := if frag.next.isNone then none else src.lastFrag }
                (maxTransfer - frag.bufLength) (rv + frag.bufLength) := by
          rw [transferLoop, hfirst]
          simp only [FragmentHeap.load_ok hget, FragmentHeap.modify_ok hget, except_ok_bind,
            if_pos hfits]
          unfold hangBehind
          cases dst.lastFrag with
          | none => rfl
          | some last =>
            simp only [bind, Except.bind]
            cases FragmentHeap.modify (heap.set i (some { frag with next := none })) last
              (fun frag => { frag with next := some i }) with
            | error f => rfl
            | ok h => rfl
        rw [hround, hhang, show maxTransfer - (frag.bufLength + moved) =
          maxTransfer - frag.bufLength - moved by omega, ← Nat.add_assoc]
        exact hloop
      · rw [contents_cons, List.length_append]
        change _ ≤ frag.bytes.length + _
        omega
      · rw [hcont', hcont, contents_cons, List.append_assoc]
        change _ ++ (frag.bytes ++ _) = _ ++ (frag.bytes ++ contents ys).take _
        rw [← hlen, List.take_length_add_append]
      · rw [hrest, contents_cons]
        change _ = (frag.bytes ++ contents ys).drop _
        rw [← hlen, List.drop_length_add_append]
      · intro y hy
        have := hstop y hy
        omega
    · refine ⟨heap, dst, src, xs, (i, frag) :: ys, 0, ?_, hdst, hsrc, hapart, .refl heap _,
        Nat.zero_le _, Nat.zero_le _, by simp, rfl, rfl, rfl, fun y hy => ?_⟩
      · rw [transferLoop, hfirst]
        simp only [FragmentHeap.load_ok hget, except_ok_bind, if_neg hfits]
        rfl
      · simp only [List.head?_cons, Option.mem_def, Option.some.injEq] at hy
        rw [← hy]
        change maxTransfer - 0 < frag.bufLength
        omega

/-- `protobuf_c_data_buffer_transfer` moves the first bytes of `src` behind those of `dst`; it counts in
`size_t`. -/
theorem dataBufferTransfer_large {heap : FragmentHeap} {dst src : DataBuffer}
    {xs ys : List (ℕ × Fragment)} (hdst : IsBuffer heap dst xs) (hsrc : IsBuffer heap src ys)
    (hapart : Apart xs ys) (hsize : (contents ys).length < 2 ^ 64) (maxTransfer : ℕ) :
    ∃ heap' dst' src' xs' ys', dataBufferTransfer heap dst src maxTransfer =
        .ok (heap', dst', src', min maxTransfer (contents ys).length) ∧
      IsBuffer heap' dst' xs' ∧ IsBuffer heap' src' ys' ∧ Apart xs' ys' ∧
      Touches heap heap' (xs ++ ys) (xs' ++ ys') ∧
      contents xs' = contents xs ++ (contents ys).take maxTransfer ∧
      contents ys' = (contents ys).drop maxTransfer := by
  obtain ⟨h₁, dst₁, src₁, xs₁, ys₁, moved, hloop, hdst₁, hsrc₁, hapart₁, htouch₁, hmax, hle, hcont,
    hrest, hdstsize, hsrcsize, hstop⟩ := transferLoop_spec (heap.fuel + 1) maxTransfer 0 hdst.toIsChain
      hsrc.toIsChain hapart (Nat.le_succ_of_le hsrc.toIsChain.length_le)
  rw [Nat.zero_add] at hloop
  have hbuffer₁ : IsBuffer h₁ { dst₁ with size := dst₁.size + moved } xs₁ := by
    refine ⟨⟨hdst₁.chain, hdst₁.last, hdst₁.valid⟩, ?_⟩
    change dst₁.size + moved = _
    rw [hcont, List.length_append, List.length_take, hdstsize, hdst.size, Nat.min_eq_left hle]
  have hsize₁ : src₁.size = (contents ys).length := by rw [hsrcsize, hsrc.size]
  -- the loop took everything that `maxTransfer` allows
  have hdone : maxTransfer - moved = 0 ∨ ys₁ = [] →
      min maxTransfer (contents ys).length = moved ∧
      (contents ys).take moved = (contents ys).take maxTransfer ∧
      (contents ys).drop moved = (contents ys).drop maxTransfer := by
    intro hcase
    obtain hall | hnil := hcase
    · obtain rfl : maxTransfer = moved := by omega
      exact ⟨by omega, rfl, rfl⟩
    · have hlen : (contents ys).length ≤ moved := by
        rw [hnil, contents_nil] at hrest
        have := congrArg List.length hrest
        rw [List.length_drop, List.length_nil] at this
        omega
      refine ⟨by omega, ?_, ?_⟩
      · rw [List.take_of_length_le hlen, List.take_of_length_le (hlen.trans hmax)]
      · rw [List.drop_of_length_le hlen, List.drop_of_length_le (hlen.trans hmax)]
  have hsub : addSize src₁.size (-(moved : ℤ)) = (contents ys).length - moved := by
    rw [hsize₁]
    exact addSize_neg hle (by omega)
  unfold dataBufferTransfer
  rw [hloop]
  simp only [except_ok_bind]
  cases ys₁ with
  | nil =>
    have hnone : src₁.firstFrag = none := hsrc₁.chain
    obtain ⟨hmin, htake, hdrop⟩ := hdone (.inr rfl)
    rw [hnone, hmin, ← htake, ← hdrop]
    refine ⟨h₁, _, { src₁ with size := (contents ys).length - moved }, xs₁, [], ?_, hbuffer₁,
      ⟨⟨hsrc₁.chain, hsrc₁.last, hsrc₁.valid⟩, ?_⟩, hapart₁, htouch₁, hcont, hrest⟩
    · simp only [hsub, hnone]
      rfl
    · rw [hrest, List.length_drop]
  | cons y zs =>
    obtain ⟨i, frag⟩ := y
    obtain ⟨hfirst, hget, -⟩ := hsrc₁.chain
    rw [hfirst]
    simp only
    by_cases hzero : maxTransfer - moved ≠ 0
    · -- the first bytes of the next fragment are copied
      have hvalid := hsrc₁.valid (i, frag) List.mem_cons_self
      have hfraglen : frag.bytes.length = frag.bufLength := hvalid.length_bytes
      have hfrag : maxTransfer - moved < frag.bufLength := hstop (i, frag) rfl
      have hrange : frag.bufStart + frag.bufLength ≤ fragmentDataSize := hvalid.range
      rw [if_pos hzero, FragmentHeap.load_ok hget]
      simp only [except_ok_bind]
      obtain ⟨h₂, dst₂, xs₂, happ, hdst₂, htouch₂, hcont₂⟩ :=
        dataBufferAppend_spec hbuffer₁ (frag.bytes.take (maxTransfer - moved))
      obtain ⟨hsrc₂, hapart₂⟩ := hsrc₁.kept htouch₂ hapart₁
      obtain ⟨-, hget₂, -⟩ := hsrc₂.chain
      obtain ⟨hsrc₃, htouch₃⟩ := hsrc₂.replace_first
        (show Fragment.next { frag with
          bufStart := frag.bufStart + (maxTransfer - moved)
          bufLength := frag.bufLength - (maxTransfer - moved) } = frag.next from rfl)
        ⟨hvalid.data, by
          change frag.bufStart + (maxTransfer - moved) + (frag.bufLength - (maxTransfer - moved)) ≤ _
          omega⟩
      obtain ⟨hdst₃, hapart₃⟩ := hdst₂.toIsChain.kept htouch₃ hapart₂.symm
      have hys : contents ys = (contents ys).take moved ++ (frag.bytes ++ contents zs) := by
        have hcons : (contents ys).drop moved = frag.bytes ++ contents zs := by
          rw [← hrest]
          rfl
        rw [← hcons, List.take_append_drop]
      have htakelen : ((contents ys).take moved).length = moved := by
        rw [List.length_take, Nat.min_eq_left hle]
      have hlong : maxTransfer ≤ (contents ys).length := by
        have := congrArg List.length hys
        rw [List.length_append, htakelen, List.length_append] at this
        omega
      have htake : (contents ys).take maxTransfer =
          (contents ys).take moved ++ frag.bytes.take (maxTransfer - moved) := by
        conv_lhs => rw [hys]
        rw [List.take_append, htakelen, List.take_of_length_le (by omega),
          List.take_append_of_le_length (by omega)]
      have hdrop : (contents ys).drop maxTransfer =
          frag.bytes.drop (maxTransfer - moved) ++ contents zs := by
        conv_lhs => rw [hys]
        rw [List.drop_append, htakelen, List.drop_of_length_le (by omega), List.nil_append,
          List.drop_append_of_le_length (by omega)]
      have hlast : contents ((i, { frag with
          bufStart := frag.bufStart + (maxTransfer - moved)
          bufLength := frag.bufLength - (maxTransfer - moved) }) :: zs) =
          (contents ys).drop maxTransfer := by
        rw [hdrop, contents_cons]
        congr 1
        change (frag.data.drop (frag.bufStart + (maxTransfer - moved))).take
            (frag.bufLength - (maxTransfer - moved)) =
          ((frag.data.drop frag.bufStart).take frag.bufLength).drop (maxTransfer - moved)
        rw [List.drop_take, List.drop_drop]
      have hrv : moved + (maxTransfer - moved) = maxTransfer := by omega
      have hsub' : addSize src₁.size (-((moved : ℤ) + ((maxTransfer - moved : ℕ) : ℤ))) =
          (contents ys).length - maxTransfer := by
        have hcast : (moved : ℤ) + ((maxTransfer - moved : ℕ) : ℤ) = (maxTransfer : ℤ) := by omega
        rw [hcast, hsize₁]
        exact addSize_neg hlong (by omega)
      rw [happ]
      simp only [except_ok_bind, FragmentHeap.modify_ok hget₂, hrv, hsub']
      rw [Nat.min_eq_left hlong]
      refine ⟨_, dst₂, { src₁ with size := (contents ys).length - maxTransfer }, xs₂, _, ?_,
        ⟨hdst₃, hdst₂.size⟩, ⟨⟨hsrc₃.chain, hsrc₃.last, hsrc₃.valid⟩, ?_⟩, hapart₃.symm, ?_, ?_,
        hlast⟩
      · rw [hfirst]
        rfl
      · rw [hlast, List.length_drop]
      · exact (htouch₁.trans (htouch₂.append_right _)).trans (htouch₃.append_left _)
      · rw [hcont₂, hcont, htake, List.append_assoc]
    · have hmoved : maxTransfer - moved = 0 := by omega
      obtain ⟨hmin, htake, hdrop⟩ := hdone (.inl hmoved)
      rw [if_neg hzero, hmin, ← htake, ← hdrop]
      refine ⟨h₁, _, { src₁ with size := (contents ys).length - moved }, xs₁, (i, frag) :: zs, ?_,
        hbuffer₁, ⟨⟨hsrc₁.chain, hsrc₁.last, hsrc₁.valid⟩, ?_⟩, hapart₁, htouch₁, hcont, hrest⟩
      · simp only [hsub, hfirst]
        rfl
      · rw [hrest, List.length_drop]

theorem dataBufferTransfer_spec {heap : FragmentHeap} {dst src : DataBuffer}
    {xs ys : List (ℕ × Fragment)} (hdst : IsBuffer heap dst xs) (hsrc : IsBuffer heap src ys)
    (hapart : Apart xs ys) (hsmall : (contents ys).length < 2 ^ 31) (maxTransfer : ℕ) :
    ∃ heap' dst' src' xs' ys', dataBufferTransfer heap dst src maxTransfer =
        .ok (heap', dst', src', min maxTransfer (contents ys).length) ∧
      IsBuffer heap' dst' xs' ∧ IsBuffer heap' src' ys' ∧ Apart xs' ys' ∧
      Touches heap heap' (xs ++ ys) (xs' ++ ys') ∧
      contents xs' = contents xs ++ (contents ys).take maxTransfer ∧
      contents ys' = (contents ys).drop maxTransfer :=
  dataBufferTransfer_large hdst hsrc hapart (by omega) maxTransfer

end ProtobufC
