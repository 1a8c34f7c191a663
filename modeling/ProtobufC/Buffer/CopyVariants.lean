import ProtobufC.Buffer.Operations

/-! # The copying variants

`protobuf_c_data_buffer_drain` and `protobuf_c_data_buffer_transfer` as they are compiled under
`GSK_DEBUG_BUFFER_ALLOCATIONS`: they copy the bytes and discard them, and `CHECK_INTEGRITY` is an
assertion.  The other variants relink fragments.  Both do the same as long as an `int` can count what is
discarded.
-/

namespace ProtobufC
open Library
set_option autoImplicit false

/-! ## The code -/

/-- `CHECK_INTEGRITY`, with `verify_buffer` -/
def checkIntegrity (heap : FragmentHeap) (buffer : DataBuffer) : Except Fault Unit := do
  let total ← buffer.walk heap (fun total frag => .inl (total + frag.bufLength)) id 0
  if total = buffer.size then return () else .error .assertion

/-- `protobuf_c_data_buffer_append` with its checks. -/
def checkedAppend (heap : FragmentHeap) (dst : DataBuffer) (data : List UInt8) :
    Except Fault (FragmentHeap × DataBuffer) := do
  checkIntegrity heap dst
  let r ← dataBufferAppend heap dst data
  checkIntegrity r.1 r.2
  return r

/-- `protobuf_c_data_buffer_discard` with its checks. -/
def checkedDiscard (heap : FragmentHeap) (src : DataBuffer) (maxDiscard : ℕ) :
    Except Fault (FragmentHeap × DataBuffer × ℕ) := do
  checkIntegrity heap src
  let r ← dataBufferDiscard heap src maxDiscard
  checkIntegrity r.1 r.2.1
  return r

/-- The loop of the copying `protobuf_c_data_buffer_drain`. -/
def drainCopyLoop : ℕ → FragmentHeap → DataBuffer → Option ℕ → Except Fault (FragmentHeap × DataBuffer)
  | _, heap, dst, none => .ok (heap, dst)
  | 0, _, _, some _ => .error .hang
  | fuel + 1, heap, dst, some i => do
      let frag ← heap.load i
      let r ← checkedAppend heap dst frag.bytes
      drainCopyLoop fuel r.1 r.2 (← r.1.load i).next

/-- `protobuf_c_data_buffer_drain`, copying -/
def dataBufferDrainCopy (heap : FragmentHeap) (dst src : DataBuffer) :
    Except Fault (FragmentHeap × DataBuffer × DataBuffer × ℕ) := do
  let rv := src.size
  checkIntegrity heap dst
  checkIntegrity heap src
  let r ← drainCopyLoop (heap.fuel + 1) heap dst src.firstFrag
  let r' ← checkedDiscard r.1 src src.size
  checkIntegrity r'.1 r.2
  checkIntegrity r'.1 r'.2.1
  return (r'.1, r.2, r'.2.1, rv)

/-- The loop of the copying `protobuf_c_data_buffer_transfer`. -/
def transferCopyLoop : ℕ → FragmentHeap → DataBuffer → Option ℕ → ℕ → ℕ →
    Except Fault (FragmentHeap × DataBuffer × ℕ)
  | _, heap, dst, none, _, rv => .ok (heap, dst, rv)
  | fuel, heap, dst, some i, maxTransfer, rv =>
      if maxTransfer > 0 then
        match fuel with
        | 0 => .error .hang
        | fuel + 1 => do
            let frag ← heap.load i
            let len := frag.bufLength
            if len ≥ maxTransfer then
              let r ← checkedAppend heap dst (frag.bytes.take maxTransfer)
              return (r.1, r.2, rv + maxTransfer)
            else
              let r ← checkedAppend heap dst frag.bytes
              transferCopyLoop fuel r.1 r.2 (← r.1.load i).next (maxTransfer - len) (rv + len)
      else .ok (heap, dst, rv)

/-- `protobuf_c_data_buffer_transfer`, copying -/
def dataBufferTransferCopy (heap : FragmentHeap) (dst src : DataBuffer) (maxTransfer : ℕ) :
    Except Fault (FragmentHeap × DataBuffer × DataBuffer × ℕ) := do
  checkIntegrity heap dst
  checkIntegrity heap src
  let r ← transferCopyLoop (heap.fuel + 1) heap dst src.firstFrag maxTransfer 0
  let r' ← checkedDiscard r.1 src r.2.2
  checkIntegrity r'.1 r.2.1
  checkIntegrity r'.1 r'.2.1
  return (r'.1, r.2.1, r'.2.1, r.2.2)

/-! ## The checks -/

section
variable {heap : FragmentHeap} {buffer : DataBuffer} {xs : List (ℕ × Fragment)}

theorem total_walk (frags : List Fragment) (total : ℕ) (hvalid : ∀ frag ∈ frags, frag.Valid) :
    walkList (fun total (frag : Fragment) => Sum.inl (β := ℕ) (total + frag.bufLength)) id frags total =
      total + (fragmentBytes frags).length := by
  induction frags generalizing total with
  | nil => rfl
  | cons frag frags ih =>
    rw [walkList, fragmentBytes_cons, List.length_append, (hvalid frag (by simp)).length_bytes]
    simp only
    rw [ih _ fun f hf => hvalid f (by simp [hf])]
    omega

theorem checkIntegrity_eq (h : IsChain heap buffer xs) : checkIntegrity heap buffer =
    if (contents xs).length = buffer.size then .ok () else .error .assertion := by
  unfold checkIntegrity
  rw [DataBuffer.walk_eq h, total_walk _ _ h.valid_map, fragmentBytes_eq, Nat.zero_add]
  rfl

theorem checkIntegrity_ok (h : IsBuffer heap buffer xs) : checkIntegrity heap buffer = .ok () := by
  rw [checkIntegrity_eq h.toIsChain, if_pos h.size.symm]

theorem checkedAppend_spec (h : IsBuffer heap buffer xs) (data : List UInt8) :
    ∃ heap' buffer' xs', checkedAppend heap buffer data = .ok (heap', buffer') ∧
      IsBuffer heap' buffer' xs' ∧ Touches heap heap' xs xs' ∧ contents xs' = contents xs ++ data := by
  obtain ⟨heap', buffer', xs', happ, hbuffer, htouch, hcont⟩ := dataBufferAppend_spec h data
  refine ⟨heap', buffer', xs', ?_, hbuffer, htouch, hcont⟩
  unfold checkedAppend
  rw [checkIntegrity_ok h, happ]
  simp only [except_ok_bind, checkIntegrity_ok hbuffer]
  rfl

/-! ## Copying -/

variable {zs : List (ℕ × Fragment)}

/-- The fragments from a place on, as a buffer of their own. -/
def tailOf (zs : List (ℕ × Fragment)) (p : Option ℕ) : DataBuffer := ⟨0, p, zs.getLast?.map Prod.fst⟩

theorem drainCopyLoop_spec (fuel : ℕ) {p : Option ℕ} (hdst : IsBuffer heap buffer xs)
    (hsrc : IsChain heap (tailOf zs p) zs) (hapart : Apart xs zs) (hfuel : zs.length ≤ fuel) :
    ∃ heap' buffer' xs', drainCopyLoop fuel heap buffer p = .ok (heap', buffer') ∧
      IsBuffer heap' buffer' xs' ∧ Touches heap heap' xs xs' ∧
      contents xs' = contents xs ++ contents zs := by
  induction zs generalizing fuel heap buffer xs p with
  | nil =>
    obtain rfl : p = none := hsrc.chain
    refine ⟨heap, buffer, xs, ?_, hdst, .refl heap xs, (List.append_nil _).symm⟩
    cases fuel with
    | zero => rfl
    | succ fuel => rfl
  | cons y zs ih =>
    obtain ⟨i, frag⟩ := y
    obtain ⟨hfirst, hget, hrest⟩ := hsrc.chain
    obtain rfl : p = some i := hfirst
    obtain ⟨fuel, rfl⟩ : ∃ n, fuel = n + 1 := ⟨fuel - 1, by simp at hfuel; omega⟩
    obtain ⟨h₁, b₁, xs₁, happ, hb₁, htouch₁, hcont₁⟩ := checkedAppend_spec hdst frag.bytes
    obtain ⟨hsrc₁, hapart₁⟩ := hsrc.kept htouch₁ hapart
    obtain ⟨-, hget₁, hrest₁⟩ := hsrc₁.chain
    have htail : IsChain h₁ (tailOf zs frag.next) zs :=
      ⟨hrest₁, rfl, fun z hz => hsrc.valid z (List.mem_cons_of_mem _ hz)⟩
    obtain ⟨heap', buffer', xs', hloop, hb', htouch', hcont'⟩ := ih fuel hb₁ htail
      (fun j hj => hapart₁ j (List.mem_cons_of_mem _ hj)) (by simpa using hfuel)
    refine ⟨heap', buffer', xs', ?_, hb', htouch₁.trans htouch', ?_⟩
    · rw [drainCopyLoop, FragmentHeap.load_ok hget]
      simp only [except_ok_bind, happ, FragmentHeap.load_ok hget₁]
      exact hloop
    · rw [hcont', hcont₁, contents_cons, List.append_assoc]

theorem transferCopyLoop_spec (fuel : ℕ) {p : Option ℕ} (maxTransfer rv : ℕ)
    (hdst : IsBuffer heap buffer xs) (hsrc : IsChain heap (tailOf zs p) zs) (hapart : Apart xs zs)
    (hfuel : zs.length ≤ fuel) :
    ∃ heap' buffer' xs', transferCopyLoop fuel heap buffer p maxTransfer rv =
        .ok (heap', buffer', rv + min maxTransfer (contents zs).length) ∧
      IsBuffer heap' buffer' xs' ∧ Touches heap heap' xs xs' ∧
      contents xs' = contents xs ++ (contents zs).take maxTransfer := by
  induction zs generalizing fuel heap buffer xs p maxTransfer rv with
  | nil =>
    obtain rfl : p = none := hsrc.chain
    refine ⟨heap, buffer, xs, ?_, hdst, .refl heap xs, by simp⟩
    unfold transferCopyLoop
    simp
  | cons y zs ih =>
    obtain ⟨i, frag⟩ := y
    obtain ⟨hfirst, hget, hrest⟩ := hsrc.chain
    obtain rfl : p = some i := hfirst
    obtain ⟨fuel, rfl⟩ : ∃ n, fuel = n + 1 := ⟨fuel - 1, by simp at hfuel; omega⟩
    have hlen : frag.bytes.length = frag.bufLength :=
      (hsrc.valid (i, frag) List.mem_cons_self).length_bytes
    unfold transferCopyLoop
    by_cases hpos : maxTransfer > 0
    · rw [if_pos hpos, FragmentHeap.load_ok hget]
      simp only [except_ok_bind]
      by_cases hlast : frag.bufLength ≥ maxTransfer
      · obtain ⟨h₁, b₁, xs₁, happ, hb₁, htouch₁, hcont₁⟩ :=
          checkedAppend_spec hdst (frag.bytes.take maxTransfer)
        have hmin : min maxTransfer (contents ((i, frag) :: zs)).length = maxTransfer := by
          rw [contents_cons, List.length_append]
          change min maxTransfer (frag.bytes.length + _) = maxTransfer
          omega
        refine ⟨h₁, b₁, xs₁, ?_, hb₁, htouch₁, ?_⟩
        · rw [if_pos hlast, happ, hmin]
          rfl
        · rw [hcont₁, contents_cons, List.take_append_of_le_length]
          change maxTransfer ≤ frag.bytes.length
          omega
      · obtain ⟨h₁, b₁, xs₁, happ, hb₁, htouch₁, hcont₁⟩ := checkedAppend_spec hdst frag.bytes
        obtain ⟨hsrc₁, hapart₁⟩ := hsrc.kept htouch₁ hapart
        obtain ⟨-, hget₁, hrest₁⟩ := hsrc₁.chain
        have htail : IsChain h₁ (tailOf zs frag.next) zs :=
          ⟨hrest₁, rfl, fun z hz => hsrc.valid z (List.mem_cons_of_mem _ hz)⟩
        obtain ⟨heap', buffer', xs', hloop, hb', htouch', hcont'⟩ := ih fuel
          (maxTransfer - frag.bufLength) (rv + frag.bufLength) hb₁ htail
          (fun j hj => hapart₁ j (List.mem_cons_of_mem _ hj)) (by simpa using hfuel)
        refine ⟨heap', buffer', xs', ?_, hb', htouch₁.trans htouch', ?_⟩
        · rw [if_neg hlast, happ]
          simp only [except_ok_bind, FragmentHeap.load_ok hget₁]
          rw [hloop, contents_cons, List.length_append]
          change _ = Except.ok (heap', buffer', rv + min maxTransfer (frag.bytes.length + _))
          rw [hlen]
          congr 3
          omega
        · have hwhole : contents ((i, frag) :: zs) = frag.bytes ++ contents zs := contents_cons _ _
          rw [hcont', hcont₁, hwhole, List.take_append, hlen,
            List.take_of_length_le (l := frag.bytes) (by omega), List.append_assoc]
    · obtain rfl : maxTransfer = 0 := by omega
      rw [if_neg hpos]
      exact ⟨heap, buffer, xs, by simp, hdst, .refl heap xs, by simp⟩

end

/-! ## Agreement -/

/-- What the two variants return: `dst`, `src` and the count. -/
abbrev Moved := Except Fault (FragmentHeap × DataBuffer × DataBuffer × ℕ)

/-- The buffers hold these bytes, and their sizes and the count are these. -/
def Moved.Has (r : Moved) (dstBytes srcBytes : List UInt8) (dstSize srcSize rv : ℕ) : Prop :=
  ∃ heap dst src xs ys, r = .ok (heap, dst, src, rv) ∧ IsChain heap dst xs ∧ IsChain heap src ys ∧
    contents xs = dstBytes ∧ contents ys = srcBytes ∧ dst.size = dstSize ∧ src.size = srcSize

/-- Two variants do the same. -/
def Moved.Agree (r r' : Moved) : Prop :=
  ∃ dstBytes srcBytes dstSize srcSize rv, r.Has dstBytes srcBytes dstSize srcSize rv ∧
    r'.Has dstBytes srcBytes dstSize srcSize rv

/-- The size is wrong when an `int` cannot count what is discarded. -/
theorem addSize_int_iff {size n : ℕ} (hle : n ≤ size) (hsize : size < 2 ^ 63) :
    size - n = addSize size (-(Int32.ofNat n).toInt) ↔ n < 2 ^ 31 := by
  constructor
  · intro heq
    have hlt := (Int32.ofNat n).toInt_lt
    have hge := (Int32.ofNat n).le_toInt
    have hmod : (Int32.ofNat n).toInt % 2 ^ 32 = n % 2 ^ 32 := by
      rw [Int32.toInt_ofNat', show (Int32.size : ℕ) = 2 ^ 32 from rfl]
      exact Int.bmod_emod
    generalize (Int32.ofNat n).toInt = rv at *
    unfold addSize at heq
    omega
  · intro hsmall
    rw [int32_ofNat_toInt hsmall, addSize_neg hle (by omega)]

section
variable {heap : FragmentHeap} {src : DataBuffer} {ys : List (ℕ × Fragment)}

theorem checkedDiscard_ok (h : IsBuffer heap src ys) (hsize : (contents ys).length < 2 ^ 63) (n : ℕ)
    (hsmall : min n (contents ys).length < 2 ^ 31) :
    ∃ heap' src' ys', checkedDiscard heap src n = .ok (heap', src', min n (contents ys).length) ∧
      IsBuffer heap' src' ys' ∧ Touches heap heap' ys ys' ∧ contents ys' = (contents ys).drop n := by
  obtain ⟨heap', src', ys', hrun, hsrc', htouch, hcont⟩ :=
    dataBufferDiscard_large h (by omega) n hsmall
  refine ⟨heap', src', ys', ?_, hsrc', htouch, hcont⟩
  unfold checkedDiscard
  rw [checkIntegrity_ok h, hrun]
  simp only [except_ok_bind, checkIntegrity_ok hsrc']
  rfl

theorem checkedDiscard_fails (h : IsBuffer heap src ys) (hsize : (contents ys).length < 2 ^ 63) (n : ℕ)
    (hlarge : 2 ^ 31 ≤ min n (contents ys).length) : checkedDiscard heap src n = .error .assertion := by
  obtain ⟨heap', src', ys', hrun, hsrc', -, hcont, hrest⟩ := dataBufferDiscard_run h n
  unfold checkedDiscard
  rw [checkIntegrity_ok h, hrun]
  simp only [except_ok_bind]
  rw [checkIntegrity_eq hsrc', if_neg]
  · rfl
  · intro heq
    rw [hrest, hcont, List.length_drop] at heq
    have hmin : (contents ys).length - n = (contents ys).length - min n (contents ys).length := by omega
    rw [hmin, addSize_int_iff (Nat.min_le_right _ _) hsize] at heq
    omega

end

section
variable {heap : FragmentHeap} {dst src : DataBuffer} {xs ys : List (ℕ × Fragment)}

theorem IsBuffer.tail (h : IsBuffer heap src ys) : IsChain heap (tailOf ys src.firstFrag) ys :=
  ⟨h.chain, rfl, h.valid⟩

theorem dataBufferDrainCopy_eq (hdst : IsBuffer heap dst xs) (hsrc : IsBuffer heap src ys)
    (hapart : Apart xs ys) (hsize : (contents ys).length < 2 ^ 63) :
    if (contents ys).length < 2 ^ 31 then
      Moved.Has (dataBufferDrainCopy heap dst src) (contents xs ++ contents ys) []
        ((contents xs).length + (contents ys).length) 0 (contents ys).length
    else dataBufferDrainCopy heap dst src = .error .assertion := by
  obtain ⟨h₁, b₁, xs₁, hloop, hb₁, htouch₁, hcont₁⟩ := drainCopyLoop_spec (heap.fuel + 1) hdst hsrc.tail
    hapart (Nat.le_succ_of_le hsrc.toIsChain.length_le)
  obtain ⟨hsrc₁, hapart₁⟩ := hsrc.toIsChain.kept htouch₁ hapart
  have hsrc₁ : IsBuffer h₁ src ys := ⟨hsrc₁, hsrc.size⟩
  unfold dataBufferDrainCopy
  rw [checkIntegrity_ok hdst, checkIntegrity_ok hsrc, hsrc.size]
  simp only [except_ok_bind, hloop]
  split
  · rename_i hsmall
    obtain ⟨h₂, src₂, ys₂, hdiscard, hsrc₂, htouch₂, hcont₂⟩ :=
      checkedDiscard_ok hsrc₁ hsize (contents ys).length (by omega)
    obtain ⟨hb₂, -⟩ := hb₁.toIsChain.kept htouch₂ hapart₁.symm
    have hb₂ : IsBuffer h₂ b₁ xs₁ := ⟨hb₂, hb₁.size⟩
    rw [hdiscard]
    simp only [except_ok_bind, checkIntegrity_ok hb₂, checkIntegrity_ok hsrc₂]
    refine ⟨h₂, b₁, src₂, xs₁, ys₂, rfl, hb₂.toIsChain, hsrc₂.toIsChain, hcont₁, ?_, ?_, ?_⟩
    · rw [hcont₂, List.drop_length]
    · rw [hb₂.size, hcont₁, List.length_append]
    · rw [hsrc₂.size, hcont₂, List.drop_length]
      rfl
  · rename_i hlarge
    rw [checkedDiscard_fails hsrc₁ hsize _ (by omega)]
    rfl

theorem dataBufferTransferCopy_eq (hdst : IsBuffer heap dst xs) (hsrc : IsBuffer heap src ys)
    (hapart : Apart xs ys) (hsize : (contents ys).length < 2 ^ 63) (maxTransfer : ℕ) :
    if min maxTransfer (contents ys).length < 2 ^ 31 then
      Moved.Has (dataBufferTransferCopy heap dst src maxTransfer)
        (contents xs ++ (contents ys).take maxTransfer) ((contents ys).drop maxTransfer)
        ((contents xs).length + min maxTransfer (contents ys).length)
        ((contents ys).length - maxTransfer) (min maxTransfer (contents ys).length)
    else dataBufferTransferCopy heap dst src maxTransfer = .error .assertion := by
  obtain ⟨h₁, b₁, xs₁, hloop, hb₁, htouch₁, hcont₁⟩ := transferCopyLoop_spec (heap.fuel + 1)
    maxTransfer 0 hdst hsrc.tail hapart (Nat.le_succ_of_le hsrc.toIsChain.length_le)
  obtain ⟨hsrc₁, hapart₁⟩ := hsrc.toIsChain.kept htouch₁ hapart
  have hsrc₁ : IsBuffer h₁ src ys := ⟨hsrc₁, hsrc.size⟩
  rw [Nat.zero_add] at hloop
  unfold dataBufferTransferCopy
  rw [checkIntegrity_ok hdst, checkIntegrity_ok hsrc]
  simp only [except_ok_bind, hloop]
  split
  · rename_i hsmall
    obtain ⟨h₂, src₂, ys₂, hdiscard, hsrc₂, htouch₂, hcont₂⟩ :=
      checkedDiscard_ok hsrc₁ hsize (min maxTransfer (contents ys).length) (by omega)
    obtain ⟨hb₂, -⟩ := hb₁.toIsChain.kept htouch₂ hapart₁.symm
    have hb₂ : IsBuffer h₂ b₁ xs₁ := ⟨hb₂, hb₁.size⟩
    have hdrop : (contents ys).drop (min maxTransfer (contents ys).length) =
        (contents ys).drop maxTransfer := by
      obtain hle | hge := Nat.le_total maxTransfer (contents ys).length
      · rw [Nat.min_eq_left hle]
      · rw [Nat.min_eq_right hge, List.drop_length, List.drop_of_length_le hge]
    rw [hdiscard]
    simp only [except_ok_bind, checkIntegrity_ok hb₂, checkIntegrity_ok hsrc₂]
    refine ⟨h₂, b₁, src₂, xs₁, ys₂, rfl, hb₂.toIsChain, hsrc₂.toIsChain, hcont₁, ?_, ?_, ?_⟩
    · rw [hcont₂, hdrop]
    · rw [hb₂.size, hcont₁, List.length_append, List.length_take]
    · rw [hsrc₂.size, hcont₂, hdrop, List.length_drop]
  · rename_i hlarge
    rw [checkedDiscard_fails hsrc₁ hsize _ (by omega)]
    rfl

end

/-- The copying variants do what the others do when an `int` can count the bytes that are moved. -/
theorem variants_agree_iff (heap : FragmentHeap) (dst src : DataBuffer) (xs ys : List (ℕ × Fragment))
    (hdst : IsBuffer heap dst xs) (hsrc : IsBuffer heap src ys) (hapart : Apart xs ys)
    (hsize : (contents ys).length < 2 ^ 63) :
    (∀ maxTransfer, Moved.Agree (dataBufferTransfer heap dst src maxTransfer)
      (dataBufferTransferCopy heap dst src maxTransfer) ↔
        min maxTransfer (contents ys).length < 2 ^ 31) ∧
    (Moved.Agree (dataBufferDrain heap dst src) (dataBufferDrainCopy heap dst src) ↔
      (contents ys).length < 2 ^ 31) := by
  constructor
  · intro maxTransfer
    have hcopy := dataBufferTransferCopy_eq hdst hsrc hapart hsize maxTransfer
    constructor
    · intro h
      by_contra hlarge
      obtain ⟨_, _, _, _, _, -, _, _, _, _, _, hok, -⟩ := h
      rw [if_neg hlarge] at hcopy
      rw [hcopy] at hok
      exact absurd hok (by simp)
    · intro hsmall
      rw [if_pos hsmall] at hcopy
      obtain ⟨h₁, dst₁, src₁, xs₁, ys₁, hrun, hdst₁, hsrc₁, -, -, hcont, hrest⟩ :=
        dataBufferTransfer_large hdst hsrc hapart (by omega) maxTransfer
      refine ⟨_, _, _, _, _, ⟨h₁, dst₁, src₁, xs₁, ys₁, hrun, hdst₁.toIsChain, hsrc₁.toIsChain, hcont,
        hrest, ?_, ?_⟩, hcopy⟩
      · rw [hdst₁.size, hcont, List.length_append, List.length_take]
      · rw [hsrc₁.size, hrest, List.length_drop]
  · have hcopy := dataBufferDrainCopy_eq hdst hsrc hapart hsize
    constructor
    · intro h
      by_contra hlarge
      obtain ⟨_, _, _, _, _, -, _, _, _, _, _, hok, -⟩ := h
      rw [if_neg hlarge] at hcopy
      rw [hcopy] at hok
      exact absurd hok (by simp)
    · intro hsmall
      rw [if_pos hsmall] at hcopy
      obtain ⟨h₁, dst₁, src₁, xs₁, hrun, hdst₁, hsrc₁, -, hcont⟩ := dataBufferDrain_spec hdst hsrc hapart
      refine ⟨_, _, _, _, _, ⟨h₁, dst₁, src₁, xs₁, [], hrun, hdst₁.toIsChain, hsrc₁.toIsChain, hcont, rfl,
        ?_, ?_⟩, hcopy⟩
      · rw [hdst₁.size, hcont, List.length_append]
      · exact hsrc₁.size

theorem exists_buffer (data : List UInt8) : ∃ heap src ys, IsBuffer heap dataBufferInit [] ∧
    IsBuffer heap src ys ∧ Apart [] ys ∧ contents ys = data := by
  obtain ⟨heap, src, ys, -, hsrc, -, hcont⟩ := dataBufferAppend_spec (isBuffer_init ⟨[]⟩) data
  exact ⟨heap, src, ys, isBuffer_init heap, hsrc, fun _ _ hmem => absurd hmem List.not_mem_nil, hcont⟩

/-- Three bytes are moved. -/
theorem variants_agree_three : ∃ heap src ys, IsBuffer heap src ys ∧ contents ys = [1, 2, 3] ∧
    Moved.Agree (dataBufferTransfer heap dataBufferInit src 2)
      (dataBufferTransferCopy heap dataBufferInit src 2) ∧
    Moved.Agree (dataBufferDrain heap dataBufferInit src)
      (dataBufferDrainCopy heap dataBufferInit src) := by
  obtain ⟨heap, src, ys, hdst, hsrc, hapart, hcont⟩ := exists_buffer [1, 2, 3]
  have hlen : (contents ys).length = 3 := by rw [hcont]; rfl
  have h := variants_agree_iff heap dataBufferInit src [] ys hdst hsrc hapart (by omega)
  exact ⟨heap, src, ys, hsrc, hcont, (h.1 2).mpr (by omega), h.2.mpr (by omega)⟩

/-- The copying variants fail an assertion at two gibibytes. -/
theorem variants_differ : ∃ heap src ys, IsBuffer heap src ys ∧ (contents ys).length = 2 ^ 31 ∧
    ¬ Moved.Agree (dataBufferTransfer heap dataBufferInit src (2 ^ 31))
      (dataBufferTransferCopy heap dataBufferInit src (2 ^ 31)) ∧
    ¬ Moved.Agree (dataBufferDrain heap dataBufferInit src)
      (dataBufferDrainCopy heap dataBufferInit src) := by
  obtain ⟨heap, src, ys, hdst, hsrc, hapart, hcont⟩ := exists_buffer (List.replicate (2 ^ 31) 0)
  have hlen : (contents ys).length = 2 ^ 31 := by rw [hcont, List.length_replicate]
  have hcopy := dataBufferTransferCopy_eq hdst hsrc hapart (by omega) (2 ^ 31)
  have hdrain := dataBufferDrainCopy_eq hdst hsrc hapart (by omega)
  rw [if_neg (by omega)] at hcopy hdrain
  refine ⟨heap, src, ys, hsrc, hlen, fun h => ?_, fun h => ?_⟩
  · obtain ⟨_, _, _, _, _, -, _, _, _, _, _, hok, -⟩ := h
    rw [hcopy] at hok
    exact absurd hok (by simp)
  · obtain ⟨_, _, _, _, _, -, _, _, _, _, _, hok, -⟩ := h
    rw [hdrain] at hok
    exact absurd hok (by simp)

end ProtobufC
