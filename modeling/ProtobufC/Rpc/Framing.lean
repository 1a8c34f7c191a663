import ProtobufC.Buffer.Operations
import ProtobufC.Library.Frames
import ProtobufC.Rpc.Protocol

/-! # The frames of a connection

A request has a header of 12 bytes and a response one of 16; both announce the length of the message that
follows.  `FrameFormat.exact` takes a frame when the whole of it is there.  `FrameFormat.loop` is what the
loops of `handle_server_connection_events` and `handle_client_fd_events` do: they add the length of the
header to the announced length in 32 bits, so that from 2^32 less that length on the sum is small and the
frame is taken at once.
-/

namespace ProtobufC
open Library
set_option autoImplicit false

/-! ## Formats -/

/-- The length of a header, and the word of it that is `message_length`. -/
structure FrameFormat where
  headerSize : UInt32
  lengthWord : ℕ
  fits : 4 * lengthWord + 4 ≤ headerSize.toNat
  small : headerSize.toNat ≤ 16

/-- `handle_server_connection_events` -/
def requestFormat : FrameFormat := ⟨12, 1, by decide, by decide⟩

/-- `handle_client_fd_events` -/
def responseFormat : FrameFormat := ⟨16, 2, by decide, by decide⟩

/-- The header of a frame, and the bytes that are given to `protobuf_c_message_unpack`. -/
structure RpcFrame where
  header : List UInt8
  payload : List UInt8
  deriving DecidableEq

namespace FrameFormat
variable (f : FrameFormat)

/-- `message_length` -/
def messageLength (bs : List UInt8) : UInt32 := headerWord bs f.lengthWord

/-- The length of the first frame, as a number. -/
def frameSize (bs : List UInt8) : ℕ := f.headerSize.toNat + (f.messageLength bs).toNat

theorem headerSize_pos : 0 < f.headerSize.toNat := by
  have := f.fits
  omega

/-- A frame is taken when its header and its message are there. -/
def exact : FrameReader UInt8 RpcFrame where
  take bs :=
    if f.headerSize.toNat ≤ bs.length ∧ f.frameSize bs ≤ bs.length then
      some (⟨bs.take f.headerSize.toNat,
          (bs.drop f.headerSize.toNat).take (f.messageLength bs).toNat⟩, bs.drop (f.frameSize bs))
    else none
  shrinks := by
    intro bs frame rest h
    split_ifs at h with hthere
    obtain ⟨-, rfl⟩ := Prod.mk.inj (Option.some.inj h)
    have hpos := f.headerSize_pos
    rw [List.length_drop]
    unfold frameSize at hthere ⊢
    omega

/-- What the loops do: the sizes are compared in the types of the code. -/
def loop : FrameReader UInt8 RpcFrame where
  take bs :=
    if bs.length < f.headerSize.toNat then none
    else if bs.length < (f.headerSize + f.messageLength bs).toNat then none
    else some (⟨bs.take f.headerSize.toNat,
        readBlock (bs.drop f.headerSize.toNat) (f.messageLength bs).toNat⟩,
      (bs.drop f.headerSize.toNat).drop (f.messageLength bs).toNat)
  shrinks := by
    intro bs frame rest h
    split_ifs at h with hshort hwait
    obtain ⟨-, rfl⟩ := Prod.mk.inj (Option.some.inj h)
    have hpos := f.headerSize_pos
    rw [List.length_drop, List.length_drop]
    omega

/-- The header is there, and the length that it announces makes the sum wrap. -/
def Long (bs : List UInt8) : Prop :=
  f.headerSize.toNat ≤ bs.length ∧ 2 ^ 32 ≤ f.frameSize bs

/-! ## The header at the front -/

variable {f} {bs : List UInt8}

theorem parseFixedUint32_append {data : List UInt8} (h : 4 ≤ data.length) (more : List UInt8) :
    parseFixedUint32 (data ++ more) = parseFixedUint32 data := by
  have hbyte : ∀ i < 4, byteAt (data ++ more) i = byteAt data i := by
    intro i hi
    unfold byteAt
    rw [List.getD_eq_getElem?_getD, List.getD_eq_getElem?_getD, List.getElem?_append_left (by omega)]
  unfold parseFixedUint32
  rw [hbyte 0 (by omega), hbyte 1 (by omega), hbyte 2 (by omega), hbyte 3 (by omega)]

theorem headerWord_append {i : ℕ} (h : 4 * i + 4 ≤ bs.length) (more : List UInt8) :
    headerWord (bs ++ more) i = headerWord bs i := by
  unfold headerWord
  rw [List.drop_append_of_le_length (by omega)]
  exact parseFixedUint32_append (by rw [List.length_drop]; omega) more

theorem headerWord_take {i n : ℕ} (h : 4 * i + 4 ≤ n) (hn : n ≤ bs.length) :
    headerWord (bs.take n) i = headerWord bs i := by
  have happ : headerWord (bs.take n ++ bs.drop n) i = headerWord (bs.take n) i :=
    headerWord_append (by rw [List.length_take]; omega) (bs.drop n)
  rw [List.take_append_drop] at happ
  exact happ.symm

theorem messageLength_append (h : f.headerSize.toNat ≤ bs.length) (more : List UInt8) :
    f.messageLength (bs ++ more) = f.messageLength bs :=
  headerWord_append (f.fits.trans h) more

theorem frameSize_append (h : f.headerSize.toNat ≤ bs.length) (more : List UInt8) :
    f.frameSize (bs ++ more) = f.frameSize bs := by
  unfold frameSize
  rw [messageLength_append h]

theorem stable_exact : f.exact.Stable := by
  intro bs frame rest h more
  unfold exact at h ⊢
  simp only at h ⊢
  split_ifs at h with hthere
  obtain ⟨rfl, rfl⟩ := Prod.mk.inj (Option.some.inj h)
  have hsize := hthere.2
  unfold frameSize at hsize
  rw [frameSize_append hthere.1, messageLength_append hthere.1, List.length_append,
    if_pos ⟨by omega, by unfold frameSize; omega⟩, List.take_append_of_le_length hthere.1,
    List.drop_append_of_le_length hthere.1,
    List.take_append_of_le_length (by rw [List.length_drop]; omega),
    List.drop_append_of_le_length hthere.2]

theorem take_exact_none : f.exact.take bs = none ↔
    bs.length < f.headerSize.toNat ∨ bs.length < f.frameSize bs := by
  unfold exact
  simp only
  split_ifs with hthere
  · simp only [false_iff]
    omega
  · simp only [true_iff]
    omega

/-! ## Where the two differ -/

theorem take_loop_of_short (h : ¬ f.Long bs) : f.loop.take bs = f.exact.take bs := by
  unfold loop exact
  simp only
  by_cases hshort : bs.length < f.headerSize.toNat
  · rw [if_pos hshort, if_neg fun hthere => absurd hthere.1 (not_le.mpr hshort)]
  · have hsize : f.frameSize bs < 2 ^ 32 := by
      by_contra hlarge
      exact h ⟨not_lt.mp hshort, not_lt.mp hlarge⟩
    have hsum : (f.headerSize + f.messageLength bs).toNat = f.frameSize bs := by
      rw [UInt32.toNat_add]
      exact Nat.mod_eq_of_lt hsize
    rw [if_neg hshort, hsum]
    by_cases hwait : bs.length < f.frameSize bs
    · rw [if_pos hwait, if_neg fun hthere => absurd hthere.2 (not_le.mpr hwait)]
    · have hblock : (f.messageLength bs).toNat - (bs.drop f.headerSize.toNat).length = 0 := by
        unfold frameSize at hwait
        rw [List.length_drop]
        omega
      rw [if_neg hwait, if_pos ⟨not_lt.mp hshort, not_lt.mp hwait⟩, List.drop_drop]
      unfold readBlock frameSize
      rw [hblock, List.replicate_zero, List.append_nil]

theorem take_loop_of_long (h : f.Long bs) : f.loop.take bs ≠ none := by
  obtain ⟨hheader, hsize⟩ := h
  have hlength := (f.messageLength bs).toNat_lt
  have hsum : (f.headerSize + f.messageLength bs).toNat = f.frameSize bs - 2 ^ 32 := by
    have hlt : f.frameSize bs < 2 ^ 32 + 2 ^ 32 := by
      have := f.headerSize.toNat_lt
      unfold frameSize
      omega
    rw [UInt32.toNat_add, show f.headerSize.toNat + (f.messageLength bs).toNat = f.frameSize bs from rfl,
      Nat.mod_eq_sub_mod hsize, Nat.mod_eq_of_lt (by omega)]
  unfold loop
  simp only
  rw [if_neg (by omega), if_neg]
  · simp
  · rw [hsum]
    unfold frameSize at hsize ⊢
    omega

/-! ## Buffers that a read has filled -/

/-- The size of the block for `read` in `protobuf_c_data_buffer_read_in_fd`. -/
def readSize : ℕ := 8192

variable (f) in
/-- The buffer holds what was left by the frames before, and no more than a read behind it. -/
def Near (bs : List UInt8) : Prop :=
  ∃ old new, bs = old ++ new ∧ f.exact.take old = none ∧ ¬ f.Long old ∧ new.length ≤ readSize

theorem near_rest {frame : RpcFrame} {rest : List UInt8} (h : f.Near bs)
    (htake : f.exact.take bs = some (frame, rest)) : f.Near rest := by
  obtain ⟨old, new, rfl, hnone, -, hnew⟩ := h
  have hpos := f.headerSize_pos
  have hlength : rest.length ≤ new.length := by
    unfold exact at htake
    simp only at htake
    split_ifs at htake with hthere
    obtain ⟨-, rfl⟩ := Prod.mk.inj (Option.some.inj htake)
    rw [List.length_drop, List.length_append]
    obtain hshort | hwait := take_exact_none.mp hnone
    · unfold frameSize
      omega
    · by_cases hshort : old.length < f.headerSize.toNat
      · unfold frameSize
        omega
      · rw [frameSize_append (not_lt.mp hshort)]
        omega
  refine ⟨[], rest, rfl, take_exact_none.mpr (.inl hpos), fun hl => ?_, hlength.trans hnew⟩
  exact absurd hl.1 (not_le.mpr hpos)

/-- The bytes that a long header announces are not there. -/
theorem take_exact_of_long (h : f.Near bs) (hlong : f.Long bs) : f.exact.take bs = none := by
  obtain ⟨old, new, rfl, -, hnot, hnew⟩ := h
  refine take_exact_none.mpr (.inr ?_)
  by_cases hshort : old.length < f.headerSize.toNat
  · have := hlong.2
    have := f.small
    unfold readSize at hnew
    rw [List.length_append]
    omega
  · have hlong' := hlong.2
    rw [frameSize_append (not_lt.mp hshort)] at hlong'
    exact absurd ⟨not_lt.mp hshort, hlong'⟩ hnot

/-- The consumer takes all frames of the stream, and comes to a long header behind them. -/
def LongAhead {σ : Type} (f : FrameFormat) (deliver : σ → RpcFrame → Except Fault (σ × Bool)) (s : σ)
    (stream : List UInt8) : Prop :=
  f.Long (f.exact.parse stream).2 ∧
    ∃ s', FrameReader.deliverAll deliver (f.exact.parse stream).1 s = .ok (s', true)

section
variable {σ ω : Type} {deliver : σ → RpcFrame → Except Fault (σ × Bool)} {pieces : List (List UInt8)}
  {s : σ}

theorem take_exact_nil : f.exact.take [] = none := take_exact_none.mpr (.inl f.headerSize_pos)

theorem near_append (hpieces : ∀ piece ∈ pieces, piece.length ≤ readSize) (old new : List UInt8)
    (hnew : new ∈ pieces) (hnone : f.exact.take old = none) (hnot : ¬ f.Long old) : f.Near (old ++ new) :=
  ⟨old, new, rfl, hnone, hnot, hpieces new hnew⟩

theorem neverLong_iff : FrameReader.NeverLong f.exact deliver f.Long pieces (s, some []) ↔
    ∀ before, before <+: pieces → ¬ f.LongAhead deliver s before.flatten := by
  have hone : ∀ before, f.exact.feed deliver before (s, some []) =
      f.exact.drain deliver s before.flatten := fun before =>
    stable_exact.feed_eq before s [] take_exact_nil
  simp only [FrameReader.NeverLong, hone, FrameReader.drain_eq_some_iff]
  constructor
  · rintro hnever before hbefore ⟨hl, s', hall⟩
    exact hnever before s' _ hbefore ⟨rfl, hall⟩ hl
  · intro hnever before s' rest hbefore hrest hl
    exact hnever before hbefore ⟨hrest.1 ▸ hl, s', hrest.2⟩

/-- Where the consumer comes to no long header, a stream that comes in reads of at most 8192 bytes is taken
apart as at once. -/
theorem feed_loop_eq (hpieces : ∀ piece ∈ pieces, piece.length ≤ readSize)
    (h : ∀ before, before <+: pieces → ¬ f.LongAhead deliver s before.flatten) :
    f.loop.feed deliver pieces (s, some []) = f.exact.drain deliver s pieces.flatten := by
  have heq := FrameReader.feed_eq_of_neverLong (C := f.loop) (near_append hpieces)
    (fun _ _ _ hnear htake => near_rest hnear htake) (fun _ _ hnot => take_loop_of_short hnot)
    (fun _ hnear hlong => take_exact_of_long hnear hlong) take_exact_nil (neverLong_iff.mpr h)
  exact heq.trans (stable_exact.feed_eq pieces s [] take_exact_nil)

/-- A stream that comes in reads of at most 8192 bytes is taken apart right just if no header of it is
long where the consumer comes to it. -/
theorem feed_loop_iff {view : σ × Option (List UInt8) → ω} {P : σ → Bool → Prop}
    (hkept : ∀ s frame s' go, P s true → deliver s frame = .ok (s', go) → P s' go)
    (hview : ∀ s left s' left', P s left.isSome → P s' left'.isSome →
      view (s, left) = view (s', left') → left.map List.length = left'.map List.length)
    (hpieces : ∀ piece ∈ pieces, piece.length ≤ readSize) (hs : P s true) :
    (∀ before, before <+: pieces → (f.loop.feed deliver before (s, some [])).map view =
      (f.exact.drain deliver s before.flatten).map view) ↔
    ∀ before, before <+: pieces → ¬ f.LongAhead deliver s before.flatten := by
  have hiff := FrameReader.feed_agrees_iff (C := f.loop) (R := f.exact) hkept hview (near_append hpieces)
    (fun _ _ _ hnear htake => near_rest hnear htake) (fun _ _ hnot => take_loop_of_short hnot)
    (fun _ hnear hlong => ⟨take_exact_of_long hnear hlong, take_loop_of_long hlong⟩) hs take_exact_nil
    fun hl => absurd hl.1 (not_le.mpr f.headerSize_pos)
  rw [neverLong_iff] at hiff
  simp only [stable_exact.feed_eq _ _ _ take_exact_nil, List.nil_append] at hiff
  exact hiff

/-- What the frames of a stream leave in the buffer is shorter than a frame. -/
theorem length_left_lt {left : List UInt8} {stream : List UInt8} {s' : σ}
    (hdrain : f.exact.drain deliver s stream = .ok (s', some left))
    (h : ¬ f.LongAhead deliver s stream) : left.length < 2 ^ 32 := by
  obtain ⟨rfl, hall⟩ := FrameReader.drain_eq_some_iff.mp hdrain
  have hnot : ¬ f.Long (f.exact.parse stream).2 := fun hl => h ⟨hl, s', hall⟩
  have hsmall := f.small
  by_contra hge
  obtain hshort | hwait := take_exact_none.mp (FrameReader.take_of_drain hdrain)
  · omega
  · exact hnot ⟨by omega, by omega⟩

end

theorem not_longAhead_of_short {σ : Type} {deliver : σ → RpcFrame → Except Fault (σ × Bool)} {s : σ}
    (h : bs.length < f.headerSize.toNat) : ¬ f.LongAhead deliver s bs := by
  rintro ⟨hlong, -⟩
  rw [FrameReader.parse_of_none (take_exact_none.mpr (.inl h))] at hlong
  exact absurd hlong.1 (not_le.mpr h)

/-- A frame that comes in two pieces, the first shorter than a header. -/
theorem not_longAhead_of_cut {σ : Type} {deliver : σ → RpcFrame → Except Fault (σ × Bool)} {s : σ}
    {first second : List UInt8} (frame : RpcFrame) (hshort : first.length < f.headerSize.toNat)
    (htake : f.exact.take (first ++ second) = some (frame, [])) :
    ∀ before, before <+: [first, second] → ¬ f.LongAhead deliver s before.flatten := by
  have hpos : ([] : List UInt8).length < f.headerSize.toNat := f.headerSize_pos
  intro before hbefore
  obtain rfl | ⟨before, rfl, hmore⟩ := List.prefix_cons_iff.mp hbefore
  · exact not_longAhead_of_short hpos
  obtain rfl | ⟨before, rfl, hnil⟩ := List.prefix_cons_iff.mp hmore
  · exact not_longAhead_of_short (by simpa using hshort)
  obtain rfl := List.prefix_nil.mp hnil
  have hflat : [first, second].flatten = first ++ second := by simp
  rintro ⟨hlong, -⟩
  rw [hflat, FrameReader.parse_of_some htake,
    FrameReader.parse_of_none (take_exact_none.mpr (.inl hpos))] at hlong
  exact absurd hlong.1 (not_le.mpr hpos)

/-! ## Fragments -/

/-- The same through a buffer of fragments: what a round of both loops does before it looks at the
request or the closure. -/
def takeFragments (f : FrameFormat) (heap : FragmentHeap) (incoming : DataBuffer) :
    Except Fault (FragmentHeap × DataBuffer × Option RpcFrame) := do
  if incoming.size < f.headerSize.toNat then return (heap, incoming, none)
  else
    let (header, _) ← dataBufferPeek heap incoming f.headerSize.toNat
    let message_length := headerWord header f.lengthWord
    if incoming.size < (f.headerSize + message_length).toNat then return (heap, incoming, none)
    else
      let (heap, incoming, _) ← dataBufferDiscard heap incoming f.headerSize.toNat
      let (heap, incoming, packed_data) ← dataBufferRead heap incoming message_length.toNat
      return (heap, incoming,
        some ⟨header, readBlock packed_data message_length.toNat⟩)

variable {heap : FragmentHeap} {incoming : DataBuffer} {xs : List (ℕ × Fragment)}

theorem readBlock_take (data : List UInt8) (n : ℕ) : readBlock (data.take n) n = readBlock data n := by
  unfold readBlock
  rw [List.take_take, Nat.min_self, List.length_take]
  congr 2
  omega

/-- However the bytes lie in fragments, a round takes the frame at their front. -/
theorem takeFragments_spec (h : IsBuffer heap incoming xs) (hsize : (contents xs).length < 2 ^ 64) :
    (f.loop.take (contents xs) = none ∧ f.takeFragments heap incoming = .ok (heap, incoming, none)) ∨
    ∃ frame rest heap' incoming' xs', f.loop.take (contents xs) = some (frame, rest) ∧
      f.takeFragments heap incoming = .ok (heap', incoming', some frame) ∧
      IsBuffer heap' incoming' xs' ∧ Touches heap heap' xs xs' ∧ contents xs' = rest := by
  have hsmall := f.small
  unfold takeFragments loop
  simp only [h.size]
  by_cases hshort : (contents xs).length < f.headerSize.toNat
  · rw [if_pos hshort, if_pos hshort]
    exact .inl ⟨rfl, rfl⟩
  · rw [if_neg hshort, if_neg hshort]
    have hpeek := dataBufferPeek_large h f.headerSize.toNat (by omega)
    have hword : headerWord ((contents xs).take f.headerSize.toNat) f.lengthWord =
        f.messageLength (contents xs) := headerWord_take f.fits (not_lt.mp hshort)
    simp only [hpeek, except_ok_bind, hword]
    by_cases hwait : (contents xs).length < (f.headerSize + f.messageLength (contents xs)).toNat
    · rw [if_pos hwait, if_pos hwait]
      exact .inl ⟨rfl, rfl⟩
    · rw [if_neg hwait, if_neg hwait]
      obtain ⟨heap₁, incoming₁, xs₁, hdiscard, hbuffer₁, htouch₁, hcont₁⟩ :=
        dataBufferDiscard_large h hsize f.headerSize.toNat (by omega)
      obtain ⟨heap₂, incoming₂, xs₂, hread, hbuffer₂, htouch₂, hcont₂⟩ := dataBufferRead_large hbuffer₁
        (by rw [hcont₁, List.length_drop]; omega) (f.messageLength (contents xs)).toNat
      refine .inr ⟨_, _, heap₂, incoming₂, xs₂, rfl, ?_, hbuffer₂, htouch₁.trans htouch₂,
        hcont₂.trans (by rw [hcont₁])⟩
      simp only [hdiscard, hread, except_ok_bind, hcont₁, readBlock_take]
      rfl

end FrameFormat

end ProtobufC
