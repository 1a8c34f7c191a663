import ProtobufC.Rpc.ChunkedRequests
import ProtobufC.Rpc.ChunkedResponses

/-! # Streams in fragments

The buffer of a connection is a chain of fragments, on a heap that all buffers share.  Here the loops of
`handle_server_connection_events` and `handle_client_fd_events` run over such chains: a read puts its piece
behind the last fragment, and a round takes a frame out of the fragments that it lies in.

`FollowsBytes` compares such a run with one over the bytes alone.  The server and the client that read
fragments follow the ones that have lists of bytes (`readRequestFragments_follows`,
`readResponseFragments_follows`), and they leave the fragments of all other buffers alone.
-/

namespace ProtobufC
open Library
set_option autoImplicit false

variable {σ : Type} {heap heap' : FragmentHeap} {incoming : DataBuffer} {xs xs' : List (ℕ × Fragment)}

/-- A run over the fragments `xs` ends as one over bytes does.  The fragments that it leaves hold the bytes
that are left, or a frame was refused and they are released; those of other buffers stay. -/
inductive FollowsBytes (heap : FragmentHeap) (xs : List (ℕ × Fragment)) :
    Except Fault (FragmentHeap × σ × Option DataBuffer) →
      Except Fault (σ × Option (List UInt8)) → Prop
  | fails (e : Fault) : FollowsBytes heap xs (.error e) (.error e)
  | refused {heap' : FragmentHeap} {s : σ} (touches : Touches heap heap' xs []) :
      FollowsBytes heap xs (.ok (heap', s, none)) (.ok (s, none))
  | waits {heap' : FragmentHeap} {s : σ} {incoming : DataBuffer} {xs' : List (ℕ × Fragment)}
      (buffer : IsBuffer heap' incoming xs') (touches : Touches heap heap' xs xs') :
      FollowsBytes heap xs (.ok (heap', s, some incoming)) (.ok (s, some (contents xs')))

theorem FollowsBytes.after {r : Except Fault (FragmentHeap × σ × Option DataBuffer)}
    {r' : Except Fault (σ × Option (List UInt8))} (htouch : Touches heap heap' xs xs')
    (h : FollowsBytes heap' xs' r r') : FollowsBytes heap xs r r' := by
  cases h with
  | fails e => exact .fails e
  | refused htouch' => exact .refused (htouch.trans htouch')
  | waits hbuffer htouch' => exact .waits hbuffer (htouch.trans htouch')

/-! ## The loops -/

namespace FrameFormat
variable (f : FrameFormat) (deliver : σ → RpcFrame → Except Fault (σ × Bool))

/-- The loop over the frames that are there.  A frame that is refused ends the connection, and all of its
fragments are recycled, by `protobuf_c_data_buffer_clear` in the server and
`protobuf_c_data_buffer_reset` in the client; it makes no difference that some frames are refused before
they are discarded. -/
def drainFragments : ℕ → FragmentHeap → DataBuffer → σ →
    Except Fault (FragmentHeap × σ × Option DataBuffer)
  | 0, _, _, _ => .error .hang
  | fuel + 1, heap, incoming, s => do
      let (heap, incoming, frame) ← f.takeFragments heap incoming
      match frame with
      | none => return (heap, s, some incoming)
      | some frame => do
          let (s, go) ← deliver s frame
          if go then drainFragments fuel heap incoming s
          else return (← dataBufferClear heap incoming, s, none)

/-- Every piece is read into the buffer, and the loop runs behind it. -/
def feedFragments : List (List UInt8) → FragmentHeap × σ × Option DataBuffer →
    Except Fault (FragmentHeap × σ × Option DataBuffer)
  | [], r => .ok r
  | _ :: _, (heap, s, none) => .ok (heap, s, none)
  | piece :: pieces, (heap, s, some incoming) => do
      let (heap, incoming, _) ← dataBufferReadInFd heap incoming (some piece)
      feedFragments pieces (← f.drainFragments deliver (incoming.size + 1) heap incoming s)

variable {f deliver}

theorem drainFragments_follows {fuel : ℕ} {bs : List UInt8} (s : σ) (h : IsBuffer heap incoming xs)
    (hcont : contents xs = bs) (hsize : bs.length < 2 ^ 64) (hfuel : bs.length < fuel) :
    FollowsBytes heap xs (f.drainFragments deliver fuel heap incoming s) (f.loop.drain deliver s bs) := by
  obtain ⟨fuel, rfl⟩ : ∃ n, fuel = n + 1 := ⟨fuel - 1, by omega⟩
  induction bs using FrameReader.induction (R := f.loop) generalizing heap incoming xs s fuel with
  | hnone bs hnone =>
    obtain ⟨-, hround⟩ | ⟨frame, rest, _, _, _, hsome, -⟩ := takeFragments_spec h (hcont ▸ hsize)
    · rw [FrameReader.drain_of_none hnone, ← hcont]
      unfold drainFragments
      rw [hround]
      exact .waits h (.refl heap xs)
    · rw [hcont, hnone] at hsome
      exact absurd hsome (by simp)
  | hsome bs frame rest hsome ih =>
    obtain ⟨hnone, -⟩ | ⟨frame', rest', heap₁, incoming₁, xs₁, hsome', hround, hbuffer, htouch, hrest⟩ :=
      takeFragments_spec h (hcont ▸ hsize)
    · rw [hcont, hsome] at hnone
      exact absurd hnone (by simp)
    · rw [hcont, hsome] at hsome'
      obtain ⟨rfl, rfl⟩ := Prod.mk.inj (Option.some.inj hsome')
      have hshorter := f.loop.shrinks hsome
      rw [FrameReader.drain_of_some hsome]
      unfold drainFragments
      simp only [hround, except_ok_bind]
      cases deliver s frame with
      | error e => exact .fails e
      | ok r =>
        obtain ⟨s', go⟩ := r
        simp only [except_ok_bind]
        cases go with
        | true =>
          obtain ⟨fuel, rfl⟩ : ∃ n, fuel = n + 1 := ⟨fuel - 1, by omega⟩
          exact (ih s' hbuffer hrest (by omega) fuel (by omega)).after htouch
        | false =>
          obtain ⟨heap₂, hclear, htouch'⟩ := dataBufferClear_spec hbuffer
          simp only [hclear, except_ok_bind]
          exact .refused (htouch.trans htouch')

theorem feedFragments_none (pieces : List (List UInt8)) (heap : FragmentHeap) (s : σ) :
    f.feedFragments deliver pieces (heap, s, none) = .ok (heap, s, none) := by
  cases pieces with
  | nil => rfl
  | cons piece pieces => rfl

/-- However the pieces of a stream come to lie in fragments, the consumer gets the same frames, as long as
the buffer has a size. -/
theorem feedFragments_follows_of_room {pieces : List (List UInt8)} (s : σ) (h : IsBuffer heap incoming xs)
    (hroom : ∀ before piece after s' rest, pieces = before ++ piece :: after →
      f.loop.feed deliver before (s, some (contents xs)) = .ok (s', some rest) →
        rest.length + piece.length < 2 ^ 64) :
    FollowsBytes heap xs (f.feedFragments deliver pieces (heap, s, some incoming))
      (f.loop.feed deliver pieces (s, some (contents xs))) := by
  induction pieces generalizing heap incoming xs s with
  | nil => exact .waits h (.refl heap xs)
  | cons piece pieces ih =>
    obtain ⟨heap₁, incoming₁, xs₁, hread, hbuffer, htouch, hcont⟩ :=
      dataBufferReadInFd_spec h (some piece)
    have hsize := hroom [] piece pieces s (contents xs) rfl rfl
    rw [← List.length_append] at hsize
    rw [Option.getD_some] at hcont
    have hdrain : FollowsBytes heap₁ xs₁
        (f.drainFragments deliver ((contents xs ++ piece).length + 1) heap₁ incoming₁ s)
        (f.loop.drain deliver s (contents xs ++ piece)) :=
      drainFragments_follows s hbuffer hcont hsize (Nat.lt_succ_self _)
    rw [FrameReader.feed_cons]
    unfold feedFragments
    simp only [hread, except_ok_bind, hbuffer.size, hcont]
    refine FollowsBytes.after htouch ?_
    generalize hrun : f.loop.drain deliver s (contents xs ++ piece) = r' at hdrain ⊢
    generalize f.drainFragments deliver _ heap₁ incoming₁ s = r at hdrain ⊢
    cases hdrain with
    | fails e => exact .fails e
    | refused htouch' =>
      simp only [except_ok_bind, feedFragments_none, FrameReader.feed_none]
      exact .refused htouch'
    | waits hbuffer' htouch' =>
      simp only [except_ok_bind]
      refine (ih _ hbuffer' fun before next after s' rest heq hfeed => ?_).after htouch'
      refine hroom (piece :: before) next after s' rest (by rw [heq, List.cons_append]) ?_
      rw [FrameReader.feed_cons, hrun]
      exact hfeed

theorem feedFragments_follows {pieces : List (List UInt8)} (s : σ) (h : IsBuffer heap incoming xs)
    (hsize : (contents xs).length + pieces.flatten.length < 2 ^ 64) :
    FollowsBytes heap xs (f.feedFragments deliver pieces (heap, s, some incoming))
      (f.loop.feed deliver pieces (s, some (contents xs))) := by
  refine feedFragments_follows_of_room s h fun before piece after s' rest heq hfeed => ?_
  have hrest := FrameReader.length_of_feed hfeed
  rw [heq, List.flatten_append, List.flatten_cons, List.length_append, List.length_append] at hsize
  omega

/-- A stream that comes in reads of at most 8192 bytes, into a buffer that was empty, is taken apart as at
once, where the consumer comes to no long header. -/
theorem feedFragments_exact {pieces : List (List UInt8)} (heap : FragmentHeap) (s : σ)
    (hpieces : ∀ piece ∈ pieces, piece.length ≤ readSize)
    (hshort : ∀ before, before <+: pieces → ¬ f.LongAhead deliver s before.flatten) :
    FollowsBytes heap [] (f.feedFragments deliver pieces (heap, s, some dataBufferInit))
      (f.exact.drain deliver s pieces.flatten) := by
  rw [← feed_loop_eq hpieces hshort]
  refine feedFragments_follows_of_room s (isBuffer_init heap) fun before piece after s' rest heq hfeed => ?_
  have hbefore : before <+: pieces := heq ▸ List.prefix_append before (piece :: after)
  have hpiece := hpieces piece (by rw [heq]; exact List.mem_append_right _ List.mem_cons_self)
  change f.loop.feed deliver before (s, some []) = _ at hfeed
  rw [feed_loop_eq (fun p hp => hpieces p (hbefore.subset hp)) fun before' hbefore' =>
    hshort before' (hbefore'.trans hbefore)] at hfeed
  have hleft := length_left_lt hfeed (hshort before hbefore)
  unfold readSize at hpiece
  omega

end FrameFormat

/-! ## The server and the client -/

variable {μ : Type}

/-- `handle_server_connection_events` for every piece, with the fragments of the connection. -/
def ServerWorld.readRequestFragments (codec : Codec μ) (w : ServerWorld μ) (conn : ℕ) (heap : FragmentHeap)
    (incoming : DataBuffer) (pieces : List (List UInt8)) :
    Except Fault (FragmentHeap × ServerWorld μ × Option DataBuffer) :=
  requestFormat.feedFragments (deliverRequest codec conn) pieces
    (heap, { w with receiving := some (conn, none) }, some incoming)

/-- `handle_client_fd_events` for every piece, with the fragments of the client. -/
def ClientWorld.readResponseFragments (codec : Codec μ) (w : ClientWorld μ) (heap : FragmentHeap)
    (incoming : DataBuffer) (pieces : List (List UInt8)) :
    Except Fault (FragmentHeap × ClientWorld μ × Option DataBuffer) :=
  responseFormat.feedFragments (deliverResponse codec) pieces
    (heap, { w with responding := true }, some incoming)

/-- A server that reads into fragments does what the one does that has a list of bytes. -/
theorem ServerWorld.readRequestFragments_follows (codec : Codec μ) (w : ServerWorld μ) (conn : ℕ)
    (c : ServerConnection) (heap : FragmentHeap) (incoming : DataBuffer) (xs : List (ℕ × Fragment))
    (pieces : List (List UInt8)) (hc : w.connections.get conn = some c)
    (hreceiving : w.receiving = none) (hbuffer : IsBuffer heap incoming xs)
    (hincoming : c.incoming = contents xs) (hpieces : ∀ piece ∈ pieces, piece ≠ [])
    (hsize : (contents xs).length + pieces.flatten.length < 2 ^ 64) :
    ∃ r, FollowsBytes heap xs (w.readRequestFragments codec conn heap incoming pieces) r ∧
      w.readRequests codec conn pieces = r.map (resume conn) := by
  have hread := readRequests_feed codec hc hreceiving hpieces
  rw [hincoming] at hread
  exact ⟨_, FrameFormat.feedFragments_follows _ hbuffer hsize, hread⟩

/-- A client that reads into fragments does what the one does that has a list of bytes. -/
theorem ClientWorld.readResponseFragments_follows (codec : Codec μ) (w : ClientWorld μ)
    (heap : FragmentHeap) (incoming : DataBuffer) (xs : List (ℕ × Fragment)) (pieces : List (List UInt8))
    (hstate : w.client.state = .connected) (hresponding : w.responding = false)
    (hbuffer : IsBuffer heap incoming xs) (hincoming : w.client.incoming = contents xs)
    (hpieces : ∀ piece ∈ pieces, piece ≠ [])
    (hsize : (contents xs).length + pieces.flatten.length < 2 ^ 64) :
    ∃ r, FollowsBytes heap xs (w.readResponseFragments codec heap incoming pieces) r ∧
      w.readResponses codec pieces = r.map resume := by
  have hread := readResponses_feed codec hstate hresponding hpieces
  rw [hincoming] at hread
  exact ⟨_, FrameFormat.feedFragments_follows _ hbuffer hsize, hread⟩

/-! ## Framing -/

/-- The pieces of a stream are taken apart as the whole at once: the same requests are given to the service,
or the same one is refused, and the fragments hold what is left of the stream behind them. -/
def ServerWorld.RequestsFramed (codec : Codec μ) (w : ServerWorld μ) (conn : ℕ) (heap : FragmentHeap)
    (pieces : List (List UInt8)) : Prop :=
  w.readRequests codec conn pieces = w.parseRequests codec conn pieces.flatten ∧
    FollowsBytes heap [] (w.readRequestFragments codec conn heap dataBufferInit pieces)
      (requestFormat.exact.drain (deliverRequest codec conn) { w with receiving := some (conn, none) }
        pieces.flatten)

/-- The same for the responses and the closures of a client. -/
def ClientWorld.ResponsesFramed (codec : Codec μ) (w : ClientWorld μ) (heap : FragmentHeap)
    (pieces : List (List UInt8)) : Prop :=
  w.readResponses codec pieces = w.parseResponses codec pieces.flatten ∧
    FollowsBytes heap [] (w.readResponseFragments codec heap dataBufferInit pieces)
      (responseFormat.exact.drain (deliverResponse codec) { w with responding := true } pieces.flatten)

theorem ServerWorld.requestsFramed_iff (codec : Codec μ) (w : ServerWorld μ) (conn : ℕ)
    (c : ServerConnection) (heap : FragmentHeap) (pieces : List (List UInt8))
    (hc : w.connections.get conn = some c) (hincoming : c.incoming = []) (hreceiving : w.receiving = none)
    (hpieces : ∀ piece ∈ pieces, piece ≠ [] ∧ piece.length ≤ FrameFormat.readSize) :
    (∀ before, before <+: pieces → w.RequestsFramed codec conn heap before) ↔
    ∀ before, before <+: pieces → ¬ requestFormat.LongAhead (deliverRequest codec conn)
      { w with receiving := some (conn, none) } before.flatten := by
  have hw : Looping conn { w with receiving := some (conn, none) } true :=
    ⟨congrArg Option.isSome hc, rfl⟩
  have hiff := FrameFormat.feed_loop_iff (f := requestFormat) (P := Looping conn)
    (@deliverRequest_looping μ codec conn) (fun _ _ _ _ hw hw' h => resume_length hw hw' h)
    (fun piece hpiece => (hpieces piece hpiece).2) hw
  have hread : ∀ before, before <+: pieces → w.readRequests codec conn before =
      (requestFormat.loop.feed (deliverRequest codec conn) before
        ({ w with receiving := some (conn, none) }, some [])).map (resume conn) := fun before hbefore =>
    hincoming ▸ readRequests_feed codec hc hreceiving fun piece hpiece =>
      (hpieces piece (hbefore.subset hpiece)).1
  constructor
  · intro hframed
    refine hiff.mp fun before hbefore => ?_
    rw [← hread before hbefore, ← parseRequests_eq]
    exact (hframed before hbefore).1
  · intro hshort before hbefore
    refine ⟨?_, FrameFormat.feedFragments_exact heap _ (fun piece hpiece =>
      (hpieces piece (hbefore.subset hpiece)).2) fun before' hbefore' =>
        hshort before' (hbefore'.trans hbefore)⟩
    rw [hread before hbefore, parseRequests_eq]
    exact hiff.mpr hshort before hbefore

theorem ClientWorld.responsesFramed_iff (codec : Codec μ) (w : ClientWorld μ) (heap : FragmentHeap)
    (pieces : List (List UInt8)) (hstate : w.client.state = .connected)
    (hincoming : w.client.incoming = []) (hresponding : w.responding = false)
    (hpieces : ∀ piece ∈ pieces, piece ≠ [] ∧ piece.length ≤ FrameFormat.readSize) :
    (∀ before, before <+: pieces → w.ResponsesFramed codec heap before) ↔
    ∀ before, before <+: pieces → ¬ responseFormat.LongAhead (deliverResponse codec)
      { w with responding := true } before.flatten := by
  have hw : Looping { w with responding := true } true := ⟨by simp [hstate], rfl⟩
  have hiff := FrameFormat.feed_loop_iff (f := responseFormat) (P := Looping)
    (@deliverResponse_looping μ codec) (fun _ _ _ _ hw hw' h => resume_length hw hw' h)
    (fun piece hpiece => (hpieces piece hpiece).2) hw
  have hread : ∀ before, before <+: pieces → w.readResponses codec before =
      (responseFormat.loop.feed (deliverResponse codec) before
        ({ w with responding := true }, some [])).map resume := fun before hbefore =>
    hincoming ▸ readResponses_feed codec hstate hresponding fun piece hpiece =>
      (hpieces piece (hbefore.subset hpiece)).1
  constructor
  · intro hframed
    refine hiff.mp fun before hbefore => ?_
    rw [← hread before hbefore, ← parseResponses_eq]
    exact (hframed before hbefore).1
  · intro hshort before hbefore
    refine ⟨?_, FrameFormat.feedFragments_exact heap _ (fun piece hpiece =>
      (hpieces piece (hbefore.subset hpiece)).2) fun before' hbefore' =>
        hshort before' (hbefore'.trans hbefore)⟩
    rw [hread before hbefore, parseResponses_eq]
    exact hiff.mpr hshort before hbefore

/-- At both ends the frames of a stream are taken out right, however it comes in, just if no header makes
the sum of the size test wrap. -/
theorem framing_exact_iff (codec : Codec μ) (heap : FragmentHeap) :
    (∀ (w : ServerWorld μ) (conn : ℕ) (c : ServerConnection) (pieces : List (List UInt8)),
      w.connections.get conn = some c → c.incoming = [] → w.receiving = none →
      (∀ piece ∈ pieces, piece ≠ [] ∧ piece.length ≤ FrameFormat.readSize) →
        ((∀ before, before <+: pieces → w.RequestsFramed codec conn heap before) ↔
          ∀ before, before <+: pieces → ¬ requestFormat.LongAhead (ServerWorld.deliverRequest codec conn)
            { w with receiving := some (conn, none) } before.flatten)) ∧
    ∀ (w : ClientWorld μ) (pieces : List (List UInt8)),
      w.client.state = .connected → w.client.incoming = [] → w.responding = false →
      (∀ piece ∈ pieces, piece ≠ [] ∧ piece.length ≤ FrameFormat.readSize) →
        ((∀ before, before <+: pieces → w.ResponsesFramed codec heap before) ↔
          ∀ before, before <+: pieces → ¬ responseFormat.LongAhead (ClientWorld.deliverResponse codec)
            { w with responding := true } before.flatten) :=
  ⟨fun w conn c pieces hc hincoming hreceiving hpieces =>
      w.requestsFramed_iff codec conn c heap pieces hc hincoming hreceiving hpieces,
    fun w pieces hstate hincoming hresponding hpieces =>
      w.responsesFramed_iff codec heap pieces hstate hincoming hresponding hpieces⟩

/-- A request and a response that come in two pieces each. -/
theorem framing_exact_first :
    waitingServer.RequestsFramed bytesCodec 0 ⟨[]⟩ [firstRequest.take 10, firstRequest.drop 10] ∧
      waitingClient.ResponsesFramed bytesCodec ⟨[]⟩ [firstResponse.take 10, firstResponse.drop 10] :=
  ⟨((framing_exact_iff bytesCodec ⟨[]⟩).1 waitingServer 0 ⟨3, [], [], none, none, 0, none, none⟩
      [firstRequest.take 10, firstRequest.drop 10] rfl rfl rfl (by decide)).mpr
      (FrameFormat.not_longAhead_of_cut ⟨firstRequest, []⟩ (by decide) rfl) _ List.prefix_rfl,
    ((framing_exact_iff bytesCodec ⟨[]⟩).2 waitingClient
      [firstResponse.take 10, firstResponse.drop 10] rfl rfl rfl (by decide)).mpr
      (FrameFormat.not_longAhead_of_cut ⟨firstResponse, []⟩ (by decide) rfl) _ List.prefix_rfl⟩

/-- A header that announces 2^32 - 1 bytes. -/
def longHeader : List UInt8 := headerBytes [0, 0xffffffff, 0xffffffff, 1]

theorem longAhead_of_longHeader {σ : Type} (f : FrameFormat)
    (deliver : σ → RpcFrame → Except Fault (σ × Bool)) (s : σ)
    (hword : f.messageLength longHeader = 0xffffffff) : f.LongAhead deliver s longHeader := by
  have hsize : f.frameSize longHeader = f.headerSize.toNat + (2 ^ 32 - 1) := by
    unfold FrameFormat.frameSize
    rw [hword]
    rfl
  have hpos := f.headerSize_pos
  have hsmall := f.small
  have hlength : longHeader.length = 16 := rfl
  have hnone : f.exact.take longHeader = none := FrameFormat.take_exact_none.mpr (.inr (by omega))
  have hlong : f.Long longHeader := ⟨by omega, by omega⟩
  unfold FrameFormat.LongAhead
  rw [FrameReader.parse_of_none hnone]
  exact ⟨hlong, s, rfl⟩

theorem not_framed_of_longAhead {framed : List (List UInt8) → Prop} {ahead : List UInt8 → Prop}
    {bs : List UInt8}
    (hiff : ∀ pieces : List (List UInt8),
      (∀ piece ∈ pieces, piece ≠ [] ∧ piece.length ≤ FrameFormat.readSize) →
        ((∀ before, before <+: pieces → framed before) ↔ ∀ before, before <+: pieces →
          ¬ ahead before.flatten))
    (hpiece : bs ≠ [] ∧ bs.length ≤ FrameFormat.readSize) (hnil : ¬ ahead []) (hahead : ahead bs) :
    ¬ framed [bs] := by
  intro hframed
  have hnone : framed [] := by
    refine (hiff [] (by simp)).mpr (fun before hbefore => ?_) [] List.prefix_rfl
    rw [List.prefix_nil.mp hbefore]
    exact hnil
  refine (hiff [bs] (by simpa using hpiece)).mp (fun before hbefore => ?_) [bs] List.prefix_rfl ?_
  · obtain rfl | ⟨rest, rfl, hrest⟩ := List.prefix_cons_iff.mp hbefore
    · exact hnone
    · rw [List.prefix_nil.mp hrest]
      exact hframed
  · rwa [List.flatten_cons, List.flatten_nil, List.append_nil]

/-- Both ends take a frame of a header that announces 2^32 - 1 bytes, although none of them has come. -/
theorem framing_fails :
    ¬ waitingServer.RequestsFramed bytesCodec 0 ⟨[]⟩ [longHeader] ∧
      ¬ waitingClient.ResponsesFramed bytesCodec ⟨[]⟩ [longHeader] := by
  constructor
  · exact not_framed_of_longAhead (fun pieces => waitingServer.requestsFramed_iff bytesCodec 0
      ⟨3, [], [], none, none, 0, none, none⟩ ⟨[]⟩ pieces rfl rfl rfl) (by decide)
      (FrameFormat.not_longAhead_of_short requestFormat.headerSize_pos)
      (longAhead_of_longHeader requestFormat _ _ (by decide))
  · exact not_framed_of_longAhead (fun pieces => waitingClient.responsesFramed_iff bytesCodec ⟨[]⟩
      pieces rfl rfl rfl) (by decide)
      (FrameFormat.not_longAhead_of_short responseFormat.headerSize_pos)
      (longAhead_of_longHeader responseFormat _ _ (by decide))

/-! ## A frame over two fragments -/

/-- A fragment that ends with room for four bytes more, behind the bytes given. -/
def almostFull (bs : List UInt8) : Fragment :=
  ⟨none, 4092 - bs.length, bs.length, List.replicate (4092 - bs.length) 0 ++ bs ++ [0, 0, 0, 0]⟩

/-- A heap with a fragment of another buffer, and one that is almost full. -/
def sharedHeap (bs : List UInt8) : FragmentHeap := ⟨[some (almostFull [1, 2]), some (almostFull bs)]⟩

theorem almostFull_bytes {bs : List UInt8} : (almostFull bs).bytes = bs := by
  unfold Fragment.bytes almostFull
  simp only [List.append_assoc]
  rw [List.drop_left' List.length_replicate, List.take_left' rfl]

theorem isBuffer_almostFull {bs : List UInt8} (hbs : bs.length ≤ 4092) :
    IsBuffer (sharedHeap bs) ⟨bs.length, some 1, some 1⟩ [(1, almostFull bs)] where
  chain := ⟨rfl, rfl, rfl⟩
  last := rfl
  valid := fun x hx => by
    obtain rfl := List.mem_singleton.mp hx
    unfold almostFull
    refine ⟨?_, ?_⟩
    · simp only [List.length_append, List.length_replicate, fragmentDataSize, List.length_cons,
        List.length_nil]
      omega
    · simp only [fragmentDataSize]
      omega
  size := by rw [contents_cons, contents_nil, List.append_nil, almostFull_bytes]

theorem contents_almostFull (bs : List UInt8) : contents [(1, almostFull bs)] = bs := by
  rw [contents_cons, contents_nil, List.append_nil, almostFull_bytes]

/-- A request of which six bytes have come already; the others come in two pieces, of which the second goes
into a new fragment, next to a fragment of another buffer. -/
theorem readRequestFragments_firstRequest :
    ∃ r, FollowsBytes (sharedHeap (firstRequest.take 6)) [(1, almostFull (firstRequest.take 6))]
        ((waitingServer.setIncoming 0 (firstRequest.take 6)).readRequestFragments bytesCodec 0
          (sharedHeap (firstRequest.take 6)) ⟨6, some 1, some 1⟩
          [(firstRequest.drop 6).take 4, firstRequest.drop 10]) r ∧
      (waitingServer.setIncoming 0 (firstRequest.take 6)).readRequests bytesCodec 0
        [(firstRequest.drop 6).take 4, firstRequest.drop 10] = r.map (ServerWorld.resume 0) :=
  ServerWorld.readRequestFragments_follows bytesCodec (waitingServer.setIncoming 0 (firstRequest.take 6)) 0
    ⟨3, firstRequest.take 6, [], none, none, 0, none, none⟩ (sharedHeap (firstRequest.take 6))
    ⟨6, some 1, some 1⟩ [(1, almostFull (firstRequest.take 6))]
    [(firstRequest.drop 6).take 4, firstRequest.drop 10] rfl rfl (isBuffer_almostFull (by decide))
    (contents_almostFull _).symm (by decide) (by rw [contents_almostFull]; decide)

/-- The same for a response. -/
theorem readResponseFragments_firstResponse :
    ∃ r, FollowsBytes (sharedHeap (firstResponse.take 6)) [(1, almostFull (firstResponse.take 6))]
        ((waitingClient.setIncoming (firstResponse.take 6)).readResponseFragments bytesCodec
          (sharedHeap (firstResponse.take 6)) ⟨6, some 1, some 1⟩
          [(firstResponse.drop 6).take 4, firstResponse.drop 10]) r ∧
      (waitingClient.setIncoming (firstResponse.take 6)).readResponses bytesCodec
        [(firstResponse.drop 6).take 4, firstResponse.drop 10] = r.map ClientWorld.resume :=
  ClientWorld.readResponseFragments_follows bytesCodec (waitingClient.setIncoming (firstResponse.take 6))
    (sharedHeap (firstResponse.take 6)) ⟨6, some 1, some 1⟩ [(1, almostFull (firstResponse.take 6))]
    [(firstResponse.drop 6).take 4, firstResponse.drop 10] rfl rfl (isBuffer_almostFull (by decide))
    (contents_almostFull _).symm (by decide) (by rw [contents_almostFull]; decide)

end ProtobufC
