import ProtobufC.Buffer.Operations

/-! # Buffers are queues of bytes

A number of buffers share one heap.  What they are for is a string of bytes each: `ByteOp.Does` says what
every operation does to that string and what it returns, and `buffers_fifo` that the functions do
just that over every sequence of operations, as long as `int` can hold the sizes.
-/

namespace ProtobufC
open Library
set_option autoImplicit false

/-! ## Operations -/

/-- An operation on one buffer. -/
inductive ByteOp
  | append (data : List UInt8)
  | appendRepeatedChar (character : UInt8) (count : ℕ)
  | appendChar (character : UInt8)
  | appendString (string : List UInt8)
  | appendString0 (string : List UInt8)
  | read (maxLength : ℕ)
  | peek (maxLength : ℕ)
  | readChar
  | peekChar
  | discard (maxDiscard : ℕ)
  | readLine
  | parseString0
  | indexOf (character : UInt8)
  | reset
  | readInFd (received : Option (List UInt8))
  | writev (outcome : WritevOutcome)
  | writevLen (maxBytes : ℕ) (outcome : WritevOutcome)

inductive BufferOp
  | on (buffer : ℕ) (op : ByteOp)
  | drain (dst src : ℕ)
  | transfer (dst src maxTransfer : ℕ)

/-- What an operation returns: bytes with their number, a number, an `int`, a string, or what it hands
to `writev` with an `int`. -/
inductive Answer
  | nothing
  | bytes (data : List UInt8) (rv : ℕ)
  | size (rv : ℕ)
  | int (rv : ℤ)
  | string (rv : Option (List UInt8))
  | wrote (iov : List (List UInt8)) (rv : ℤ)
  deriving DecidableEq

def ByteOp.run (heap : FragmentHeap) (buffer : DataBuffer) :
    ByteOp → Except Fault (FragmentHeap × DataBuffer × Answer)
  | .append data => do
      let r ← dataBufferAppend heap buffer data
      return (r.1, r.2, .nothing)
  | .appendRepeatedChar character count => do
      let r ← dataBufferAppendRepeatedChar heap buffer character count
      return (r.1, r.2, .nothing)
  | .appendChar character => do
      let r ← dataBufferAppendChar heap buffer character
      return (r.1, r.2, .nothing)
  | .appendString string => do
      let r ← dataBufferAppendString heap buffer string
      return (r.1, r.2, .nothing)
  | .appendString0 string => do
      let r ← dataBufferAppendString0 heap buffer string
      return (r.1, r.2, .nothing)
  | .read maxLength => do
      let r ← dataBufferRead heap buffer maxLength
      return (r.1, r.2.1, .bytes r.2.2 r.2.2.length)
  | .peek maxLength => do
      let r ← dataBufferPeek heap buffer maxLength
      return (heap, buffer, .bytes r.1 r.2)
  | .readChar => do
      let r ← dataBufferReadChar heap buffer
      return (r.1, r.2.1, .int r.2.2.toInt)
  | .peekChar => do
      let rv ← dataBufferPeekChar heap buffer
      return (heap, buffer, .int rv.toInt)
  | .discard maxDiscard => do
      let r ← dataBufferDiscard heap buffer maxDiscard
      return (r.1, r.2.1, .size r.2.2)
  | .readLine => do
      let r ← dataBufferReadLine heap buffer
      return (r.1, r.2.1, .string r.2.2)
  | .parseString0 => do
      let r ← dataBufferParseString0 heap buffer
      return (r.1, r.2.1, .string r.2.2)
  | .indexOf character => do
      let rv ← dataBufferIndexOf heap buffer character
      return (heap, buffer, .int rv.toInt)
  | .reset => do
      let r ← dataBufferReset heap buffer
      return (r.1, r.2, .nothing)
  | .readInFd received => do
      let r ← dataBufferReadInFd heap buffer received
      return (r.1, r.2.1, .int r.2.2.toInt)
  | .writev outcome => do
      let r ← dataBufferWritev heap buffer outcome
      return (r.1, r.2.1, .wrote r.2.2.1 r.2.2.2.toInt)
  | .writevLen maxBytes outcome => do
      let r ← dataBufferWritevLen heap buffer maxBytes outcome
      return (r.1, r.2.1, .wrote r.2.2.1 r.2.2.2.toInt)

/-- The heap and the buffers in it. -/
structure BufferWorld where
  heap : FragmentHeap
  buffers : List DataBuffer

namespace BufferWorld

/-- `n` new buffers. -/
def start (n : ℕ) : BufferWorld := ⟨⟨[]⟩, List.replicate n dataBufferInit⟩

def buffer (w : BufferWorld) (k : ℕ) : Except Fault DataBuffer :=
  match w.buffers[k]? with
  | none => .error .access
  | some buffer => .ok buffer

def step (w : BufferWorld) : BufferOp → Except Fault (BufferWorld × Answer)
  | .on k op => do
      let r ← op.run w.heap (← w.buffer k)
      return (⟨r.1, w.buffers.set k r.2.1⟩, r.2.2)
  | .drain dst src => do
      let r ← dataBufferDrain w.heap (← w.buffer dst) (← w.buffer src)
      return (⟨r.1, (w.buffers.set dst r.2.1).set src r.2.2.1⟩, .size r.2.2.2)
  | .transfer dst src maxTransfer => do
      let r ← dataBufferTransfer w.heap (← w.buffer dst) (← w.buffer src) maxTransfer
      return (⟨r.1, (w.buffers.set dst r.2.1).set src r.2.2.1⟩, .size r.2.2.2)

end BufferWorld

/-! ## What they are for -/

/-- The first byte, or -1. -/
def firstByte : List UInt8 → ℤ
  | [] => -1
  | c :: _ => c.toNat

/-- How many of the bytes it is offered `writev` accepts, and what it returns. -/
def WritevOutcome.accepted : WritevOutcome → ℕ → ℕ × ℤ
  | .accepts count, offered => (min count offered, (min count offered : ℕ))
  | .ignorable, _ => (0, 0)
  | .fails, _ => (0, -1)

/-- What an operation does to the bytes `s` of a buffer, and what it returns. -/
def ByteOp.Does (s : List UInt8) : ByteOp → List UInt8 → Answer → Prop
  | .append data, s', answer => s' = s ++ data ∧ answer = .nothing
  | .appendRepeatedChar character count, s', answer =>
      s' = s ++ List.replicate count character ∧ answer = .nothing
  | .appendChar character, s', answer => s' = s ++ [character] ∧ answer = .nothing
  | .appendString string, s', answer => s' = s ++ cString string ∧ answer = .nothing
  | .appendString0 string, s', answer => s' = s ++ (cString string ++ [0]) ∧ answer = .nothing
  | .read n, s', answer => s' = s.drop n ∧ answer = .bytes (s.take n) (min n s.length)
  | .peek n, s', answer => s' = s ∧ answer = .bytes (s.take n) (min n s.length)
  | .readChar, s', answer => s' = s.drop 1 ∧ answer = .int (firstByte s)
  | .peekChar, s', answer => s' = s ∧ answer = .int (firstByte s)
  | .discard n, s', answer => s' = s.drop n ∧ answer = .size (min n s.length)
  | .readLine, s', answer =>
      match s.findIdx? (· = 10) with
      | none => s' = s ∧ answer = .string none
      | some k => s' = s.drop (k + 1) ∧ answer = .string (some (s.take k ++ [0]))
  | .parseString0, s', answer =>
      match s.findIdx? (· = 0) with
      | none => s' = s ∧ answer = .string none
      | some k => s' = s.drop (k + 1) ∧ answer = .string (some (s.take (k + 1)))
  | .indexOf character, s', answer =>
      s' = s ∧ answer = .int ((s.findIdx? (· = character)).elim (-1) fun k => (k : ℤ))
  | .reset, s', answer => s' = [] ∧ answer = .nothing
  | .readInFd none, s', answer => s' = s ∧ answer = .int (-1)
  | .readInFd (some data), s', answer => s' = s ++ data ∧ answer = .int data.length
  | .writev outcome, s', answer => ∃ iov : List (List UInt8), iov.flatten <+: s ∧
      answer = .wrote iov (outcome.accepted iov.flatten.length).2 ∧
      s' = s.drop (outcome.accepted iov.flatten.length).1
  | .writevLen maxBytes outcome, s', answer => ∃ iov : List (List UInt8),
      iov.flatten <+: s.take maxBytes ∧
      answer = .wrote iov (outcome.accepted iov.flatten.length).2 ∧
      s' = s.drop (outcome.accepted iov.flatten.length).1

/-- The same for the strings of all buffers. -/
def BufferOp.Does (bs : List (List UInt8)) : BufferOp → List (List UInt8) → Answer → Prop
  | .on k op, bs', answer => ∃ s s', bs[k]? = some s ∧ op.Does s s' answer ∧ bs' = bs.set k s'
  | .drain dst src, bs', answer => ∃ s t, bs[dst]? = some s ∧ bs[src]? = some t ∧
      bs' = (bs.set dst (s ++ t)).set src [] ∧ answer = .size t.length
  | .transfer dst src n, bs', answer => ∃ s t, bs[dst]? = some s ∧ bs[src]? = some t ∧
      bs' = (bs.set dst (s ++ t.take n)).set src (t.drop n) ∧ answer = .size (min n t.length)

/-- How many bytes an operation adds. -/
def ByteOp.adds : ByteOp → ℕ
  | .append data => data.length
  | .appendRepeatedChar _ count => count
  | .appendChar _ => 1
  | .appendString string => (cString string).length
  | .appendString0 string => (cString string).length + 1
  | .readInFd received => (received.getD []).length
  | .read _ | .peek _ | .readChar | .peekChar | .discard _ | .readLine | .parseString0 | .indexOf _
  | .reset | .writev _ | .writevLen _ _ => 0

def BufferOp.adds : BufferOp → ℕ
  | .on _ op => op.adds
  | .drain _ _ | .transfer _ _ _ => 0

/-- The buffers exist and are distinct, `read` delivers at most what it is asked for, and the total size
stays below `2^31`. -/
def BufferOp.Proper (bs : List (List UInt8)) (op : BufferOp) : Prop :=
  bs.flatten.length + op.adds < 2 ^ 31 ∧
    match op with
    | .on k (.readInFd (some data)) => k < bs.length ∧ data.length ≤ 8192
    | .on k _ => k < bs.length
    | .drain dst src | .transfer dst src _ => dst < bs.length ∧ src < bs.length ∧ dst ≠ src

/-- Every buffer is a chain of valid fragments that ends in its last fragment, its size is the number
of its bytes, these are its string, and no two buffers share a fragment. -/
def BufferWorld.Represents (w : BufferWorld) (bs : List (List UInt8)) : Prop :=
  ∃ xss : ℕ → List (ℕ × Fragment), w.buffers.length = bs.length ∧
    (∀ (k : ℕ) (buffer : DataBuffer), w.buffers[k]? = some buffer →
      IsBuffer w.heap buffer (xss k) ∧ bs[k]? = some (contents (xss k))) ∧
    ∀ j k : ℕ, j < bs.length → k < bs.length → j ≠ k → Apart (xss j) (xss k)

/-- As long as the operations are proper, each of them succeeds and does what its name says, and in
between the buffers hold their strings. -/
def BufferWorld.Fifo : List BufferOp → BufferWorld → List (List UInt8) → Prop
  | [], w, bs => w.Represents bs
  | op :: ops, w, bs => w.Represents bs ∧ (op.Proper bs → ∃ w' answer bs',
      w.step op = .ok (w', answer) ∧ op.Does bs bs' answer ∧ BufferWorld.Fifo ops w' bs')

/-! ## One buffer -/

theorem firstChar_toInt (s : List UInt8) : (firstChar s).toInt = firstByte s := by
  cases s with
  | nil => rfl
  | cons c s =>
    have hc := c.toNat_lt
    exact int32_ofNat_toInt (by omega)

theorem taken_eq (outcome : WritevOutcome) {iov : List (List UInt8)}
    (h : iov.flatten.length < 2 ^ 31) :
    (outcome.taken iov).1 = (outcome.accepted iov.flatten.length).1 ∧
      (outcome.taken iov).2.toInt = (outcome.accepted iov.flatten.length).2 := by
  cases outcome with
  | accepts count => exact ⟨rfl, int32_ofNat_toInt (by omega)⟩
  | ignorable => exact ⟨rfl, rfl⟩
  | fails => exact ⟨rfl, rfl⟩

theorem ByteOp.run_spec {heap : FragmentHeap} {buffer : DataBuffer} {xs : List (ℕ × Fragment)}
    (h : IsBuffer heap buffer xs) (op : ByteOp) (hsmall : (contents xs).length + op.adds < 2 ^ 31) :
    ∃ heap' buffer' xs' answer, op.run heap buffer = .ok (heap', buffer', answer) ∧
      IsBuffer heap' buffer' xs' ∧ Touches heap heap' xs xs' ∧
      op.Does (contents xs) (contents xs') answer := by
  have hlt : (contents xs).length < 2 ^ 31 := by omega
  -- all that append
  have happend : ∀ data : List UInt8, ∃ heap' buffer' xs',
      dataBufferAppend heap buffer data = .ok (heap', buffer') ∧ IsBuffer heap' buffer' xs' ∧
      Touches heap heap' xs xs' ∧ contents xs' = contents xs ++ data := dataBufferAppend_spec h
  cases op with
  | append data =>
    obtain ⟨heap', buffer', xs', hrun, hbuffer, htouch, hcont⟩ := happend data
    exact ⟨heap', buffer', xs', _, by simp only [ByteOp.run, hrun]; rfl, hbuffer, htouch, hcont, rfl⟩
  | appendRepeatedChar character count =>
    obtain ⟨heap', buffer', xs', hrun, hbuffer, htouch, hcont⟩ :=
      happend (List.replicate count character)
    exact ⟨heap', buffer', xs', _, by
      simp only [ByteOp.run, dataBufferAppendRepeatedChar, hrun]; rfl, hbuffer, htouch, hcont, rfl⟩
  | appendChar character =>
    obtain ⟨heap', buffer', xs', hrun, hbuffer, htouch, hcont⟩ := happend [character]
    exact ⟨heap', buffer', xs', _, by simp only [ByteOp.run, dataBufferAppendChar, hrun]; rfl,
      hbuffer, htouch, hcont, rfl⟩
  | appendString string =>
    obtain ⟨heap', buffer', xs', hrun, hbuffer, htouch, hcont⟩ := happend (cString string)
    exact ⟨heap', buffer', xs', _, by simp only [ByteOp.run, dataBufferAppendString, hrun]; rfl,
      hbuffer, htouch, hcont, rfl⟩
  | appendString0 string =>
    obtain ⟨heap', buffer', xs', hrun, hbuffer, htouch, hcont⟩ := happend (cString string ++ [0])
    exact ⟨heap', buffer', xs', _, by simp only [ByteOp.run, dataBufferAppendString0, hrun]; rfl,
      hbuffer, htouch, hcont, rfl⟩
  | read n =>
    obtain ⟨heap', buffer', xs', hrun, hbuffer, htouch, hcont⟩ := dataBufferRead_spec h hlt n
    refine ⟨heap', buffer', xs', _, by simp only [ByteOp.run, hrun]; rfl, hbuffer, htouch, hcont, ?_⟩
    rw [List.length_take]
  | peek n =>
    have hrun := dataBufferPeek_spec h hlt n
    exact ⟨heap, buffer, xs, _, by simp only [ByteOp.run, hrun]; rfl, h, .refl heap xs, rfl, rfl⟩
  | readChar =>
    obtain ⟨heap', buffer', xs', hrun, hbuffer, htouch, hcont⟩ := dataBufferReadChar_spec h hlt
    refine ⟨heap', buffer', xs', _, by simp only [ByteOp.run, hrun]; rfl, hbuffer, htouch, hcont, ?_⟩
    rw [firstChar_toInt]
  | peekChar =>
    have hrun := dataBufferPeekChar_spec h
    refine ⟨heap, buffer, xs, _, by simp only [ByteOp.run, hrun]; rfl, h, .refl heap xs, rfl, ?_⟩
    rw [firstChar_toInt]
  | discard n =>
    obtain ⟨heap', buffer', xs', hrun, hbuffer, htouch, hcont⟩ := dataBufferDiscard_spec h hlt n
    exact ⟨heap', buffer', xs', _, by simp only [ByteOp.run, hrun]; rfl, hbuffer, htouch, hcont, rfl⟩
  | readLine =>
    have hline := dataBufferReadLine_spec h hlt
    cases hfind : (contents xs).findIdx? (· = 10) with
    | none =>
      rw [hfind] at hline
      refine ⟨heap, buffer, xs, .string none, by simp only [ByteOp.run, hline]; rfl, h,
        .refl heap xs, ?_⟩
      simp only [ByteOp.Does, hfind, and_self]
    | some k =>
      rw [hfind] at hline
      obtain ⟨heap', buffer', xs', hrun, hbuffer, htouch, hcont⟩ := hline
      refine ⟨heap', buffer', xs', _, by simp only [ByteOp.run, hrun]; rfl, hbuffer, htouch, ?_⟩
      simp only [ByteOp.Does, hfind, and_true]
      exact hcont
  | parseString0 =>
    have hline := dataBufferParseString0_spec h hlt
    cases hfind : (contents xs).findIdx? (· = 0) with
    | none =>
      rw [hfind] at hline
      refine ⟨heap, buffer, xs, .string none, by simp only [ByteOp.run, hline]; rfl, h,
        .refl heap xs, ?_⟩
      simp only [ByteOp.Does, hfind, and_self]
    | some k =>
      rw [hfind] at hline
      obtain ⟨heap', buffer', xs', hrun, hbuffer, htouch, hcont⟩ := hline
      refine ⟨heap', buffer', xs', _, by simp only [ByteOp.run, hrun]; rfl, hbuffer, htouch, ?_⟩
      simp only [ByteOp.Does, hfind, and_true]
      exact hcont
  | indexOf character =>
    have hrun := dataBufferIndexOf_spec h character
    refine ⟨heap, buffer, xs, _, by simp only [ByteOp.run, hrun]; rfl, h, .refl heap xs, rfl, ?_⟩
    cases hfind : (contents xs).findIdx? (· = character) with
    | none => rfl
    | some k =>
      have hk := findIdx?_lt hfind
      exact congrArg Answer.int (int32_ofNat_toInt (by omega))
  | reset =>
    obtain ⟨heap', buffer', hrun, hbuffer, htouch⟩ := dataBufferReset_spec h
    exact ⟨heap', buffer', [], _, by simp only [ByteOp.run, hrun]; rfl, hbuffer, htouch, rfl, rfl⟩
  | readInFd received =>
    obtain ⟨heap', buffer', xs', hrun, hbuffer, htouch, hcont⟩ := dataBufferReadInFd_spec h received
    refine ⟨heap', buffer', xs', _, by simp only [ByteOp.run, hrun]; rfl, hbuffer, htouch, ?_⟩
    cases received with
    | none => exact ⟨hcont.trans (List.append_nil _), rfl⟩
    | some data =>
      refine ⟨hcont, congrArg Answer.int (int32_ofNat_toInt ?_)⟩
      change _ + data.length < _ at hsmall
      omega
  | writev outcome =>
    obtain ⟨heap', buffer', xs', iov, hrun, hiov, hbuffer, htouch, hcont⟩ :=
      dataBufferWritev_spec h hlt outcome
    have hle := hiov.length_le
    obtain ⟨htaken, hrv⟩ := taken_eq outcome (show iov.flatten.length < 2 ^ 31 by omega)
    refine ⟨heap', buffer', xs', _, by simp only [ByteOp.run, hrun]; rfl, hbuffer, htouch, iov,
      hiov, ?_, ?_⟩
    · rw [hrv]
    · rw [hcont, htaken]
  | writevLen maxBytes outcome =>
    obtain ⟨heap', buffer', xs', iov, hrun, hiov, hbuffer, htouch, hcont⟩ :=
      dataBufferWritevLen_spec h hlt maxBytes outcome
    have hle := hiov.length_le
    rw [List.length_take] at hle
    obtain ⟨htaken, hrv⟩ := taken_eq outcome (show iov.flatten.length < 2 ^ 31 by omega)
    refine ⟨heap', buffer', xs', _, by simp only [ByteOp.run, hrun]; rfl, hbuffer, htouch, iov,
      hiov, ?_, ?_⟩
    · rw [hrv]
    · rw [hcont, htaken]

/-! ## All buffers -/

theorem length_le_flatten {bs : List (List UInt8)} {k : ℕ} {s : List UInt8} (h : bs[k]? = some s) :
    s.length ≤ bs.flatten.length := by
  obtain ⟨l, r, rfl⟩ := List.append_of_mem (List.mem_of_getElem? h)
  rw [List.flatten_append, List.flatten_cons, List.length_append, List.length_append]
  omega

section
variable {w : BufferWorld} {bs : List (List UInt8)} {xss : ℕ → List (ℕ × Fragment)}

/-- The operation on buffer `k` turns its fragments into `xs'` and leaves the others alone. -/
theorem represents_one (hlen : w.buffers.length = bs.length)
    (hbuf : ∀ (k : ℕ) (buffer : DataBuffer), w.buffers[k]? = some buffer →
      IsBuffer w.heap buffer (xss k) ∧ bs[k]? = some (contents (xss k)))
    (hapart : ∀ j k : ℕ, j < bs.length → k < bs.length → j ≠ k → Apart (xss j) (xss k))
    {k : ℕ} (hk : k < bs.length) {heap' : FragmentHeap} {buffer' : DataBuffer}
    {xs' : List (ℕ × Fragment)} (hnew : IsBuffer heap' buffer' xs')
    (htouch : Touches w.heap heap' (xss k) xs') :
    BufferWorld.Represents ⟨heap', w.buffers.set k buffer'⟩ (bs.set k (contents xs')) := by
  have hothers : ∀ (j : ℕ) (buffer : DataBuffer), j ≠ k → w.buffers[j]? = some buffer →
      IsBuffer heap' buffer (xss j) ∧ Apart xs' (xss j) := by
    intro j buffer hj hget
    have hjlt := (List.getElem?_eq_some_iff.mp hget).1
    obtain ⟨hold, -⟩ := hbuf j buffer hget
    obtain ⟨hchain, hap⟩ := hold.toIsChain.kept htouch (hapart k j hk (by omega) (Ne.symm hj))
    exact ⟨⟨hchain, hold.size⟩, hap⟩
  refine ⟨Function.update xss k xs', ?_, fun j buffer hget => ?_, fun i j hi hj hij => ?_⟩
  · rw [List.length_set, List.length_set, hlen]
  · rw [List.getElem?_set] at hget ⊢
    by_cases hjk : k = j
    · subst hjk
      rw [if_pos rfl, if_pos (by omega), Option.some.injEq] at hget
      rw [if_pos rfl, if_pos hk, Function.update_self, ← hget]
      exact ⟨hnew, rfl⟩
    · rw [if_neg hjk] at hget ⊢
      rw [Function.update_of_ne (Ne.symm hjk)]
      exact ⟨(hothers j buffer (Ne.symm hjk) hget).1, (hbuf j buffer hget).2⟩
  · rw [List.length_set] at hi hj
    have hget : ∀ m < bs.length, ∃ buffer, w.buffers[m]? = some buffer :=
      fun m hm => ⟨_, List.getElem?_eq_getElem (by omega)⟩
    by_cases hik : i = k
    · subst hik
      obtain ⟨buffer, hb⟩ := hget j hj
      rw [Function.update_self, Function.update_of_ne (Ne.symm hij)]
      exact (hothers j buffer (Ne.symm hij) hb).2
    · obtain ⟨buffer, hb⟩ := hget i hi
      rw [Function.update_of_ne hik]
      by_cases hjk : j = k
      · subst hjk
        rw [Function.update_self]
        exact (hothers i buffer hij hb).2.symm
      · rw [Function.update_of_ne hjk]
        exact hapart i j hi hj hij

theorem represents_two (hlen : w.buffers.length = bs.length)
    (hbuf : ∀ (k : ℕ) (buffer : DataBuffer), w.buffers[k]? = some buffer →
      IsBuffer w.heap buffer (xss k) ∧ bs[k]? = some (contents (xss k)))
    (hapart : ∀ j k : ℕ, j < bs.length → k < bs.length → j ≠ k → Apart (xss j) (xss k))
    {dst src : ℕ} (hdst : dst < bs.length) (hsrc : src < bs.length) (hne : dst ≠ src)
    {heap' : FragmentHeap} {dst' src' : DataBuffer} {xs' ys' : List (ℕ × Fragment)}
    (hdst' : IsBuffer heap' dst' xs') (hsrc' : IsBuffer heap' src' ys') (hapart' : Apart xs' ys')
    (htouch : Touches w.heap heap' (xss dst ++ xss src) (xs' ++ ys')) :
    BufferWorld.Represents ⟨heap', (w.buffers.set dst dst').set src src'⟩
      ((bs.set dst (contents xs')).set src (contents ys')) := by
  have hmem : ∀ (xs ys : List (ℕ × Fragment)) (i : ℕ),
      i ∈ addresses (xs ++ ys) ↔ i ∈ addresses xs ∨ i ∈ addresses ys := by
    intro xs ys i
    rw [addresses, List.map_append, List.mem_append]
  have hothers : ∀ (j : ℕ) (buffer : DataBuffer), j ≠ dst → j ≠ src →
      w.buffers[j]? = some buffer →
      IsBuffer heap' buffer (xss j) ∧ Apart xs' (xss j) ∧ Apart ys' (xss j) := by
    intro j buffer hjd hjs hget
    have hjlt := (List.getElem?_eq_some_iff.mp hget).1
    obtain ⟨hold, -⟩ := hbuf j buffer hget
    have hboth : Apart (xss dst ++ xss src) (xss j) := by
      intro i hi hin
      obtain hd | hs := (hmem _ _ i).mp hin
      · exact hapart dst j hdst (by omega) (Ne.symm hjd) i hi hd
      · exact hapart src j hsrc (by omega) (Ne.symm hjs) i hi hs
    obtain ⟨hchain, hap⟩ := hold.toIsChain.kept htouch hboth
    exact ⟨⟨hchain, hold.size⟩, fun i hi hin => hap i hi ((hmem _ _ i).mpr (.inl hin)),
      fun i hi hin => hap i hi ((hmem _ _ i).mpr (.inr hin))⟩
  have hget : ∀ m < bs.length, ∃ buffer, w.buffers[m]? = some buffer :=
    fun m hm => ⟨_, List.getElem?_eq_getElem (by omega)⟩
  refine ⟨Function.update (Function.update xss dst xs') src ys', ?_, fun j buffer hgetj => ?_,
    fun i j hi hj hij => ?_⟩
  · simp only [List.length_set, hlen]
  · rw [List.getElem?_set] at hgetj ⊢
    rw [List.length_set] at hgetj ⊢
    by_cases hjs : src = j
    · subst hjs
      rw [if_pos rfl, if_pos (by omega), Option.some.injEq] at hgetj
      rw [if_pos rfl, if_pos hsrc, Function.update_self, ← hgetj]
      exact ⟨hsrc', rfl⟩
    · rw [if_neg hjs, List.getElem?_set] at hgetj ⊢
      rw [Function.update_of_ne (Ne.symm hjs)]
      by_cases hjd : dst = j
      · subst hjd
        rw [if_pos rfl, if_pos (by omega), Option.some.injEq] at hgetj
        rw [if_pos rfl, if_pos hdst, Function.update_self, ← hgetj]
        exact ⟨hdst', rfl⟩
      · rw [if_neg hjd] at hgetj ⊢
        rw [Function.update_of_ne (Ne.symm hjd)]
        exact ⟨(hothers j buffer (Ne.symm hjd) (Ne.symm hjs) hgetj).1, (hbuf j buffer hgetj).2⟩
  · simp only [List.length_set] at hi hj
    have hsrcs : (Function.update (Function.update xss dst xs') src ys') src = ys' :=
      Function.update_self ..
    have hdsts : (Function.update (Function.update xss dst xs') src ys') dst = xs' := by
      rw [Function.update_of_ne hne, Function.update_self]
    have hrest : ∀ m, m ≠ dst → m ≠ src →
        (Function.update (Function.update xss dst xs') src ys') m = xss m := by
      intro m hmd hms
      rw [Function.update_of_ne hms, Function.update_of_ne hmd]
    by_cases hid : i = dst
    · subst hid
      rw [hdsts]
      by_cases hjs : j = src
      · subst hjs
        rw [hsrcs]
        exact hapart'
      · obtain ⟨buffer, hb⟩ := hget j hj
        rw [hrest j (Ne.symm hij) hjs]
        exact (hothers j buffer (Ne.symm hij) hjs hb).2.1
    · by_cases his : i = src
      · subst his
        rw [hsrcs]
        by_cases hjd : j = dst
        · subst hjd
          rw [hdsts]
          exact hapart'.symm
        · obtain ⟨buffer, hb⟩ := hget j hj
          rw [hrest j hjd (Ne.symm hij)]
          exact (hothers j buffer hjd (Ne.symm hij) hb).2.2
      · obtain ⟨buffer, hb⟩ := hget i hi
        rw [hrest i hid his]
        by_cases hjd : j = dst
        · subst hjd
          rw [hdsts]
          exact (hothers i buffer hid his hb).2.1.symm
        · by_cases hjs : j = src
          · subst hjs
            rw [hsrcs]
            exact (hothers i buffer hid his hb).2.2.symm
          · rw [hrest j hjd hjs]
            exact hapart i j hi hj hij

end

theorem BufferWorld.Represents.step {w : BufferWorld} {bs : List (List UInt8)} (h : w.Represents bs)
    {op : BufferOp} (hproper : op.Proper bs) : ∃ w' answer bs',
      w.step op = .ok (w', answer) ∧ op.Does bs bs' answer ∧ w'.Represents bs' := by
  obtain ⟨xss, hlen, hbuf, hapart⟩ := h
  obtain ⟨hsmall, hshape⟩ := hproper
  have hget : ∀ m < bs.length, ∃ buffer, w.buffers[m]? = some buffer :=
    fun m hm => ⟨_, List.getElem?_eq_getElem (by omega)⟩
  have hbuffer : ∀ (m : ℕ) (buffer : DataBuffer), w.buffers[m]? = some buffer →
      w.buffer m = .ok buffer := by
    intro m buffer hm
    unfold BufferWorld.buffer
    rw [hm]
  cases op with
  | on k op =>
    have hk : k < bs.length := by
      cases op with
      | readInFd received =>
        cases received with
        | none => exact hshape
        | some data => exact hshape.1
      | _ => exact hshape
    obtain ⟨buffer, hb⟩ := hget k hk
    obtain ⟨hold, hs⟩ := hbuf k buffer hb
    have hadds : (BufferOp.on k op).adds = op.adds := rfl
    have hle := length_le_flatten hs
    obtain ⟨heap', buffer', xs', answer, hrun, hnew, htouch, hdoes⟩ :=
      op.run_spec hold (by omega)
    refine ⟨_, answer, _, ?_, ⟨_, _, hs, hdoes, rfl⟩, represents_one hlen hbuf hapart hk hnew htouch⟩
    simp only [BufferWorld.step, hbuffer k buffer hb, except_ok_bind, hrun]
    rfl
  | drain dst src =>
    obtain ⟨hdst, hsrc, hne⟩ := hshape
    obtain ⟨bd, hbd⟩ := hget dst hdst
    obtain ⟨bt, hbt⟩ := hget src hsrc
    obtain ⟨hd, hs⟩ := hbuf dst bd hbd
    obtain ⟨ht, hst⟩ := hbuf src bt hbt
    obtain ⟨heap', dst', src', xs', hrun, hdst', hsrc', htouch, hcont⟩ :=
      dataBufferDrain_spec hd ht (hapart dst src hdst hsrc hne)
    have hrep := represents_two hlen hbuf hapart hdst hsrc hne hdst' hsrc'
      (fun i hi => absurd hi List.not_mem_nil) (by rw [List.append_nil]; exact htouch)
    rw [hcont, contents_nil] at hrep
    refine ⟨_, _, _, ?_, ⟨_, _, hs, hst, rfl, rfl⟩, hrep⟩
    simp only [BufferWorld.step, hbuffer dst bd hbd, hbuffer src bt hbt, except_ok_bind, hrun]
    rfl
  | transfer dst src n =>
    obtain ⟨hdst, hsrc, hne⟩ := hshape
    obtain ⟨bd, hbd⟩ := hget dst hdst
    obtain ⟨bt, hbt⟩ := hget src hsrc
    obtain ⟨hd, hs⟩ := hbuf dst bd hbd
    obtain ⟨ht, hst⟩ := hbuf src bt hbt
    have hle := length_le_flatten hst
    obtain ⟨heap', dst', src', xs', ys', hrun, hdst', hsrc', hapart', htouch, hcont, hrest⟩ :=
      dataBufferTransfer_spec hd ht (hapart dst src hdst hsrc hne) (by omega) n
    have hrep := represents_two hlen hbuf hapart hdst hsrc hne hdst' hsrc' hapart' htouch
    rw [hcont, hrest] at hrep
    refine ⟨_, _, _, ?_, ⟨_, _, hs, hst, rfl, rfl⟩, hrep⟩
    simp only [BufferWorld.step, hbuffer dst bd hbd, hbuffer src bt hbt, except_ok_bind, hrun]
    rfl

theorem represents_start (n : ℕ) :
    (BufferWorld.start n).Represents (List.replicate n []) := by
  refine ⟨fun _ => [], ?_, fun k buffer hget => ?_, fun _ _ _ _ _ _ hi =>
    absurd hi List.not_mem_nil⟩
  · simp [BufferWorld.start]
  · obtain ⟨hlt, hb⟩ := List.getElem?_eq_some_iff.mp hget
    simp only [BufferWorld.start, List.length_replicate] at hlt
    simp only [BufferWorld.start, List.getElem_replicate] at hb
    rw [← hb, List.getElem?_replicate, if_pos hlt]
    exact ⟨isBuffer_init _, rfl⟩

/-- Over every sequence of operations on any number of new buffers, each of them succeeds and does
what its name says, and in between the buffers hold their strings. -/
theorem buffers_fifo (n : ℕ) (ops : List BufferOp) :
    BufferWorld.Fifo ops (.start n) (List.replicate n []) := by
  have hrun : ∀ (ops : List BufferOp) (w : BufferWorld) (bs : List (List UInt8)),
      w.Represents bs → BufferWorld.Fifo ops w bs := by
    intro ops
    induction ops with
    | nil => exact fun w bs h => h
    | cons op ops ih =>
      intro w bs h
      refine ⟨h, fun hproper => ?_⟩
      obtain ⟨w', answer, bs', hstep, hdoes, h'⟩ := h.step hproper
      exact ⟨w', answer, bs', hstep, hdoes, ih w' bs' h'⟩
  exact hrun ops _ _ (represents_start n)

end ProtobufC
