import ProtobufC.Library.Chain
import ProtobufC.Library.Splice
import ProtobufC.Runtime.PackedSize

/-! # Data buffers

`protobuf-c-data-buffer.c`: a buffer is a chain of fragments of 4096 bytes, of which each holds its bytes
from `buf_start` on.  Fragments live in a heap, where an address is a position; what an allocation
leaves in memory is 0.  `size_t` is a natural number where nothing can wrap, and `int` is `Int32`.
-/

namespace ProtobufC
open Library
set_option autoImplicit false

/-! ## Fragments -/

/-- `PROTOBUF_C_FRAGMENT_DATA_SIZE` -/
def fragmentDataSize : ℕ := 4096

/-- `MAX_FRAGMENTS_TO_WRITE` -/
def maxFragmentsToWrite : ℕ := 16

/-- `ProtobufCDataBufferFragment`, with the bytes behind it. -/
structure Fragment where
  next : Option ℕ
  bufStart : ℕ
  bufLength : ℕ
  data : List UInt8
  deriving DecidableEq

/-- The valid bytes, `buf_length` bytes from `protobuf_c_data_buffer_fragment_start` on. -/
def Fragment.bytes (frag : Fragment) : List UInt8 := (frag.data.drop frag.bufStart).take frag.bufLength

/-- `protobuf_c_data_buffer_fragment_avail` -/
def Fragment.avail (frag : Fragment) : ℕ := fragmentDataSize - frag.bufStart - frag.bufLength

/-- The fragments that are allocated. -/
structure FragmentHeap where
  fragments : List (Option Fragment)
  deriving DecidableEq

namespace FragmentHeap

def get (heap : FragmentHeap) (i : ℕ) : Option Fragment := heap.fragments[i]?.join

def set (heap : FragmentHeap) (i : ℕ) (frag : Option Fragment) : FragmentHeap :=
  ⟨heap.fragments.set i frag⟩

/-- `new_native_fragment` -/
def newNativeFragment (heap : FragmentHeap) : ℕ × FragmentHeap :=
  (heap.fragments.length,
    ⟨heap.fragments ++ [some ⟨none, 0, 0, List.replicate fragmentDataSize 0⟩]⟩)

/-- `recycle` -/
def recycle (heap : FragmentHeap) (i : ℕ) : Except Fault FragmentHeap :=
  match heap.get i with
  | none => .error .release
  | some _ => .ok (heap.set i none)

/-- `*frag` -/
def load (heap : FragmentHeap) (i : ℕ) : Except Fault Fragment :=
  match heap.get i with
  | none => .error .access
  | some frag => .ok frag

/-- `frag->.. = ..` -/
def modify (heap : FragmentHeap) (i : ℕ) (f : Fragment → Fragment) : Except Fault FragmentHeap := do
  return heap.set i (some (f (← heap.load i)))

/-- As many steps as a loop over different fragments can take. -/
def fuel (heap : FragmentHeap) : ℕ := heap.fragments.length

end FragmentHeap

/-! ## Buffers -/

/-- `ProtobufCDataBuffer` -/
structure DataBuffer where
  size : ℕ
  firstFrag : Option ℕ
  lastFrag : Option ℕ
  deriving DecidableEq, Inhabited

/-- `protobuf_c_data_buffer_init` -/
def dataBufferInit : DataBuffer := ⟨0, none, none⟩

/-- `size += rv` and `size -= rv` with an `int`, in `size_t`. -/
def addSize (size : ℕ) (rv : ℤ) : ℕ := ((size + rv) % 2 ^ 64).toNat

/-- An `int` returned as `size_t`. -/
def sizeOfInt (rv : Int32) : ℕ := (rv.toInt % 2 ^ 64).toNat

/-! ## Appending -/

/-- The last fragment, with the room to use: a new one where there is none or it is full.  Behind a
full fragment `avail` is still that of the full one, so that nothing is copied in that round. -/
def lastWithRoom (heap : FragmentHeap) (buffer : DataBuffer) :
    Except Fault (FragmentHeap × DataBuffer × ℕ × ℕ) := do
  match buffer.lastFrag with
  | none =>
      let r := heap.newNativeFragment
      return (r.2, { buffer with firstFrag := some r.1, lastFrag := some r.1 }, r.1, fragmentDataSize)
  | some last =>
      let frag ← heap.load last
      if frag.avail ≤ 0 then
        let r := heap.newNativeFragment
        let heap ← r.2.modify last fun frag => { frag with next := some r.1 }
        return (heap, { buffer with lastFrag := some r.1 }, r.1, frag.avail)
      else return (heap, buffer, last, frag.avail)

/-- `memcpy (protobuf_c_data_buffer_fragment_end (frag), bs, avail)` and `buf_length += avail` -/
def fragmentAppend (heap : FragmentHeap) (i : ℕ) (bs : List UInt8) : Except Fault FragmentHeap := do
  let frag ← heap.load i
  let r ← writeAt (frag.bufStart + frag.bufLength) bs frag.data
  return heap.set i (some { frag with data := r.2, bufLength := frag.bufLength + bs.length })

/-- The loop of `protobuf_c_data_buffer_append`. -/
def fragmentLoop : ℕ → FragmentHeap → DataBuffer → List UInt8 →
    Except Fault (FragmentHeap × DataBuffer)
  | _, heap, buffer, [] => .ok (heap, buffer)
  | 0, _, _, _ :: _ => .error .hang
  | fuel + 1, heap, buffer, data@(_ :: _) => do
      let (heap, buffer, last, avail) ← lastWithRoom heap buffer
      let avail := if avail > data.length then data.length else avail
      let heap ← fragmentAppend heap last (data.take avail)
      fragmentLoop fuel heap buffer (data.drop avail)

/-- `protobuf_c_data_buffer_append` -/
def dataBufferAppend (heap : FragmentHeap) (buffer : DataBuffer) (data : List UInt8) :
    Except Fault (FragmentHeap × DataBuffer) :=
  fragmentLoop (2 * data.length) heap { buffer with size := buffer.size + data.length } data

/-- `protobuf_c_data_buffer_append_repeated_char`, the same loop with `memset` in place of `memcpy`. -/
def dataBufferAppendRepeatedChar (heap : FragmentHeap) (buffer : DataBuffer) (character : UInt8)
    (count : ℕ) : Except Fault (FragmentHeap × DataBuffer) :=
  dataBufferAppend heap buffer (List.replicate count character)

/-- `protobuf_c_data_buffer_append_string` -/
def dataBufferAppendString (heap : FragmentHeap) (buffer : DataBuffer) (string : List UInt8) :
    Except Fault (FragmentHeap × DataBuffer) :=
  dataBufferAppend heap buffer (cString string)

/-- `protobuf_c_data_buffer_append_char` -/
def dataBufferAppendChar (heap : FragmentHeap) (buffer : DataBuffer) (character : UInt8) :
    Except Fault (FragmentHeap × DataBuffer) :=
  dataBufferAppend heap buffer [character]

/-- `protobuf_c_data_buffer_append_string0`; the byte behind the string is its NUL. -/
def dataBufferAppendString0 (heap : FragmentHeap) (buffer : DataBuffer) (string : List UInt8) :
    Except Fault (FragmentHeap × DataBuffer) :=
  dataBufferAppend heap buffer (cString string ++ [0])

/-! ## Removing -/

/-- The loop of `protobuf_c_data_buffer_read` and of `protobuf_c_data_buffer_discard`, with the bytes
that it passes. -/
def removeLoop : ℕ → FragmentHeap → DataBuffer → ℕ → List UInt8 →
    Except Fault (FragmentHeap × DataBuffer × List UInt8)
  | fuel, heap, buffer, maxLength, removed =>
      if maxLength > 0 then
        match buffer.firstFrag with
        | none => .ok (heap, buffer, removed)
        | some first =>
            match fuel with
            | 0 => .error .hang
            | fuel + 1 => do
                let frag ← heap.load first
                if frag.bufLength ≤ maxLength then
                  let buffer := { buffer with
                    firstFrag := frag.next
                    lastFrag := if frag.next.isNone then none else buffer.lastFrag }
                  removeLoop fuel (← heap.recycle first) buffer (maxLength - frag.bufLength)
                    (removed ++ frag.bytes)
                else
                  let heap ← heap.modify first fun frag => { frag with
                    bufLength := frag.bufLength - maxLength
                    bufStart := frag.bufStart + maxLength }
                  return (heap, buffer, removed ++ frag.bytes.take maxLength)
      else .ok (heap, buffer, removed)

/-- `protobuf_c_data_buffer_read` -/
def dataBufferRead (heap : FragmentHeap) (buffer : DataBuffer) (maxLength : ℕ) :
    Except Fault (FragmentHeap × DataBuffer × List UInt8) := do
  let (heap, buffer, data) ← removeLoop (heap.fuel + 1) heap buffer maxLength []
  let rv := data.length
  let buffer := { buffer with size := addSize buffer.size (-rv) }
  if rv = maxLength ∨ buffer.size = 0 then return (heap, buffer, data) else .error .assertion

/-- `protobuf_c_data_buffer_discard` -/
def dataBufferDiscard (heap : FragmentHeap) (buffer : DataBuffer) (maxDiscard : ℕ) :
    Except Fault (FragmentHeap × DataBuffer × ℕ) := do
  let (heap, buffer, data) ← removeLoop (heap.fuel + 1) heap buffer maxDiscard []
  let rv := Int32.ofNat data.length
  return (heap, { buffer with size := addSize buffer.size (-rv.toInt) }, sizeOfInt rv)

/-- `protobuf_c_data_buffer_reset` -/
def resetLoop : ℕ → FragmentHeap → Option ℕ → Except Fault FragmentHeap
  | _, heap, none => .ok heap
  | 0, _, some _ => .error .hang
  | fuel + 1, heap, some at_ => do
      let next := (← heap.load at_).next
      resetLoop fuel (← heap.recycle at_) next

def dataBufferReset (heap : FragmentHeap) (buffer : DataBuffer) :
    Except Fault (FragmentHeap × DataBuffer) := do
  return (← resetLoop (heap.fuel + 1) heap buffer.firstFrag, ⟨0, none, none⟩)

/-- `protobuf_c_data_buffer_clear` -/
def dataBufferClear (heap : FragmentHeap) (buffer : DataBuffer) : Except Fault FragmentHeap :=
  resetLoop (heap.fuel + 1) heap buffer.firstFrag

/-! ## Looking -/

/-- A loop over the fragments of a buffer. -/
def DataBuffer.walk {σ ρ : Type} (heap : FragmentHeap) (buffer : DataBuffer)
    (step : σ → Fragment → σ ⊕ ρ) (done : σ → ρ) (s : σ) : Except Fault ρ :=
  Library.walk Fragment.next heap.get step done (heap.fuel + 1) buffer.firstFrag s

/-- One fragment of `protobuf_c_data_buffer_peek`: what may still be copied, what was copied, `rv`. -/
def peekStep (s : ℕ × List UInt8 × Int32) (frag : Fragment) :
    (ℕ × List UInt8 × Int32) ⊕ (List UInt8 × Int32) :=
  if s.1 > 0 then
    if frag.bufLength ≤ s.1 then
      .inl (s.1 - frag.bufLength, s.2.1 ++ frag.bytes, s.2.2 + Int32.ofNat frag.bufLength)
    else .inr (s.2.1 ++ frag.bytes.take s.1, s.2.2 + Int32.ofNat s.1)
  else .inr s.2

/-- `protobuf_c_data_buffer_peek` -/
def dataBufferPeek (heap : FragmentHeap) (buffer : DataBuffer) (maxLength : ℕ) :
    Except Fault (List UInt8 × ℕ) := do
  let r ← buffer.walk heap peekStep Prod.snd (maxLength, [], 0)
  return (r.1, sizeOfInt r.2)

/-- One fragment of `protobuf_c_data_buffer_index_of`, and of the search for the end of a line. -/
def indexOfStep (character : UInt8) (rv : Int32) (frag : Fragment) : Int32 ⊕ Option Int32 :=
  match frag.bytes.findIdx? (· = character) with
  | some saught => .inr (some (Int32.ofNat saught + rv))
  | none => .inl (rv + Int32.ofNat frag.bufLength)

/-- The index of a byte, `none` where the loop ends without it. -/
def dataBufferFind (heap : FragmentHeap) (buffer : DataBuffer) (character : UInt8) :
    Except Fault (Option Int32) :=
  buffer.walk heap (indexOfStep character) (fun _ => none) 0

/-- `protobuf_c_data_buffer_index_of` -/
def dataBufferIndexOf (heap : FragmentHeap) (buffer : DataBuffer) (char_to_find : UInt8) :
    Except Fault Int32 := do
  return (← dataBufferFind heap buffer char_to_find).getD (-1)

/-- `rv = alloc (length)`, which is filled with `data`, and `rv[at] = 0` where the source says so. -/
def fillString (length : ℕ) (data : List UInt8) (at_ : Option ℕ) : Except Fault (List UInt8) := do
  let r ← writeAt 0 data (List.replicate length 0)
  match at_ with
  | none => return r.2
  | some i => return (← writeAt i [0] r.2).2

/-- `protobuf_c_data_buffer_read_line`; the line comes with its NUL. -/
def dataBufferReadLine (heap : FragmentHeap) (buffer : DataBuffer) :
    Except Fault (FragmentHeap × DataBuffer × Option (List UInt8)) := do
  match ← dataBufferFind heap buffer 10 with
  | none => return (heap, buffer, none)
  | some len =>
      let (heap, buffer, data) ← dataBufferRead heap buffer (sizeOfInt (len + 1))
      return (heap, buffer, some (← fillString (sizeOfInt (len + 1)) data (some (sizeOfInt len))))

/-- `protobuf_c_data_buffer_parse_string0` -/
def dataBufferParseString0 (heap : FragmentHeap) (buffer : DataBuffer) :
    Except Fault (FragmentHeap × DataBuffer × Option (List UInt8)) := do
  let index0 ← dataBufferIndexOf heap buffer 0
  if index0 < 0 then return (heap, buffer, none)
  else
    let (heap, buffer, data) ← dataBufferRead heap buffer (sizeOfInt (index0 + 1))
    return (heap, buffer, some (← fillString (sizeOfInt (index0 + 1)) data none))

/-- `protobuf_c_data_buffer_peek_char` -/
def dataBufferPeekChar (heap : FragmentHeap) (buffer : DataBuffer) : Except Fault Int32 := do
  if buffer.size = 0 then return -1
  else
    let found ← buffer.walk heap (fun (_ : Unit) frag =>
      if frag.bufLength > 0 then .inr (some frag) else .inl ()) (fun _ => none) ()
    match found with
    | none => .error .access
    | some frag =>
        match frag.data[frag.bufStart]? with
        | none => .error .access
        | some c => return Int32.ofNat c.toNat

/-- `protobuf_c_data_buffer_read_char` -/
def dataBufferReadChar (heap : FragmentHeap) (buffer : DataBuffer) :
    Except Fault (FragmentHeap × DataBuffer × Int32) := do
  let (heap, buffer, data) ← dataBufferRead heap buffer 1
  match data with
  | [] => return (heap, buffer, -1)
  | c :: _ => return (heap, buffer, Int32.ofNat c.toNat)

/-! ## Files -/

/-- What `writev` does: it accepts some of the bytes it is offered, or fails. -/
inductive WritevOutcome
  | accepts (count : ℕ)
  | ignorable
  | fails
  deriving DecidableEq

/-- What `writev` returns for these blocks, as an `int`. -/
def WritevOutcome.rv (outcome : WritevOutcome) (iov : List (List UInt8)) : Int32 :=
  match outcome with
  | .accepts count => Int32.ofNat (min count iov.flatten.length)
  | .ignorable | .fails => -1

/-- What follows `writev`: the bytes that it accepted are discarded. -/
def finishWritev (heap : FragmentHeap) (buffer : DataBuffer) (iov : List (List UInt8))
    (outcome : WritevOutcome) : Except Fault (FragmentHeap × DataBuffer × Int32) := do
  let rv := outcome.rv iov
  if rv < 0 ∧ outcome = .ignorable then return (heap, buffer, 0)
  else if rv ≤ 0 then return (heap, buffer, rv)
  else
    let r ← dataBufferDiscard heap buffer (sizeOfInt rv)
    return (r.1, r.2.1, rv)

/-- One fragment of `protobuf_c_data_buffer_writev`: `nfrag` fragments may still be taken. -/
def writevStep (s : ℕ × List (List UInt8)) (frag : Fragment) :
    (ℕ × List (List UInt8)) ⊕ List (List UInt8) :=
  if s.1 > 0 then .inl (s.1 - 1, s.2 ++ [frag.bytes]) else .inr s.2

/-- `protobuf_c_data_buffer_writev`, with the blocks it hands to `writev`. -/
def dataBufferWritev (heap : FragmentHeap) (buffer : DataBuffer) (outcome : WritevOutcome) :
    Except Fault (FragmentHeap × DataBuffer × List (List UInt8) × Int32) := do
  let iov ← buffer.walk heap writevStep Prod.snd (maxFragmentsToWrite, [])
  let r ← finishWritev heap buffer iov outcome
  return (r.1, r.2.1, iov, r.2.2)

/-- One fragment of `protobuf_c_data_buffer_writev_len`: `bytes` may still be taken. -/
def writevLenStep (s : ℕ × ℕ × List (List UInt8)) (frag : Fragment) :
    (ℕ × ℕ × List (List UInt8)) ⊕ List (List UInt8) :=
  if s.1 > 0 ∧ s.2.1 > 0 then
    .inl (s.1 - 1, s.2.1 - min frag.bufLength s.2.1, s.2.2 ++ [frag.bytes.take s.2.1])
  else .inr s.2.2

/-- `protobuf_c_data_buffer_writev_len` -/
def dataBufferWritevLen (heap : FragmentHeap) (buffer : DataBuffer) (maxBytes : ℕ)
    (outcome : WritevOutcome) :
    Except Fault (FragmentHeap × DataBuffer × List (List UInt8) × Int32) := do
  let iov ← buffer.walk heap writevLenStep (fun s => s.2.2) (maxFragmentsToWrite, maxBytes, [])
  let r ← finishWritev heap buffer iov outcome
  return (r.1, r.2.1, iov, r.2.2)

/-- `protobuf_c_data_buffer_read_in_fd`; `read` delivers some bytes or fails. -/
def dataBufferReadInFd (heap : FragmentHeap) (buffer : DataBuffer) (received : Option (List UInt8)) :
    Except Fault (FragmentHeap × DataBuffer × Int32) := do
  match received with
  | none => return (heap, buffer, -1)
  | some data =>
      let (heap, buffer) ← dataBufferAppend heap buffer data
      return (heap, buffer, Int32.ofNat data.length)

/-! ## Moving -/

/-- `protobuf_c_data_buffer_drain`: `dst`, `src` and what is returned. -/
def dataBufferDrain (heap : FragmentHeap) (dst src : DataBuffer) :
    Except Fault (FragmentHeap × DataBuffer × DataBuffer × ℕ) := do
  let rv := src.size
  if src.firstFrag.isNone then return (heap, dst, src, rv)
  else
    let dst := { dst with size := dst.size + src.size }
    match dst.lastFrag with
    | some last =>
        let heap ← heap.modify last fun frag => { frag with next := src.firstFrag }
        return (heap, { dst with lastFrag := src.lastFrag }, ⟨0, none, none⟩, rv)
    | none =>
        return (heap, { dst with firstFrag := src.firstFrag, lastFrag := src.lastFrag },
          ⟨0, none, none⟩, rv)

/-- The loop of `protobuf_c_data_buffer_transfer` over whole fragments. -/
def transferLoop : ℕ → FragmentHeap → DataBuffer → DataBuffer → ℕ → ℕ →
    Except Fault (FragmentHeap × DataBuffer × DataBuffer × ℕ × ℕ)
  | fuel, heap, dst, src, maxTransfer, rv =>
      match src.firstFrag with
      | none => .ok (heap, dst, src, maxTransfer, rv)
      | some first => do
          let frag ← heap.load first
          if maxTransfer ≥ frag.bufLength then
            match fuel with
            | 0 => .error .hang
            | fuel + 1 => do
                let src := { src with
                  firstFrag := frag.next
                  lastFrag := if frag.next.isNone then none else src.lastFrag }
                let heap ← heap.modify first fun frag => { frag with next := none }
                let (heap, dst) ← match dst.lastFrag with
                  | some last => do
                      let heap ← heap.modify last fun frag => { frag with next := some first }
                      pure (heap, dst)
                  | none => pure (heap, { dst with firstFrag := some first })
                let dst := { dst with lastFrag := some first }
                transferLoop fuel heap dst src (maxTransfer - frag.bufLength) (rv + frag.bufLength)
          else .ok (heap, dst, src, maxTransfer, rv)

/-- `protobuf_c_data_buffer_transfer` -/
def dataBufferTransfer (heap : FragmentHeap) (dst src : DataBuffer) (maxTransfer : ℕ) :
    Except Fault (FragmentHeap × DataBuffer × DataBuffer × ℕ) := do
  let (heap, dst, src, maxTransfer, rv) ← transferLoop (heap.fuel + 1) heap dst src maxTransfer 0
  let dst := { dst with size := dst.size + rv }
  match src.firstFrag with
  | some first =>
      if maxTransfer ≠ 0 then
        let frag ← heap.load first
        let (heap, dst) ← dataBufferAppend heap dst (frag.bytes.take maxTransfer)
        let heap ← heap.modify first fun frag => { frag with
          bufStart := frag.bufStart + maxTransfer
          bufLength := frag.bufLength - maxTransfer }
        return (heap, dst, { src with size := addSize src.size (-(rv + maxTransfer)) },
          rv + maxTransfer)
      else return (heap, dst, { src with size := addSize src.size (-rv) }, rv)
  | none => return (heap, dst, { src with size := addSize src.size (-rv) }, rv)

end ProtobufC
