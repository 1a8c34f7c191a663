import ProtobufC.Runtime.Allocator
import ProtobufC.Runtime.Pack

/-! # `protobuf_c_message_pack_to_buffer`

The third serialisation walk, through the `append` method of a `ProtobufCBuffer`.  A buffer of type
`β` lives beside the state `η` of `protobuf_c_default_allocator`, which the temporary buffers of
sub-messages grow from.  `append len data` is given the valid bytes at its data pointer; `len` may
exceed their number.
-/

namespace ProtobufC
open Library
set_option autoImplicit false

variable {β η : Type}

/-- `buffer->append` -/
abbrev Append (β η : Type) := ℕ → List UInt8 → Run (β × η) Unit

/-- `ProtobufCBufferSimple`; `data` holds the `len` bytes appended so far and `addr` is their block,
or `none` for the array the buffer was started on. -/
structure BufferSimple where
  alloced : ℕ
  data : List UInt8
  addr : Option Addr
  mustFreeData : Bool
  deriving DecidableEq, Repr

/-- `PROTOBUF_C_BUFFER_SIMPLE_INIT (array)`, for an array of `alloced` bytes. -/
def BufferSimple.init (alloced : ℕ) : BufferSimple := ⟨alloced, [], none, false⟩

/-- A computation on the default allocator, in the larger store. -/
def onHeap {α : Type} (x : Run η α) : Run (β × η) α := fun (b, h) =>
  match x h with
  | .ok (a, h') => .ok (a, (b, h'))
  | .error e => .error e

/-- `while (new_alloced < new_len) new_alloced += new_alloced;`; `none` when it never ends. -/
def growLoop (newLen : ℕ) : ℕ → ℕ → Option ℕ
  | 0, _ => none
  | fuel + 1, newAlloced =>
      if newAlloced < newLen then growLoop newLen fuel (newAlloced + newAlloced)
      else some newAlloced

/-- `if (new_len > simp->alloced) { .. }` of `protobuf_c_buffer_simple_append`: `false` where the
allocation failed and the function returns. -/
def bufferSimpleReserve (A : Allocator η) (newLen : ℕ) : Run (BufferSimple × η) Bool := do
  let (simp, _) ← get
  if newLen ≤ simp.alloced then return true
  else
    match growLoop newLen (newLen + 1) (simp.alloced * 2) with
    | none => fault .hang
    | some new_alloced =>
        match ← onHeap (A.doAlloc new_alloced) with
        | none => return false
        | some new_data =>
            onHeap (if simp.mustFreeData then A.freePtr simp.addr else pure ())
            modify fun (simp, h) =>
              ({ simp with alloced := new_alloced, addr := new_data, mustFreeData := true }, h)
            return true

/-- `protobuf_c_buffer_simple_append` -/
def bufferSimpleAppend (A : Allocator η) : Append BufferSimple η := fun len data => do
  let (simp, _) ← get
  let room ← bufferSimpleReserve A (simp.data.length + len)
  if room then
    let bytes ← require (if len ≤ data.length then .ok (data.take len) else .error .access)
    modify fun (simp, h) => ({ simp with data := simp.data ++ bytes }, h)
  else return

/-- `PROTOBUF_C_BUFFER_SIMPLE_CLEAR (&simple_buffer)` -/
def bufferSimpleClear (A : Allocator η) (simple : BufferSimple) : Run η Unit :=
  if simple.mustFreeData then A.freePtr simple.addr else pure ()

/-- A computation on a local `simple_buffer`, and the buffer it leaves. -/
def withSimpleBuffer {α : Type} (x : Run (BufferSimple × η) α) (simple : BufferSimple) :
    Run (β × η) (α × BufferSimple) := fun (b, h) =>
  match x (simple, h) with
  | .ok (a, (simple', h')) => .ok ((a, simple'), (b, h'))
  | .error e => .error e

/-- Bytes written into a local array `scratch` of `size` bytes. -/
def scratchBytes (size : ℕ) (bytes : List UInt8) : Except Fault (List UInt8) :=
  if bytes.length ≤ size then .ok bytes else .error .access

/-! ## Fields -/

section Walk
variable (A : Allocator η) (append : Append β η) (sub : Message → Run (BufferSimple × η) ℕ)

/-- `buffer->append (buffer, rv, scratch)` -/
def appendScratch (size : ℕ) (bytes : List UInt8) : Run (β × η) ℕ := do
  let scratch ← require (scratchBytes size bytes)
  append scratch.length scratch
  return scratch.length

/-- `required_field_pack_to_buffer` -/
def requiredFieldPackToBuffer (field : FieldDescriptor) (member : Value) : Run (β × η) ℕ :=
  let scratch (code : UInt8) := orFirst (tagPack field.id) code
  match field.type with
  | .sint32 => do
      let v ← require member.loadWord32
      appendScratch append 20 (scratch WireType.varint.code ++ sint32Pack v.toInt32)
  | .int32 => do
      let v ← require member.loadWord32
      appendScratch append 20 (scratch WireType.varint.code ++ int32Pack v.toInt32)
  | .uint32 | .enum => do
      let v ← require member.loadWord32
      appendScratch append 20 (scratch WireType.varint.code ++ uint32Pack v)
  | .sint64 => do
      let v ← require member.loadWord64
      appendScratch append 20 (scratch WireType.varint.code ++ sint64Pack v.toInt64)
  | .int64 | .uint64 => do
      let v ← require member.loadWord64
      appendScratch append 20 (scratch WireType.varint.code ++ uint64Pack v)
  | .sfixed32 | .fixed32 | .float => do
      let v ← require member.loadWord32
      appendScratch append 20 (scratch WireType.bit32.code ++ fixed32Pack v)
  | .sfixed64 | .fixed64 | .double => do
      let v ← require member.loadWord64
      appendScratch append 20 (scratch WireType.bit64.code ++ fixed64Pack v)
  | .bool => do
      let v ← require member.loadBoolean
      appendScratch append 20 (scratch WireType.varint.code ++ booleanPack v)
  | .string => do
      let str ← require member.loadString
      let sublen := match str with
        | some p => (cString p.val).length
        | none => 0
      let rv ← appendScratch append 20
        (scratch WireType.lengthPrefixed.code ++ uint32Pack (UInt32.ofNat sublen))
      append sublen (str.elim [] Ptr.val)
      return rv + sublen
  | .bytes => do
      let (sublen, data) ← require member.loadBytes
      let rv ← appendScratch append 20
        (scratch WireType.lengthPrefixed.code ++ uint32Pack (UInt32.ofNat sublen))
      append sublen (data.elim [] Ptr.val)
      return rv + sublen
  | .message => do
      let (sublen, simple_buffer) ← match ← require member.loadMessage with
        | .null => pure (0, BufferSimple.init 256)
        | .ref _ msg => withSimpleBuffer (sub msg) (BufferSimple.init 256)
      let rv ← appendScratch append 20
        (scratch WireType.lengthPrefixed.code ++ uint32Pack (UInt32.ofNat sublen))
      append sublen simple_buffer.data
      onHeap (bufferSimpleClear A simple_buffer)
      return rv + sublen

/-- `optional_field_pack_to_buffer` -/
def optionalFieldPackToBuffer (field : FieldDescriptor) (has : Int32) (member : Value) :
    Run (β × η) ℕ :=
  if field.isSet has member then requiredFieldPackToBuffer A append sub field member else pure 0

/-- The switch of `get_packed_payload_length`. -/
def packedElementsLength (type : FieldType) (count : ℕ) (vs : List Value) : Except Fault ℕ :=
  match type with
  | .sfixed32 | .fixed32 | .float => return count * 4
  | .sfixed64 | .fixed64 | .double => return count * 8
  | .int32 => sumSizes (fun v => return int32Size (← v.loadWord32).toInt32) vs
  | .sint32 => sumSizes (fun v => return sint32Size (← v.loadWord32).toInt32) vs
  | .enum | .uint32 => sumSizes (fun v => return uint32Size (← v.loadWord32)) vs
  | .sint64 => sumSizes (fun v => return sint64Size (← v.loadWord64).toInt64) vs
  | .int64 | .uint64 => sumSizes (fun v => return uint64Size (← v.loadWord64)) vs
  | .bool => return count
  | .string | .bytes | .message => throw .assertion

/-- `get_packed_payload_length`; `rv` is `unsigned`. -/
def getPackedPayloadLength (type : FieldType) (count : ℕ) (vs : List Value) : Except Fault ℕ := do
  let rv ← packedElementsLength type count vs
  return rv % 2 ^ 32

/-- `for (i = 0; i < count; i++) { len = pack (array[i], scratch); append; rv += len; }` -/
def appendLoop (pack : Value → Except Fault (List UInt8)) : List Value → ℕ → Run (β × η) ℕ
  | [], rv => pure rv
  | v :: vs, rv => do
      let bytes ← require (pack v)
      let len ← appendScratch append 16 bytes
      appendLoop pack vs (rv + len)

/-- The bytes of an array of words in memory, on a little-endian machine. -/
def arrayBytes (pack : Value → Except Fault (List UInt8)) (vs : List Value) :
    Except Fault (List UInt8) := do
  return (← vs.mapM pack).flatten

/-- `pack_buffer_packed_payload`; a fixed-width array is appended at `no_packing_needed`. -/
def packBufferPackedPayload (type : FieldType) (count : ℕ) (vs : List Value) : Run (β × η) ℕ :=
  match type with
  | .sfixed32 | .fixed32 | .float => do
      let array ← require (arrayBytes (fun v => return fixed32Pack (← v.loadWord32)) vs)
      let rv := count * 4 % 2 ^ 32
      append rv array
      return rv
  | .sfixed64 | .fixed64 | .double => do
      let array ← require (arrayBytes (fun v => return fixed64Pack (← v.loadWord64)) vs)
      let rv := count * 8 % 2 ^ 32
      append rv array
      return rv
  | .int32 => appendLoop append (fun v => return int32Pack (← v.loadWord32).toInt32) vs 0
  | .sint32 => appendLoop append (fun v => return sint32Pack (← v.loadWord32).toInt32) vs 0
  | .enum | .uint32 => appendLoop append (fun v => return uint32Pack (← v.loadWord32)) vs 0
  | .sint64 => appendLoop append (fun v => return sint64Pack (← v.loadWord64).toInt64) vs 0
  | .int64 | .uint64 => appendLoop append (fun v => return uint64Pack (← v.loadWord64)) vs 0
  | .bool => do
      let _ ← appendLoop append (fun v => return booleanPack (← v.loadBoolean)) vs 0
      return count
  | .string | .bytes | .message => fault .assertion

/-- `for (i = 0; i < count; i++) rv += required_field_pack_to_buffer (field, array, buffer);`, with
an `unsigned` `rv`. -/
def requiredFieldPackToBufferLoop (field : FieldDescriptor) : List Value → ℕ → Run (β × η) ℕ
  | [], rv => pure rv
  | v :: vs, rv => do
      let n ← requiredFieldPackToBuffer A append sub field v
      requiredFieldPackToBufferLoop field vs ((rv + n) % 2 ^ 32)

/-- `repeated_field_pack_to_buffer`; `count` is `unsigned`. -/
def repeatedFieldPackToBuffer (field : FieldDescriptor) (count : ℕ) (array : CArray Value) :
    Run (β × η) ℕ :=
  if count = 0 then pure 0
  else do
    let vs ← require (array.load count)
    if field.packed then do
      let payload_len ← require (getPackedPayloadLength field.type count vs)
      let rv ← appendScratch append 20 (orFirst (tagPack field.id) WireType.lengthPrefixed.code ++
        uint32Pack (UInt32.ofNat payload_len))
      let tmp ← packBufferPackedPayload append field.type count vs
      if tmp ≠ payload_len then fault .assertion
      return rv + payload_len
    else requiredFieldPackToBufferLoop A append sub field vs 0

/-- `unknown_field_pack_to_buffer` -/
def unknownFieldPackToBuffer (field : MessageUnknownField) : Run (β × η) ℕ := do
  let rv ← appendScratch append 10 (orFirst (tagPack field.tag) field.wireType.code)
  append field.len (field.data.elim [] Ptr.val)
  return rv + field.len

/-! ## Messages -/

/-- The member of a field and its quantifier, handed to one of the three functions by label. -/
def fieldPackToBuffer (field : FieldDescriptor) (slot : Slot) : Run (β × η) ℕ :=
  match field.label, slot with
  | .required, .singular _ member => requiredFieldPackToBuffer A append sub field member
  | .optional, .singular has member => optionalFieldPackToBuffer A append sub field has member
  | .repeated, .repeated array =>
      repeatedFieldPackToBuffer A append sub field (array.n % 2 ^ 32) array
  | _, _ => fault .access

/-- The loop over `message->descriptor->fields`. -/
def fieldsPackToBuffer : List FieldDescriptor → List Slot → ℕ → Run (β × η) ℕ
  | [], _, rv => pure rv
  | field :: fields, slot :: slots, rv => do
      let n ← fieldPackToBuffer A append sub field slot
      fieldsPackToBuffer fields slots (rv + n)
  | _ :: _, [], _ => fault .access

/-- The loop over `message->unknown_fields`. -/
def unknownFieldsPackToBuffer : List MessageUnknownField → ℕ → Run (β × η) ℕ
  | [], rv => pure rv
  | u :: us, rv => do
      let n ← unknownFieldPackToBuffer append u
      unknownFieldsPackToBuffer us (rv + n)

/-- The body of `protobuf_c_message_pack_to_buffer`. -/
def messagePackToBufferLayer (S : Schema) (message : Message) : Run (β × η) ℕ := do
  let rv ← fieldsPackToBuffer A append sub (S.desc message.descriptor).fields message.slots 0
  let unknown_fields ← require (message.unknown.load message.unknown.n)
  unknownFieldsPackToBuffer append unknown_fields rv

end Walk

/-- `protobuf_c_message_pack_to_buffer` into a `simple_buffer`. -/
def messagePackToSimple (A : Allocator η) (S : Schema) : Message → Run (BufferSimple × η) ℕ :=
  layerRec Message.depth
    (fun sub => messagePackToBufferLayer A (bufferSimpleAppend A) sub S) (fault .access)

/-- `protobuf_c_message_pack_to_buffer` -/
def messagePackToBuffer (A : Allocator η) (append : Append β η) (S : Schema) (message : Message) :
    Run (β × η) ℕ :=
  messagePackToBufferLayer A append (messagePackToSimple A S) S message

end ProtobufC
