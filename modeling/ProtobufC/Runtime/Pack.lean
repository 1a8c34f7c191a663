import ProtobufC.Library.Splice
import ProtobufC.Runtime.PackedSize

/-! # `protobuf_c_message_pack`

The second serialisation walk, into an array of bytes.  The store is the array; `out` is an index
into it.  `unsigned` variables are reduced modulo `2^32` where they are assigned.
-/

namespace ProtobufC
open Library
set_option autoImplicit false

/-- The store of the walk: the array that `out` points into. -/
abbrev Pack := Run (List UInt8)

/-- `out[0] |= code` -/
def orByte (out : ℕ) (code : UInt8) : Pack Unit := do
  let byte ← readAt out 1
  writeAt out (orFirst byte code)

/-- The `len` bytes at a `data` pointer. -/
def loadData (len : ℕ) (data : Option (Ptr (List UInt8))) : Except Fault (List UInt8) :=
  match data with
  | some p => if len ≤ p.val.length then .ok (p.val.take len) else .error .access
  | none => if len = 0 then .ok [] else .error .null

/-! ## Length-prefixed members -/

/-- `string_pack` -/
def stringPack (str : Option (Ptr (List UInt8))) (out : ℕ) : Pack ℕ :=
  match str with
  | none => put out [0]
  | some p => do
      let len := (cString p.val).length
      let rv ← put out (uint32Pack (UInt32.ofNat len))
      writeAt (out + rv) (cString p.val)
      return rv + len

/-- `binary_data_pack` -/
def binaryDataPack (len : ℕ) (data : Option (Ptr (List UInt8))) (out : ℕ) : Pack ℕ := do
  let rv ← put out (uint32Pack (UInt32.ofNat len))
  writeAt (out + rv) (← require (loadData len data))
  return rv + len

/-- `prefixed_message_pack` -/
def prefixedMessagePack (sub : Message → ℕ → Pack ℕ) (message : MessagePtr) (out : ℕ) : Pack ℕ :=
  match message with
  | .null => put out [0]
  | .ref _ message => do
      let rv ← sub message (out + 1)
      let rv_packed_size := uint32Size (UInt32.ofNat rv)
      if rv_packed_size ≠ 1 then memmove (out + rv_packed_size) (out + 1) rv
      let n ← put out (uint32Pack (UInt32.ofNat rv))
      return n + rv

/-! ## Fields -/

/-- `required_field_pack` -/
def requiredFieldPack (sub : Message → ℕ → Pack ℕ) (field : FieldDescriptor) (member : Value)
    (out : ℕ) : Pack ℕ := do
  let rv ← put out (tagPack field.id)
  let n ← match field.type with
    | .sint32 => do
        orByte out WireType.varint.code
        put (out + rv) (sint32Pack (← require member.loadWord32).toInt32)
    | .int32 => do
        orByte out WireType.varint.code
        put (out + rv) (int32Pack (← require member.loadWord32).toInt32)
    | .uint32 | .enum => do
        orByte out WireType.varint.code
        put (out + rv) (uint32Pack (← require member.loadWord32))
    | .sint64 => do
        orByte out WireType.varint.code
        put (out + rv) (sint64Pack (← require member.loadWord64).toInt64)
    | .int64 | .uint64 => do
        orByte out WireType.varint.code
        put (out + rv) (uint64Pack (← require member.loadWord64))
    | .sfixed32 | .fixed32 | .float => do
        orByte out WireType.bit32.code
        put (out + rv) (fixed32Pack (← require member.loadWord32))
    | .sfixed64 | .fixed64 | .double => do
        orByte out WireType.bit64.code
        put (out + rv) (fixed64Pack (← require member.loadWord64))
    | .bool => do
        orByte out WireType.varint.code
        put (out + rv) (booleanPack (← require member.loadBoolean))
    | .string => do
        orByte out WireType.lengthPrefixed.code
        stringPack (← require member.loadString) (out + rv)
    | .bytes => do
        orByte out WireType.lengthPrefixed.code
        let (len, data) ← require member.loadBytes
        binaryDataPack len data (out + rv)
    | .message => do
        orByte out WireType.lengthPrefixed.code
        prefixedMessagePack sub (← require member.loadMessage) (out + rv)
  return rv + n

/-- `optional_field_pack` -/
def optionalFieldPack (sub : Message → ℕ → Pack ℕ) (field : FieldDescriptor) (has : Int32)
    (member : Value) (out : ℕ) : Pack ℕ :=
  if field.isSet has member then requiredFieldPack sub field member out else pure 0

/-- `get_type_min_size` -/
def getTypeMinSize (type : FieldType) : ℕ :=
  if type = .sfixed32 ∨ type = .fixed32 ∨ type = .float then 4
  else if type = .sfixed64 ∨ type = .fixed64 ∨ type = .double then 8
  else 1

/-- `for (i = 0; i < count; i++) payload_at += pack (arr[i], payload_at);`, and `payload_at` behind
the loop. -/
def packLoop (pack : Value → Except Fault (List UInt8)) : List Value → ℕ → Pack ℕ
  | [], payload_at => pure payload_at
  | v :: vs, payload_at => do
      let n ← put payload_at (← require (pack v))
      packLoop pack vs (payload_at + n)

/-- The switch of `repeated_field_pack` over the type of a packed field; `copy_to_little_endian_32`
and `copy_to_little_endian_64` are the loop over `fixed32_pack` and `fixed64_pack`. -/
def packPayload (type : FieldType) (vs : List Value) (payload_at : ℕ) : Pack ℕ :=
  match type with
  | .sfixed32 | .fixed32 | .float =>
      packLoop (fun v => return fixed32Pack (← v.loadWord32)) vs payload_at
  | .sfixed64 | .fixed64 | .double =>
      packLoop (fun v => return fixed64Pack (← v.loadWord64)) vs payload_at
  | .int32 => packLoop (fun v => return int32Pack (← v.loadWord32).toInt32) vs payload_at
  | .sint32 => packLoop (fun v => return sint32Pack (← v.loadWord32).toInt32) vs payload_at
  | .sint64 => packLoop (fun v => return sint64Pack (← v.loadWord64).toInt64) vs payload_at
  | .enum | .uint32 => packLoop (fun v => return uint32Pack (← v.loadWord32)) vs payload_at
  | .int64 | .uint64 => packLoop (fun v => return uint64Pack (← v.loadWord64)) vs payload_at
  | .bool => packLoop (fun v => return booleanPack (← v.loadBoolean)) vs payload_at
  | .string | .bytes | .message => fault .assertion

/-- `for (i = 0; i < count; i++) rv += required_field_pack (field, array, out + rv);` -/
def requiredFieldPackLoop (sub : Message → ℕ → Pack ℕ) (field : FieldDescriptor) (out : ℕ) :
    List Value → ℕ → Pack ℕ
  | [], rv => pure rv
  | v :: vs, rv => do
      let n ← requiredFieldPack sub field v (out + rv)
      requiredFieldPackLoop sub field out vs (rv + n)

/-- `repeated_field_pack` -/
def repeatedFieldPack (sub : Message → ℕ → Pack ℕ) (field : FieldDescriptor) (count : ℕ)
    (array : CArray Value) (out : ℕ) : Pack ℕ :=
  if field.packed then
    if count = 0 then pure 0
    else do
      let len_start ← put out (tagPack field.id)
      orByte out WireType.lengthPrefixed.code
      let min_length := getTypeMinSize field.type * count % 2 ^ 32
      let length_size_min := uint32Size (UInt32.ofNat min_length)
      let header_len := len_start + length_size_min
      let vs ← require (array.load count)
      let payload_at ← packPayload field.type vs (out + header_len)
      let payload_len := (payload_at - (out + header_len)) % 2 ^ 32
      let actual_length_size := uint32Size (UInt32.ofNat payload_len)
      let header_len ← if length_size_min ≠ actual_length_size then do
          if actual_length_size ≠ length_size_min + 1 then fault .assertion
          memmove (out + header_len + 1) (out + header_len) payload_len
          pure (header_len + 1)
        else pure header_len
      let _ ← put (out + len_start) (uint32Pack (UInt32.ofNat payload_len))
      return header_len + payload_len
  else do
    let vs ← require (array.load count)
    requiredFieldPackLoop sub field out vs 0

/-- `unknown_field_pack` -/
def unknownFieldPack (field : MessageUnknownField) (out : ℕ) : Pack ℕ := do
  let rv ← put out (tagPack field.tag)
  orByte out field.wireType.code
  writeAt (out + rv) (← require (loadData field.len field.data))
  return rv + field.len

/-! ## Messages -/

/-- The member of a field and its quantifier, handed to one of the three functions by label. -/
def fieldPack (sub : Message → ℕ → Pack ℕ) (field : FieldDescriptor) (slot : Slot) (out : ℕ) :
    Pack ℕ :=
  match field.label, slot with
  | .required, .singular _ member => requiredFieldPack sub field member out
  | .optional, .singular has member => optionalFieldPack sub field has member out
  | .repeated, .repeated array => repeatedFieldPack sub field array.n array out
  | _, _ => fault .access

/-- The loop over `message->descriptor->fields`. -/
def fieldsPack (sub : Message → ℕ → Pack ℕ) (out : ℕ) :
    List FieldDescriptor → List Slot → ℕ → Pack ℕ
  | [], _, rv => pure rv
  | field :: fields, slot :: slots, rv => do
      let n ← fieldPack sub field slot (out + rv)
      fieldsPack sub out fields slots (rv + n)
  | _ :: _, [], _ => fault .access

/-- The loop over `message->unknown_fields`. -/
def unknownFieldsPack (out : ℕ) : List MessageUnknownField → ℕ → Pack ℕ
  | [], rv => pure rv
  | u :: us, rv => do
      let n ← unknownFieldPack u (out + rv)
      unknownFieldsPack out us (rv + n)

/-- The body of `protobuf_c_message_pack`. -/
def messagePackLayer (S : Schema) (sub : Message → ℕ → Pack ℕ) (message : Message) (out : ℕ) :
    Pack ℕ := do
  let rv ← fieldsPack sub out (S.desc message.descriptor).fields message.slots 0
  let unknown_fields ← require (message.unknown.load message.unknown.n)
  unknownFieldsPack out unknown_fields rv

/-- `protobuf_c_message_pack` -/
def messagePack (S : Schema) : Message → ℕ → Pack ℕ :=
  layerRec Message.depth (messagePackLayer S) (fun _ => fault .access)

end ProtobufC
