import ProtobufC.Library.MeasureRecursion
import ProtobufC.Library.Outcome
import ProtobufC.Runtime.Schema
import ProtobufC.Runtime.Varint

/-! # `protobuf_c_message_get_packed_size`

The first of the three serialisation walks.  A function that calls itself on sub-messages takes
this call as its argument `sub`; the knot is tied at the end.  `size_t` sums are natural numbers,
lengths handed to a 32-bit parameter are reduced modulo `2^32`.
-/

namespace ProtobufC
open Library
set_option autoImplicit false

/-! ## Reading members -/

/-- `*(const uint32_t *) member` -/
def Value.loadWord32 : Value → Except Fault UInt32
  | .word32 v => .ok v
  | _ => .error .access

/-- `*(const uint64_t *) member` -/
def Value.loadWord64 : Value → Except Fault UInt64
  | .word64 v => .ok v
  | _ => .error .access

/-- `*(const protobuf_c_boolean *) member` -/
def Value.loadBoolean : Value → Except Fault Int32
  | .boolean v => .ok v
  | _ => .error .access

/-- `*(char * const *) member` -/
def Value.loadString : Value → Except Fault (Option (Ptr (List UInt8)))
  | .string p => .ok p
  | _ => .error .access

/-- `*(const ProtobufCBinaryData *) member` -/
def Value.loadBytes : Value → Except Fault (ℕ × Option (Ptr (List UInt8)))
  | .bytes len data => .ok (len, data)
  | _ => .error .access

/-- `*(ProtobufCMessage * const *) member` -/
def Value.loadMessage : Value → Except Fault MessagePtr
  | .message p => .ok p
  | _ => .error .access

/-- The first `count` elements of an array. -/
def CArray.load {α : Type} (array : CArray α) (count : ℕ) : Except Fault (List α) :=
  if count ≤ array.elems.length then .ok (array.elems.take count) else .error .access

theorem CArray.load_self {α : Type} {a : CArray α} (h : a.n = a.elems.length) :
    a.load a.n = .ok a.elems := by
  unfold CArray.load
  rw [if_pos (by omega), h, List.take_length]

/-- The bytes of a C string before its NUL; a string ends where its block does at the latest. -/
def cString (s : List UInt8) : List UInt8 := s.takeWhile (· ≠ 0)

/-- `strlen` -/
def strlen : Option (Ptr (List UInt8)) → Except Fault ℕ
  | some p => .ok (cString p.val).length
  | none => .error .null

/-- `for (i = 0; i < count; i++) rv += size (array[i]);` -/
def sumSizes (size : Value → Except Fault ℕ) (vs : List Value) : Except Fault ℕ :=
  vs.foldlM (fun rv v => do return rv + (← size v)) 0

/-- The test of `optional_field_get_packed_size` and its siblings: is the optional field set? -/
def FieldDescriptor.isSet (field : FieldDescriptor) (has : Int32) (member : Value) : Bool :=
  if field.type = .message ∨ field.type = .string then
    member.pointer ≠ none ∧ member.pointer ≠ field.defaultPointer
  else has ≠ 0

/-! ## The walk -/

/-- `required_field_get_packed_size` -/
def requiredFieldGetPackedSize (sub : Message → Except Fault ℕ) (field : FieldDescriptor)
    (member : Value) : Except Fault ℕ := do
  let rv := getTagSize field.id
  match field.type with
  | .sint32 => return rv + sint32Size (← member.loadWord32).toInt32
  | .int32 => return rv + int32Size (← member.loadWord32).toInt32
  | .uint32 => return rv + uint32Size (← member.loadWord32)
  | .sint64 => return rv + sint64Size (← member.loadWord64).toInt64
  | .int64 | .uint64 => return rv + uint64Size (← member.loadWord64)
  | .sfixed32 | .fixed32 => return rv + 4
  | .sfixed64 | .fixed64 => return rv + 8
  | .bool => return rv + 1
  | .float => return rv + 4
  | .double => return rv + 8
  | .enum => return rv + uint32Size (← member.loadWord32)
  | .string =>
      let str ← member.loadString
      let len ← if str.isSome then strlen str else pure 0
      return rv + uint32Size (UInt32.ofNat len) + len
  | .bytes =>
      let (len, _) ← member.loadBytes
      return rv + uint32Size (UInt32.ofNat len) + len
  | .message =>
      let subrv ← match ← member.loadMessage with
        | .ref _ msg => sub msg
        | .null => pure 0
      return rv + uint32Size (UInt32.ofNat subrv) + subrv

/-- `optional_field_get_packed_size` -/
def optionalFieldGetPackedSize (sub : Message → Except Fault ℕ) (field : FieldDescriptor)
    (has : Int32) (member : Value) : Except Fault ℕ :=
  if field.isSet has member then requiredFieldGetPackedSize sub field member else .ok 0

/-- The switch of `repeated_field_get_packed_size`. -/
def repeatedElementsSize (sub : Message → Except Fault ℕ) (type : FieldType) (count : ℕ)
    (array : CArray Value) : Except Fault ℕ :=
  match type with
  | .sint32 => do
      sumSizes (fun v => return sint32Size (← v.loadWord32).toInt32) (← array.load count)
  | .int32 => do
      sumSizes (fun v => return int32Size (← v.loadWord32).toInt32) (← array.load count)
  | .uint32 | .enum => do
      sumSizes (fun v => return uint32Size (← v.loadWord32)) (← array.load count)
  | .sint64 => do
      sumSizes (fun v => return sint64Size (← v.loadWord64).toInt64) (← array.load count)
  | .int64 | .uint64 => do
      sumSizes (fun v => return uint64Size (← v.loadWord64)) (← array.load count)
  | .sfixed32 | .fixed32 | .float => return 4 * count
  | .sfixed64 | .fixed64 | .double => return 8 * count
  | .bool => return count
  | .string => do
      sumSizes (fun v => do
        let len ← strlen (← v.loadString)
        return uint32Size (UInt32.ofNat len) + len) (← array.load count)
  | .bytes => do
      sumSizes (fun v => do
        let (len, _) ← v.loadBytes
        return uint32Size (UInt32.ofNat len) + len) (← array.load count)
  | .message => do
      sumSizes (fun v => do
        let len ← match ← v.loadMessage with
          | .ref _ msg => sub msg
          | .null => throw .null
        return uint32Size (UInt32.ofNat len) + len) (← array.load count)

/-- `repeated_field_get_packed_size` -/
def repeatedFieldGetPackedSize (sub : Message → Except Fault ℕ) (field : FieldDescriptor)
    (count : ℕ) (array : CArray Value) : Except Fault ℕ :=
  if count = 0 then .ok 0
  else do
    let header_size := getTagSize field.id * if field.packed then 1 else count
    let rv ← repeatedElementsSize sub field.type count array
    let header_size := header_size + if field.packed then uint32Size (UInt32.ofNat rv) else 0
    return header_size + rv

/-- `unknown_field_get_packed_size` -/
def unknownFieldGetPackedSize (field : MessageUnknownField) : ℕ := getTagSize field.tag + field.len

/-- The member of a field and its quantifier, handed to one of the three functions by label. -/
def fieldGetPackedSize (sub : Message → Except Fault ℕ) (field : FieldDescriptor) (slot : Slot) :
    Except Fault ℕ :=
  match field.label, slot with
  | .required, .singular _ member => requiredFieldGetPackedSize sub field member
  | .optional, .singular has member => optionalFieldGetPackedSize sub field has member
  | .repeated, .repeated array => repeatedFieldGetPackedSize sub field array.n array
  | _, _ => .error .access

/-- The loop over `message->descriptor->fields`. -/
def fieldsGetPackedSize (sub : Message → Except Fault ℕ) :
    List FieldDescriptor → List Slot → ℕ → Except Fault ℕ
  | [], _, rv => .ok rv
  | field :: fields, slot :: slots, rv => do
      let size ← fieldGetPackedSize sub field slot
      fieldsGetPackedSize sub fields slots (rv + size)
  | _ :: _, [], _ => .error .access

/-- The body of `protobuf_c_message_get_packed_size`. -/
def messageGetPackedSizeLayer (S : Schema) (sub : Message → Except Fault ℕ) (message : Message) :
    Except Fault ℕ := do
  let rv ← fieldsGetPackedSize sub (S.desc message.descriptor).fields message.slots 0
  let unknown_fields ← message.unknown.load message.unknown.n
  return unknown_fields.foldl (fun rv u => rv + unknownFieldGetPackedSize u) rv

/-- `protobuf_c_message_get_packed_size` -/
def messageGetPackedSize (S : Schema) : Message → Except Fault ℕ :=
  layerRec Message.depth (messageGetPackedSizeLayer S) (.error .access)

end ProtobufC
