import ProtobufC.Runtime.FreeUnpacked

/-! # Parsing a scanned member

The second pass of `protobuf_c_message_unpack` stores one `ScannedMember` after the other into the
message.  A function that assigns to `*member` returns what it assigned, if anything, together with
the flag the C function returns.  The call of `protobuf_c_message_unpack` on a sub-message is the
argument `sub`.
-/

namespace ProtobufC
open Library
set_option autoImplicit false

variable {σ : Type}

/-- `ScannedMember`.  `field` is the index and the descriptor of the field pointed at, `data` the
input from the payload on; `lengthPrefixLen` is assigned for length-prefixed members only. -/
structure ScannedMember where
  tag : UInt32
  wireType : WireType
  lengthPrefixLen : ℕ
  field : Option (ℕ × FieldDescriptor)
  len : ℕ
  data : List UInt8

/-- The `n` bytes from `data` on. -/
def readBytes (n : ℕ) (data : List UInt8) : Except Fault (List UInt8) :=
  if n ≤ data.length then .ok (data.take n) else .error .access

/-- A difference in `unsigned`. -/
def unsignedSub (a b : ℕ) : ℕ := (a + (2 ^ 32 - b % 2 ^ 32)) % 2 ^ 32

/-- A difference in `size_t`. -/
def sizeSub (a b : ℕ) : ℕ := (a + (2 ^ 64 - b % 2 ^ 64)) % 2 ^ 64

/-- Elements written behind the `n` that the array holds. -/
def CArray.store {α : Type} (array : CArray α) (vs : List α) : Except Fault (CArray α) :=
  if array.n + vs.length ≤ array.cap then
    .ok { array with n := array.n + vs.length, elems := array.elems.take array.n ++ vs }
  else .error .access

/-! ## `parse_required_member` -/

/-- The cases of `parse_required_member` that store a number; `data` holds `len` bytes. -/
def parseScalar (type : FieldType) (wireType : WireType) (data : List UInt8) : Option Value :=
  match type with
  | .int32 => if wireType ≠ .varint then none else some (.word32 (parseInt32 data))
  | .uint32 => if wireType ≠ .varint then none else some (.word32 (parseUint32 data))
  | .sint32 =>
      if wireType ≠ .varint then none
      else some (.word32 (unzigzag32 (parseUint32 data)).toUInt32)
  | .sfixed32 | .fixed32 | .float =>
      if wireType ≠ .bit32 then none else some (.word32 (parseFixedUint32 data))
  | .int64 | .uint64 => if wireType ≠ .varint then none else some (.word64 (parseUint64 data))
  | .sint64 =>
      if wireType ≠ .varint then none
      else some (.word64 (unzigzag64 (parseUint64 data)).toUInt64)
  | .sfixed64 | .fixed64 | .double =>
      if wireType ≠ .bit64 then none else some (.word64 (parseFixedUint64 data))
  | .bool => some (.boolean (parseBoolean data))
  | .enum => if wireType ≠ .varint then none else some (.word32 (parseUint32 data))
  | .string | .bytes | .message => none

section Walk
variable (A : Allocator σ) (S : Schema) (sub : DescriptorId → List UInt8 → Run σ MessagePtr)

/-- `if (maybe_clear && p != NULL && p != def) FREE (allocator, p);` -/
def clearPointer (field : FieldDescriptor) (p : Option Addr) (maybeClear : Bool) : Run σ Unit :=
  if maybeClear ∧ p ≠ none ∧ p ≠ field.defaultPointer then A.freePtr p else pure ()

/-- `if (maybe_clear && p != NULL && p != def) protobuf_c_message_free_unpacked (p, allocator);` -/
def clearMessage (field : FieldDescriptor) (p : MessagePtr) (maybeClear : Bool) : Run σ Unit :=
  if maybeClear ∧ (Value.message p).pointer ≠ none ∧
      (Value.message p).pointer ≠ field.defaultPointer then
    freeMessage (messageFreeUnpacked A S) p
  else pure ()

/-- The case `PROTOBUF_C_TYPE_STRING` -/
def parseString (scanned : ScannedMember) (field : FieldDescriptor) (member : Value)
    (maybeClear : Bool) : Run σ (Option Value × Bool) := do
  let pstr ← require member.loadString
  clearPointer A field (pstr.map Ptr.addr) maybeClear
  let len := unsignedSub scanned.len scanned.lengthPrefixLen
  match ← A.doAlloc ((len + 1) % 2 ^ 32) with
  | none => return (some (.string none), false)
  | some none => fault .access
  | some (some addr) =>
      let bytes ← require (readBytes len (scanned.data.drop scanned.lengthPrefixLen))
      return (some (.string (some ⟨addr, bytes ++ [0]⟩)), true)

/-- The case `PROTOBUF_C_TYPE_BYTES` -/
def parseBytes (scanned : ScannedMember) (field : FieldDescriptor) (member : Value)
    (maybeClear : Bool) : Run σ (Option Value × Bool) := do
  let bd ← require member.loadBytes
  clearPointer A field (bd.2.map Ptr.addr) maybeClear
  let len := unsignedSub scanned.len scanned.lengthPrefixLen
  match ← A.doAlloc len with
  | none => return (some (.bytes bd.1 none), false)
  | some dst =>
      let bytes ← require (readBytes len (scanned.data.drop scanned.lengthPrefixLen))
      return (some (.bytes len (dst.map fun addr => ⟨addr, bytes⟩)), true)

/-- The case `PROTOBUF_C_TYPE_MESSAGE` -/
def parseMessage (scanned : ScannedMember) (field : FieldDescriptor) (member : Value)
    (maybeClear : Bool) : Run σ (Option Value × Bool) := do
  let pmessage ← require member.loadMessage
  clearMessage A S field pmessage maybeClear
  let len := unsignedSub scanned.len scanned.lengthPrefixLen
  let data ← require (readBytes len (scanned.data.drop scanned.lengthPrefixLen))
  let subm ← sub field.descriptor data
  return (some (.message subm), (Value.message subm).pointer ≠ none)

/-- `parse_required_member` -/
def parseRequiredMember (scanned : ScannedMember) (field : FieldDescriptor) (member : Value)
    (maybeClear : Bool) : Run σ (Option Value × Bool) :=
  match field.type with
  | .string =>
      if scanned.wireType ≠ .lengthPrefixed then pure (none, false)
      else parseString A scanned field member maybeClear
  | .bytes =>
      if scanned.wireType ≠ .lengthPrefixed then pure (none, false)
      else parseBytes A scanned field member maybeClear
  | .message =>
      if scanned.wireType ≠ .lengthPrefixed then pure (none, false)
      else parseMessage A S sub scanned field member maybeClear
  | type => do
      let data ← require (readBytes scanned.len scanned.data)
      let v := parseScalar type scanned.wireType data
      return (v, v.isSome)

/-! ## Optional and repeated members -/

/-- `parse_optional_member` -/
def parseOptionalMember (scanned : ScannedMember) (field : FieldDescriptor) (has : Int32)
    (member : Value) : Run σ (Slot × Bool) := do
  let r ← parseRequiredMember A S sub scanned field member true
  let has := if r.2 ∧ field.quantifierOffset ≠ 0 then 1 else has
  return (.singular has (r.1.getD member), r.2)

/-- `parse_repeated_member` -/
def parseRepeatedMember (scanned : ScannedMember) (field : FieldDescriptor)
    (array : CArray Value) : Run σ (CArray Value × Bool) := do
  let r ← parseRequiredMember A S sub scanned field field.type.zero false
  let stored ← require (array.store r.1.toList)
  return (if r.2 then stored else array, r.2)

/-- `scan_varint (rem, at)` for a `size_t rem`; the parameter of the function is an `unsigned`. -/
def scanPackedVarint (rem : List UInt8) : ℕ := scanVarint (rem.take (rem.length % 2 ^ 32))

/-- `while (rem > 0) { s = scan_varint (rem, at); .. array[count++] = parse (s, at); .. }`: the
elements stored and whether the loop ran to its end. -/
def parsePackedVarints (parse : List UInt8 → Value) : ℕ → List UInt8 → List Value × Bool
  | 0, rem => ([], rem.isEmpty)
  | fuel + 1, rem =>
      if rem.isEmpty then ([], true)
      else
        let s := scanPackedVarint rem
        if s = 0 then ([], false)
        else
          let r := parsePackedVarints parse fuel (rem.drop s)
          (parse (rem.take s) :: r.1, r.2)

/-- `for (i = 0; i < count; i++) { array[i] = parse (at); at += size; }` -/
def parsePackedFixed (parse : List UInt8 → Value) (size : ℕ) : ℕ → List UInt8 → List Value
  | 0, _ => []
  | count + 1, at_ => parse (at_.take size) :: parsePackedFixed parse size count (at_.drop size)

/-- `for (i = 0; i < count; i++) { if (at[i] > 1) return FALSE; array[i] = at[i]; }` -/
def parsePackedBooleans : List UInt8 → List Value × Bool
  | [] => ([], true)
  | b :: bs =>
      if b > 1 then ([], false)
      else
        let r := parsePackedBooleans bs
        (.boolean (Int32.ofNat b.toNat) :: r.1, r.2)

/-- The switch of `parse_packed_repeated_member` over the `rem` bytes of the payload.  The loop over
booleans counts in `unsigned`: its elements are those among the first `2 ^ 32` bytes. -/
def parsePackedElements (type : FieldType) (rem : List UInt8) : Except Fault (List Value × Bool) :=
  match type with
  | .sfixed32 | .fixed32 | .float =>
      .ok (parsePackedFixed (fun d => .word32 (parseFixedUint32 d)) 4 (rem.length / 4) rem, true)
  | .sfixed64 | .fixed64 | .double =>
      .ok (parsePackedFixed (fun d => .word64 (parseFixedUint64 d)) 8 (rem.length / 8) rem, true)
  | .int32 => .ok (parsePackedVarints (fun d => .word32 (parseInt32 d)) rem.length rem)
  | .sint32 =>
      .ok (parsePackedVarints (fun d => .word32 (unzigzag32 (parseUint32 d)).toUInt32)
        rem.length rem)
  | .enum | .uint32 => .ok (parsePackedVarints (fun d => .word32 (parseUint32 d)) rem.length rem)
  | .sint64 =>
      .ok (parsePackedVarints (fun d => .word64 (unzigzag64 (parseUint64 d)).toUInt64)
        rem.length rem)
  | .int64 | .uint64 => .ok (parsePackedVarints (fun d => .word64 (parseUint64 d)) rem.length rem)
  | .bool => .ok (parsePackedBooleans (rem.take (2 ^ 32)))
  | .string | .bytes | .message => .error .assertion

/-- `i < count` for every `unsigned i`, and every byte that `i` comes to is a boolean. -/
def booleansWithoutEnd (type : FieldType) (rem : List UInt8) : Bool :=
  type = .bool ∧ 2 ^ 32 ≤ rem.length ∧ (parsePackedBooleans (rem.take (2 ^ 32))).2

/-- `parse_packed_repeated_member` -/
def parsePackedRepeatedMember (scanned : ScannedMember) (field : FieldDescriptor)
    (array : CArray Value) : Run σ (CArray Value × Bool) := do
  let rem ← require (readBytes (sizeSub scanned.len scanned.lengthPrefixLen)
    (scanned.data.drop scanned.lengthPrefixLen))
  let r ← require (parsePackedElements field.type rem)
  let stored ← require (array.store r.1)
  if booleansWithoutEnd field.type rem then fault .hang
  else return (if r.2 then stored else array, r.2)

/-! ## `parse_member` -/

/-- The case `field == NULL` of `parse_member`. -/
def parseUnknownMember (scanned : ScannedMember) (unknown : CArray MessageUnknownField) :
    Run σ (CArray MessageUnknownField × Bool) := do
  let ufield (data : Option (Ptr (List UInt8))) : MessageUnknownField :=
    ⟨scanned.tag, scanned.wireType, scanned.len, data⟩
  match ← A.doAlloc scanned.len with
  | none =>
      let stored ← require (unknown.store [ufield none])
      return (stored, false)
  | some dst =>
      let bytes ← require (readBytes scanned.len scanned.data)
      let stored ← require (unknown.store [ufield (dst.map fun addr => ⟨addr, bytes⟩)])
      return (stored, true)

/-- A length-prefixed record of a repeated field of packable type holds many elements. -/
def isPackedRecord (field : FieldDescriptor) (wireType : WireType) : Bool :=
  wireType = .lengthPrefixed ∧ (field.packed ∨ isPackableType field.type)

/-- The case `PROTOBUF_C_LABEL_REPEATED` -/
def parseRepeatedField (scanned : ScannedMember) (field : FieldDescriptor)
    (array : CArray Value) : Run σ (CArray Value × Bool) :=
  if isPackedRecord field scanned.wireType then parsePackedRepeatedMember scanned field array
  else parseRepeatedMember A S sub scanned field array

/-- The switch over `field->label`. -/
def parseFieldMember (scanned : ScannedMember) (field : FieldDescriptor) (slot : Slot) :
    Run σ (Slot × Bool) :=
  match field.label, slot with
  | .required, .singular has member => do
      let r ← parseRequiredMember A S sub scanned field member true
      return (.singular has (r.1.getD member), r.2)
  | .optional, .singular has member => parseOptionalMember A S sub scanned field has member
  | .repeated, .repeated array => do
      let r ← parseRepeatedField A S sub scanned field array
      return (.repeated r.1, r.2)
  | _, _ => fault .access

/-- `parse_member` -/
def parseMember (scanned : ScannedMember) (message : Message) : Run σ (Message × Bool) :=
  match scanned.field with
  | none => do
      let r ← parseUnknownMember A scanned message.unknown
      return (.mk message.descriptor message.slots r.1, r.2)
  | some (i, field) =>
      match message.slots[i]? with
      | some slot => do
          let r ← parseFieldMember A S sub scanned field slot
          return (.mk message.descriptor (message.slots.set i r.1) message.unknown, r.2)
      | none => fault .access

end Walk

end ProtobufC
