import ProtobufC.Library.MeasureRecursion

/-! # The data model of `protobuf-c.h`

Messages, their members and their descriptors.  A C pointer is an address together with what it
points at, NULL being `none`; two pointers are equal when their addresses are.  `Addr.static`
addresses belong to the program or the caller (default values, string literals), `Addr.block` ones
to a block that an allocator handed out.

A `Message` holds its members in descriptor order, so that slot `i` is what `fields[i].offset` and
`fields[i].quantifier_offset` address in the C structure.  Descriptors refer to each other by
number (`DescriptorId`), as the C descriptors do by pointer; a type may contain itself.
-/

namespace ProtobufC
set_option autoImplicit false

/-- `ProtobufCLabel` -/
inductive Label
  | required
  | optional
  | repeated
  deriving DecidableEq, Repr

/-- `ProtobufCType` -/
inductive FieldType
  | int32
  | sint32
  | sfixed32
  | int64
  | sint64
  | sfixed64
  | uint32
  | fixed32
  | uint64
  | fixed64
  | float
  | double
  | bool
  | enum
  | string
  | bytes
  | message
  deriving DecidableEq, Repr

/-- `ProtobufCWireType`, with the two values of its three bits that the enumeration leaves out. -/
inductive WireType
  | varint
  | bit64
  | lengthPrefixed
  | startGroup
  | endGroup
  | bit32
  | unnamed6
  | unnamed7
  deriving DecidableEq, Repr

def WireType.code : WireType → UInt8
  | .varint => 0
  | .bit64 => 1
  | .lengthPrefixed => 2
  | .startGroup => 3
  | .endGroup => 4
  | .bit32 => 5
  | .unnamed6 => 6
  | .unnamed7 => 7

/-- The wire type in the low three bits of a byte. -/
def WireType.ofByte (b : UInt8) : WireType :=
  match (b &&& 7).toNat with
  | 0 => .varint
  | 1 => .bit64
  | 2 => .lengthPrefixed
  | 3 => .startGroup
  | 4 => .endGroup
  | 5 => .bit32
  | 6 => .unnamed6
  | _ => .unnamed7

inductive Addr
  | static (k : ℕ)
  | block (b : ℕ)
  deriving DecidableEq, Repr

/-- A non-NULL pointer: its address and what it points at. -/
structure Ptr (α : Type) where
  addr : Addr
  val : α
  deriving DecidableEq, Repr

/-- The number of a `ProtobufCMessageDescriptor`. -/
abbrev DescriptorId := ℕ

/-- An array member: the count `n`, the array pointer, the number of elements its block has room
for and the elements written so far. -/
structure CArray (α : Type) where
  n : ℕ
  addr : Option Addr
  cap : ℕ
  elems : List α
  deriving DecidableEq, Repr

/-- `{ 0, NULL }` -/
def CArray.null {α : Type} : CArray α := ⟨0, none, 0, []⟩

/-- `ProtobufCMessageUnknownField`; `data` has `len` bytes. -/
structure MessageUnknownField where
  tag : UInt32
  wireType : WireType
  len : ℕ
  data : Option (Ptr (List UInt8))
  deriving DecidableEq, Repr

mutual
/-- `ProtobufCMessage *` -/
inductive MessagePtr
  | null
  | ref (addr : Addr) (msg : Message)

/-- `ProtobufCMessage` and the members that follow it. -/
inductive Message
  | mk (descriptor : DescriptorId) (slots : List Slot) (unknown : CArray MessageUnknownField)

/-- The storage of one field: a value with its `has` member, or a repeated field's array. -/
inductive Slot
  | singular (has : Int32) (member : Value)
  | repeated (array : CArray Value)

/-- A value of one of the C types a field can have: a 32-bit word, a 64-bit word, a
`protobuf_c_boolean`, a `char *`, a `ProtobufCBinaryData` or a `ProtobufCMessage *`. -/
inductive Value
  | word32 (v : UInt32)
  | word64 (v : UInt64)
  | boolean (v : Int32)
  | string (str : Option (Ptr (List UInt8)))
  | bytes (len : ℕ) (data : Option (Ptr (List UInt8)))
  | message (p : MessagePtr)
end

namespace Message

def descriptor : Message → DescriptorId
  | .mk d _ _ => d

def slots : Message → List Slot
  | .mk _ slots _ => slots

def unknown : Message → CArray MessageUnknownField
  | .mk _ _ unknown => unknown

@[simp] theorem descriptor_mk (d : DescriptorId) (ss : List Slot) (u : CArray MessageUnknownField) :
    (Message.mk d ss u).descriptor = d := rfl
@[simp] theorem slots_mk (d : DescriptorId) (ss : List Slot) (u : CArray MessageUnknownField) :
    (Message.mk d ss u).slots = ss := rfl
@[simp] theorem unknown_mk (d : DescriptorId) (ss : List Slot) (u : CArray MessageUnknownField) :
    (Message.mk d ss u).unknown = u := rfl

theorem eta (m : Message) : Message.mk m.descriptor m.slots m.unknown = m := by
  cases m; rfl

end Message

/-! ## Sub-messages -/

/-- The messages directly below a value. -/
def Value.children : Value → List Message
  | .message (.ref _ m) => [m]
  | _ => []

def Slot.children : Slot → List Message
  | .singular _ v => v.children
  | .repeated a => a.elems.flatMap Value.children

def Message.children (m : Message) : List Message := m.slots.flatMap Slot.children

mutual
def MessagePtr.depth : MessagePtr → ℕ
  | .null => 0
  | .ref _ m => m.depth

/-- The nesting depth of a message. -/
def Message.depth : Message → ℕ
  | .mk _ slots _ => depthSlots slots + 1

def depthSlots : List Slot → ℕ
  | [] => 0
  | s :: ss => max s.depth (depthSlots ss)

def Slot.depth : Slot → ℕ
  | .singular _ v => v.depth
  | .repeated ⟨_, _, _, vs⟩ => depthValues vs

def depthValues : List Value → ℕ
  | [] => 0
  | v :: vs => max v.depth (depthValues vs)

def Value.depth : Value → ℕ
  | .message p => p.depth
  | _ => 0
end

theorem Value.depth_children (v : Value) (c : Message) (hc : c ∈ v.children) :
    c.depth ≤ v.depth := by
  cases v with
  | message p =>
    cases p with
    | null => simp [Value.children] at hc
    | ref a m =>
      simp only [Value.children, List.mem_singleton] at hc
      subst hc
      simp [Value.depth, MessagePtr.depth]
  | _ => simp [Value.children] at hc

theorem depth_le_depthValues {vs : List Value} {v : Value} (h : v ∈ vs) :
    v.depth ≤ depthValues vs := by
  induction vs with
  | nil => simp at h
  | cons w vs ih =>
    rw [depthValues]
    rcases List.mem_cons.mp h with rfl | h
    · exact le_max_left _ _
    · exact (ih h).trans (le_max_right _ _)

theorem depth_le_depthSlots {ss : List Slot} {s : Slot} (h : s ∈ ss) : s.depth ≤ depthSlots ss := by
  induction ss with
  | nil => simp at h
  | cons w ss ih =>
    rw [depthSlots]
    rcases List.mem_cons.mp h with rfl | h
    · exact le_max_left _ _
    · exact (ih h).trans (le_max_right _ _)

theorem Slot.depth_children (s : Slot) (c : Message) (hc : c ∈ s.children) :
    c.depth ≤ s.depth := by
  cases s with
  | singular has v => exact v.depth_children c hc
  | repeated a =>
    obtain ⟨n, addr, cap, vs⟩ := a
    simp only [Slot.children, List.mem_flatMap] at hc
    obtain ⟨v, hv, hcv⟩ := hc
    exact (v.depth_children c hcv).trans (depth_le_depthValues hv)

theorem Message.depth_children (m : Message) : ∀ c ∈ m.children, c.depth < m.depth := by
  intro c hc
  obtain ⟨d, ss, u⟩ := m
  simp only [Message.children, Message.slots, List.mem_flatMap] at hc
  obtain ⟨s, hs, hcs⟩ := hc
  have h1 := s.depth_children c hcs
  have h2 := depth_le_depthSlots hs
  rw [Message.depth]
  omega

/-! ## Descriptors -/

/-- `ProtobufCIntRange` -/
structure IntRange where
  startValue : Int32
  origIndex : UInt32
  deriving DecidableEq, Repr

/-- `ProtobufCFieldDescriptor`.  `defaultValue` is the value the default pointer refers to; for a
`string` or `message` it is that pointer itself. -/
structure FieldDescriptor where
  name : String
  id : UInt32
  label : Label
  type : FieldType
  quantifierOffset : ℕ
  descriptor : DescriptorId
  defaultValue : Option Value
  packed : Bool

/-- `ProtobufCMessageDescriptor`; `messageInit` is the initial value that the generated
`message_init` function copies, when there is one. -/
structure MessageDescriptor where
  name : String
  sizeofMessage : ℕ
  fields : List FieldDescriptor
  nFieldRanges : ℕ
  fieldRanges : List IntRange
  messageInit : Option (List Slot)

/-- The address a `string` or `message` default value has. -/
def Value.pointer : Value → Option Addr
  | .string (some p) => some p.addr
  | .bytes _ (some p) => some p.addr
  | .message (.ref a _) => some a
  | _ => none

/-- `field->default_value` as a pointer, for the comparisons of `string` and `message` fields, and
`default_bd->data` for `bytes` ones. -/
def FieldDescriptor.defaultPointer (field : FieldDescriptor) : Option Addr :=
  field.defaultValue.bind Value.pointer

/-- `is_packable_type` -/
def isPackableType (type : FieldType) : Bool :=
  type != .string && type != .bytes && type != .message

end ProtobufC
