import ProtobufC.Runtime.Erase
import ProtobufC.Runtime.IntRange

/-! # Generated descriptors

What the code generator (`c_message.cc`, `c_field.cc`) guarantees of the descriptors it writes, and
what the runtime relies on: fields sorted by number, the range table of their numbers, `packed` on
repeated fields of packable type only, `has` members exactly for the optional fields that are no
pointers, static default values.  A `Schema` is a set of descriptors with these properties.
-/

namespace ProtobufC
open Library
set_option autoImplicit false

/-- The value that `memset (message, 0, ..)` leaves in a member. -/
def FieldType.zero : FieldType → Value
  | .int32 | .sint32 | .sfixed32 | .uint32 | .fixed32 | .float | .enum => .word32 0
  | .int64 | .sint64 | .sfixed64 | .uint64 | .fixed64 | .double => .word64 0
  | .bool => .boolean 0
  | .string => .string none
  | .bytes => .bytes 0 none
  | .message => .message .null

/-- The value is stored as a field of type `t` is. -/
def Value.HasType : FieldType → Value → Prop
  | .int32, .word32 _ | .sint32, .word32 _ | .sfixed32, .word32 _ | .uint32, .word32 _
  | .fixed32, .word32 _ | .float, .word32 _ | .enum, .word32 _ => True
  | .int64, .word64 _ | .sint64, .word64 _ | .sfixed64, .word64 _ | .uint64, .word64 _
  | .fixed64, .word64 _ | .double, .word64 _ => True
  | .bool, .boolean _ => True
  | .string, .string _ => True
  | .bytes, .bytes _ _ => True
  | .message, .message _ => True
  | _, _ => False

theorem Value.HasType.cases {P : FieldType → Value → Prop} {type : FieldType} {v : Value}
    (hv : Value.HasType type v) (int32 : ∀ w, P .int32 (.word32 w))
    (sint32 : ∀ w, P .sint32 (.word32 w)) (sfixed32 : ∀ w, P .sfixed32 (.word32 w))
    (int64 : ∀ w, P .int64 (.word64 w)) (sint64 : ∀ w, P .sint64 (.word64 w))
    (sfixed64 : ∀ w, P .sfixed64 (.word64 w)) (uint32 : ∀ w, P .uint32 (.word32 w))
    (fixed32 : ∀ w, P .fixed32 (.word32 w)) (uint64 : ∀ w, P .uint64 (.word64 w))
    (fixed64 : ∀ w, P .fixed64 (.word64 w)) (float : ∀ w, P .float (.word32 w))
    (double : ∀ w, P .double (.word64 w)) (bool : ∀ w, P .bool (.boolean w))
    (enum : ∀ w, P .enum (.word32 w)) (string : ∀ p, P .string (.string p))
    (bytes : ∀ len p, P .bytes (.bytes len p)) (message : ∀ p, P .message (.message p)) :
    P type v := by
  cases type <;> cases v <;> first
    | exact False.elim hv
    | apply_assumption

/-- The part of `protobuf_c_message_init_generic` that concerns one field. -/
def FieldDescriptor.initSlot (field : FieldDescriptor) : Slot :=
  match field.label with
  | .repeated => .repeated .null
  | _ => .singular 0 (field.defaultValue.getD field.type.zero)

/-- `protobuf_c_message_init_generic`: the members of the initialised message. -/
def MessageDescriptor.initGeneric (desc : MessageDescriptor) : List Slot :=
  desc.fields.map FieldDescriptor.initSlot

/-- Only static memory is reachable from the value. -/
def Value.Static (v : Value) : Prop :=
  v.erase = v ∧ ∀ a, v.pointer = some a → ∃ k, a = .static k

/-- The pointer, if the value is one of a `string` or `message` field, is not NULL. -/
def Value.NonNull : Value → Prop
  | .string p => p ≠ none
  | .message p => p ≠ .null
  | _ => True

/-- What the generator writes for one field. -/
structure FieldDescriptor.Generated (field : FieldDescriptor) : Prop where
  id_lt : field.id.toNat < 2 ^ 29
  packed : field.packed = true → field.label = .repeated ∧ isPackableType field.type = true
  has : field.label = .optional →
    (field.quantifierOffset ≠ 0 ↔ field.type ≠ .string ∧ field.type ≠ .message)
  default : ∀ v, field.defaultValue = some v →
    Value.HasType field.type v ∧ v.Static ∧ v.NonNull

/-- What the generator writes for one message. -/
structure MessageDescriptor.Generated (desc : MessageDescriptor) : Prop where
  field : ∀ f ∈ desc.fields, f.Generated
  sorted : desc.fields.Pairwise (fun f g => f.id.toNat < g.id.toNat)
  ranges : desc.fieldRanges = writeIntRanges (desc.fields.map fun f => f.id.toInt32)
  nRanges : desc.nFieldRanges = writeIntRangesCount (desc.fields.map fun f => f.id.toInt32)
  sizeof_pos : 0 < desc.sizeofMessage
  init : ∀ slots, desc.messageInit = some slots → slots = desc.initGeneric

/-- A set of generated descriptors. -/
structure Schema where
  desc : DescriptorId → MessageDescriptor
  generated : ∀ d, (desc d).Generated

/-! ## Generating a descriptor -/

/-- The descriptor that the generator writes for a list of fields. -/
def MessageDescriptor.generate (fields : List FieldDescriptor) : MessageDescriptor where
  name := "Message"
  sizeofMessage := 24
  fields := fields
  nFieldRanges := writeIntRangesCount (fields.map fun f => f.id.toInt32)
  fieldRanges := writeIntRanges (fields.map fun f => f.id.toInt32)
  messageInit := none

theorem MessageDescriptor.generated_generate {fields : List FieldDescriptor}
    (hfield : ∀ f ∈ fields, f.Generated)
    (hsorted : fields.Pairwise (fun f g => f.id.toNat < g.id.toNat)) :
    (MessageDescriptor.generate fields).Generated where
  field := hfield
  sorted := hsorted
  ranges := rfl
  nRanges := rfl
  sizeof_pos := by simp [generate]
  init := by simp [generate]

/-- The schema in which every message has the same fields. -/
def Schema.uniform (fields : List FieldDescriptor) (hfield : ∀ f ∈ fields, f.Generated)
    (hsorted : fields.Pairwise (fun f g => f.id.toNat < g.id.toNat)) : Schema where
  desc _ := MessageDescriptor.generate fields
  generated _ := MessageDescriptor.generated_generate hfield hsorted

/-- A scalar field without a default value. -/
def FieldDescriptor.scalar (label : Label) (type : FieldType) (id : UInt32) : FieldDescriptor where
  name := "field"
  id := id
  label := label
  type := type
  quantifierOffset := if label = .required then 0 else 8
  descriptor := 0
  defaultValue := none
  packed := false

theorem FieldDescriptor.generated_scalar {label : Label} {type : FieldType} {id : UInt32}
    (hid : id.toNat < 2 ^ 29) (hhas : label = .optional → type ≠ .string ∧ type ≠ .message) :
    (FieldDescriptor.scalar label type id).Generated where
  id_lt := hid
  packed := by simp [scalar]
  has := by
    intro hlabel
    simp only [scalar] at hlabel ⊢
    simp [hlabel, hhas hlabel]
  default := by simp [scalar]

/-- One `required int32` field with number 1. -/
def int32Schema : Schema :=
  Schema.uniform [.scalar .required .int32 1]
    (by simpa using FieldDescriptor.generated_scalar (by decide) (by decide)) (by simp)

/-- A `required bytes` field and a field of sub-messages of the same type. -/
def nestedSchema : Schema :=
  Schema.uniform [.scalar .required .bytes 1, .scalar .repeated .message 2]
    (by
      intro f hf
      simp only [List.mem_cons, List.not_mem_nil, or_false] at hf
      obtain rfl | rfl := hf <;> exact FieldDescriptor.generated_scalar (by decide) (by decide))
    (by simp [FieldDescriptor.scalar])

/-- A bytes field, a sub-message, an unknown field, and the bytes field once more. -/
def nestedBytes : List UInt8 := [10, 1, 7, 18, 2, 10, 0, 72, 128, 1, 10, 2, 8, 9]

/-! ## The initialised message -/

/-- `protobuf_c_message_init (desc, rv)` or `protobuf_c_message_init_generic (desc, rv)`. -/
def MessageDescriptor.initSlots (desc : MessageDescriptor) : List Slot :=
  match desc.messageInit with
  | some slots => slots
  | none => desc.initGeneric

theorem MessageDescriptor.Generated.initSlots_eq {desc : MessageDescriptor} (h : desc.Generated) :
    desc.initSlots = desc.fields.map FieldDescriptor.initSlot := by
  unfold MessageDescriptor.initSlots
  cases hi : desc.messageInit with
  | none => rfl
  | some slots => exact h.init slots hi

/-! ## Field numbers -/

/-- The index of the field with number `tag`. -/
def MessageDescriptor.fieldIndex (desc : MessageDescriptor) (tag : UInt32) : Option ℕ :=
  desc.fields.findIdx? (fun f => f.id = tag)

theorem MessageDescriptor.Generated.id_injective {desc : MessageDescriptor} (h : desc.Generated)
    {i j : ℕ} {f g : FieldDescriptor} (hi : desc.fields[i]? = some f) (hj : desc.fields[j]? = some g)
    (hid : f.id = g.id) : i = j := by
  obtain ⟨hi', rfl⟩ := List.getElem?_eq_some_iff.mp hi
  obtain ⟨hj', rfl⟩ := List.getElem?_eq_some_iff.mp hj
  have hlt := List.pairwise_iff_getElem.mp h.sorted
  by_contra hne
  rcases Nat.lt_or_gt_of_ne hne with hij | hij
  · have := hlt i j hi' hj' hij
    rw [hid] at this
    omega
  · have := hlt j i hj' hi' hij
    rw [hid] at this
    omega

theorem MessageDescriptor.Generated.fieldIndex_eq {desc : MessageDescriptor} (h : desc.Generated)
    {i : ℕ} {tag : UInt32} :
    desc.fieldIndex tag = some i ↔ ∃ f, desc.fields[i]? = some f ∧ f.id = tag := by
  unfold MessageDescriptor.fieldIndex
  rw [List.findIdx?_eq_some_iff_getElem]
  constructor
  · rintro ⟨hi, hid, _⟩
    exact ⟨_, List.getElem?_eq_getElem hi, by simpa using hid⟩
  · rintro ⟨f, hf, hid⟩
    obtain ⟨hi, rfl⟩ := List.getElem?_eq_some_iff.mp hf
    refine ⟨hi, by simpa using hid, fun j hj hjid => ?_⟩
    have hj' : j < desc.fields.length := by omega
    have hjid : desc.fields[j].id = tag := by simpa using hjid
    have := h.id_injective (List.getElem?_eq_getElem hj') hf (hjid.trans hid.symm)
    omega

theorem MessageDescriptor.fieldIndex_none {desc : MessageDescriptor} {tag : UInt32} :
    desc.fieldIndex tag = none ↔ ∀ f ∈ desc.fields, f.id ≠ tag := by
  simp [MessageDescriptor.fieldIndex]

theorem MessageDescriptor.Generated.searchable {desc : MessageDescriptor} (h : desc.Generated) :
    Searchable (desc.fields.map fun f => f.id.toInt32) := by
  have hid : ∀ f ∈ desc.fields, f.id.toInt32.toInt = f.id.toNat := by
    intro f hf
    have hlt := (h.field f hf).id_lt
    exact uint32_toInt32_toInt (by omega)
  refine ⟨?_, ?_, ?_⟩
  · rw [List.pairwise_map]
    refine h.sorted.imp_of_mem ?_
    intro f g hf hg hlt
    rw [hid f hf, hid g hg]
    exact_mod_cast hlt
  · intro v hv
    obtain ⟨f, hf, rfl⟩ := List.mem_map.mp hv
    have hlt := (h.field f hf).id_lt
    rw [hid f hf]
    omega
  · -- distinct numbers below `2^29`
    rw [List.length_map]
    have hnodup : (desc.fields.map fun f => f.id.toNat).Nodup := by
      rw [List.Nodup, List.pairwise_map]
      exact h.sorted.imp fun hlt => Nat.ne_of_lt hlt
    have hsub : (desc.fields.map fun f => f.id.toNat) ⊆ List.range (2 ^ 29) := by
      intro x hx
      obtain ⟨f, hf, rfl⟩ := List.mem_map.mp hx
      exact List.mem_range.mpr (h.field f hf).id_lt
    have hle := (List.subperm_of_subset hnodup hsub).length_le
    rw [List.length_map, List.length_range] at hle
    exact lt_of_le_of_lt hle (by norm_num)

theorem MessageDescriptor.Generated.length_lt {desc : MessageDescriptor} (h : desc.Generated) :
    desc.fields.length < 2 ^ 31 := by
  simpa using h.searchable.short

/-- `int_range_lookup (desc->n_field_ranges, desc->field_ranges, tag)` is the index of the field
with that number, or -1. -/
theorem MessageDescriptor.Generated.intRangeLookup_eq {desc : MessageDescriptor}
    (h : desc.Generated) (tag : UInt32) :
    intRangeLookup desc.nFieldRanges desc.fieldRanges tag.toInt32 = some
      (match desc.fieldIndex tag with
       | some i => Int32.ofNat i
       | none => -1) := by
  obtain ⟨r, hr, hfound, habsent⟩ := ProtobufC.intRangeLookup_eq h.searchable tag.toInt32
  rw [h.ranges, h.nRanges, hr]
  congr 1
  cases hi : desc.fieldIndex tag with
  | some i =>
    obtain ⟨f, hf, hid⟩ := h.fieldIndex_eq.mp hi
    apply hfound
    rw [List.getElem?_map, hf, ← hid]
    rfl
  | none =>
    apply habsent
    intro i hi'
    rw [List.getElem?_map] at hi'
    cases hf : desc.fields[i]? with
    | none => simp [hf] at hi'
    | some f =>
      simp only [hf, Option.map_some, Option.some.injEq] at hi'
      have hid : f.id = tag := by
        have := congrArg Int32.toUInt32 hi'
        simpa using this
      exact MessageDescriptor.fieldIndex_none.mp hi f (List.mem_of_getElem? hf) hid

end ProtobufC
