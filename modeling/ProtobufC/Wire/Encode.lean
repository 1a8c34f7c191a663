import ProtobufC.Runtime.PackedSize
import ProtobufC.Wire.Record

/-! # The encoding of a message

What a message is on the wire: the records of its fields in descriptor order, then its unknown
fields.  The three serialisation walks are compared with `Message.encode`; `Message.Packable` is
what they need of a message.
-/

namespace ProtobufC
open Library
set_option autoImplicit false

/-- The wire type that a field of type `t` is written with. -/
def FieldType.wireType : FieldType → WireType
  | .int32 | .sint32 | .uint32 | .enum | .int64 | .sint64 | .uint64 | .bool => .varint
  | .sfixed32 | .fixed32 | .float => .bit32
  | .sfixed64 | .fixed64 | .double => .bit64
  | .string | .bytes | .message => .lengthPrefixed

/-- The bytes of a value of a packable type. -/
def scalarBytes : FieldType → Value → List UInt8
  | .sint32, .word32 v => sint32Pack v.toInt32
  | .int32, .word32 v => int32Pack v.toInt32
  | .uint32, .word32 v | .enum, .word32 v => uint32Pack v
  | .sint64, .word64 v => sint64Pack v.toInt64
  | .int64, .word64 v | .uint64, .word64 v => uint64Pack v
  | .sfixed32, .word32 v | .fixed32, .word32 v | .float, .word32 v => fixed32Pack v
  | .sfixed64, .word64 v | .fixed64, .word64 v | .double, .word64 v => fixed64Pack v
  | .bool, .boolean v => booleanPack v
  | _, _ => []

/-- A body behind its length. -/
def prefixed (body : List UInt8) : List UInt8 := uint32Pack (UInt32.ofNat body.length) ++ body

/-- The bytes of a string, a byte array or a sub-message. -/
def Value.body (sub : Message → List UInt8) : Value → List UInt8
  | .string (some p) => cString p.val
  | .bytes len (some p) => p.val.take len
  | .message (.ref _ m) => sub m
  | _ => []

/-- The payload of a value as a record of its own. -/
def Value.payload (sub : Message → List UInt8) (type : FieldType) (v : Value) : List UInt8 :=
  if isPackableType type then scalarBytes type v else prefixed (v.body sub)

def Value.record (sub : Message → List UInt8) (field : FieldDescriptor) (v : Value) : Record :=
  ⟨field.id, field.type.wireType, v.payload sub field.type⟩

/-- The one record of a packed field. -/
def packedRecord (field : FieldDescriptor) (vs : List Value) : Record :=
  ⟨field.id, .lengthPrefixed, prefixed (vs.flatMap (scalarBytes field.type))⟩

/-- The records of one field. -/
def slotRecords (sub : Message → List UInt8) (field : FieldDescriptor) : Slot → List Record
  | .singular has v =>
      if field.label = .required ∨ field.isSet has v then [v.record sub field] else []
  | .repeated a =>
      if field.packed then if a.n = 0 then [] else [packedRecord field a.elems]
      else a.elems.map (Value.record sub field)

def unknownRecord (u : MessageUnknownField) : Record :=
  ⟨u.tag, u.wireType, (u.data.elim [] Ptr.val).take u.len⟩

/-- The records of a message, given the encodings of its sub-messages. -/
def recordsLayer (S : Schema) (sub : Message → List UInt8) (m : Message) : List Record :=
  (List.zipWith (slotRecords sub) (S.desc m.descriptor).fields m.slots).flatten ++
    m.unknown.elems.map unknownRecord

/-- The bytes of a message. -/
def Message.encode (S : Schema) : Message → List UInt8 :=
  layerRec Message.depth (fun sub m => (recordsLayer S sub m).flatMap Record.bytes) []

/-- The records of a message. -/
def Message.records (S : Schema) (m : Message) : List Record := recordsLayer S (Message.encode S) m

/-! ## Recursion -/

theorem Value.record_congr {sub sub' : Message → List UInt8} {field : FieldDescriptor} {v : Value}
    (h : ∀ c ∈ v.children, sub c = sub' c) : v.record sub field = v.record sub' field := by
  have hbody : v.body sub = v.body sub' := by
    match v, h with
    | .message (.ref a m), h => exact h m (by simp [Value.children])
    | .message .null, _ | .word32 _, _ | .word64 _, _ | .boolean _, _ | .string none, _
    | .string (some _), _ | .bytes _ none, _ | .bytes _ (some _), _ => rfl
  unfold Value.record Value.payload
  rw [hbody]

theorem slotRecords_congr {sub sub' : Message → List UInt8} {field : FieldDescriptor} {s : Slot}
    (h : ∀ c ∈ s.children, sub c = sub' c) : slotRecords sub field s = slotRecords sub' field s := by
  cases s with
  | singular has v => simp only [slotRecords, Value.record_congr h]
  | repeated a =>
    have hmap : a.elems.map (Value.record sub field) = a.elems.map (Value.record sub' field) := by
      apply List.map_congr_left
      intro v hv
      exact Value.record_congr fun c hc => h c (List.mem_flatMap.mpr ⟨v, hv, hc⟩)
    simp only [slotRecords, hmap]

theorem recordsLayer_congr {S : Schema} {sub sub' : Message → List UInt8} {m : Message}
    (h : ∀ c ∈ m.children, sub c = sub' c) : recordsLayer S sub m = recordsLayer S sub' m := by
  have hzip : ∀ (fields : List FieldDescriptor) (slots : List Slot),
      (∀ s ∈ slots, ∀ c ∈ s.children, sub c = sub' c) →
      List.zipWith (slotRecords sub) fields slots = List.zipWith (slotRecords sub') fields slots := by
    intro fields
    induction fields with
    | nil => simp
    | cons f fields ih =>
      intro slots hs
      cases slots with
      | nil => simp
      | cons s slots =>
        rw [List.zipWith_cons_cons, List.zipWith_cons_cons, ih slots fun s hs' => hs s (by simp [hs']),
          slotRecords_congr (hs s (by simp))]
  unfold recordsLayer
  rw [hzip]
  exact fun s hs c hc => h c (List.mem_flatMap.mpr ⟨s, hs, hc⟩)

theorem Message.encode_eq (S : Schema) (m : Message) :
    m.encode S = (m.records S).flatMap Record.bytes := by
  refine layerRec_eq (F := fun sub m => (recordsLayer S sub m).flatMap Record.bytes) ?_ m
  intro m g g' h
  show (recordsLayer S g m).flatMap _ = (recordsLayer S g' m).flatMap _
  rw [recordsLayer_congr fun c hc => h c (m.depth_children c hc)]

/-! ## Messages that can be packed -/

/-- The bytes behind the value can be read. -/
def Value.Readable : Value → Prop
  | .bytes len data => len ≤ (data.elim [] Ptr.val).length
  | _ => True

/-- The member of the field can be packed: it has the field's type, what it points at can be read,
and no element of a repeated field is NULL. -/
def SlotPackable (field : FieldDescriptor) : Slot → Prop
  | .singular has v => field.label ≠ .repeated ∧ Value.HasType field.type v ∧
      (field.label = .required ∨ field.isSet has v → v.Readable)
  | .repeated a => field.label = .repeated ∧ a.n = a.elems.length ∧
      ∀ v ∈ a.elems, Value.HasType field.type v ∧ v.Readable ∧ v.NonNull

/-- The member is serialised. -/
def FieldDescriptor.writes (field : FieldDescriptor) (has : Int32) (member : Value) : Bool :=
  field.label = .required ∨ field.isSet has member

/-- The values of a member that are written. -/
def Slot.written (field : FieldDescriptor) : Slot → List Value
  | .singular has v => if field.writes has v then [v] else []
  | .repeated a => a.elems

/-- The sub-messages that are written. -/
def Slot.writtenChildren (field : FieldDescriptor) (slot : Slot) : List Message :=
  (slot.written field).flatMap Value.children

def Message.writtenChildren (S : Schema) (m : Message) : List Message :=
  ((S.desc m.descriptor).fields.zip m.slots).flatMap fun p => p.2.writtenChildren p.1

/-- What the three walks need of a message, at every level that is written. -/
inductive Message.Packable (S : Schema) : Message → Prop
  | intro (m : Message)
      (slots : List.Forall₂ SlotPackable (S.desc m.descriptor).fields m.slots)
      (unknown_n : m.unknown.n = m.unknown.elems.length)
      (unknown : ∀ u ∈ m.unknown.elems, u.len ≤ (u.data.elim [] Ptr.val).length)
      (children : ∀ c ∈ m.writtenChildren S, Message.Packable S c) : Message.Packable S m

section
variable {field : FieldDescriptor} {slot : Slot} {has : Int32} {v : Value} {a : CArray Value}

theorem mem_written_singular {w : Value} :
    w ∈ (Slot.singular has v).written field ↔ field.writes has v = true ∧ w = v := by
  rw [Slot.written]
  split_ifs with hw
  · simp [hw]
  · simp [hw]

theorem Slot.writtenChildren_singular (h : field.label = .required ∨ field.isSet has v) :
    (Slot.singular has v).writtenChildren field = v.children := by
  have hwrites : field.writes has v = true := decide_eq_true h
  rw [Slot.writtenChildren, Slot.written, if_pos hwrites, List.flatMap_cons, List.flatMap_nil,
    List.append_nil]

theorem Slot.children_of_written (hv : v ∈ slot.written field) : ∀ c ∈ v.children, c ∈ slot.children := by
  intro c hc
  cases slot with
  | singular has w =>
    obtain ⟨-, rfl⟩ := mem_written_singular.mp hv
    exact hc
  | repeated a => exact List.mem_flatMap.mpr ⟨v, hv, hc⟩

theorem Slot.mem_writtenChildren {c : Message} :
    c ∈ slot.writtenChildren field ↔ ∃ v ∈ slot.written field, c ∈ v.children :=
  List.mem_flatMap

theorem Slot.writtenChildren_subset {c : Message} (hc : c ∈ slot.writtenChildren field) :
    c ∈ slot.children := by
  obtain ⟨v, hv, hc⟩ := Slot.mem_writtenChildren.mp hc
  exact Slot.children_of_written hv c hc

theorem Message.mem_writtenChildren {S : Schema} {m c : Message} : c ∈ m.writtenChildren S ↔
    ∃ p ∈ (S.desc m.descriptor).fields.zip m.slots, c ∈ p.2.writtenChildren p.1 :=
  List.mem_flatMap

theorem Message.writtenChildren_subset {S : Schema} {m c : Message} (hc : c ∈ m.writtenChildren S) :
    c ∈ m.children := by
  obtain ⟨p, hp, hc⟩ := Message.mem_writtenChildren.mp hc
  exact List.mem_flatMap.mpr ⟨p.2, (List.of_mem_zip hp).2, Slot.writtenChildren_subset hc⟩

end

/-! ## Lengths -/

@[simp] theorem length_prefixed (body : List UInt8) :
    (prefixed body).length = uint32Size (UInt32.ofNat body.length) + body.length := by
  rw [prefixed, List.length_append, uint32Pack_eq, uint32Size_eq]

theorem length_bytes (r : Record) : r.bytes.length = getTagSize r.tag + r.payload.length := by
  rw [Record.bytes, List.length_append, length_orFirst, tagPack_eq, getTagSize_eq]

theorem length_scalarBytes {type : FieldType} {v : Value} (hp : isPackableType type = true)
    (hv : Value.HasType type v) :
    1 ≤ (scalarBytes type v).length ∧ (scalarBytes type v).length ≤ 10 := by
  have h32 : ∀ w : UInt32, 1 ≤ (uint32Pack w).length ∧ (uint32Pack w).length ≤ 10 := by
    intro w
    have := w.toNat_lt
    rw [uint32Pack_eq]
    exact ⟨length_base128_pos _, length_base128_le (k := 9) (by omega)⟩
  have h64 : ∀ w : UInt64, 1 ≤ (uint64Pack w).length ∧ (uint64Pack w).length ≤ 10 := by
    intro w
    have := w.toNat_lt
    rw [uint64Pack_eq]
    exact ⟨length_base128_pos _, length_base128_le (k := 9) (by omega)⟩
  have hi32 : ∀ w : Int32, 1 ≤ (int32Pack w).length ∧ (int32Pack w).length ≤ 10 := by
    intro w
    have := w.toInt64.toUInt64.toNat_lt
    rw [int32Pack_eq]
    exact ⟨length_base128_pos _, length_base128_le (k := 9) (by unfold signExtended; omega)⟩
  cases type <;> cases v <;> first
    | exact False.elim hv
    | exact absurd hp (by decide)
    | exact h32 _
    | exact h64 _
    | exact hi32 _
    | simp [scalarBytes]

end ProtobufC
