import ProtobufC.Runtime.Unpack
import ProtobufC.Wire.Record

/-! # Decoding in one pass

The abstract decoder: a message starts as the initialised one, and every record in turn overwrites a
member, extends an array or is kept as an unknown field.  There is no counting, no allocation and no
table; blocks have the number 0.  `decode` is this fold at every level, with the check for required
fields that `protobuf_c_message_unpack` makes at every level.
-/

namespace ProtobufC
open Library
set_option autoImplicit false

/-! ## Arrays -/

/-- The array with these elements, NULL when there are none. -/
def CArray.ofList {α : Type} (vs : List α) : CArray α :=
  ⟨vs.length, if vs.isEmpty then none else some (.block 0), vs.length, vs⟩

@[simp] theorem CArray.ofList_nil {α : Type} : CArray.ofList ([] : List α) = .null := rfl

@[simp] theorem CArray.ofList_elems {α : Type} (vs : List α) : (CArray.ofList vs).elems = vs := rfl

/-! ## Fields -/

/-- The field with number `tag`, and its index. -/
def MessageDescriptor.field? (desc : MessageDescriptor) (tag : UInt32) :
    Option (ℕ × FieldDescriptor) :=
  (desc.fieldIndex tag).bind fun i => desc.fields[i]?.map fun field => (i, field)

theorem MessageDescriptor.Generated.field?_eq_some {desc : MessageDescriptor} (h : desc.Generated)
    {i : ℕ} {field : FieldDescriptor} {tag : UInt32} :
    desc.field? tag = some (i, field) ↔ desc.fields[i]? = some field ∧ field.id = tag := by
  unfold MessageDescriptor.field?
  constructor
  · intro he
    obtain ⟨j, hj, he⟩ := Option.bind_eq_some_iff.mp he
    obtain ⟨f, hf, he⟩ := Option.map_eq_some_iff.mp he
    simp only [Prod.mk.injEq] at he
    obtain ⟨rfl, rfl⟩ := he
    obtain ⟨g, hg, hid⟩ := h.fieldIndex_eq.mp hj
    rw [hf, Option.some.injEq] at hg
    exact ⟨hf, hg ▸ hid⟩
  · rintro ⟨hf, hid⟩
    rw [h.fieldIndex_eq.mpr ⟨field, hf, hid⟩, Option.bind_some, hf, Option.map_some]

theorem MessageDescriptor.Generated.field?_eq_none {desc : MessageDescriptor} (h : desc.Generated)
    {tag : UInt32} : desc.field? tag = none ↔ ∀ f ∈ desc.fields, f.id ≠ tag := by
  rw [← MessageDescriptor.fieldIndex_none]
  unfold MessageDescriptor.field?
  constructor
  · intro he
    cases hi : desc.fieldIndex tag with
    | none => rfl
    | some i =>
      obtain ⟨f, hf, -⟩ := h.fieldIndex_eq.mp hi
      simp [hi, hf] at he
  · intro hi
    rw [hi, Option.bind_none]

/-! ## One record -/

/-- A record as an unknown field. -/
def Record.unknownField (r : Record) : MessageUnknownField :=
  ⟨r.tag, r.wireType, r.payload.length, some ⟨.block 0, r.payload⟩⟩

/-- The multiple of bytes that a packed payload of the type has. -/
def packedUnit (type : FieldType) : ℕ :=
  match type with
  | .sfixed32 | .fixed32 | .float => 4
  | .sfixed64 | .fixed64 | .double => 8
  | _ => 1

/-- The elements of a packed payload. -/
def decodePacked (type : FieldType) (body : List UInt8) : Option (List Value) :=
  match parsePackedElements type body with
  | .ok (vs, true) => if body.length % packedUnit type = 0 then some vs else none
  | _ => none

section Step
variable (sub : DescriptorId → List UInt8 → Option Message)

/-- The value of one record. -/
def decodeValue (field : FieldDescriptor) (r : Record) : Option Value :=
  match field.type with
  | .string =>
      if r.wireType = .lengthPrefixed then some (.string (some ⟨.block 0, r.body ++ [0]⟩)) else none
  | .bytes =>
      if r.wireType = .lengthPrefixed then
        some (.bytes r.body.length (if r.body.isEmpty then none else some ⟨.block 0, r.body⟩))
      else none
  | .message =>
      if r.wireType = .lengthPrefixed then
        (sub field.descriptor r.body).map fun m => .message (.ref (.block 0) m)
      else none
  | type => parseScalar type r.wireType r.payload

/-- The elements of one record of a repeated field. -/
def decodeElements (field : FieldDescriptor) (r : Record) : Option (List Value) :=
  if isPackedRecord field r.wireType then decodePacked field.type r.body
  else (decodeValue sub field r).map fun v => [v]

/-- The member overwritten, and its `has` member set when there is one. -/
def Slot.assign (field : FieldDescriptor) (v : Value) : Slot → Slot
  | .singular has _ =>
      .singular (if field.label = .optional ∧ field.quantifierOffset ≠ 0 then 1 else has) v
  | .repeated a => .repeated a

/-- The array with elements appended. -/
def Slot.extend (vs : List Value) : Slot → Slot
  | .repeated a => .repeated (.ofList (a.elems ++ vs))
  | .singular has v => .singular has v

/-- What a record does to the member of its field. -/
def slotStep (field : FieldDescriptor) (slot : Slot) (r : Record) : Option Slot :=
  if field.label = .repeated then (decodeElements sub field r).map slot.extend
  else (decodeValue sub field r).map fun v => slot.assign field v

/-- What a record does to the message. -/
def messageStep (desc : MessageDescriptor) (m : Message) (r : Record) : Option Message :=
  match desc.field? r.tag with
  | none => some (.mk m.descriptor m.slots (.ofList (m.unknown.elems ++ [r.unknownField])))
  | some (i, field) => do
      let slot ← m.slots[i]?
      let slot' ← slotStep sub field slot r
      some (.mk m.descriptor (m.slots.set i slot') m.unknown)

/-- The fold over the records. -/
def foldRecords (desc : MessageDescriptor) (m : Message) (rs : List Record) : Option Message :=
  rs.foldlM (messageStep sub desc) m

end Step

/-! ## Required fields -/

/-- The bitmap after one record. -/
def bitmapStep (desc : MessageDescriptor) (bitmap : List UInt8) (r : Record) : List UInt8 :=
  match desc.field? r.tag with
  | some (i, field) =>
      if field.label = .required then requiredFieldBitmapSet bitmap i else bitmap
  | none => bitmap

/-- The bitmap after all records. -/
def requiredBitmap (desc : MessageDescriptor) (rs : List Record) : List UInt8 :=
  rs.foldl (bitmapStep desc) (List.replicate 16 0)

/-- The check of the required fields from index `f` on fails. -/
def missingRequired (bitmap : List UInt8) : ℕ → List FieldDescriptor → Bool
  | _, [] => false
  | f, field :: fields =>
      (field.label = .required ∧ field.defaultValue.isNone ∧ notRequiredFieldBitmapIsSet bitmap f) ∨
        missingRequired bitmap (f + 1) fields

/-- A required field fails its check. -/
def MessageDescriptor.missing (desc : MessageDescriptor) (rs : List Record) : Bool :=
  missingRequired (requiredBitmap desc rs) 0 desc.fields

theorem missingRequired_iff {bitmap : List UInt8} {fields : List FieldDescriptor} {f : ℕ} :
    missingRequired bitmap f fields = true ↔ ∃ i field, fields[i]? = some field ∧
      field.label = .required ∧ field.defaultValue = none ∧
        notRequiredFieldBitmapIsSet bitmap (f + i) = true := by
  induction fields generalizing f with
  | nil => simp [missingRequired]
  | cons g fields ih =>
    rw [missingRequired, decide_eq_true_iff, ih]
    constructor
    · rintro (⟨hl, hd, hb⟩ | ⟨i, field, hf, h⟩)
      · exact ⟨0, g, rfl, hl, by simpa using hd, hb⟩
      · exact ⟨i + 1, field, hf, by rwa [Nat.add_right_comm] at h⟩
    · rintro ⟨i, field, hf, hl, hd, hb⟩
      cases i with
      | zero =>
        simp only [List.getElem?_cons_zero, Option.some.injEq] at hf
        subst hf
        exact .inl ⟨hl, by simp [hd], hb⟩
      | succ i => exact .inr ⟨i, field, hf, hl, hd, by rwa [Nat.add_right_comm]⟩

/-! ## Messages -/

/-- The initialised message. -/
def Schema.initMessage (S : Schema) (d : DescriptorId) : Message := .mk d (S.desc d).initSlots .null

/-- One level of the decoder. -/
def decodeLayer (S : Schema) (sub : DescriptorId → List UInt8 → Option Message) (d : DescriptorId)
    (data : List UInt8) : Option Message := do
  let rs ← tokenize data
  if (S.desc d).missing rs then none else foldRecords sub (S.desc d) (S.initMessage d) rs

/-- The abstract decoder. -/
def decode (S : Schema) (d : DescriptorId) (data : List UInt8) : Option Message :=
  layerRec (fun p : DescriptorId × List UInt8 => p.2.length)
    (fun sub p => decodeLayer S (fun d data => sub (d, data)) p.1 p.2) none (d, data)

/-! ## Recursion -/

theorem length_body_le (r : Record) : r.body.length ≤ r.payload.length := by
  rw [Record.body, List.length_drop]
  omega

theorem tokenize_body_lt {data : List UInt8} {rs : List Record} (h : tokenize data = some rs)
    {r : Record} (hr : r ∈ rs) : r.body.length < data.length := by
  have hsum := tokenize_length h
  have hle := List.single_le_sum (fun _ _ => Nat.zero_le _) _
    (List.mem_map_of_mem (f := fun r : Record => r.payload.length + 1) hr)
  have := length_body_le r
  omega

theorem decodeValue_congr {sub sub' : DescriptorId → List UInt8 → Option Message}
    {field : FieldDescriptor} {r : Record}
    (h : ∀ d, sub d r.body = sub' d r.body) : decodeValue sub field r = decodeValue sub' field r := by
  unfold decodeValue
  rw [h]

theorem slotStep_congr {sub sub' : DescriptorId → List UInt8 → Option Message}
    {field : FieldDescriptor} {slot : Slot} {r : Record}
    (h : ∀ d, sub d r.body = sub' d r.body) :
    slotStep sub field slot r = slotStep sub' field slot r := by
  unfold slotStep decodeElements
  rw [decodeValue_congr h]

theorem messageStep_congr {sub sub' : DescriptorId → List UInt8 → Option Message}
    {desc : MessageDescriptor} {m : Message} {r : Record}
    (h : ∀ d, sub d r.body = sub' d r.body) :
    messageStep sub desc m r = messageStep sub' desc m r := by
  unfold messageStep
  simp only [slotStep_congr h]

theorem foldRecords_congr {sub sub' : DescriptorId → List UInt8 → Option Message}
    {desc : MessageDescriptor} {rs : List Record} (h : ∀ r ∈ rs, ∀ d, sub d r.body = sub' d r.body)
    (m : Message) : foldRecords sub desc m rs = foldRecords sub' desc m rs := by
  unfold foldRecords
  induction rs generalizing m with
  | nil => rfl
  | cons r rs ih =>
    rw [List.foldlM_cons, List.foldlM_cons, messageStep_congr (h r (by simp))]
    congr 1
    funext m'
    exact ih (fun r' hr' => h r' (by simp [hr'])) m'

theorem decode_eq (S : Schema) (d : DescriptorId) (data : List UInt8) :
    decode S d data = decodeLayer S (decode S) d data := by
  refine layerRec_eq (F := fun sub p => decodeLayer S (fun d data => sub (d, data)) p.1 p.2) ?_
    (d, data)
  rintro ⟨d, data⟩ g g' h
  show decodeLayer S _ d data = decodeLayer S _ d data
  unfold decodeLayer
  cases hrs : tokenize data with
  | none => rfl
  | some rs =>
    simp only [Option.bind_eq_bind, Option.bind_some]
    congr 1
    exact foldRecords_congr (fun r hr d' => h (d', r.body) (tokenize_body_lt hrs hr)) _

theorem decode_eq_some {S : Schema} {d : DescriptorId} {data : List UInt8} {m : Message} :
    decode S d data = some m ↔ ∃ rs, tokenize data = some rs ∧ (S.desc d).missing rs = false ∧
      foldRecords (decode S) (S.desc d) (S.initMessage d) rs = some m := by
  rw [decode_eq, decodeLayer]
  cases tokenize data with
  | none => simp
  | some rs =>
    simp only [Option.bind_eq_bind, Option.bind_some, Option.some.injEq, exists_eq_left']
    cases (S.desc d).missing rs <;> simp

end ProtobufC
