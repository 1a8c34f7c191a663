import ProtobufC.Runtime.ParseMember

/-! # `protobuf_c_message_unpack`

The first pass scans the input into `ScannedMember`s, kept in slabs of doubling size, and counts the
elements of every repeated field; then the arrays are allocated and the required fields checked; the
second pass parses the scanned members.  `goto error_cleanup_during_scan` and `goto error_cleanup`
are the flag `false`, returned with the state at the jump.
-/

namespace ProtobufC
open Library
set_option autoImplicit false

variable {σ : Type}

/-! ## Scanning -/

/-- A slab of scanned members; the first one, on the stack, has a static address. -/
structure Slab where
  addr : Option Addr
  members : List ScannedMember

/-- The local variables of the scanning loop, with the members of `rv`; `at_` holds the `rem` bytes
from `at` on. -/
structure ScanState where
  at_ : List UInt8
  lastField : Option (ℕ × FieldDescriptor)
  lastFieldIndex : ℕ
  nUnknown : ℕ
  requiredFieldsBitmap : List UInt8
  slabs : List Slab
  whichSlab : ℕ
  inSlabIndex : ℕ
  slots : List Slot

/-- The state in front of the scanning loop. -/
def ScanState.start (desc : MessageDescriptor) (data : List UInt8) : ScanState where
  at_ := data
  lastField := desc.fields.head?.map fun field => (0, field)
  lastFieldIndex := 0
  nUnknown := 0
  requiredFieldsBitmap := List.replicate 16 0
  slabs := [⟨some (.static 0), []⟩]
  whichSlab := 0
  inSlabIndex := 0
  slots := desc.initSlots

/-- `REQUIRED_FIELD_BITMAP_SET` -/
def requiredFieldBitmapSet (bitmap : List UInt8) (index : ℕ) : List UInt8 :=
  bitmap.modify (index / 8 % 16) fun b => b ||| UInt8.ofNat (1 <<< (index % 8))

/-- `!REQUIRED_FIELD_BITMAP_IS_SET (index)`: the macro is not parenthesised, so that the negation
applies to the byte, `!required_fields_bitmap[..] & (1<<((index)%8))`. -/
def notRequiredFieldBitmapIsSet (bitmap : List UInt8) (index : ℕ) : Bool :=
  (if byteAt bitmap (index / 8 % 16) = 0 then 1 else 0) &&& 1 <<< (index % 8) ≠ 0

/-- The lookup in `desc->field_ranges`. -/
def searchField (desc : MessageDescriptor) (tag : UInt32) (st : ScanState) :
    Except Fault (Option (ℕ × FieldDescriptor) × ScanState) :=
  match intRangeLookup desc.nFieldRanges desc.fieldRanges tag.toInt32 with
  | none => .error .access
  | some field_index =>
      if field_index < 0 then .ok (none, { st with nUnknown := st.nUnknown + 1 })
      else
        let i := field_index.toNatClampNeg
        match desc.fields[i]? with
        | none => .error .access
        | some field => .ok (some (i, field),
            { st with lastField := some (i, field), lastFieldIndex := i })

/-- The field that `tag` names; the last field found is tried first. -/
def lookupField (desc : MessageDescriptor) (tag : UInt32) (st : ScanState) :
    Except Fault (Option (ℕ × FieldDescriptor) × ScanState) :=
  match st.lastField with
  | some last_field =>
      if last_field.2.id ≠ tag then searchField desc tag st else .ok (some last_field, st)
  | none => searchField desc tag st

/-- `if (field != NULL && field->label == PROTOBUF_C_LABEL_REQUIRED) ..` -/
def markRequired (field : Option (ℕ × FieldDescriptor)) (st : ScanState) : ScanState :=
  match field with
  | some (_, field) =>
      if field.label = .required then
        { st with requiredFieldsBitmap :=
            requiredFieldBitmapSet st.requiredFieldsBitmap st.lastFieldIndex }
      else st
  | none => st

/-- The part of a round between the tag and the payload: the field, and the state behind the tag. -/
def takeTag (desc : MessageDescriptor) (used : ℕ) (tag : UInt32) (st : ScanState) :
    Except Fault (Option (ℕ × FieldDescriptor) × ScanState) := do
  let r ← lookupField desc tag st
  let st := markRequired r.1 r.2
  return (r.1, { st with at_ := st.at_.drop used })

/-- The switch over `wire_type`: `tmp.len` and `tmp.length_prefix_len`, or `none` for an error. -/
def scanPayload (wireType : WireType) (at_ : List UInt8) : Option (ℕ × ℕ) :=
  match wireType with
  | .varint => (findLastDigit 10 at_).map fun i => (i + 1, 0)
  | .bit64 => if at_.length < 8 then none else some (8, 0)
  | .lengthPrefixed =>
      let r := scanLengthPrefixedData at_
      if r.1 = 0 then none else some (r.1.toNat, r.2)
  | .bit32 => if at_.length < 4 then none else some (4, 0)
  | _ => none

/-- `MAX_SCANNED_MEMBER_SLAB` -/
def maxScannedMemberSlab : ℕ := 8 * 8 - 1 - 5 - 4

/-- `count_packed_elements (type, len, data, &count)` -/
def countPackedElements (type : FieldType) (len : ℕ) (data : List UInt8) :
    Except Fault (Option ℕ) :=
  match type with
  | .sfixed32 | .fixed32 | .float => .ok (if len % 4 ≠ 0 then none else some (len / 4))
  | .sfixed64 | .fixed64 | .double => .ok (if len % 8 ≠ 0 then none else some (len / 8))
  | .int32 | .sint32 | .enum | .uint32 | .int64 | .sint64 | .uint64 =>
      (readBytes len data).map fun bytes => some (maxB128Numbers bytes)
  | .bool => .ok (some len)
  | .string | .bytes | .message => .ok none

/-- The elements that a scanned member of a repeated field adds. -/
def countElements (tmp : ScannedMember) (field : FieldDescriptor) : Except Fault (Option ℕ) :=
  if isPackedRecord field tmp.wireType then
    countPackedElements field.type (sizeSub tmp.len tmp.lengthPrefixLen)
      (tmp.data.drop tmp.lengthPrefixLen)
  else .ok (some 1)

/-- `*n += count` -/
def addCount (slots : List Slot) (i count : ℕ) : Except Fault (List Slot) :=
  match slots[i]? with
  | some (.repeated a) => .ok (slots.set i (.repeated { a with n := a.n + count }))
  | _ => .error .access

/-- `if (field != NULL && field->label == PROTOBUF_C_LABEL_REPEATED) { .. }`; `none` is an error. -/
def countMember (tmp : ScannedMember) (slots : List Slot) : Except Fault (Option (List Slot)) :=
  match tmp.field with
  | some (i, field) =>
      if field.label = .repeated then do
        match ← countElements tmp field with
        | none => return none
        | some count => return some (← addCount slots i count)
      else .ok (some slots)
  | none => .ok (some slots)

/-- `scanned_member_slabs[which_slab][in_slab_index++] = tmp;` -/
def storeMember (tmp : ScannedMember) (st : ScanState) : Except Fault ScanState :=
  match st.slabs[st.whichSlab]? with
  | some ⟨some addr, members⟩ =>
      .ok { st with
        slabs := st.slabs.set st.whichSlab ⟨some addr, members.take st.inSlabIndex ++ [tmp]⟩
        inSlabIndex := st.inSlabIndex + 1 }
  | _ => .error .access

section Walk
variable (A : Allocator σ)

/-- `TMPALLOC (allocator, size)` or `DO_ALLOC (.., allocator, size, ..)`; `none` is an error. -/
def allocSlab (size : ℕ) : Run σ (Option (Option Addr)) :=
  match A.tmpAlloc with
  | some tmp_alloc => fun s =>
      let r := tmp_alloc size s
      .ok (some (r.1.map Addr.block), r.2)
  | none => A.doAlloc size

/-- `if (in_slab_index == (1U<<(which_slab+FIRST_SCANNED_MEMBER_SLAB_SIZE_LOG2))) { .. }` -/
def reserveSlab (st : ScanState) : Run σ (ScanState × Bool) :=
  if 32 ≤ st.whichSlab + 4 then fault .shift
  else if st.inSlabIndex = 1 <<< (st.whichSlab + 4) then
    if st.whichSlab = maxScannedMemberSlab then pure ({ st with inSlabIndex := 0 }, false)
    else do
      let which_slab := st.whichSlab + 1
      let dst ← allocSlab A (32 <<< (which_slab + 4))
      return ({ st with
        inSlabIndex := 0
        whichSlab := which_slab
        slabs := st.slabs ++ [⟨dst.getD none, []⟩] }, dst.isSome)
  else pure (st, true)

/-- The end of one round of the scanning loop, from the slab check on. -/
def keepMember (tmp : ScannedMember) (st : ScanState) : Run σ (ScanState × Bool) := do
  let r ← reserveSlab A st
  if r.2 = false then return (r.1, false)
  else
    let st ← require (storeMember tmp r.1)
    match ← require (countMember tmp st.slots) with
    | none => return (st, false)
    | some slots => return ({ st with slots := slots, at_ := st.at_.drop tmp.len }, true)

/-- One round of the scanning loop. -/
def scanMember (desc : MessageDescriptor) (st : ScanState) : Run σ (ScanState × Bool) :=
  match parseTagAndWiretype st.at_ with
  | none => pure (st, false)
  | some (used, tag, wire_type) => do
      let r ← require (takeTag desc used tag st)
      match scanPayload wire_type r.2.at_ with
      | none => return (r.2, false)
      | some (len, length_prefix_len) =>
          keepMember A ⟨tag, wire_type, length_prefix_len, r.1, len, r.2.at_⟩ r.2

/-- `while (rem > 0) { .. }`; every round takes a byte at least. -/
def scanLoop (desc : MessageDescriptor) : ℕ → ScanState → Run σ (ScanState × Bool)
  | 0, st => if st.at_.isEmpty then pure (st, true) else fault .hang
  | fuel + 1, st =>
      if st.at_.isEmpty then pure (st, true)
      else do
        let r ← scanMember A desc st
        if r.2 then scanLoop desc fuel r.1 else return r

/-- `for (j = 1; j <= which_slab; j++) FREE (allocator, scanned_member_slabs[j]);`, when there is no
`tmp_alloc`. -/
def freeSlabs (slabs : List Slab) : Run σ Unit :=
  match A.tmpAlloc with
  | some _ => pure ()
  | none => freeLoop A (fun slab => .ok slab.addr) (slabs.drop 1)

/-! ## Allocation and the required check -/

/-- `sizeof_elt_in_repeated_array` -/
def sizeofEltInRepeatedArray (type : FieldType) : ℕ :=
  match type with
  | .sint32 | .int32 | .uint32 | .sfixed32 | .fixed32 | .float | .enum => 4
  | .sint64 | .int64 | .uint64 | .sfixed64 | .fixed64 | .double => 8
  | .bool => 4
  | .string | .message => 8
  | .bytes => 16

/-- `CLEAR_REMAINING_N_PTRS ()` on the fields behind `f`. -/
def clearRemainingNPtrs (slots : List Slot) : List Slot :=
  slots.map fun slot =>
    match slot with
    | .repeated a => .repeated { a with n := 0 }
    | .singular has v => .singular has v

/-- The body of the loop that allocates the arrays and checks the required fields. -/
def allocateField (bitmap : List UInt8) (f : ℕ) (field : FieldDescriptor) (slot : Slot) :
    Run σ (Slot × Bool) :=
  match field.label, slot with
  | .repeated, .repeated a =>
      if a.n ≠ 0 then do
        let n := a.n % 2 ^ 32
        let dst ← A.doAlloc (sizeofEltInRepeatedArray field.type * n)
        return (.repeated ⟨0, dst.getD none, n, []⟩, dst.isSome)
      else pure (slot, true)
  | .repeated, .singular _ _ => fault .access
  | .required, _ =>
      if field.defaultValue.isNone ∧ notRequiredFieldBitmapIsSet bitmap f then pure (slot, false)
      else pure (slot, true)
  | .optional, _ => pure (slot, true)

/-- The loop that allocates the arrays and checks the required fields. -/
def allocateFields (bitmap : List UInt8) :
    ℕ → List FieldDescriptor → List Slot → Run σ (List Slot × Bool)
  | _, [], slots => pure (slots, true)
  | f, field :: fields, slot :: slots => do
      let r ← allocateField A bitmap f field slot
      if r.2 then do
        let rest ← allocateFields bitmap (f + 1) fields slots
        return (r.1 :: rest.1, rest.2)
      else return (r.1 :: clearRemainingNPtrs slots, false)
  | _, _ :: _, [] => fault .access

/-- `if (n_unknown) DO_ALLOC (rv->unknown_fields, ..)` -/
def allocateUnknown (nUnknown : ℕ) : Run σ (CArray MessageUnknownField × Bool) :=
  if nUnknown ≠ 0 then do
    let dst ← A.doAlloc (nUnknown * 24)
    return (⟨0, dst.getD none, nUnknown, []⟩, dst.isSome)
  else pure (.null, true)

variable (S : Schema) (sub : DescriptorId → List UInt8 → Run σ MessagePtr)

/-! ## Parsing -/

/-- The loop over one slab. -/
def parseMembers : List ScannedMember → Message → Run σ (Message × Bool)
  | [], message => pure (message, true)
  | scanned :: members, message => do
      let r ← parseMember A S sub scanned message
      if r.2 then parseMembers members r.1 else return r

/-- The loop over the slabs. -/
def parseSlabs (whichSlab inSlabIndex : ℕ) : ℕ → List Slab → Message → Run σ (Message × Bool)
  | _, [], message => pure (message, true)
  | i_slab, slab :: slabs, message => do
      let max := if i_slab = whichSlab then inSlabIndex else 1 <<< (i_slab + 4)
      let members ← require (if max ≤ slab.members.length then .ok (slab.members.take max)
        else .error .access)
      let r ← parseMembers A S sub members message
      if r.2 then parseSlabs whichSlab inSlabIndex (i_slab + 1) slabs r.1 else return r

/-- From the end of the scanning loop to the end of the parsing loop. -/
def buildMessage (d : DescriptorId) (st : ScanState) : Run σ (Message × Bool) := do
  let slots ← allocateFields A st.requiredFieldsBitmap 0 (S.desc d).fields st.slots
  if slots.2 = false then return (.mk d slots.1 .null, false)
  else
    let unknown ← allocateUnknown A st.nUnknown
    if unknown.2 = false then return (.mk d slots.1 unknown.1, false)
    else parseSlabs A S sub st.whichSlab st.inSlabIndex 0 st.slabs (.mk d slots.1 unknown.1)

/-- The second half of `protobuf_c_message_unpack`, with its `error_cleanup`. -/
def finishUnpack (d : DescriptorId) (rv : Addr) (st : ScanState) : Run σ MessagePtr := do
  let r ← buildMessage A S sub d st
  if r.2 then do
    freeSlabs A st.slabs
    return .ref rv r.1
  else do
    messageFreeUnpacked A S (rv, r.1)
    freeSlabs A st.slabs
    return .null

/-- The body of `protobuf_c_message_unpack`. -/
def messageUnpackLayer (d : DescriptorId) (data : List UInt8) : Run σ MessagePtr := do
  match ← A.doAlloc (S.desc d).sizeofMessage with
  | none => return .null
  | some none => fault .access
  | some (some rv) => do
      let r ← scanLoop A (S.desc d) data.length (ScanState.start (S.desc d) data)
      if r.2 then finishUnpack A S sub d rv r.1
      else do
        A.freePtr (some rv)
        freeSlabs A r.1.slabs
        return .null

end Walk

/-- `protobuf_c_message_unpack (desc, allocator, len, data)`, where `data` holds `len` bytes. -/
def messageUnpack (A : Allocator σ) (S : Schema) (d : DescriptorId) (data : List UInt8) :
    Run σ MessagePtr :=
  layerRec (fun p : DescriptorId × List UInt8 => p.2.length)
    (fun sub p => messageUnpackLayer A S (fun d data => sub (d, data)) p.1 p.2) (fault .access)
    (d, data)

end ProtobufC
