import ProtobufC.Generator.Text
import ProtobufC.Runtime.NameLookup
import ProtobufC.Runtime.Schema

/-! # Tables of messages

The descriptor that `MessageGenerator` writes for a message, with the initial value that the generated
`message_init` function copies.  The structure has its members, and the initial value its initialisers, in
the order in which the fields are declared, some fields having two of either; the table has the fields in
the order of their numbers.  `generateMessageDescriptor_generated` says that the runtime gets what it
relies on.
-/

namespace ProtobufC
open Library
set_option autoImplicit false

/-! ## Declarations -/

/-- A default value.  The word of a `float` or `double` is what the compiler reads of the decimals that are
written for it. -/
inductive DefaultValue
  | word32 (w : UInt32)
  | word64 (w : UInt64)
  | boolean (b : Bool)
  | text (s : List UInt8)

/-- A default value for a field of type `t`. -/
def DefaultValue.Fits : FieldType → DefaultValue → Prop
  | .int32, .word32 _ | .sint32, .word32 _ | .sfixed32, .word32 _ | .uint32, .word32 _
  | .fixed32, .word32 _ | .float, .word32 _ | .enum, .word32 _ => True
  | .int64, .word64 _ | .sint64, .word64 _ | .sfixed64, .word64 _ | .uint64, .word64 _
  | .fixed64, .word64 _ | .double, .word64 _ => True
  | .bool, .boolean _ => True
  | .string, .text _ | .bytes, .text _ => True
  | _, _ => False

/-- A field as it is declared. -/
structure FieldDeclaration where
  name : String
  number : Int32
  label : Label
  type : FieldType
  /-- The type of a message or an enumeration. -/
  subtype : DescriptorId
  defaultValue : Option DefaultValue
  /-- The number of the array that holds the default value of a string or of bytes. -/
  symbol : ℕ
  /-- The option `packed`. -/
  packed : Bool

/-- What was checked of a field before the generator runs. -/
structure FieldDeclaration.Checked (field : FieldDeclaration) : Prop where
  number_pos : 0 < field.number.toInt
  number_lt : field.number.toInt < 2 ^ 29
  default : ∀ v, field.defaultValue = some v → v.Fits field.type

/-- A message as it is declared. -/
structure MessageDeclaration where
  name : String
  fields : List FieldDeclaration
  checked : ∀ field ∈ fields, field.Checked
  distinct : (fields.map FieldDeclaration.number).Nodup

/-! ## Fields -/

/-- The members that belong to a field. -/
inductive MemberKind
  | has
  | count
  | value
  deriving DecidableEq

/-- A member of the structure, by the place of its field among the declarations. -/
abbrev Member : Type := ℕ × MemberKind

inductive Initializer
  /-- `0`, for a `has` member or a count. -/
  | zero
  /-- `NULL`, for an array. -/
  | null
  | value (v : Value)

/-- `GenerateStructMembers`, where optional fields have a `has` member. -/
def membersWithHas : Label → List MemberKind
  | .required => [.value]
  | .optional => [.has, .value]
  | .repeated => [.count, .value]

/-- `GenerateStructMembers`, where they have none. -/
def membersWithoutHas : Label → List MemberKind
  | .required | .optional => [.value]
  | .repeated => [.count, .value]

/-- `GenerateStaticInit`, where optional fields have a `has` member. -/
def staticInitWithHas (v : Value) : Label → List Initializer
  | .required => [.value v]
  | .optional => [.zero, .value v]
  | .repeated => [.zero, .null]

/-- `GenerateStaticInit`, where they have none. -/
def staticInitWithoutHas (v : Value) : Label → List Initializer
  | .required | .optional => [.value v]
  | .repeated => [.zero, .null]

/-- The array that the text of the literal initialises, which has to be one. -/
def literalOf (s : List UInt8) : Except Fault (List UInt8) := do
  match literalArray (← cEscape s) with
  | none => .error .assertion
  | some array => .ok array

/-- What `GenerateDefaultValueImplementations` and `GetDefaultValue` make of a default value. -/
def FieldDeclaration.implement (field : FieldDeclaration) : DefaultValue → Except Fault Value
  | .word32 w => .ok (.word32 w)
  | .word64 w => .ok (.word64 w)
  | .boolean b => .ok (.boolean (if b then 1 else 0))
  | .text s => do
      let array ← literalOf s
      if field.type = .bytes then return .bytes s.length (some ⟨.static field.symbol, array⟩)
      else return .string (some ⟨.static field.symbol, array⟩)

/-- What the generators of the types differ in. -/
structure FieldGenerator where
  optionalUsesHas : Bool
  generateStructMembers : Label → List MemberKind
  generateStaticInit : Option Value → Label → List Initializer

/-- `PrimitiveFieldGenerator` -/
def primitiveFieldGenerator (type : FieldType) : FieldGenerator where
  optionalUsesHas := true
  generateStructMembers := membersWithHas
  generateStaticInit v := staticInitWithHas (v.getD type.zero)

/-- `StringFieldGenerator` -/
def stringFieldGenerator : FieldGenerator where
  optionalUsesHas := false
  generateStructMembers := membersWithoutHas
  generateStaticInit v := staticInitWithoutHas (v.getD (.string none))

/-- `BytesFieldGenerator` -/
def bytesFieldGenerator : FieldGenerator where
  optionalUsesHas := true
  generateStructMembers := membersWithHas
  generateStaticInit v := staticInitWithHas (v.getD (.bytes 0 none))

/-- `EnumFieldGenerator` -/
def enumFieldGenerator : FieldGenerator where
  optionalUsesHas := true
  generateStructMembers := membersWithHas
  generateStaticInit v := staticInitWithHas (v.getD (.word32 0))

/-- `MessageFieldGenerator` -/
def messageFieldGenerator : FieldGenerator where
  optionalUsesHas := false
  generateStructMembers := membersWithoutHas
  generateStaticInit _ := staticInitWithoutHas (.message .null)

/-- `FieldGeneratorMap::MakeGenerator` -/
def makeGenerator : FieldType → FieldGenerator
  | .message => messageFieldGenerator
  | .string => stringFieldGenerator
  | .bytes => bytesFieldGenerator
  | .enum => enumFieldGenerator
  | type => primitiveFieldGenerator type

/-- Where the compiler puts the members, behind the `ProtobufCMessage` that the structure begins with. -/
structure StructLayout where
  size : ℕ
  offset : Member → ℕ
  size_pos : 0 < size
  behind : ∀ m, 0 < offset m

/-- `GenerateDescriptorInitializerGeneric`, of the field declared as number `i`; `v` is its default
value. -/
def generateDescriptorInitializer (L : StructLayout) (i : ℕ) (field : FieldDeclaration)
    (v : Option Value) : FieldDescriptor where
  name := field.name
  id := field.number.toUInt32
  label := field.label
  type := field.type
  quantifierOffset :=
    match field.label with
    | .required => 0
    | .optional => if (makeGenerator field.type).optionalUsesHas then L.offset (i, .has) else 0
    | .repeated => L.offset (i, .count)
  descriptor := field.subtype
  defaultValue := v
  packed := field.label = .repeated ∧ isPackableType field.type ∧ field.packed

/-! ## Messages -/

/-- `compare_pfields_by_number`, of fields with their places. -/
def compareByNumber (a b : FieldDeclaration × ℕ) : Ordering :=
  if a.1.number < b.1.number then .lt else if b.1.number < a.1.number then .gt else .eq

/-- The structure that `init_value` is: the members and the initialisers, in the same order. -/
def initValue (fields : List (FieldDeclaration × ℕ)) (values : List (Option Value)) :
    List (Member × Initializer) :=
  (fields.flatMap fun f => ((makeGenerator f.1.type).generateStructMembers f.1.label).map (f.2, ·)).zip
    ((fields.zip values).flatMap fun f =>
      (makeGenerator f.1.1.type).generateStaticInit f.2 f.1.1.label)

/-- The members of a field in a structure, as far as they are initialised as they have to be. -/
def readSlot (init : List (Member × Initializer)) (i : ℕ) (label : Label) : Except Fault Slot :=
  match label, init.lookup (i, .has), init.lookup (i, .count), init.lookup (i, .value) with
  | .repeated, none, some .zero, some .null => .ok (.repeated .null)
  | .required, none, none, some (.value v) | .optional, none, none, some (.value v)
  | .optional, some .zero, none, some (.value v) => .ok (.singular 0 v)
  | _, _, _, _ => .error .assertion

/-- `MessageGenerator::GenerateMessageDescriptor`, with the structure and the function `message_init` of
the other functions of the class. -/
def generateMessageDescriptor (Q : Qsort (FieldDeclaration × ℕ)) (L : StructLayout)
    (decl : MessageDeclaration) : Except Fault MessageDescriptor := do
  let values ← decl.fields.mapM fun field => field.defaultValue.mapM field.implement
  let init := initValue decl.fields.zipIdx values
  let sortedFields := Q.sort compareByNumber decl.fields.zipIdx
  let slots ← sortedFields.mapM fun f => readSlot init f.2 f.1.label
  let numbers := sortedFields.map fun f => f.1.number
  return {
    name := decl.name
    sizeofMessage := L.size
    fields := sortedFields.map fun f =>
      generateDescriptorInitializer L f.2 f.1 (values[f.2]?.getD none)
    nFieldRanges := if decl.fields = [] then 0 else writeIntRangesCount numbers
    fieldRanges := if decl.fields = [] then [] else writeIntRanges numbers
    messageInit := some slots }

/-! ## Default values -/

theorem literalOf_eq (s : List UInt8) : literalOf s = .ok (s ++ [0]) := by
  obtain ⟨text, hok, hread⟩ := cEscape_literal s
  unfold literalOf
  rw [hok]
  simp only [except_ok_bind, hread]

/-- The default value as the tables have it. -/
def FieldDeclaration.implemented (field : FieldDeclaration) : Option Value :=
  field.defaultValue.map fun v =>
    match v with
    | .word32 w => .word32 w
    | .word64 w => .word64 w
    | .boolean b => .boolean (if b then 1 else 0)
    | .text s =>
        if field.type = .bytes then .bytes s.length (some ⟨.static field.symbol, s ++ [0]⟩)
        else .string (some ⟨.static field.symbol, s ++ [0]⟩)

section
variable {field : FieldDeclaration}

theorem mapM_implement (field : FieldDeclaration) :
    field.defaultValue.mapM field.implement = .ok field.implemented := by
  unfold FieldDeclaration.implemented
  cases hv : field.defaultValue with
  | none => rfl
  | some v =>
    cases v with
    | word32 | word64 | boolean => rfl
    | text s =>
      have himplement : field.implement (.text s) = .ok (if field.type = .bytes then
          .bytes s.length (some ⟨.static field.symbol, s ++ [0]⟩)
          else .string (some ⟨.static field.symbol, s ++ [0]⟩)) := by
        unfold FieldDeclaration.implement
        simp only [literalOf_eq, except_ok_bind]
        split_ifs <;> rfl
      show (some <$> field.implement (.text s)) = _
      rw [himplement]
      rfl

/-- `MessageFieldGenerator::GetDefaultValue` has nothing to give. -/
theorem FieldDeclaration.Checked.implemented_message (h : field.Checked) (htype : field.type = .message) :
    field.implemented = none := by
  unfold FieldDeclaration.implemented
  cases hv : field.defaultValue with
  | none => rfl
  | some v =>
    have hfits := h.default v hv
    rw [htype] at hfits
    cases v <;> exact hfits.elim

/-- The default values are of the type, and in static memory. -/
theorem FieldDeclaration.Checked.implemented (h : field.Checked) {v : Value}
    (hv : field.implemented = some v) : Value.HasType field.type v ∧ v.Static ∧ v.NonNull := by
  obtain ⟨dv, hdv, rfl⟩ := Option.map_eq_some_iff.mp hv
  have hfits := h.default dv hdv
  have hstatic : ∀ v : Value, v.erase = v → (∀ a, v.pointer = some a → a = .static field.symbol) →
      v.Static := fun v herase hpointer => ⟨herase, fun a ha => ⟨field.symbol, hpointer a ha⟩⟩
  cases dv with
  | word32 w =>
    refine ⟨?_, hstatic _ (by simp) (by simp [Value.pointer]), trivial⟩
    revert hfits
    cases field.type <;> exact id
  | word64 w =>
    refine ⟨?_, hstatic _ (by simp) (by simp [Value.pointer]), trivial⟩
    revert hfits
    cases field.type <;> exact id
  | boolean b =>
    refine ⟨?_, hstatic _ (by simp) (by simp [Value.pointer]), trivial⟩
    revert hfits
    cases field.type <;> exact id
  | text s =>
    cases htype : field.type with
    | string =>
      simp only [reduceCtorEq, if_false]
      exact ⟨trivial, hstatic _ (by simp [Ptr.erase]) (by simp [Value.pointer, eq_comm]),
        by simp [Value.NonNull]⟩
    | bytes =>
      simp only [if_true]
      exact ⟨trivial, hstatic _ (by simp [Ptr.erase]) (by simp [Value.pointer, eq_comm]), trivial⟩
    | int32 | sint32 | sfixed32 | int64 | sint64 | sfixed64 | uint32 | fixed32 | uint64 | fixed64 | float
    | double | bool | enum | message =>
      rw [htype] at hfits
      exact hfits.elim

end

/-! ## The initial value -/

/-- The initialisers of a field are as many as its members. -/
theorem length_generateStaticInit (type : FieldType) (label : Label) (v : Option Value) :
    ((makeGenerator type).generateStructMembers label).length =
      ((makeGenerator type).generateStaticInit v label).length := by
  cases type <;> cases label <;> rfl

/-- The members of a field, with their initialisers. -/
def fieldBlock (f : FieldDeclaration × ℕ) : List (Member × Initializer) :=
  (((makeGenerator f.1.type).generateStructMembers f.1.label).map (f.2, ·)).zip
    ((makeGenerator f.1.type).generateStaticInit f.1.implemented f.1.label)

theorem fst_fieldBlock {f : FieldDeclaration × ℕ} {x : Member × Initializer} (hx : x ∈ fieldBlock f) :
    x.1.1 = f.2 := by
  obtain ⟨kind, -, hkind⟩ := List.mem_map.mp (List.of_mem_zip (a := x.1) (b := x.2) hx).1
  rw [← hkind]

/-- The members and the initialisers of the structure are in step. -/
theorem initValue_eq (fields : List FieldDeclaration) :
    initValue fields.zipIdx (fields.map FieldDeclaration.implemented) =
      fields.zipIdx.flatMap fieldBlock := by
  unfold initValue
  rw [zipIdx_zip_map, List.flatMap_map]
  refine zip_flatMap fun f _ => ?_
  rw [List.length_map]
  exact length_generateStaticInit _ _ _

theorem lookup_initValue {fields : List FieldDeclaration} {f : FieldDeclaration × ℕ}
    (hf : f ∈ fields.zipIdx) (kind : MemberKind) :
    (fields.zipIdx.flatMap fieldBlock).lookup (f.2, kind) = (fieldBlock f).lookup (f.2, kind) := by
  refine lookup_flatMap hf fun g hg x hx hkey => ?_
  have hplace : g.2 = f.2 := by rw [← fst_fieldBlock hx, hkey]
  have hnodup : (fields.zipIdx.map Prod.snd).Nodup := by
    rw [List.zipIdx_map_snd]
    exact List.nodup_range'
  exact List.inj_on_of_nodup_map hnodup hg hf hplace

/-- The generated initial value and `protobuf_c_message_init_generic` agree on a field. -/
theorem readSlot_block {f : FieldDeclaration × ℕ} (hchecked : f.1.Checked) (L : StructLayout)
    {init : List (Member × Initializer)}
    (hinit : ∀ kind, init.lookup (f.2, kind) = (fieldBlock f).lookup (f.2, kind)) :
    readSlot init f.2 f.1.label =
      .ok (generateDescriptorInitializer L f.2 f.1 f.1.implemented).initSlot := by
  obtain ⟨field, i⟩ := f
  have hmessage : field.type = .message → field.implemented = none := hchecked.implemented_message
  have hne : ∀ {kind kind' : MemberKind}, kind ≠ kind' → (((i, kind) : Member) == (i, kind')) = false := by
    intro kind kind' h
    rw [beq_eq_false_iff_ne]
    exact fun heq => h (Prod.mk.inj heq).2
  have h₁ := @hne .has .count (by simp)
  have h₂ := @hne .has .value (by simp)
  have h₃ := @hne .count .has (by simp)
  have h₄ := @hne .count .value (by simp)
  have h₅ := @hne .value .has (by simp)
  have h₆ := @hne .value .count (by simp)
  unfold readSlot
  rw [hinit, hinit, hinit]
  unfold fieldBlock generateDescriptorInitializer FieldDescriptor.initSlot
  dsimp only
  generalize field.implemented = v at hmessage ⊢
  generalize field.type = type at hmessage ⊢
  cases type with
  | message =>
    rw [hmessage rfl]
    cases field.label <;>
      simp [makeGenerator, messageFieldGenerator, membersWithoutHas, staticInitWithoutHas, List.lookup_cons,
        FieldType.zero, h₁, h₂, h₄, h₆]
  | string =>
    cases field.label <;>
      simp [makeGenerator, stringFieldGenerator, membersWithoutHas, staticInitWithoutHas, List.lookup_cons,
        FieldType.zero, h₁, h₂, h₄, h₆]
  | bytes | enum | int32 | sint32 | sfixed32 | int64 | sint64 | sfixed64 | uint32 | fixed32 | uint64
  | fixed64 | float | double | bool =>
    cases field.label <;>
      simp [makeGenerator, bytesFieldGenerator, enumFieldGenerator, primitiveFieldGenerator, membersWithHas,
        staticInitWithHas, List.lookup_cons, FieldType.zero, h₂, h₃, h₄, h₁, h₅, h₆]

/-! ## The table -/

section
variable {decl : MessageDeclaration}

theorem MessageDeclaration.checked_of_mem {f : FieldDeclaration × ℕ} (hf : f ∈ decl.fields.zipIdx) :
    f.1.Checked :=
  decl.checked f.1 (List.fst_mem_of_mem_zipIdx hf)

theorem FieldDeclaration.Checked.id_toNat {field : FieldDeclaration} (h : field.Checked) :
    (field.number.toUInt32.toNat : ℤ) = field.number.toInt := by
  have hpos := h.number_pos
  have hlt := h.number_lt
  rw [int32_toUInt32_toNat]
  omega

/-- What is written for a field, of the place at which it is declared. -/
def FieldDeclaration.describe (L : StructLayout) (f : FieldDeclaration × ℕ) : FieldDescriptor :=
  generateDescriptorInitializer L f.2 f.1 f.1.implemented

theorem FieldDeclaration.Checked.generated {f : FieldDeclaration × ℕ} (h : f.1.Checked)
    (L : StructLayout) : (FieldDeclaration.describe L f).Generated where
  id_lt := by
    have hid := h.id_toNat
    have hlt := h.number_lt
    show f.1.number.toUInt32.toNat < 2 ^ 29
    omega
  packed := by
    intro hpacked
    obtain ⟨hlabel, htype, -⟩ := of_decide_eq_true hpacked
    exact ⟨hlabel, htype⟩
  has := by
    intro hlabel
    have hoffset : (FieldDeclaration.describe L f).quantifierOffset =
        if (makeGenerator f.1.type).optionalUsesHas then L.offset (f.2, .has) else 0 := by
      have hopt : f.1.label = .optional := hlabel
      unfold FieldDeclaration.describe generateDescriptorInitializer
      rw [hopt]
    have hbehind := L.behind (f.2, .has)
    rw [hoffset, show (FieldDeclaration.describe L f).type = f.1.type from rfl]
    cases f.1.type <;>
      simp [makeGenerator, primitiveFieldGenerator, stringFieldGenerator, bytesFieldGenerator,
        enumFieldGenerator, messageFieldGenerator] <;> omega
  default := fun _ hv => h.implemented hv

theorem compareByNumber_ne_gt (a b : FieldDeclaration × ℕ) :
    compareByNumber a b ≠ .gt ↔ a.1.number.toInt ≤ b.1.number.toInt := by
  unfold compareByNumber
  simp only [Int32.lt_iff_toInt_lt]
  split_ifs with hab hba
  · exact ⟨fun _ => by omega, fun _ => by simp⟩
  · exact ⟨fun h => absurd rfl h, fun h => by omega⟩
  · exact ⟨fun _ => by omega, fun _ => by simp⟩

/-- The fields in the order of their numbers, which are all different. -/
theorem pairwise_sortedFields (Q : Qsort (FieldDeclaration × ℕ)) (decl : MessageDeclaration) :
    (Q.sort compareByNumber decl.fields.zipIdx).Pairwise
      fun a b => a.1.number.toInt < b.1.number.toInt := by
  have hsorted := Q.sorted compareByNumber decl.fields.zipIdx
    (fun a b c hab hbc => by
      rw [compareByNumber_ne_gt] at hab hbc ⊢
      omega)
    (fun a b hab hba => by
      have h := mt (compareByNumber_ne_gt a b).mpr (not_not_intro hab)
      rw [← Decidable.not_not (p := _ = _), ← ne_eq, compareByNumber_ne_gt] at hba
      omega)
  have hnumbers : (decl.fields.zipIdx.map fun f => f.1.number) =
      decl.fields.map FieldDeclaration.number := by
    rw [← List.zipIdx_map_fst 0 decl.fields, List.map_map, List.zipIdx_map_fst]
    rfl
  have hnodup : ((Q.sort compareByNumber decl.fields.zipIdx).map fun f => f.1.number).Nodup := by
    rw [((Q.perm compareByNumber decl.fields.zipIdx).map _).nodup_iff, hnumbers]
    exact decl.distinct
  refine (hsorted.and (List.pairwise_map.mp hnodup)).imp fun {a b} h => ?_
  have hle := (compareByNumber_ne_gt a b).mp h.1
  have hne : a.1.number.toInt ≠ b.1.number.toInt := fun heq => h.2 (Int32.toInt_inj.mp heq)
  omega

end

/-- The table has an entry for the field, which says what was declared. -/
def MessageDescriptor.Declares (desc : MessageDescriptor) (field : FieldDeclaration) : Prop :=
  ∃ f ∈ desc.fields, f.name = field.name ∧ f.id.toInt32 = field.number ∧ f.label = field.label ∧
    f.type = field.type ∧ f.descriptor = field.subtype ∧ f.defaultValue = field.implemented

/-- What is generated, with the members that are read from the initial value. -/
theorem generateMessageDescriptor_eq (Q : Qsort (FieldDeclaration × ℕ)) (L : StructLayout)
    (decl : MessageDeclaration) : generateMessageDescriptor Q L decl = .ok {
      name := decl.name
      sizeofMessage := L.size
      fields := (Q.sort compareByNumber decl.fields.zipIdx).map (FieldDeclaration.describe L)
      nFieldRanges := if decl.fields = [] then 0 else
        writeIntRangesCount ((Q.sort compareByNumber decl.fields.zipIdx).map fun f => f.1.number)
      fieldRanges := if decl.fields = [] then [] else
        writeIntRanges ((Q.sort compareByNumber decl.fields.zipIdx).map fun f => f.1.number)
      messageInit := some ((Q.sort compareByNumber decl.fields.zipIdx).map fun f =>
        (FieldDeclaration.describe L f).initSlot) } := by
  have hperm := Q.perm compareByNumber decl.fields.zipIdx
  have hvalues : (decl.fields.mapM fun field => field.defaultValue.mapM field.implement) =
      .ok (decl.fields.map FieldDeclaration.implemented) :=
    mapM_eq_ok fun field _ => mapM_implement field
  have hslots : (Q.sort compareByNumber decl.fields.zipIdx).mapM (fun f =>
      readSlot (initValue decl.fields.zipIdx (decl.fields.map FieldDeclaration.implemented)) f.2
        f.1.label) =
      .ok ((Q.sort compareByNumber decl.fields.zipIdx).map fun f =>
        (FieldDeclaration.describe L f).initSlot) := by
    refine mapM_eq_ok fun f hf => ?_
    have hmem := hperm.mem_iff.mp hf
    rw [initValue_eq]
    exact readSlot_block (MessageDeclaration.checked_of_mem hmem) L (lookup_initValue hmem)
  have hfields : ((Q.sort compareByNumber decl.fields.zipIdx).map fun f =>
      generateDescriptorInitializer L f.2 f.1
        ((decl.fields.map FieldDeclaration.implemented)[f.2]?.getD none)) =
      (Q.sort compareByNumber decl.fields.zipIdx).map (FieldDeclaration.describe L) := by
    refine List.map_congr_left fun f hf => ?_
    have hat := List.mem_zipIdx_iff_getElem?.mp (hperm.mem_iff.mp hf)
    rw [List.getElem?_map, hat]
    rfl
  unfold generateMessageDescriptor
  rw [hvalues]
  simp only [except_ok_bind]
  rw [hslots]
  simp only [except_ok_bind, hfields]
  rfl

/-- The generator finishes, and the runtime can rely on the descriptor that it writes: `message_init` and
`protobuf_c_message_init_generic` give the same message, and the fields are those that are declared. -/
theorem generateMessageDescriptor_generated (Q : Qsort (FieldDeclaration × ℕ)) (L : StructLayout)
    (decl : MessageDeclaration) : ∃ desc, generateMessageDescriptor Q L decl = .ok desc ∧
      desc.Generated ∧ desc.messageInit = some desc.initGeneric ∧
      desc.fields.length = decl.fields.length ∧ ∀ field ∈ decl.fields, desc.Declares field := by
  rw [generateMessageDescriptor_eq]
  have hperm := Q.perm compareByNumber decl.fields.zipIdx
  have hpairwise := pairwise_sortedFields Q decl
  generalize Q.sort compareByNumber decl.fields.zipIdx = sorted at *
  have hids : ((sorted.map (FieldDeclaration.describe L)).map
      fun f => f.id.toInt32) =
      sorted.map fun f => f.1.number := by
    rw [List.map_map]
    rfl
  have hinit : (sorted.map fun f => (FieldDeclaration.describe L f).initSlot) =
      (sorted.map (FieldDeclaration.describe L)).map FieldDescriptor.initSlot := by
    rw [List.map_map]
    rfl
  have hnil : decl.fields = [] → sorted = [] := by
    intro h
    rw [h] at hperm
    exact hperm.eq_nil
  refine ⟨_, rfl, ⟨?_, ?_, ?_, ?_, L.size_pos, ?_⟩, ?_, ?_, ?_⟩
  · rintro _ hf
    obtain ⟨f, hsorted, rfl⟩ := List.mem_map.mp hf
    exact (MessageDeclaration.checked_of_mem (hperm.mem_iff.mp hsorted)).generated L
  · refine List.pairwise_map.mpr (hpairwise.imp_of_mem fun {a b} ha hb hlt => ?_)
    have hida := (MessageDeclaration.checked_of_mem (hperm.mem_iff.mp ha)).id_toNat
    have hidb := (MessageDeclaration.checked_of_mem (hperm.mem_iff.mp hb)).id_toNat
    show a.1.number.toUInt32.toNat < b.1.number.toUInt32.toNat
    omega
  · rw [hids]
    split_ifs with hempty
    · rw [hnil hempty]
      rfl
    · rfl
  · rw [hids]
    split_ifs with hempty
    · rw [hnil hempty]
      rfl
    · rfl
  · intro slots hslots
    rw [← Option.some.inj hslots]
    exact hinit
  · exact congrArg some hinit
  · rw [List.length_map, hperm.length_eq, List.length_zipIdx]
  · intro field hmem
    obtain ⟨i, hi⟩ := List.getElem?_of_mem hmem
    have hsorted : (field, i) ∈ sorted := hperm.mem_iff.mpr (List.mem_zipIdx_iff_getElem?.mpr hi)
    exact ⟨_, List.mem_map_of_mem hsorted, rfl, rfl, rfl, rfl, rfl, rfl⟩

/-- A `required` field with number 2, and before it an `optional string` field with a default value. -/
def titledDeclaration : MessageDeclaration where
  name := "Titled"
  fields := [⟨"title", 3, .optional, .string, 0, some (.text [110, 34]), 0, false⟩,
    ⟨"next", 2, .required, .message, 0, none, 0, false⟩]
  checked := by
    intro field hfield
    simp only [List.mem_cons, List.not_mem_nil, or_false] at hfield
    obtain rfl | rfl := hfield
    · exact ⟨by decide, by decide, fun v hv => Option.some.inj hv ▸ trivial⟩
    · exact ⟨by decide, by decide, fun v hv => absurd hv (by simp)⟩
  distinct := by decide

/-- Every field has eight bytes for its `has` member or its count, and eight for its value. -/
def plainLayout : StructLayout where
  size := 56
  offset m := 24 + 16 * m.1 + if m.2 = .value then 8 else 0
  size_pos := by decide
  behind _ := by omega

end ProtobufC
