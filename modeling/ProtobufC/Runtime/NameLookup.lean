import ProtobufC.Runtime.EnumTables

/-! # Lookup by name

The tables that `MessageGenerator::GenerateMessageDescriptor` and
`ServiceGenerator::GenerateServiceDescriptor` write for the names of fields and methods, and the two
lookups of the runtime in them.  Both search the indices of the entries in the order of the names;
`lookupByName_exact` is about such a table.
-/

namespace ProtobufC
open Library
set_option autoImplicit false

/-! ## The code -/

/-- `NameIndex`, and `MethodIndexAndName` -/
structure NameIndex where
  index : ℕ
  name : CName

/-- `compare_name_indices_by_name`, and `compare_method_index_and_name_by_name` -/
def compareNameIndicesByName (a b : NameIndex) : Ordering := strcmp a.name b.name

section Table
variable {α : Type} (name : α → CName)

/-- The indices of an array, in the order of the names of its entries. -/
def indicesByName (Q : Qsort NameIndex) (entries : List α) : List ℕ :=
  (Q.sort compareNameIndicesByName (entries.zipIdx.map fun e => ⟨e.2, name e.1⟩)).map NameIndex.index

/-- `entries + indices[i]` -/
def entryAt (entries : List α) (indices : List ℕ) (i : ℕ) : Option α :=
  indices[i]?.bind fun index => entries[index]?

/-- The search of both lookups. -/
def lookupByName (entries : List α) (indices : List ℕ) (n : ℕ) (s : CName) :
    Except Fault (Option α) :=
  match bisect (fun mid => (entryAt entries indices mid).map fun e => strcmp (name e) s) (n + 1) 0 n with
  | none => .error .access
  | some none => .ok none
  | some (some i) =>
      match entryAt entries indices i with
      | none => .error .access
      | some e => .ok (some e)

end Table

/-- `ProtobufCFieldDescriptor`, as far as the lookup is concerned. -/
structure NamedField where
  name : CName
  id : Int32
  deriving DecidableEq

/-- `ProtobufCMessageDescriptor`, as far as the lookup is concerned. -/
structure FieldNames where
  nFields : ℕ
  fields : List NamedField
  fieldsSortedByName : List ℕ

/-- `protobuf_c_message_descriptor_get_field_by_name` -/
def messageDescriptorGetFieldByName (desc : FieldNames) (s : CName) : Except Fault (Option NamedField) :=
  lookupByName NamedField.name desc.fields desc.fieldsSortedByName desc.nFields s

/-- `ProtobufCMethodDescriptor`; the message descriptors are known by numbers. -/
structure NamedMethod where
  name : CName
  input : ℕ
  output : ℕ
  deriving DecidableEq

/-- `ProtobufCServiceDescriptor`, as far as the lookup is concerned. -/
structure MethodNames where
  nMethods : ℕ
  methods : List NamedMethod
  methodIndicesByName : List ℕ

/-- `protobuf_c_service_descriptor_get_method_by_name` -/
def serviceDescriptorGetMethodByName (desc : MethodNames) (s : CName) :
    Except Fault (Option NamedMethod) :=
  lookupByName NamedMethod.name desc.methods desc.methodIndicesByName desc.nMethods s

/-! ## The generator -/

/-- The fields of a message: their names are distinct, and they can be counted in an `int`. -/
structure FieldsDeclaration where
  fields : List NamedField
  distinct : (fields.map NamedField.name).Nodup
  count_lt : fields.length < 2 ^ 31

/-- The methods of a service. -/
structure MethodsDeclaration where
  methods : List NamedMethod
  distinct : (methods.map NamedMethod.name).Nodup
  count_lt : methods.length < 2 ^ 31

def comparePfieldsByNumber (a b : NamedField) : Ordering :=
  if a.id < b.id then .lt else if b.id < a.id then .gt else .eq

/-- The part of `GenerateMessageDescriptor` that writes the fields and the indices of their names. -/
def generateFieldNames (Q : Qsort NamedField) (Q' : Qsort NameIndex)
    (decl : FieldsDeclaration) : FieldNames :=
  let sortedFields := Q.sort comparePfieldsByNumber decl.fields
  { nFields := decl.fields.length
    fields := sortedFields
    fieldsSortedByName := indicesByName NamedField.name Q' sortedFields }

/-- The part of `GenerateServiceDescriptor` that writes the methods and the indices of their names. -/
def generateMethodNames (Q : Qsort NameIndex) (decl : MethodsDeclaration) : MethodNames where
  nMethods := decl.methods.length
  methods := decl.methods
  methodIndicesByName := indicesByName NamedMethod.name Q decl.methods

/-! ## What is found -/

section Table
variable {α : Type} {name : α → CName}

/-- The array that the generator sorts by name. -/
def nameIndexArray (name : α → CName) (entries : List α) : List NameIndex :=
  entries.zipIdx.map fun e => ⟨e.2, name e.1⟩

theorem mem_nameIndexArray {entries : List α} {x : NameIndex} :
    x ∈ nameIndexArray name entries ↔ ∃ e, entries[x.index]? = some e ∧ x = ⟨x.index, name e⟩ := by
  unfold nameIndexArray
  rw [List.mem_map]
  constructor
  · rintro ⟨⟨e, j⟩, hmem, rfl⟩
    exact ⟨e, List.mem_zipIdx_iff_getElem?.mp hmem, rfl⟩
  · rintro ⟨e, he, hx⟩
    exact ⟨(e, x.index), List.mem_zipIdx_iff_getElem?.mpr he, hx.symm⟩

theorem entryAt_name (Q : Qsort NameIndex) (entries : List α) (i : ℕ) :
    (entryAt entries (indicesByName name Q entries) i).map name =
      ((Q.sort compareNameIndicesByName (nameIndexArray name entries)).map NameIndex.name)[i]? := by
  unfold entryAt indicesByName
  rw [List.getElem?_map, List.getElem?_map]
  cases hx : (Q.sort compareNameIndicesByName (nameIndexArray name entries))[i]? with
  | none =>
    unfold nameIndexArray at hx
    rw [hx]
    rfl
  | some x =>
    obtain ⟨e, he, hname⟩ := mem_nameIndexArray.mp
      ((Q.perm compareNameIndicesByName _).mem_iff.mp (List.mem_of_getElem? hx))
    unfold nameIndexArray at hx
    rw [hx, Option.map_some, Option.bind_some, he, Option.map_some, Option.map_some, hname]

theorem length_sorted (Q : Qsort NameIndex) (entries : List α) :
    (Q.sort compareNameIndicesByName (nameIndexArray name entries)).length = entries.length := by
  rw [(Q.perm _ _).length_eq, nameIndexArray, List.length_map, List.length_zipIdx]

/-- The search finds the entry with the name, and nothing if there is none. -/
theorem lookupByName_exact (Q : Qsort NameIndex) {entries : List α}
    (hdistinct : (entries.map name).Nodup) (s : CName) :
    ∃ r, lookupByName name entries (indicesByName name Q entries) entries.length s = .ok r ∧
      ∀ e, r = some e ↔ e ∈ entries ∧ name e = s := by
  have hsorted := Q.sorted compareNameIndicesByName (nameIndexArray name entries)
    (fun _ _ _ hab hbc => strcmp_ne_gt_trans hab hbc) fun _ _ hab => strcmp_gt_asymm hab
  have hprobes := probes_sorted (List.pairwise_map (f := NameIndex.name).mpr hsorted) s
  rw [List.length_map, length_sorted] at hprobes
  have hprobe : (fun i => ((Q.sort compareNameIndicesByName (nameIndexArray name entries)).map
      NameIndex.name)[i]?.map fun name => strcmp name s) =
      fun i => (entryAt entries (indicesByName name Q entries) i).map fun e => strcmp (name e) s := by
    funext i
    rw [← entryAt_name, Option.map_map]
    rfl
  rw [hprobe] at hprobes
  obtain ⟨r, hr, hfound, habsent⟩ := bisect_spec hprobes
  unfold lookupByName
  rw [hr]
  cases r with
  | none =>
    refine ⟨none, rfl, fun e => iff_of_false (by simp) ?_⟩
    rintro ⟨hmem, rfl⟩
    -- the entry stands somewhere in the table
    obtain ⟨j, hj⟩ := List.getElem?_of_mem hmem
    have hx : (⟨j, name e⟩ : NameIndex) ∈
        Q.sort compareNameIndicesByName (nameIndexArray name entries) :=
      (Q.perm _ _).mem_iff.mpr (mem_nameIndexArray.mpr ⟨e, hj, rfl⟩)
    obtain ⟨i, hi⟩ := List.getElem?_of_mem hx
    have hlt := (List.getElem?_eq_some_iff.mp hi).1
    rw [length_sorted] at hlt
    apply habsent rfl i hlt
    have hname : (entryAt entries (indicesByName name Q entries) i).map name = _ :=
      entryAt_name Q entries i
    rw [List.getElem?_map, hi, Option.map_some] at hname
    obtain ⟨e', he', hsame⟩ := Option.map_eq_some_iff.mp hname
    rw [he', Option.map_some, hsame, strcmp_eq.mpr rfl]
  | some i =>
    obtain ⟨-, hi⟩ := hfound i rfl
    obtain ⟨e, he, hname⟩ := Option.map_eq_some_iff.mp hi
    have hname : name e = s := strcmp_eq.mp hname
    simp only [he]
    refine ⟨some e, rfl, fun f => ?_⟩
    have hmem : e ∈ entries := by
      unfold entryAt at he
      obtain ⟨index, -, hindex⟩ := Option.bind_eq_some_iff.mp he
      exact List.mem_of_getElem? hindex
    constructor
    · intro hf
      obtain rfl := Option.some.inj hf
      exact ⟨hmem, hname⟩
    · rintro ⟨hf, hfname⟩
      rw [List.inj_on_of_nodup_map hdistinct hmem hf (hname.trans hfname.symm)]

end Table

/-- Fields and methods are found by their names, and nothing else is. -/
theorem getByName_exact (Q : Qsort NamedField) (Q' : Qsort NameIndex) :
    (∀ (decl : FieldsDeclaration) (s : CName),
      ∃ r, messageDescriptorGetFieldByName (generateFieldNames Q Q' decl) s = .ok r ∧
        ∀ field, r = some field ↔ field ∈ decl.fields ∧ field.name = s) ∧
    ∀ (decl : MethodsDeclaration) (s : CName),
      ∃ r, serviceDescriptorGetMethodByName (generateMethodNames Q' decl) s = .ok r ∧
        ∀ method, r = some method ↔ method ∈ decl.methods ∧ method.name = s := by
  constructor
  · intro decl s
    have hperm := Q.perm comparePfieldsByNumber decl.fields
    have hdistinct := (hperm.map NamedField.name).nodup_iff.mpr decl.distinct
    obtain ⟨r, hr, hexact⟩ := lookupByName_exact Q' hdistinct s
    rw [hperm.length_eq] at hr
    refine ⟨r, hr, fun field => ?_⟩
    rw [hexact field, hperm.mem_iff]
  · intro decl s
    exact lookupByName_exact Q' decl.distinct s

/-- A name of one character. -/
def letter (c : UInt8) (h : (0 : UInt8) ∉ [c]) : CName := ⟨[c], h⟩

/-- Three fields, declared neither in the order of their numbers nor in that of their names. -/
def threeFields : FieldsDeclaration where
  fields := [⟨letter 98 (by decide), 3⟩, ⟨letter 99 (by decide), 1⟩, ⟨letter 97 (by decide), 2⟩]
  distinct := by decide
  count_lt := by decide

/-- Two methods, declared against the order of their names. -/
def twoMethods : MethodsDeclaration where
  methods := [⟨letter 90 (by decide), 0, 1⟩, ⟨letter 77 (by decide), 1, 0⟩]
  distinct := by decide
  count_lt := by decide

/-- `getByName_exact` on three fields and two methods. -/
theorem getByName_exact_unordered :
    messageDescriptorGetFieldByName (generateFieldNames (insertionQsort _) (insertionQsort _) threeFields)
        (letter 97 (by decide)) = .ok (some ⟨letter 97 (by decide), 2⟩) ∧
      serviceDescriptorGetMethodByName (generateMethodNames (insertionQsort _) twoMethods)
        (letter 90 (by decide)) = .ok (some ⟨letter 90 (by decide), 0, 1⟩) := by
  obtain ⟨hfields, hmethods⟩ := getByName_exact (insertionQsort _) (insertionQsort _)
  obtain ⟨r, hr, hfound⟩ := hfields threeFields (letter 97 (by decide))
  obtain ⟨r', hr', hfound'⟩ := hmethods twoMethods (letter 90 (by decide))
  have hfield := (hfound ⟨letter 97 (by decide), 2⟩).mpr ⟨by decide, rfl⟩
  have hmethod := (hfound' ⟨letter 90 (by decide), 0, 1⟩).mpr ⟨by decide, rfl⟩
  exact ⟨hfield ▸ hr, hmethod ▸ hr'⟩

end ProtobufC
