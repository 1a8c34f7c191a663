import ProtobufC.Library.Bisect
import ProtobufC.Library.Outcome
import ProtobufC.Runtime.IntRange
import Mathlib.Data.List.Sort

/-! # Enumerations

The descriptor that `EnumGenerator::GenerateEnumDescriptor` writes for an enumeration, and the two
lookups of the runtime in it.  The generator sorts the values by number and by name, keeps the first
of the values with one number, and writes the runs of the numbers as a range table.
-/

namespace ProtobufC
open Library
set_option autoImplicit false

/-! ## Strings -/

/-- The bytes of a C string in front of its NUL. -/
abbrev CName := { bytes : List UInt8 // (0 : UInt8) ∉ bytes }

/-- The sign of `strcmp (a, b)`. -/
def strcmp (a b : CName) : Ordering := compare a.val b.val

theorem strcmp_eq {a b : CName} : strcmp a b = .eq ↔ a = b := by
  rw [strcmp, Std.LawfulEqCmp.compare_eq_iff_eq, Subtype.ext_iff]

theorem strcmp_gt {a b : CName} : strcmp a b = .gt ↔ strcmp b a = .lt := by
  unfold strcmp
  exact Std.OrientedCmp.gt_iff_lt

theorem strcmp_trans {a b c : CName} (hab : strcmp a b = .lt) (hbc : strcmp b c = .lt) :
    strcmp a c = .lt := by
  unfold strcmp at *
  exact Std.TransCmp.lt_trans hab hbc

theorem probes_sorted {names : List CName} (hsorted : names.Pairwise fun a b => strcmp a b ≠ .gt)
    (s : CName) : Probes (fun i => names[i]?.map fun name => strcmp name s) names.length := by
  have hpair : ∀ (i j : ℕ) (a b : CName), i < j → names[i]? = some a → names[j]? = some b →
      strcmp a b ≠ .gt := by
    intro i j a b hij ha hb
    obtain ⟨hi, rfl⟩ := List.getElem?_eq_some_iff.mp ha
    obtain ⟨hj, rfl⟩ := List.getElem?_eq_some_iff.mp hb
    exact List.pairwise_iff_getElem.mp hsorted i j hi hj hij
  have hget : ∀ i < names.length, ∃ a, names[i]? = some a := fun i hi =>
    ⟨_, List.getElem?_eq_getElem hi⟩
  refine ⟨fun i hi => ?_, fun i j hij hj h => ?_, fun i j hij hj h => ?_⟩
  · obtain ⟨a, ha⟩ := hget i hi
    exact ⟨strcmp a s, by rw [ha]; rfl⟩
  · obtain ⟨a, ha⟩ := hget i (by omega)
    obtain ⟨b, hb, hbs⟩ := Option.map_eq_some_iff.mp h
    rw [ha, Option.map_some, Option.some.injEq]
    -- `a ≤ b < s`
    cases hab : strcmp a b with
    | lt => exact strcmp_trans hab hbs
    | eq => rw [strcmp_eq.mp hab, hbs]
    | gt => exact absurd hab (hpair i j a b hij ha hb)
  · obtain ⟨a, ha, has⟩ := Option.map_eq_some_iff.mp h
    obtain ⟨b, hb⟩ := hget j hj
    rw [hb, Option.map_some, Option.some.injEq]
    -- `s < a ≤ b`
    cases hab : strcmp a b with
    | lt => exact strcmp_gt.mpr (strcmp_trans (strcmp_gt.mp has) hab)
    | eq => rw [← strcmp_eq.mp hab, has]
    | gt => exact absurd hab (hpair i j a b hij ha hb)

theorem strcmp_ne_gt_trans {a b c : CName} (hab : strcmp a b ≠ .gt) (hbc : strcmp b c ≠ .gt) :
    strcmp a c ≠ .gt := by
  intro hac
  rw [Ne, strcmp_gt] at hab hbc
  rw [strcmp_gt] at hac
  -- `c < a ≤ b`, so that `c < b`
  cases hcase : strcmp a b with
  | lt => exact hbc (strcmp_trans hac hcase)
  | eq => exact hbc (strcmp_eq.mp hcase ▸ hac)
  | gt => exact hab (strcmp_gt.mp hcase)

theorem strcmp_gt_asymm {a b : CName} (hab : strcmp a b = .gt) : strcmp b a ≠ .gt := by
  intro hba
  have hself := strcmp_trans (strcmp_gt.mp hab) (strcmp_gt.mp hba)
  rw [strcmp_eq.mpr rfl] at hself
  exact absurd hself (by simp)

/-! ## The generator -/

/-- What is declared for one value. -/
structure EnumValueDescriptor where
  name : CName
  number : Int32
  deriving DecidableEq

/-- An enumeration: the names are distinct, and the values can be counted in an `int`. -/
structure EnumDeclaration where
  values : List EnumValueDescriptor
  nonempty : values ≠ []
  distinct : (values.map EnumValueDescriptor.name).Nodup
  count_lt : values.length < 2 ^ 31

structure ValueIndex where
  value : Int32
  index : ℕ
  finalIndex : ℕ
  name : CName

def compareValueIndicesByValueThenIndex (a b : ValueIndex) : Ordering :=
  if a.value < b.value then .lt
  else if b.value < a.value then .gt
  else if a.index < b.index then .lt
  else if b.index < a.index then .gt
  else .eq

def compareValueIndicesByName (a b : ValueIndex) : Ordering := strcmp a.name b.name

/-- A `qsort` that sorts: of the elements that compare equal any may come first. -/
structure Qsort (α : Type) where
  sort : (α → α → Ordering) → List α → List α
  perm : ∀ cmp l, (sort cmp l).Perm l
  sorted : ∀ cmp l, (∀ a b c, cmp a b ≠ .gt → cmp b c ≠ .gt → cmp a c ≠ .gt) →
    (∀ a b, cmp a b = .gt → cmp b a ≠ .gt) → (sort cmp l).Pairwise fun a b => cmp a b ≠ .gt

/-- Insertion sort as `qsort`. -/
def insertionQsort (α : Type) : Qsort α where
  sort cmp l := l.insertionSort fun a b => cmp a b ≠ .gt
  perm _ l := List.perm_insertionSort _ l
  sorted cmp l htrans htotal :=
    have : IsTrans α fun a b => cmp a b ≠ .gt := ⟨htrans⟩
    have : Std.Total fun a b : α => cmp a b ≠ .gt :=
      ⟨fun a b => or_iff_not_imp_left.mpr fun h => htotal a b (not_not.mp h)⟩
    List.pairwise_insertionSort _ l

/-- `ProtobufCEnumValue` -/
structure EnumValue where
  name : CName
  value : Int32
  deriving DecidableEq

/-- `ProtobufCEnumValueIndex` -/
structure EnumValueIndex where
  name : CName
  index : ℕ

/-- `ProtobufCEnumDescriptor` -/
structure EnumDescriptor where
  nValues : ℕ
  values : List EnumValue
  nValueNames : ℕ
  valuesByName : List EnumValueIndex
  nValueRanges : ℕ
  valueRanges : List IntRange

/-- The `value_index` array before it is sorted. -/
def valueIndices (decl : EnumDeclaration) : List ValueIndex :=
  decl.values.zipIdx.map fun (vd, j) => ⟨vd.number, j, 0, vd.name⟩

/-- The entries behind `prev` that differ from the entry in front of them. -/
def uniqueFrom (prev : ValueIndex) : List ValueIndex → List ValueIndex
  | [] => []
  | v :: vs => if prev.value ≠ v.value then v :: uniqueFrom v vs else uniqueFrom v vs

/-- The entries that `GenerateValueInitializer` is called for. -/
def uniqueValues : List ValueIndex → List ValueIndex
  | [] => []
  | v :: vs => v :: uniqueFrom v vs

/-- The loop that assigns `final_index`. -/
def assignFrom (prev : ValueIndex) (nUnique : ℕ) : List ValueIndex → List ValueIndex
  | [] => []
  | v :: vs =>
      if prev.value ≠ v.value then { v with finalIndex := nUnique } :: assignFrom v (nUnique + 1) vs
      else { v with finalIndex := nUnique - 1 } :: assignFrom v nUnique vs

def assignFinalIndices : List ValueIndex → List ValueIndex
  | [] => []
  | v :: vs => { v with finalIndex := 0 } :: assignFrom v 1 vs

/-- `GenerateValueInitializer (printer, index)`; there is a declared value for every index. -/
def generateValueInitializer (decl : EnumDeclaration) (index : ℕ) : Option EnumValue :=
  decl.values[index]?.map fun vd => ⟨vd.name, vd.number⟩

/-- The loop that prints the ranges; `range_start_value` and `last_value` are unsigned. -/
def valueRangesFrom (prev : ValueIndex) (rangeStart rangeLen : ℕ)
    (rangeStartValue lastValue : UInt32) : List ValueIndex → List IntRange
  | [] =>
      [⟨rangeStartValue.toInt32, UInt32.ofNat rangeStart⟩, ⟨0, UInt32.ofNat (rangeStart + rangeLen)⟩]
  | v :: vs =>
      if prev.value ≠ v.value then
        if lastValue + 1 = v.value.toUInt32 then
          valueRangesFrom v rangeStart (rangeLen + 1) rangeStartValue v.value.toUInt32 vs
        else
          ⟨rangeStartValue.toInt32, UInt32.ofNat rangeStart⟩ ::
            valueRangesFrom v (rangeStart + rangeLen) 1 v.value.toUInt32 v.value.toUInt32 vs
      else valueRangesFrom v rangeStart rangeLen rangeStartValue lastValue vs

def valueRanges : List ValueIndex → List IntRange
  | [] => []
  | v :: vs => valueRangesFrom v 0 1 v.value.toUInt32 v.value.toUInt32 vs

/-- `EnumGenerator::GenerateEnumDescriptor` -/
def generateEnumDescriptor (Q : Qsort ValueIndex) (decl : EnumDeclaration) : EnumDescriptor :=
  let valueIndex := Q.sort compareValueIndicesByValueThenIndex (valueIndices decl)
  let byName := Q.sort compareValueIndicesByName (assignFinalIndices valueIndex)
  { nValues := (uniqueValues valueIndex).length
    values := (uniqueValues valueIndex).filterMap fun v => generateValueInitializer decl v.index
    nValueNames := decl.values.length
    valuesByName := byName.map fun v => ⟨v.name, v.finalIndex⟩
    nValueRanges := (valueRanges valueIndex).length - 1
    valueRanges := valueRanges valueIndex }

/-! ## The lookups -/

/-- `desc->values + i` -/
def EnumDescriptor.valueAt (desc : EnumDescriptor) (i : ℕ) : Except Fault (Option EnumValue) :=
  match desc.values[i]? with
  | none => .error .access
  | some value => .ok (some value)

/-- `protobuf_c_enum_descriptor_get_value` -/
def enumDescriptorGetValue (desc : EnumDescriptor) (value : Int32) :
    Except Fault (Option EnumValue) :=
  match intRangeLookup desc.nValueRanges desc.valueRanges value with
  | none => .error .access
  | some rv => if rv < 0 then .ok none else desc.valueAt rv.toNatClampNeg

/-- `protobuf_c_enum_descriptor_get_value_by_name` -/
def enumDescriptorGetValueByName (desc : EnumDescriptor) (name : CName) :
    Except Fault (Option EnumValue) :=
  let probe (mid : ℕ) := desc.valuesByName[mid]?.map fun entry => strcmp entry.name name
  match bisect probe (desc.nValueNames + 1) 0 desc.nValueNames with
  | none => .error .access
  | some none => .ok none
  | some (some i) =>
      match desc.valuesByName[i]? with
      | none => .error .access
      | some entry => desc.valueAt entry.index

/-! ## Sorting -/

theorem compareByValue_ne_gt {a b : ValueIndex} :
    compareValueIndicesByValueThenIndex a b ≠ .gt ↔
      a.value.toInt < b.value.toInt ∨ (a.value = b.value ∧ a.index ≤ b.index) := by
  unfold compareValueIndicesByValueThenIndex
  simp only [Int32.lt_iff_toInt_lt, ← Int32.toInt_inj]
  split_ifs with h₁ h₂ h₃ h₄ <;> simp <;> omega

theorem sorted_byValue (Q : Qsort ValueIndex) (l : List ValueIndex) :
    (Q.sort compareValueIndicesByValueThenIndex l).Pairwise fun a b =>
      a.value.toInt < b.value.toInt ∨ (a.value = b.value ∧ a.index ≤ b.index) := by
  have htrans : ∀ a b c, compareValueIndicesByValueThenIndex a b ≠ .gt →
      compareValueIndicesByValueThenIndex b c ≠ .gt →
        compareValueIndicesByValueThenIndex a c ≠ .gt := by
    intro a b c hab hbc
    rw [compareByValue_ne_gt, ← Int32.toInt_inj] at *
    omega
  have htotal : ∀ a b, compareValueIndicesByValueThenIndex a b = .gt →
      compareValueIndicesByValueThenIndex b a ≠ .gt := by
    intro a b hab
    rw [compareByValue_ne_gt, ← Int32.toInt_inj]
    have hnot := mt compareByValue_ne_gt.mpr (not_not.mpr hab)
    rw [← Int32.toInt_inj] at hnot
    omega
  exact (Q.sorted _ l htrans htotal).imp compareByValue_ne_gt.mp

theorem sorted_byName (Q : Qsort ValueIndex) (l : List ValueIndex) :
    (Q.sort compareValueIndicesByName l).Pairwise fun a b => strcmp a.name b.name ≠ .gt :=
  Q.sorted compareValueIndicesByName l (fun _ _ _ hab hbc => strcmp_ne_gt_trans hab hbc)
    fun _ _ hab => strcmp_gt_asymm hab

end ProtobufC
