import ProtobufC.Runtime.EnumTables

/-! # Lookup in generated enumerations

What the tables of a generated enumeration hold, and what the two lookups find in them.  The runs of
the numbers are written by a loop of its own, which writes what `WriteIntRanges` writes for the
numbers without repetitions.
-/

namespace ProtobufC
open Library
set_option autoImplicit false

/-! ## Values without repetitions -/

/-- The order of the sorted array. -/
def SortedByValue (l : List ValueIndex) : Prop :=
  l.Pairwise fun a b => a.value.toInt < b.value.toInt ∨ (a.value = b.value ∧ a.index ≤ b.index)

theorem uniqueFrom_subset (prev : ValueIndex) (vs : List ValueIndex) :
    ∀ u ∈ uniqueFrom prev vs, u ∈ vs := by
  induction vs generalizing prev with
  | nil => simp [uniqueFrom]
  | cons v vs ih =>
    intro u hu
    rw [uniqueFrom] at hu
    split_ifs at hu
    · rcases List.mem_cons.mp hu with rfl | hu
      · exact List.mem_cons_self
      · exact List.mem_cons_of_mem _ (ih v u hu)
    · exact List.mem_cons_of_mem _ (ih v u hu)

theorem uniqueValues_subset (l : List ValueIndex) : ∀ u ∈ uniqueValues l, u ∈ l := by
  cases l with
  | nil => simp [uniqueValues]
  | cons v vs =>
    intro u hu
    rcases List.mem_cons.mp hu with rfl | hu
    · exact List.mem_cons_self
    · exact List.mem_cons_of_mem _ (uniqueFrom_subset v vs u hu)

theorem length_uniqueFrom_le (prev : ValueIndex) (vs : List ValueIndex) :
    (uniqueFrom prev vs).length ≤ vs.length := by
  induction vs generalizing prev with
  | nil => simp [uniqueFrom]
  | cons v vs ih =>
    have := ih v
    rw [uniqueFrom]
    split_ifs <;> simp only [List.length_cons] <;> omega

theorem uniqueFrom_sorted {prev : ValueIndex} {vs : List ValueIndex}
    (h : SortedByValue (prev :: vs)) :
    (prev :: uniqueFrom prev vs).Pairwise fun a b => a.value.toInt < b.value.toInt := by
  induction vs generalizing prev with
  | nil => simp [uniqueFrom]
  | cons v vs ih =>
    obtain ⟨hprev, hrest⟩ := List.pairwise_cons.mp h
    have hrec := ih hrest
    rw [uniqueFrom]
    split_ifs with hne
    · refine List.pairwise_cons.mpr ⟨?_, hrec⟩
      have hlt : prev.value.toInt < v.value.toInt := by
        rcases hprev v (by simp) with hlt | ⟨heq, -⟩
        · exact hlt
        · exact absurd heq hne
      intro u hu
      rcases List.mem_cons.mp hu with rfl | hu
      · exact hlt
      · exact hlt.trans ((List.pairwise_cons.mp hrec).1 u hu)
    · rw [not_not] at hne
      obtain ⟨hfirst, htail⟩ := List.pairwise_cons.mp hrec
      exact List.pairwise_cons.mpr ⟨fun u hu => hne ▸ hfirst u hu, htail⟩

theorem uniqueFrom_first {prev : ValueIndex} {vs : List ValueIndex}
    (h : SortedByValue (prev :: vs)) : ∀ x ∈ prev :: vs, ∃ u ∈ prev :: uniqueFrom prev vs,
      u.value = x.value ∧ u.index ≤ x.index := by
  induction vs generalizing prev with
  | nil =>
    intro x hx
    exact ⟨x, by simpa [uniqueFrom] using hx, rfl, le_rfl⟩
  | cons v vs ih =>
    obtain ⟨hprev, hrest⟩ := List.pairwise_cons.mp h
    intro x hx
    rcases List.mem_cons.mp hx with rfl | hx
    · exact ⟨x, List.mem_cons_self, rfl, le_rfl⟩
    · obtain ⟨u, hu, hval, hidx⟩ := ih hrest x hx
      rw [uniqueFrom]
      split_ifs with hne
      · exact ⟨u, List.mem_cons_of_mem _ hu, hval, hidx⟩
      · rw [not_not] at hne
        rcases List.mem_cons.mp hu with rfl | hu
        · -- the entry kept for this number stands in front of `v`
          have hle : prev.index ≤ u.index := by
            rcases hprev u (by simp) with hlt | ⟨-, hle⟩
            · rw [hne] at hlt
              exact absurd hlt (lt_irrefl _)
            · exact hle
          exact ⟨prev, List.mem_cons_self, hne.trans hval, hle.trans hidx⟩
        · exact ⟨u, List.mem_cons_of_mem _ hu, hval, hidx⟩

theorem assignFrom_finalIndex {prev : ValueIndex} {vs pre : List ValueIndex} {last : ValueIndex}
    (hlast : pre.getLast? = some last) (hval : last.value = prev.value) :
    ∀ x ∈ assignFrom prev pre.length vs, ∃ u, (pre ++ uniqueFrom prev vs)[x.finalIndex]? = some u ∧
      u.value = x.value := by
  induction vs generalizing prev pre last with
  | nil => simp [assignFrom]
  | cons v vs ih =>
    intro x hx
    have hpos : 0 < pre.length := by
      cases pre with
      | nil => simp at hlast
      | cons _ _ => simp
    rw [assignFrom] at hx
    rw [uniqueFrom]
    split_ifs at hx ⊢ with hne
    · rcases List.mem_cons.mp hx with rfl | hx
      · exact ⟨v, by simp, rfl⟩
      · have hrec := @ih v (pre ++ [v]) v (by simp) rfl x (by simpa using hx)
        simpa using hrec
    · rw [not_not] at hne
      rcases List.mem_cons.mp hx with rfl | hx
      · refine ⟨last, ?_, hval.trans hne⟩
        simp only
        rw [List.getElem?_append_left (by omega), ← List.getLast?_eq_getElem?, hlast]
      · exact ih hlast (hval.trans hne) x hx

theorem assignFinalIndices_finalIndex (l : List ValueIndex) :
    ∀ x ∈ assignFinalIndices l, ∃ u, (uniqueValues l)[x.finalIndex]? = some u ∧
      u.value = x.value := by
  cases l with
  | nil => simp [assignFinalIndices]
  | cons v vs =>
    intro x hx
    rcases List.mem_cons.mp hx with rfl | hx
    · exact ⟨v, rfl, rfl⟩
    · exact @assignFrom_finalIndex v vs [v] v rfl rfl x hx

theorem assignFinalIndices_map (l : List ValueIndex) :
    (assignFinalIndices l).map (fun v => (v.name, v.value)) =
      l.map fun v => (v.name, v.value) := by
  have hfrom : ∀ (vs : List ValueIndex) (prev : ValueIndex) (n : ℕ),
      (assignFrom prev n vs).map (fun v => (v.name, v.value)) =
        vs.map fun v => (v.name, v.value) := by
    intro vs
    induction vs with
    | nil => simp [assignFrom]
    | cons v vs ih =>
      intro prev n
      rw [assignFrom]
      split_ifs <;> simp [ih]
  cases l with
  | nil => rfl
  | cons v vs => simp [assignFinalIndices, hfrom]

/-! ## The ranges -/

theorem int32_succ_eq {a b : Int32} : a.toUInt32 + 1 = b.toUInt32 ↔ a + 1 = b := by
  constructor
  · intro h
    have := congrArg UInt32.toInt32 h
    simpa using this
  · rintro rfl
    rfl

theorem valueRangesFrom_eq (vs : List ValueIndex) :
    ∀ (prev : ValueIndex) (rangeStart rangeLen : ℕ) (rangeStartValue : UInt32),
      rangeStartValue.toInt32 = prev.value + 1 - Int32.ofNat rangeLen →
      valueRangesFrom prev rangeStart rangeLen rangeStartValue prev.value.toUInt32 vs =
        writeIntRangesLoop (rangeStart + rangeLen) rangeStart prev.value
          ((uniqueFrom prev vs).map ValueIndex.value) := by
  induction vs with
  | nil =>
    intro prev rangeStart rangeLen rangeStartValue hstart
    simp only [valueRangesFrom, uniqueFrom, List.map_nil, writeIntRangesLoop, hstart,
      Nat.add_sub_cancel_left]
  | cons v vs ih =>
    intro prev rangeStart rangeLen rangeStartValue hstart
    have hone : ∀ w : Int32, w.toUInt32.toInt32 = w + 1 - Int32.ofNat 1 := by
      intro w
      rw [Int32.toInt32_toUInt32, show Int32.ofNat 1 = 1 from rfl, Int32.add_sub_cancel]
    rw [valueRangesFrom, uniqueFrom]
    by_cases hne : prev.value ≠ v.value
    · rw [if_pos hne, if_pos hne, List.map_cons, writeIntRangesLoop]
      by_cases hnext : prev.value + 1 = v.value
      · rw [if_pos (int32_succ_eq.mpr hnext), if_neg (not_not.mpr hnext), ih v _ _ _ ?_, Nat.add_assoc]
        rw [hstart, ← hnext, show Int32.ofNat (rangeLen + 1) = Int32.ofNat rangeLen + 1 from
          Int32.ofNat_add _ _]
        grind
      · rw [if_neg (mt int32_succ_eq.mp hnext), if_pos hnext, ih v _ _ _ (hone _), hstart,
          Nat.add_sub_cancel_left]
    · rw [if_neg hne, if_neg hne]
      rw [not_not] at hne
      rw [hne] at hstart ⊢
      exact ih v _ _ _ hstart

theorem valueRanges_eq (l : List ValueIndex) :
    valueRanges l = writeIntRanges ((uniqueValues l).map ValueIndex.value) := by
  cases l with
  | nil => rfl
  | cons v vs =>
    rw [valueRanges, uniqueValues, List.map_cons, writeIntRanges, valueRangesFrom_eq]
    rw [Int32.toInt32_toUInt32, show Int32.ofNat 1 = 1 from rfl, Int32.add_sub_cancel]

/-- The search never finds the largest number: the end of its run is computed in 32 bits. -/
theorem intRangeLookup_max {nRanges : ℕ} {ranges : List IntRange} {r : Int32}
    (h : intRangeLookup nRanges ranges Int32.maxValue = some r) : r = -1 := by
  have hmax : ∀ w : Int32, ¬ Int32.maxValue < w := by
    intro w hw
    have hle := w.toInt_le
    rw [Int32.lt_iff_toInt_lt] at hw
    omega
  have hge : ∀ w : Int32, Int32.maxValue ≥ w := fun w => Int32.not_lt.mp (hmax w)
  have hloop : ∀ fuel start n, intRangeLoop ranges Int32.maxValue fuel start n = some r → r = -1 := by
    intro fuel
    induction fuel with
    | zero => simp [intRangeLoop]
    | succ fuel ih =>
      intro start n hr
      rw [intRangeLoop] at hr
      split_ifs at hr with h1 h0
      · obtain ⟨mid, -, hr⟩ := Option.bind_eq_some_iff.mp hr
        obtain ⟨next, -, hr⟩ := Option.bind_eq_some_iff.mp hr
        rw [if_neg (hmax _), if_pos (hge _)] at hr
        exact ih _ _ hr
      · obtain ⟨first, -, hr⟩ := Option.bind_eq_some_iff.mp hr
        obtain ⟨next, -, hr⟩ := Option.bind_eq_some_iff.mp hr
        rw [if_neg fun hin => hmax _ hin.2] at hr
        exact (Option.some.inj hr).symm
      · exact (Option.some.inj hr).symm
  unfold intRangeLookup at h
  split_ifs at h
  · exact (Option.some.inj h).symm
  · exact hloop _ _ _ h

/-! ## The tables of a declaration -/

section Tables
variable (Q : Qsort ValueIndex) (decl : EnumDeclaration)

/-- The array sorted by number. -/
def sortedIndices : List ValueIndex :=
  Q.sort compareValueIndicesByValueThenIndex (valueIndices decl)

theorem mem_sortedIndices {v : ValueIndex} : v ∈ sortedIndices Q decl ↔
    ∃ vd, decl.values[v.index]? = some vd ∧ v = ⟨vd.number, v.index, 0, vd.name⟩ := by
  rw [sortedIndices, (Q.perm _ _).mem_iff, valueIndices, List.mem_map]
  constructor
  · rintro ⟨⟨vd, j⟩, hmem, rfl⟩
    exact ⟨vd, List.mem_zipIdx_iff_getElem?.mp hmem, rfl⟩
  · rintro ⟨vd, hget, hv⟩
    exact ⟨(vd, v.index), List.mem_zipIdx_iff_getElem?.mpr hget, hv.symm⟩

theorem length_sortedIndices : (sortedIndices Q decl).length = decl.values.length := by
  rw [sortedIndices, (Q.perm _ _).length_eq, valueIndices, List.length_map, List.length_zipIdx]

theorem sortedIndices_sorted : SortedByValue (sortedIndices Q decl) := sorted_byValue Q _

theorem generate_values : (generateEnumDescriptor Q decl).values =
    (uniqueValues (sortedIndices Q decl)).map fun v => ⟨v.name, v.value⟩ := by
  show (uniqueValues (sortedIndices Q decl)).filterMap _ = _
  have hsome : ∀ v ∈ uniqueValues (sortedIndices Q decl),
      generateValueInitializer decl v.index = some ⟨v.name, v.value⟩ := by
    intro v hv
    obtain ⟨vd, hget, hv⟩ := (mem_sortedIndices Q decl).mp (uniqueValues_subset _ v hv)
    rw [generateValueInitializer, hget, Option.map_some, hv]
  generalize uniqueValues (sortedIndices Q decl) = l at hsome
  induction l with
  | nil => rfl
  | cons v vs ih =>
    rw [List.filterMap_cons, hsome v List.mem_cons_self, List.map_cons,
      ih fun u hu => hsome u (List.mem_cons_of_mem _ hu)]

theorem uniqueValues_sorted : (uniqueValues (sortedIndices Q decl)).Pairwise fun a b =>
    a.value.toInt < b.value.toInt := by
  have hsorted := sortedIndices_sorted Q decl
  cases hl : sortedIndices Q decl with
  | nil => simp [uniqueValues]
  | cons v vs =>
    rw [hl] at hsorted
    exact uniqueFrom_sorted hsorted

/-- Every declared value has a kept one with its number, declared no later. -/
theorem uniqueValues_first {j : ℕ} {vd : EnumValueDescriptor} (hget : decl.values[j]? = some vd) :
    ∃ u ∈ uniqueValues (sortedIndices Q decl), u.value = vd.number ∧ u.index ≤ j := by
  have hsorted := sortedIndices_sorted Q decl
  have hmem : (⟨vd.number, j, 0, vd.name⟩ : ValueIndex) ∈ sortedIndices Q decl :=
    (mem_sortedIndices Q decl).mpr ⟨vd, hget, rfl⟩
  cases hl : sortedIndices Q decl with
  | nil =>
    rw [hl] at hmem
    exact absurd hmem (by simp)
  | cons v vs =>
    rw [hl] at hsorted hmem
    exact uniqueFrom_first hsorted _ hmem

theorem searchable_uniqueValues (hmax : ∀ vd ∈ decl.values, vd.number ≠ Int32.maxValue) :
    Searchable ((uniqueValues (sortedIndices Q decl)).map ValueIndex.value) := by
  refine ⟨?_, ?_, ?_⟩
  · rw [List.pairwise_map]
    exact uniqueValues_sorted Q decl
  · intro w hw
    obtain ⟨u, hu, rfl⟩ := List.mem_map.mp hw
    obtain ⟨vd, hget, hv⟩ := (mem_sortedIndices Q decl).mp (uniqueValues_subset _ u hu)
    have hne := hmax vd (List.mem_of_getElem? hget)
    have hval : u.value = vd.number := by rw [hv]
    have hle := u.value.toInt_le
    have hint : u.value.toInt ≠ Int32.maxValue.toInt := by
      rw [Ne, Int32.toInt_inj, hval]
      exact hne
    rw [show Int32.maxValue.toInt = 2 ^ 31 - 1 from rfl] at hint hle
    omega
  · have hlen := decl.count_lt
    have hle : (uniqueValues (sortedIndices Q decl)).length ≤ (sortedIndices Q decl).length := by
      cases sortedIndices Q decl with
      | nil => simp [uniqueValues]
      | cons v vs =>
        have := length_uniqueFrom_le v vs
        simp only [uniqueValues, List.length_cons]
        omega
    rw [length_sortedIndices] at hle
    rw [List.length_map]
    omega

/-! ## The lookups -/

/-- The value with number `v` that is declared first. -/
def FirstDeclared (v : Int32) (e : EnumValue) : Prop :=
  ∃ i vd, decl.values[i]? = some vd ∧ vd.number = v ∧ e = ⟨vd.name, v⟩ ∧
    ∀ (j : ℕ) (w : EnumValueDescriptor), j < i → decl.values[j]? = some w → w.number ≠ v

/-- What the lookup of a number should find. -/
def GetValueExact (desc : EnumDescriptor) : Prop :=
  ∀ v, ∃ r, enumDescriptorGetValue desc v = .ok r ∧
    (r.isSome ↔ ∃ vd ∈ decl.values, vd.number = v) ∧ ∀ e, r = some e → FirstDeclared decl v e

/-- What the lookup of a name should find. -/
def GetValueByNameExact (desc : EnumDescriptor) : Prop :=
  ∀ s, ∃ r, enumDescriptorGetValueByName desc s = .ok r ∧
    (r.isSome ↔ ∃ vd ∈ decl.values, vd.name = s) ∧
      ∀ e, r = some e → ∀ vd ∈ decl.values, vd.name = s → e.value = vd.number

theorem getValue_exact (hmax : ∀ vd ∈ decl.values, vd.number ≠ Int32.maxValue) :
    GetValueExact decl (generateEnumDescriptor Q decl) := by
  intro v
  have hs := searchable_uniqueValues Q decl hmax
  obtain ⟨rv, hrv, hfound, habsent⟩ := intRangeLookup_eq hs v
  rw [← valueRanges_eq, writeIntRangesCount, ← valueRanges_eq] at hrv
  have hlookup : intRangeLookup (generateEnumDescriptor Q decl).nValueRanges
      (generateEnumDescriptor Q decl).valueRanges v = some rv := hrv
  simp only [enumDescriptorGetValue, hlookup]
  by_cases hmem : ∃ i : ℕ, ((uniqueValues (sortedIndices Q decl)).map ValueIndex.value)[i]? = some v
  · obtain ⟨i, hi⟩ := hmem
    have hlt := (List.getElem?_eq_some_iff.mp hi).1
    have hshort := hs.short
    have hint : rv.toInt = i := by
      rw [hfound i hi, Int32.toInt_ofNat_of_lt (by omega)]
    have hpos : ¬ rv < 0 := by
      rw [Int32.lt_iff_toInt_lt, hint, Int32.toInt_zero]
      omega
    have hidx : rv.toNatClampNeg = i := by
      rw [← Int32.toNat_toInt, hint, Int.toNat_natCast]
    rw [List.getElem?_map] at hi
    obtain ⟨u, hu, hval⟩ := Option.map_eq_some_iff.mp hi
    subst hval
    obtain ⟨vd, hget, hv⟩ := (mem_sortedIndices Q decl).mp
      (uniqueValues_subset _ u (List.mem_of_getElem? hu))
    have hnum : u.value = vd.number := by rw [hv]
    have hname : u.name = vd.name := by rw [hv]
    refine ⟨some ⟨vd.name, u.value⟩, ?_, ?_, ?_⟩
    · rw [if_neg hpos, EnumDescriptor.valueAt, hidx, generate_values, List.getElem?_map, hu,
        Option.map_some, hname]
    · exact iff_of_true rfl ⟨vd, List.mem_of_getElem? hget, hnum.symm⟩
    · rintro e he
      refine ⟨u.index, vd, hget, hnum.symm, (Option.some.inj he).symm, fun j w hj hw hwv => ?_⟩
      -- an earlier value with this number would have been kept
      obtain ⟨u', hu', hval', hidx'⟩ := uniqueValues_first Q decl hw
      obtain ⟨k, hk⟩ := List.getElem?_of_mem hu'
      have hki : k = i := by
        apply hs.index_unique (v := u.value)
        · rw [List.getElem?_map, hk, Option.map_some, hval', hwv]
        · rw [List.getElem?_map, hu, Option.map_some]
      rw [hki, hu, Option.some.injEq] at hk
      rw [hk] at hj
      omega
  · push Not at hmem
    have hneg : rv = -1 := habsent hmem
    refine ⟨none, by rw [hneg]; rfl, ?_, by simp⟩
    refine iff_of_false (by simp) ?_
    rintro ⟨vd, hvd, rfl⟩
    obtain ⟨j, hget⟩ := List.getElem?_of_mem hvd
    obtain ⟨u, hu, hval, -⟩ := uniqueValues_first Q decl hget
    obtain ⟨i, hi⟩ := List.getElem?_of_mem hu
    exact hmem i (by rw [List.getElem?_map, hi, Option.map_some, hval])

/-- The array sorted by name. -/
def nameIndices : List ValueIndex :=
  Q.sort compareValueIndicesByName (assignFinalIndices (sortedIndices Q decl))

/-- The names in the table are the declared ones, each with an index of its number. -/
theorem mem_nameIndices {x : ValueIndex} (hx : x ∈ nameIndices Q decl) :
    (∃ vd ∈ decl.values, vd.name = x.name ∧ vd.number = x.value) ∧
      ∃ e, (generateEnumDescriptor Q decl).values[x.finalIndex]? = some e ∧ e.value = x.value := by
  have hx' : x ∈ assignFinalIndices (sortedIndices Q decl) := (Q.perm _ _).mem_iff.mp hx
  constructor
  · have hmem : (x.name, x.value) ∈
        (sortedIndices Q decl).map fun v : ValueIndex => (v.name, v.value) := by
      rw [← assignFinalIndices_map]
      exact List.mem_map_of_mem hx'
    obtain ⟨v, hv, heq⟩ := List.mem_map.mp hmem
    obtain ⟨vd, hget, hvd⟩ := (mem_sortedIndices Q decl).mp hv
    simp only [Prod.mk.injEq] at heq
    exact ⟨vd, List.mem_of_getElem? hget, by rw [← heq.1, hvd], by rw [← heq.2, hvd]⟩
  · obtain ⟨u, hu, hval⟩ := assignFinalIndices_finalIndex _ x hx'
    exact ⟨_, by rw [generate_values, List.getElem?_map, hu, Option.map_some], hval⟩

theorem nameIndices_names : ((nameIndices Q decl).map ValueIndex.name).Perm
    (decl.values.map EnumValueDescriptor.name) := by
  have hassign : (assignFinalIndices (sortedIndices Q decl)).map ValueIndex.name =
      (sortedIndices Q decl).map ValueIndex.name := by
    have := congrArg (List.map Prod.fst) (assignFinalIndices_map (sortedIndices Q decl))
    simpa [List.map_map, Function.comp_def] using this
  have hindices : (valueIndices decl).map ValueIndex.name =
      decl.values.map EnumValueDescriptor.name := by
    rw [valueIndices, List.map_map, ← List.zipIdx_map_fst 0 decl.values, List.map_map]
    simp [Function.comp_def]
  have hnames := (Q.perm compareValueIndicesByName
    (assignFinalIndices (sortedIndices Q decl))).map ValueIndex.name
  have hvalues := (Q.perm compareValueIndicesByValueThenIndex (valueIndices decl)).map
    ValueIndex.name
  rw [hassign] at hnames
  rw [hindices] at hvalues
  exact hnames.trans hvalues

theorem generate_valuesByName (i : ℕ) : (generateEnumDescriptor Q decl).valuesByName[i]? =
    (nameIndices Q decl)[i]?.map fun v => ⟨v.name, v.finalIndex⟩ := by
  show ((nameIndices Q decl).map _)[i]? = _
  rw [List.getElem?_map]

theorem length_nameIndices : (nameIndices Q decl).length = decl.values.length := by
  have := (nameIndices_names Q decl).length_eq
  simpa using this

theorem probes_valuesByName (s : CName) :
    Probes (fun mid => (generateEnumDescriptor Q decl).valuesByName[mid]?.map fun entry =>
      strcmp entry.name s) decl.values.length := by
  have hsorted : (nameIndices Q decl).Pairwise fun a b => strcmp a.name b.name ≠ .gt :=
    sorted_byName Q _
  have h := probes_sorted (List.pairwise_map (f := ValueIndex.name).mpr hsorted) s
  rw [List.length_map, length_nameIndices] at h
  have hprobe : (fun mid : ℕ => (generateEnumDescriptor Q decl).valuesByName[mid]?.map
      fun entry : EnumValueIndex => strcmp entry.name s) =
      fun i => ((nameIndices Q decl).map ValueIndex.name)[i]?.map fun name => strcmp name s := by
    funext i
    rw [generate_valuesByName, Option.map_map, List.getElem?_map, Option.map_map]
    rfl
  rw [hprobe]
  exact h

theorem getValueByName_exact : GetValueByNameExact decl (generateEnumDescriptor Q decl) := by
  intro s
  obtain ⟨r, hr, hfound, habsent⟩ := bisect_spec (probes_valuesByName Q decl s)
  have hn : (generateEnumDescriptor Q decl).nValueNames = decl.values.length := rfl
  simp only [enumDescriptorGetValueByName, hn, hr]
  cases r with
  | none =>
    refine ⟨none, rfl, iff_of_false (by simp) ?_, by simp⟩
    rintro ⟨vd, hvd, rfl⟩
    have hmem : vd.name ∈ (nameIndices Q decl).map ValueIndex.name :=
      (nameIndices_names Q decl).mem_iff.mpr (List.mem_map_of_mem hvd)
    obtain ⟨x, hx, hname⟩ := List.mem_map.mp hmem
    obtain ⟨i, hi⟩ := List.getElem?_of_mem hx
    have hlt := (List.getElem?_eq_some_iff.mp hi).1
    rw [length_nameIndices] at hlt
    refine habsent rfl i hlt ?_
    rw [generate_valuesByName, hi]
    simp only [Option.map_some, hname, strcmp_eq.mpr]
  | some i =>
    obtain ⟨hlt, hi⟩ := hfound i rfl
    rw [generate_valuesByName, Option.map_map] at hi
    obtain ⟨x, hx, hname⟩ := Option.map_eq_some_iff.mp hi
    have hname : x.name = s := strcmp_eq.mp hname
    obtain ⟨⟨vd, hvd, hvdname, hvdnum⟩, e, he, heval⟩ :=
      mem_nameIndices Q decl (List.mem_of_getElem? hx)
    refine ⟨some e, ?_, iff_of_true rfl ⟨vd, hvd, hvdname.trans hname⟩, ?_⟩
    · simp only [generate_valuesByName, hx, Option.map_some, EnumDescriptor.valueAt, he]
    · intro e' he' w hw hwname
      obtain rfl := Option.some.inj he'
      have hsame : w = vd := List.inj_on_of_nodup_map decl.distinct hw hvd
        (hwname.trans (hvdname.trans hname).symm)
      rw [heval, ← hvdnum, hsame]

/-- The lookups agree with the declaration exactly when the largest `int` is not declared. -/
theorem enumLookups_exact_iff :
    (GetValueExact decl (generateEnumDescriptor Q decl) ∧
      GetValueByNameExact decl (generateEnumDescriptor Q decl)) ↔
    ∀ vd ∈ decl.values, vd.number ≠ Int32.maxValue := by
  refine ⟨fun ⟨hval, _⟩ vd hvd hmax => ?_, fun hmax => ⟨getValue_exact Q decl hmax,
    getValueByName_exact Q decl⟩⟩
  obtain ⟨r, hr, hiff, -⟩ := hval Int32.maxValue
  obtain ⟨e, rfl⟩ := Option.isSome_iff_exists.mp (hiff.mpr ⟨vd, hvd, hmax⟩)
  rw [enumDescriptorGetValue] at hr
  cases hrv : intRangeLookup (generateEnumDescriptor Q decl).nValueRanges
      (generateEnumDescriptor Q decl).valueRanges Int32.maxValue with
  | none => simp [hrv] at hr
  | some rv =>
    rw [hrv, intRangeLookup_max hrv] at hr
    exact absurd hr (by simp [show (-1 : Int32) < 0 from by decide])

end Tables

/-- One value, with the largest number. -/
def maxDeclaration : EnumDeclaration where
  values := [⟨⟨[65], by decide⟩, Int32.maxValue⟩]
  nonempty := by simp
  distinct := by simp
  count_lt := by simp

/-- The declared number is not found. -/
theorem enumLookups_fail :
    enumDescriptorGetValue (generateEnumDescriptor (insertionQsort _) maxDeclaration) Int32.maxValue =
        .ok none ∧
      ¬ GetValueExact maxDeclaration (generateEnumDescriptor (insertionQsort _) maxDeclaration) := by
  have hnone : enumDescriptorGetValue (generateEnumDescriptor (insertionQsort _) maxDeclaration)
      Int32.maxValue = .ok none := by rfl
  refine ⟨hnone, fun h => ?_⟩
  obtain ⟨r, hr, hiff, -⟩ := h Int32.maxValue
  rw [hnone, Except.ok.injEq] at hr
  subst hr
  exact absurd (hiff.mpr ⟨_, List.mem_singleton.mpr rfl, rfl⟩) (by simp)

end ProtobufC
