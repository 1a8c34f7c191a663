import ProtobufC.Library.MachineInt
import ProtobufC.Runtime.Message

/-! # Lookup of a number in a range table

`int_range_lookup` of `protobuf-c.c` and the generator's `WriteIntRanges`, which writes the table it
searches: one entry for each run of consecutive numbers and a sentinel whose `orig_index` is the
number of values.  The search keeps the interval `[start, start + n)` of entries that may still hold
the value; `IsRangeTable` says what it relies on, and `intRangeLookup_eq` what it returns.
-/

namespace ProtobufC
open Library
set_option autoImplicit false

/-! ## The code -/

/-- The loop of `int_range_lookup` and the test behind it; `none` is a read past the table. -/
def intRangeLoop (ranges : List IntRange) (value : Int32) : ℕ → ℕ → ℕ → Option Int32
  | 0, _, _ => none
  | fuel + 1, start, n =>
      if n > 1 then do
        let mid := start + n / 2
        let at_mid ← ranges[mid]?
        let next ← ranges[mid + 1]?
        if value < at_mid.startValue then
          intRangeLoop ranges value fuel start (mid - start)
        else if value ≥ at_mid.startValue + (next.origIndex - at_mid.origIndex).toInt32 then
          intRangeLoop ranges value fuel (mid + 1) (start + n - (mid + 1))
        else
          some ((value - at_mid.startValue).toUInt32 + at_mid.origIndex).toInt32
      else if n > 0 then do
        let first ← ranges[start]?
        let next ← ranges[start + 1]?
        let rangeSize := next.origIndex - first.origIndex
        if first.startValue ≤ value ∧ value < (first.startValue.toUInt32 + rangeSize).toInt32 then
          some ((value - first.startValue).toUInt32 + first.origIndex).toInt32
        else some (-1)
      else some (-1)

/-- `int_range_lookup`; `none` is a read past the table. -/
def intRangeLookup (nRanges : ℕ) (ranges : List IntRange) (value : Int32) : Option Int32 :=
  if nRanges = 0 then some (-1) else intRangeLoop ranges value (nRanges + 1) 0 nRanges

/-- The printing loop of `WriteIntRanges`: `prev` is `values[i-1]`. -/
def writeIntRangesLoop (i lastRangeStart : ℕ) (prev : Int32) : List Int32 → List IntRange
  | [] =>
      [⟨prev + 1 - Int32.ofNat (i - lastRangeStart), UInt32.ofNat lastRangeStart⟩,
       ⟨0, UInt32.ofNat i⟩]
  | v :: vs =>
      if prev + 1 ≠ v then
        ⟨prev + 1 - Int32.ofNat (i - lastRangeStart), UInt32.ofNat lastRangeStart⟩ ::
          writeIntRangesLoop (i + 1) i v vs
      else writeIntRangesLoop (i + 1) lastRangeStart v vs

/-- `WriteIntRanges`: the table it prints. -/
def writeIntRanges : List Int32 → List IntRange
  | [] => []
  | v :: vs => writeIntRangesLoop 1 0 v vs

/-- `WriteIntRanges`: the number of ranges it returns. -/
def writeIntRangesCount (values : List Int32) : ℕ := (writeIntRanges values).length - 1

/-! ## What the table says -/

/-- Two adjacent entries: `r` starts a run that covers the indices up to the next entry's. -/
def IntRange.Adjacent (values : List Int32) (r r' : IntRange) : Prop :=
  r.origIndex.toNat < r'.origIndex.toNat ∧
    ∀ j, r.origIndex.toNat ≤ j → j < r'.origIndex.toNat → ∃ v, values[j]? = some v ∧
      v.toInt = r.startValue.toInt + (j - r.origIndex.toNat : ℕ)

/-- `rs` lists the runs of consecutive numbers of `values` from index `from` on, and ends with the
sentinel. -/
structure IsRangeTable (values : List Int32) (start : ℕ) (rs : List IntRange) : Prop where
  chain : rs.IsChain (IntRange.Adjacent values)
  first : ∃ r, rs.head? = some r ∧ r.origIndex.toNat = start
  last : ∃ r, rs.getLast? = some r ∧ r.origIndex.toNat = values.length

/-- The numbers a table can be searched for without signed overflow, in increasing order. -/
structure Searchable (values : List Int32) : Prop where
  sorted : values.Pairwise (fun a b => a.toInt < b.toInt)
  below : ∀ v ∈ values, v.toInt < 2 ^ 31 - 1
  short : values.length < 2 ^ 31

/-- What the printing loop keeps: `values[j]` for `lastRangeStart ≤ j < i` is the run that ends in
`prev`. -/
def InRun (values : List Int32) (i lastRangeStart : ℕ) (prev : Int32) : Prop :=
  lastRangeStart < i ∧ ∀ j, lastRangeStart ≤ j → j < i → ∃ v, values[j]? = some v ∧
    v.toInt = prev.toInt - (i - 1 - j : ℕ)

theorem InRun.start {values : List Int32} {i s : ℕ} {prev : Int32} (hs : Searchable values)
    (hrun : InRun values i s prev) (hi : i ≤ values.length) :
    (prev + 1 - Int32.ofNat (i - s)).toInt = prev.toInt - (i - 1 - s : ℕ) := by
  obtain ⟨hlt, hval⟩ := hrun
  obtain ⟨v, hv, he⟩ := hval s (le_refl _) hlt
  obtain ⟨p, hp, hpe⟩ := hval (i - 1) (by omega) (by omega)
  have hprev := hs.below p (List.mem_of_getElem? hp)
  have hshort := hs.short
  have hvmin := v.le_toInt
  have hpmin := prev.le_toInt
  have hone : (1 : Int32).toInt = 1 := rfl
  have hcount : (Int32.ofNat (i - s)).toInt = (i - s : ℕ) := Int32.toInt_ofNat_of_lt (by omega)
  have hsucc : (prev + 1).toInt = prev.toInt + 1 := by
    rw [int32_toInt_add (by rw [hone]; omega) (by rw [hone]; omega), hone]
  rw [int32_toInt_sub (by rw [hsucc, hcount]; omega) (by rw [hsucc, hcount]; omega), hsucc, hcount]
  omega

theorem InRun.adjacent {values : List Int32} {i s : ℕ} {prev : Int32} {r' : IntRange}
    (hs : Searchable values) (hrun : InRun values i s prev) (hi : i ≤ values.length)
    (hr' : r'.origIndex.toNat = i) :
    IntRange.Adjacent values ⟨prev + 1 - Int32.ofNat (i - s), UInt32.ofNat s⟩ r' := by
  have hshort := hs.short
  have hlt := hrun.1
  have horig : (UInt32.ofNat s).toNat = s := uint32_toNat_ofNat (by omega)
  refine ⟨by rw [horig, hr']; exact hlt, ?_⟩
  intro j hj hj'
  simp only [horig, hr'] at hj hj' ⊢
  obtain ⟨v, hv, he⟩ := hrun.2 j hj hj'
  refine ⟨v, hv, ?_⟩
  rw [hrun.start hs hi, he]
  omega

theorem writeIntRangesLoop_table {values : List Int32} (hs : Searchable values) (rest : List Int32) :
    ∀ (i s : ℕ) (prev : Int32), i + rest.length = values.length → values.drop i = rest →
      InRun values i s prev → IsRangeTable values s (writeIntRangesLoop i s prev rest) := by
  have hshort := hs.short
  induction rest with
  | nil =>
    intro i s prev hi hdrop hrun
    simp only [List.length_nil, Nat.add_zero] at hi
    have hlt := hrun.1
    have hsentinel : (UInt32.ofNat i).toNat = i := uint32_toNat_ofNat (by omega)
    refine ⟨?_, ⟨_, rfl, uint32_toNat_ofNat (by omega)⟩, ⟨_, rfl, hsentinel.trans hi⟩⟩
    exact .cons_cons (hrun.adjacent hs (by omega) hsentinel) (.singleton _)
  | cons v vs ih =>
    intro i s prev hi hdrop hrun
    simp only [List.length_cons] at hi
    have hlt := hrun.1
    have hv : values[i]? = some v := by
      have h0 : (values.drop i)[0]? = some v := by rw [hdrop]; rfl
      simpa using h0
    have hdrop' : values.drop (i + 1) = vs := by
      rw [← List.drop_drop, hdrop]; rfl
    rw [writeIntRangesLoop]
    split
    · -- a gap: the entry for the run that just ended, then the table of the rest
      have hrun' : InRun values (i + 1) i v := by
        refine ⟨Nat.lt_succ_self i, fun j hj hj' => ⟨v, ?_, ?_⟩⟩
        · rw [show j = i by omega]; exact hv
        · rw [show j = i by omega]; omega
      obtain ⟨hchain, ⟨r, hr, hro⟩, hlast⟩ := ih (i + 1) i v (by omega) hdrop' hrun'
      obtain ⟨r₀, rs, hrs⟩ : ∃ r₀ rs, writeIntRangesLoop (i + 1) i v vs = r₀ :: rs :=
        List.exists_cons_of_ne_nil (by intro h; simp [h] at hr)
      rw [hrs] at hr hchain hlast ⊢
      simp only [List.head?_cons, Option.some.injEq] at hr
      subst hr
      refine ⟨.cons_cons (hrun.adjacent hs (by omega) hro) hchain,
        ⟨_, rfl, uint32_toNat_ofNat (by omega)⟩, ?_⟩
      simpa [List.getLast?_cons_cons] using hlast
    · -- the run goes on
      rename_i hnext
      have hnext : prev + 1 = v := not_not.mp hnext
      apply ih (i + 1) s v (by omega) hdrop'
      obtain ⟨p, hp, hpe⟩ := hrun.2 (i - 1) (by omega) (by omega)
      have hprev := hs.below p (List.mem_of_getElem? hp)
      have hpmin := prev.le_toInt
      have hone : (1 : Int32).toInt = 1 := rfl
      have hsucc : v.toInt = prev.toInt + 1 := by
        rw [← hnext, int32_toInt_add (by rw [hone]; omega) (by rw [hone]; omega), hone]
      refine ⟨by omega, fun j hj hj' => ?_⟩
      by_cases hji : j = i
      · exact ⟨v, by rw [hji]; exact hv, by omega⟩
      · obtain ⟨w, hw, hwe⟩ := hrun.2 j hj (by omega)
        exact ⟨w, hw, by omega⟩

/-- `WriteIntRanges` writes the table of the runs of a non-empty list. -/
theorem writeIntRanges_table {values : List Int32} (hs : Searchable values) (hne : values ≠ []) :
    IsRangeTable values 0 (writeIntRanges values) := by
  obtain ⟨v, vs, rfl⟩ := List.exists_cons_of_ne_nil hne
  apply writeIntRangesLoop_table hs vs 1 0 v (by simp; omega) rfl
  refine ⟨Nat.one_pos, fun j _ hj => ⟨v, ?_, ?_⟩⟩
  · rw [show j = 0 by omega]; rfl
  · omega

/-! ## The search -/

section Search
variable {values : List Int32} {rs : List IntRange}

theorem IsRangeTable.length_pos (t : IsRangeTable values 0 rs) : 0 < rs.length := by
  obtain ⟨r, hr, _⟩ := t.first
  cases rs with
  | nil => simp at hr
  | cons _ _ => simp

theorem IsRangeTable.origIndex_le (t : IsRangeTable values 0 rs) {k k' : ℕ} {r r' : IntRange}
    (hkk : k ≤ k') (hr : rs[k]? = some r) (hr' : rs[k']? = some r') :
    r.origIndex.toNat ≤ r'.origIndex.toNat := by
  have hlt : rs.Pairwise (fun a b => a.origIndex.toNat < b.origIndex.toNat) := by
    have : IsTrans IntRange (fun a b => a.origIndex.toNat < b.origIndex.toNat) :=
      ⟨fun _ _ _ => Nat.lt_trans⟩
    exact (t.chain.imp fun _ _ h => h.1).pairwise
  obtain ⟨hk, rfl⟩ := List.getElem?_eq_some_iff.mp hr
  obtain ⟨hk', rfl⟩ := List.getElem?_eq_some_iff.mp hr'
  rcases Nat.lt_or_eq_of_le hkk with h | rfl
  · exact (List.pairwise_iff_getElem.mp hlt k k' hk hk' h).le
  · exact le_refl _

theorem IsRangeTable.adjacent (t : IsRangeTable values 0 rs) {k : ℕ} {r r' : IntRange}
    (hr : rs[k]? = some r) (hr' : rs[k + 1]? = some r') : IntRange.Adjacent values r r' := by
  obtain ⟨hk, rfl⟩ := List.getElem?_eq_some_iff.mp hr
  obtain ⟨hk', rfl⟩ := List.getElem?_eq_some_iff.mp hr'
  exact List.isChain_iff_getElem.mp t.chain k hk'

theorem IsRangeTable.entry_of_index (t : IsRangeTable values 0 rs) {i : ℕ}
    (hi : i < values.length) : ∃ k r r', rs[k]? = some r ∧ rs[k + 1]? = some r' ∧
      r.origIndex.toNat ≤ i ∧ i < r'.origIndex.toNat := by
  -- the largest `k` whose entry starts at or before `i`
  have hstart : ∀ m, m < rs.length → (∃ r, rs[m]? = some r ∧ i < r.origIndex.toNat) →
      ∃ k r r', rs[k]? = some r ∧ rs[k + 1]? = some r' ∧
        r.origIndex.toNat ≤ i ∧ i < r'.origIndex.toNat := by
    intro m
    induction m with
    | zero =>
      rintro _ ⟨r, hr, hir⟩
      obtain ⟨r₀, hr₀, h0⟩ := t.first
      rw [List.head?_eq_getElem?, hr] at hr₀
      obtain rfl := Option.some.inj hr₀
      omega
    | succ m ih =>
      rintro hm ⟨r', hr', hir⟩
      obtain ⟨r, hr⟩ : ∃ r, rs[m]? = some r := ⟨rs[m], List.getElem?_eq_getElem (by omega)⟩
      by_cases h : i < r.origIndex.toNat
      · exact ih (by omega) ⟨r, hr, h⟩
      · exact ⟨m, r, r', hr, hr', by omega, hir⟩
  obtain ⟨r, hr, hlast⟩ := t.last
  have hpos := t.length_pos
  refine hstart (rs.length - 1) (by omega) ⟨r, ?_, by omega⟩
  rw [← hr, List.getLast?_eq_getElem?]

theorem Searchable.le_of_le (hs : Searchable values) {i j : ℕ} {v w : Int32} (hij : i ≤ j)
    (hv : values[i]? = some v) (hw : values[j]? = some w) : v.toInt ≤ w.toInt := by
  obtain ⟨hi, rfl⟩ := List.getElem?_eq_some_iff.mp hv
  obtain ⟨hj, rfl⟩ := List.getElem?_eq_some_iff.mp hw
  rcases Nat.lt_or_eq_of_le hij with h | rfl
  · exact (List.pairwise_iff_getElem.mp hs.sorted i j hi hj h).le
  · exact le_refl _

theorem Searchable.index_unique (hs : Searchable values) {i j : ℕ} {v : Int32}
    (hi : values[i]? = some v) (hj : values[j]? = some v) : i = j := by
  obtain ⟨hi', hiv⟩ := List.getElem?_eq_some_iff.mp hi
  obtain ⟨hj', hjv⟩ := List.getElem?_eq_some_iff.mp hj
  have hlt := List.pairwise_iff_getElem.mp hs.sorted
  by_contra hne
  rcases Nat.lt_or_gt_of_ne hne with h | h
  · have := hlt i j hi' hj' h
    rw [hiv, hjv] at this
    omega
  · have := hlt j i hj' hi' h
    rw [hiv, hjv] at this
    omega

theorem IsRangeTable.run_end (t : IsRangeTable values 0 rs) (hs : Searchable values) {k : ℕ}
    {r r' : IntRange} (hr : rs[k]? = some r) (hr' : rs[k + 1]? = some r') :
    (r.startValue + (r'.origIndex - r.origIndex).toInt32).toInt =
      r.startValue.toInt + (r'.origIndex.toNat - r.origIndex.toNat : ℕ) := by
  obtain ⟨hlt, hval⟩ := t.adjacent hr hr'
  obtain ⟨v, hv, he⟩ := hval (r'.origIndex.toNat - 1) (by omega) (by omega)
  have hbelow := hs.below v (List.mem_of_getElem? hv)
  have hlen : r'.origIndex.toNat - 1 < values.length := (List.getElem?_eq_some_iff.mp hv).1
  have hshort := hs.short
  have hsub := uint32_toNat_sub hlt.le
  have hdiff : (r'.origIndex - r.origIndex).toInt32.toInt =
      (r'.origIndex.toNat - r.origIndex.toNat : ℕ) := by
    rw [uint32_toInt32_toInt (by omega), hsub]
  have hmin := r.startValue.le_toInt
  rw [int32_toInt_add (by omega) (by omega), hdiff]

theorem IsRangeTable.index_in_run (t : IsRangeTable values 0 rs) (hs : Searchable values) {k : ℕ}
    {r r' : IntRange} {w : Int32} (hr : rs[k]? = some r) (hr' : rs[k + 1]? = some r')
    (hlo : r.startValue.toInt ≤ w.toInt)
    (hhi : w.toInt < r.startValue.toInt + (r'.origIndex.toNat - r.origIndex.toNat : ℕ)) :
    ∃ i, values[i]? = some w ∧
      ((w - r.startValue).toUInt32 + r.origIndex).toInt32 = Int32.ofNat i := by
  obtain ⟨hlt, hval⟩ := t.adjacent hr hr'
  obtain ⟨d, hd⟩ : ∃ d : ℕ, w.toInt = r.startValue.toInt + d :=
    ⟨(w.toInt - r.startValue.toInt).toNat, by omega⟩
  obtain ⟨v, hv, he⟩ := hval (r.origIndex.toNat + d) (by omega) (by omega)
  have hvw : v = w := by
    apply Int32.toInt_inj.mp
    omega
  subst hvw
  have hlen : r.origIndex.toNat + d < values.length := (List.getElem?_eq_some_iff.mp hv).1
  have hshort := hs.short
  refine ⟨r.origIndex.toNat + d, hv, ?_⟩
  apply Int32.toInt_inj.mp
  have hw := v.toInt_lt
  have hmin := r.startValue.le_toInt
  have hvmin := v.le_toInt
  have hsub : (v - r.startValue).toInt = d := by
    rw [int32_toInt_sub (by omega) (by omega)]
    omega
  have horig : r.origIndex.toInt32.toInt = r.origIndex.toNat := uint32_toInt32_toInt (by omega)
  rw [UInt32.toInt32_add, int32_toUInt32_toInt32,
    int32_toInt_add (by omega) (by omega), hsub, horig, Int32.toInt_ofNat_of_lt (by omega)]
  push_cast
  ring

/-- `r` is the index of `w`, or -1 when `w` does not occur. -/
def IsIndexOf (values : List Int32) (w r : Int32) : Prop :=
  (∀ i : ℕ, values[i]? = some w → r = Int32.ofNat i) ∧ ((∀ i : ℕ, values[i]? ≠ some w) → r = -1)

theorem IsIndexOf.of_index (hs : Searchable values) {w r : Int32} {i : ℕ}
    (hi : values[i]? = some w) (hr : r = Int32.ofNat i) : IsIndexOf values w r := by
  refine ⟨fun j hj => ?_, fun h => absurd hi (h i)⟩
  rw [hr, hs.index_unique hi hj]

/-- Occurrences of `w` lie in the runs of the entries from `start` to `start + n`. -/
def Within (values : List Int32) (rs : List IntRange) (w : Int32) (start n : ℕ) : Prop :=
  ∀ i, values[i]? = some w → ∃ k r r', start ≤ k ∧ k < start + n ∧ rs[k]? = some r ∧
    rs[k + 1]? = some r' ∧ r.origIndex.toNat ≤ i ∧ i < r'.origIndex.toNat

theorem Within.below (t : IsRangeTable values 0 rs) (hs : Searchable values) {w : Int32}
    {start n mid : ℕ} {r r' : IntRange} (hw : Within values rs w start n) (hr : rs[mid]? = some r)
    (hr' : rs[mid + 1]? = some r') (hlt : w.toInt < r.startValue.toInt) :
    Within values rs w start (mid - start) := by
  intro i hi
  obtain ⟨k, q, q', hk, hkn, hq, hq', hqi, hiq⟩ := hw i hi
  refine ⟨k, q, q', hk, ?_, hq, hq', hqi, hiq⟩
  by_contra hge
  -- an entry at or behind `mid` starts at or behind `mid`'s first number
  have hle := t.origIndex_le (show mid ≤ k by omega) hr hq
  obtain ⟨hpos, hval⟩ := t.adjacent hr hr'
  obtain ⟨v, hv, he⟩ := hval r.origIndex.toNat (le_refl _) hpos
  have := hs.le_of_le (hle.trans hqi) hv hi
  omega

theorem Within.above (t : IsRangeTable values 0 rs) (hs : Searchable values) {w : Int32}
    {start n mid : ℕ} {r r' : IntRange} (hw : Within values rs w start n) (hr : rs[mid]? = some r)
    (hr' : rs[mid + 1]? = some r')
    (hge : r.startValue.toInt + (r'.origIndex.toNat - r.origIndex.toNat : ℕ) ≤ w.toInt) :
    Within values rs w (mid + 1) (start + n - (mid + 1)) := by
  intro i hi
  obtain ⟨k, q, q', hk, hkn, hq, hq', hqi, hiq⟩ := hw i hi
  have hgt : mid < k := by
    by_contra hle
    have hle' := t.origIndex_le (show k + 1 ≤ mid + 1 by omega) hq' hr'
    obtain ⟨hpos, hval⟩ := t.adjacent hr hr'
    obtain ⟨v, hv, he⟩ := hval (r'.origIndex.toNat - 1) (by omega) (by omega)
    have := hs.le_of_le (show i ≤ r'.origIndex.toNat - 1 by omega) hi hv
    omega
  exact ⟨k, q, q', by omega, by omega, hq, hq', hqi, hiq⟩

theorem intRangeLoop_eq (t : IsRangeTable values 0 rs) (hs : Searchable values) (w : Int32) :
    ∀ fuel start n, n < fuel → start + n < rs.length → Within values rs w start n →
      ∃ r, intRangeLoop rs w fuel start n = some r ∧ IsIndexOf values w r := by
  intro fuel
  induction fuel with
  | zero => intro start n hn; omega
  | succ fuel ih =>
    intro start n hn hlen hw
    rw [intRangeLoop]
    by_cases hn1 : n > 1
    · rw [if_pos hn1]
      obtain ⟨r, hr⟩ : ∃ r, rs[start + n / 2]? = some r :=
        ⟨_, List.getElem?_eq_getElem (by omega)⟩
      obtain ⟨r', hr'⟩ : ∃ r, rs[start + n / 2 + 1]? = some r :=
        ⟨_, List.getElem?_eq_getElem (by omega)⟩
      have hend := t.run_end hs hr hr'
      simp only [hr, hr', Option.bind_eq_bind, Option.bind_some]
      split
      · rename_i hlt
        have hlt := Int32.lt_iff_toInt_lt.mp hlt
        exact ih _ _ (by omega) (by omega) (hw.below t hs hr hr' hlt)
      · rename_i hnlt
        have hlo : r.startValue.toInt ≤ w.toInt := by
          rw [Int32.lt_iff_toInt_lt] at hnlt
          omega
        split
        · rename_i hge
          have hge := Int32.le_iff_toInt_le.mp hge
          exact ih _ _ (by omega) (by omega) (hw.above t hs hr hr' (hend ▸ hge))
        · rename_i hnge
          have hhi : w.toInt < (r.startValue + (r'.origIndex - r.origIndex).toInt32).toInt := by
            rw [ge_iff_le, Int32.le_iff_toInt_le] at hnge
            omega
          obtain ⟨i, hi, he⟩ := t.index_in_run hs hr hr' hlo (hend ▸ hhi)
          exact ⟨_, rfl, .of_index hs hi he⟩
    · rw [if_neg hn1]
      by_cases hn0 : n > 0
      · rw [if_pos hn0]
        obtain rfl : n = 1 := by omega
        obtain ⟨r, hr⟩ : ∃ r, rs[start]? = some r := ⟨_, List.getElem?_eq_getElem (by omega)⟩
        obtain ⟨r', hr'⟩ : ∃ r, rs[start + 1]? = some r := ⟨_, List.getElem?_eq_getElem (by omega)⟩
        have hend := t.run_end hs hr hr'
        simp only [hr, hr', Option.bind_eq_bind, Option.bind_some, UInt32.toInt32_add,
          int32_toUInt32_toInt32]
        split
        · rename_i h
          rw [Int32.le_iff_toInt_le, Int32.lt_iff_toInt_lt, hend] at h
          obtain ⟨i, hi, he⟩ := t.index_in_run hs hr hr' h.1 h.2
          rw [UInt32.toInt32_add, int32_toUInt32_toInt32] at he
          exact ⟨_, rfl, .of_index hs hi he⟩
        · rename_i h
          rw [Int32.le_iff_toInt_le, Int32.lt_iff_toInt_lt, hend] at h
          refine ⟨_, rfl, fun i hi => absurd ?_ h, fun _ => rfl⟩
          -- the only entry left is `start`, and its run has no `w`
          obtain ⟨k, q, q', hk, hkn, hq, hq', hqi, hiq⟩ := hw i hi
          obtain rfl : k = start := by omega
          rw [hr] at hq
          rw [hr'] at hq'
          obtain rfl := Option.some.inj hq
          obtain rfl := Option.some.inj hq'
          obtain ⟨v, hv, he⟩ := (t.adjacent hr hr').2 i hqi hiq
          rw [hi] at hv
          obtain rfl := Option.some.inj hv
          omega
      · rw [if_neg hn0]
        refine ⟨_, rfl, fun i hi => ?_, fun _ => rfl⟩
        obtain ⟨k, q, q', hk, hkn, _⟩ := hw i hi
        omega

end Search

/-- `int_range_lookup` in the table that `WriteIntRanges` writes for `values` returns the index of
the value, or -1, and reads nothing behind the sentinel. -/
theorem intRangeLookup_eq {values : List Int32} (hs : Searchable values) (w : Int32) :
    ∃ r, intRangeLookup (writeIntRangesCount values) (writeIntRanges values) w = some r ∧
      IsIndexOf values w r := by
  by_cases hne : values = []
  · subst hne
    exact ⟨-1, rfl, by simp, fun _ => rfl⟩
  · have t := writeIntRanges_table hs hne
    have hpos := t.length_pos
    rw [intRangeLookup, writeIntRangesCount]
    split
    · -- a table of one entry is the sentinel of no values
      rename_i h0
      obtain ⟨r, hr, hro⟩ := t.first
      obtain ⟨r', hr', hro'⟩ := t.last
      obtain ⟨q, hq⟩ := List.length_eq_one_iff.mp (show (writeIntRanges values).length = 1 by omega)
      rw [hq] at hr hr'
      simp only [List.head?_cons, Option.some.injEq, List.getLast?_singleton] at hr hr'
      subst hr
      rw [hr'] at hro
      have := List.length_pos_of_ne_nil hne
      omega
    · apply intRangeLoop_eq t hs w _ _ _ (Nat.lt_succ_self _) (by omega)
      intro i hi
      obtain ⟨k, r, r', hr, hr', hri, hir⟩ :=
        t.entry_of_index (List.getElem?_eq_some_iff.mp hi).1
      have hk := (List.getElem?_eq_some_iff.mp hr').1
      exact ⟨k, r, r', by omega, by omega, hr, hr', hri, hir⟩

end ProtobufC
