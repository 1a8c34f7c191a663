import ProtobufC.Runtime.Ownership
import ProtobufC.Wire.Decode
import ProtobufC.Wire.LengthPrefix

/-! # The scanning loop

What the first pass of `protobuf_c_message_unpack` leaves behind: one scanned member for each record
of the input, in slabs whose blocks are accounted for, the count of every repeated field, the bitmap
of the required fields and the number of unknown fields.  `Scanned` says so of a state in front of
the loop test, `meets_scanMember` is one round and `meets_scanLoop` the loop.

Where the input or the allocator rules the faults out is the proposition `P` of `Excused P`.
-/

namespace ProtobufC
open Library
set_option autoImplicit false

/-! ## Counting -/

/-- The number of elements that a packed payload announces. -/
def packedCount (type : FieldType) (body : List UInt8) : Option ℕ :=
  match type with
  | .sfixed32 | .fixed32 | .float => if body.length % 4 ≠ 0 then none else some (body.length / 4)
  | .sfixed64 | .fixed64 | .double => if body.length % 8 ≠ 0 then none else some (body.length / 8)
  | .int32 | .sint32 | .enum | .uint32 | .int64 | .sint64 | .uint64 => some (maxB128Numbers body)
  | .bool => some body.length
  | .string | .bytes | .message => none

/-- The number of elements that a record of a repeated field announces. -/
def recordCount (field : FieldDescriptor) (r : Record) : Option ℕ :=
  if isPackedRecord field r.wireType then packedCount field.type r.body else some 1

/-- The record is none of a repeated field, or its elements can be counted. -/
def Countable (desc : MessageDescriptor) (r : Record) : Prop :=
  ∀ i field, desc.field? r.tag = some (i, field) → field.label = .repeated →
    recordCount field r ≠ none

/-- The number of elements that a record announces for the field with index `i`. -/
def countAt (desc : MessageDescriptor) (i : ℕ) (r : Record) : ℕ :=
  match desc.field? r.tag with
  | some (j, field) => if j = i ∧ field.label = .repeated then (recordCount field r).getD 0 else 0
  | none => 0

/-- The number of elements that the records announce for the field with index `i`. -/
def elementCount (desc : MessageDescriptor) (i : ℕ) (rs : List Record) : ℕ :=
  (rs.map (countAt desc i)).sum

/-- The number of records of unknown fields. -/
def unknownCount (desc : MessageDescriptor) (rs : List Record) : ℕ :=
  rs.countP fun r => (desc.field? r.tag).isNone

/-- The member of a field after the scan: an array has its count only. -/
def countedSlot (desc : MessageDescriptor) (rs : List Record) (i : ℕ) (field : FieldDescriptor) :
    Slot :=
  if field.label = .repeated then .repeated ⟨elementCount desc i rs, none, 0, []⟩
  else field.initSlot

/-! ## Slabs -/

variable {σ : Type} (H : HeapAllocator σ)

/-- The blocks of the slabs, which are released when there is no `tmp_alloc`. -/
def slabBlocks (slabs : List Slab) : Multiset ℕ :=
  if H.tmpAlloc.isSome then 0 else ((slabs.drop 1).map fun slab => blockOf slab.addr).sum

/-- The slabs can be released. -/
def SlabsOwned (slabs : List Slab) : Prop :=
  H.tmpAlloc = none → ∀ slab ∈ slabs.drop 1, IsBlock slab.addr

/-- `tmp_alloc` does not fail. -/
def TmpReliable : Prop := ∀ f, H.tmpAlloc = some f → ∀ n s, (f n s).1 ≠ none

/-- The slabs before the last are full. -/
def SlabsFull (full : List Slab) : Prop :=
  ∀ i slab, full[i]? = some slab → slab.members.length = 1 <<< (i + 4)

/-- The slabs are full but for the last, which holds `in_slab_index` members. -/
structure SlabsFilled (st : ScanState) (full : List Slab) (cur : Slab) : Prop where
  slabs : st.slabs = full ++ [cur]
  which : full.length = st.whichSlab
  sizes : SlabsFull full
  index : cur.members.length = st.inSlabIndex
  room : st.inSlabIndex ≤ 1 <<< (st.whichSlab + 4)

/-- The members scanned so far. -/
def ScanState.members (st : ScanState) : List ScannedMember := st.slabs.flatMap Slab.members

/-- A fault that only an input outside `P` can bring about. -/
def Excused (P : Prop) : Fault → Prop := fun e => (e = .access ∨ e = .shift) ∧ ¬ P

/-! ## The state of the scan -/

/-- The scanned member describes the record. -/
structure Scans (desc : MessageDescriptor) (r : Record) (tmp : ScannedMember) : Prop where
  tag : tmp.tag = r.tag
  wireType : tmp.wireType = r.wireType
  field : tmp.field = desc.field? r.tag
  len : tmp.len = r.payload.length
  data : tmp.data.take tmp.len = r.payload
  len_le : tmp.len ≤ tmp.data.length
  len_lt : tmp.len < 2 ^ 32
  prefixLen : tmp.lengthPrefixLen = r.prefixLen
  prefixLen_le : r.prefixLen ≤ r.payload.length
  wellFormed : r.WellFormed

/-- Records taken off `data` one after the other, the members that describe them and what is left. -/
inductive Trail (data : List UInt8) : List Record → List ScannedMember → List UInt8 → Prop
  | start : Trail data [] [] data
  | next {rs : List Record} {ms : List ScannedMember} {rest rest' : List UInt8} {r : Record}
      {tmp : ScannedMember} (h : Trail data rs ms rest) (hne : rest ≠ [])
      (hnext : nextRecord rest = some (r, rest')) (hdata : tmp.data = r.payload ++ rest') :
      Trail data (rs ++ [r]) (ms ++ [tmp]) rest'

/-- The state in front of the loop test, `rs` being the records of `data` scanned so far. -/
structure Scanned (desc : MessageDescriptor) (data : List UInt8) (rs : List Record)
    (st : ScanState) : Prop where
  members : List.Forall₂ (Scans desc) rs st.members
  trail : Trail data rs st.members st.at_
  bitmap : st.requiredFieldsBitmap = requiredBitmap desc rs
  unknown : st.nUnknown = unknownCount desc rs
  slots_length : st.slots.length = desc.fields.length
  slots : ∀ i field, desc.fields[i]? = some field → st.slots[i]? = some (countedSlot desc rs i field)
  lastField : ∀ p, st.lastField = some p → desc.fields[p.1]? = some p.2 ∧ st.lastFieldIndex = p.1
  slabs : ∃ full cur, SlabsFilled st full cur ∧ cur.addr ≠ none

/-- What is left of the input when records have been scanned one after the other. -/
inductive Reaches (desc : MessageDescriptor) : List UInt8 → List UInt8 → Prop
  | refl (data : List UInt8) : Reaches desc data data
  | step {data rest rest' : List UInt8} {r : Record} (hne : data ≠ [])
      (hnext : nextRecord data = some (r, rest)) (hcount : Countable desc r)
      (hrest : Reaches desc rest rest') : Reaches desc data rest'

/-- The member describes a range of the bytes behind its pointer. -/
def ScannedMember.Inside (tmp : ScannedMember) : Prop :=
  tmp.len ≤ tmp.data.length ∧ tmp.lengthPrefixLen ≤ tmp.len

/-- The member is stored in a round that starts with `at_`. -/
structure StoredAt (desc : MessageDescriptor) (at_ : List UInt8) (tmp : ScannedMember) : Prop where
  field : tmp.field = desc.field? tmp.tag
  suffix : tmp.data <:+ at_
  inside : tmp.Inside ↔ ¬ Wrapped at_

/-- The input is no sequence of countable records. -/
def Unscannable (desc : MessageDescriptor) (data : List UInt8) : Prop :=
  ∀ rs, tokenize data = some rs → ∃ r ∈ rs, ¬ Countable desc r

/-! ## Slab lemmas -/

variable {H}

theorem length_slabsFull {full : List Slab} (h : SlabsFull full) :
    (full.flatMap Slab.members).length + 16 = 16 * 2 ^ full.length := by
  induction full using List.reverseRecOn with
  | nil => rfl
  | append_singleton full cur ih =>
    have hfull : SlabsFull full := by
      intro i slab hi
      apply h i slab
      rw [List.getElem?_append_left (List.getElem?_eq_some_iff.mp hi).1]
      exact hi
    have hcur : cur.members.length = 1 <<< (full.length + 4) := h full.length cur (by simp)
    have := ih hfull
    rw [List.flatMap_append, List.length_append, List.length_append, List.length_singleton,
      List.flatMap_singleton, hcur, Nat.one_shiftLeft, pow_add, pow_succ]
    omega

theorem SlabsFilled.length_members {st : ScanState} {full : List Slab} {cur : Slab}
    (h : SlabsFilled st full cur) :
    st.members.length + 16 = 16 * 2 ^ st.whichSlab + st.inSlabIndex := by
  have := length_slabsFull h.sizes
  rw [ScanState.members, h.slabs, List.flatMap_append, List.length_append, List.flatMap_singleton,
    h.index]
  rw [h.which] at this
  omega

theorem slabBlocks_append {slabs : List Slab} (hne : slabs ≠ []) (slab : Slab) :
    slabBlocks H (slabs ++ [slab]) =
      (if H.tmpAlloc.isSome then 0 else blockOf slab.addr) + slabBlocks H slabs := by
  obtain ⟨s, ss, rfl⟩ := List.exists_cons_of_ne_nil hne
  unfold slabBlocks
  split_ifs
  · rfl
  · simp [add_comm]

theorem slabBlocks_congr {full : List Slab} {cur cur' : Slab} (h : cur'.addr = cur.addr) :
    slabBlocks H (full ++ [cur']) = slabBlocks H (full ++ [cur]) := by
  unfold slabBlocks
  cases full with
  | nil => rfl
  | cons s full => simp [h]

theorem SlabsOwned.congr {full : List Slab} {cur cur' : Slab} (h : cur'.addr = cur.addr)
    (ho : SlabsOwned H (full ++ [cur])) : SlabsOwned H (full ++ [cur']) := by
  intro htmp slab hslab
  cases full with
  | nil => simp at hslab
  | cons s full =>
    simp only [List.cons_append, List.drop_succ_cons, List.drop_zero, List.mem_append,
      List.mem_singleton] at hslab
    rcases hslab with hslab | rfl
    · exact ho htmp slab (by simp [hslab])
    · rw [h]
      exact ho htmp cur (by simp)

theorem SlabsOwned.append {slabs : List Slab} {slab : Slab} (hne : slabs ≠ [])
    (ho : SlabsOwned H slabs) (hslab : H.tmpAlloc = none → IsBlock slab.addr) :
    SlabsOwned H (slabs ++ [slab]) := by
  obtain ⟨s, ss, rfl⟩ := List.exists_cons_of_ne_nil hne
  intro htmp t ht
  simp only [List.cons_append, List.drop_succ_cons, List.drop_zero, List.mem_append,
    List.mem_singleton] at ht
  rcases ht with ht | rfl
  · exact ho htmp t (by simpa using ht)
  · exact hslab htmp

theorem frees_freeSlabs {slabs : List Slab} (ho : SlabsOwned H slabs) :
    Frees H (freeSlabs H.toAllocator slabs) (slabBlocks H slabs) := by
  unfold freeSlabs slabBlocks
  cases htmp : H.tmpAlloc with
  | some f => simpa using frees_pure
  | none => simpa using frees_freeLoop (H := H) (fun v _ => rfl) (ho htmp)

/-! ## One slab more -/

theorem meets_allocSlab {ub : Fault → Prop} {s : σ} {L : Multiset ℕ} (size : ℕ)
    (hlive : H.live s = L) :
    Meets ub (allocSlab H.toAllocator size) s fun r s' =>
      match r with
      | some dst => H.live s' = (if H.tmpAlloc.isSome then 0 else blockOf dst) + L ∧
          H.failures s' = H.failures s ∧ (H.tmpAlloc = none → IsBlock dst) ∧
            (dst = none → size = 0 ∨ ¬ TmpReliable H)
      | none => H.live s' = L ∧ AllocFailed H s s' ∧ H.tmpAlloc = none := by
  unfold allocSlab
  cases htmp : H.tmpAlloc with
  | some f =>
    obtain ⟨hl, hf⟩ := H.tmp_some htmp (n := size) (s := s) rfl
    simp only [Meets]
    refine ⟨?_, hf, by simp, ?_⟩
    · simpa [hlive] using hl
    · intro hnone
      refine .inr fun hrel => hrel f htmp size s ?_
      simpa using hnone
  | none =>
    refine (meets_doAlloc H size).imp ?_
    rintro (_ | dst) s' h
    · exact ⟨h.1.trans hlive, h.2, rfl⟩
    · obtain ⟨hl, hf, hnull, hblock⟩ := h
      refine ⟨?_, hf, fun _ a ha => hblock a ha, fun hd => .inl (hnull.mp hd)⟩
      simpa [hlive] using hl

/-- After the slab check there is room for one member in the last slab. -/
theorem meets_reserveSlab {P : Prop} {st : ScanState} {full : List Slab} {cur : Slab} {s : σ}
    {L : Multiset ℕ} (hst : SlabsFilled st full cur) (ho : SlabsOwned H st.slabs)
    (hlive : H.live s = slabBlocks H st.slabs + L) (hP : P → st.whichSlab + 4 < 32) :
    Meets (Excused P) (reserveSlab H.toAllocator st) s fun r s' =>
      SlabsOwned H r.1.slabs ∧ H.live s' = slabBlocks H r.1.slabs + L ∧
        (r.2 = true → H.failures s' = H.failures s ∧
          r.1 = { st with slabs := r.1.slabs, whichSlab := r.1.whichSlab,
                          inSlabIndex := r.1.inSlabIndex } ∧
          r.1.members = st.members ∧ ∃ full' cur', SlabsFilled r.1 full' cur' ∧
            r.1.inSlabIndex < 1 <<< (r.1.whichSlab + 4) ∧
              (cur'.addr = none → cur.addr = none ∨ ¬ TmpReliable H)) ∧
        (r.2 = false → AllocFailed H s s' ∧ r.1.members = st.members) := by
  unfold reserveSlab
  rw [meets_ite]
  refine ⟨fun h => ⟨.inr rfl, fun hp => absurd (hP hp) (by omega)⟩, fun hwhich => ?_⟩
  rw [meets_ite]
  refine ⟨fun hfull => ?_, fun hroom => ?_⟩
  · rw [if_neg (show ¬ st.whichSlab = maxScannedMemberSlab by
      intro hmax
      rw [hmax] at hwhich
      exact hwhich (by decide))]
    rw [meets_bind]
    refine (meets_allocSlab _ hlive).imp ?_
    have hne : st.slabs ≠ [] := by rw [hst.slabs]; simp
    rintro (_ | dst) s' h
    · -- the allocation failed: a NULL slab at the end
      obtain ⟨hl, hf, htmp⟩ := h
      simp only [Option.getD_none, Option.isSome_none, meets_pure]
      refine ⟨ho.append hne fun _ => isBlock_none, ?_, by simp, fun _ => ⟨hf, ?_⟩⟩
      · rw [slabBlocks_append hne, hl]
        simp
      · simp [ScanState.members]
    · obtain ⟨hl, hf, hblock, hnull⟩ := h
      simp only [Option.getD_some, Option.isSome_some, meets_pure]
      refine ⟨ho.append hne hblock, ?_, fun _ => ⟨hf, trivial, ?_, st.slabs, ⟨dst, []⟩, ?_, ?_, ?_⟩,
        by simp⟩
      · rw [slabBlocks_append hne, hl, add_assoc]
      · simp [ScanState.members]
      · refine ⟨rfl, ?_, ?_, rfl, Nat.zero_le _⟩
        · rw [hst.slabs, List.length_append, List.length_singleton, hst.which]
        · rw [hst.slabs]
          intro i slab hi
          by_cases hlt : i < full.length
          · rw [List.getElem?_append_left hlt] at hi
            exact hst.sizes i slab hi
          · rw [List.getElem?_append_right (by omega), List.getElem?_singleton] at hi
            split_ifs at hi with h0
            simp only [Option.some.injEq] at hi
            subst hi
            rw [hst.index, hfull, ← hst.which, show i = full.length by omega]
      · show 0 < 1 <<< _
        rw [Nat.one_shiftLeft]
        exact Nat.two_pow_pos _
      · intro hd
        refine .inr ((hnull hd).resolve_left ?_)
        rw [Nat.shiftLeft_eq]
        exact Nat.mul_ne_zero (by norm_num) (Nat.two_pow_pos _).ne'
  · refine ⟨ho, hlive, fun _ => ⟨rfl, rfl, rfl, full, cur, hst, ?_, .inl⟩, by simp⟩
    show st.inSlabIndex < 1 <<< (st.whichSlab + 4)
    exact lt_of_le_of_ne hst.room hroom

/-! ## Keeping a member -/

theorem storeMember_eq {tmp : ScannedMember} {st : ScanState} {full : List Slab} {cur : Slab}
    (hst : SlabsFilled st full cur) {addr : Addr} (haddr : cur.addr = some addr) :
    storeMember tmp st = .ok { st with
      slabs := full ++ [⟨some addr, cur.members ++ [tmp]⟩]
      inSlabIndex := st.inSlabIndex + 1 } := by
  obtain ⟨a, members⟩ := cur
  simp only at haddr
  subst haddr
  have hget : st.slabs[st.whichSlab]? = some ⟨some addr, members⟩ := by
    rw [hst.slabs, ← hst.which, List.getElem?_append_right le_rfl]
    simp
  have hset : ∀ slab, st.slabs.set st.whichSlab slab = full ++ [slab] := by
    intro slab
    rw [hst.slabs, ← hst.which, List.set_append_right _ _ le_rfl]
    simp
  have htake : members.take st.inSlabIndex = members := by
    rw [← hst.index, List.take_length]
  unfold storeMember
  simp only [hget, hset, htake]

theorem storeMember_null {tmp : ScannedMember} {st : ScanState} {full : List Slab} {cur : Slab}
    (hst : SlabsFilled st full cur) (haddr : cur.addr = none) :
    storeMember tmp st = .error .access := by
  obtain ⟨a, members⟩ := cur
  simp only at haddr
  subst haddr
  have hget : st.slabs[st.whichSlab]? = some ⟨none, members⟩ := by
    rw [hst.slabs, ← hst.which, List.getElem?_append_right le_rfl]
    simp
  unfold storeMember
  simp only [hget]

theorem meets_keepMember {P : Prop} {tmp : ScannedMember} {st : ScanState} {full : List Slab}
    {cur : Slab} {s : σ} {L : Multiset ℕ} (hst : SlabsFilled st full cur) (hcur : cur.addr ≠ none)
    (ho : SlabsOwned H st.slabs) (hlive : H.live s = slabBlocks H st.slabs + L)
    (hP : P → st.whichSlab + 4 < 32 ∧ TmpReliable H)
    (herror : ∀ e, countMember tmp st.slots = .error e → e = .access ∧ ¬ P) :
    Meets (Excused P) (keepMember H.toAllocator tmp st) s fun r s' =>
      SlabsOwned H r.1.slabs ∧ H.live s' = slabBlocks H r.1.slabs + L ∧
        (r.2 = true → H.failures s' = H.failures s ∧ ∃ slots,
          countMember tmp st.slots = .ok (some slots) ∧
          r.1 = { st with slabs := r.1.slabs, whichSlab := r.1.whichSlab,
                          inSlabIndex := r.1.inSlabIndex, slots := slots,
                          at_ := st.at_.drop tmp.len } ∧
          r.1.members = st.members ++ [tmp] ∧
          ∃ full' cur', SlabsFilled r.1 full' cur' ∧ cur'.addr ≠ none) ∧
        (r.2 = false → AllocFailed H s s' ∨ countMember tmp st.slots = .ok none) ∧
        (r.1.members = st.members ++ [tmp] ∨ r.1.members = st.members ∧ AllocFailed H s s') := by
  unfold keepMember
  rw [meets_bind]
  refine (meets_reserveSlab hst ho hlive fun hp => (hP hp).1).imp ?_
  rintro ⟨st₁, ok⟩ s₁ ⟨ho₁, hlive₁, htrue, hfalse⟩
  cases ok with
  | false =>
    obtain ⟨hfail, hmem⟩ := hfalse rfl
    simp only [if_true, meets_pure]
    exact ⟨ho₁, hlive₁, by simp, fun _ => .inl hfail, .inr ⟨hmem, hfail⟩⟩
  | true =>
    obtain ⟨hfail, heq, hmem, full', cur', hst₁, hroom, hnull⟩ := htrue rfl
    simp only at ho₁ hlive₁ heq hmem hst₁ hroom
    simp only [Bool.true_eq_false, if_false, meets_bind]
    have hslots : st₁.slots = st.slots := by rw [heq]
    cases haddr : cur'.addr with
    | none =>
      rw [storeMember_null hst₁ haddr, meets_require]
      refine ⟨fun e he => ?_, by simp⟩
      simp only [Except.error.injEq] at he
      subst he
      exact ⟨.inl rfl, fun hp => (hnull haddr).elim hcur fun h => h (hP hp).2⟩
    | some addr =>
      rw [storeMember_eq hst₁ haddr, meets_require]
      refine ⟨by simp, ?_⟩
      rintro st₂ hst₂
      simp only [Except.ok.injEq] at hst₂
      have hslots₂ : st₂.slots = st.slots := by rw [← hst₂, hslots]
      have hslabs : st₂.slabs = full' ++ [⟨some addr, cur'.members ++ [tmp]⟩] := by rw [← hst₂]
      have ho₂ : SlabsOwned H st₂.slabs := by
        rw [hslabs]
        rw [hst₁.slabs] at ho₁
        exact ho₁.congr haddr.symm
      have hlive₂ : H.live s₁ = slabBlocks H st₂.slabs + L := by
        have hblocks : slabBlocks H (full' ++ [⟨some addr, cur'.members ++ [tmp]⟩]) =
            slabBlocks H (full' ++ [cur']) := slabBlocks_congr haddr.symm
        rw [hlive₁, hslabs, hst₁.slabs, hblocks]
      rw [meets_require, hslots₂]
      refine ⟨fun e he => ⟨.inl (herror e he).1, (herror e he).2⟩, ?_⟩
      have hmem₂ : st₂.members = st.members ++ [tmp] := by
        rw [ScanState.members, hslabs, ← hmem, ScanState.members, hst₁.slabs]
        simp
      rintro (_ | slots) hcount
      · exact ⟨ho₂, hlive₂, by simp, fun _ => .inr hcount, .inl hmem₂⟩
      · refine ⟨ho₂, hlive₂, fun _ => ⟨hfail, slots, hcount, ?_, hmem₂, full',
          ⟨some addr, cur'.members ++ [tmp]⟩, ?_, ?_⟩, by simp, .inl hmem₂⟩
        · rw [← hst₂, heq]
        · refine ⟨hslabs, ?_, hst₁.sizes, ?_, ?_⟩
          · rw [hst₁.which, ← hst₂]
          · rw [List.length_append, hst₁.index, ← hst₂]
            rfl
          · rw [← hst₂]
            exact hroom
        · simp

/-! ## The lookup -/

section Lookup
variable {desc : MessageDescriptor} {tag : UInt32} {st : ScanState}

theorem searchField_eq (hg : desc.Generated) :
    searchField desc tag st = .ok (match desc.field? tag with
      | none => (none, { st with nUnknown := st.nUnknown + 1 })
      | some p => (some p, { st with lastField := some p, lastFieldIndex := p.1 })) := by
  unfold searchField MessageDescriptor.field?
  rw [hg.intRangeLookup_eq]
  cases hi : desc.fieldIndex tag with
  | none => rfl
  | some i =>
    obtain ⟨f, hf, -⟩ := hg.fieldIndex_eq.mp hi
    have hlt : i < 2 ^ 31 := lt_of_lt_of_le (List.getElem?_eq_some_iff.mp hf).1 hg.length_lt.le
    have hint : (Int32.ofNat i).toInt = i := Int32.toInt_ofNat_of_lt hlt
    have hneg : ¬ Int32.ofNat i < 0 := by
      rw [Int32.lt_iff_toInt_lt, hint]
      simp
    have hnat : (Int32.ofNat i).toNatClampNeg = i := Int32.toNatClampNeg_ofNat_of_lt hlt
    simp [hneg, hnat, hf]

theorem lookupField_eq (hg : desc.Generated) (tag : UInt32)
    (hlast : ∀ p, st.lastField = some p → desc.fields[p.1]? = some p.2 ∧ st.lastFieldIndex = p.1) :
    ∃ st', lookupField desc tag st = .ok (desc.field? tag, st') ∧
      st' = { st with lastField := st'.lastField, lastFieldIndex := st'.lastFieldIndex,
                      nUnknown := st.nUnknown + if (desc.field? tag).isNone then 1 else 0 } ∧
      (∀ p, st'.lastField = some p → desc.fields[p.1]? = some p.2 ∧ st'.lastFieldIndex = p.1) ∧
      ∀ p, desc.field? tag = some p → st'.lastFieldIndex = p.1 := by
  have hsearch : ∃ st', searchField desc tag st = .ok (desc.field? tag, st') ∧
      st' = { st with lastField := st'.lastField, lastFieldIndex := st'.lastFieldIndex,
                      nUnknown := st.nUnknown + if (desc.field? tag).isNone then 1 else 0 } ∧
      (∀ p, st'.lastField = some p → desc.fields[p.1]? = some p.2 ∧ st'.lastFieldIndex = p.1) ∧
      ∀ p, desc.field? tag = some p → st'.lastFieldIndex = p.1 := by
    rw [searchField_eq hg]
    cases hf : desc.field? tag with
    | none => exact ⟨_, rfl, by simp, hlast, by simp⟩
    | some p =>
      obtain ⟨i, field⟩ := p
      refine ⟨_, rfl, by simp, ?_, by simp⟩
      rintro q hq
      simp only [Option.some.injEq] at hq
      subst hq
      exact ⟨(hg.field?_eq_some.mp hf).1, rfl⟩
  unfold lookupField
  cases hl : st.lastField with
  | none => exact hsearch
  | some last =>
    by_cases hid : last.2.id = tag
    · -- the last field found again
      have hf : desc.field? tag = some last := hg.field?_eq_some.mpr ⟨(hlast last hl).1, hid⟩
      refine ⟨st, by simp [hid, hf], by simp [hf], hlast, ?_⟩
      intro p hp
      rw [hf, Option.some.injEq] at hp
      rw [← hp]
      exact (hlast last hl).2
    · simpa [hid] using hsearch

/-- Whatever the last field was, the lookup returns and leaves the slabs alone. -/
theorem lookupField_total (hg : desc.Generated) (tag : UInt32) (st : ScanState) :
    ∃ r, lookupField desc tag st = .ok r ∧ r.2.slabs = st.slabs := by
  have hsearch : ∃ r, searchField desc tag st = .ok r ∧ r.2.slabs = st.slabs := by
    rw [searchField_eq hg]
    cases desc.field? tag <;> exact ⟨_, rfl, rfl⟩
  unfold lookupField
  cases st.lastField with
  | none => exact hsearch
  | some last =>
    by_cases hid : last.2.id = tag
    · exact ⟨(some last, st), by simp [hid], rfl⟩
    · simpa [hid] using hsearch

theorem markRequired_eq {field : Option (ℕ × FieldDescriptor)}
    (hindex : ∀ p, field = some p → st.lastFieldIndex = p.1) {r : Record}
    (hfield : field = desc.field? r.tag) :
    markRequired field st =
      { st with requiredFieldsBitmap := bitmapStep desc st.requiredFieldsBitmap r } := by
  unfold markRequired bitmapStep
  rw [← hfield]
  cases field with
  | none => rfl
  | some p =>
    obtain ⟨i, f⟩ := p
    have hi := hindex (i, f) rfl
    simp only at hi ⊢
    split_ifs
    · rw [hi]
    · rfl

theorem markRequired_slabs (field : Option (ℕ × FieldDescriptor)) (st : ScanState) :
    (markRequired field st).slabs = st.slabs := by
  unfold markRequired
  split
  · split_ifs <;> rfl
  · rfl

end Lookup

/-! ## Counting the elements of a member -/

section Count
variable {desc : MessageDescriptor} {r : Record} {tmp : ScannedMember} {slots : List Slot}

theorem sizeSub_of_le {a b : ℕ} (h : b ≤ a) (ha : a < 2 ^ 64) : sizeSub a b = a - b := by
  unfold sizeSub
  omega

theorem unsignedSub_of_le {a b : ℕ} (h : b ≤ a) (ha : a < 2 ^ 32) : unsignedSub a b = a - b := by
  unfold unsignedSub
  omega

theorem Scans.readBody (hs : Scans desc r tmp) :
    readBytes (tmp.len - tmp.lengthPrefixLen) (tmp.data.drop tmp.lengthPrefixLen) = .ok r.body ∧
      tmp.len - tmp.lengthPrefixLen = r.body.length := by
  have hle : tmp.lengthPrefixLen ≤ tmp.len := by
    rw [hs.prefixLen, hs.len]
    exact hs.prefixLen_le
  have hbody : (tmp.data.drop tmp.lengthPrefixLen).take (tmp.len - tmp.lengthPrefixLen) =
      r.body := by
    rw [← List.drop_take, hs.data, Record.body, hs.prefixLen]
  have hlen := hs.len_le
  constructor
  · rw [readBytes, if_pos (by rw [List.length_drop]; omega), hbody]
  · rw [Record.body, List.length_drop, hs.prefixLen, hs.len]

theorem countElements_eq (hs : Scans desc r tmp) (field : FieldDescriptor) :
    countElements tmp field = .ok (recordCount field r) := by
  obtain ⟨hread, hlen⟩ := hs.readBody
  have hle : tmp.lengthPrefixLen ≤ tmp.len := by
    rw [hs.prefixLen, hs.len]
    exact hs.prefixLen_le
  unfold countElements recordCount
  rw [hs.wireType, sizeSub_of_le hle (lt_trans hs.len_lt (by norm_num))]
  split_ifs
  · unfold countPackedElements packedCount
    rw [hread, hlen]
    cases field.type <;> rfl
  · rfl

/-- The only fault is a bad access. -/
def OnlyAccess {α : Type} (x : Except Fault α) : Prop := ∀ e, x = .error e → e = .access

theorem onlyAccess_ok {α : Type} (a : α) : OnlyAccess (.ok a : Except Fault α) := by
  intro e he
  exact absurd he (by simp)

theorem onlyAccess_error {α : Type} : OnlyAccess (.error .access : Except Fault α) := by
  intro e he
  exact (Except.error.inj he).symm

theorem OnlyAccess.bind {α β : Type} {x : Except Fault α} {f : α → Except Fault β}
    (hx : OnlyAccess x) (hf : ∀ a, OnlyAccess (f a)) : OnlyAccess (x >>= f) := by
  intro e he
  cases x with
  | error e' =>
    rw [except_error_bind] at he
    exact hx e (by rw [Except.error.inj he])
  | ok a =>
    rw [except_ok_bind] at he
    exact hf a e he

theorem onlyAccess_readBytes (n : ℕ) (data : List UInt8) : OnlyAccess (readBytes n data) := by
  unfold readBytes
  split_ifs
  · exact onlyAccess_ok _
  · exact onlyAccess_error

theorem onlyAccess_addCount (i count : ℕ) : OnlyAccess (addCount slots i count) := by
  unfold addCount
  split
  · exact onlyAccess_ok _
  · exact onlyAccess_error

theorem onlyAccess_countElements (field : FieldDescriptor) :
    OnlyAccess (countElements tmp field) := by
  unfold countElements countPackedElements
  split_ifs
  all_goals first
    | exact onlyAccess_ok _
    | split
  all_goals first
    | exact onlyAccess_ok _
    | exact (onlyAccess_readBytes _ _).bind fun a => onlyAccess_ok _

theorem onlyAccess_countMember : OnlyAccess (countMember tmp slots) := by
  unfold countMember
  split
  · split_ifs
    · refine (onlyAccess_countElements _).bind fun o => ?_
      cases o with
      | none => exact onlyAccess_ok _
      | some count => exact (onlyAccess_addCount _ _).bind fun a => onlyAccess_ok _
    · exact onlyAccess_ok _
  · exact onlyAccess_ok _

theorem elementCount_append (desc : MessageDescriptor) (i : ℕ) (rs rs' : List Record) :
    elementCount desc i (rs ++ rs') = elementCount desc i rs + elementCount desc i rs' := by
  rw [elementCount, List.map_append, List.sum_append, elementCount, elementCount]

@[simp] theorem elementCount_singleton (desc : MessageDescriptor) (i : ℕ) (r : Record) :
    elementCount desc i [r] = countAt desc i r := by
  simp [elementCount]

theorem countMember_unrepeated (hg : desc.Generated) (hfield : tmp.field = desc.field? tmp.tag)
    (hlabel : ∀ f ∈ desc.fields, f.label ≠ .repeated) :
    countMember tmp slots = .ok (some slots) := by
  unfold countMember
  rw [hfield]
  cases hf : desc.field? tmp.tag with
  | none => rfl
  | some p =>
    obtain ⟨i, field⟩ := p
    have hmem := List.mem_of_getElem? (hg.field?_eq_some.mp hf).1
    simp only [hlabel field hmem, if_false]

/-- The count of the record is added to its field, and to no other. -/
theorem countMember_eq (hg : desc.Generated) {rs : List Record}
    (hlen : slots.length = desc.fields.length)
    (hslots : ∀ i field, desc.fields[i]? = some field →
      slots[i]? = some (countedSlot desc rs i field)) (hs : Scans desc r tmp) :
    (Countable desc r ∧ ∃ slots', countMember tmp slots = .ok (some slots') ∧
      slots'.length = desc.fields.length ∧ ∀ i field, desc.fields[i]? = some field →
        slots'[i]? = some (countedSlot desc (rs ++ [r]) i field)) ∨
    (¬ Countable desc r ∧ countMember tmp slots = .ok none) := by
  have hsame : (∀ i, countAt desc i r = 0) → ∀ i field, desc.fields[i]? = some field →
      slots[i]? = some (countedSlot desc (rs ++ [r]) i field) := by
    intro hzero i field hf
    rw [hslots i field hf, countedSlot, countedSlot, elementCount_append, elementCount_singleton,
      hzero, Nat.add_zero]
  unfold countMember
  rw [hs.field]
  cases hf : desc.field? r.tag with
  | none =>
    refine .inl ⟨by simp [Countable, hf], slots, rfl, hlen, hsame fun i => ?_⟩
    simp [countAt, hf]
  | some p =>
    obtain ⟨j, field⟩ := p
    obtain ⟨hj, -⟩ := hg.field?_eq_some.mp hf
    by_cases hl : field.label = .repeated
    · have hslot : slots[j]? = some (.repeated ⟨elementCount desc j rs, none, 0, []⟩) := by
        rw [hslots j field hj, countedSlot, if_pos hl]
      simp only [hl, if_true, countElements_eq hs, except_ok_bind]
      cases hc : recordCount field r with
      | none => exact .inr ⟨fun h => h j field hf hl hc, rfl⟩
      | some count =>
        refine .inl ⟨?_, slots.set j (.repeated ⟨elementCount desc j rs + count, none, 0, []⟩), ?_,
          by rw [List.length_set, hlen], ?_⟩
        · intro i field' hf' _
          rw [hf, Option.some.injEq, Prod.mk.injEq] at hf'
          rw [← hf'.2, hc]
          simp
        · simp [addCount, hslot]
        · intro i field' hi
          by_cases hij : j = i
          · subst hij
            rw [hj, Option.some.injEq] at hi
            subst hi
            have hlt : j < slots.length := (List.getElem?_eq_some_iff.mp hslot).1
            rw [List.getElem?_set_self hlt, countedSlot, if_pos hl, elementCount_append,
              elementCount_singleton]
            simp [countAt, hf, hl, hc]
          · rw [List.getElem?_set_ne hij, hslots i field' hi, countedSlot, countedSlot,
              elementCount_append, elementCount_singleton]
            simp [countAt, hf, hij]
    · simp only [hl, if_false]
      refine .inl ⟨?_, slots, rfl, hlen, hsame fun i => ?_⟩
      · intro i field' hf' hl'
        rw [hf, Option.some.injEq, Prod.mk.injEq] at hf'
        exact absurd (hf'.2 ▸ hl') hl
      · simp [countAt, hf, hl]

end Count

/-! ## One round -/

section Round
variable {desc : MessageDescriptor} {st : ScanState} {data : List UInt8} {rs : List Record} {s : σ}
  {L : Multiset ℕ} {P : Prop}

theorem prefixLen_take {wire : WireType} {tag : UInt32} {data : List UInt8} {len : ℕ}
    (hlen : payloadLength wire data = some len) :
    Record.prefixLen ⟨tag, wire, data.take len⟩ = scannedPrefixLen wire data := by
  unfold Record.prefixLen scannedPrefixLen
  cases wire with
  | lengthPrefixed =>
    simp only [payloadLength] at hlen
    cases hi : findLastDigit 5 data with
    | none => simp [hi] at hlen
    | some i =>
      simp only [hi] at hlen
      split_ifs at hlen
      simp only [Option.some.injEq] at hlen
      simp only [findLastDigit_take hi (show i < len by omega)]
  | _ => rfl

theorem Scanned.takeTag_eq (hg : desc.Generated) (hst : Scanned desc data rs st) (used : ℕ)
    (r : Record) :
    ∃ st', takeTag desc used r.tag st = .ok (desc.field? r.tag, st') ∧
      st'.at_ = st.at_.drop used ∧ st'.slabs = st.slabs ∧ st'.whichSlab = st.whichSlab ∧
      st'.inSlabIndex = st.inSlabIndex ∧ st'.slots = st.slots ∧
      st'.requiredFieldsBitmap = requiredBitmap desc (rs ++ [r]) ∧
      st'.nUnknown = unknownCount desc (rs ++ [r]) ∧
      ∀ p, st'.lastField = some p → desc.fields[p.1]? = some p.2 ∧ st'.lastFieldIndex = p.1 := by
  obtain ⟨st₁, hlookup, heq, hlast, hindex⟩ := lookupField_eq hg r.tag hst.lastField
  unfold takeTag
  rw [hlookup, except_ok_bind, markRequired_eq hindex rfl]
  have hbitmap : bitmapStep desc st₁.requiredFieldsBitmap r = requiredBitmap desc (rs ++ [r]) := by
    rw [heq, requiredBitmap, List.foldl_append, ← requiredBitmap, ← hst.bitmap]
    rfl
  have hunknown : st₁.nUnknown = unknownCount desc (rs ++ [r]) := by
    rw [heq, unknownCount, List.countP_append, ← unknownCount, ← hst.unknown]
    simp [List.countP_cons]
  refine ⟨_, rfl, ?_, ?_, ?_, ?_, ?_, hbitmap, hunknown, hlast⟩ <;> rw [heq]

/-- What one round of the scanning loop does to the members. -/
def Stores (H : HeapAllocator σ) (desc : MessageDescriptor) (st st' : ScanState) (s s' : σ) : Prop :=
  (st'.members = st.members ∧ (Wrapped st.at_ → AllocFailed H s s')) ∨
    ∃ tmp, st'.members = st.members ++ [tmp] ∧ StoredAt desc st.at_ tmp

/-- One round of the scanning loop: a record is taken off, or the round fails. -/
theorem meets_scanMember (hg : desc.Generated) (hst : Scanned desc data rs st) (hne : st.at_ ≠ [])
    (ho : SlabsOwned H st.slabs) (hlive : H.live s = slabBlocks H st.slabs + L)
    (hP : P → TmpReliable H ∧ 2 * rs.length + st.at_.length < 2 ^ 32 ∧
      (Wrapped st.at_ → ∀ f ∈ desc.fields, f.label ≠ .repeated)) :
    Meets (Excused P) (scanMember H.toAllocator desc st) s fun r s' =>
      SlabsOwned H r.1.slabs ∧ H.live s' = slabBlocks H r.1.slabs + L ∧
        Stores H desc st r.1 s s' ∧
        (r.2 = true → H.failures s' = H.failures s ∧
          ((¬ Wrapped st.at_ ∧ ∃ rec, nextRecord st.at_ = some (rec, r.1.at_) ∧
              Countable desc rec ∧ Scanned desc data (rs ++ [rec]) r.1) ∨
            (Wrapped st.at_ ∧ r.1.at_ ≠ [] ∧ r.1.at_.length < st.at_.length ∧ Doomed r.1.at_))) ∧
        (r.2 = false → AllocFailed H s s' ∨ nextRecord st.at_ = none ∨
          (∃ rec rest, nextRecord st.at_ = some (rec, rest) ∧ ¬ Countable desc rec) ∨
            2 ^ 32 ≤ st.at_.length) := by
  obtain ⟨full, cur, hfilled, hcur⟩ := hst.slabs
  have hwhich : P → st.whichSlab + 4 < 32 := by
    intro hp
    have hcount := hfilled.length_members
    rw [← hst.members.length_eq] at hcount
    by_contra hge
    have hpow : (2 : ℕ) ^ 28 ≤ 2 ^ st.whichSlab := Nat.pow_le_pow_right (by norm_num) (by omega)
    have := (hP hp).2.1
    omega
  unfold scanMember
  cases hp : parseTagAndWiretype st.at_ with
  | none =>
    have hplain : ¬ Wrapped st.at_ := by
      rintro ⟨used, tag, hp', -⟩
      rw [hp] at hp'
      exact absurd hp' (by simp)
    exact ⟨ho, hlive, .inl ⟨rfl, fun h => absurd h hplain⟩, by simp,
      fun _ => .inr (.inl (by simp [nextRecord, hp]))⟩
  | some p =>
    obtain ⟨used, tag, wire⟩ := p
    obtain ⟨hused, -, husedle⟩ := parseTagAndWiretype_used hne hp
    have hwrapped : Wrapped st.at_ ↔ wire = .lengthPrefixed ∧ WrappedPrefix (st.at_.drop used) := by
      constructor
      · rintro ⟨used', tag', hp', hw⟩
        rw [hp, Option.some.injEq] at hp'
        simp only [Prod.mk.injEq] at hp'
        obtain ⟨rfl, rfl, rfl⟩ := hp'
        exact ⟨rfl, hw⟩
      · rintro ⟨rfl, hw⟩
        exact ⟨used, tag, hp, hw⟩
    rcases scanPayload_cases wire (st.at_.drop used) with
      ⟨hplain, hnone, hfail⟩ | ⟨hplain, len, hscan, hlen, hlt, hprefix⟩ |
      ⟨rfl, hwrap, len, h1, h4, hscan⟩
    · -- no complete payload
      rw [← hwrapped] at hplain
      obtain ⟨st₂, htake, hat, hslabs, -⟩ := hst.takeTag_eq hg used ⟨tag, wire, []⟩
      simp only [htake, require_ok, pure_bind, hat, hnone]
      refine ⟨by rw [hslabs]; exact ho, by rw [hslabs]; exact hlive,
        .inl ⟨by rw [ScanState.members, hslabs, ScanState.members], fun h => absurd h hplain⟩,
        by simp, fun _ => ?_⟩
      rcases hfail with hfail | hlong
      · exact .inr (.inl (by simp [nextRecord, hp, hfail]))
      · refine .inr (.inr (.inr ?_))
        rw [List.length_drop] at hlong
        omega
    · -- the next record
      rw [← hwrapped] at hplain
      set rec : Record := ⟨tag, wire, (st.at_.drop used).take len⟩ with hrec
      have hnext : nextRecord st.at_ = some (rec, (st.at_.drop used).drop len) := by
        simp [nextRecord, hp, hlen, hrec]
      obtain ⟨st₂, htake, hat, hslabs, hwhich₂, hindex₂, hslots₂, hbitmap, hunknown, hlast⟩ :=
        hst.takeTag_eq hg used rec
      obtain ⟨hpos, hle⟩ := payloadLength_pos hlen
      have hpre : Record.prefixLen rec = scannedPrefixLen wire (st.at_.drop used) :=
        prefixLen_take hlen
      have hpaylen : rec.payload.length = len := by
        rw [hrec, List.length_take]
        omega
      set tmp : ScannedMember := ⟨tag, wire, scannedPrefixLen wire (st.at_.drop used),
        desc.field? tag, len, st.at_.drop used⟩ with htmp
      have hscans : Scans desc rec tmp :=
        ⟨rfl, rfl, rfl, hpaylen.symm, rfl, hle, hlt, hpre.symm, by rw [hpre, hpaylen]; exact hprefix,
          nextRecord_wellFormed hnext⟩
      have hstored : StoredAt desc st.at_ tmp :=
        ⟨rfl, List.drop_suffix _ _, iff_of_true ⟨hle, hprefix⟩ hplain⟩
      have htake' : takeTag desc used tag st = .ok (desc.field? tag, st₂) := htake
      simp only [htake', require_ok, pure_bind, hat, hscan]
      have hfilled₂ : SlabsFilled st₂ full cur :=
        ⟨by rw [hslabs, hfilled.slabs], by rw [hwhich₂, hfilled.which], hfilled.sizes,
          by rw [hindex₂, hfilled.index], by rw [hindex₂, hwhich₂]; exact hfilled.room⟩
      have hcount := countMember_eq hg hst.slots_length hst.slots hscans
      rw [← hslots₂] at hcount
      have herror : ∀ e, countMember tmp st₂.slots = .error e → e = .access ∧ ¬ P := by
        intro e he
        rcases hcount with ⟨-, slots', hc, -⟩ | ⟨-, hc⟩
        · rw [hc] at he
          exact absurd he (by simp)
        · rw [hc] at he
          exact absurd he (by simp)
      have hbefore : st₂.members = st.members := by
        rw [ScanState.members, hslabs, ScanState.members]
      refine (meets_keepMember hfilled₂ hcur (by rw [hslabs]; exact ho)
        (by rw [hslabs]; exact hlive)
        (fun hp' => ⟨by rw [hwhich₂]; exact hwhich hp', (hP hp').1⟩) herror).imp ?_
      rintro ⟨st₃, ok⟩ s' ⟨ho₃, hlive₃, htrue, hfalse, hmem₃⟩
      refine ⟨ho₃, hlive₃, ?_, fun hok => ?_, fun hok => ?_⟩
      · rw [hbefore] at hmem₃
        rcases hmem₃ with hmem₃ | ⟨hmem₃, -⟩
        · exact .inr ⟨tmp, hmem₃, hstored⟩
        · exact .inl ⟨hmem₃, fun h => absurd h hplain⟩
      · obtain ⟨hfail, slots', hc, heq, hmem, hfilled₃⟩ := htrue hok
        simp only at heq hmem hfilled₃
        rcases hcount with ⟨hcountable, slots'', hc', hlen', hget⟩ | ⟨-, hc'⟩
        · rw [hc', Except.ok.injEq, Option.some.injEq] at hc
          subst hc
          have hat₃ : st₃.at_ = (st.at_.drop used).drop len := by rw [heq, hat]
          refine ⟨hfail, .inl ⟨hplain, rec, by rw [hnext, hat₃], hcountable, ?_, ?_, ?_, ?_, ?_, ?_,
            ?_, hfilled₃⟩⟩
          · rw [hmem, hbefore]
            exact List.rel_append hst.members (.cons hscans .nil)
          · rw [hmem, hbefore, hat₃]
            exact hst.trail.next hne hnext (List.take_append_drop _ _).symm
          all_goals rw [heq]
          · exact hbitmap
          · exact hunknown
          · exact hlen'
          · exact hget
          · exact hlast
        · rw [hc'] at hc
          exact absurd hc (by simp)
      · rcases hfalse hok with hfail | hc
        · exact .inl hfail
        · rcases hcount with ⟨-, slots', hc', -⟩ | ⟨h, -⟩
          · rw [hc'] at hc
            exact absurd hc (by simp)
          · exact .inr (.inr (.inl ⟨rec, _, hnext, h⟩))
    · -- a wrapped prefix
      have hw : Wrapped st.at_ := ⟨used, tag, hp, hwrap⟩
      obtain ⟨st₂, htake, hat, hslabs, hwhich₂, hindex₂, -⟩ :=
        hst.takeTag_eq hg used ⟨tag, .lengthPrefixed, []⟩
      simp only [htake, require_ok, pure_bind, hat, hscan]
      have hfilled₂ : SlabsFilled st₂ full cur :=
        ⟨by rw [hslabs, hfilled.slabs], by rw [hwhich₂, hfilled.which], hfilled.sizes,
          by rw [hindex₂, hfilled.index], by rw [hindex₂, hwhich₂]; exact hfilled.room⟩
      have hbefore : st₂.members = st.members := by
        rw [ScanState.members, hslabs, ScanState.members]
      set tmp : ScannedMember := ⟨tag, .lengthPrefixed, 5, desc.field? tag, len, st.at_.drop used⟩
        with htmp
      have hstored : StoredAt desc st.at_ tmp := by
        refine ⟨rfl, List.drop_suffix _ _, iff_of_false ?_ (not_not.mpr hw)⟩
        rintro ⟨-, hprefix⟩
        rw [htmp] at hprefix
        simp only at hprefix
        omega
      have herror : ∀ e, countMember tmp st₂.slots = .error e → e = .access ∧ ¬ P := by
        intro e he
        refine ⟨onlyAccess_countMember e he, fun hp' => ?_⟩
        rw [countMember_unrepeated hg rfl ((hP hp').2.2 hw)] at he
        exact absurd he (by simp)
      refine (meets_keepMember hfilled₂ hcur (by rw [hslabs]; exact ho)
        (by rw [hslabs]; exact hlive)
        (fun hp' => ⟨by rw [hwhich₂]; exact hwhich hp', (hP hp').1⟩) herror).imp ?_
      rintro ⟨st₃, ok⟩ s' ⟨ho₃, hlive₃, htrue, hfalse, hmem₃⟩
      refine ⟨ho₃, hlive₃, ?_, fun hok => ?_, fun _ => ?_⟩
      · rw [hbefore] at hmem₃
        rcases hmem₃ with hmem₃ | ⟨hmem₃, hfail⟩
        · exact .inr ⟨tmp, hmem₃, hstored⟩
        · exact .inl ⟨hmem₃, fun _ => hfail⟩
      · obtain ⟨hfail, slots', -, heq, -⟩ := htrue hok
        simp only at heq
        have hat₃ : st₃.at_ = (st.at_.drop used).drop len := by rw [heq, hat]
        have hlong : 5 ≤ (st.at_.drop used).length := by
          obtain ⟨-, -, b₀, b₁, b₂, b₃, b₄, rest, hdata, -⟩ := hwrap.digits
          rw [hdata]
          simp
        rw [List.length_drop] at hlong
        refine ⟨hfail, .inr ⟨hw, ?_, ?_, ?_⟩⟩
        · intro hnil
          have := congrArg List.length hnil
          simp only [hat₃, List.length_drop, List.length_nil] at this
          omega
        · simp only [hat₃, List.length_drop]
          omega
        · simp only [hat₃]
          exact hwrap.doomed h1 h4
      · by_cases hlen : st.at_.length < 2 ^ 32
        · exact .inr (.inl (hw.nextRecord_eq_none hlen))
        · exact .inr (.inr (.inr (by omega)))

/-! ## The loop -/

/-- Behind a wrapped prefix the loop fails, and stores nothing more. -/
theorem meets_scanLoop_doomed (hg : desc.Generated) {fuel : ℕ} (hne : st.at_ ≠ [])
    (hfuel : st.at_.length ≤ fuel) (hdoom : Doomed st.at_) (ho : SlabsOwned H st.slabs)
    (hlive : H.live s = slabBlocks H st.slabs + L) :
    Meets NoFault (scanLoop H.toAllocator desc fuel st) s fun r s' =>
      r.2 = false ∧ SlabsOwned H r.1.slabs ∧ H.live s' = slabBlocks H r.1.slabs + L ∧
        r.1.members = st.members ∧ H.failures s' = H.failures s := by
  have hempty : st.at_.isEmpty = false := by simpa using hne
  cases fuel with
  | zero => exact absurd (List.length_eq_zero_iff.mp (Nat.le_zero.mp hfuel)) hne
  | succ fuel =>
    rw [scanLoop, hempty]
    simp only [Bool.false_eq_true, if_false]
    unfold scanMember
    cases hp : parseTagAndWiretype st.at_ with
    | none => exact ⟨rfl, ho, hlive, rfl, rfl⟩
    | some p =>
      obtain ⟨used, tag, wire⟩ := p
      obtain rfl := hdoom used tag wire hp
      obtain ⟨r, hlookup, hslabs⟩ := lookupField_total hg tag st
      have htake : ∃ r', takeTag desc used tag st = .ok r' ∧ r'.2.slabs = st.slabs := by
        unfold takeTag
        rw [hlookup, except_ok_bind]
        exact ⟨_, rfl, by rw [← hslabs]; exact markRequired_slabs r.1 r.2⟩
      obtain ⟨r', htake, hslabs'⟩ := htake
      simp only [htake, require_ok, pure_bind, scanPayload, Bool.false_eq_true, if_false]
      refine ⟨rfl, ?_, ?_, ?_, rfl⟩
      · rw [hslabs']
        exact ho
      · rw [hslabs']
        exact hlive
      · rw [ScanState.members, hslabs', ScanState.members]

theorem scanLoop_done {fuel : ℕ} (hnil : st.at_ = []) :
    scanLoop H.toAllocator desc fuel st = pure (st, true) := by
  cases fuel <;> simp [scanLoop, hnil]

/-- What the scanning loop does to the members: each new one has the field that its tag names and
points into the input, and all describe ranges of it exactly when no wrapped prefix is met. -/
def StoresAll (H : HeapAllocator σ) (desc : MessageDescriptor) (st st' : ScanState) (s s' : σ) :
    Prop :=
  ∃ ms, st'.members = st.members ++ ms ∧
    (∀ tmp ∈ ms, tmp.field = desc.field? tmp.tag ∧ tmp.data <:+ st.at_) ∧
    ((∀ rest, Reaches desc st.at_ rest → ¬ Wrapped rest) → ∀ tmp ∈ ms, tmp.Inside) ∧
    ((∀ tmp ∈ ms, tmp.Inside) → AllocFailed H s s' ∨ 2 ^ 32 ≤ st.at_.length ∨
      ∀ rest, Reaches desc st.at_ rest → ¬ Wrapped rest)

theorem parseTagAndWiretype_nil : parseTagAndWiretype [] = some (1, 0, .varint) := by decide

theorem nextRecord_nil : nextRecord [] = none := by decide

/-- Where no record is taken off, only the input itself is reached. -/
theorem Reaches.eq_of_stuck {data rest : List UInt8} (h : Reaches desc data rest)
    (hstuck : ∀ r rest', nextRecord data = some (r, rest') → ¬ Countable desc r) : rest = data := by
  cases h with
  | refl => rfl
  | step _ hnext hcount _ => exact absurd hcount (hstuck _ _ hnext)

theorem reaches_stuck {at_ : List UInt8} (h : nextRecord at_ = none ∨
      (∃ rec rest, nextRecord at_ = some (rec, rest) ∧ ¬ Countable desc rec)) :
    ∀ rest, Reaches desc at_ rest → rest = at_ := by
  intro rest hrest
  refine hrest.eq_of_stuck fun r rest' hnext => ?_
  rcases h with hnone | ⟨rec, rest'', hsome, hcount⟩
  · rw [hnone] at hnext
    exact absurd hnext (by simp)
  · rw [hsome, Option.some.injEq, Prod.mk.injEq] at hnext
    exact hnext.1 ▸ hcount

theorem Stores.congr {st₁ st₂ : ScanState} {s₁ s₂ : σ} (h : Stores H desc st st₁ s s₁)
    (hmem : st₂.members = st₁.members) (hfail : H.failures s₂ = H.failures s₁) :
    Stores H desc st st₂ s s₂ := by
  unfold Stores AllocFailed at *
  rw [hmem, hfail]
  exact h

theorem Stores.all {st' : ScanState} {s' : σ} (h : Stores H desc st st' s s')
    (hstuck : AllocFailed H s s' ∨ (∀ rest, Reaches desc st.at_ rest → rest = st.at_) ∨
      2 ^ 32 ≤ st.at_.length) :
    StoresAll H desc st st' s s' := by
  have hall : ¬ Wrapped st.at_ →
      AllocFailed H s s' ∨ 2 ^ 32 ≤ st.at_.length ∨
        ∀ rest, Reaches desc st.at_ rest → ¬ Wrapped rest := by
    intro hw
    rcases hstuck with hfail | hstuck | hlong
    · exact .inl hfail
    · refine .inr (.inr fun rest hrest => ?_)
      rw [hstuck rest hrest]
      exact hw
    · exact .inr (.inl hlong)
  rcases h with ⟨hmem, hfail⟩ | ⟨tmp, hmem, hstored⟩
  · refine ⟨[], by rw [hmem, List.append_nil], by simp, by simp, fun _ => ?_⟩
    by_cases hw : Wrapped st.at_
    · exact .inl (hfail hw)
    · exact hall hw
  · refine ⟨[tmp], hmem, ?_, fun hreach => ?_, fun hin => ?_⟩
    · intro t ht
      rw [List.mem_singleton.mp ht]
      exact ⟨hstored.field, hstored.suffix⟩
    · intro t ht
      rw [List.mem_singleton.mp ht]
      exact hstored.inside.mpr (hreach _ (.refl _))
    · exact hall (hstored.inside.mp (hin tmp (by simp)))

theorem Stores.trans {st₁ st₂ : ScanState} {s₁ s₂ : σ} (h : Stores H desc st st₁ s s₁)
    (hplain : ¬ Wrapped st.at_) {rec : Record} (hne : st.at_ ≠ [])
    (hnext : nextRecord st.at_ = some (rec, st₁.at_)) (hcount : Countable desc rec)
    (hfail : H.failures s₁ = H.failures s) (h₂ : StoresAll H desc st₁ st₂ s₁ s₂) :
    StoresAll H desc st st₂ s s₂ := by
  obtain ⟨ms, hms, hfield, hinside, hreach⟩ := h₂
  have hsuffix : st₁.at_ <:+ st.at_ := by
    obtain ⟨used, len, -, -, -, hrest⟩ := nextRecord_eq_some.mp hnext
    rw [hrest]
    exact (List.drop_suffix _ _).trans (List.drop_suffix _ _)
  have hfield' : ∀ tmp ∈ ms, tmp.field = desc.field? tmp.tag ∧ tmp.data <:+ st.at_ :=
    fun tmp htmp => ⟨(hfield tmp htmp).1, (hfield tmp htmp).2.trans hsuffix⟩
  have hforward : (∀ rest, Reaches desc st₁.at_ rest → ¬ Wrapped rest) →
      ∀ rest, Reaches desc st.at_ rest → ¬ Wrapped rest := by
    intro hall rest hrest
    cases hrest with
    | refl => exact hplain
    | step _ hnext' _ hrest' =>
      rw [hnext, Option.some.injEq, Prod.mk.injEq] at hnext'
      obtain ⟨-, rfl⟩ := hnext'
      exact hall rest hrest'
  have hback : (∀ rest, Reaches desc st.at_ rest → ¬ Wrapped rest) →
      ∀ rest, Reaches desc st₁.at_ rest → ¬ Wrapped rest :=
    fun hall rest hrest => hall rest (.step hne hnext hcount hrest)
  have hlong : 2 ^ 32 ≤ st₁.at_.length → 2 ^ 32 ≤ st.at_.length := by
    have := nextRecord_length hne hnext
    omega
  rcases h with ⟨hmem, -⟩ | ⟨tmp, hmem, hstored⟩
  · exact ⟨ms, by rw [hms, hmem], hfield', fun hall => hinside (hback hall),
      fun hin => (hreach hin).imp (·.of_eq hfail) (·.imp hlong hforward)⟩
  · refine ⟨tmp :: ms, by rw [hms, hmem, List.append_assoc, List.singleton_append], ?_, ?_, ?_⟩
    · intro t ht
      rcases List.mem_cons.mp ht with rfl | ht
      · exact ⟨hstored.field, hstored.suffix⟩
      · exact hfield' t ht
    · intro hall t ht
      rcases List.mem_cons.mp ht with rfl | ht
      · exact hstored.inside.mpr hplain
      · exact hinside (hback hall) t ht
    · intro hin
      exact (hreach fun t ht => hin t (by simp [ht])).imp (·.of_eq hfail) (·.imp hlong hforward)

/-- What the scanning loop does from the state `st` on: all records of the input are scanned, or the
input has no such records, or an allocation failed. -/
structure ScanResult (H : HeapAllocator σ) (desc : MessageDescriptor) (data : List UInt8)
    (rs : List Record) (st : ScanState) (L : Multiset ℕ) (s : σ) (r : ScanState × Bool) (s' : σ) :
    Prop where
  owned : SlabsOwned H r.1.slabs
  live : H.live s' = slabBlocks H r.1.slabs + L
  stores : StoresAll H desc st r.1 s s'
  ok : r.2 = true → H.failures s' = H.failures s ∧ ∃ rs', tokenize st.at_ = some rs' ∧
    (∀ rec ∈ rs', Countable desc rec) ∧ Scanned desc data (rs ++ rs') r.1 ∧ r.1.at_ = []
  fail : r.2 = false → AllocFailed H s s' ∨ Unscannable desc st.at_ ∨ 2 ^ 32 ≤ st.at_.length

theorem meets_scanLoop_done {fuel : ℕ} (hst : Scanned desc data rs st) (hnil : st.at_ = [])
    (ho : SlabsOwned H st.slabs) (hlive : H.live s = slabBlocks H st.slabs + L) :
    Meets (Excused P) (scanLoop H.toAllocator desc fuel st) s
      (ScanResult H desc data rs st L s) := by
  have hend : ∀ rest, Reaches desc st.at_ rest → ¬ Wrapped rest := by
    intro rest hrest
    rw [hnil] at hrest
    rw [hrest.eq_of_stuck fun r rest' hnext => absurd hnext (by simp [nextRecord_nil])]
    rintro ⟨used, tag, hp, -⟩
    rw [parseTagAndWiretype_nil] at hp
    exact absurd hp (by simp)
  rw [scanLoop_done hnil]
  refine ⟨ho, hlive, ⟨[], by simp, by simp, by simp, fun _ => .inr (.inr hend)⟩, fun _ => ?_, by simp⟩
  exact ⟨rfl, [], by rw [hnil, tokenize_nil], by simp, by simpa using hst, hnil⟩

theorem meets_scanLoop (hg : desc.Generated) {fuel : ℕ} (hfuel : st.at_.length ≤ fuel)
    (hst : Scanned desc data rs st) (ho : SlabsOwned H st.slabs)
    (hlive : H.live s = slabBlocks H st.slabs + L)
    (hP : P → TmpReliable H ∧ 2 * rs.length + st.at_.length < 2 ^ 32 ∧
      ∀ rest, Reaches desc st.at_ rest → Wrapped rest → ∀ f ∈ desc.fields, f.label ≠ .repeated) :
    Meets (Excused P) (scanLoop H.toAllocator desc fuel st) s
      (ScanResult H desc data rs st L s) := by
  induction fuel generalizing st rs s with
  | zero =>
    have hnil : st.at_ = [] := List.length_eq_zero_iff.mp (Nat.le_zero.mp hfuel)
    exact meets_scanLoop_done hst hnil ho hlive
  | succ fuel ih =>
    by_cases hnil : st.at_ = []
    · exact meets_scanLoop_done hst hnil ho hlive
    · have hempty : st.at_.isEmpty = false := by simpa using hnil
      rw [scanLoop, hempty]
      simp only [Bool.false_eq_true, if_false, meets_bind]
      refine (meets_scanMember hg hst hnil ho hlive fun hp =>
        ⟨(hP hp).1, (hP hp).2.1, (hP hp).2.2 _ (.refl _)⟩).imp ?_
      rintro ⟨st₁, ok⟩ s₁ ⟨ho₁, hlive₁, hstores, htrue, hfalse⟩
      cases ok with
      | false =>
        have hwhy := hfalse rfl
        refine ⟨ho₁, hlive₁, hstores.all ?_, by simp, fun _ => ?_⟩
        · rcases hwhy with hfail | hnone | hcount | hlong
          · exact .inl hfail
          · exact .inr (.inl (reaches_stuck (.inl hnone)))
          · exact .inr (.inl (reaches_stuck (.inr hcount)))
          · exact .inr (.inr hlong)
        · rcases hwhy with hfail | hnone | ⟨rec, rest, hnext, hcount⟩ | hlong
          · exact .inl hfail
          · refine .inr (.inl fun rs' hrs' => ?_)
            rw [tokenize_none hnil hnone] at hrs'
            exact absurd hrs' (by simp)
          · refine .inr (.inl fun rs' hrs' => ?_)
            rw [tokenize_cons hnil hnext] at hrs'
            obtain ⟨rs'', -, rfl⟩ := Option.map_eq_some_iff.mp hrs'
            exact ⟨rec, by simp, hcount⟩
          · exact .inr (.inr hlong)
      | true =>
        obtain ⟨hfail, ⟨hplain, rec, hnext, hcount, hst₁⟩ | ⟨hw, hne₁, hlt₁, hdoom⟩⟩ := htrue rfl
        · -- a record was taken off
          simp only at ho₁ hlive₁ hnext hst₁
          have hlen := nextRecord_length hnil hnext
          have hpay : 0 < rec.payload.length := (payloadLength_pos (nextRecord_wellFormed hnext)).1
          have hP₁ : P → TmpReliable H ∧ 2 * (rs ++ [rec]).length + st₁.at_.length < 2 ^ 32 ∧
              ∀ rest, Reaches desc st₁.at_ rest → Wrapped rest →
                ∀ f ∈ desc.fields, f.label ≠ .repeated := by
            intro hp
            obtain ⟨htmp, hsize, hreach⟩ := hP hp
            refine ⟨htmp, ?_, fun rest hrest => hreach rest (.step hnil hnext hcount hrest)⟩
            rw [List.length_append, List.length_singleton]
            omega
          refine (ih (by omega) hst₁ ho₁ hlive₁ hP₁).imp ?_
          rintro ⟨st₂, ok⟩ s₂ ⟨ho₂, hlive₂, hstores₂, htrue₂, hfalse₂⟩
          refine ⟨ho₂, hlive₂, hstores.trans hplain hnil hnext hcount hfail hstores₂, fun hok => ?_,
            fun hok => ?_⟩
          · obtain ⟨hfail₂, rs', hrs', hcount', hst₂, hend⟩ := htrue₂ hok
            refine ⟨hfail₂.trans hfail, rec :: rs', ?_, ?_, ?_, hend⟩
            · rw [tokenize_cons hnil hnext, hrs', Option.map_some]
            · intro r' hr'
              rcases List.mem_cons.mp hr' with rfl | hr'
              · exact hcount
              · exact hcount' r' hr'
            · rwa [List.append_assoc] at hst₂
          · rcases hfalse₂ hok with hfail₂ | hun | hlong
            · exact .inl (hfail₂.of_eq hfail)
            · refine .inr (.inl fun rs' hrs' => ?_)
              rw [tokenize_cons hnil hnext] at hrs'
              obtain ⟨rs'', hrs'', rfl⟩ := Option.map_eq_some_iff.mp hrs'
              obtain ⟨r', hr', hcount'⟩ := hun rs'' hrs''
              exact ⟨r', by simp [hr'], hcount'⟩
            · exact .inr (.inr (by omega))
        · -- behind a wrapped prefix
          simp only at hlt₁
          refine (meets_scanLoop_doomed hg hne₁ (by show st₁.at_.length ≤ fuel; omega) hdoom ho₁
            hlive₁).mono (fun _ => False.elim) ?_
          rintro ⟨st₂, ok⟩ s₂ ⟨rfl, ho₂, hlive₂, hmem₂, hfail₂⟩
          have hstores₂ : Stores H desc st st₂ s s₂ := hstores.congr hmem₂ hfail₂
          by_cases hlen : st.at_.length < 2 ^ 32
          · have hnone := hw.nextRecord_eq_none hlen
            refine ⟨ho₂, hlive₂, hstores₂.all (.inr (.inl (reaches_stuck (.inl hnone)))), by simp,
              fun _ => .inr (.inl fun rs' hrs' => ?_)⟩
            rw [tokenize_none hnil hnone] at hrs'
            exact absurd hrs' (by simp)
          · have hlong : 2 ^ 32 ≤ st.at_.length := by omega
            exact ⟨ho₂, hlive₂, hstores₂.all (.inr (.inr hlong)), by simp,
              fun _ => .inr (.inr hlong)⟩

theorem scanned_start (hg : desc.Generated) (data : List UInt8) :
    Scanned desc data [] (ScanState.start desc data) where
  members := .nil
  trail := .start
  bitmap := rfl
  unknown := rfl
  slots_length := by
    rw [ScanState.start, hg.initSlots_eq, List.length_map]
  slots := by
    intro i field hf
    have hslot : field.initSlot = countedSlot desc [] i field := by
      unfold countedSlot FieldDescriptor.initSlot
      cases field.label <;> rfl
    rw [← hslot]
    simp [ScanState.start, hg.initSlots_eq, hf]
  lastField := by
    intro p hp
    obtain ⟨field, hf, rfl⟩ := Option.map_eq_some_iff.mp hp
    exact ⟨by rw [← List.head?_eq_getElem?, hf], rfl⟩
  slabs := ⟨[], ⟨some (.static 0), []⟩, ⟨rfl, rfl, by simp [SlabsFull], rfl, Nat.zero_le _⟩,
    by simp⟩

end Round

end ProtobufC
