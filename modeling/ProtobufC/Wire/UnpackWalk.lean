import ProtobufC.Wire.MemberWalk

/-! # The decoder against the fold over records

`protobuf_c_message_unpack` returns what `decode` does, in blocks of its own, or NULL.  `Safe` is the
condition on the input under which this is total correctness: no length prefix that the decoder
meets, at any level, wraps around.
-/

namespace ProtobufC
open Library
set_option autoImplicit false

variable {σ : Type} {H : HeapAllocator σ} {S : Schema} {P : Prop} {s : σ} {L : Multiset ℕ}

/-! ## Allocation -/

section Allocation
variable {desc : MessageDescriptor} {field : FieldDescriptor} {rs : List Record}

theorem sizeofEltInRepeatedArray_pos (type : FieldType) : 0 < sizeofEltInRepeatedArray type := by
  cases type <;> simp [sizeofEltInRepeatedArray]

/-- The initialised member of a singular field is NULL or the default value. -/
theorem FieldDescriptor.Generated.initValue_held (hg : field.Generated) :
    (field.defaultValue.getD field.type.zero).Held field.type field.defaultPointer := by
  cases hv : field.defaultValue with
  | none =>
    rw [Option.getD_none]
    exact (field.type.zero_held _).1
  | some v =>
    refine ⟨(hg.default v hv).1, fun a ha => .inl ?_⟩
    rw [Option.getD_some] at ha
    rw [FieldDescriptor.defaultPointer, hv, Option.bind_some, ha]

theorem FieldDescriptor.Generated.initValue_static (hg : field.Generated) :
    (field.defaultValue.getD field.type.zero).erase = field.defaultValue.getD field.type.zero ∧
      (field.defaultValue.getD field.type.zero).ownedChildren = [] ∧
        (field.defaultValue.getD field.type.zero).blocks = 0 := by
  cases hv : field.defaultValue with
  | none =>
    rw [Option.getD_none]
    refine ⟨?_, (field.type.zero_held none).2.1, (field.type.zero_held none).2.2.1⟩
    cases field.type <;> simp [FieldType.zero]
  | some v =>
    obtain ⟨-, ⟨herase, hstatic⟩, -⟩ := hg.default v hv
    rw [Option.getD_some]
    exact ⟨herase, Value.ownedChildren_eq_nil hstatic, Value.blocks_eq_zero hstatic⟩

/-- What the allocation loop leaves in one member. -/
structure SlotReady (H : HeapAllocator σ) (P : Prop) (field : FieldDescriptor) (count : ℕ)
    (L : Multiset ℕ) (s : σ) (w : Slot × Bool) (s' : σ) (missing : Prop) : Prop where
  owned : SlotOwned field w.1
  children : w.1.ownedChildren = []
  live : H.live s' = w.1.blocks + L
  ok : w.2 = true → H.failures s' = H.failures s ∧ SlotTracks P count w.1 field.initSlot ∧ ¬ missing
  fail : w.2 = false → AllocFailed H s s' ∨ missing

/-- The field with index `f` is required, has no default value, and its bit reads as unset. -/
def MissingAt (bitmap : List UInt8) (f : ℕ) (field : FieldDescriptor) : Prop :=
  field.label = .required ∧ field.defaultValue.isNone ∧ notRequiredFieldBitmapIsSet bitmap f

theorem slotReady_init (hg : field.Generated) (hlabel : field.label ≠ .repeated) {count : ℕ}
    {missing : Prop} {ok : Bool} (hok : ok = true ↔ ¬ missing) (hlive : H.live s = L) :
    SlotReady H P field count L s (field.initSlot, ok) s missing := by
  have hinit : field.initSlot = .singular 0 (field.defaultValue.getD field.type.zero) := by
    unfold FieldDescriptor.initSlot
    cases hl : field.label with
    | repeated => exact absurd hl hlabel
    | required => rfl
    | optional => rfl
  obtain ⟨herase, hchildren, hblocks⟩ := hg.initValue_static
  rw [hinit]
  refine ⟨⟨hlabel, hg.initValue_held⟩, hchildren, ?_, fun h => ⟨rfl, ?_, hok.mp h⟩, fun h => ?_⟩
  · rw [Slot.blocks_singular, hblocks, hlive, zero_add]
  · rw [hinit]
    exact ⟨rfl, herase⟩
  · refine .inr (by_contra fun hm => ?_)
    rw [hok.mpr hm] at h
    exact absurd h (by simp)

theorem meets_allocateField (hg : field.Generated) {bitmap : List UInt8} {f : ℕ}
    (hcount : P → elementCount desc f rs < 2 ^ 32) (hlive : H.live s = L) :
    Meets NoFault (allocateField H.toAllocator bitmap f field (countedSlot desc rs f field)) s
      fun w s' => SlotReady H P field (elementCount desc f rs) L s w s'
        (MissingAt bitmap f field) := by
  unfold allocateField countedSlot
  cases hl : field.label with
  | repeated =>
    have hmissing : ¬ MissingAt bitmap f field := fun h => by
      rw [h.1] at hl
      exact absurd hl (by simp)
    have hinit : field.initSlot = .repeated .null := by
      unfold FieldDescriptor.initSlot
      rw [hl]
    simp only [if_true]
    rw [meets_ite]
    constructor
    · intro hne
      refine (meets_doAlloc H _).bind ?_
      rintro (_ | dst) s' h
      · -- out of memory: a NULL array
        refine ⟨⟨hl, rfl, isBlock_none, by simp⟩, rfl, ?_, by simp, fun _ => .inl h.2⟩
        simpa [hlive] using h.1
      · obtain ⟨hl', hfail, hnull, hblock⟩ := h
        refine ⟨⟨hl, rfl, fun a ha => hblock a ha, by simp⟩, rfl, ?_, fun _ => ⟨hfail, ?_, hmissing⟩,
          by simp⟩
        · simpa [hlive] using hl'
        · rw [hinit]
          refine arrayTracks_start (Nat.mod_le _ _) (fun hp => Nat.mod_eq_of_lt (hcount hp)) ?_
            fun a ha => hblock a ha
          rw [Option.getD_some, hnull, Nat.mul_eq_zero]
          have := sizeofEltInRepeatedArray_pos field.type
          omega
    · intro hzero
      have hz : elementCount desc f rs = 0 := by simpa using hzero
      rw [meets_pure, hz]
      refine ⟨⟨hl, rfl, isBlock_none, by simp⟩, rfl, by simpa using hlive,
        fun _ => ⟨rfl, ?_, hmissing⟩, by simp⟩
      rw [hinit]
      exact arrayTracks_start le_rfl (fun _ => rfl) (by simp) isBlock_none
  | required =>
    simp only [reduceCtorEq, if_false]
    rw [meets_ite]
    refine ⟨fun h => slotReady_init hg (by simp [hl]) ?_ hlive,
      fun h => slotReady_init hg (by simp [hl]) ?_ hlive⟩
    · simpa [MissingAt, hl] using h
    · simpa [MissingAt, hl] using h
  | optional =>
    simp only [reduceCtorEq, if_false]
    exact slotReady_init hg (by simp [hl]) (by simp [MissingAt, hl]) hlive

theorem clearRemainingNPtrs_owned {fields : List FieldDescriptor} (hg : ∀ f ∈ fields, f.Generated)
    {slots : List Slot} {k : ℕ} (hlen : slots.length = fields.length)
    (hslots : ∀ i field, fields[i]? = some field →
      slots[i]? = some (countedSlot desc rs (k + i) field)) :
    List.Forall₂ SlotOwned fields (clearRemainingNPtrs slots) ∧
      ((clearRemainingNPtrs slots).map Slot.blocks).sum = 0 ∧
        (clearRemainingNPtrs slots).flatMap Slot.ownedChildren = [] := by
  induction fields generalizing slots k with
  | nil =>
    obtain rfl : slots = [] := List.length_eq_zero_iff.mp hlen
    exact ⟨.nil, rfl, rfl⟩
  | cons field fields ih =>
    obtain ⟨sl, slots, rfl⟩ : ∃ sl slots', slots = sl :: slots' :=
      List.exists_cons_of_length_eq_add_one hlen
    have hsl : sl = countedSlot desc rs k field := by simpa using hslots 0 field rfl
    have hlen' : slots.length = fields.length := by simpa using hlen
    obtain ⟨hown, hsum, hnil⟩ := ih (fun f hf => hg f (by simp [hf])) (k := k + 1) hlen'
      fun i field' hi => by
        have := hslots (i + 1) field' (by simpa using hi)
        rw [show k + 1 + i = k + (i + 1) by omega]
        simpa using this
    have hgf := hg field (by simp)
    obtain ⟨herase, hchildren, hblocks⟩ := hgf.initValue_static
    -- the member of this field
    have hone : ∃ sl', clearRemainingNPtrs (sl :: slots) = sl' :: clearRemainingNPtrs slots ∧
        SlotOwned field sl' ∧ sl'.blocks = 0 ∧ sl'.ownedChildren = [] := by
      rw [hsl]
      unfold countedSlot FieldDescriptor.initSlot
      cases hl : field.label with
      | repeated =>
        exact ⟨_, rfl, ⟨hl, rfl, isBlock_none, by simp⟩, by simp, rfl⟩
      | required | optional =>
        exact ⟨_, rfl, ⟨by simp [hl], hgf.initValue_held⟩,
          (Slot.blocks_singular _ _).trans hblocks, hchildren⟩
    obtain ⟨sl', heq, hown', hblocks', hchildren'⟩ := hone
    rw [heq]
    refine ⟨.cons hown' hown, ?_, ?_⟩
    · rw [List.map_cons, List.sum_cons, hblocks', hsum, add_zero]
    · rw [List.flatMap_cons, hchildren', hnil, List.append_nil]

/-- The allocation loop: arrays for all announced elements, or a required field without a record, or
no memory. -/
theorem meets_allocateFields {bitmap : List UInt8} {fields : List FieldDescriptor}
    (hg : ∀ f ∈ fields, f.Generated) {slots : List Slot} {k : ℕ}
    (hlen : slots.length = fields.length)
    (hslots : ∀ i field, fields[i]? = some field →
      slots[i]? = some (countedSlot desc rs (k + i) field))
    (hcount : P → ∀ i, elementCount desc i rs < 2 ^ 32) (hlive : H.live s = L) :
    Meets NoFault (allocateFields H.toAllocator bitmap k fields slots) s fun w s' =>
      List.Forall₂ SlotOwned fields w.1 ∧ w.1.flatMap Slot.ownedChildren = [] ∧
        H.live s' = (w.1.map Slot.blocks).sum + L ∧
        (w.2 = true → H.failures s' = H.failures s ∧ missingRequired bitmap k fields = false ∧
          ∀ i field, fields[i]? = some field → ∃ sl, w.1[i]? = some sl ∧
            SlotTracks P (elementCount desc (k + i) rs) sl field.initSlot) ∧
        (w.2 = false → AllocFailed H s s' ∨ missingRequired bitmap k fields = true) := by
  induction fields generalizing slots k s L with
  | nil =>
    obtain rfl : slots = [] := List.length_eq_zero_iff.mp hlen
    rw [allocateFields, meets_pure]
    exact ⟨.nil, rfl, by simpa using hlive, fun _ => ⟨rfl, rfl, by simp⟩, by simp⟩
  | cons field fields ih =>
    obtain ⟨sl, slots, rfl⟩ : ∃ sl slots', slots = sl :: slots' :=
      List.exists_cons_of_length_eq_add_one hlen
    have hsl : sl = countedSlot desc rs k field := by simpa using hslots 0 field rfl
    have hlen' : slots.length = fields.length := by simpa using hlen
    have hslots' : ∀ i field', fields[i]? = some field' →
        slots[i]? = some (countedSlot desc rs (k + 1 + i) field') := by
      intro i field' hi
      have := hslots (i + 1) field' (by simpa using hi)
      rw [show k + 1 + i = k + (i + 1) by omega]
      simpa using this
    have hgs : ∀ f ∈ fields, f.Generated := fun f hf => hg f (by simp [hf])
    rw [allocateFields, hsl]
    refine (meets_allocateField (P := P) (hg field (by simp)) (fun hp => hcount hp k) hlive).bind ?_
    rintro ⟨sl', ok⟩ s₁ h
    cases ok with
    | false =>
      obtain ⟨hown, hsum, hnil⟩ := clearRemainingNPtrs_owned hgs hlen' hslots'
      simp only [Bool.false_eq_true, if_false, meets_pure]
      refine ⟨.cons h.owned hown, ?_, ?_, by simp, fun _ => ?_⟩
      · rw [List.flatMap_cons, hnil, List.append_nil]
        exact h.children
      · rw [List.map_cons, List.sum_cons, hsum, add_zero]
        exact h.live
      · refine (h.fail rfl).imp id fun hm => ?_
        rw [missingRequired, decide_eq_true_iff]
        exact .inl hm
    | true =>
      obtain ⟨hfail, htracks, hmissing⟩ := h.ok rfl
      simp only [if_true]
      refine (ih hgs (L := sl'.blocks + L) hlen' hslots' h.live).bind ?_
      rintro ⟨rest, ok⟩ s₂ ⟨hown, hnil, hlive₂, htrue, hfalse⟩
      refine ⟨.cons h.owned hown, ?_, ?_, fun hok => ?_, fun hbad => ?_⟩
      · rw [List.flatMap_cons, hnil, List.append_nil]
        exact h.children
      · rw [List.map_cons, List.sum_cons, hlive₂]
        abel
      · obtain ⟨hfail₂, hmissing₂, htracks₂⟩ := htrue hok
        refine ⟨hfail₂.trans hfail, ?_, ?_⟩
        · rw [missingRequired, decide_eq_false_iff_not]
          rintro (hm | hm)
          · exact hmissing hm
          · rw [hmissing₂] at hm
            exact absurd hm (by simp)
        · intro i field' hi
          cases i with
          | zero =>
            simp only [List.getElem?_cons_zero, Option.some.injEq] at hi
            subst hi
            exact ⟨sl', rfl, htracks⟩
          | succ i =>
            obtain ⟨sl₂, hsl₂, htr⟩ := htracks₂ i field' (by simpa using hi)
            rw [show k + (i + 1) = k + 1 + i by omega]
            exact ⟨sl₂, by simpa using hsl₂, htr⟩
      · rcases hfalse hbad with hwhy | hm
        · exact .inl (hwhy.of_eq hfail)
        · refine .inr ?_
          rw [missingRequired, decide_eq_true_iff]
          exact .inr hm

theorem meets_allocateUnknown {ub : Fault → Prop} (nUnknown : ℕ) (hlive : H.live s = L) :
    Meets ub (allocateUnknown H.toAllocator nUnknown) s fun w s' =>
      UnknownOwned w.1 ∧ H.live s' = unknownBlocks w.1 + L ∧
        (w.2 = true → H.failures s' = H.failures s ∧
          ArrayTracks MessageUnknownField.erase P nUnknown w.1 .null) ∧
        (w.2 = false → AllocFailed H s s') := by
  unfold allocateUnknown
  rw [meets_ite]
  constructor
  · intro hne
    refine (meets_doAlloc H _).bind ?_
    rintro (_ | dst) s' h
    · refine ⟨⟨rfl, isBlock_none, by simp⟩, ?_, by simp, fun _ => h.2⟩
      simpa [unknownBlocks, hlive] using h.1
    · obtain ⟨hl', hfail, hnull, hblock⟩ := h
      refine ⟨⟨rfl, fun a ha => hblock a ha, by simp⟩, ?_, fun _ => ⟨hfail, ?_⟩, by simp⟩
      · simpa [unknownBlocks, hlive] using hl'
      · refine arrayTracks_start le_rfl (fun _ => rfl) ?_ fun a ha => hblock a ha
        rw [Option.getD_some, hnull, Nat.mul_eq_zero]
        omega
  · intro hzero
    have hz : nUnknown = 0 := by simpa using hzero
    rw [meets_pure, hz]
    exact ⟨⟨rfl, isBlock_none, by simp [CArray.null]⟩, by simpa [unknownBlocks, CArray.null] using hlive,
      fun _ => ⟨rfl, arrayTracks_start le_rfl (fun _ => rfl) (by simp) isBlock_none⟩, by simp⟩

end Allocation

/-! ## Counts -/

theorem maxB128Numbers_le (data : List UInt8) : maxB128Numbers data ≤ data.length :=
  List.countP_le_length

/-- A record announces no more elements than its payload has bytes. -/
theorem countAt_le {desc : MessageDescriptor} {r : Record} (hwf : r.WellFormed) (i : ℕ) :
    countAt desc i r ≤ r.payload.length := by
  have hpos : 0 < r.payload.length := (payloadLength_pos hwf).1
  have hbody := length_body_le r
  unfold countAt
  cases hf : desc.field? r.tag with
  | none => exact Nat.zero_le _
  | some p =>
    obtain ⟨j, field⟩ := p
    simp only
    split_ifs
    · unfold recordCount
      split_ifs
      · have hmax := maxB128Numbers_le r.body
        unfold packedCount
        cases field.type <;> simp only
        case string | bytes | message => simp
        case int32 | sint32 | enum | uint32 | int64 | sint64 | uint64 =>
          rw [Option.getD_some]
          omega
        case bool =>
          rw [Option.getD_some]
          omega
        all_goals
          split_ifs
          · simp
          · rw [Option.getD_some]
            omega
      · rw [Option.getD_some]
        omega
    · exact Nat.zero_le _

theorem elementCount_le {desc : MessageDescriptor} {data : List UInt8} {rs : List Record}
    (h : tokenize data = some rs) (i : ℕ) : elementCount desc i rs ≤ data.length := by
  refine le_trans ?_ (tokenize_length h)
  unfold elementCount
  refine List.sum_le_sum fun r hr => ?_
  have : countAt desc i r ≤ r.payload.length := countAt_le (tokenize_wellFormed h r hr) i
  omega

/-! ## Failing steps -/

theorem foldRecords_append (dec : DescriptorId → List UInt8 → Option Message)
    (desc : MessageDescriptor) (m : Message) (rs rs' : List Record) :
    foldRecords dec desc m (rs ++ rs') =
      (foldRecords dec desc m rs).bind fun m' => foldRecords dec desc m' rs' := by
  rw [foldRecords, List.foldlM_append]
  rfl

theorem foldRecords_eq_none {dec : DescriptorId → List UInt8 → Option Message}
    {desc : MessageDescriptor} {rs : List Record} {r : Record} (hr : r ∈ rs)
    (hstep : ∀ m, messageStep dec desc m r = none) (m : Message) :
    foldRecords dec desc m rs = none := by
  obtain ⟨pre, post, rfl⟩ := List.append_of_mem hr
  rw [foldRecords_append]
  cases foldRecords dec desc m pre with
  | none => rfl
  | some m' => rw [Option.bind_some, foldRecords_cons, hstep, Option.bind_none]

theorem messageStep_not_countable {dec : DescriptorId → List UInt8 → Option Message}
    {desc : MessageDescriptor} {r : Record} (h : ¬ Countable desc r) (m : Message) :
    messageStep dec desc m r = none := by
  unfold Countable at h
  push Not at h
  obtain ⟨i, field, hf, hlabel, hcount⟩ := h
  have hpacked : isPackedRecord field r.wireType = true := by
    by_contra hp
    rw [recordCount, if_neg hp] at hcount
    exact absurd hcount (by simp)
  rw [recordCount, if_pos hpacked] at hcount
  have hslot : ∀ slot, slotStep dec field slot r = none := by
    intro slot
    rw [slotStep, if_pos hlabel, decodeElements, if_pos hpacked, decodePacked_none hcount,
      Option.map_none]
  simp only [messageStep, hf, hslot]
  cases m.slots[i]? <;> rfl

theorem Unscannable.decode_eq_none {d : DescriptorId} {data : List UInt8}
    (h : Unscannable (S.desc d) data) : decode S d data = none := by
  rw [Option.eq_none_iff_forall_not_mem]
  intro m hm
  obtain ⟨rs, hrs, -, hfold⟩ := decode_eq_some.mp hm
  obtain ⟨r, hr, hcount⟩ := h rs hrs
  rw [foldRecords_eq_none hr (messageStep_not_countable hcount)] at hfold
  exact absurd hfold (by simp)

/-! ## The whole function -/

/-- The records of the input lead the decoder to the body of `r`: all records can be counted, no
required field is missing, and the records before `r` could be decoded. -/
def Enters (S : Schema) (d : DescriptorId) (data : List UInt8) (field : FieldDescriptor)
    (r : Record) : Prop :=
  ∃ rs pre post m i, tokenize data = some rs ∧ (∀ r' ∈ rs, Countable (S.desc d) r') ∧
    (S.desc d).missing rs = false ∧ rs = pre ++ r :: post ∧
    foldRecords (decode S) (S.desc d) (S.initMessage d) pre = some m ∧
    (S.desc d).field? r.tag = some (i, field) ∧ field.type = .message ∧
    r.wireType = .lengthPrefixed

/-- No length prefix that the decoder meets wraps around, at any level. -/
inductive Safe (S : Schema) : DescriptorId → List UInt8 → Prop
  | intro (d : DescriptorId) (data : List UInt8)
      (here : ∀ rest, Reaches (S.desc d) data rest → ¬ Wrapped rest)
      (below : ∀ field r, Enters S d data field r → Safe S field.descriptor r.body) :
      Safe S d data

/-- What rules faults out: a `tmp_alloc` that does not fail, an input whose length fits 32 bits, and
no wrapped prefix. -/
def Benign (H : HeapAllocator σ) (S : Schema) (d : DescriptorId) (data : List UInt8) : Prop :=
  TmpReliable H ∧ data.length < 2 ^ 32 ∧ Safe S d data

section Layer
variable {d : DescriptorId} {data : List UInt8} {rs : List Record} {st : ScanState}
  {sub : DescriptorId → List UInt8 → Run σ MessagePtr}

theorem missing_eq (desc : MessageDescriptor) (rs : List Record) :
    desc.missing rs = missingRequired (requiredBitmap desc rs) 0 desc.fields := rfl

theorem meets_buildMessage (hst : Scanned (S.desc d) data rs st)
    (hcount : ∀ r ∈ rs, Countable (S.desc d) r) (hlive : H.live s = L)
    (hsize : P → ∀ i, elementCount (S.desc d) i rs < 2 ^ 32)
    (hsub : (S.desc d).missing rs = false → SubsUnpack H S P sub d (S.initMessage d) rs) :
    Meets (Excused P) (buildMessage H.toAllocator S sub d st) s fun w s' =>
      w.1.Owned S ∧ H.live s' = w.1.blocks + L ∧
        (w.2 = true → H.failures s' = H.failures s ∧ (S.desc d).missing rs = false ∧
          foldRecords (decode S) (S.desc d) (S.initMessage d) rs = some w.1.erase ∧ w.1.Filled) ∧
        (w.2 = false → AllocFailed H s s' ∨ (S.desc d).missing rs = true ∨
          foldRecords (decode S) (S.desc d) (S.initMessage d) rs = none ∨ ¬ P) := by
  have hgen := S.generated d
  have hchildless : ∀ {slots : List Slot} {u : CArray MessageUnknownField} {Q : Message → Prop},
      slots.flatMap Slot.ownedChildren = [] →
      ∀ c ∈ (Message.mk d slots u).ownedChildren, Q c := by
    intro slots u Q hnil c hc
    rw [Message.ownedChildren, Message.slots_mk, hnil] at hc
    exact absurd hc (by simp)
  unfold buildMessage
  refine ((meets_allocateFields (P := P) hgen.field hst.slots_length
    (fun i field hi => by rw [Nat.zero_add]; exact hst.slots i field hi) hsize hlive).mono
    (fun _ => False.elim) fun _ _ h => h).bind ?_
  rintro ⟨slots, ok⟩ s₁ ⟨hown, hnil, hlive₁, htrue, hfalse⟩
  rw [hst.bitmap, ← missing_eq] at htrue hfalse
  cases ok with
  | false =>
    simp only [if_true, meets_pure]
    refine ⟨⟨_, hown, ⟨rfl, isBlock_none, by simp [CArray.null]⟩, hchildless hnil⟩, ?_, by simp,
      fun _ => (hfalse rfl).imp id .inl⟩
    rw [hlive₁, Message.blocks_eq]
    simp [unknownBlocks, CArray.null]
  | true =>
    obtain ⟨hfail₁, hmissing, htracks⟩ := htrue rfl
    simp only [Bool.true_eq_false, if_false]
    refine (meets_allocateUnknown (P := P) st.nUnknown hlive₁).bind ?_
    rintro ⟨u, ok⟩ s₂ ⟨huown, hlive₂, hutrue, hufalse⟩
    have howned : (Message.mk d slots u).Owned S := ⟨_, hown, huown, hchildless hnil⟩
    have hlive₂' : H.live s₂ = (Message.mk d slots u).blocks + L := by
      rw [hlive₂, Message.blocks_eq]
      simp only [Message.slots_mk, Message.unknown_mk]
      abel
    cases ok with
    | false =>
      simp only [if_true, meets_pure]
      exact ⟨howned, hlive₂', by simp, fun _ => .inl ((hufalse rfl).of_eq hfail₁)⟩
    | true =>
      obtain ⟨hfail₂, hutracks⟩ := hutrue rfl
      obtain ⟨full, cur, hfilled, -⟩ := hst.slabs
      simp only [Bool.true_eq_false, if_false]
      have hmembers : (full ++ [cur]).flatMap Slab.members = st.members := by
        rw [ScanState.members, hfilled.slabs]
      have hsizes : ∀ i slab, full[i]? = some slab → slab.members.length = 1 <<< (0 + i + 4) := by
        intro i slab hi
        rw [Nat.zero_add]
        exact hfilled.sizes i slab hi
      have hwhich : 0 + full.length = st.whichSlab := by rw [Nat.zero_add, hfilled.which]
      rw [hfilled.slabs, parseSlabs_eq _ _ hsizes hfilled.index hwhich, hmembers]
      have hinit : (S.initMessage d).slots = (S.desc d).fields.map FieldDescriptor.initSlot :=
        hgen.initSlots_eq
      have ht : MessageTracks S P d rs (.mk d slots u) (S.initMessage d) := by
        refine ⟨rfl, rfl, by rw [hinit, List.length_map], ?_, ?_, howned, hchildless hnil⟩
        · intro i field hi
          obtain ⟨sl, hsl, htr⟩ := htracks i field hi
          rw [Nat.zero_add] at htr
          exact ⟨sl, field.initSlot, hsl, by rw [hinit, List.getElem?_map, hi, Option.map_some], htr⟩
        · rw [← hst.unknown]
          exact hutracks
      refine (meets_parseMembers hst.members hcount ht hlive₂' (hsub hmissing)).imp ?_
      rintro ⟨m, ok⟩ s₃ ⟨hmown, hlive₃, hmtrue, hmfalse⟩
      refine ⟨hmown, hlive₃, fun hok => ?_, fun hbad => ?_⟩
      · obtain ⟨hfail₃, m₁, hfold, htr⟩ := hmtrue hok
        refine ⟨hfail₃.trans (hfail₂.trans hfail₁), hmissing, ?_, htr.filled⟩
        rw [hfold]
        congr 1
        exact htr.erase_eq.symm
      · rcases hmfalse hbad with hwhy | hwhy
        · exact .inl (hwhy.of_eq (hfail₂.trans hfail₁))
        · exact .inr (.inr hwhy)

theorem meets_finishUnpack (hst : Scanned (S.desc d) data rs st) {b : ℕ}
    (hrs : tokenize data = some rs) (hcount : ∀ r ∈ rs, Countable (S.desc d) r)
    (ho : SlabsOwned H st.slabs) (hlive : H.live s = slabBlocks H st.slabs + ({b} + L))
    (hsize : P → ∀ i, elementCount (S.desc d) i rs < 2 ^ 32)
    (hsub : (S.desc d).missing rs = false → SubsUnpack H S P sub d (S.initMessage d) rs) :
    Meets (Excused P) (finishUnpack H.toAllocator S sub d (.block b) st) s fun p s' =>
      match p with
      | .null => H.live s' = L ∧ (AllocFailed H s s' ∨ decode S d data = none ∨ ¬ P)
      | .ref a m => a = .block b ∧ H.live s' = {b} + m.blocks + L ∧
          H.failures s' = H.failures s ∧ decode S d data = some m.erase ∧ m.Complete S := by
  unfold finishUnpack
  refine (meets_buildMessage (P := P) hst hcount hlive hsize hsub).bind ?_
  rintro ⟨m, ok⟩ s₁ ⟨hown, hlive₁, htrue, hfalse⟩
  have hslabs := frees_freeSlabs (H := H) ho
  cases ok with
  | true =>
    obtain ⟨hfail, hmissing, hfold, hfilled⟩ := htrue rfl
    simp only [if_true]
    refine ((hslabs s₁ ({b} + m.blocks + L) ?_).mono (fun _ => False.elim) fun _ _ h => h).bind ?_
    · rw [hlive₁]
      simp only
      abel
    · rintro - s₂ ⟨hlive₂, hfail₂⟩
      exact ⟨rfl, hlive₂, hfail₂.trans hfail, decode_eq_some.mpr ⟨rs, hrs, hmissing, hfold⟩, hown,
        hfilled⟩
  | false =>
    simp only [Bool.false_eq_true, if_false]
    refine ((frees_messageFreeUnpacked hown b s₁ (slabBlocks H st.slabs + L) ?_).mono
      (fun _ => False.elim) fun _ _ h => h).bind ?_
    · rw [hlive₁]
      simp only
      abel
    · rintro - s₂ ⟨hlive₂, hfail₂⟩
      refine ((hslabs s₂ L hlive₂).mono (fun _ => False.elim) fun _ _ h => h).bind ?_
      rintro - s₃ ⟨hlive₃, hfail₃⟩
      refine ⟨hlive₃, ?_⟩
      rcases hfalse rfl with hwhy | hwhy | hwhy | hwhy
      · refine .inl ⟨?_, hwhy.2⟩
        rw [hfail₃, hfail₂]
        exact hwhy.1
      · refine .inr (.inl ?_)
        rw [Option.eq_none_iff_forall_not_mem]
        intro m' hm'
        obtain ⟨rs', hrs', hmissing, -⟩ := decode_eq_some.mp hm'
        rw [hrs, Option.some.injEq] at hrs'
        rw [← hrs', hwhy] at hmissing
        exact absurd hmissing (by simp)
      · refine .inr (.inl ?_)
        rw [Option.eq_none_iff_forall_not_mem]
        intro m' hm'
        obtain ⟨rs', hrs', -, hfold⟩ := decode_eq_some.mp hm'
        rw [hrs, Option.some.injEq] at hrs'
        rw [← hrs', hwhy] at hfold
        exact absurd hfold (by simp)
      · exact .inr (.inr hwhy)

/-- One call of the decoder, given its calls on the bodies of records. -/
theorem meets_messageUnpackLayer (hP : P → Benign H S d data)
    (hsub : ∀ field r, Enters S d data field r → ∀ s, Meets (Excused P)
      (sub field.descriptor r.body) s (Unpacked H S P (decode S field.descriptor r.body) s)) :
    Meets (Excused P) (messageUnpackLayer H.toAllocator S sub d data) s
      (Unpacked H S P (decode S d data) s) := by
  have hgen := S.generated d
  unfold messageUnpackLayer
  refine (meets_doAlloc H _).bind ?_
  rintro (_ | _ | a) s₁ h
  · exact ⟨h.1, .inl h.2⟩
  · exact absurd (h.2.2.1.mp rfl) hgen.sizeof_pos.ne'
  · obtain ⟨hlive₁, hfail₁, -, hblock⟩ := h
    obtain ⟨b, rfl⟩ := hblock a rfl
    rw [blockOf_block] at hlive₁
    have hstart : slabBlocks H (ScanState.start (S.desc d) data).slabs = 0 := by
      simp [ScanState.start, slabBlocks]
    have hstartOwned : SlabsOwned H (ScanState.start (S.desc d) data).slabs := by
      intro _ slab hslab
      simp [ScanState.start] at hslab
    have hreach : P → ∀ rest, Reaches (S.desc d) data rest → ¬ Wrapped rest := by
      intro hp
      obtain ⟨-, -, hsafe⟩ := hP hp
      cases hsafe with
      | intro _ _ here _ => exact here
    refine (meets_scanLoop (P := P) hgen le_rfl (scanned_start hgen data) hstartOwned
      (L := {b} + H.live s) (by rw [hlive₁, hstart, zero_add]) fun hp =>
        ⟨(hP hp).1, by simpa [ScanState.start] using (hP hp).2.1,
          fun rest hrest hw => absurd hw (hreach hp rest hrest)⟩).bind ?_
    rintro ⟨st, ok⟩ s₂ ⟨ho, hlive₂, -, htrue, hfalse⟩
    cases ok with
    | false =>
      simp only [Bool.false_eq_true, if_false]
      refine (meets_freePtr H (p := some (.block b)) (by simp) (L := slabBlocks H st.slabs + H.live s)
        (by rw [hlive₂, blockOf_block]; simp only; abel)).bind ?_
      rintro - s₃ ⟨hlive₃, hfail₃⟩
      refine ((frees_freeSlabs (H := H) ho s₃ _ hlive₃).mono (fun _ => False.elim)
        fun _ _ h => h).bind ?_
      rintro - s₄ ⟨hlive₄, hfail₄⟩
      refine ⟨hlive₄, ?_⟩
      rcases hfalse rfl with hwhy | hwhy | hwhy
      · refine .inl ⟨?_, hwhy.2⟩
        rw [hfail₄, hfail₃, ← hfail₁]
        exact hwhy.1
      · exact .inr (.inl hwhy.decode_eq_none)
      · refine .inr (.inr fun hp => absurd (hP hp).2.1 (not_lt.mpr hwhy))
    | true =>
      obtain ⟨hfail₂, rs, hrs, hcount, hst, -⟩ := htrue rfl
      have hrs : tokenize data = some rs := hrs
      rw [List.nil_append] at hst
      simp only [if_true]
      refine (meets_finishUnpack (P := P) (L := H.live s) hst hrs hcount ho hlive₂ ?_ ?_).imp ?_
      · intro hp i
        exact (elementCount_le hrs i).trans_lt (hP hp).2.1
      · intro hmissing pre r post m hsplit hfold i field hf htype hw s'
        exact hsub field r ⟨rs, pre, post, m, i, hrs, hcount, hmissing, hsplit, hfold, hf, htype, hw⟩
          s'
      · rintro (_ | ⟨a, m⟩) s₃ h
        · obtain ⟨hlive₃, hwhy⟩ := h
          refine ⟨hlive₃, hwhy.imp (fun hwhy => ?_) id⟩
          exact hwhy.of_eq (hfail₂.trans hfail₁)
        · obtain ⟨rfl, hlive₃, hfail₃, hdec, hown⟩ := h
          exact ⟨b, rfl, hlive₃, hfail₃.trans (hfail₂.trans hfail₁), hdec, hown⟩

end Layer

/-- The body of a record that the decoder enters is shorter than the input. -/
theorem Enters.body_lt {d : DescriptorId} {data : List UInt8} {field : FieldDescriptor} {r : Record}
    (h : Enters S d data field r) : r.body.length < data.length := by
  obtain ⟨rs, pre, post, -, -, hrs, -, -, rfl, -⟩ := h
  exact tokenize_body_lt hrs (by simp)

theorem Benign.enters {d : DescriptorId} {data : List UInt8} (h : Benign H S d data)
    {field : FieldDescriptor} {r : Record} (he : Enters S d data field r) :
    Benign H S field.descriptor r.body := by
  obtain ⟨htmp, hlen, hsafe⟩ := h
  cases hsafe with
  | intro _ _ _ below => exact ⟨htmp, he.body_lt.trans hlen, below field r he⟩

/-- `protobuf_c_message_unpack` returns the message that the fold over the records yields, in blocks of
its own, or NULL; it ends in a fault at most where the input is not benign. -/
theorem messageUnpack_spec (H : HeapAllocator σ) (S : Schema) (d : DescriptorId) (data : List UInt8)
    (s : σ) :
    Meets (Excused (Benign H S d data)) (messageUnpack H.toAllocator S d data) s
      (Unpacked H S (Benign H S d data) (decode S d data) s) := by
  refine layerRec_spec (P := fun (p : DescriptorId × List UInt8) (x : Run σ MessagePtr) => ∀ s,
    Meets (Excused (Benign H S p.1 p.2)) x s
      (Unpacked H S (Benign H S p.1 p.2) (decode S p.1 p.2) s)) ?_ (d, data) s
  rintro ⟨d, data⟩ sub ih s
  refine meets_messageUnpackLayer id fun field r he s' => ?_
  refine (ih (field.descriptor, r.body) he.body_lt s').mono ?_ ?_
  · rintro e ⟨hfault, hbad⟩
    exact ⟨hfault, fun hp => hbad (hp.enters he)⟩
  · rintro (_ | ⟨a, m⟩) s'' h
    · obtain ⟨hlive, hwhy⟩ := h
      refine ⟨hlive, ?_⟩
      rcases hwhy with hwhy | hwhy | hwhy
      · exact .inl hwhy
      · exact .inr (.inl hwhy)
      · exact .inr (.inr fun hp => hwhy (hp.enters he))
    · exact h

/-! ## Bounds that make an input safe -/

/-- No length prefix in front of which the decoder can stand, at any level, reaches `bound`. -/
inductive PrefixesBelow (S : Schema) (bound : ℕ) : DescriptorId → List UInt8 → Prop
  | intro (d : DescriptorId) (data : List UInt8)
      (here : ∀ rest, Reaches (S.desc d) data rest → ∀ used tag i,
        parseTagAndWiretype rest = some (used, tag, .lengthPrefixed) →
        findLastDigit 5 (rest.drop used) = some i → prefixValue i (rest.drop used) < bound)
      (below : ∀ field r, Enters S d data field r →
        PrefixesBelow S bound field.descriptor r.body) :
      PrefixesBelow S bound d data

theorem PrefixesBelow.safe {bound : ℕ} (hbound : bound ≤ 2 ^ 32 - 4) {d : DescriptorId}
    {data : List UInt8} (h : PrefixesBelow S bound d data) : Safe S d data := by
  induction h with
  | intro d data here _ ih =>
    refine .intro d data (fun rest hrest hwrap => ?_) ih
    obtain ⟨used, tag, hp, hw⟩ := hwrap
    obtain ⟨hi, hlt, -⟩ := hw.digits
    have := here rest hrest used tag 4 hp hi
    omega

end ProtobufC
