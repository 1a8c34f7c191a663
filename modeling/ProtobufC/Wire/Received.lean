import ProtobufC.Wire.RoundTrip

/-! # What a decoded message holds

A member that was decoded comes from the records of its field: a singular one from the last of them, an
array from all.  So a decoded message can be packed again, and what is packed can be decoded
(`decode_packable`).
-/

namespace ProtobufC
open Library
set_option autoImplicit false

section
variable {dec : DescriptorId → List UInt8 → Option Message} {field : FieldDescriptor} {r : Record}
  {v : Value}

/-! ## One record -/

/-- A value that is no message does not depend on the decoder of the messages. -/
theorem decodeValue_of_ne_message (htype : field.type ≠ .message)
    (dec' : DescriptorId → List UInt8 → Option Message) {field' : FieldDescriptor}
    (hsame : field'.type = field.type) : decodeValue dec field r = decodeValue dec' field' r := by
  unfold decodeValue
  rw [hsame]
  generalize field.type = type at htype
  cases type <;> first
    | rfl
    | exact absurd rfl htype

theorem decodeValue_message (htype : field.type = .message) (h : decodeValue dec field r = some v) :
    ∃ c, dec field.descriptor r.body = some c ∧ v = .message (.ref (.block 0) c) := by
  unfold decodeValue at h
  simp only [htype] at h
  split_ifs at h
  obtain ⟨c, hc, rfl⟩ := Option.map_eq_some_iff.mp h
  exact ⟨c, hc, rfl⟩

/-- What was decoded can be packed. -/
theorem decodeValue_packable (h : decodeValue dec field r = some v) :
    Value.HasType field.type v ∧ v.Readable ∧ v.NonNull ∧ v ≠ .message .null := by
  have hscalar : ∀ {type wire data}, parseScalar type wire data = some v →
      Value.HasType type v ∧ v.Readable ∧ v.NonNull ∧ v ≠ .message .null := by
    intro type wire data hparse
    obtain ⟨hp, hv⟩ := parseScalar_spec hparse
    refine ⟨hv, ?_⟩
    cases v with
    | word32 w | word64 w | boolean b => exact ⟨trivial, trivial, by simp⟩
    | string p | bytes len p | message p =>
      cases type <;> first
        | exact False.elim hv
        | exact absurd hp (by decide)
  unfold decodeValue at h
  cases htype : field.type <;> simp only [htype] at h
  case string =>
    split_ifs at h
    obtain rfl := Option.some.inj h
    exact ⟨trivial, trivial, by simp [Value.NonNull], by simp⟩
  case bytes =>
    split_ifs at h with hwire hempty
    · obtain rfl := Option.some.inj h
      have hnil : r.body = [] := List.isEmpty_iff.mp hempty
      exact ⟨trivial, by rw [hnil]; exact Nat.le_refl _, trivial, by simp⟩
    · obtain rfl := Option.some.inj h
      exact ⟨trivial, Nat.le_refl _, trivial, by simp⟩
  case message =>
    split_ifs at h
    obtain ⟨c, -, rfl⟩ := Option.map_eq_some_iff.mp h
    exact ⟨trivial, trivial, by simp [Value.NonNull], by simp⟩
  all_goals exact hscalar h

theorem children_of_ne_message (htype : field.type ≠ .message) (hv : Value.HasType field.type v) :
    v.children = [] := by
  generalize field.type = type at htype hv
  cases v with
  | message p =>
    cases type <;> first
      | exact False.elim hv
      | exact absurd rfl htype
  | word32 w | word64 w | boolean b | string p | bytes len p => rfl

/-- The sub-messages of what was decoded come from the body of the record. -/
theorem decodeValue_children (h : decodeValue dec field r = some v) {c : Message} (hc : c ∈ v.children) :
    field.type = .message ∧ dec field.descriptor r.body = some c := by
  by_cases htype : field.type = .message
  · obtain ⟨c', hc', rfl⟩ := decodeValue_message htype h
    obtain rfl := List.mem_singleton.mp (show c ∈ [c'] from hc)
    exact ⟨htype, hc'⟩
  · rw [children_of_ne_message htype (decodeValue_packable h).1] at hc
    exact absurd hc List.not_mem_nil

theorem decodeElements_packable {vs : List Value} (hg : field.Generated)
    (h : decodeElements dec field r = some vs) (hv : v ∈ vs) :
    Value.HasType field.type v ∧ v.Readable ∧ v.NonNull ∧ v ≠ .message .null ∧
      ∀ c ∈ v.children, field.type = .message ∧ dec field.descriptor r.body = some c := by
  unfold decodeElements at h
  by_cases hpacked : isPackedRecord field r.wireType = true
  · rw [if_pos hpacked] at h
    have hp : isPackableType field.type = true := by
      by_contra hnot
      rw [hg.not_packed (by simpa using hnot)] at hpacked
      exact absurd hpacked (by simp)
    have htype : Value.HasType field.type v := by
      unfold decodePacked at h
      cases hparse : parsePackedElements field.type r.body with
      | error e =>
        rw [hparse] at h
        exact absurd h (by simp)
      | ok p =>
        obtain ⟨ws, ok⟩ := p
        rw [hparse] at h
        cases ok with
        | false => exact absurd h (by simp)
        | true =>
          dsimp only at h
          split_ifs at h
          exact parsePackedElements_hasType hparse v (Option.some.inj h ▸ hv)
    generalize field.type = type at hp htype
    cases v with
    | word32 w | word64 w | boolean b =>
      exact ⟨htype, trivial, trivial, by simp, fun _ hc => absurd hc List.not_mem_nil⟩
    | string p | bytes len p | message p =>
      cases type <;> first
        | exact False.elim htype
        | exact absurd hp (by decide)
  · rw [if_neg hpacked] at h
    obtain ⟨w, hw, rfl⟩ := Option.map_eq_some_iff.mp h
    obtain rfl := List.mem_singleton.mp hv
    obtain ⟨htype, hread, hnonnull, hnull⟩ := decodeValue_packable hw
    exact ⟨htype, hread, hnonnull, hnull, fun _ hc => decodeValue_children hw hc⟩

/-! ## The records of a member -/

/-- The last record decides. -/
theorem foldlM_singular (hlabel : field.label ≠ .repeated) {rs : List Record} {has : Int32} {w : Value}
    {slot : Slot} (h : (rs ++ [r]).foldlM (slotStep dec field) (.singular has w) = some slot) :
    ∃ v, decodeValue dec field r = some v ∧ slot =
      .singular (if field.label = .optional ∧ field.quantifierOffset ≠ 0 then 1 else has) v := by
  have hstep : ∀ {has w r slot'}, slotStep dec field (.singular has w) r = some slot' →
      ∃ v, decodeValue dec field r = some v ∧ slot' =
        .singular (if field.label = .optional ∧ field.quantifierOffset ≠ 0 then 1 else has) v := by
    intro has w r slot' hone
    rw [slotStep, if_neg hlabel] at hone
    obtain ⟨v, hv, rfl⟩ := Option.map_eq_some_iff.mp hone
    exact ⟨v, hv, rfl⟩
  induction rs generalizing has w with
  | nil =>
    rw [List.nil_append, List.foldlM_cons] at h
    obtain ⟨slot', hone, h⟩ := Option.bind_eq_some_iff.mp h
    obtain rfl := Option.some.inj h
    exact hstep hone
  | cons r' rs ih =>
    rw [List.cons_append, List.foldlM_cons] at h
    obtain ⟨slot', hone, h⟩ := Option.bind_eq_some_iff.mp h
    obtain ⟨v', -, rfl⟩ := hstep hone
    obtain ⟨v, hv, rfl⟩ := ih h
    refine ⟨v, hv, ?_⟩
    split_ifs <;> rfl

/-- Every record gives elements. -/
theorem foldlM_repeated (hlabel : field.label = .repeated) {rs : List Record} {xs : List Value}
    {slot : Slot} (h : rs.foldlM (slotStep dec field) (.repeated (.ofList xs)) = some slot) :
    ∃ vss, List.Forall₂ (fun r vs => decodeElements dec field r = some vs) rs vss ∧
      slot = .repeated (.ofList (xs ++ vss.flatten)) := by
  induction rs generalizing xs with
  | nil =>
    obtain rfl := Option.some.inj h
    exact ⟨[], .nil, by rw [List.flatten_nil, List.append_nil]⟩
  | cons r rs ih =>
    rw [List.foldlM_cons] at h
    obtain ⟨slot', hone, h⟩ := Option.bind_eq_some_iff.mp h
    rw [slotStep, if_pos hlabel] at hone
    obtain ⟨vs, hvs, rfl⟩ := Option.map_eq_some_iff.mp hone
    obtain ⟨vss, hvss, rfl⟩ := ih h
    exact ⟨vs :: vss, .cons hvs hvss, by rw [List.flatten_cons, ← List.append_assoc]; rfl⟩

/-- What was decoded is written again. -/
theorem writes_of_decodeValue (hg : field.Generated) (hlabel : field.label ≠ .repeated)
    (h : decodeValue dec field r = some v) :
    field.writes (if field.label = .optional ∧ field.quantifierOffset ≠ 0 then 1 else 0) v = true := by
  refine decide_eq_true ?_
  by_cases hreq : field.label = .required
  · exact .inl hreq
  have hopt : field.label = .optional := by
    cases hl : field.label with
    | required => exact absurd hl hreq
    | repeated => exact absurd hl hlabel
    | optional => rfl
  refine .inr ?_
  unfold FieldDescriptor.isSet
  split_ifs with hpointer hhas
  · -- a block is no default value
    have hblock : v.pointer = some (.block 0) := by
      obtain htype | htype := hpointer
      · obtain ⟨c, -, rfl⟩ := decodeValue_message htype h
        rfl
      · unfold decodeValue at h
        simp only [htype] at h
        split_ifs at h
        obtain rfl := Option.some.inj h
        rfl
    rw [hblock, decide_eq_true_iff]
    refine ⟨by simp, fun hdefault => ?_⟩
    obtain ⟨k, hk⟩ := hg.defaultPointer_static hdefault.symm
    exact absurd hk (by simp)
  · rfl
  · exact absurd ⟨hopt, (hg.has hopt).mpr ⟨fun h => hpointer (.inr h), fun h => hpointer (.inl h)⟩⟩ hhas

/-- What the decoder leaves in a member. -/
structure SlotReceived (dec : DescriptorId → List UInt8 → Option Message) (field : FieldDescriptor)
    (rs : List Record) (slot : Slot) : Prop where
  packable : SlotPackable field slot
  children : ∀ c ∈ slot.writtenChildren field,
    field.type = .message ∧ ∃ r ∈ rs, dec field.descriptor r.body = some c
  written : ∀ v ∈ slot.written field, v ≠ .message .null

theorem slotReceived_init (hg : field.Generated) (hlabel : field.label ≠ .repeated)
    (hreq : field.label ≠ .required) :
    SlotReceived dec field [] (.singular 0 (field.defaultValue.getD field.type.zero)) := by
  have hnot := FieldDescriptor.not_writes_init hreq
  have hnone : ∀ v, v ∉ (Slot.singular 0 (field.defaultValue.getD field.type.zero)).written field :=
    fun v hv => absurd (hnot.symm.trans (mem_written_singular.mp hv).1) (by simp)
  refine ⟨⟨hlabel, hg.initValue_held.1, fun hset => ?_⟩, fun c hc => ?_, fun v hv => absurd hv (hnone v)⟩
  · exact absurd (hnot.symm.trans (decide_eq_true hset)) (by simp)
  · obtain ⟨v, hv, -⟩ := Slot.mem_writtenChildren.mp hc
    exact absurd hv (hnone v)

/-- The member of a field that is required only if it has a record. -/
theorem slotReceived_of_fold {rs : List Record} {slot : Slot} (hg : field.Generated)
    (hreq : field.label = .required → rs ≠ [])
    (h : rs.foldlM (slotStep dec field) field.initSlot = some slot) : SlotReceived dec field rs slot := by
  by_cases hlabel : field.label = .repeated
  · rw [FieldDescriptor.initSlot_repeated hlabel] at h
    obtain ⟨vss, hvss, rfl⟩ := foldlM_repeated hlabel h
    have helem : ∀ v ∈ vss.flatten, ∃ r ∈ rs, ∃ vs, decodeElements dec field r = some vs ∧ v ∈ vs := by
      intro v hv
      obtain ⟨vs, hvs, hv⟩ := List.mem_flatten.mp hv
      obtain ⟨i, hi, rfl⟩ := List.getElem_of_mem hvs
      have hone := (List.forall₂_iff_get.mp hvss).2 i (hvss.length_eq ▸ hi) hi
      exact ⟨_, List.getElem_mem _, _, hone, hv⟩
    rw [List.nil_append]
    refine ⟨⟨hlabel, rfl, fun v hv => ?_⟩, fun c hc => ?_, fun v hv => ?_⟩
    · obtain ⟨r, -, vs, hvs, hmem⟩ := helem v hv
      obtain ⟨htype, hread, hnonnull, -⟩ := decodeElements_packable hg hvs hmem
      exact ⟨htype, hread, hnonnull⟩
    · obtain ⟨v, hv, hc⟩ := Slot.mem_writtenChildren.mp hc
      obtain ⟨r, hr, vs, hvs, hmem⟩ := helem v hv
      obtain ⟨-, -, -, -, hchildren⟩ := decodeElements_packable hg hvs hmem
      exact ⟨(hchildren c hc).1, r, hr, (hchildren c hc).2⟩
    · obtain ⟨r, -, vs, hvs, hmem⟩ := helem v hv
      obtain ⟨-, -, -, hnull, -⟩ := decodeElements_packable hg hvs hmem
      exact hnull
  · rw [FieldDescriptor.initSlot_singular hlabel] at h
    obtain rfl | ⟨rs', r, rfl⟩ := List.eq_nil_or_concat rs
    · obtain rfl := Option.some.inj h
      exact slotReceived_init hg hlabel fun hl => hreq hl rfl
    · rw [List.concat_eq_append] at h ⊢
      obtain ⟨v, hv, rfl⟩ := foldlM_singular hlabel h
      obtain ⟨htype, hread, -, hnull⟩ := decodeValue_packable hv
      refine ⟨⟨hlabel, htype, fun _ => hread⟩, fun c hc => ?_, fun w hw => ?_⟩
      · obtain ⟨w, hw, hcw⟩ := Slot.mem_writtenChildren.mp hc
        obtain ⟨-, rfl⟩ := mem_written_singular.mp hw
        obtain ⟨hm, hdec⟩ := decodeValue_children hv hcw
        exact ⟨hm, r, List.mem_append_right _ List.mem_cons_self, hdec⟩
      · obtain ⟨-, rfl⟩ := mem_written_singular.mp hw
        exact hnull

end

/-! ## Messages -/

/-- At every level of the input the required fields have records. -/
def RequiredPresent (S : Schema) (d : DescriptorId) (data : List UInt8) : Prop :=
  ∀ d' data' rs, Contains S d data d' data' → tokenize data' = some rs →
    ∀ field ∈ (S.desc d').fields, field.label = .required → ∃ r ∈ rs, r.tag = field.id

theorem descriptor_of_decode {S : Schema} {d : DescriptorId} {data : List UInt8} {m : Message}
    (h : decode S d data = some m) : m.descriptor = d := by
  obtain ⟨-, -, -, hd, -⟩ := decode_iff.mp h
  exact hd

theorem RequiredPresent.body {S : Schema} {d : DescriptorId} {data : List UInt8} {rs : List Record}
    {r : Record} {field : FieldDescriptor} (h : RequiredPresent S d data)
    (hrs : tokenize data = some rs) (hr : r ∈ fieldRecords field rs)
    (hfield : field ∈ (S.desc d).fields) (htype : field.type = .message) :
    RequiredPresent S field.descriptor r.body := by
  obtain ⟨hmem, htag⟩ := List.mem_filter.mp hr
  obtain ⟨i, hi, rfl⟩ := List.getElem_of_mem hfield
  have hf : (S.desc d).field? r.tag = some (i, (S.desc d).fields[i]) :=
    (S.generated d).field?_eq_some.mpr ⟨List.getElem?_eq_getElem hi, (of_decide_eq_true htag).symm⟩
  intro d' data' rs' hin
  exact h d' data' rs' (.body hrs hmem hf htype hin)

theorem RequiredPresent.records {S : Schema} {d : DescriptorId} {data : List UInt8} {rs : List Record}
    (h : RequiredPresent S d data) (hrs : tokenize data = some rs) {field : FieldDescriptor}
    (hfield : field ∈ (S.desc d).fields) (hlabel : field.label = .required) :
    fieldRecords field rs ≠ [] := by
  obtain ⟨r, hr, htag⟩ := h d data rs (.self d data) hrs field hfield hlabel
  exact List.ne_nil_of_mem (List.mem_filter.mpr ⟨hr, decide_eq_true htag⟩)

/-- The required fields have records at every level if they have them here and in the bodies. -/
theorem RequiredPresent.of_records {S : Schema} {d : DescriptorId} {data : List UInt8} {rs : List Record}
    (hrs : tokenize data = some rs)
    (hhere : ∀ field ∈ (S.desc d).fields, field.label = .required → ∃ r ∈ rs, r.tag = field.id)
    (hbelow : ∀ r ∈ rs, ∀ i field, (S.desc d).field? r.tag = some (i, field) → field.type = .message →
      RequiredPresent S field.descriptor r.body) : RequiredPresent S d data := by
  intro d' data' rs' hin hrs'
  cases hin with
  | self =>
    obtain rfl := Option.some.inj (hrs.symm.trans hrs')
    exact hhere
  | body hrs₀ hr hf htype hin =>
    obtain rfl := Option.some.inj (hrs.symm.trans hrs₀)
    exact hbelow _ hr _ _ hf htype d' data' rs' hin hrs'

/-- Without message fields, only the outermost level counts. -/
theorem RequiredPresent.of_flat {S : Schema} {d : DescriptorId} {data : List UInt8} {rs : List Record}
    (hflat : ∀ d, ∀ field ∈ (S.desc d).fields, field.type ≠ .message) (hrs : tokenize data = some rs)
    (h : ∀ field ∈ (S.desc d).fields, field.label = .required → ∃ r ∈ rs, r.tag = field.id) :
    RequiredPresent S d data :=
  .of_records hrs h fun _ _ _ field hf htype =>
    absurd htype (hflat d field (List.mem_of_getElem? ((S.generated d).field?_eq_some.mp hf).1))

/-- What was decoded can be packed, and decoded again. -/
theorem decode_packable {S : Schema} (p : DescriptorId × List UInt8) :
    RequiredPresent S p.1 p.2 → ∀ m, decode S p.1 p.2 = some m → m.Packable S ∧ m.Readable S := by
  refine measure_induction (fun p : DescriptorId × List UInt8 => p.2.length)
    (P := fun p => RequiredPresent S p.1 p.2 → ∀ m, decode S p.1 p.2 = some m →
      m.Packable S ∧ m.Readable S) ?_ p
  rintro ⟨d, data⟩ ih hpresent m hm
  obtain ⟨rs, hrs, -, rfl, hunknown, hslots⟩ := decode_iff.mp hm
  have hgen := S.generated m.descriptor
  -- every member on its own
  have hreceived : ∀ {field : FieldDescriptor} {slot : Slot},
      (field, slot) ∈ (S.desc m.descriptor).fields.zip m.slots →
        SlotReceived (decode S) field (fieldRecords field rs) slot := by
    intro field slot hmem
    have hfield := (List.of_mem_zip hmem).1
    exact slotReceived_of_fold (hgen.field field hfield)
      (hpresent.records hrs hfield) ((List.forall₂_iff_zip.mp hslots).2 hmem)
  have hchild : ∀ c ∈ m.writtenChildren S, c.Packable S ∧ c.Readable S := by
    intro c hc
    obtain ⟨⟨field, slot⟩, hmem, hc⟩ := Message.mem_writtenChildren.mp hc
    obtain ⟨htype, r, hr, hdec⟩ := (hreceived hmem).children c hc
    exact ih (_, r.body) (tokenize_body_lt hrs (List.mem_filter.mp hr).1)
      (hpresent.body hrs hr (List.of_mem_zip hmem).1 htype) c hdec
  have hknown : ∀ u ∈ m.unknown.elems, (unknownRecord u).WellFormed ∧
      ∀ f ∈ (S.desc m.descriptor).fields, f.id ≠ u.tag := by
    intro u hu
    rw [hunknown, CArray.ofList_elems] at hu
    obtain ⟨r, hr, rfl⟩ := List.mem_map.mp hu
    obtain ⟨hmem, hnone⟩ := List.mem_filter.mp hr
    rw [unknownRecord_unknownField]
    exact ⟨tokenize_wellFormed hrs r hmem,
      hgen.field?_eq_none.mp (Option.isNone_iff_eq_none.mp hnone)⟩
  have hbytes : ∀ u ∈ m.unknown.elems, u.len ≤ (u.data.elim [] Ptr.val).length := by
    intro u hu
    rw [hunknown, CArray.ofList_elems] at hu
    obtain ⟨r, -, rfl⟩ := List.mem_map.mp hu
    exact Nat.le_refl _
  constructor
  · refine .intro m (List.forall₂_iff_zip.mpr ⟨hslots.length_eq, fun hmem => (hreceived hmem).packable⟩)
      ?_ hbytes fun c hc => (hchild c hc).1
    rw [hunknown]
    rfl
  · refine .intro m (List.forall₂_iff_zip.mpr ⟨hslots.length_eq, fun {field slot} hmem v hv => ?_⟩)
      hknown fun c hc => (hchild c hc).2
    refine ⟨(hreceived hmem).written v hv, fun c hc => ?_⟩
    obtain ⟨-, r, -, hdec⟩ := (hreceived hmem).children c (Slot.mem_writtenChildren.mpr ⟨v, hv, hc⟩)
    exact descriptor_of_decode hdec

/-! ## The normal form -/

section
variable {field : FieldDescriptor} {nf : Message → Message}

theorem Value.children_normal (v : Value) : (v.normal nf).children = v.children.map nf := by
  cases v with
  | message p => cases p <;> rfl
  | word32 w | word64 w | boolean b | string p | bytes len p => rfl

theorem Value.hasType_normal {type : FieldType} {v : Value} (h : Value.HasType type v) :
    Value.HasType type (v.normal nf) := by
  cases v with
  | message p => cases p <;> cases type <;> exact h
  | word32 w | word64 w | boolean b | string p | bytes len p => cases type <;> exact h

theorem Value.readable_normal (v : Value) : (v.normal nf).Readable := by
  cases v with
  | bytes len p =>
    generalize hbs : (p.elim [] Ptr.val).take len = bs
    cases bs with
    | nil => simp [Value.normal, Value.Readable, hbs]
    | cons b bs => simp [Value.normal, Value.Readable, hbs]
  | message p => cases p <;> trivial
  | word32 w | word64 w | boolean b | string p => trivial

theorem Value.nonNull_normal {v : Value} (h : v.NonNull) : (v.normal nf).NonNull := by
  cases v with
  | string p => simp [Value.normal, Value.NonNull]
  | message p => cases p <;> simp_all [Value.normal, Value.NonNull]
  | word32 w | word64 w | boolean b | bytes len p => trivial

theorem SlotPackable.normal (hg : field.Generated) {slot : Slot} (hs : SlotPackable field slot) :
    SlotPackable field (slot.normal nf field) := by
  cases slot with
  | singular has v =>
    obtain ⟨hlabel, hv, -⟩ := hs
    by_cases hw : field.writes has v = true
    · rw [Slot.normal, if_pos hw]
      exact ⟨hlabel, Value.hasType_normal hv, fun _ => v.readable_normal⟩
    · have hreq : field.label ≠ .required := fun h => hw (decide_eq_true (.inl h))
      have hnot := FieldDescriptor.not_writes_init hreq
      rw [Slot.normal, if_neg hw, FieldDescriptor.initSlot_singular hlabel]
      refine ⟨hlabel, hg.initValue_held.1, fun hset => ?_⟩
      exact absurd (hnot.symm.trans (decide_eq_true hset)) (by simp)
  | repeated a =>
    obtain ⟨hlabel, -, hvs⟩ := hs
    refine ⟨hlabel, rfl, fun w hw => ?_⟩
    obtain ⟨v, hv, rfl⟩ := List.mem_map.mp hw
    exact ⟨Value.hasType_normal (hvs v hv).1, v.readable_normal, Value.nonNull_normal (hvs v hv).2.2⟩

/-- The sub-messages of a normal form are normal forms of sub-messages. -/
theorem Slot.writtenChildren_normal {slot : Slot} {c : Message} (hs : SlotPackable field slot)
    (hc : c ∈ (slot.normal nf field).writtenChildren field) :
    ∃ c' ∈ slot.writtenChildren field, nf c' = c := by
  obtain ⟨w, hw, hc⟩ := Slot.mem_writtenChildren.mp hc
  have hvalue : ∃ v ∈ slot.written field, v.normal nf = w := by
    cases slot with
    | singular has v =>
      by_cases hwrites : field.writes has v = true
      · rw [Slot.normal, if_pos hwrites] at hw
        exact ⟨v, mem_written_singular.mpr ⟨hwrites, rfl⟩, (mem_written_singular.mp hw).2.symm⟩
      · have hreq : field.label ≠ .required := fun h => hwrites (decide_eq_true (.inl h))
        rw [Slot.normal, if_neg hwrites, FieldDescriptor.initSlot_singular hs.1] at hw
        have hnot := FieldDescriptor.not_writes_init hreq
        exact absurd (hnot.symm.trans (mem_written_singular.mp hw).1) (by simp)
    | repeated a => exact List.mem_map.mp hw
  obtain ⟨v, hv, rfl⟩ := hvalue
  rw [v.children_normal] at hc
  obtain ⟨c', hc', rfl⟩ := List.mem_map.mp hc
  exact ⟨c', Slot.mem_writtenChildren.mpr ⟨v, hv, hc'⟩, rfl⟩

end

section
variable {S : Schema}

theorem Message.slots_normal (m : Message) : (m.normal S).slots =
    List.zipWith (Slot.normal (Message.normal S)) (S.desc m.descriptor).fields m.slots := by
  rw [m.normal_eq]
  rfl

theorem Message.unknown_normal (m : Message) :
    (m.normal S).unknown = .ofList (m.unknown.elems.map MessageUnknownField.normal) := by
  rw [m.normal_eq]
  rfl

theorem zip_zipWith {α β : Type} (f : α → β → β) (as : List α) (bs : List β) :
    as.zip (List.zipWith f as bs) = (as.zip bs).map fun p => (p.1, f p.1 p.2) := by
  induction as generalizing bs with
  | nil => rfl
  | cons a as ih =>
    cases bs with
    | nil => rfl
    | cons b bs =>
      rw [List.zipWith_cons_cons, List.zip_cons_cons, List.zip_cons_cons, List.map_cons, ih]

theorem Message.Packable.normal (m : Message) :
    m.Packable S → (m.normal S).Packable S := by
  refine measure_induction Message.depth (P := fun m => m.Packable S → (m.normal S).Packable S)
    (fun m ih hm => ?_) m
  obtain ⟨_, hslots, -, -, hchildren⟩ := hm
  have hmem : ∀ {field slot'}, (field, slot') ∈ (S.desc (m.normal S).descriptor).fields.zip
      (m.normal S).slots → ∃ slot, (field, slot) ∈ (S.desc m.descriptor).fields.zip m.slots ∧
        slot' = slot.normal (Message.normal S) field := by
    intro field slot' h
    rw [m.descriptor_normal, m.slots_normal, zip_zipWith] at h
    obtain ⟨p, hp, heq⟩ := List.mem_map.mp h
    obtain ⟨rfl, rfl⟩ := Prod.mk.inj heq
    exact ⟨_, hp, rfl⟩
  have hlength : (S.desc (m.normal S).descriptor).fields.length = (m.normal S).slots.length := by
    rw [m.descriptor_normal, m.slots_normal, List.length_zipWith, hslots.length_eq, Nat.min_self]
  refine .intro _ (List.forall₂_iff_zip.mpr ⟨hlength, fun {field slot'} h => ?_⟩) ?_ (fun u hu => ?_)
    fun c hc => ?_
  · obtain ⟨slot, hp, rfl⟩ := hmem h
    exact ((List.forall₂_iff_zip.mp hslots).2 hp).normal ((S.generated _).field _ (List.of_mem_zip hp).1)
  · rw [m.unknown_normal]
    rfl
  · rw [m.unknown_normal, CArray.ofList_elems] at hu
    obtain ⟨u, -, rfl⟩ := List.mem_map.mp hu
    exact Nat.le_refl _
  · obtain ⟨⟨field, slot'⟩, h, hc⟩ := Message.mem_writtenChildren.mp hc
    obtain ⟨slot, hp, rfl⟩ := hmem h
    obtain ⟨c', hc', rfl⟩ := Slot.writtenChildren_normal ((List.forall₂_iff_zip.mp hslots).2 hp) hc
    have hbelow : c' ∈ m.writtenChildren S := Message.mem_writtenChildren.mpr ⟨(field, slot), hp, hc'⟩
    exact ih c' (m.depth_children c' (Message.writtenChildren_subset hbelow)) (hchildren c' hbelow)

/-- The normal form is its own normal form. -/
theorem Message.normal_normal (m : Message) : m.Packable S → (m.normal S).normal S = m.normal S := by
  refine measure_induction Message.depth
    (P := fun m => m.Packable S → (m.normal S).normal S = m.normal S) (fun m ih hm => ?_) m
  obtain ⟨_, hslots, -, -, hchildren⟩ := hm
  have hzip : List.zipWith (Slot.normal (Message.normal S)) (S.desc m.descriptor).fields
      (List.zipWith (Slot.normal (Message.normal S)) (S.desc m.descriptor).fields m.slots) =
        List.zipWith (Slot.normal (Message.normal S)) (S.desc m.descriptor).fields m.slots := by
    have hone : ∀ p ∈ (S.desc m.descriptor).fields.zip m.slots,
        (p.2.normal (Message.normal S) p.1).normal (Message.normal S) p.1 =
          p.2.normal (Message.normal S) p.1 := by
      rintro ⟨field, slot⟩ hp
      rw [((S.generated _).field field (List.of_mem_zip hp).1).normal_normal
        ((List.forall₂_iff_zip.mp hslots).2 hp)]
      refine Slot.normal_congr fun c hc => ?_
      have hbelow : c ∈ m.writtenChildren S := Message.mem_writtenChildren.mpr ⟨(field, slot), hp, hc⟩
      exact ih c (m.depth_children c (Message.writtenChildren_subset hbelow)) (hchildren c hbelow)
    rw [← List.map_uncurry_zip_eq_zipWith, zip_zipWith, List.map_map, ← List.map_uncurry_zip_eq_zipWith]
    exact List.map_congr_left hone
  have hunknown : (m.unknown.elems.map MessageUnknownField.normal).map MessageUnknownField.normal =
      m.unknown.elems.map MessageUnknownField.normal := by
    rw [List.map_map]
    exact List.map_congr_left fun u _ => congrArg Record.unknownField (unknownRecord_unknownField _)
  rw [(m.normal S).normal_eq, normalLayer, m.descriptor_normal, m.slots_normal, m.unknown_normal, hzip,
    CArray.ofList_elems, hunknown, m.normal_eq, normalLayer]

end

end ProtobufC
