import ProtobufC.Wire.Received
import ProtobufC.Wire.Renaming

/-! # An intermediary with an old schema

A program whose descriptors lack some fields keeps the records of these fields as unknown fields, and writes
them back.  So a program with all fields reads the same message, whether the bytes came directly or through
the old program (`messageUnpack_through_old`).  Where no field is lacking, decoding and encoding lose
nothing.
-/

namespace ProtobufC
open Library
set_option autoImplicit false

/-! ## Old and new descriptors -/

/-- The field of an old descriptor, and the new field with its number.  The place in the C structure and the
way a repeated field is packed may differ. -/
structure FieldDescriptor.Extends (up : DescriptorId → DescriptorId) (old new : FieldDescriptor) :
    Prop where
  id : new.id = old.id
  label : new.label = old.label
  type : new.type = old.type
  defaultValue : new.defaultValue = old.defaultValue
  descriptor : old.type = .message → new.descriptor = up old.descriptor

/-- Every field of an old descriptor is one of the new descriptor; `up` takes the one to the other. -/
def Schema.Lacks (old new : Schema) (up : DescriptorId → DescriptorId) : Prop :=
  ∀ d, ∀ f ∈ (old.desc d).fields, ∃ g ∈ (new.desc (up d)).fields, f.Extends up g

theorem isPackedRecord_eq {field : FieldDescriptor} (hg : field.Generated) (wire : WireType) :
    isPackedRecord field wire = decide (wire = .lengthPrefixed ∧ isPackableType field.type = true) := by
  refine decide_eq_decide.mpr (and_congr_right fun _ => ⟨fun h => ?_, .inr⟩)
  exact h.elim (fun hp => (hg.packed hp).2) id

section
variable {up : DescriptorId → DescriptorId} {old new : FieldDescriptor}
  {dec : DescriptorId → List UInt8 → Option Message}

theorem FieldDescriptor.Extends.initSlot (h : old.Extends up new) : new.initSlot = old.initSlot := by
  unfold FieldDescriptor.initSlot
  rw [h.label, h.type, h.defaultValue]

theorem FieldDescriptor.Extends.fieldRecords (h : old.Extends up new) (rs : List Record) :
    fieldRecords new rs = fieldRecords old rs := by
  unfold ProtobufC.fieldRecords
  rw [h.id]

/-- Both set the `has` member, or none does. -/
theorem FieldDescriptor.Extends.has (h : old.Extends up new) (hold : old.Generated)
    (hnew : new.Generated) : (new.label = .optional ∧ new.quantifierOffset ≠ 0) ↔
      (old.label = .optional ∧ old.quantifierOffset ≠ 0) := by
  rw [h.label]
  refine and_congr_right fun hopt => ?_
  rw [hold.has hopt, hnew.has (h.label.trans hopt), h.type]

theorem FieldDescriptor.Extends.writes (h : old.Extends up new) (has : Int32) (v : Value) :
    new.writes has v = old.writes has v := by
  unfold FieldDescriptor.writes FieldDescriptor.isSet FieldDescriptor.defaultPointer
  rw [h.label, h.type, h.defaultValue]

theorem FieldDescriptor.Extends.normal (h : old.Extends up new) (hold : old.Generated)
    (hnew : new.Generated) (sub : Message → Message) (slot : Slot) :
    slot.normal sub new = slot.normal sub old := by
  cases slot with
  | singular has v => simp only [Slot.normal, h.writes, h.has hold hnew, h.initSlot]
  | repeated a => rfl

/-- A record does the same to the old member as to the new one, but for the type of the messages. -/
theorem FieldDescriptor.Extends.slotStep (h : old.Extends up new) (hold : old.Generated)
    (hnew : new.Generated) : slotStep (fun d => dec (up d)) old = slotStep dec new := by
  have hvalue : ∀ r, decodeValue (fun d => dec (up d)) old r = decodeValue dec new r := by
    intro r
    by_cases htype : old.type = .message
    · unfold decodeValue
      simp only [h.type, htype, h.descriptor htype]
    · exact decodeValue_of_ne_message htype dec h.type
  funext slot r
  have helems : decodeElements (fun d => dec (up d)) old r = decodeElements dec new r := by
    unfold decodeElements
    rw [isPackedRecord_eq hold, isPackedRecord_eq hnew, h.type, hvalue]
  have hassign : Slot.assign new = Slot.assign old := by
    funext v slot
    cases slot with
    | singular has w => simp only [Slot.assign, h.has hold hnew]
    | repeated a => rfl
  unfold ProtobufC.slotStep
  rw [helems, hvalue, h.label, hassign]

end

/-! ## One value -/

section
variable {up : DescriptorId → DescriptorId} {old new : FieldDescriptor} (hext : old.Extends up new)
  {decOld decNew : DescriptorId → List UInt8 → Option Message} {nf nf' : Message → Message} {r : Record}
  {v w : Value}
include hext

/-- The value of a record under the old descriptor, and under the new one. -/
theorem decodeValue_through (hv : decodeValue decOld old r = some v)
    (hw : decodeValue decNew new r = some w)
    (hsub : ∀ c c', v.children = [c] → decOld old.descriptor r.body = some c →
      decNew new.descriptor r.body = some c' → nf' (nf c) = nf' c') :
    v.normal (nf' ∘ nf) = w.normal nf' ∧ v.pointer = w.pointer := by
  by_cases htype : old.type = .message
  · obtain ⟨c, hc, rfl⟩ := decodeValue_message htype hv
    obtain ⟨c', hc', rfl⟩ := decodeValue_message (hext.type.trans htype) hw
    refine ⟨?_, rfl⟩
    rw [Value.normal, Value.normal, Function.comp_apply, hsub c c' rfl hc hc']
  · rw [← decodeValue_of_ne_message htype decNew hext.type, hv] at hw
    obtain rfl := Option.some.inj hw
    refine ⟨Value.normal_congr fun c hc => ?_, rfl⟩
    rw [children_of_ne_message htype (decodeValue_packable hv).1] at hc
    exact absurd hc List.not_mem_nil

theorem decodeElements_through (hold : old.Generated) (hnew : new.Generated) {vs ws : List Value}
    (hvs : decodeElements decOld old r = some vs) (hws : decodeElements decNew new r = some ws)
    (hsub : ∀ v ∈ vs, ∀ c c', v.children = [c] → decOld old.descriptor r.body = some c →
      decNew new.descriptor r.body = some c' → nf' (nf c) = nf' c') :
    vs.map (Value.normal (nf' ∘ nf)) = ws.map (Value.normal nf') := by
  unfold decodeElements at hvs hws
  rw [isPackedRecord_eq hold] at hvs
  rw [isPackedRecord_eq hnew, hext.type] at hws
  by_cases hpacked : r.wireType = .lengthPrefixed ∧ isPackableType old.type = true
  · rw [if_pos (decide_eq_true hpacked)] at hvs hws
    obtain rfl := Option.some.inj (hvs.symm.trans hws)
    have hne : old.type ≠ .message := fun htype => by
      rw [htype] at hpacked
      exact absurd hpacked.2 (by decide)
    refine List.map_congr_left fun v hv => Value.normal_congr fun c hc => ?_
    have helems : decodeElements decOld old r = some vs := by
      unfold decodeElements
      rw [isPackedRecord_eq hold, if_pos (decide_eq_true hpacked), hvs]
    rw [children_of_ne_message hne (decodeElements_packable hold helems hv).1] at hc
    exact absurd hc List.not_mem_nil
  · rw [if_neg (by simpa using hpacked)] at hvs hws
    obtain ⟨v, hv, rfl⟩ := Option.map_eq_some_iff.mp hvs
    obtain ⟨w, hw, rfl⟩ := Option.map_eq_some_iff.mp hws
    rw [List.map_singleton, List.map_singleton,
      (decodeValue_through hext hv hw (hsub v List.mem_cons_self)).1]

/-! ## One member -/

/-- The member under the old descriptor says, read by the new program, what the member under the new
descriptor says. -/
theorem slot_through (hold : old.Generated) (hnew : new.Generated) {rs : List Record} {slot slot' : Slot}
    (hreq : old.label = .required → rs ≠ [])
    (h : rs.foldlM (slotStep decOld old) old.initSlot = some slot)
    (h' : rs.foldlM (slotStep decNew new) new.initSlot = some slot')
    (hsub : ∀ r ∈ rs, ∀ c ∈ slot.writtenChildren old, ∀ c', decOld old.descriptor r.body = some c →
      decNew new.descriptor r.body = some c' → nf' (nf c) = nf' c') :
    slot.normal (nf' ∘ nf) old = slot'.normal nf' old := by
  rw [hext.initSlot] at h'
  by_cases hlabel : old.label = .repeated
  · rw [FieldDescriptor.initSlot_repeated hlabel] at h h'
    obtain ⟨vss, hvss, rfl⟩ := foldlM_repeated hlabel h
    obtain ⟨wss, hwss, rfl⟩ := foldlM_repeated (hext.label.trans hlabel) h'
    have hflat : ∀ {rs : List Record} {vss wss : List (List Value)},
        List.Forall₂ (fun r vs => decodeElements decOld old r = some vs) rs vss →
        List.Forall₂ (fun r ws => decodeElements decNew new r = some ws) rs wss →
        (∀ r ∈ rs, ∀ v ∈ vss.flatten, ∀ c c', v.children = [c] → decOld old.descriptor r.body = some c →
          decNew new.descriptor r.body = some c' → nf' (nf c) = nf' c') →
        vss.flatten.map (Value.normal (nf' ∘ nf)) = wss.flatten.map (Value.normal nf') := by
      intro rs vss wss hvss
      induction hvss generalizing wss with
      | nil =>
        intro hwss _
        cases hwss
        rfl
      | @cons r vs rs vss hvs _ ih =>
        intro hwss hsub
        cases hwss with
        | @cons _ ws _ wss hws hwss =>
          rw [List.flatten_cons, List.flatten_cons, List.map_append, List.map_append,
            decodeElements_through hext hold hnew hvs hws fun v hv =>
              hsub r List.mem_cons_self v (List.mem_append_left _ hv),
            ih hwss fun r' hr' v hv => hsub r' (List.mem_cons_of_mem _ hr') v (List.mem_append_right _ hv)]
    simp only [Slot.normal, CArray.ofList_elems, List.nil_append] at hsub ⊢
    rw [hflat hvss hwss fun r hr v hv c c' hc => hsub r hr c
      (List.mem_flatMap.mpr ⟨v, hv, hc ▸ List.mem_cons_self⟩) c']
  · have hinit := FieldDescriptor.initSlot_singular hlabel
    obtain rfl | ⟨rs', r, rfl⟩ := List.eq_nil_or_concat rs
    · obtain rfl := Option.some.inj h
      obtain rfl := Option.some.inj h'
      have hopt : old.label ≠ .required := fun hl => hreq hl rfl
      rw [FieldDescriptor.normal_initSlot hopt, FieldDescriptor.normal_initSlot hopt]
    · rw [List.concat_eq_append, hinit] at h h'
      obtain ⟨v, hv, rfl⟩ := foldlM_singular hlabel h
      obtain ⟨w, hw, rfl⟩ := foldlM_singular (hext.label.trans_ne hlabel) h'
      obtain ⟨hvalue, hpointer⟩ := decodeValue_through hext hv hw fun c c' hc => by
        have hcv : c ∈ v.children := hc ▸ List.mem_cons_self
        exact hsub r (by rw [List.concat_eq_append]; exact List.mem_append_right _ List.mem_cons_self) c
          (Slot.mem_writtenChildren.mpr
            ⟨v, mem_written_singular.mpr ⟨writes_of_decodeValue hold hlabel hv, rfl⟩, hcv⟩) c'
      have hwrites : ∀ has, old.writes has v = old.writes has w := by
        intro has
        unfold FieldDescriptor.writes FieldDescriptor.isSet
        rw [hpointer]
      simp only [Slot.normal, hvalue, hwrites, hext.has hold hnew]

/-- What the new program reads of a member that the old one wrote. -/
theorem member_through (hold : old.Generated) (hnew : new.Generated) {rs : List Record} {slot slot' : Slot}
    {enc : Message → List UInt8} (hreceived : SlotReceived decOld old rs slot)
    (hlt : ∀ r ∈ slotRecords enc old slot, r.payload.length < 2 ^ 32)
    (hreq : old.label = .required → rs ≠ [])
    (h : rs.foldlM (slotStep decOld old) old.initSlot = some slot)
    (h' : rs.foldlM (slotStep decNew new) new.initSlot = some slot')
    (hsub : ∀ r ∈ rs, ∀ c ∈ slot.writtenChildren old, decOld old.descriptor r.body = some c →
      ∃ c' c'', decNew new.descriptor r.body = some c' ∧ decNew new.descriptor (enc c) = some c'' ∧
        nf' c'' = nf' c') :
    ∃ slot'', (slotRecords enc old slot).foldlM (slotStep decNew new) new.initSlot = some slot'' ∧
      slot''.normal nf' new = slot'.normal nf' new := by
  -- what the new program makes of a sub-message
  let read : Message → Message := fun c => (decNew new.descriptor (enc c)).getD c
  have hchild : ∀ c ∈ slot.writtenChildren old, decNew (up old.descriptor) (enc c) = some (read c) := by
    intro c hc
    obtain ⟨htype, r, hr, hdec⟩ := hreceived.children c hc
    obtain ⟨c', c'', -, henc, -⟩ := hsub r hr c hc hdec
    change _ = some ((decNew new.descriptor (enc c)).getD c)
    rw [henc, Option.getD_some, ← hext.descriptor htype, henc]
  have hfold : (slotRecords enc old slot).foldlM (slotStep (fun d => decNew (up d)) old) old.initSlot =
      some (slot.normal read old) := foldlM_slotRecords hold hreceived.packable hlt fun v hv =>
    ⟨hreceived.written v hv, fun c hc => hchild c (Slot.mem_writtenChildren.mpr ⟨v, hv, hc⟩)⟩
  rw [hext.slotStep hold hnew, ← hext.initSlot] at hfold
  refine ⟨slot.normal read old, hfold, ?_⟩
  rw [hext.normal hold hnew, hext.normal hold hnew, hold.normal_normal hreceived.packable]
  refine slot_through hext hold hnew hreq h h' fun r hr c hc c' hdec hdec' => ?_
  obtain ⟨c₁, c'', hc₁, henc, hsame⟩ := hsub r hr c hc hdec
  obtain rfl := Option.some.inj (hdec'.symm.trans hc₁)
  change nf' ((decNew new.descriptor (enc c)).getD c) = _
  rw [henc, Option.getD_some, hsame]

end

/-! ## One level -/

theorem exists_zipWith {α β γ δ : Type} {P : α → γ → Prop} {f : α → β → δ} {g : α → γ → δ} {as : List α}
    {bs : List β} (h : List.Forall₂ (fun a b => ∃ c, P a c ∧ g a c = f a b) as bs) :
    ∃ cs, List.Forall₂ P as cs ∧ List.zipWith g as cs = List.zipWith f as bs := by
  induction h with
  | nil => exact ⟨[], .nil, rfl⟩
  | cons hab _ ih =>
    obtain ⟨c, hc, heq⟩ := hab
    obtain ⟨cs, hcs, heqs⟩ := ih
    exact ⟨c :: cs, .cons hc hcs, by rw [List.zipWith_cons_cons, List.zipWith_cons_cons, heq, heqs]⟩

/-- The records of unknown fields are the records they came from. -/
theorem map_unknownRecord_unknowns (desc : MessageDescriptor) (rs : List Record) :
    (desc.unknowns rs).map unknownRecord = rs.filter fun r => (desc.field? r.tag).isNone := by
  rw [MessageDescriptor.unknowns, List.map_map]
  exact (List.map_congr_left fun r _ => unknownRecord_unknownField r).trans (List.map_id _)

section
variable {old : Schema} {m : Message} {rs : List Record}
  (hunknown : m.unknown = .ofList ((old.desc m.descriptor).unknowns rs))
include hunknown

/-- The records that the old program does not know are written back. -/
theorem mem_records_of_unknown {r : Record} (hr : r ∈ rs)
    (hnone : ∀ f ∈ (old.desc m.descriptor).fields, f.id ≠ r.tag) : r ∈ m.records old := by
  refine mem_recordsLayer.mpr (.inr ⟨r.unknownField, ?_, unknownRecord_unknownField r⟩)
  rw [hunknown, CArray.ofList_elems]
  refine List.mem_map_of_mem (List.mem_filter.mpr ⟨hr, ?_⟩)
  exact Option.isNone_iff_eq_none.mpr ((old.generated _).field?_eq_none.mpr hnone)

theorem fieldRecords_of_unknown {g : FieldDescriptor}
    (hnone : ∀ f ∈ (old.desc m.descriptor).fields, f.id ≠ g.id) :
    fieldRecords g (m.records old) = fieldRecords g rs := by
  have hslots : fieldRecords g (List.zipWith (slotRecords (Message.encode old))
      (old.desc m.descriptor).fields m.slots).flatten = [] := by
    refine fieldRecords_none fun r hr htag => ?_
    obtain ⟨p, hp, hr⟩ := mem_zipWith_flatten.mp hr
    exact hnone p.1 (List.of_mem_zip hp).1 ((tag_of_mem_slotRecords hr).symm.trans htag)
  rw [Message.records, recordsLayer, fieldRecords_append, hslots, List.nil_append, hunknown,
    CArray.ofList_elems, map_unknownRecord_unknowns, fieldRecords, List.filter_filter]
  refine List.filter_congr fun r _ => ?_
  by_cases htag : r.tag = g.id
  · have hfield : (old.desc m.descriptor).field? r.tag = none :=
      (old.generated _).field?_eq_none.mpr (htag ▸ hnone)
    simp [htag ▸ hfield, htag]
  · simp [htag]

end

section
variable {old new : Schema} {up : DescriptorId → DescriptorId} (hlacks : old.Lacks new up)
include hlacks

theorem Schema.Lacks.eq_of_id {d : DescriptorId} {f g : FieldDescriptor}
    (hf : f ∈ (old.desc d).fields) (hg : g ∈ (new.desc (up d)).fields) (hid : f.id = g.id) :
    f.Extends up g := by
  obtain ⟨g', hg', hext⟩ := hlacks d f hf
  obtain ⟨i, hi, rfl⟩ := List.getElem_of_mem hg
  obtain ⟨j, hj, rfl⟩ := List.getElem_of_mem hg'
  have hij := (new.generated (up d)).id_injective (List.getElem?_eq_getElem hi)
    (List.getElem?_eq_getElem hj) (hid.symm.trans hext.id.symm)
  subst hij
  exact hext

theorem Schema.Lacks.contains {d d' : DescriptorId} {data data' : List UInt8}
    (h : Contains old d data d' data') : Contains new (up d) data (up d') data' := by
  induction h with
  | self d data => exact .self _ _
  | @body d d' data data' rs r i f hrs hr hf htype _ ih =>
    obtain ⟨hi, hid⟩ := (old.generated d).field?_eq_some.mp hf
    obtain ⟨g, hg, hext⟩ := hlacks d f (List.mem_of_getElem? hi)
    obtain ⟨j, hj, rfl⟩ := List.getElem_of_mem hg
    have hf' : (new.desc (up d)).field? r.tag = some (j, (new.desc (up d)).fields[j]) :=
      (new.generated (up d)).field?_eq_some.mpr ⟨List.getElem?_eq_getElem hj, hext.id.trans hid⟩
    exact .body hrs hr hf' (hext.type.trans htype) (hext.descriptor htype ▸ ih)

/-- Where the new required fields have records, the old ones do. -/
theorem Schema.Lacks.requiredPresent {d : DescriptorId} {data : List UInt8}
    (h : RequiredPresent new (up d) data) : RequiredPresent old d data := by
  intro d' data' rs hin hrs f hf hlabel
  obtain ⟨g, hg, hext⟩ := hlacks d' f hf
  obtain ⟨r, hr, htag⟩ := h (up d') data' rs (hlacks.contains hin) hrs g hg (hext.label.trans hlabel)
  exact ⟨r, hr, htag.trans hext.id⟩

/-- The unknown fields of the new program are those it would have found itself. -/
theorem unknowns_of_unknown {m : Message} {rs : List Record}
    (hunknown : m.unknown = .ofList ((old.desc m.descriptor).unknowns rs)) :
    (new.desc (up m.descriptor)).unknowns (m.records old) =
      (new.desc (up m.descriptor)).unknowns rs := by
  have hgen := new.generated (up m.descriptor)
  have hslots : (new.desc (up m.descriptor)).unknowns (List.zipWith (slotRecords (Message.encode old))
      (old.desc m.descriptor).fields m.slots).flatten = [] := by
    refine hgen.unknowns_nil fun r hr => ?_
    obtain ⟨p, hp, hr⟩ := mem_zipWith_flatten.mp hr
    obtain ⟨g, hg, hext⟩ := hlacks _ p.1 (List.of_mem_zip hp).1
    exact ⟨g, hg, hext.id.trans (tag_of_mem_slotRecords hr).symm⟩
  rw [Message.records, recordsLayer, MessageDescriptor.unknowns_append, hslots, List.nil_append, hunknown,
    CArray.ofList_elems, map_unknownRecord_unknowns, MessageDescriptor.unknowns, List.filter_filter,
    MessageDescriptor.unknowns]
  congr 1
  refine List.filter_congr fun r _ => ?_
  by_cases hnew : (new.desc (up m.descriptor)).field? r.tag = none
  · have hold : (old.desc m.descriptor).field? r.tag = none := by
      refine (old.generated _).field?_eq_none.mpr fun f hf hid => ?_
      obtain ⟨g, hg, hext⟩ := hlacks _ f hf
      exact hgen.field?_eq_none.mp hnew g hg (hext.id.trans hid)
    simp [hnew, hold]
  · simp [hnew]

/-- What the new program reads of the members that the old one wrote, field by field. -/
theorem fields_through {m : Message} {rs : List Record} {slots' : List Slot}
    (hpack : List.Forall₂ SlotPackable (old.desc m.descriptor).fields m.slots)
    (hknown : ∀ u ∈ m.unknown.elems, ∀ f ∈ (old.desc m.descriptor).fields, f.id ≠ u.tag)
    (hunknown : m.unknown = .ofList ((old.desc m.descriptor).unknowns rs))
    (hpayload : ∀ r ∈ m.records old, r.payload.length < 2 ^ 32)
    (hreq : ∀ f ∈ (old.desc m.descriptor).fields, f.label = .required → fieldRecords f rs ≠ [])
    (hslots : List.Forall₂ (fun f slot =>
      (fieldRecords f rs).foldlM (slotStep (decode old) f) f.initSlot = some slot)
      (old.desc m.descriptor).fields m.slots)
    (hslots' : List.Forall₂ (fun g slot' =>
      (fieldRecords g rs).foldlM (slotStep (decode new) g) g.initSlot = some slot')
      (new.desc (up m.descriptor)).fields slots')
    (hsub : ∀ f ∈ (old.desc m.descriptor).fields, f.type = .message → ∀ r ∈ fieldRecords f rs,
      ∀ c, decode old f.descriptor r.body = some c → (c.encode old).length < 2 ^ 32 →
        ∃ c' c'', decode new (up f.descriptor) r.body = some c' ∧
          decode new (up f.descriptor) (c.encode old) = some c'' ∧ c''.normal new = c'.normal new) :
    List.Forall₂ (fun g slot' => ∃ slot'',
      (fieldRecords g (m.records old)).foldlM (slotStep (decode new) g) g.initSlot = some slot'' ∧
        slot''.normal (Message.normal new) g = slot'.normal (Message.normal new) g)
      (new.desc (up m.descriptor)).fields slots' := by
  have hgen := old.generated m.descriptor
  have hgen' := new.generated (up m.descriptor)
  refine List.forall₂_iff_zip.mpr ⟨hslots'.length_eq, fun {g slot'} hmem' => ?_⟩
  have hg := (List.of_mem_zip hmem').1
  have hfold' := (List.forall₂_iff_zip.mp hslots').2 hmem'
  by_cases hexists : ∃ f ∈ (old.desc m.descriptor).fields, f.id = g.id
  · obtain ⟨f, hf, hid⟩ := hexists
    have hext := hlacks.eq_of_id hf hg hid
    obtain ⟨slot, hmem⟩ := mem_zip_of_left hslots.length_eq hf
    have hfold := (List.forall₂_iff_zip.mp hslots).2 hmem
    have hreceived := slotReceived_of_fold (hgen.field f hf) (hreq f hf) hfold
    have hshort : ∀ r ∈ slotRecords (Message.encode old) f slot, r.payload.length < 2 ^ 32 :=
      fun r hr => hpayload r (mem_recordsLayer.mpr (.inl ⟨_, hmem, hr⟩))
    have hown : fieldRecords f (m.records old) = slotRecords (Message.encode old) f slot :=
      fieldRecords_recordsLayer hpack.length_eq hknown hmem
    rw [hext.fieldRecords] at hfold' ⊢
    rw [hown]
    refine member_through hext (hgen.field f hf) (hgen'.field g hg) hreceived hshort (hreq f hf) hfold
      hfold' fun r hr c hc hdec => ?_
    obtain ⟨htype, -⟩ := hreceived.children c hc
    obtain ⟨v, hv, hcv⟩ := Slot.mem_writtenChildren.mp hc
    rw [hext.descriptor htype]
    exact hsub f hf htype r hr c hdec
      (length_enc_lt (hgen.field f hf) hreceived.packable hshort hv c hcv)
  · have hnone : ∀ f ∈ (old.desc m.descriptor).fields, f.id ≠ g.id := fun f hf hid => hexists ⟨f, hf, hid⟩
    rw [fieldRecords_of_unknown hunknown hnone]
    exact ⟨slot', hfold', rfl⟩

/-- The required fields of the new program have records, written by the old one from its members or from
its unknown fields. -/
theorem required_through {m : Message} {rs : List Record} {data : List UInt8}
    (hpack : List.Forall₂ SlotPackable (old.desc m.descriptor).fields m.slots)
    (hunknown : m.unknown = .ofList ((old.desc m.descriptor).unknowns rs))
    (hpresent : RequiredPresent new (up m.descriptor) data) (hrs : tokenize data = some rs)
    {g : FieldDescriptor} (hg : g ∈ (new.desc (up m.descriptor)).fields) (hlabel : g.label = .required) :
    ∃ r ∈ m.records old, r.tag = g.id := by
  by_cases hexists : ∃ f ∈ (old.desc m.descriptor).fields, f.id = g.id
  · obtain ⟨f, hf, hid⟩ := hexists
    have hext := hlacks.eq_of_id hf hg hid
    obtain ⟨r, hr, htag⟩ : ∃ r ∈ m.records old, r.tag = f.id :=
      required_record hpack hf (hext.label.symm.trans hlabel)
    exact ⟨r, hr, htag.trans hid⟩
  · obtain ⟨r, hr, htag⟩ := hpresent _ _ rs (.self _ _) hrs g hg hlabel
    refine ⟨r, mem_records_of_unknown hunknown hr fun f hf hid => ?_, htag⟩
    exact hexists ⟨f, hf, hid.trans htag⟩

theorem not_missing_through {m : Message} {rs : List Record} {data : List UInt8}
    (hpack : List.Forall₂ SlotPackable (old.desc m.descriptor).fields m.slots)
    (hunknown : m.unknown = .ofList ((old.desc m.descriptor).unknowns rs))
    (hpresent : RequiredPresent new (up m.descriptor) data) (hrs : tokenize data = some rs) :
    (new.desc (up m.descriptor)).missing (m.records old) = false := by
  rw [← Bool.not_eq_true, missing_iff (new.generated (up m.descriptor))]
  rintro ⟨i, g, habsent, -⟩
  obtain ⟨r, hr, htag⟩ := required_through hlacks hpack hunknown hpresent hrs
    (List.mem_of_getElem? habsent.get) habsent.required
  exact habsent.noRecord r hr htag

/-! ## Messages -/

/-- What the new program reads from what the old one wrote. -/
theorem decode_through_old (p : DescriptorId × List UInt8) :
    RequiredPresent new (up p.1) p.2 → ∀ m m', decode old p.1 p.2 = some m →
      decode new (up p.1) p.2 = some m' → (m.encode old).length < 2 ^ 32 →
        ∃ m'', decode new (up p.1) (m.encode old) = some m'' ∧ m''.normal new = m'.normal new := by
  refine measure_induction (fun p : DescriptorId × List UInt8 => p.2.length)
    (P := fun p => RequiredPresent new (up p.1) p.2 → ∀ m m', decode old p.1 p.2 = some m →
      decode new (up p.1) p.2 = some m' → (m.encode old).length < 2 ^ 32 →
        ∃ m'', decode new (up p.1) (m.encode old) = some m'' ∧ m''.normal new = m'.normal new) ?_ p
  rintro ⟨d, data⟩ ih hpresent m m' hm hm' hlt
  have hpresent' := hlacks.requiredPresent hpresent
  obtain ⟨hpackable, hreadable⟩ := decode_packable (d, data) hpresent' m hm
  obtain ⟨rs, hrs, -, rfl, hunknown, hslots⟩ := decode_iff.mp hm
  obtain ⟨rs', hrs', -, hd', hunknown', hslots'⟩ := decode_iff.mp hm'
  obtain rfl := Option.some.inj (hrs.symm.trans hrs')
  obtain ⟨_, hpack, -, -, -⟩ := hpackable
  obtain ⟨_, -, hknown, -⟩ := hreadable
  have hgen' := new.generated (up m.descriptor)
  -- the sub-messages are those of shorter inputs
  have hsub : ∀ f ∈ (old.desc m.descriptor).fields, f.type = .message → ∀ r ∈ fieldRecords f rs,
      ∀ c, decode old f.descriptor r.body = some c → (c.encode old).length < 2 ^ 32 →
        ∃ c' c'', decode new (up f.descriptor) r.body = some c' ∧
          decode new (up f.descriptor) (c.encode old) = some c'' ∧ c''.normal new = c'.normal new := by
    intro f hf htype r hr c hdec hclt
    obtain ⟨g, hg, hext⟩ := hlacks _ f hf
    obtain ⟨hrmem, htag⟩ := List.mem_filter.mp hr
    obtain ⟨j, hj, hgj⟩ := List.getElem_of_mem hg
    have hfield' : (new.desc (up m.descriptor)).field? r.tag = some (j, g) :=
      hgen'.field?_eq_some.mpr ⟨hgj ▸ List.getElem?_eq_getElem hj,
        hext.id.trans (of_decide_eq_true htag).symm⟩
    obtain ⟨c', hdec'⟩ := decode_body hm' hrs hrmem hfield' (hext.type.trans htype)
    have hpresentc : RequiredPresent new g.descriptor r.body :=
      hpresent.body hrs (by rw [hext.fieldRecords]; exact hr) hg (hext.type.trans htype)
    rw [hext.descriptor htype] at hdec' hpresentc
    obtain ⟨c'', hdec'', hsame⟩ :=
      ih (f.descriptor, r.body) (tokenize_body_lt hrs hrmem) hpresentc c c' hdec hdec' hclt
    exact ⟨c', c'', hdec', hdec'', hsame⟩
  obtain ⟨slots'', hslots'', hzip⟩ := exists_zipWith (fields_through hlacks hpack
    (fun u hu => (hknown u hu).2) hunknown (length_payload_lt hlt)
    (fun f hf => hpresent'.records hrs hf) hslots hslots' hsub)
  refine ⟨.mk (up m.descriptor) slots'' (.ofList ((new.desc (up m.descriptor)).unknowns rs)), ?_, ?_⟩
  · refine decode_iff.mpr ⟨m.records old, tokenize_encode hpack (fun u hu => (hknown u hu).1) hlt,
      not_missing_through hlacks hpack hunknown hpresent hrs, rfl, ?_, hslots''⟩
    rw [unknowns_of_unknown hlacks hunknown]
    rfl
  · rw [Message.normal_eq, Message.normal_eq, normalLayer, normalLayer, hd', hunknown']
    simp only [Message.descriptor_mk, Message.slots_mk, Message.unknown_mk, hzip]

end

/-! ## The code -/

section
variable {σ σ₁ σ₂ : Type} {H : HeapAllocator σ} {H₁ : HeapAllocator σ₁} {H₂ : HeapAllocator σ₂}
  {d : DescriptorId} {data : List UInt8} {s₁ s₁' : σ₁} {s₂ s₂' : σ₂} {a a' : Addr} {m m' : Message}

/-- An unpacked message can be packed. -/
theorem messageUnpack_packable {S : Schema} (hpresent : RequiredPresent S d data)
    (hrun : messageUnpack H₁.toAllocator S d data s₁ = .ok (.ref a m, s₁')) : m.Packable S :=
  .of_erase m (decode_packable (d, data) hpresent _ (messageUnpack_decode hrun)).1

/-- The new program reads the same message from the bytes, and from what an old program has made of them. -/
theorem messageUnpack_through_old {old new : Schema} {up : DescriptorId → DescriptorId}
    (hlacks : old.Lacks new up) (hinf : H.Infallible)
    (hpresent : RequiredPresent new (up d) data)
    (hrun : messageUnpack H₁.toAllocator old d data s₁ = .ok (.ref a m, s₁'))
    (hrun' : messageUnpack H₂.toAllocator new (up d) data s₂ = .ok (.ref a' m', s₂'))
    {size : ℕ} (hsize : messageGetPackedSize old m = .ok size) (hlt : size < 2 ^ 32)
    {out : List UInt8} (hout : out.length = size) :
    ∃ through, messagePack old m 0 out = .ok (size, through) ∧ ∀ s, ∃ a'' m'' s',
      messageUnpack H.toAllocator new (up d) through s = .ok (.ref a'' m'', s') ∧
        m''.normal new = m'.normal new := by
  have hdec := messageUnpack_decode hrun
  have hpackable := messageUnpack_packable (hlacks.requiredPresent hpresent) hrun
  obtain ⟨hlength, hpack⟩ := messagePack_encode hpackable hsize hlt hout
  obtain ⟨m₀, hread, hsame⟩ := decode_through_old hlacks (d, data) hpresent m.erase m'.erase hdec
    (messageUnpack_decode hrun') (by rw [m.encode_erase]; omega)
  rw [m.encode_erase] at hread
  refine ⟨m.encode old, hpack, fun s => ?_⟩
  obtain ⟨a'', m'', s', hunpack, herase, -⟩ := messageUnpack_of_decode hinf (by omega) hread s
  exact ⟨a'', m'', s', hunpack, by rw [← m''.normal_erase, herase, hsame, m'.normal_erase]⟩

end

theorem tokenize_bothRequired :
    tokenize [8, 5, 16, 7] = some [⟨1, .varint, [5]⟩, ⟨2, .varint, [7]⟩] := by
  rw [tokenize_cons (by simp) (show nextRecord [8, 5, 16, 7] =
      some (⟨1, .varint, [5]⟩, [16, 7]) from rfl),
    tokenize_cons (by simp) (show nextRecord [16, 7] = some (⟨2, .varint, [7]⟩, []) from rfl)]
  simp

theorem requiredPresent_bothRequired : RequiredPresent twoRequiredSchema 0 [8, 5, 16, 7] := by
  refine .of_flat (fun d field hfield => ?_) tokenize_bothRequired fun field hfield _ => ?_
  · change field ∈ [FieldDescriptor.scalar .required .int32 1, .scalar .required .int32 2] at hfield
    simp only [List.mem_cons, List.not_mem_nil, or_false] at hfield
    obtain rfl | rfl := hfield <;> decide
  · change field ∈ [FieldDescriptor.scalar .required .int32 1, .scalar .required .int32 2] at hfield
    simp only [List.mem_cons, List.not_mem_nil, or_false] at hfield
    obtain rfl | rfl := hfield
    · exact ⟨_, List.mem_cons_self, rfl⟩
    · exact ⟨_, List.mem_cons_of_mem _ List.mem_cons_self, rfl⟩

theorem int32Schema_lacks : int32Schema.Lacks twoRequiredSchema id := by
  intro d f hf
  obtain rfl := List.mem_singleton.mp hf
  exact ⟨_, List.mem_cons_self, rfl, rfl, rfl, rfl, fun h => absurd h (by decide)⟩

/-- What a program without the second field makes of `08 05 10 07`. -/
def keptMessage : Message :=
  .mk 0 [.singular 0 (.word32 5)]
    ⟨1, some (.block 1), 1, [⟨2, .varint, 1, some ⟨.block 2, [7]⟩⟩]⟩

/-- What a program with both fields makes of `08 05 10 07`. -/
def bothMessage : Message := .mk 0 [.singular 0 (.word32 5), .singular 0 (.word32 7)] .null

theorem messageUnpack_kept : messageUnpack countingHeap.toAllocator int32Schema 0 [8, 5, 16, 7] (0, []) =
    .ok (.ref (.block 0) keptMessage, (3, [2, 1, 0])) := rfl

theorem messageUnpack_both :
    messageUnpack countingHeap.toAllocator twoRequiredSchema 0 [8, 5, 16, 7] (0, []) =
      .ok (.ref (.block 0) bothMessage, (1, [0])) := rfl

/-- `messageUnpack_through_old` for a field that the old program does not know. -/
theorem messageUnpack_through_old_int32 : ∃ through,
    messagePack int32Schema keptMessage 0 (List.replicate 4 0) = .ok (4, through) ∧ ∀ s, ∃ a m s',
      messageUnpack countingHeap.toAllocator twoRequiredSchema 0 through s = .ok (.ref a m, s') ∧
        m.normal twoRequiredSchema = bothMessage.normal twoRequiredSchema :=
  messageUnpack_through_old int32Schema_lacks countingHeap_infallible requiredPresent_bothRequired
    messageUnpack_kept messageUnpack_both
    (show messageGetPackedSize int32Schema keptMessage = .ok 4 from rfl) (by norm_num) rfl

section
variable {σ σ₁ : Type} {H : HeapAllocator σ} {H₁ : HeapAllocator σ₁} {d : DescriptorId} {data : List UInt8}
  {s₁ s₁' : σ₁} {a : Addr} {m : Message}

/-- Decoding and encoding lose nothing, and after the first time the bytes stay as they are. -/
theorem messagePack_unpacked {S : Schema} (hinf : H.Infallible) (hpresent : RequiredPresent S d data)
    (hrun : messageUnpack H₁.toAllocator S d data s₁ = .ok (.ref a m, s₁'))
    {size : ℕ} (hsize : messageGetPackedSize S m = .ok size) (hlt : size < 2 ^ 32)
    {out : List UInt8} (hout : out.length = size) :
    ∃ again, messagePack S m 0 out = .ok (size, again) ∧ ∀ s, ∃ a' m' s',
      messageUnpack H.toAllocator S d again s = .ok (.ref a' m', s') ∧ m'.normal S = m.normal S ∧
        ∀ out' : List UInt8, out'.length = size → messagePack S m' 0 out' = .ok (size, again) := by
  have hdec := messageUnpack_decode hrun
  obtain ⟨hpackable, hreadable⟩ := decode_packable (d, data) hpresent _ hdec
  have hm := messageUnpack_packable hpresent hrun
  obtain ⟨hlength, hpack⟩ := messagePack_encode hm hsize hlt hout
  have hread := decode_encode hreadable hpackable (by rw [m.encode_erase]; omega)
  rw [descriptor_of_decode hdec, m.encode_erase, m.normal_erase] at hread
  refine ⟨m.encode S, hpack, fun s => ?_⟩
  obtain ⟨a', m', s', hunpack, herase, -⟩ := messageUnpack_of_decode hinf (by omega) hread s
  have hm' : m'.Packable S := .of_erase m' (herase ▸ .normal m hm)
  have hbytes : m'.encode S = m.encode S := by
    rw [← m'.encode_erase, herase, m.encode_normal hm]
  refine ⟨a', m', s', hunpack, ?_, fun out' hout' => ?_⟩
  · rw [← m'.normal_erase, herase, m.normal_normal hm]
  · have hsize' : messageGetPackedSize S m' = .ok size := by
      rw [messageGetPackedSize_eq hm', hbytes, hlength]
    rw [← hbytes]
    exact (messagePack_encode hm' hsize' (by omega) hout').2

end

/-- `messagePack_unpacked` on `08 05 10 07`. -/
theorem messagePack_unpacked_both : ∃ again,
    messagePack twoRequiredSchema bothMessage 0 (List.replicate 4 0) = .ok (4, again) ∧ ∀ s, ∃ a' m' s',
      messageUnpack countingHeap.toAllocator twoRequiredSchema 0 again s = .ok (.ref a' m', s') ∧
        m'.normal twoRequiredSchema = bothMessage.normal twoRequiredSchema ∧
        ∀ out' : List UInt8, out'.length = 4 →
          messagePack twoRequiredSchema m' 0 out' = .ok (4, again) :=
  messagePack_unpacked countingHeap_infallible requiredPresent_bothRequired messageUnpack_both
    (show messageGetPackedSize twoRequiredSchema bothMessage = .ok 4 from rfl) (by norm_num) rfl

end ProtobufC
