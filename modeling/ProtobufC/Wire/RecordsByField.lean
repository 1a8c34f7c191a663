import ProtobufC.Library.Routing
import ProtobufC.Wire.Decode

/-! # The records of a field

A record changes the member of its own field, or it becomes an unknown field.  So the decoder is made of
one fold for each field, over the records with the number of the field, and of a list of the records with
no field (`foldRecords_init`, `decode_iff`): in what order the records of different fields come makes no
difference.
-/

namespace ProtobufC
open Library
set_option autoImplicit false

/-- The records with the number of the field. -/
def fieldRecords (field : FieldDescriptor) (rs : List Record) : List Record :=
  rs.filter fun r => r.tag = field.id

/-- The records that are no field of the message, as unknown fields. -/
def MessageDescriptor.unknowns (desc : MessageDescriptor) (rs : List Record) : List MessageUnknownField :=
  (rs.filter fun r => (desc.field? r.tag).isNone).map Record.unknownField

/-- The index of the field of a record. -/
def MessageDescriptor.route (desc : MessageDescriptor) (r : Record) : Option ℕ :=
  (desc.field? r.tag).map Prod.fst

@[simp] theorem fieldRecords_nil (field : FieldDescriptor) : fieldRecords field [] = [] := rfl

@[simp] theorem fieldRecords_append (field : FieldDescriptor) (rs rs' : List Record) :
    fieldRecords field (rs ++ rs') = fieldRecords field rs ++ fieldRecords field rs' :=
  List.filter_append _ _

theorem fieldRecords_self {field : FieldDescriptor} {rs : List Record} (h : ∀ r ∈ rs, r.tag = field.id) :
    fieldRecords field rs = rs :=
  List.filter_eq_self.mpr fun r hr => decide_eq_true (h r hr)

theorem fieldRecords_none {field : FieldDescriptor} {rs : List Record} (h : ∀ r ∈ rs, r.tag ≠ field.id) :
    fieldRecords field rs = [] :=
  List.filter_eq_nil_iff.mpr fun r hr => by simpa using h r hr

@[simp] theorem MessageDescriptor.unknowns_append (desc : MessageDescriptor) (rs rs' : List Record) :
    desc.unknowns (rs ++ rs') = desc.unknowns rs ++ desc.unknowns rs' := by
  unfold MessageDescriptor.unknowns
  rw [List.filter_append, List.map_append]

theorem MessageDescriptor.Generated.unknowns_nil {desc : MessageDescriptor} (h : desc.Generated)
    {rs : List Record} (hrs : ∀ r ∈ rs, ∃ f ∈ desc.fields, f.id = r.tag) : desc.unknowns rs = [] := by
  have hnone : rs.filter (fun r => (desc.field? r.tag).isNone) = [] := by
    refine List.filter_eq_nil_iff.mpr fun r hr hnone => ?_
    obtain ⟨f, hf, hid⟩ := hrs r hr
    exact h.field?_eq_none.mp (Option.isNone_iff_eq_none.mp hnone) f hf hid
  rw [MessageDescriptor.unknowns, hnone, List.map_nil]

theorem MessageDescriptor.Generated.unknowns_all {desc : MessageDescriptor} (h : desc.Generated)
    {rs : List Record} (hrs : ∀ r ∈ rs, ∀ f ∈ desc.fields, f.id ≠ r.tag) :
    desc.unknowns rs = rs.map Record.unknownField := by
  have hall : rs.filter (fun r => (desc.field? r.tag).isNone) = rs :=
    List.filter_eq_self.mpr fun r hr => Option.isNone_iff_eq_none.mpr (h.field?_eq_none.mpr (hrs r hr))
  rw [MessageDescriptor.unknowns, hall]

section
variable {sub : DescriptorId → List UInt8 → Option Message} {desc : MessageDescriptor}

variable (sub desc) in
/-- A record in the members. -/
def slotsStep (i : ℕ) (slot : Slot) (r : Record) : Option Slot :=
  desc.fields[i]?.bind fun field => slotStep sub field slot r

theorem slotsStep_eq {i : ℕ} {field : FieldDescriptor} (h : desc.fields[i]? = some field) :
    slotsStep sub desc i = slotStep sub field := by
  funext slot r
  rw [slotsStep, h, Option.bind_some]

theorem messageStep_eq (h : desc.Generated) (d : DescriptorId) (slots : List Slot)
    (us : List MessageUnknownField) (r : Record) : messageStep sub desc (.mk d slots (.ofList us)) r =
      (routeStep desc.route (slotsStep sub desc) slots r).map fun slots' =>
        .mk d slots' (.ofList (us ++ desc.unknowns [r])) := by
  unfold messageStep routeStep MessageDescriptor.route MessageDescriptor.unknowns
  cases hf : desc.field? r.tag with
  | none => simp [hf]
  | some p =>
    obtain ⟨i, field⟩ := p
    have hi := (h.field?_eq_some.mp hf).1
    simp only [Option.map_some, slotsStep, hi, Option.bind_some, Message.slots_mk]
    cases slots[i]? with
    | none => rfl
    | some slot =>
      cases hstep : slotStep sub field slot r with
      | none => simp [hstep]
      | some slot' => simp [hstep, hf]

theorem foldRecords_eq (h : desc.Generated) (d : DescriptorId) (rs : List Record) (slots : List Slot)
    (us : List MessageUnknownField) : foldRecords sub desc (.mk d slots (.ofList us)) rs =
      (rs.foldlM (routeStep desc.route (slotsStep sub desc)) slots).map fun slots' =>
        .mk d slots' (.ofList (us ++ desc.unknowns rs)) := by
  unfold foldRecords
  induction rs generalizing slots us with
  | nil =>
    have hnone : desc.unknowns [] = [] := rfl
    rw [List.foldlM_nil, List.foldlM_nil, hnone, List.append_nil]
    rfl
  | cons r rs ih =>
    rw [List.foldlM_cons, List.foldlM_cons, messageStep_eq h]
    cases routeStep desc.route (slotsStep sub desc) slots r with
    | none => rfl
    | some slots' =>
      have happ : desc.unknowns (r :: rs) = desc.unknowns [r] ++ desc.unknowns rs :=
        desc.unknowns_append [r] rs
      rw [happ, ← List.append_assoc]
      exact ih slots' (us ++ desc.unknowns [r])

theorem routed_eq (h : desc.Generated) {i : ℕ} {field : FieldDescriptor}
    (hi : desc.fields[i]? = some field) (rs : List Record) :
    routed desc.route i rs = fieldRecords field rs := by
  refine List.filter_congr fun r _ => decide_eq_decide.mpr ?_
  unfold MessageDescriptor.route
  rw [Option.map_eq_some_iff]
  constructor
  · rintro ⟨⟨j, g⟩, hf, rfl⟩
    obtain ⟨hj, hid⟩ := h.field?_eq_some.mp hf
    obtain rfl := Option.some.inj (hi.symm.trans hj)
    exact hid.symm
  · intro htag
    exact ⟨(i, field), h.field?_eq_some.mpr ⟨hi, htag.symm⟩, rfl⟩

/-- The fold over the records, field by field. -/
theorem foldRecords_init {S : Schema} {d : DescriptorId} {rs : List Record} {m : Message} :
    foldRecords sub (S.desc d) (S.initMessage d) rs = some m ↔
      m.descriptor = d ∧ m.unknown = .ofList ((S.desc d).unknowns rs) ∧
        List.Forall₂ (fun field slot =>
          (fieldRecords field rs).foldlM (slotStep sub field) field.initSlot = some slot)
          (S.desc d).fields m.slots := by
  have hgen := S.generated d
  have hroute : ∀ r ∈ rs, ∀ i, (S.desc d).route r = some i → i < (S.desc d).initSlots.length := by
    intro r _ i hi
    obtain ⟨⟨j, field⟩, hf, rfl⟩ := Option.map_eq_some_iff.mp hi
    have hj := (List.getElem?_eq_some_iff.mp (hgen.field?_eq_some.mp hf).1).1
    rw [hgen.initSlots_eq, List.length_map]
    exact hj
  have hcell : ∀ {i : ℕ} {field : FieldDescriptor}, (S.desc d).fields[i]? = some field →
      (S.desc d).initSlots[i]? = some field.initSlot := by
    intro i field hi
    rw [hgen.initSlots_eq, List.getElem?_map, hi, Option.map_some]
  have hinit : S.initMessage d = .mk d (S.desc d).initSlots (.ofList []) := rfl
  rw [hinit, foldRecords_eq hgen, Option.map_eq_some_iff, List.forall₂_iff_get]
  constructor
  · rintro ⟨slots, hslots, rfl⟩
    obtain ⟨hlength, hcells⟩ := (foldlM_routeStep hroute).mp hslots
    rw [hgen.initSlots_eq, List.length_map] at hlength
    refine ⟨rfl, rfl, hlength.symm, fun i hi hi' => ?_⟩
    have hfield := List.getElem?_eq_getElem hi
    obtain ⟨slot, hslot, hfold⟩ := hcells i _ (hcell hfield)
    rw [routed_eq hgen hfield, slotsStep_eq hfield] at hfold
    obtain ⟨hi'', rfl⟩ := List.getElem?_eq_some_iff.mp hslot
    exact hfold
  · rintro ⟨hd, hunknown, hlength, hcells⟩
    refine ⟨m.slots, (foldlM_routeStep hroute).mpr ⟨?_, fun i slot hslot => ?_⟩, ?_⟩
    · rw [hgen.initSlots_eq, List.length_map]
      exact hlength.symm
    · have hi : i < (S.desc d).fields.length := by
        have := (List.getElem?_eq_some_iff.mp hslot).1
        rwa [hgen.initSlots_eq, List.length_map] at this
      have hfield := List.getElem?_eq_getElem hi
      obtain rfl := Option.some.inj ((hcell hfield).symm.trans hslot)
      refine ⟨_, List.getElem?_eq_getElem (hlength ▸ hi), ?_⟩
      rw [routed_eq hgen hfield, slotsStep_eq hfield]
      exact hcells i hi (hlength ▸ hi)
    · rw [List.nil_append, ← hunknown, ← hd]
      exact m.eta

end

/-- The decoder, field by field. -/
theorem decode_iff {S : Schema} {d : DescriptorId} {data : List UInt8} {m : Message} :
    decode S d data = some m ↔ ∃ rs, tokenize data = some rs ∧ (S.desc d).missing rs = false ∧
      m.descriptor = d ∧ m.unknown = .ofList ((S.desc d).unknowns rs) ∧
        List.Forall₂ (fun field slot =>
          (fieldRecords field rs).foldlM (slotStep (decode S) field) field.initSlot = some slot)
          (S.desc d).fields m.slots := by
  simp only [decode_eq_some, foldRecords_init]

end ProtobufC
