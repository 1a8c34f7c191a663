import ProtobufC.Wire.OldSchema

/-! # The message that comes back

`Message.ReadAs` says member by member what of a message is found again in another: numbers, the truth of
booleans, strings as C strings, bytes, elements in their order, sub-messages and unknown fields, and the
default value where a field is not written.  What is unpacked from the bytes of a message is read as that
message (`messageUnpack_readsBack`), and so is what comes back from a program with an older schema
(`messageUnpack_transparent`).
-/

namespace ProtobufC
open Library
set_option autoImplicit false

/-! ## Reading a message as another -/

/-- The second value says what the first one does. -/
def Value.ReadAs (sub : Message → Message → Prop) : Value → Value → Prop
  | .word32 v, .word32 w => w = v
  | .word64 v, .word64 w => w = v
  | .boolean v, .boolean w => w = 0 ↔ v = 0
  | .string p, .string q => cString (q.elim [] Ptr.val) = cString (p.elim [] Ptr.val)
  | .bytes len p, .bytes len' q =>
      len' = len ∧ (q.elim [] Ptr.val).take len' = (p.elim [] Ptr.val).take len
  | .message .null, .message .null => True
  | .message (.ref _ c), .message (.ref _ c') => sub c c'
  | _, _ => False

/-- A field that is written is written with the same value, any other has its initial member. -/
def Slot.ReadAs (sub : Message → Message → Prop) (field : FieldDescriptor) : Slot → Slot → Prop
  | .singular has v, .singular has' w =>
      if field.writes has v then field.writes has' w = true ∧ v.ReadAs sub w
      else Slot.singular has' w = field.initSlot
  | .repeated a, .repeated b => b.n = a.n ∧ List.Forall₂ (Value.ReadAs sub) a.elems b.elems
  | _, _ => False

/-- One level of `Message.ReadAs`. -/
def readAsLayer (S : Schema) (sub : Message → Message → Prop) (m m' : Message) : Prop :=
  m'.descriptor = m.descriptor ∧
    List.Forall₂ (fun p slot => p.2.ReadAs sub p.1 slot)
      ((S.desc m.descriptor).fields.zip m.slots) m'.slots ∧
    m'.unknown.n = m.unknown.n ∧ m'.unknown.elems.map unknownRecord = m.unknown.elems.map unknownRecord

/-- `m'` says what `m` does. -/
def Message.ReadAs (S : Schema) : Message → Message → Prop :=
  layerRec Message.depth (readAsLayer S) fun _ => False

theorem forall₂_congr_left {α β : Type} {R R' : α → β → Prop} {as : List α} {bs : List β}
    (h : ∀ a ∈ as, R a = R' a) : List.Forall₂ R as bs = List.Forall₂ R' as bs := by
  induction as generalizing bs with
  | nil => simp only [List.forall₂_nil_left_iff]
  | cons a as ih =>
    have htail : ∀ bs, List.Forall₂ R as bs = List.Forall₂ R' as bs := fun bs =>
      ih fun a' ha' => h a' (List.mem_cons_of_mem _ ha')
    simp only [List.forall₂_cons_left_iff, h a List.mem_cons_self, htail]

theorem Value.readAs_congr {sub sub' : Message → Message → Prop} {v : Value}
    (h : ∀ c ∈ v.children, sub c = sub' c) : v.ReadAs sub = v.ReadAs sub' := by
  funext w
  cases v with
  | message p =>
    cases w with
    | message q =>
      cases p with
      | null => cases q <;> rfl
      | ref a c =>
        cases q with
        | null => rfl
        | ref a' c' => exact congrFun (h c List.mem_cons_self) c'
    | word32 w | word64 w | boolean w | string q | bytes len q => cases p <;> rfl
  | word32 v | word64 v | boolean v | string p | bytes len p => cases w <;> rfl

theorem Slot.readAs_congr {sub sub' : Message → Message → Prop} {field : FieldDescriptor} {slot : Slot}
    (h : ∀ c ∈ slot.children, sub c = sub' c) : slot.ReadAs sub field = slot.ReadAs sub' field := by
  funext slot'
  cases slot with
  | singular has v =>
    cases slot' with
    | singular has' w => rw [Slot.ReadAs, Slot.ReadAs, Value.readAs_congr h]
    | repeated b => rfl
  | repeated a =>
    cases slot' with
    | singular has' w => rfl
    | repeated b =>
      have helems : ∀ v ∈ a.elems, v.ReadAs sub = v.ReadAs sub' := fun v hv =>
        Value.readAs_congr fun c hc => h c (List.mem_flatMap.mpr ⟨v, hv, hc⟩)
      rw [Slot.ReadAs, Slot.ReadAs, forall₂_congr_left helems]

theorem Message.readAs_eq (S : Schema) (m : Message) : m.ReadAs S = readAsLayer S (Message.ReadAs S) m := by
  refine layerRec_eq ?_ m
  intro m g g' h
  funext m'
  have hslot : ∀ p ∈ (S.desc m.descriptor).fields.zip m.slots,
      (fun slot => p.2.ReadAs g p.1 slot) = fun slot => p.2.ReadAs g' p.1 slot := fun p hp =>
    Slot.readAs_congr fun c hc =>
      h c (m.depth_children c (List.mem_flatMap.mpr ⟨p.2, (List.of_mem_zip hp).2, hc⟩))
  rw [readAsLayer, readAsLayer, forall₂_congr_left hslot]

/-! ## Normal forms -/

section
variable {nf : Message → Message} {sub : Message → Message → Prop} {field : FieldDescriptor} {v w : Value}

/-- Values with the same normal form say the same. -/
theorem Value.readAs_of_normal (hsame : w.normal nf = v.normal nf) (hv : v.Readable) (hw : w.Readable)
    (hsub : ∀ c ∈ v.children, ∀ c' ∈ w.children, nf c' = nf c → sub c c') : v.ReadAs sub w := by
  cases v with
  | word32 v =>
    cases w with
    | word32 w => exact Value.word32.inj hsame
    | message q => cases q <;> exact absurd hsame (by simp [Value.normal])
    | word64 w | boolean w | string q | bytes len q => exact absurd hsame (by simp [Value.normal])
  | word64 v =>
    cases w with
    | word64 w => exact Value.word64.inj hsame
    | message q => cases q <;> exact absurd hsame (by simp [Value.normal])
    | word32 w | boolean w | string q | bytes len q => exact absurd hsame (by simp [Value.normal])
  | boolean v =>
    cases w with
    | boolean w =>
      have htruth := Value.boolean.inj hsame
      change w = 0 ↔ v = 0
      by_cases hv0 : v = 0 <;> by_cases hw0 : w = 0 <;> simp_all
    | message q => cases q <;> exact absurd hsame (by simp [Value.normal])
    | word32 w | word64 w | string q | bytes len q => exact absurd hsame (by simp [Value.normal])
  | string p =>
    cases w with
    | string q =>
      have hval := congrArg Ptr.val (Option.some.inj (Value.string.inj hsame))
      exact List.append_cancel_right hval
    | message q => cases q <;> exact absurd hsame (by simp [Value.normal])
    | word32 w | word64 w | boolean w | bytes len q => exact absurd hsame (by simp [Value.normal])
  | bytes len p =>
    cases w with
    | bytes len' q =>
      obtain ⟨hlen, hdata⟩ := Value.bytes.inj hsame
      rw [List.length_take_of_le hw, List.length_take_of_le hv] at hlen
      refine ⟨hlen, ?_⟩
      split_ifs at hdata with hq hp
      · rw [List.isEmpty_iff.mp hq, List.isEmpty_iff.mp hp]
      · exact congrArg Ptr.val (Option.some.inj hdata)
    | message q => cases q <;> exact absurd hsame (by simp [Value.normal])
    | word32 w | word64 w | boolean w | string q => exact absurd hsame (by simp [Value.normal])
  | message p =>
    cases w with
    | message q =>
      cases p with
      | null =>
        cases q with
        | null => trivial
        | ref a' c' => exact absurd hsame (by simp [Value.normal])
      | ref a c =>
        cases q with
        | null => exact absurd hsame (by simp [Value.normal])
        | ref a' c' =>
          have hc := (MessagePtr.ref.inj (Value.message.inj hsame)).2
          exact hsub c List.mem_cons_self c' List.mem_cons_self hc
    | word32 w | word64 w | boolean w | string q | bytes len q =>
      cases p <;> exact absurd hsame (by simp [Value.normal])

/-- A member that is written does not have the normal form of one that is not. -/
theorem normal_ne_initSlot {has : Int32} (hg : field.Generated) (hv : Value.HasType field.type v)
    (hlabel : field.label ≠ .repeated) (hreq : field.label ≠ .required) (hw : field.writes has v = true) :
    (Slot.singular has v).normal nf field ≠ field.initSlot := by
  intro hsame
  rw [Slot.normal, if_pos hw, FieldDescriptor.initSlot_singular hlabel] at hsame
  obtain ⟨hhas, hval⟩ := Slot.singular.inj hsame
  have hwrites := hg.writes_normal hv hlabel hw nf
  rw [hhas, hval, FieldDescriptor.not_writes_init hreq] at hwrites
  exact absurd hwrites (by simp)

/-- A member that was decoded says what a member with the same normal form does. -/
theorem Slot.readAs_of_normal {dec : DescriptorId → List UInt8 → Option Message} {rs : List Record}
    {slot slot' : Slot} (hg : field.Generated) (hs : SlotPackable field slot)
    (hreq : field.label = .required → rs ≠ [])
    (hfold : rs.foldlM (slotStep dec field) field.initSlot = some slot')
    (hsame : slot'.normal nf field = slot.normal nf field)
    (hsub : ∀ c ∈ slot.writtenChildren field, ∀ r ∈ rs, ∀ c', field.type = .message →
      dec field.descriptor r.body = some c' → nf c' = nf c → sub c c') : slot.ReadAs sub field slot' := by
  cases slot with
  | repeated a =>
    obtain ⟨hlabel, hn, hvs⟩ := hs
    rw [FieldDescriptor.initSlot_repeated hlabel] at hfold
    obtain ⟨wss, hwss, rfl⟩ := foldlM_repeated hlabel hfold
    rw [List.nil_append] at hsame ⊢
    have hmap : wss.flatten.map (Value.normal nf) = a.elems.map (Value.normal nf) := by
      have helems := congrArg CArray.elems (Slot.repeated.inj hsame)
      rwa [CArray.ofList_elems, CArray.ofList_elems, CArray.ofList_elems] at helems
    have hlength : wss.flatten.length = a.elems.length := by
      have hlengths := congrArg List.length hmap
      rwa [List.length_map, List.length_map] at hlengths
    refine ⟨hlength.trans hn.symm, ?_⟩
    rw [CArray.ofList_elems]
    refine List.forall₂_iff_get.mpr ⟨hlength.symm, fun i hi hi' => ?_⟩
    have hv : a.elems[i] ∈ a.elems := List.getElem_mem hi
    obtain ⟨ws, hws, hw⟩ := List.mem_flatten.mp (List.getElem_mem hi')
    obtain ⟨j, hj, rfl⟩ := List.getElem_of_mem hws
    have hone := (List.forall₂_iff_get.mp hwss).2 j (hwss.length_eq ▸ hj) hj
    obtain ⟨-, hread, -, -, hchildren⟩ := decodeElements_packable hg hone hw
    have hnormal : (wss.flatten[i]).normal nf = (a.elems[i]).normal nf := by
      have hget := List.getElem_of_eq hmap (i := i) (by rwa [List.length_map])
      rwa [List.getElem_map, List.getElem_map] at hget
    refine Value.readAs_of_normal hnormal (hvs _ hv).2.1 hread fun c hc c' hc' heq => ?_
    obtain ⟨htype, hdec⟩ := hchildren c' hc'
    exact hsub c (List.mem_flatMap.mpr ⟨_, hv, hc⟩) _ (List.getElem_mem _) c' htype hdec heq
  | singular has v =>
    obtain ⟨hlabel, hv, hread⟩ := hs
    have hinit := FieldDescriptor.initSlot_singular hlabel
    obtain rfl | ⟨rs', r, rfl⟩ := List.eq_nil_or_concat rs
    · obtain rfl := Option.some.inj hfold
      have hopt : field.label ≠ .required := fun hl => hreq hl rfl
      rw [FieldDescriptor.normal_initSlot hopt] at hsame
      rw [hinit]
      by_cases hw : field.writes has v = true
      · exact absurd hsame.symm (normal_ne_initSlot hg hv hlabel hopt hw)
      · rw [Slot.ReadAs, if_neg hw, hinit]
    · rw [List.concat_eq_append] at hfold hsub
      rw [hinit] at hfold
      obtain ⟨w, hdec, rfl⟩ := foldlM_singular hlabel hfold
      have hwrites := writes_of_decodeValue hg hlabel hdec
      obtain ⟨htype, hreadw, -, -⟩ := decodeValue_packable hdec
      by_cases hw : field.writes has v = true
      · rw [Slot.ReadAs, if_pos hw]
        rw [Slot.normal, Slot.normal, if_pos hw, if_pos hwrites] at hsame
        refine ⟨hwrites, Value.readAs_of_normal (Slot.singular.inj hsame).2
          (hread (of_decide_eq_true hw)) hreadw fun c hc c' hc' heq => ?_⟩
        obtain ⟨hmessage, hbody⟩ := decodeValue_children hdec hc'
        have hwritten : c ∈ (Slot.singular has v).writtenChildren field :=
          Slot.writtenChildren_singular (of_decide_eq_true hw) ▸ hc
        exact hsub c hwritten r (List.mem_append_right _ List.mem_cons_self) c' hmessage hbody heq
      · have hopt : field.label ≠ .required := fun hl => hw (decide_eq_true (.inl hl))
        have hnormal : (Slot.singular has v).normal nf field = field.initSlot := if_neg hw
        rw [hnormal] at hsame
        exact absurd hsame (normal_ne_initSlot hg htype hlabel hopt hwrites)

end

/-! ## Messages -/

theorem unknownRecord_normal (u : MessageUnknownField) : unknownRecord u.normal = unknownRecord u :=
  unknownRecord_unknownField (unknownRecord u)

section
variable {S : Schema}

/-- A message that was decoded says what a message with the same normal form does. -/
theorem Message.readAs_of_normal (p : DescriptorId × List UInt8) :
    RequiredPresent S p.1 p.2 → ∀ m' m : Message, decode S p.1 p.2 = some m' → m.Packable S →
      m'.normal S = m.normal S → m.ReadAs S m' := by
  refine measure_induction (fun p : DescriptorId × List UInt8 => p.2.length)
    (P := fun p => RequiredPresent S p.1 p.2 → ∀ m' m : Message, decode S p.1 p.2 = some m' → m.Packable S →
      m'.normal S = m.normal S → m.ReadAs S m') ?_ p
  rintro ⟨d, data⟩ ih hpresent m' m hdec hm hsame
  obtain ⟨rs, hrs, -, hd, hunknown, hslots⟩ := decode_iff.mp hdec
  obtain ⟨_, hpack, hn, -, hchildren⟩ := hm
  have hdescriptor : m'.descriptor = m.descriptor := by
    rw [← m'.descriptor_normal S, hsame, m.descriptor_normal]
  obtain rfl : m.descriptor = d := hdescriptor.symm.trans hd
  have hrecords : m'.unknown.elems.map unknownRecord = m.unknown.elems.map unknownRecord := by
    have hboth := congrArg (fun m => m.unknown.elems.map unknownRecord) hsame
    simpa only [Message.unknown_normal, CArray.ofList_elems, List.map_map, Function.comp_def,
      unknownRecord_normal] using hboth
  have hgen := S.generated m.descriptor
  rw [m.readAs_eq]
  refine ⟨hdescriptor, ?_, ?_, hrecords⟩
  · have hzip : List.zipWith (Slot.normal (Message.normal S)) (S.desc m.descriptor).fields m'.slots =
        List.zipWith (Slot.normal (Message.normal S)) (S.desc m.descriptor).fields m.slots := by
      rw [← m.slots_normal, ← hsame, m'.slots_normal, hdescriptor]
    refine List.forall₂_iff_get.mpr ⟨?_, fun i hi hi' => ?_⟩
    · rw [List.length_zip, ← hpack.length_eq, Nat.min_self]
      exact hslots.length_eq
    have hf : i < (S.desc m.descriptor).fields.length := hslots.length_eq ▸ hi'
    have hm : i < m.slots.length := hpack.length_eq ▸ hf
    have hsame := List.getElem_of_eq hzip (i := i) (by rw [List.length_zipWith]; omega)
    rw [List.getElem_zipWith, List.getElem_zipWith] at hsame
    have hfield := List.getElem_mem hf
    have hpair : ((S.desc m.descriptor).fields.zip m.slots).get ⟨i, hi⟩ =
        ((S.desc m.descriptor).fields[i], m.slots[i]) := List.getElem_zip
    rw [hpair]
    refine Slot.readAs_of_normal (hgen.field _ hfield) ((List.forall₂_iff_get.mp hpack).2 i hf hm)
      (hpresent.records hrs hfield) ((List.forall₂_iff_get.mp hslots).2 i hf hi') hsame
      fun c hc r hr c' htype hbody heq => ?_
    exact ih (_, r.body) (tokenize_body_lt hrs (List.mem_filter.mp hr).1)
      (hpresent.body hrs hr hfield htype) c' c hbody
      (hchildren c (Message.mem_writtenChildren.mpr ⟨_, hpair ▸ List.get_mem _ _, hc⟩)) heq
  · have hlength := congrArg List.length hrecords
    rw [List.length_map, List.length_map, ← hn] at hlength
    rw [← hlength, hunknown, CArray.ofList_elems]
    rfl

end

/-! ## The records of required fields -/

section
variable {S : Schema} {m : Message}

theorem body_record_message {enc : Message → List UInt8} {field : FieldDescriptor} {a : Addr}
    {c : Message} (htype : field.type = .message) :
    ((Value.message (.ref a c)).record enc field).body = enc c := by
  have hp : ¬ isPackableType field.type = true := by
    rw [htype]
    decide
  have hrecord : (Value.message (.ref a c)).record enc field =
      ⟨field.id, .lengthPrefixed, prefixed (enc c)⟩ := by
    rw [Value.record, Value.payload, if_neg hp, wireType_of_unpackable hp]
    rfl
  rw [hrecord, body_prefixed]

/-- The record of a message field holds a sub-message. -/
theorem exists_child_of_record (hpack : List.Forall₂ SlotPackable (S.desc m.descriptor).fields m.slots)
    (hslots : List.Forall₂ (fun field slot => ∀ v ∈ slot.written field, v.ReadBack field)
      (S.desc m.descriptor).fields m.slots)
    (hunknown : ∀ u ∈ m.unknown.elems, ∀ f ∈ (S.desc m.descriptor).fields, f.id ≠ u.tag)
    (hlt : (m.encode S).length < 2 ^ 32) {r : Record} (hr : r ∈ m.records S) {field : FieldDescriptor}
    (hfield : field ∈ (S.desc m.descriptor).fields) (htag : field.id = r.tag)
    (htype : field.type = .message) :
    ∃ slot, (field, slot) ∈ (S.desc m.descriptor).fields.zip m.slots ∧ ∃ c ∈ slot.writtenChildren field,
      r.body = c.encode S ∧ c.descriptor = field.descriptor ∧ (c.encode S).length < 2 ^ 32 := by
  have hgen := S.generated m.descriptor
  obtain ⟨slot, hmem⟩ := mem_zip_of_left hpack.length_eq hfield
  have hs := (List.forall₂_iff_zip.mp hpack).2 hmem
  have hown : fieldRecords field (m.records S) = slotRecords (Message.encode S) field slot :=
    fieldRecords_recordsLayer hpack.length_eq hunknown hmem
  have hrecord : r ∈ slotRecords (Message.encode S) field slot :=
    hown ▸ List.mem_filter.mpr ⟨hr, decide_eq_true htag.symm⟩
  have hwritten : ∃ v ∈ slot.written field, r = v.record (Message.encode S) field := by
    cases slot with
    | singular has v =>
      rw [slotRecords_singular] at hrecord
      split_ifs at hrecord with hw
      · exact ⟨v, mem_written_singular.mpr ⟨hw, rfl⟩, List.mem_singleton.mp hrecord⟩
      · exact absurd hrecord List.not_mem_nil
    | repeated a =>
      have hpacked : ¬ field.packed = true := fun hp => by
        have htypes := ((hgen.field field hfield).packed hp).2
        rw [htype] at htypes
        exact absurd htypes (by decide)
      rw [slotRecords_repeated, if_neg hpacked] at hrecord
      obtain ⟨v, hv, rfl⟩ := List.mem_map.mp hrecord
      exact ⟨v, hv, rfl⟩
  obtain ⟨v, hv, rfl⟩ := hwritten
  have hvtype := hasType_of_written hs hv
  obtain ⟨hnull, hdescriptor⟩ := (List.forall₂_iff_zip.mp hslots).2 hmem v hv
  rw [htype] at hvtype
  cases v with
  | message p =>
    cases p with
    | null => exact absurd rfl hnull
    | ref a c =>
      have hc : c ∈ (Value.message (.ref a c)).children := List.mem_cons_self
      have hpayload : ∀ r ∈ slotRecords (Message.encode S) field slot, r.payload.length < 2 ^ 32 :=
        fun r hr => length_payload_lt hlt r (mem_recordsLayer.mpr (.inl ⟨_, hmem, hr⟩))
      exact ⟨slot, hmem, c, Slot.mem_writtenChildren.mpr ⟨_, hv, hc⟩, body_record_message htype,
        hdescriptor c hc, length_enc_lt (hgen.field field hfield) hs hpayload hv c hc⟩
  | word32 w | word64 w | boolean w | string q | bytes len q => exact False.elim hvtype

/-- What is packed has a record for every required field, at every level. -/
theorem requiredPresent_encode (hread : m.Readable S) (hm : m.Packable S)
    (hlt : (m.encode S).length < 2 ^ 32) : RequiredPresent S m.descriptor (m.encode S) := by
  induction hread with
  | intro m hslots hunknown _ ih =>
    obtain ⟨_, hpack, -, -, hchildren⟩ := hm
    have htokens := tokenize_encode hpack (fun u hu => (hunknown u hu).1) hlt
    refine .of_records htokens (fun field hfield hlabel => required_record hpack hfield hlabel)
      fun r hr i field hf htype => ?_
    obtain ⟨hget, htag⟩ := (S.generated m.descriptor).field?_eq_some.mp hf
    obtain ⟨slot, hmem, c, hc, hbody, hdescriptor, hshort⟩ := exists_child_of_record hpack hslots
      (fun u hu => (hunknown u hu).2) hlt hr (List.mem_of_getElem? hget) htag htype
    have hbelow : c ∈ m.writtenChildren S := Message.mem_writtenChildren.mpr ⟨(field, slot), hmem, hc⟩
    rw [hbody, ← hdescriptor]
    exact ih c hbelow (hchildren c hbelow) hshort

/-- What an old program packs again has the records of all required fields, if its input had. -/
theorem requiredPresent_through_old {old new : Schema} {up : DescriptorId → DescriptorId}
    (hlacks : old.Lacks new up) (p : DescriptorId × List UInt8) :
    RequiredPresent new (up p.1) p.2 → ∀ m, decode old p.1 p.2 = some m →
      (m.encode old).length < 2 ^ 32 → RequiredPresent new (up p.1) (m.encode old) := by
  refine measure_induction (fun p : DescriptorId × List UInt8 => p.2.length)
    (P := fun p => RequiredPresent new (up p.1) p.2 → ∀ m, decode old p.1 p.2 = some m →
      (m.encode old).length < 2 ^ 32 → RequiredPresent new (up p.1) (m.encode old)) ?_ p
  rintro ⟨d, data⟩ ih hpresent m hm hlt
  have hpresent' := hlacks.requiredPresent hpresent
  obtain ⟨hpackable, hreadable⟩ := decode_packable (d, data) hpresent' m hm
  obtain ⟨rs, hrs, -, rfl, hunknown, hslots⟩ := decode_iff.mp hm
  obtain ⟨_, hpack, -, -, -⟩ := hpackable
  obtain ⟨_, hback, hknown, -⟩ := hreadable
  have hgen := old.generated m.descriptor
  have hgen' := new.generated (up m.descriptor)
  have htokens := tokenize_encode hpack (fun u hu => (hknown u hu).1) hlt
  refine .of_records htokens
    (fun g hg hlabel => required_through hlacks hpack hunknown hpresent hrs hg hlabel)
    fun r hr i g hf htype => ?_
  obtain ⟨hget, htag⟩ := hgen'.field?_eq_some.mp hf
  have hg := List.mem_of_getElem? hget
  by_cases hexists : ∃ f ∈ (old.desc m.descriptor).fields, f.id = g.id
  · -- the body is a sub-message of the old program
    obtain ⟨f, hfield, hid⟩ := hexists
    have hext := hlacks.eq_of_id hfield hg hid
    have hftype : f.type = .message := hext.type.symm.trans htype
    obtain ⟨slot, hmem, c, hc, hbody, -, hshort⟩ := exists_child_of_record hpack hback
      (fun u hu => (hknown u hu).2) hlt hr hfield (hid.trans htag) hftype
    have hreceived := slotReceived_of_fold (hgen.field f hfield)
      (hpresent'.records hrs hfield) ((List.forall₂_iff_zip.mp hslots).2 hmem)
    obtain ⟨-, r', hr', hdec⟩ := hreceived.children c hc
    have hinput : RequiredPresent new g.descriptor r'.body :=
      hpresent.body hrs (by rw [hext.fieldRecords]; exact hr') hg htype
    rw [hext.descriptor hftype] at hinput ⊢
    rw [hbody]
    exact ih (f.descriptor, r'.body) (tokenize_body_lt hrs (List.mem_filter.mp hr').1) hinput c hdec hshort
  · -- the record was kept as it came
    have hnone : ∀ f ∈ (old.desc m.descriptor).fields, f.id ≠ g.id := fun f hf hid => hexists ⟨f, hf, hid⟩
    have hkept : r ∈ fieldRecords g rs := by
      rw [← fieldRecords_of_unknown hunknown hnone]
      exact List.mem_filter.mpr ⟨hr, decide_eq_true htag.symm⟩
    exact hpresent.body hrs hkept hg htype

end

/-! ## The code -/

/-- What `protobuf_c_message_unpack` makes of the bytes that `protobuf_c_message_pack` has written says what
the message did. -/
theorem messageUnpack_readsBack {σ : Type} (S : Schema) (H : HeapAllocator σ) (hinf : H.Infallible)
    (m : Message) (hm : m.Packable S) (hread : m.Readable S) (size : ℕ)
    (hsize : messageGetPackedSize S m = .ok size) (hlt : size < 2 ^ 32) (out : List UInt8)
    (hout : out.length = size) :
    ∃ data, messagePack S m 0 out = .ok (size, data) ∧ ∀ s, ∃ a m' s',
      messageUnpack H.toAllocator S m.descriptor data s = .ok (.ref a m', s') ∧
        m.ReadAs S m'.erase ∧ m'.Owned S := by
  obtain ⟨hlength, hpack⟩ := messagePack_encode hm hsize hlt hout
  have hshort : (m.encode S).length < 2 ^ 32 := hlength ▸ hlt
  have hdec := decode_encode hread hm hshort
  refine ⟨m.encode S, hpack, fun s => ?_⟩
  obtain ⟨a, m', s', hrun, herase, howned⟩ := messageUnpack_of_decode hinf hshort hdec s
  refine ⟨a, m', s', hrun, ?_, howned⟩
  rw [herase]
  exact Message.readAs_of_normal (m.descriptor, m.encode S) (requiredPresent_encode hread hm hshort) _ m
    hdec hm (m.normal_normal hm)

/-- `messageUnpack_readsBack` on a message with a sub-message and an unknown field. -/
theorem messageUnpack_readsBack_tree : ∃ data,
    messagePack nestedSchema treeMessage 0 (List.replicate 10 0) = .ok (10, data) ∧ ∀ s, ∃ a m' s',
      messageUnpack countingHeap.toAllocator nestedSchema 0 data s = .ok (.ref a m', s') ∧
        treeMessage.ReadAs nestedSchema m'.erase ∧ m'.Owned nestedSchema :=
  messageUnpack_readsBack nestedSchema countingHeap countingHeap_infallible treeMessage
    treeMessage_packable treeMessage_readable 10 rfl (by norm_num) (List.replicate 10 0) rfl

/-- What comes back from a program with an older schema says what the bytes did that went there. -/
theorem messageUnpack_transparent {σ σ₁ σ₂ : Type} {H : HeapAllocator σ} {H₁ : HeapAllocator σ₁}
    {H₂ : HeapAllocator σ₂} {d : DescriptorId} {data : List UInt8} {s₁ s₁' : σ₁} {s₂ s₂' : σ₂}
    {a a' : Addr} {m m' : Message} {old new : Schema} {up : DescriptorId → DescriptorId}
    (hlacks : old.Lacks new up) (hinf : H.Infallible)
    (hpresent : RequiredPresent new (up d) data)
    (hrun : messageUnpack H₁.toAllocator old d data s₁ = .ok (.ref a m, s₁'))
    (hrun' : messageUnpack H₂.toAllocator new (up d) data s₂ = .ok (.ref a' m', s₂'))
    {size : ℕ} (hsize : messageGetPackedSize old m = .ok size) (hlt : size < 2 ^ 32)
    {out : List UInt8} (hout : out.length = size) :
    ∃ through, messagePack old m 0 out = .ok (size, through) ∧ ∀ s, ∃ a'' m'' s',
      messageUnpack H.toAllocator new (up d) through s = .ok (.ref a'' m'', s') ∧
        m'.erase.ReadAs new m''.erase := by
  have hdec := messageUnpack_decode hrun
  have hdec' := messageUnpack_decode hrun'
  have hpackable := messageUnpack_packable (hlacks.requiredPresent hpresent) hrun
  obtain ⟨hlength, hpack⟩ := messagePack_encode hpackable hsize hlt hout
  have hshort : (m.erase.encode old).length < 2 ^ 32 := by
    rw [m.encode_erase, ← hlength]
    exact hlt
  obtain ⟨m₀, hread, hsame⟩ :=
    decode_through_old hlacks (d, data) hpresent m.erase m'.erase hdec hdec' hshort
  have hback := requiredPresent_through_old hlacks (d, data) hpresent m.erase hdec hshort
  obtain ⟨hpackable', -⟩ := decode_packable (up d, data) hpresent m'.erase hdec'
  have hreadAs := Message.readAs_of_normal (up d, m.erase.encode old) hback m₀ m'.erase hread hpackable'
    hsame
  refine ⟨m.encode old, hpack, fun s => ?_⟩
  rw [m.encode_erase] at hread
  obtain ⟨a'', m'', s', hunpack, herase, -⟩ := messageUnpack_of_decode hinf (hlength ▸ hlt) hread s
  exact ⟨a'', m'', s', hunpack, herase ▸ hreadAs⟩

/-! ## A program without the bytes field -/

/-- `nestedSchema` without its `required bytes` field. -/
def branchSchema : Schema :=
  Schema.uniform [.scalar .repeated .message 2]
    (by simpa using FieldDescriptor.generated_scalar (by decide) (by decide)) (by simp)

theorem branchSchema_lacks : branchSchema.Lacks nestedSchema id := by
  intro d f hf
  rw [List.mem_singleton.mp hf]
  exact ⟨.scalar .repeated .message 2, List.mem_cons_of_mem _ List.mem_cons_self, rfl, rfl, rfl, rfl,
    fun _ => rfl⟩

/-- The bytes of `treeMessage`. -/
def treeBytes : List UInt8 := [10, 1, 7, 18, 2, 10, 0, 72, 128, 1]

theorem requiredPresent_tree : RequiredPresent nestedSchema 0 treeBytes :=
  requiredPresent_encode (m := treeMessage) treeMessage_readable treeMessage_packable (by decide)

/-- What a program without the bytes field makes of `treeBytes`: the bytes fields of both levels are among
the unknown fields. -/
def branchMessage : Message :=
  .mk 0 [.repeated ⟨1, some (.block 1), 1, [.message (.ref (.block 4)
    (.mk 0 [.repeated .null] ⟨1, some (.block 5), 1, [⟨1, .lengthPrefixed, 1, some ⟨.block 6, [0]⟩⟩]⟩))]⟩]
    ⟨2, some (.block 2), 2, [⟨1, .lengthPrefixed, 2, some ⟨.block 3, [1, 7]⟩⟩,
      ⟨9, .varint, 2, some ⟨.block 7, [128, 1]⟩⟩]⟩

/-- What a program with both fields makes of them. -/
def readMessage : Message :=
  .mk 0 [.singular 0 (.bytes 1 (some ⟨.block 3, [7]⟩)),
    .repeated ⟨1, some (.block 1), 1, [.message (.ref (.block 4)
      (.mk 0 [.singular 0 (.bytes 0 none), .repeated .null] .null))]⟩]
    ⟨1, some (.block 2), 1, [⟨9, .varint, 2, some ⟨.block 5, [128, 1]⟩⟩]⟩

theorem messageUnpack_branch : messageUnpack countingHeap.toAllocator branchSchema 0 treeBytes (0, []) =
    .ok (.ref (.block 0) branchMessage, (8, [7, 6, 5, 4, 3, 2, 1, 0])) := rfl

theorem messageUnpack_read : messageUnpack countingHeap.toAllocator nestedSchema 0 treeBytes (0, []) =
    .ok (.ref (.block 0) readMessage, (6, [5, 4, 3, 2, 1, 0])) := rfl

/-- `messageUnpack_transparent` where the program in between lacks a field at two levels. -/
theorem messageUnpack_transparent_tree :
    ∃ through, messagePack branchSchema branchMessage 0 (List.replicate 10 0) = .ok (10, through) ∧
      ∀ s, ∃ a m s', messageUnpack countingHeap.toAllocator nestedSchema 0 through s = .ok (.ref a m, s') ∧
        readMessage.erase.ReadAs nestedSchema m.erase :=
  messageUnpack_transparent branchSchema_lacks countingHeap_infallible requiredPresent_tree
    messageUnpack_branch messageUnpack_read
    (show messageGetPackedSize branchSchema branchMessage = .ok 10 from rfl) (by norm_num) rfl

end ProtobufC
