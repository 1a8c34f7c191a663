import ProtobufC.Wire.ParseWalk

/-! # Parsing members one after the other

`MessageTracks` relates the message under construction to the message decoded so far: the same values
up to the addresses of blocks, arrays with room for what the remaining records announced, and
everything owned.  `meets_parseMember` is one member, `meets_parseMembers` the loop over a slab and
`parseSlabs_eq` the loop over the slabs.
-/

namespace ProtobufC
open Library
set_option autoImplicit false

/-! ## Arrays -/

/-- The array `a` holds the elements of `b`, and has room for `remaining` more. -/
structure ArrayTracks {α : Type} (f : α → α) (P : Prop) (remaining : ℕ) (a b : CArray α) :
    Prop where
  n : a.n = a.elems.length
  elems : a.elems.map f = b.elems
  n_le : a.n ≤ a.cap
  cap_le : a.cap ≤ a.n + remaining
  cap_eq : P → a.cap = a.n + remaining
  addr : a.addr = none ↔ a.cap = 0
  block : IsBlock a.addr
  ofList : b = .ofList b.elems

section Arrays
variable {α : Type} {f : α → α} {P : Prop} {remaining : ℕ} {a b : CArray α}

theorem ArrayTracks.store (h : ArrayTracks f P remaining a b) {vs : List α} {count : ℕ}
    (hvs : vs.length ≤ count) (hcount : count ≤ remaining) :
    (∃ a', a.store vs = .ok a' ∧ a'.addr = a.addr ∧ a'.elems = a.elems ++ vs ∧
      (vs.length = count →
        ArrayTracks f P (remaining - count) a' (.ofList (b.elems ++ vs.map f)))) ∨
    (a.store vs = .error .access ∧ ¬ P) := by
  have hn := h.n
  unfold CArray.store
  by_cases hroom : a.n + vs.length ≤ a.cap
  · refine .inl ⟨_, if_pos hroom, rfl, by rw [hn, List.take_length], fun heq => ?_⟩
    have hle := h.cap_le
    refine ⟨?_, ?_, hroom, ?_, ?_, h.addr, h.block, rfl⟩
    · simp only [List.length_append, List.length_take]
      omega
    · simp [hn, h.elems]
    · show a.cap ≤ a.n + vs.length + (remaining - count)
      omega
    · intro hp
      have := h.cap_eq hp
      show a.cap = a.n + vs.length + (remaining - count)
      omega
  · refine .inr ⟨if_neg hroom, fun hp => ?_⟩
    have := h.cap_eq hp
    omega

/-- When nothing remains the two arrays are the same up to block numbers. -/
theorem ArrayTracks.erase_eq (h : ArrayTracks f P 0 a b) : a.erase f = b := by
  have hlen : b.elems.length = a.elems.length := by rw [← h.elems, List.length_map]
  have hn := h.n
  have hle := h.n_le
  have hcap := h.cap_le
  rw [h.ofList]
  unfold CArray.erase CArray.ofList
  rw [h.elems, hlen, hn]
  congr 1
  by_cases hnil : a.elems.length = 0
  · have hb : b.elems = [] := List.length_eq_zero_iff.mp (by omega)
    rw [h.addr.mpr (by omega), hb]
    rfl
  · have hb : b.elems.isEmpty = false := by
      rw [List.isEmpty_eq_false_iff]
      rintro hb
      rw [hb, List.length_nil] at hlen
      omega
    obtain ⟨x, hx⟩ := Option.ne_none_iff_exists'.mp fun h0 => by have := h.addr.mp h0; omega
    obtain ⟨blk, rfl⟩ := h.block x hx
    rw [hb, hx]
    rfl

theorem arrayTracks_start {count cap : ℕ} {addr : Option Addr} (hle : cap ≤ count)
    (hP : P → cap = count) (haddr : addr = none ↔ cap = 0) (hblock : IsBlock addr) :
    ArrayTracks f P count ⟨0, addr, cap, []⟩ .null :=
  ⟨rfl, rfl, Nat.zero_le _, by simpa using hle, by simpa using hP, haddr, hblock, rfl⟩

end Arrays

/-! ## Messages -/

variable {σ : Type} {H : HeapAllocator σ} {S : Schema} {P : Prop} {s : σ} {L : Multiset ℕ}

/-- The member of a field holds what the decoder has. -/
def SlotTracks (P : Prop) (remaining : ℕ) : Slot → Slot → Prop
  | .singular has v, .singular has₀ v₀ => has = has₀ ∧ v.erase = v₀
  | .repeated a, .repeated b => ArrayTracks Value.erase P remaining a b
  | _, _ => False

theorem SlotTracks.cases {remaining : ℕ} {sl sl₀ : Slot} (h : SlotTracks P remaining sl sl₀) :
    (∃ has v, sl = .singular has v ∧ sl₀ = .singular has v.erase) ∨
      ∃ a b, sl = .repeated a ∧ sl₀ = .repeated b ∧ ArrayTracks Value.erase P remaining a b := by
  cases sl with
  | singular has v =>
    cases sl₀ with
    | singular has₀ v₀ =>
      obtain ⟨rfl, rfl⟩ := h
      exact .inl ⟨has, v, rfl, rfl⟩
    | repeated b => exact False.elim h
  | repeated a =>
    cases sl₀ with
    | singular has₀ v₀ => exact False.elim h
    | repeated b => exact .inr ⟨a, b, rfl, rfl, h⟩

/-- The message `m` holds what the decoder has in `m₀`, `rest` being the records to come. -/
structure MessageTracks (S : Schema) (P : Prop) (d : DescriptorId) (rest : List Record)
    (m m₀ : Message) : Prop where
  descriptor : m.descriptor = d
  descriptor₀ : m₀.descriptor = d
  length₀ : m₀.slots.length = (S.desc d).fields.length
  slots : ∀ i field, (S.desc d).fields[i]? = some field → ∃ sl sl₀, m.slots[i]? = some sl ∧
    m₀.slots[i]? = some sl₀ ∧ SlotTracks P (elementCount (S.desc d) i rest) sl sl₀
  unknown : ArrayTracks MessageUnknownField.erase P (unknownCount (S.desc d) rest) m.unknown
    m₀.unknown
  owned : m.Owned S
  children : ∀ c ∈ m.ownedChildren, c.Filled

theorem Message.mem_ownedChildren_set {d : DescriptorId} {slots : List Slot}
    {u : CArray MessageUnknownField} {i : ℕ} {sl : Slot} {c : Message}
    (hc : c ∈ (Message.mk d (slots.set i sl) u).ownedChildren) :
    c ∈ (Message.mk d slots u).ownedChildren ∨ c ∈ sl.ownedChildren := by
  obtain ⟨sl', hsl', hcsl⟩ := List.mem_flatMap.mp hc
  rcases List.mem_or_eq_of_mem_set hsl' with hold | rfl
  · exact .inl (List.mem_flatMap.mpr ⟨sl', hold, hcsl⟩)
  · exact .inr hcsl

theorem Message.ownedChildren_slot {m : Message} {i : ℕ} {sl : Slot} (hsl : m.slots[i]? = some sl) :
    ∀ c ∈ sl.ownedChildren, c ∈ m.ownedChildren := fun _ hc =>
  List.mem_flatMap.mpr ⟨sl, List.mem_of_getElem? hsl, hc⟩

theorem Message.Owned.set {d : DescriptorId} {slots : List Slot} {u : CArray MessageUnknownField}
    (h : (Message.mk d slots u).Owned S) {i : ℕ} {field : FieldDescriptor}
    (hf : (S.desc d).fields[i]? = some field) {sl : Slot} (hsl : SlotOwned field sl)
    (hchildren : ∀ c ∈ sl.ownedChildren, c.Owned S) :
    (Message.mk d (slots.set i sl) u).Owned S := by
  obtain ⟨_, hslots, hu, hc⟩ := h
  refine ⟨_, ?_, hu, ?_⟩
  · simp only [Message.descriptor_mk, Message.slots_mk] at hslots ⊢
    rw [List.forall₂_iff_get] at hslots ⊢
    refine ⟨by rw [List.length_set]; exact hslots.1, fun j h₁ h₂ => ?_⟩
    by_cases hij : i = j
    · subst hij
      have : (S.desc d).fields.get ⟨i, h₁⟩ = field := by
        rw [List.getElem?_eq_getElem h₁, Option.some.injEq] at hf
        exact hf
      rw [this]
      simpa using hsl
    · have := hslots.2 j h₁ (by simpa using h₂)
      simpa [hij] using this
  · exact fun c hmem => (Message.mem_ownedChildren_set hmem).elim (hc c) (hchildren c)

theorem Message.Owned.slot {m : Message} (h : m.Owned S) {i : ℕ} {field : FieldDescriptor}
    {sl : Slot} (hf : (S.desc m.descriptor).fields[i]? = some field) (hsl : m.slots[i]? = some sl) :
    SlotOwned field sl ∧ ∀ c ∈ sl.ownedChildren, c.Owned S := by
  obtain ⟨_, hslots, -, hc⟩ := h
  obtain ⟨hi, rfl⟩ := List.getElem?_eq_some_iff.mp hf
  obtain ⟨hj, rfl⟩ := List.getElem?_eq_some_iff.mp hsl
  exact ⟨(List.forall₂_iff_get.mp hslots).2 i hi hj, fun c hmem =>
    hc c (List.mem_flatMap.mpr ⟨_, List.getElem_mem hj, hmem⟩)⟩

theorem Message.blocks_set {d : DescriptorId} {slots : List Slot} {u : CArray MessageUnknownField}
    {i : ℕ} {sl : Slot} (hsl : slots[i]? = some sl) : ∃ others : Multiset ℕ,
      (Message.mk d slots u).blocks = sl.blocks + others ∧
        ∀ sl', (Message.mk d (slots.set i sl') u).blocks = sl'.blocks + others := by
  obtain ⟨hi, rfl⟩ := List.getElem?_eq_some_iff.mp hsl
  refine ⟨((slots.eraseIdx i).map Slot.blocks).sum + unknownBlocks u, ?_, fun sl' => ?_⟩
  · rw [Message.blocks_eq, Message.slots_mk, Message.unknown_mk,
      ← ((List.getElem_cons_eraseIdx_perm hi).map Slot.blocks).sum_eq, List.map_cons,
      List.sum_cons, add_assoc]
  · rw [Message.blocks_eq, Message.slots_mk, Message.unknown_mk,
      ((List.set_perm_cons_eraseIdx hi sl').map Slot.blocks).sum_eq, List.map_cons,
      List.sum_cons, add_assoc]

/-- When no record is to come the two messages are the same up to block numbers. -/
theorem MessageTracks.erase_eq {d : DescriptorId} {m m₀ : Message}
    (h : MessageTracks S P d [] m m₀) : m.erase = m₀ := by
  obtain ⟨d₁, slots, u⟩ := m
  obtain ⟨d₀, slots₀, u₀⟩ := m₀
  obtain ⟨hd₁, hd₀, hlen₀, hslots, hunknown, ⟨_, howned, -⟩, -⟩ := h
  simp only [Message.descriptor_mk, Message.slots_mk, Message.unknown_mk] at *
  subst d₁ d₀
  have hslotsEq : slots.map Slot.erase = slots₀ := by
    have hlen := howned.length_eq
    refine List.ext_getElem? fun i => ?_
    rw [List.getElem?_map]
    cases hi : (S.desc d).fields[i]? with
    | none =>
      have hge := List.getElem?_eq_none_iff.mp hi
      rw [List.getElem?_eq_none_iff.mpr (by omega), List.getElem?_eq_none_iff.mpr (by omega)]
      rfl
    | some field =>
      obtain ⟨sl, sl₀, hsl, hsl₀, htr⟩ := hslots i field hi
      rw [hsl, hsl₀, Option.map_some, Option.some.injEq]
      obtain ⟨has, v, rfl, rfl⟩ | ⟨a, b, rfl, rfl, ha⟩ := htr.cases
      · rw [Slot.erase_singular]
      · rw [Slot.erase_repeated, ha.erase_eq]
  rw [Message.erase_mk, hslotsEq, ArrayTracks.erase_eq hunknown]

theorem ArrayTracks.full {α : Type} {f : α → α} {a b : CArray α} (h : ArrayTracks f P 0 a b) :
    a.Full := by
  have hle := h.n_le
  have hcap := h.cap_le
  have hn := h.n
  exact ⟨by omega, by omega⟩

theorem MessageTracks.filled {d : DescriptorId} {m m₀ : Message}
    (h : MessageTracks S P d [] m m₀) : m.Filled := by
  refine .intro m ?_ h.unknown.full h.children
  obtain ⟨_, howned, -⟩ := h.owned
  rw [h.descriptor] at howned
  intro sl hmem
  obtain ⟨i, hi, rfl⟩ := List.mem_iff_getElem.mp hmem
  have hif : i < (S.desc d).fields.length := by rw [howned.length_eq]; exact hi
  obtain ⟨sl, sl₀, hsl, -, htr⟩ := h.slots i _ (List.getElem?_eq_getElem hif)
  rw [List.getElem?_eq_getElem hi, Option.some.injEq] at hsl
  rw [hsl]
  obtain ⟨has, v, rfl, -⟩ | ⟨a, b, rfl, -, ha⟩ := htr.cases
  · exact trivial
  · exact ha.full

/-! ## One member -/

section Member
variable {d : DescriptorId} {r : Record} {tmp : ScannedMember} {field : FieldDescriptor}
  {sub : DescriptorId → List UInt8 → Run σ MessagePtr} {rest : List Record} {m m₀ : Message}

/-- What the second pass needs of the calls on the record's body. -/
def SubUnpacks (H : HeapAllocator σ) (S : Schema) (P : Prop)
    (sub : DescriptorId → List UInt8 → Run σ MessagePtr) (field : FieldDescriptor) (r : Record) :
    Prop :=
  field.type = .message → r.wireType = .lengthPrefixed → ∀ s, Meets (Excused P)
    (sub field.descriptor r.body) s (Unpacked H S P (decode S field.descriptor r.body) s)

/-- What `parse_member` leaves in one member of the message. -/
structure SlotParsed (H : HeapAllocator σ) (S : Schema) (P : Prop) (field : FieldDescriptor)
    (r : Record) (remaining : ℕ) (sl₀ : Slot) (L : Multiset ℕ) (s : σ) (w : Slot × Bool) (s' : σ) :
    Prop where
  owned : SlotOwned field w.1
  children : ∀ c ∈ w.1.ownedChildren, c.Complete S
  live : H.live s' = w.1.blocks + L
  ok : w.2 = true → H.failures s' = H.failures s ∧ ∃ sl₁,
    slotStep (decode S) field sl₀ r = some sl₁ ∧ SlotTracks P remaining w.1 sl₁
  fail : w.2 = false → AllocFailed H s s' ∨ slotStep (decode S) field sl₀ r = none ∨ ¬ P

theorem Parsed.slot {v v₀ : Value} {has has' : Int32} {w : Option Value × Bool} {s' : σ}
    (h : Parsed H S P field r v L s w s') (hlabel : field.label ≠ .repeated) {remaining : ℕ}
    (hhas : w.2 = true → has' = if field.label = .optional ∧ field.quantifierOffset ≠ 0 then 1
      else has) :
    SlotParsed H S P field r remaining (.singular has v₀) L s
      (.singular has' (w.1.getD v), w.2) s' where
  owned := ⟨hlabel, h.held⟩
  children := h.children
  live := by rw [Slot.blocks_singular, h.live]
  ok := by
    intro hok
    obtain ⟨hfail, new, hw, hdec, -⟩ := h.ok hok
    refine ⟨hfail, .singular has' new.erase, ?_, ?_⟩
    · rw [slotStep, if_neg hlabel, hdec, Option.map_some, Slot.assign, hhas hok]
    · rw [hw]
      exact ⟨rfl, rfl⟩
  fail := by
    intro hbad
    rcases (h.fail hbad).2 with hwhy | hwhy | hwhy
    · exact .inl hwhy
    · refine .inr (.inl ?_)
      rw [slotStep, if_neg hlabel, hwhy, Option.map_none]
    · exact .inr (.inr hwhy)

theorem FieldType.zero_held (type : FieldType) (p : Option Addr) :
    type.zero.Held type p ∧ type.zero.ownedChildren = [] ∧ type.zero.blocks = 0 ∧
      type.zero.pointer = none := by
  cases type <;>
    simp [FieldType.zero, Value.Held, Value.HasType, Value.pointer, Value.ownedChildren]

theorem meets_parseRepeatedField (hg : field.Generated) (hs : Scans (S.desc d) r tmp)
    (hlabel : field.label = .repeated) {a b : CArray Value} {count remaining : ℕ}
    (hcount : recordCount field r = some count) (hle : count ≤ remaining)
    (ha : ArrayTracks Value.erase P remaining a b) (ho : SlotOwned field (.repeated a))
    (hchildren : ∀ c ∈ (Slot.repeated a).ownedChildren, c.Complete S)
    (hlive : H.live s = (Slot.repeated a).blocks + L) (hsub : SubUnpacks H S P sub field r) :
    Meets (Excused P) (parseRepeatedField H.toAllocator S sub tmp field a) s fun w s' =>
      SlotParsed H S P field r (remaining - count) (.repeated b) L s (.repeated w.1, w.2) s' := by
  obtain ⟨-, hn, haddr, hvs⟩ := ho
  have hsame : ∀ s', H.live s' = L + (Slot.repeated a).blocks →
      (AllocFailed H s s' ∨ decodeElements (decode S) field r = none ∨ ¬ P) →
      SlotParsed H S P field r (remaining - count) (.repeated b) L s (.repeated a, false) s' := by
    intro s' hlive' hwhy
    refine ⟨⟨hlabel, hn, haddr, hvs⟩, hchildren, by rw [hlive', add_comm], by simp, fun _ => ?_⟩
    rcases hwhy with hwhy | hwhy | hwhy
    · exact .inl hwhy
    · exact .inr (.inl (by rw [slotStep, if_pos hlabel, hwhy, Option.map_none]))
    · exact .inr (.inr hwhy)
  unfold parseRepeatedField
  rw [hs.wireType, meets_ite]
  constructor
  · -- a packed payload
    intro hpacked
    rw [recordCount, if_pos hpacked] at hcount
    have hbody : r.body.length < 2 ^ 32 := by
      have := hs.body_lt (of_decide_eq_true hpacked).1
      omega
    obtain ⟨hpack, vs, ok, hparse, hlen, hlenok, hdec, htypes⟩ :=
      parsePackedElements_spec hbody hcount
    have hle' : tmp.lengthPrefixLen ≤ tmp.len := by
      rw [hs.prefixLen, hs.len]
      exact hs.prefixLen_le
    have hscalar : ∀ v ∈ vs, v.erase = v ∧ v.pointer = none := fun v hv =>
      Value.erase_of_packable hpack (htypes v hv)
    unfold parsePackedRepeatedMember
    rw [sizeSub_of_le hle' (lt_trans hs.len_lt (by norm_num)), hs.readBody.1]
    simp only [require_ok, pure_bind, hparse, booleansWithoutEnd_of_lt hbody, Bool.false_eq_true,
      if_false]
    rcases ha.store hlen hle with ⟨a', hstore, haddr', helems, htracks⟩ | ⟨hstore, hnP⟩
    · simp only [hstore, require_ok, pure_bind, meets_pure]
      cases ok with
      | false =>
        refine hsame s (by rw [hlive, add_comm]) (.inr (.inl ?_))
        rw [decodeElements, if_pos hpacked, hdec]
        rfl
      | true =>
        have htracks := htracks (hlenok rfl)
        have hmap : vs.map Value.erase = vs := by
          conv_rhs => rw [← List.map_id vs]
          exact List.map_congr_left fun v hv => (hscalar v hv).1
        simp only [if_true]
        refine ⟨⟨hlabel, htracks.n, htracks.block, ?_⟩, ?_, ?_,
          fun _ => ⟨rfl, .repeated _, ?_, htracks⟩, by simp⟩
        · intro v hv
          rw [helems] at hv
          rcases List.mem_append.mp hv with hv | hv
          · exact hvs v hv
          · refine ⟨⟨htypes v hv, by simp [(hscalar v hv).2]⟩, ?_⟩
            rintro rfl
            have := htypes _ hv
            generalize field.type = type at hpack this
            cases type <;> first
              | exact False.elim this
              | exact absurd hpack (by decide)
        · intro c hc
          simp only [Slot.ownedChildren, helems, List.flatMap_append,
            List.mem_append] at hc
          rcases hc with hc | hc
          · exact hchildren c hc
          · obtain ⟨v, hv, hc⟩ := List.mem_flatMap.mp hc
            rw [Value.ownedChildren_eq_nil (by simp [(hscalar v hv).2])] at hc
            exact absurd hc (by simp)
        · have hzero : (vs.map Value.blocks).sum = 0 := by
            refine List.sum_eq_zero fun x hx => ?_
            obtain ⟨v, hv, rfl⟩ := List.mem_map.mp hx
            exact Value.blocks_of_packable hpack (htypes v hv)
          simp only [hlive, Slot.blocks_repeated, haddr', helems, List.map_append,
            List.sum_append, hzero, add_zero]
        · rw [slotStep, if_pos hlabel, decodeElements, if_pos hpacked, hdec, if_pos rfl,
            Option.map_some, Slot.extend, hmap]
    · simp only [hstore, meets_bind, meets_require]
      refine ⟨fun e he => ?_, fun _ he => absurd he (by simp)⟩
      rw [← Except.error.inj he]
      exact ⟨.inl rfl, hnP⟩
  · -- one element
    intro hpacked
    rw [recordCount, if_neg hpacked, Option.some.injEq] at hcount
    subst hcount
    obtain ⟨hzheld, hzchildren, hzblocks, -⟩ := field.type.zero_held field.defaultPointer
    unfold parseRepeatedMember
    refine (meets_parseRequiredMember (P := P) (L := (Slot.repeated a).blocks + L) hg hs hzheld
      (by simp [hzchildren]) (fun _ => hzblocks) (by rw [hlive, hzblocks, zero_add]) hsub).bind ?_
    rintro ⟨w, ok⟩ s' h
    have hlen : w.toList.length ≤ 1 := by cases w <;> simp
    rcases ha.store hlen hle with ⟨a', hstore, haddr', helems, htracks⟩ | ⟨hstore, hnP⟩
    · simp only [hstore, require_ok, pure_bind, meets_pure]
      cases ok with
      | false =>
        have hblocks : (w.getD field.type.zero).blocks = 0 := by
          rcases (h.fail rfl).1 with hw | hw
          · simp only at hw
            rw [hw, Option.getD_none, hzblocks]
          · exact hw
        refine hsame s' (by rw [h.live, hblocks, zero_add, add_comm]) ?_
        rcases (h.fail rfl).2 with hwhy | hwhy | hwhy
        · exact .inl hwhy
        · exact .inr (.inl (by rw [decodeElements, if_neg hpacked, hwhy, Option.map_none]))
        · exact .inr (.inr hwhy)
      | true =>
        obtain ⟨hfail, new, hw, hdec, hnull, hheld⟩ := h.ok rfl
        simp only at hw
        subst hw
        have htracks := htracks rfl
        simp only [if_true]
        refine ⟨⟨hlabel, htracks.n, htracks.block, ?_⟩, ?_, ?_,
          fun _ => ⟨hfail, .repeated _, ?_, htracks⟩, by simp⟩
        · intro v hv
          rw [helems] at hv
          rcases List.mem_append.mp hv with hv | hv
          · exact hvs v hv
          · rw [Option.toList_some, List.mem_singleton] at hv
            exact hv ▸ ⟨hheld, hnull⟩
        · intro c hc
          simp only [Slot.ownedChildren, helems, List.flatMap_append,
            List.mem_append, Option.toList_some, List.flatMap_singleton] at hc
          rcases hc with hc | hc
          · exact hchildren c hc
          · exact h.children c hc
        · have hlive' := h.live
          simp only [Option.getD_some] at hlive'
          simp only [hlive', Slot.blocks_repeated, haddr', helems, List.map_append,
            List.sum_append, Option.toList_some, List.map_singleton, List.sum_singleton]
          abel
        · rw [slotStep, if_pos hlabel, decodeElements, if_neg hpacked, hdec, Option.map_some,
            Option.map_some, Slot.extend]
          rfl
    · simp only [hstore, meets_bind, meets_require]
      refine ⟨fun e he => ?_, fun _ he => absurd he (by simp)⟩
      rw [← Except.error.inj he]
      exact ⟨.inl rfl, hnP⟩

theorem countAt_of_field {desc : MessageDescriptor} {i : ℕ} (hf : desc.field? r.tag = some (i, field))
    (j : ℕ) :
    countAt desc j r =
      if i = j ∧ field.label = .repeated then (recordCount field r).getD 0 else 0 := by
  simp only [countAt, hf]

theorem meets_parseFieldMember {i : ℕ} (hs : Scans (S.desc d) r tmp)
    (hf : (S.desc d).field? r.tag = some (i, field)) (hcount : Countable (S.desc d) r)
    {sl sl₀ : Slot} (htracks : SlotTracks P (elementCount (S.desc d) i (r :: rest)) sl sl₀)
    (ho : SlotOwned field sl) (hchildren : ∀ c ∈ sl.ownedChildren, c.Complete S)
    (hlive : H.live s = sl.blocks + L) (hsub : SubUnpacks H S P sub field r) :
    Meets (Excused P) (parseFieldMember H.toAllocator S sub tmp field sl) s
      (SlotParsed H S P field r (elementCount (S.desc d) i rest) sl₀ L s) := by
  have hg : field.Generated := by
    have hi := ((S.generated d).field?_eq_some.mp hf).1
    exact (S.generated d).field field (List.mem_of_getElem? hi)
  have hcons : elementCount (S.desc d) i (r :: rest) =
      countAt (S.desc d) i r + elementCount (S.desc d) i rest := by
    simp [elementCount]
  obtain ⟨has, v, rfl, rfl⟩ | ⟨a, b, rfl, rfl, ha⟩ := htracks.cases
  · rw [Slot.blocks_singular] at hlive
    obtain ⟨hlabel, hheld⟩ := ho
    have hclear : true = false → v.blocks = 0 := by simp
    have hmember := meets_parseRequiredMember (P := P) hg hs hheld hchildren hclear hlive hsub
    unfold parseFieldMember
    cases hl : field.label with
    | repeated => exact absurd hl hlabel
    | required =>
      refine hmember.bind ?_
      rintro w s' h
      exact h.slot hlabel fun _ => by simp [hl]
    | optional =>
      unfold parseOptionalMember
      refine hmember.bind ?_
      rintro w s' h
      exact h.slot hlabel fun hok => by simp [hl, hok]
  · have hlabel := ho.1
    obtain ⟨count, hc⟩ := Option.ne_none_iff_exists'.mp (hcount i field hf hlabel)
    rw [hcons, countAt_of_field hf, if_pos ⟨rfl, hlabel⟩, hc, Option.getD_some] at ha
    unfold parseFieldMember
    simp only [hlabel]
    refine (meets_parseRepeatedField hg hs hlabel hc (Nat.le_add_right _ _) ha ho hchildren hlive
      hsub).bind ?_
    rintro w s' h
    rw [Nat.add_sub_cancel_left] at h
    exact h

theorem meets_parseUnknownMember {desc : MessageDescriptor} (hs : Scans desc r tmp) {remaining : ℕ}
    {u u₀ : CArray MessageUnknownField}
    (htracks : ArrayTracks MessageUnknownField.erase P (1 + remaining) u u₀) (ho : UnknownOwned u)
    (hlive : H.live s = unknownBlocks u + L) :
    Meets (Excused P) (parseUnknownMember H.toAllocator tmp u) s fun w s' =>
      UnknownOwned w.1 ∧ H.live s' = unknownBlocks w.1 + L ∧
        (w.2 = true → H.failures s' = H.failures s ∧ ArrayTracks MessageUnknownField.erase P
          remaining w.1 (.ofList (u₀.elems ++ [r.unknownField]))) ∧
        (w.2 = false → AllocFailed H s s') := by
  obtain ⟨-, -, hdata⟩ := ho
  have hread : readBytes tmp.len tmp.data = .ok r.payload := by
    rw [readBytes, if_pos hs.len_le, hs.data]
  -- the array with the new element
  have hstore : ∀ e : MessageUnknownField, IsBlock (e.data.map Ptr.addr) →
      (∃ u', u.store [e] = .ok u' ∧ UnknownOwned u' ∧
        unknownBlocks u' = blockOf (e.data.map Ptr.addr) + unknownBlocks u ∧
          ArrayTracks MessageUnknownField.erase P remaining u'
            (.ofList (u₀.elems ++ [e.erase]))) ∨ (u.store [e] = .error .access ∧ ¬ P) := by
    intro e he
    rcases htracks.store (show [e].length ≤ 1 from le_rfl) (Nat.le_add_right 1 _) with
      ⟨u', hst, haddr, helems, htr⟩ | hbad
    · have htr := htr rfl
      rw [Nat.add_sub_cancel_left] at htr
      refine .inl ⟨u', hst, ⟨htr.n, htr.block, ?_⟩, ?_, htr⟩
      · intro x hx
        rw [helems] at hx
        rcases List.mem_append.mp hx with hx | hx
        · exact hdata x hx
        · exact List.mem_singleton.mp hx ▸ he
      · rw [unknownBlocks, unknownBlocks, haddr, helems, List.map_append, List.sum_append,
          List.map_singleton, List.sum_singleton]
        abel
    · exact .inr hbad
  unfold parseUnknownMember
  refine (meets_doAlloc H _).bind ?_
  rintro (_ | dst) s₁ h
  · -- out of memory: the element is kept without data
    obtain ⟨hlive₁, hfail₁⟩ := h
    rcases hstore ⟨tmp.tag, tmp.wireType, tmp.len, none⟩ isBlock_none with
      ⟨u', hst, huo, hblocks, -⟩ | ⟨hst, hnP⟩
    · simp only [hst, require_ok, pure_bind, meets_pure]
      refine ⟨huo, ?_, by simp, fun _ => hfail₁⟩
      rw [hlive₁, hlive, hblocks, Option.map_none, blockOf_none, zero_add]
    · simp only [hst, meets_bind, meets_require]
      refine ⟨fun e he => ?_, fun _ he => absurd he (by simp)⟩
      rw [← Except.error.inj he]
      exact ⟨.inl rfl, hnP⟩
  · obtain ⟨hlive₁, hfail₁, hnull, hblock⟩ := h
    simp only [hread, require_ok, pure_bind]
    have hpos : r.payload.length ≠ 0 := (payloadLength_pos hs.wellFormed).1.ne'
    obtain ⟨a, rfl⟩ : ∃ a, dst = some a := by
      refine Option.ne_none_iff_exists'.mp fun hd => ?_
      rw [hs.len] at hnull
      exact hpos (hnull.mp hd)
    obtain ⟨blk, rfl⟩ := hblock a rfl
    rcases hstore ⟨tmp.tag, tmp.wireType, tmp.len, some ⟨.block blk, r.payload⟩⟩
        (isBlock_block blk) with ⟨u', hst, huo, hblocks, htr⟩ | ⟨hst, hnP⟩
    · simp only [Option.map_some, hst, require_ok, pure_bind, meets_pure]
      refine ⟨huo, ?_, fun _ => ⟨hfail₁, ?_⟩, by simp⟩
      · rw [hlive₁, hlive, hblocks]
        simp only [Option.map_some]
        abel
      · have herase : r.unknownField =
            MessageUnknownField.erase ⟨tmp.tag, tmp.wireType, tmp.len,
              some ⟨.block blk, r.payload⟩⟩ := by
          simp [Record.unknownField, MessageUnknownField.erase, Ptr.erase, hs.tag, hs.wireType,
            hs.len]
        rw [herase]
        exact htr
    · simp only [Option.map_some, hst, meets_bind, meets_require]
      refine ⟨fun e he => ?_, fun _ he => absurd he (by simp)⟩
      rw [← Except.error.inj he]
      exact ⟨.inl rfl, hnP⟩

theorem meets_parseMember (hs : Scans (S.desc d) r tmp) (hcount : Countable (S.desc d) r)
    (ht : MessageTracks S P d (r :: rest) m m₀) (hlive : H.live s = m.blocks + L)
    (hsub : ∀ i field, (S.desc d).field? r.tag = some (i, field) → SubUnpacks H S P sub field r) :
    Meets (Excused P) (parseMember H.toAllocator S sub tmp m) s fun w s' =>
      w.1.Owned S ∧ H.live s' = w.1.blocks + L ∧
        (w.2 = true → H.failures s' = H.failures s ∧ ∃ m₁,
          messageStep (decode S) (S.desc d) m₀ r = some m₁ ∧ MessageTracks S P d rest w.1 m₁) ∧
        (w.2 = false → AllocFailed H s s' ∨ messageStep (decode S) (S.desc d) m₀ r = none ∨ ¬ P) := by
  obtain ⟨d₁, slots, u⟩ := m
  obtain ⟨d₀, slots₀, u₀⟩ := m₀
  obtain ⟨hd₁, hd₀, hlen₀, hslots, hunknown, howned, hfilled⟩ := ht
  rw [Message.descriptor_mk] at hd₁ hd₀
  subst d₁ d₀
  simp only [Message.slots_mk, Message.unknown_mk] at *
  unfold parseMember
  rw [hs.field]
  cases hf : (S.desc d).field? r.tag with
  | none =>
    -- an unknown field
    have hone : unknownCount (S.desc d) (r :: rest) = 1 + unknownCount (S.desc d) rest := by
      simp [unknownCount, hf, add_comm]
    rw [hone] at hunknown
    have hdec : messageStep (decode S) (S.desc d) (.mk d slots₀ u₀) r =
        some (.mk d slots₀ (.ofList (u₀.elems ++ [r.unknownField]))) := by
      simp only [messageStep, hf, Message.descriptor_mk, Message.slots_mk, Message.unknown_mk]
    have hkeep : ∀ i field, (S.desc d).fields[i]? = some field → ∃ sl sl₀, slots[i]? = some sl ∧
        slots₀[i]? = some sl₀ ∧ SlotTracks P (elementCount (S.desc d) i rest) sl sl₀ := by
      intro i field hi
      obtain ⟨sl, sl₀, hsl, hsl₀, htr⟩ := hslots i field hi
      refine ⟨sl, sl₀, hsl, hsl₀, ?_⟩
      have hzero : countAt (S.desc d) i r = 0 := by simp only [countAt, hf]
      rwa [elementCount, List.map_cons, List.sum_cons, hzero, zero_add] at htr
    obtain ⟨_, hso, huo, hchildren⟩ := howned
    refine (meets_parseUnknownMember hs hunknown huo (L := (slots.map Slot.blocks).sum + L) ?_).bind ?_
    · rw [hlive, Message.blocks_eq]
      simp only [Message.slots_mk, Message.unknown_mk]
      abel
    · rintro ⟨u', ok⟩ s' ⟨huo', hlive', htrue, hfalse⟩
      have ho' : (Message.mk d slots u').Owned S := ⟨_, hso, huo', hchildren⟩
      refine ⟨ho', ?_, fun hok => ?_, fun hbad => .inl (hfalse hbad)⟩
      · rw [hlive', Message.blocks_eq]
        simp only [Message.slots_mk, Message.unknown_mk]
        abel
      · obtain ⟨hfail, htr⟩ := htrue hok
        exact ⟨hfail, _, hdec, rfl, rfl, hlen₀, hkeep, htr, ho', hfilled⟩
  | some p =>
    obtain ⟨i, field⟩ := p
    have hi := ((S.generated d).field?_eq_some.mp hf).1
    obtain ⟨sl, sl₀, hsl, hsl₀, htr⟩ := hslots i field hi
    obtain ⟨hsown, hsowned⟩ := howned.slot hi hsl
    have hschildren : ∀ c ∈ sl.ownedChildren, c.Complete S := fun c hc =>
      ⟨hsowned c hc, hfilled c (Message.ownedChildren_slot hsl c hc)⟩
    obtain ⟨others, hblocks, hblocks'⟩ := Message.blocks_set (d := d) (u := u) hsl
    have hkeep : unknownCount (S.desc d) (r :: rest) = unknownCount (S.desc d) rest := by
      simp [unknownCount, hf]
    simp only [Message.slots_mk, hsl]
    refine (meets_parseFieldMember hs hf hcount htr hsown hschildren (L := others + L)
      (by rw [hlive, hblocks, add_assoc]) (hsub i field hf)).bind ?_
    rintro ⟨sl', ok⟩ s' h
    have ho' := howned.set hi h.owned fun c hc => (h.children c hc).owned
    refine ⟨ho', ?_, fun hok => ?_, fun hbad => ?_⟩
    · simp only [Message.descriptor_mk, Message.unknown_mk]
      rw [h.live, hblocks', add_assoc]
    · obtain ⟨hfail, sl₁, hstep, htr'⟩ := h.ok hok
      refine ⟨hfail, .mk d (slots₀.set i sl₁) u₀, ?_, rfl, rfl, ?_, ?_, ?_, ho', fun c hc =>
        (Message.mem_ownedChildren_set hc).elim (hfilled c) fun hc => (h.children c hc).filled⟩
      · simp [messageStep, hf, hsl₀, hstep]
      · simpa using hlen₀
      · intro j field' hj
        by_cases hij : i = j
        · subst hij
          have hlt : i < slots.length := (List.getElem?_eq_some_iff.mp hsl).1
          have hlt₀ : i < slots₀.length := (List.getElem?_eq_some_iff.mp hsl₀).1
          exact ⟨sl', sl₁, by simp [hlt], by simp [hlt₀], htr'⟩
        · obtain ⟨slj, slj₀, hslj, hslj₀, htrj⟩ := hslots j field' hj
          refine ⟨slj, slj₀, by simp [hij, hslj], by simp [hij, hslj₀], ?_⟩
          have hzero : countAt (S.desc d) j r = 0 := by
            rw [countAt_of_field hf, if_neg (by tauto)]
          rwa [elementCount, List.map_cons, List.sum_cons, hzero, zero_add] at htrj
      · rw [hkeep] at hunknown
        exact hunknown
    · rcases h.fail hbad with hwhy | hwhy | hwhy
      · exact .inl hwhy
      · exact .inr (.inl (by simp [messageStep, hf, hsl₀, hwhy]))
      · exact .inr (.inr hwhy)

/-! ## All members -/

/-- What the second pass needs of its calls while it parses `rs` over `m₀`: a call is made on the body
of a record only when the records before it could be decoded. -/
def SubsUnpack (H : HeapAllocator σ) (S : Schema) (P : Prop)
    (sub : DescriptorId → List UInt8 → Run σ MessagePtr) (d : DescriptorId) (m₀ : Message)
    (rs : List Record) : Prop :=
  ∀ pre r post m, rs = pre ++ r :: post → foldRecords (decode S) (S.desc d) m₀ pre = some m →
    ∀ i field, (S.desc d).field? r.tag = some (i, field) → SubUnpacks H S P sub field r

theorem foldRecords_cons (dec : DescriptorId → List UInt8 → Option Message) (desc : MessageDescriptor)
    (m : Message) (r : Record) (rs : List Record) : foldRecords dec desc m (r :: rs) =
      (messageStep dec desc m r).bind fun m' => foldRecords dec desc m' rs := by
  rw [foldRecords, List.foldlM_cons]
  rfl

/-- The loop over members makes the steps of the decoder, or fails. -/
theorem meets_parseMembers {rs : List Record} {members : List ScannedMember}
    (hs : List.Forall₂ (Scans (S.desc d)) rs members) (hcount : ∀ r ∈ rs, Countable (S.desc d) r)
    (ht : MessageTracks S P d rs m m₀) (hlive : H.live s = m.blocks + L)
    (hsub : SubsUnpack H S P sub d m₀ rs) :
    Meets (Excused P) (parseMembers H.toAllocator S sub members m) s fun w s' =>
      w.1.Owned S ∧ H.live s' = w.1.blocks + L ∧
        (w.2 = true → H.failures s' = H.failures s ∧ ∃ m₁,
          foldRecords (decode S) (S.desc d) m₀ rs = some m₁ ∧ MessageTracks S P d [] w.1 m₁) ∧
        (w.2 = false → AllocFailed H s s' ∨ foldRecords (decode S) (S.desc d) m₀ rs = none ∨ ¬ P) := by
  induction hs generalizing m m₀ s with
  | nil => exact ⟨ht.owned, hlive, fun _ => ⟨rfl, m₀, rfl, ht⟩, by simp⟩
  | @cons r tmp rs members hr _ ih =>
    rw [parseMembers]
    refine (meets_parseMember hr (hcount r (by simp)) ht hlive fun i field hf =>
      hsub [] r rs m₀ rfl rfl i field hf).bind ?_
    rintro ⟨m', ok⟩ s₁ ⟨ho₁, hlive₁, htrue, hfalse⟩
    cases ok with
    | false =>
      refine ⟨ho₁, hlive₁, by simp, fun _ => ?_⟩
      rw [foldRecords_cons]
      rcases hfalse rfl with hwhy | hwhy | hwhy
      · exact .inl hwhy
      · exact .inr (.inl (by rw [hwhy, Option.bind_none]))
      · exact .inr (.inr hwhy)
    | true =>
      obtain ⟨hfail, m₁, hstep, ht₁⟩ := htrue rfl
      rw [foldRecords_cons, hstep, Option.bind_some]
      refine (ih (fun r' hr' => hcount r' (by simp [hr'])) ht₁ hlive₁ ?_).imp ?_
      · intro pre r' post m₂ hsplit hfold
        refine hsub (r :: pre) r' post m₂ (by rw [hsplit, List.cons_append]) ?_
        rw [foldRecords_cons, hstep, Option.bind_some, hfold]
      · rintro ⟨m₂, ok⟩ s₂ ⟨ho₂, hlive₂, htrue₂, hfalse₂⟩
        refine ⟨ho₂, hlive₂, fun hok => ?_, fun hbad => ?_⟩
        · obtain ⟨hfail₂, hrest⟩ := htrue₂ hok
          exact ⟨hfail₂.trans hfail, hrest⟩
        · rcases hfalse₂ hbad with hwhy | hwhy
          · exact .inl (hwhy.of_eq hfail)
          · exact .inr hwhy

end Member

/-! ## The slabs -/

theorem parseMembers_append (A : Allocator σ) (S : Schema)
    (sub : DescriptorId → List UInt8 → Run σ MessagePtr) (xs ys : List ScannedMember) (m : Message) :
    parseMembers A S sub (xs ++ ys) m = (do
      let r ← parseMembers A S sub xs m
      if r.2 then parseMembers A S sub ys r.1 else return r) := by
  induction xs generalizing m with
  | nil => simp [parseMembers]
  | cons x xs ih =>
    rw [List.cons_append, parseMembers, parseMembers, bind_assoc]
    congr 1
    funext r
    by_cases hr : r.2 = true
    · rw [if_pos hr, if_pos hr, ih]
    · rw [if_neg hr, if_neg hr, pure_bind, if_neg hr]

/-- The loop over slabs that are filled parses their members in order. -/
theorem parseSlabs_eq (A : Allocator σ) (sub : DescriptorId → List UInt8 → Run σ MessagePtr)
    {whichSlab inSlabIndex k : ℕ} {full : List Slab} {cur : Slab}
    (hfull : ∀ i slab, full[i]? = some slab → slab.members.length = 1 <<< (k + i + 4))
    (hcur : cur.members.length = inSlabIndex) (hwhich : k + full.length = whichSlab) (m : Message) :
    parseSlabs A S sub whichSlab inSlabIndex k (full ++ [cur]) m =
      parseMembers A S sub ((full ++ [cur]).flatMap Slab.members) m := by
  induction full generalizing k m with
  | nil =>
    have hk : k = whichSlab := by simpa using hwhich
    simp only [List.nil_append, parseSlabs, hk, hcur, if_true, le_refl, require_ok, pure_bind,
      List.flatMap_singleton]
    rw [List.take_of_length_le hcur.le]
    conv_rhs => rw [← bind_pure (parseMembers A S sub cur.members m)]
    congr 1
    funext r
    by_cases hr : r.2 = true
    · rw [if_pos hr]
      exact congrArg pure (Prod.ext rfl hr.symm)
    · rw [if_neg hr]
  | cons slab full ih =>
    have hslab : slab.members.length = 1 <<< (k + 4) := hfull 0 slab rfl
    have hne : k ≠ whichSlab := by
      rw [← hwhich, List.length_cons]
      omega
    simp only [List.cons_append, parseSlabs, hne, if_false, hslab, le_refl, if_true, require_ok,
      pure_bind, List.flatMap_cons]
    rw [List.take_of_length_le hslab.le, parseMembers_append]
    congr 1
    funext r
    by_cases hr : r.2 = true
    · rw [if_pos hr, if_pos hr]
      refine ih (fun i slab' hi => ?_) ?_ r.1
      · rw [show k + 1 + i = k + (i + 1) by omega]
        exact hfull (i + 1) slab' (by simpa using hi)
      · rw [← hwhich, List.length_cons]
        omega
    · rw [if_neg hr, if_neg hr]

end ProtobufC
