import ProtobufC.Wire.UnpackWalk

/-! # Runs of the decoder

What `protobuf_c_message_unpack` returns and what it leaves on the heap.  `foldMessage` is the fold over
the records at every level, without the check for required fields; `messageUnpack_folds` compares the
two, `messageUnpack_balanced` counts the blocks under any failures of the allocator.
-/

namespace ProtobufC
open Library
set_option autoImplicit false

/-! ## The fold at every level -/

/-- The records of the input folded over the initialised message, and so on for sub-messages. -/
def foldMessageLayer (S : Schema) (sub : DescriptorId → List UInt8 → Option Message)
    (d : DescriptorId) (data : List UInt8) : Option Message := do
  let rs ← tokenize data
  foldRecords sub (S.desc d) (S.initMessage d) rs

def foldMessage (S : Schema) (d : DescriptorId) (data : List UInt8) : Option Message :=
  layerRec (fun p : DescriptorId × List UInt8 => p.2.length)
    (fun sub p => foldMessageLayer S (fun d data => sub (d, data)) p.1 p.2) none (d, data)

theorem foldMessage_eq (S : Schema) (d : DescriptorId) (data : List UInt8) :
    foldMessage S d data = foldMessageLayer S (foldMessage S) d data := by
  refine layerRec_eq (F := fun sub p => foldMessageLayer S (fun d data => sub (d, data)) p.1 p.2) ?_
    (d, data)
  rintro ⟨d, data⟩ g g' h
  show foldMessageLayer S _ d data = foldMessageLayer S _ d data
  unfold foldMessageLayer
  cases hrs : tokenize data with
  | none => rfl
  | some rs =>
    simp only [Option.bind_eq_bind, Option.bind_some]
    exact foldRecords_congr (fun r hr d' => h (d', r.body) (tokenize_body_lt hrs hr)) _

section Mono
variable {sub sub' : DescriptorId → List UInt8 → Option Message} {field : FieldDescriptor} {r : Record}

/-- A decoder of sub-messages that accepts more changes no value that was decoded. -/
theorem decodeValue_mono (h : ∀ d m, sub d r.body = some m → sub' d r.body = some m) {v : Value}
    (hv : decodeValue sub field r = some v) : decodeValue sub' field r = some v := by
  unfold decodeValue at hv ⊢
  cases htype : field.type
  case message =>
    simp only [htype] at hv ⊢
    split_ifs at hv with hw
    obtain ⟨m, hm, rfl⟩ := Option.map_eq_some_iff.mp hv
    rw [if_pos hw, h _ m hm, Option.map_some]
  all_goals
    simp only [htype] at hv ⊢
    exact hv

theorem messageStep_mono (h : ∀ d m, sub d r.body = some m → sub' d r.body = some m)
    {desc : MessageDescriptor} {m m' : Message} (hm : messageStep sub desc m r = some m') :
    messageStep sub' desc m r = some m' := by
  have hslot : ∀ field slot slot', slotStep sub field slot r = some slot' →
      slotStep sub' field slot r = some slot' := by
    intro field slot slot' hs
    unfold slotStep decodeElements at hs ⊢
    split_ifs at hs ⊢
    · exact hs
    all_goals
      obtain ⟨v, hv, rfl⟩ := Option.map_eq_some_iff.mp hs
      first
        | rw [decodeValue_mono h hv, Option.map_some]
        | obtain ⟨w, hw, rfl⟩ := Option.map_eq_some_iff.mp hv
          rw [decodeValue_mono h hw, Option.map_some, Option.map_some]
  unfold messageStep at hm ⊢
  cases hf : desc.field? r.tag with
  | none =>
    rw [hf] at hm
    exact hm
  | some p =>
    obtain ⟨i, field⟩ := p
    simp only [hf] at hm ⊢
    cases hsl : m.slots[i]? with
    | none => simp [hsl] at hm
    | some slot =>
      cases hst : slotStep sub field slot r with
      | none => simp [hsl, hst] at hm
      | some slot' =>
        simp only [hsl, hst, Option.bind_eq_bind, Option.bind_some] at hm
        simp only [hslot field slot slot' hst, Option.bind_eq_bind, Option.bind_some]
        exact hm

theorem foldRecords_mono {desc : MessageDescriptor} {rs : List Record}
    (h : ∀ r ∈ rs, ∀ d m, sub d r.body = some m → sub' d r.body = some m) {m m' : Message}
    (hm : foldRecords sub desc m rs = some m') : foldRecords sub' desc m rs = some m' := by
  induction rs generalizing m with
  | nil => exact hm
  | cons r rs ih =>
    rw [foldRecords_cons] at hm ⊢
    obtain ⟨m₁, hstep, hrest⟩ := Option.bind_eq_some_iff.mp hm
    rw [messageStep_mono (h r (by simp)) hstep, Option.bind_some]
    exact ih (fun r' hr' => h r' (by simp [hr'])) hrest

end Mono

theorem decode_le_foldMessage (S : Schema) (p : DescriptorId × List UInt8) :
    ∀ m, decode S p.1 p.2 = some m → foldMessage S p.1 p.2 = some m := by
  refine measure_induction (fun p : DescriptorId × List UInt8 => p.2.length)
    (P := fun p => ∀ m, decode S p.1 p.2 = some m → foldMessage S p.1 p.2 = some m) ?_ p
  rintro ⟨d, data⟩ ih m hm
  obtain ⟨rs, hrs, -, hfold⟩ := decode_eq_some.mp hm
  show foldMessage S d data = some m
  rw [foldMessage_eq, foldMessageLayer, hrs, Option.bind_eq_bind, Option.bind_some]
  exact foldRecords_mono (fun r hr d' m' hm' => ih (d', r.body) (tokenize_body_lt hrs hr) m' hm') hfold

/-! ## Inputs that are decoded -/

theorem Reaches.tokenize {desc : MessageDescriptor} {data rest : List UInt8} {rs : List Record}
    (h : Reaches desc data rest) (hrs : ProtobufC.tokenize data = some rs) :
    ∃ rs', ProtobufC.tokenize rest = some rs' ∧ rest.length ≤ data.length := by
  induction h generalizing rs with
  | refl data => exact ⟨rs, hrs, le_rfl⟩
  | step hne hnext _ _ ih =>
    rw [tokenize_cons hne hnext] at hrs
    obtain ⟨rs', hrs', -⟩ := Option.map_eq_some_iff.mp hrs
    obtain ⟨rs'', hrs'', hle⟩ := ih hrs'
    have := nextRecord_length hne hnext
    exact ⟨rs'', hrs'', by omega⟩

theorem FieldDescriptor.Generated.not_packed {field : FieldDescriptor} (hg : field.Generated)
    (htype : isPackableType field.type = false) (wire : WireType) :
    isPackedRecord field wire = false := by
  have hpack : field.packed = false := by
    by_contra hp
    have := (hg.packed (by simpa using hp)).2
    rw [htype] at this
    exact absurd this (by simp)
  simp [isPackedRecord, hpack, htype]

theorem MessageDescriptor.Generated.field_generated {desc : MessageDescriptor} (h : desc.Generated)
    {tag : UInt32} {i : ℕ} {field : FieldDescriptor} (hf : desc.field? tag = some (i, field)) :
    field.Generated :=
  h.field field (List.mem_of_getElem? (h.field?_eq_some.mp hf).1)

/-- The step of a known record goes through its value or its elements. -/
theorem messageStep_known {dec : DescriptorId → List UInt8 → Option Message}
    {desc : MessageDescriptor} {m m' : Message} {r : Record} {i : ℕ} {field : FieldDescriptor}
    (h : messageStep dec desc m r = some m') (hf : desc.field? r.tag = some (i, field)) :
    (field.label = .repeated ∧ isPackedRecord field r.wireType = true) ∨
      decodeValue dec field r ≠ none := by
  by_contra hno
  push Not at hno
  obtain ⟨hpacked, hval⟩ := hno
  have hslot : ∀ slot, slotStep dec field slot r = none := by
    intro slot
    unfold slotStep decodeElements
    split_ifs with hl hp
    · exact absurd hp (hpacked hl)
    · rw [hval, Option.map_none, Option.map_none]
    · rw [hval, Option.map_none]
  simp only [messageStep, hf, hslot] at h
  cases hsl : m.slots[i]? <;> simp [hsl] at h

theorem foldRecords_mem {dec : DescriptorId → List UInt8 → Option Message}
    {desc : MessageDescriptor} {m m' : Message} {rs : List Record}
    (h : foldRecords dec desc m rs = some m') {r : Record} (hr : r ∈ rs) :
    ∃ m₁ m₂, messageStep dec desc m₁ r = some m₂ := by
  obtain ⟨pre, post, rfl⟩ := List.append_of_mem hr
  rw [foldRecords_append] at h
  obtain ⟨m₁, -, h⟩ := Option.bind_eq_some_iff.mp h
  rw [foldRecords_cons] at h
  obtain ⟨m₂, hstep, -⟩ := Option.bind_eq_some_iff.mp h
  exact ⟨m₁, m₂, hstep⟩

theorem decode_body {S : Schema} {d : DescriptorId} {data : List UInt8} {m : Message}
    (h : decode S d data = some m) {rs : List Record} (hrs : tokenize data = some rs) {r : Record}
    (hr : r ∈ rs) {i : ℕ} {field : FieldDescriptor}
    (hf : (S.desc d).field? r.tag = some (i, field)) (htype : field.type = .message) :
    ∃ m', decode S field.descriptor r.body = some m' := by
  obtain ⟨rs', hrs', -, hfold⟩ := decode_eq_some.mp h
  rw [hrs, Option.some.injEq] at hrs'
  subst hrs'
  obtain ⟨m₁, m₂, hstep⟩ := foldRecords_mem hfold hr
  have hnot := ((S.generated d).field_generated hf).not_packed (by rw [htype]; rfl) r.wireType
  rcases messageStep_known hstep hf with ⟨-, hp⟩ | hval
  · rw [hnot] at hp
    exact absurd hp (by simp)
  · refine Option.ne_none_iff_exists'.mp fun hnone => hval ?_
    simp [decodeValue, htype, hnone]

/-- What a length prefix announces lies in an input that is decoded. -/
theorem prefix_fits_of_decode {S : Schema} {d : DescriptorId} {data : List UInt8} {m : Message}
    (hm : decode S d data = some m) {rest : List UInt8} (hrest : Reaches (S.desc d) data rest)
    {used : ℕ} {tag : UInt32} (hp : parseTagAndWiretype rest = some (used, tag, .lengthPrefixed)) {i : ℕ}
    (hi : findLastDigit 5 (rest.drop used) = some i) :
    used + (i + 1 + prefixValue i (rest.drop used)) ≤ data.length := by
  obtain ⟨rs, hrs, -, -⟩ := decode_eq_some.mp hm
  obtain ⟨rs', hrs', hle⟩ := hrest.tokenize hrs
  have hne : rest ≠ [] := by
    rintro rfl
    rw [parseTagAndWiretype_nil] at hp
    exact absurd hp (by simp)
  cases hnext : nextRecord rest with
  | none =>
    rw [tokenize_none hne hnext] at hrs'
    exact absurd hrs' (by simp)
  | some q =>
    obtain ⟨r, rest'⟩ := q
    obtain ⟨used', len, hp', hlen, -, -⟩ := nextRecord_eq_some.mp hnext
    rw [hp, Option.some.injEq] at hp'
    simp only [Prod.mk.injEq] at hp'
    obtain ⟨rfl, -, hwire⟩ := hp'
    obtain ⟨hpos, hlen'⟩ := payloadLength_pos hlen
    rw [← hwire] at hlen
    simp only [payloadLength, hi] at hlen
    split_ifs at hlen
    simp only [Option.some.injEq] at hlen
    rw [List.length_drop] at hlen'
    omega

theorem Enters.decode {S : Schema} {d : DescriptorId} {data : List UInt8} {field : FieldDescriptor}
    {r : Record} (he : Enters S d data field r) {m : Message} (hm : decode S d data = some m) :
    ∃ m', ProtobufC.decode S field.descriptor r.body = some m' := by
  obtain ⟨rs, pre, post, _, i, hrs, -, -, rfl, -, hf, htype, -⟩ := he
  exact decode_body hm hrs (by simp) hf htype

/-- An input that is decoded has no length prefix beyond its own length, at any level. -/
theorem prefixesBelow_of_decode {S : Schema} {bound : ℕ} (p : DescriptorId × List UInt8) :
    ∀ m, decode S p.1 p.2 = some m → p.2.length ≤ bound → PrefixesBelow S bound p.1 p.2 := by
  refine measure_induction (fun p : DescriptorId × List UInt8 => p.2.length)
    (P := fun p => ∀ m, decode S p.1 p.2 = some m → p.2.length ≤ bound →
      PrefixesBelow S bound p.1 p.2) ?_ p
  rintro ⟨d, data⟩ ih m (hm : decode S d data = some m) (hbound : data.length ≤ bound)
  refine .intro d data (fun rest hrest used tag i hp hi => ?_) fun field r he => ?_
  · have hfits := prefix_fits_of_decode hm hrest hp hi
    omega
  · have hlt := he.body_lt
    obtain ⟨m', hm'⟩ := he.decode hm
    exact ih (field.descriptor, r.body) hlt m' hm' (by dsimp only; omega)

/-- An input whose length fits 32 bits is safe if it is decoded. -/
theorem safe_of_decode {S : Schema} (p : DescriptorId × List UInt8) :
    ∀ m, decode S p.1 p.2 = some m → p.2.length < 2 ^ 32 → Safe S p.1 p.2 := by
  refine measure_induction (fun p : DescriptorId × List UInt8 => p.2.length)
    (P := fun p => ∀ m, decode S p.1 p.2 = some m → p.2.length < 2 ^ 32 → Safe S p.1 p.2) ?_ p
  rintro ⟨d, data⟩ ih m (hm : decode S d data = some m) (hlen : data.length < 2 ^ 32)
  refine .intro d data (fun rest hrest hwrapped => ?_) fun field r he => ?_
  · obtain ⟨used, tag, hp, i, hi, hwrap⟩ := hwrapped
    have hfits := prefix_fits_of_decode hm hrest hp hi
    omega
  · have hlt := he.body_lt
    obtain ⟨m', hm'⟩ := he.decode hm
    exact ih (field.descriptor, r.body) hlt m' hm' (hlt.trans hlen)

/-! ## What is returned -/

theorem messageUnpack_decode {σ : Type} {H : HeapAllocator σ} {S : Schema} {d : DescriptorId}
    {data : List UInt8} {s s' : σ} {a : Addr} {m : Message}
    (hrun : messageUnpack H.toAllocator S d data s = .ok (.ref a m, s')) :
    decode S d data = some m.erase := by
  obtain ⟨b, -, -, -, hdec, -⟩ := (messageUnpack_spec H S d data s).post hrun
  exact hdec

section Runs
variable {σ : Type} (H : HeapAllocator σ) (S : Schema) (d : DescriptorId) (data : List UInt8) (s : σ)

theorem Benign.of_prefixes {H : HeapAllocator σ} {S : Schema} {d : DescriptorId} {data : List UInt8}
    {bound : ℕ} (htmp : TmpReliable H) (hlen : data.length < 2 ^ 32) (hbound : bound ≤ 2 ^ 32 - 4)
    (h : PrefixesBelow S bound d data) : Benign H S d data :=
  ⟨htmp, hlen, h.safe hbound⟩

/-- Where no allocation fails the decoder returns, and returns NULL exactly when the input is not
decoded. -/
theorem messageUnpack_total {H : HeapAllocator σ} {S : Schema} {d : DescriptorId}
    {data : List UInt8} (hinf : H.Infallible) (hlen : data.length < 2 ^ 32) (hsafe : Safe S d data) :
    ∃ p s', messageUnpack H.toAllocator S d data s = .ok (p, s') ∧
      (p = .null ↔ decode S d data = none) ∧
        ∀ a m, p = .ref a m → decode S d data = some m.erase ∧ m.Owned S := by
  have hben : Benign H S d data := ⟨hinf.2, hlen, hsafe⟩
  obtain ⟨p, s', hrun, hpost⟩ := (messageUnpack_spec H S d data s).total fun e he => he.2 hben
  refine ⟨p, s', hrun, ?_⟩
  cases p with
  | null =>
    obtain ⟨-, hwhy⟩ := hpost
    have hnone : decode S d data = none := by
      rcases hwhy with hwhy | hwhy | hwhy
      · exact absurd hinf hwhy.2
      · exact hwhy
      · exact absurd hben hwhy
    exact ⟨iff_of_true rfl hnone, by simp⟩
  | ref a m =>
    obtain ⟨b, rfl, -, -, hdec, hdone⟩ := hpost
    refine ⟨iff_of_false (by simp) (by simp [hdec]), ?_⟩
    rintro a' m' hp
    simp only [MessagePtr.ref.injEq] at hp
    obtain ⟨-, rfl⟩ := hp
    exact ⟨hdec, hdone.owned⟩

/-- The two passes return what the fold over the records yields, and NULL when that fold fails. -/
theorem messageUnpack_folds (hinf : H.Infallible) (hlen : data.length < 2 ^ 31)
    (hprefixes : PrefixesBelow S (2 ^ 31) d data) :
    ∃ p s', messageUnpack H.toAllocator S d data s = .ok (p, s') ∧
      (∀ a m, p = .ref a m → foldMessage S d data = some m.erase) ∧
      (foldMessage S d data = none → p = .null) ∧ (p = .null ↔ decode S d data = none) := by
  obtain ⟨p, s', hrun, hnull, href⟩ := messageUnpack_total s hinf (by omega)
    (hprefixes.safe (by norm_num))
  refine ⟨p, s', hrun, fun a m hp => ?_, fun hnone => ?_, hnull⟩
  · exact decode_le_foldMessage S (d, data) _ (href a m hp).1
  · rw [hnull]
    by_contra hsome
    obtain ⟨m, hm⟩ := Option.ne_none_iff_exists'.mp hsome
    have := decode_le_foldMessage S (d, data) m hm
    rw [show foldMessage S (d, data).1 (d, data).2 = foldMessage S d data from rfl, hnone] at this
    exact absurd this (by simp)

/-- What is made of `nestedBytes`: the bytes field has the value of its second record. -/
def nestedRead : Message :=
  .mk 0 [.singular 0 (.bytes 2 (some ⟨.block 6, [8, 9]⟩)),
    .repeated ⟨1, some (.block 1), 1, [.message (.ref (.block 4)
      (.mk 0 [.singular 0 (.bytes 0 none), .repeated .null] .null))]⟩]
    ⟨1, some (.block 2), 1, [⟨9, .varint, 2, some ⟨.block 5, [128, 1]⟩⟩]⟩

theorem messageUnpack_nestedBytes :
    messageUnpack countingHeap.toAllocator nestedSchema 0 nestedBytes (0, []) =
      .ok (.ref (.block 0) nestedRead, (7, [6, 5, 4, 2, 1, 0])) := rfl

theorem prefixesBelow_nestedBytes : PrefixesBelow nestedSchema (2 ^ 31) 0 nestedBytes :=
  prefixesBelow_of_decode (0, nestedBytes) _ (messageUnpack_decode messageUnpack_nestedBytes) (by decide)

/-- `messageUnpack_folds` on an input with a sub-message, a field that comes twice, and an unknown field. -/
theorem messageUnpack_folds_nested : foldMessage nestedSchema 0 nestedBytes = some nestedRead.erase := by
  obtain ⟨p, s', hrun, hfold, -⟩ := messageUnpack_folds countingHeap nestedSchema 0 nestedBytes (0, [])
    countingHeap_infallible (by decide) prefixesBelow_nestedBytes
  have hsame := Except.ok.inj (hrun.symm.trans messageUnpack_nestedBytes)
  exact hfold (.block 0) nestedRead (Prod.mk.inj hsame).1

/-- The decoder leaves no block behind when it returns NULL, what it returns can be released, and
it releases nothing else; a failed allocation makes it return NULL. -/
theorem messageUnpack_balanced (htmp : H.tmpAlloc = none)
    (hprefixes : PrefixesBelow S (2 ^ 31) d data) :
    (∀ e, messageUnpack H.toAllocator S d data s = .error e →
      (e = .access ∨ e = .shift) ∧ 2 ^ 32 ≤ data.length) ∧
    ∀ p s', messageUnpack H.toAllocator S d data s = .ok (p, s') →
      (H.failures s ≠ H.failures s' → p = .null) ∧
      match p with
      | .null => H.live s' = H.live s
      | .ref a m => ∃ s'', messageFreeUnpacked H.toAllocator S (a, m) s' = .ok ((), s'') ∧
          H.live s'' = H.live s := by
  have hspec := messageUnpack_spec H S d data s
  have hben : data.length < 2 ^ 32 → Benign H S d data := fun hlen =>
    .of_prefixes (fun f hf => by simp [htmp] at hf) hlen (by norm_num) hprefixes
  refine ⟨fun e he => ?_, fun p s' hrun => ?_⟩
  · obtain ⟨hfault, hbad⟩ := hspec.faulty he
    exact ⟨hfault, by by_contra hlen; exact hbad (hben (by omega))⟩
  · have hpost := hspec.post hrun
    cases p with
    | null => exact ⟨fun _ => rfl, hpost.1⟩
    | ref a m =>
      obtain ⟨b, rfl, hlive, hfail, -, hdone⟩ := hpost
      refine ⟨fun h => absurd hfail.symm h, ?_⟩
      obtain ⟨u, s'', hfree, hlive', -⟩ :=
        (frees_messageFreeUnpacked (H := H) hdone.owned b s' (H.live s) hlive).total fun _ => id
      exact ⟨s'', hfree, hlive'⟩

theorem messageUnpack_refused : ∃ p,
    messageUnpack (refusingHeap (· = 4)).toAllocator nestedSchema 0 nestedBytes (0, [], 0) =
      .ok (p, (5, [], 1)) := by
  have hstate : (messageUnpack (refusingHeap (· = 4)).toAllocator nestedSchema 0 nestedBytes
      (0, [], 0)).toOption.map Prod.snd = some (5, [], 1) := by
    decide +kernel
  cases hrun : messageUnpack (refusingHeap (· = 4)).toAllocator nestedSchema 0 nestedBytes (0, [], 0) with
  | error e => simp [hrun, Except.toOption] at hstate
  | ok r =>
    rw [hrun] at hstate
    exact ⟨r.1, congrArg Except.ok (Prod.ext rfl (Option.some.inj hstate))⟩

/-- `messageUnpack_balanced` on an input for which the block of the sub-message is refused. -/
theorem messageUnpack_balanced_refused : ∃ s',
    messageUnpack (refusingHeap (· = 4)).toAllocator nestedSchema 0 nestedBytes (0, [], 0) =
      .ok (.null, s') ∧ s'.2.2 = 1 ∧ (s'.2.1 : Multiset ℕ) = ([] : List ℕ) := by
  obtain ⟨p, hrun⟩ := messageUnpack_refused
  obtain ⟨hnull, hlive⟩ := (messageUnpack_balanced (refusingHeap (· = 4)) nestedSchema 0 nestedBytes
    (0, [], 0) rfl prefixesBelow_nestedBytes).2 _ _ hrun
  obtain rfl := hnull Nat.zero_ne_one
  exact ⟨_, hrun, rfl, hlive⟩

end Runs

end ProtobufC
