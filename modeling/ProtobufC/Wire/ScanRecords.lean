import ProtobufC.Wire.UnpackWalk

/-! # The scan as a tokenizer

The grammar of a serialised message: records of a tag numeral and a payload whose shape the wire type
fixes.  `tokenize_iff` says that `tokenize` reads this grammar, `scanLoop_tokenizes` that the two
passes over the input visit its records, and `lookupField_exact` which field each of them is given.
-/

namespace ProtobufC
open Library
set_option autoImplicit false

/-! ## The grammar -/

/-- A base-128 numeral of at most `max` digits. -/
def Numeral (max : ℕ) (bs : List UInt8) : Prop := Terminated bs ∧ bs.length ≤ max

instance Numeral.decidable (max : ℕ) (bs : List UInt8) : Decidable (Numeral max bs) :=
  inferInstanceAs (Decidable (Terminated bs ∧ bs.length ≤ max))

/-- The payloads of each wire type. -/
inductive IsPayload : WireType → List UInt8 → Prop
  | varint {bs : List UInt8} (h : Numeral 10 bs) : IsPayload .varint bs
  | bit64 {bs : List UInt8} (h : bs.length = 8) : IsPayload .bit64 bs
  | lengthPrefixed {pre body : List UInt8} (h : Numeral 5 pre)
      (hval : base128Value pre % 2 ^ 32 = body.length) : IsPayload .lengthPrefixed (pre ++ body)
  | bit32 {bs : List UInt8} (h : bs.length = 4) : IsPayload .bit32 bs

/-- The bytes of one record. -/
structure WireRecord where
  tagBytes : List UInt8
  payload : List UInt8

namespace WireRecord

def bytes (w : WireRecord) : List UInt8 := w.tagBytes ++ w.payload

/-- The field number, in 32 bits. -/
def tag (w : WireRecord) : UInt32 := UInt32.ofNat (base128Value w.tagBytes / 8)

def wireType (w : WireRecord) : WireType := WireType.ofByte (byteAt w.tagBytes 0)

def record (w : WireRecord) : Record := ⟨w.tag, w.wireType, w.payload⟩

/-- The tag is a numeral of at most five digits, the payload has the shape of the wire type. -/
structure Valid (w : WireRecord) : Prop where
  tag : Numeral 5 w.tagBytes
  payload : IsPayload w.wireType w.payload

end WireRecord

theorem Numeral.findLastDigit_eq {max : ℕ} {bs : List UInt8} (h : Numeral max bs)
    (rest : List UInt8) : findLastDigit max (bs ++ rest) = some (bs.length - 1) :=
  findLastDigit_append h.1 h.2 rest

theorem Numeral.length_pos {max : ℕ} {bs : List UInt8} (h : Numeral max bs) : 0 < bs.length := by
  cases bs with
  | nil => exact absurd h.1 id
  | cons b bs => simp

theorem numeral_take {max i : ℕ} {data : List UInt8} (h : findLastDigit max data = some i) :
    Numeral max (data.take (i + 1)) := by
  have hi := findLastDigit_lt h
  refine ⟨findLastDigit_terminated h, ?_⟩
  rw [List.length_take]
  omega

theorem IsPayload.payloadLength_eq {wire : WireType} {bs : List UInt8} (h : IsPayload wire bs)
    (rest : List UInt8) : payloadLength wire (bs ++ rest) = some bs.length := by
  cases h with
  | varint hn =>
    have hpos := hn.length_pos
    simp only [payloadLength, hn.findLastDigit_eq, Option.map_some]
    rw [Nat.sub_add_cancel hpos]
  | bit64 hlen | bit32 hlen =>
    simp only [payloadLength, List.length_append, hlen]
    rw [if_neg (by omega)]
  | @lengthPrefixed pre body hn hval =>
    have hpos := hn.length_pos
    have hpre : prefixValue (pre.length - 1) (pre ++ body ++ rest) = body.length := by
      rw [prefixValue, Nat.sub_add_cancel hpos, List.append_assoc, List.take_left, hval]
    have hfind : findLastDigit 5 (pre ++ body ++ rest) = some (pre.length - 1) := by
      rw [List.append_assoc]
      exact hn.findLastDigit_eq _
    simp only [payloadLength, hfind, hpre, Nat.sub_add_cancel hpos, List.length_append]
    rw [if_neg (by omega)]

theorem isPayload_take {wire : WireType} {data : List UInt8} {len : ℕ}
    (h : payloadLength wire data = some len) : IsPayload wire (data.take len) := by
  have hlen := payloadLength_pos h
  cases wire with
  | varint =>
    obtain ⟨i, hi, rfl⟩ := Option.map_eq_some_iff.mp h
    exact .varint (numeral_take hi)
  | bit64 =>
    simp only [payloadLength] at h
    split_ifs at h with hlt
    simp only [Option.some.injEq] at h
    exact .bit64 (by rw [List.length_take]; omega)
  | bit32 =>
    simp only [payloadLength] at h
    split_ifs at h with hlt
    simp only [Option.some.injEq] at h
    exact .bit32 (by rw [List.length_take]; omega)
  | lengthPrefixed =>
    simp only [payloadLength] at h
    cases hi : findLastDigit 5 data with
    | none => simp [hi] at h
    | some i =>
      simp only [hi] at h
      split_ifs at h with hgt
      simp only [Option.some.injEq] at h
      rw [← h, List.take_add]
      refine .lengthPrefixed (numeral_take hi) ?_
      rw [List.length_take, List.length_drop, ← prefixValue]
      omega
  | startGroup | endGroup | unnamed6 | unnamed7 => simp [payloadLength] at h

theorem nextRecord_iff {data : List UInt8} (hne : data ≠ []) {r : Record} {rest : List UInt8} :
    nextRecord data = some (r, rest) ↔
      ∃ w : WireRecord, w.Valid ∧ data = w.bytes ++ rest ∧ r = w.record := by
  rw [nextRecord_eq_some]
  constructor
  · rintro ⟨used, len, hp, hlen, hpay, hrest⟩
    rw [parseTagAndWiretype_eq hne] at hp
    obtain ⟨i, hi, he⟩ := Option.map_eq_some_iff.mp hp
    simp only [Prod.mk.injEq] at he
    obtain ⟨rfl, htag, hwire⟩ := he
    have hlt := findLastDigit_lt hi
    have hhead : byteAt (data.take (i + 1)) 0 = byteAt data 0 := by
      unfold byteAt
      rw [List.getD_eq_getElem?_getD, List.getElem?_take_of_lt (by omega),
        List.getD_eq_getElem?_getD]
    refine ⟨⟨data.take (i + 1), (data.drop (i + 1)).take len⟩, ⟨numeral_take hi, ?_⟩, ?_, ?_⟩
    · show IsPayload (WireType.ofByte (byteAt (data.take (i + 1)) 0)) _
      rw [hhead, hwire]
      exact isPayload_take hlen
    · rw [WireRecord.bytes, hrest, List.append_assoc, List.take_append_drop, List.take_append_drop]
    · obtain ⟨tag, wire, payload⟩ := r
      simp only at htag hwire hpay
      simp only [WireRecord.record, WireRecord.tag, WireRecord.wireType, hhead, htag, hwire, hpay]
  · rintro ⟨w, ⟨htag, hpay⟩, rfl, rfl⟩
    have hpos := htag.length_pos
    have hbytes : w.bytes ++ rest = w.tagBytes ++ (w.payload ++ rest) := by
      rw [WireRecord.bytes, List.append_assoc]
    have hhead : byteAt (w.tagBytes ++ (w.payload ++ rest)) 0 = byteAt w.tagBytes 0 :=
      byteAt_append hpos _
    refine ⟨w.tagBytes.length, w.payload.length, ?_, ?_, ?_, ?_⟩
    · rw [parseTagAndWiretype_eq hne, hbytes, htag.findLastDigit_eq, Option.map_some,
        Nat.sub_add_cancel hpos, List.take_left, hhead]
      rfl
    · rw [hbytes, List.drop_left]
      exact hpay.payloadLength_eq rest
    · rw [hbytes, List.drop_left, List.take_left]
      rfl
    · rw [hbytes, List.drop_left, List.drop_left]

theorem WireRecord.bytes_ne_nil {w : WireRecord} (h : w.Valid) : w.bytes ≠ [] := by
  have hpos := h.tag.length_pos
  intro hnil
  have := congrArg List.length hnil
  rw [WireRecord.bytes, List.length_append, List.length_nil] at this
  omega

theorem tokenize_iff {data : List UInt8} {rs : List Record} : tokenize data = some rs ↔
    ∃ ws : List WireRecord, (∀ w ∈ ws, w.Valid) ∧ data = ws.flatMap WireRecord.bytes ∧
      rs = ws.map WireRecord.record := by
  constructor
  · refine tokenize_induction (P := fun data rs => ∃ ws : List WireRecord, (∀ w ∈ ws, w.Valid) ∧
      data = ws.flatMap WireRecord.bytes ∧ rs = ws.map WireRecord.record) ⟨[], by simp⟩ ?_
    rintro data r rest rs hne hnext _ ⟨ws, hws, rfl, rfl⟩
    obtain ⟨w, hw, rfl, rfl⟩ := (nextRecord_iff hne).mp hnext
    refine ⟨w :: ws, ?_, rfl, rfl⟩
    intro w' hw'
    rcases List.mem_cons.mp hw' with rfl | hw'
    · exact hw
    · exact hws w' hw'
  · rintro ⟨ws, hws, rfl, rfl⟩
    induction ws with
    | nil => exact tokenize_nil
    | cons w ws ih =>
      have hw := hws w (by simp)
      have hne : w.bytes ++ ws.flatMap WireRecord.bytes ≠ [] := by
        simp [WireRecord.bytes_ne_nil hw]
      rw [List.flatMap_cons, tokenize_cons hne ((nextRecord_iff hne).mpr ⟨w, hw, rfl, rfl⟩),
        ih fun w' hw' => hws w' (by simp [hw'])]
      rfl

/-! ## What the two passes visit -/

/-- The members describe the records, each from the payload of its own record on. -/
def Visits : List WireRecord → List ScannedMember → Prop
  | [], [] => True
  | w :: ws, tmp :: ms => tmp.tag = w.tag ∧ tmp.wireType = w.wireType ∧
      tmp.len = w.payload.length ∧ tmp.data = w.payload ++ ws.flatMap WireRecord.bytes ∧ Visits ws ms
  | _, _ => False

theorem Trail.cases_cons {data : List UInt8} {rs : List Record} {ms : List ScannedMember}
    {rest : List UInt8} (h : Trail data rs ms rest) : (rs = [] ∧ ms = [] ∧ rest = data) ∨
      ∃ r data' rs' tmp ms', rs = r :: rs' ∧ ms = tmp :: ms' ∧ data ≠ [] ∧
        nextRecord data = some (r, data') ∧ tmp.data = r.payload ++ data' ∧
          Trail data' rs' ms' rest := by
  induction h with
  | start => exact .inl ⟨rfl, rfl, rfl⟩
  | @next rs ms rest rest' r tmp h hne hnext hdata ih =>
    refine .inr ?_
    rcases ih with ⟨rfl, rfl, rfl⟩ | ⟨r₁, data', rs', tmp₁, ms', rfl, rfl, hne₁, hnext₁, hdata₁, htrail⟩
    · exact ⟨r, rest', [], tmp, [], rfl, rfl, hne, hnext, hdata, .start⟩
    · exact ⟨r₁, data', rs' ++ [r], tmp₁, ms' ++ [tmp], rfl, rfl, hne₁, hnext₁, hdata₁,
        htrail.next hne hnext hdata⟩

/-- The members of a complete scan describe the records of the grammar. -/
theorem Trail.visits {desc : MessageDescriptor} {ws : List WireRecord} (hws : ∀ w ∈ ws, w.Valid)
    {rs : List Record} {ms : List ScannedMember} (hs : List.Forall₂ (Scans desc) rs ms)
    (h : Trail (ws.flatMap WireRecord.bytes) rs ms []) : Visits ws ms := by
  induction ws generalizing rs ms with
  | nil =>
    rcases h.cases_cons with ⟨-, rfl, -⟩ | ⟨r, data', rs', tmp, ms', -, -, hne, -⟩
    · trivial
    · exact absurd rfl hne
  | cons w ws ih =>
    have hw := hws w (by simp)
    have hne : w.bytes ++ ws.flatMap WireRecord.bytes ≠ [] := by
      simp [WireRecord.bytes_ne_nil hw]
    rcases h.cases_cons with ⟨-, -, hnil⟩ | ⟨r, data', rs', tmp, ms', rfl, rfl, -, hnext, hdata, htrail⟩
    · exact absurd hnil.symm hne
    · rw [List.flatMap_cons, (nextRecord_iff hne).mpr ⟨w, hw, rfl, rfl⟩, Option.some.injEq,
        Prod.mk.injEq] at hnext
      obtain ⟨rfl, rfl⟩ := hnext
      cases hs with
      | cons hscan hs' =>
        exact ⟨hscan.tag, hscan.wireType, hscan.len, hdata,
          ih (fun w' hw' => hws w' (by simp [hw'])) hs' htrail⟩

section Scan
variable {σ : Type}

/-- The slabs hold `16 * 2 ^ i` members each, the last one `in_slab_index`. -/
def SlabLayout (st : ScanState) : Prop :=
  st.slabs.length = st.whichSlab + 1 ∧ ∀ i slab, st.slabs[i]? = some slab →
    slab.members.length = if i = st.whichSlab then st.inSlabIndex else 16 * 2 ^ i

theorem SlabsFilled.layout {st : ScanState} {full : List Slab} {cur : Slab}
    (h : SlabsFilled st full cur) : SlabLayout st := by
  refine ⟨by rw [h.slabs, List.length_append, List.length_singleton, h.which], fun i slab hi => ?_⟩
  rw [h.slabs] at hi
  by_cases hlt : i < full.length
  · rw [List.getElem?_append_left hlt] at hi
    rw [h.sizes i slab hi, if_neg (by rw [← h.which]; omega), Nat.one_shiftLeft, pow_add]
    omega
  · rw [List.getElem?_append_right (by omega), List.getElem?_singleton] at hi
    split_ifs at hi with h0
    simp only [Option.some.injEq] at hi
    subst hi
    rw [if_pos (by rw [← h.which]; omega), h.index]

/-- For a message without repeated fields the scanning loop ends on every input, and accepts it
exactly when it is a sequence of records; the parsing loop then visits these records. -/
theorem scanLoop_tokenizes (H : HeapAllocator σ) (hinf : H.Infallible) (S : Schema) (d : DescriptorId)
    (hlabel : ∀ f ∈ (S.desc d).fields, f.label ≠ .repeated) (data : List UInt8)
    (hlen : data.length < 2 ^ 31) (s : σ) :
    ∃ st ok s', scanLoop H.toAllocator (S.desc d) data.length (ScanState.start (S.desc d) data) s =
        .ok ((st, ok), s') ∧
      (ok = true ↔ ∃ ws : List WireRecord, (∀ w ∈ ws, w.Valid) ∧
        data = ws.flatMap WireRecord.bytes) ∧
      (ok = true → SlabLayout st ∧ (∀ ws : List WireRecord, (∀ w ∈ ws, w.Valid) →
          data = ws.flatMap WireRecord.bytes → Visits ws st.members) ∧
        ∀ (sub : DescriptorId → List UInt8 → Run σ MessagePtr) (m : Message),
          parseSlabs H.toAllocator S sub st.whichSlab st.inSlabIndex 0 st.slabs m =
            parseMembers H.toAllocator S sub st.members m) := by
  have hgen := S.generated d
  have hrun := meets_scanLoop (P := True) (H := H) (L := H.live s) hgen le_rfl
    (scanned_start hgen data) (s := s) (by
      intro _ slab hslab
      simp [ScanState.start] at hslab) (by simp [ScanState.start, slabBlocks])
    fun _ => ⟨hinf.2, by simp only [List.length_nil, ScanState.start]; omega,
      fun _ _ _ => hlabel⟩
  obtain ⟨⟨st, ok⟩, s', hx, hres⟩ := hrun.total fun e he => he.2 trivial
  refine ⟨st, ok, s', hx, ?_, ?_⟩
  · constructor
    · intro hok
      obtain ⟨-, rs, hrs, -⟩ := hres.ok hok
      obtain ⟨ws, hws, hdata, -⟩ := tokenize_iff.mp hrs
      exact ⟨ws, hws, hdata⟩
    · rintro ⟨ws, hws, hdata⟩
      by_contra hok
      rcases hres.fail (by simpa using hok) with hfail | hun | hlong
      · exact hfail.2 hinf
      · obtain ⟨r, -, hcount⟩ := hun (ws.map WireRecord.record)
          (tokenize_iff.mpr ⟨ws, hws, hdata, rfl⟩)
        refine hcount fun i field hf hl => ?_
        exact absurd hl (hlabel field (List.mem_of_getElem? (hgen.field?_eq_some.mp hf).1))
      · have hlong : 2 ^ 32 ≤ data.length := hlong
        omega
  · intro hok
    obtain ⟨-, rs, -, -, hst, hend⟩ := hres.ok hok
    obtain ⟨full, cur, hfilled, -⟩ := hst.slabs
    refine ⟨hfilled.layout, ?_, fun sub m => ?_⟩
    · intro ws hws hdata
      have htrail := hst.trail
      rw [hend, hdata] at htrail
      exact htrail.visits hws hst.members
    · rw [ScanState.members, hfilled.slabs]
      exact parseSlabs_eq H.toAllocator sub (fun i slab hi => by
        rw [Nat.zero_add]; exact hfilled.sizes i slab hi) hfilled.index
        (by rw [Nat.zero_add]; exact hfilled.which) m

/-- A field that comes twice, a tag of two bytes, and a record behind a length prefix. -/
def mixedRecords : List WireRecord :=
  [⟨[8], [5]⟩, ⟨[146, 1], [2, 10, 0]⟩, ⟨[8], [135, 0]⟩, ⟨[29], [1, 2, 3, 4]⟩]

theorem mixedRecords_valid : ∀ w ∈ mixedRecords, w.Valid := by
  intro w hw
  simp only [mixedRecords, List.mem_cons, List.not_mem_nil, or_false] at hw
  have hprefixed : IsPayload .lengthPrefixed ([2] ++ [10, 0]) := .lengthPrefixed (by decide) (by decide)
  obtain rfl | rfl | rfl | rfl := hw
  · exact ⟨by decide, .varint (by decide)⟩
  · exact ⟨by decide, hprefixed⟩
  · exact ⟨by decide, .varint (by decide)⟩
  · exact ⟨by decide, .bit32 rfl⟩

/-- `scanLoop_tokenizes` on these records. -/
theorem scanLoop_tokenizes_mixed : ∃ st s',
    scanLoop countingHeap.toAllocator (int32Schema.desc 0) (mixedRecords.flatMap WireRecord.bytes).length
        (ScanState.start (int32Schema.desc 0) (mixedRecords.flatMap WireRecord.bytes)) (0, []) =
      .ok ((st, true), s') ∧ Visits mixedRecords st.members := by
  obtain ⟨st, ok, s', hrun, hok, hvisits⟩ := scanLoop_tokenizes countingHeap countingHeap_infallible
    int32Schema 0 (by simp [int32Schema, Schema.uniform, MessageDescriptor.generate,
      FieldDescriptor.scalar]) (mixedRecords.flatMap WireRecord.bytes) (by decide) (0, [])
  obtain rfl := hok.mpr ⟨mixedRecords, mixedRecords_valid, rfl⟩
  exact ⟨st, s', hrun, (hvisits rfl).2.1 mixedRecords mixedRecords_valid rfl⟩

/-! ## The field of a record -/

/-- The states in front of the loop test, in any run of the scanning loop. -/
inductive ScanReaches (A : Allocator σ) (desc : MessageDescriptor) (data : List UInt8) :
    ScanState → Prop
  | start : ScanReaches A desc data (ScanState.start desc data)
  | round {st st' : ScanState} {s s' : σ} (h : ScanReaches A desc data st)
      (hround : scanMember A desc st s = .ok ((st', true), s')) : ScanReaches A desc data st'

/-- The cached field is one of the message, with its index. -/
def LastField (desc : MessageDescriptor) (st : ScanState) : Prop :=
  ∀ p, st.lastField = some p → desc.fields[p.1]? = some p.2 ∧ st.lastFieldIndex = p.1

theorem keepMember_lastField (A : Allocator σ) (tmp : ScannedMember) (st : ScanState) (s : σ) :
    Meets (fun _ => True) (keepMember A tmp st) s fun r _ =>
      r.1.lastField = st.lastField ∧ r.1.lastFieldIndex = st.lastFieldIndex := by
  have hreserve : Meets (fun _ => True) (reserveSlab A st) s fun r _ =>
      r.1.lastField = st.lastField ∧ r.1.lastFieldIndex = st.lastFieldIndex := by
    unfold reserveSlab
    rw [meets_ite]
    refine ⟨fun _ => trivial, fun _ => ?_⟩
    rw [meets_ite]
    refine ⟨fun _ => ?_, fun _ => ⟨rfl, rfl⟩⟩
    rw [meets_ite]
    refine ⟨fun _ => ⟨rfl, rfl⟩, fun _ => ?_⟩
    rw [meets_bind, meets_def]
    exact ⟨fun _ _ => trivial, fun _ _ _ => ⟨rfl, rfl⟩⟩
  unfold keepMember
  refine hreserve.bind ?_
  rintro ⟨st₁, ok⟩ s₁ ⟨hlast, hindex⟩
  cases ok with
  | false => exact ⟨hlast, hindex⟩
  | true =>
    simp only [Bool.true_eq_false, if_false, meets_bind, meets_require]
    refine ⟨fun _ _ => trivial, fun st₂ hst₂ => ⟨fun _ _ => trivial, ?_⟩⟩
    have hsame : st₂.lastField = st₁.lastField ∧ st₂.lastFieldIndex = st₁.lastFieldIndex := by
      unfold storeMember at hst₂
      split at hst₂
      · simp only [Except.ok.injEq] at hst₂
        rw [← hst₂]
        exact ⟨rfl, rfl⟩
      · exact absurd hst₂ (by simp)
    rintro (_ | slots) -
    · exact ⟨hsame.1.trans hlast, hsame.2.trans hindex⟩
    · exact ⟨hsame.1.trans hlast, hsame.2.trans hindex⟩

theorem LastField.round {A : Allocator σ} {desc : MessageDescriptor} (hg : desc.Generated)
    {st st' : ScanState} {s s' : σ} (h : LastField desc st)
    (hround : scanMember A desc st s = .ok ((st', true), s')) : LastField desc st' := by
  have hmeets : Meets (fun _ => True) (scanMember A desc st) s fun r _ =>
      r.2 = true → LastField desc r.1 := by
    unfold scanMember
    cases parseTagAndWiretype st.at_ with
    | none => exact fun hok => absurd hok (by simp)
    | some p =>
      obtain ⟨used, tag, wire⟩ := p
      obtain ⟨st₁, hlookup, -, hlast, hindex⟩ := lookupField_eq hg tag h
      have htake : ∃ st₂, takeTag desc used tag st = .ok (desc.field? tag, st₂) ∧
          st₂.lastField = st₁.lastField ∧ st₂.lastFieldIndex = st₁.lastFieldIndex := by
        unfold takeTag
        rw [hlookup, except_ok_bind, markRequired_eq (r := ⟨tag, wire, []⟩) hindex rfl]
        exact ⟨_, rfl, rfl, rfl⟩
      obtain ⟨st₂, htake, hlast₂, hindex₂⟩ := htake
      have hst₂ : LastField desc st₂ := by
        intro q hq
        rw [hindex₂]
        exact hlast q (hlast₂ ▸ hq)
      simp only [htake, require_ok, pure_bind]
      cases scanPayload wire st₂.at_ with
      | none => exact fun hok => absurd hok (by simp)
      | some q =>
        refine (keepMember_lastField A _ st₂ s).imp ?_
        rintro ⟨st₃, ok⟩ s₃ ⟨hl, hi⟩ - q' hq'
        simp only at hl hi hq' ⊢
        rw [hi]
        exact hst₂ q' (hl ▸ hq')
  exact hmeets.post hround rfl

theorem ScanReaches.lastField {A : Allocator σ} {desc : MessageDescriptor} (hg : desc.Generated)
    {data : List UInt8} {st : ScanState} (h : ScanReaches A desc data st) : LastField desc st := by
  induction h with
  | start => exact (scanned_start hg data).lastField
  | round _ hround ih => exact ih.round hg hround

/-- The table for a set of field numbers, sorted. -/
def numberTable (numbers : Finset ℕ) : List Int32 :=
  (numbers.sort (· ≤ ·)).map Int32.ofNat

theorem numberTable_searchable {numbers : Finset ℕ} (h : ∀ n ∈ numbers, 1 ≤ n ∧ n < 2 ^ 29) :
    Searchable (numberTable numbers) := by
  have hint : ∀ n ∈ numbers.sort (· ≤ ·), (Int32.ofNat n).toInt = n := by
    intro n hn
    have := h n ((Finset.mem_sort _).mp hn)
    exact Int32.toInt_ofNat_of_lt (by omega)
  refine ⟨?_, ?_, ?_⟩
  · rw [numberTable, List.pairwise_map]
    refine (Finset.sortedLT_sort numbers).pairwise.imp_of_mem ?_
    intro a b ha hb hab
    rw [hint a ha, hint b hb]
    exact_mod_cast hab
  · intro v hv
    obtain ⟨n, hn, rfl⟩ := List.mem_map.mp hv
    have := h n ((Finset.mem_sort _).mp hn)
    rw [hint n hn]
    omega
  · have hsub : numbers ⊆ Finset.range (2 ^ 29) := fun n hn => Finset.mem_range.mpr (h n hn).2
    have hcard := Finset.card_le_card hsub
    rw [Finset.card_range] at hcard
    rw [numberTable, List.length_map, Finset.length_sort]
    omega

/-- The members that a run of the scanning loop stores have the fields that their tags name. -/
theorem scanLoop_fields (H : HeapAllocator σ) {desc : MessageDescriptor} (hg : desc.Generated)
    (data : List UInt8) {s s' : σ} {r : ScanState × Bool}
    (hrun : scanLoop H.toAllocator desc data.length (ScanState.start desc data) s = .ok (r, s')) :
    ∀ tmp ∈ r.1.members, tmp.field = desc.field? tmp.tag := by
  have hres := (meets_scanLoop (P := False) (H := H) (L := H.live s) hg le_rfl
    (scanned_start hg data) (s := s) (by
      intro _ slab hslab
      simp [ScanState.start] at hslab) (by simp [ScanState.start, slabBlocks]) False.elim).post hrun
  obtain ⟨ms, hms, hfield, -⟩ := hres.stores
  have hnil : (ScanState.start desc data).members = [] := rfl
  rw [hms, hnil, List.nil_append]
  exact fun tmp htmp => (hfield tmp htmp).1

/-- The lookup of a field number is exact: in the table of any set of numbers, in every state of the
scan whatever field was found last, and so for every member that the scan stores. -/
theorem lookupField_exact :
    (∀ numbers : Finset ℕ, (∀ n ∈ numbers, 1 ≤ n ∧ n < 2 ^ 29) → ∀ w : Int32,
      ∃ r, intRangeLookup (writeIntRangesCount (numberTable numbers))
          (writeIntRanges (numberTable numbers)) w = some r ∧
        (∀ (i n : ℕ), (numbers.sort (· ≤ ·))[i]? = some n → w.toInt = n → r.toInt = i) ∧
        ((∀ n ∈ numbers, w.toInt ≠ n) → r = -1)) ∧
    ∀ (H : HeapAllocator σ) (S : Schema) (d : DescriptorId) (data : List UInt8),
      (∀ st, ScanReaches H.toAllocator (S.desc d) data st → ∀ tag, ∃ found st',
        lookupField (S.desc d) tag st = .ok (found, st') ∧ ∀ i field,
          found = some (i, field) ↔ (S.desc d).fields[i]? = some field ∧ field.id = tag) ∧
      ∀ s r s', scanLoop H.toAllocator (S.desc d) data.length (ScanState.start (S.desc d) data) s =
        .ok (r, s') → ∀ tmp ∈ r.1.members, ∀ i field,
          tmp.field = some (i, field) ↔ (S.desc d).fields[i]? = some field ∧ field.id = tmp.tag := by
  refine ⟨fun numbers hnumbers w => ?_, fun H S d data => ⟨fun st hst tag => ?_, ?_⟩⟩
  · have hs := numberTable_searchable hnumbers
    obtain ⟨r, hr, hfound, habsent⟩ := intRangeLookup_eq hs w
    have hmem : ∀ {i n : ℕ}, (numbers.sort (· ≤ ·))[i]? = some n → n ∈ numbers := fun hi =>
      (Finset.mem_sort _).mp (List.mem_of_getElem? hi)
    have hint : ∀ n ∈ numbers, (Int32.ofNat n).toInt = n := fun n hn =>
      Int32.toInt_ofNat_of_lt (by have := hnumbers n hn; omega)
    refine ⟨r, hr, fun i n hi hw => ?_, fun hne => habsent fun i hi => ?_⟩
    · have hidx : (numberTable numbers)[i]? = some w := by
        rw [numberTable, List.getElem?_map, hi, Option.map_some, Option.some.injEq]
        apply Int32.toInt_inj.mp
        rw [hint n (hmem hi), hw]
      have hlt := (List.getElem?_eq_some_iff.mp hidx).1
      have hshort := hs.short
      rw [hfound i hidx, Int32.toInt_ofNat_of_lt (by omega)]
    · rw [numberTable, List.getElem?_map] at hi
      obtain ⟨n, hn, rfl⟩ := Option.map_eq_some_iff.mp hi
      exact hne n (hmem hn) (hint n (hmem hn))
  · have hgen := S.generated d
    obtain ⟨st', hlookup, -⟩ := lookupField_eq hgen tag (hst.lastField hgen)
    exact ⟨_, st', hlookup, fun i field => hgen.field?_eq_some⟩
  · intro s r s' hrun tmp htmp i field
    rw [scanLoop_fields H (S.generated d) data hrun tmp htmp]
    exact (S.generated d).field?_eq_some

end Scan

end ProtobufC
