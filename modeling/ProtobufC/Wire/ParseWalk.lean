import ProtobufC.Wire.ScanWalk

/-! # Parsing the scanned members

The second pass of `protobuf_c_message_unpack` against the one-pass decoder.  `MessageTracks` relates
the message under construction to the message decoded so far: the same values up to the addresses of
blocks, and arrays with room for what the remaining records announced.  Each member that is parsed
is one step of the decoder, or fails where the decoder does.
-/

namespace ProtobufC
open Library
set_option autoImplicit false

/-! ## Packed payloads -/

theorem countP_findLastDigit {max i : ℕ} {data : List UInt8} (h : findLastDigit max data = some i) :
    maxB128Numbers (data.take (i + 1)) = 1 := by
  induction max generalizing data i with
  | zero => simp [findLastDigit_zero] at h
  | succ max ih =>
    cases data with
    | nil => simp [findLastDigit_nil] at h
    | cons b bs =>
      rw [findLastDigit_cons] at h
      split_ifs at h with hb
      · simp only [Option.some.injEq] at h
        subst h
        simp [maxB128Numbers, hb]
      · obtain ⟨j, hj, rfl⟩ := Option.map_eq_some_iff.mp h
        have := ih hj
        unfold maxB128Numbers at this ⊢
        rw [List.take_succ_cons, List.countP_cons, this]
        simp [hb]

theorem findLastDigit_of_take {max i k : ℕ} {data : List UInt8}
    (h : findLastDigit max (data.take k) = some i) : findLastDigit max data = some i := by
  rw [← List.take_append_drop k data]
  exact findLastDigit_append_right h _

/-- A number found among the first bytes is one of the whole payload. -/
theorem scanPackedVarint_ne_zero {data : List UInt8} (h : scanPackedVarint data ≠ 0) :
    ∃ i, findLastDigit 10 data = some i ∧ scanPackedVarint data = i + 1 := by
  unfold scanPackedVarint scanVarint at h ⊢
  cases hi : findLastDigit 10 (data.take (data.length % 2 ^ 32)) with
  | none =>
    rw [hi] at h
    exact absurd rfl h
  | some i => exact ⟨i, findLastDigit_of_take hi, rfl⟩

theorem parsePackedVarints_length (parse : List UInt8 → Value) (fuel : ℕ) (rem : List UInt8) :
    (parsePackedVarints parse fuel rem).1.length ≤ maxB128Numbers rem ∧
      ((parsePackedVarints parse fuel rem).2 = true →
        (parsePackedVarints parse fuel rem).1.length = maxB128Numbers rem) := by
  induction fuel generalizing rem with
  | zero =>
    cases rem with
    | nil => simp [parsePackedVarints, maxB128Numbers]
    | cons b bs => simp [parsePackedVarints]
  | succ fuel ih =>
    rw [parsePackedVarints]
    by_cases hnil : rem.isEmpty
    · rw [if_pos hnil]
      rw [List.isEmpty_iff] at hnil
      simp [hnil, maxB128Numbers]
    · rw [if_neg hnil]
      by_cases h0 : scanPackedVarint rem = 0
      · simp [h0]
      · obtain ⟨i, hi, hs⟩ := scanPackedVarint_ne_zero h0
        have hsplit : maxB128Numbers rem = 1 + maxB128Numbers (rem.drop (i + 1)) := by
          have happend : maxB128Numbers (rem.take (i + 1) ++ rem.drop (i + 1)) =
              maxB128Numbers (rem.take (i + 1)) + maxB128Numbers (rem.drop (i + 1)) :=
            List.countP_append
          rwa [List.take_append_drop, countP_findLastDigit hi] at happend
        have hrec := ih (rem.drop (i + 1))
        simp only [h0, if_false, List.length_cons]
        rw [hs, hsplit]
        exact ⟨by omega, fun h => by have := hrec.2 h; omega⟩

theorem parsePackedFixed_length {parse : List UInt8 → Value} {size count : ℕ}
    {data : List UInt8} : (parsePackedFixed parse size count data).length = count := by
  induction count generalizing data with
  | zero => rfl
  | succ count ih => rw [parsePackedFixed, List.length_cons, ih]

theorem parsePackedBooleans_length (rem : List UInt8) :
    (parsePackedBooleans rem).1.length ≤ rem.length ∧
      ((parsePackedBooleans rem).2 = true → (parsePackedBooleans rem).1.length = rem.length) := by
  induction rem with
  | nil => simp [parsePackedBooleans]
  | cons b bs ih =>
    rw [parsePackedBooleans]
    split_ifs
    · simp
    · simp only [List.length_cons]
      exact ⟨by omega, fun h => by have := ih.2 h; omega⟩

theorem parsePackedVarints_forall {parse : List UInt8 → Value} {Q : Value → Prop}
    (h : ∀ d, Q (parse d)) (fuel : ℕ) (rem : List UInt8) :
    ∀ v ∈ (parsePackedVarints parse fuel rem).1, Q v := by
  induction fuel generalizing rem with
  | zero => simp [parsePackedVarints]
  | succ fuel ih =>
    rw [parsePackedVarints]
    split_ifs
    · simp
    by_cases h0 : scanPackedVarint rem = 0
    · simp [h0]
    · simp only [h0, if_false]
      intro v hv
      rcases List.mem_cons.mp hv with rfl | hv
      · exact h _
      · exact ih _ v hv

theorem parsePackedFixed_forall {parse : List UInt8 → Value} {Q : Value → Prop}
    (h : ∀ d, Q (parse d)) {size count : ℕ} {data : List UInt8} :
    ∀ v ∈ parsePackedFixed parse size count data, Q v := by
  induction count generalizing data with
  | zero => simp [parsePackedFixed]
  | succ count ih =>
    intro v hv
    rw [parsePackedFixed] at hv
    rcases List.mem_cons.mp hv with rfl | hv
    · exact h _
    · exact ih v hv

theorem parsePackedBooleans_forall {Q : Value → Prop} (h : ∀ b, Q (.boolean b)) (rem : List UInt8) :
    ∀ v ∈ (parsePackedBooleans rem).1, Q v := by
  induction rem with
  | nil => simp [parsePackedBooleans]
  | cons b bs ih =>
    rw [parsePackedBooleans]
    split_ifs
    · simp
    · intro v hv
      rcases List.mem_cons.mp hv with rfl | hv
      · exact h _
      · exact ih v hv

theorem Value.erase_of_packable {type : FieldType} {v : Value} (hp : isPackableType type = true)
    (hv : Value.HasType type v) : v.erase = v ∧ v.pointer = none := by
  cases type <;> cases v <;> first
    | exact False.elim hv
    | exact absurd hp (by decide)
    | exact ⟨by simp, rfl⟩

theorem decodePacked_of {type : FieldType} {body : List UInt8} {r : List Value × Bool}
    (h : parsePackedElements type body = .ok r) (hunit : body.length % packedUnit type = 0) :
    decodePacked type body = if r.2 then some r.1 else none := by
  obtain ⟨vs, ok⟩ := r
  unfold decodePacked
  rw [h]
  cases ok with
  | false => rfl
  | true => simp [hunit]

/-- A packed payload that can be counted, of any length, yields at most as many elements as were
counted, and exactly as many when all of it is parsed. -/
theorem parsePackedElements_length {type : FieldType} {body : List UInt8} {count : ℕ}
    (hcount : packedCount type body = some count) :
    ∃ vs ok, parsePackedElements type body = .ok (vs, ok) ∧ vs.length ≤ count ∧
      (ok = true → booleansWithoutEnd type body = false → vs.length = count) := by
  unfold packedCount at hcount
  cases type
  case string | bytes | message => exact absurd hcount (by simp)
  case sfixed32 | fixed32 | float | sfixed64 | fixed64 | double =>
    simp only at hcount
    split_ifs at hcount with hmod
    simp only [Option.some.injEq] at hcount
    exact ⟨_, true, rfl, by rw [parsePackedFixed_length, hcount], fun _ _ => by
      rw [parsePackedFixed_length, hcount]⟩
  case bool =>
    simp only [Option.some.injEq] at hcount
    obtain ⟨hle, hall⟩ := parsePackedBooleans_length (body.take (2 ^ 32))
    rw [List.length_take] at hle hall
    refine ⟨_, _, rfl, by omega, fun hok hends => ?_⟩
    -- all of the first bytes are booleans, so that there are no others
    have hshort : ¬ 2 ^ 32 ≤ body.length := fun hlong =>
      absurd (show _ ∧ _ ∧ _ from ⟨rfl, hlong, hok⟩) (of_decide_eq_false hends)
    rw [hall hok]
    omega
  all_goals
    simp only [Option.some.injEq] at hcount
    subst hcount
    have hlen := parsePackedVarints_length
    exact ⟨_, _, rfl, (hlen _ _ _).1, fun hok _ => (hlen _ _ _).2 hok⟩

theorem parsePackedElements_hasType {type : FieldType} {body : List UInt8} {vs : List Value}
    {ok : Bool} (h : parsePackedElements type body = .ok (vs, ok)) :
    ∀ v ∈ vs, Value.HasType type v := by
  unfold parsePackedElements at h
  cases type
  case string | bytes | message => exact absurd h (by simp)
  case sfixed32 | fixed32 | float | sfixed64 | fixed64 | double =>
    simp only [Except.ok.injEq, Prod.mk.injEq] at h
    rw [← h.1]
    exact parsePackedFixed_forall fun _ => trivial
  case bool =>
    have hvs : _ = vs := congrArg Prod.fst (Except.ok.inj h)
    rw [← hvs]
    exact parsePackedBooleans_forall (fun _ => trivial) _
  all_goals
    have hvs : _ = vs := congrArg Prod.fst (Except.ok.inj h)
    rw [← hvs]
    exact parsePackedVarints_forall (fun _ => trivial) _ _

theorem packedCount_unit {type : FieldType} {body : List UInt8} {count : ℕ}
    (hcount : packedCount type body = some count) :
    isPackableType type = true ∧ body.length % packedUnit type = 0 := by
  unfold packedCount at hcount
  cases type
  case string | bytes | message => exact absurd hcount (by simp)
  case sfixed32 | fixed32 | float | sfixed64 | fixed64 | double =>
    simp only at hcount
    split_ifs at hcount with hmod
    exact ⟨rfl, not_not.mp hmod⟩
  all_goals exact ⟨rfl, Nat.mod_one _⟩

theorem booleansWithoutEnd_of_lt {type : FieldType} {body : List UInt8}
    (hbody : body.length < 2 ^ 32) : booleansWithoutEnd type body = false := by
  unfold booleansWithoutEnd
  rw [decide_eq_false_iff_not]
  rintro ⟨-, hlong, -⟩
  omega

/-- A packed payload that can be counted is decoded when all of it is parsed. -/
theorem parsePackedElements_spec {type : FieldType} {body : List UInt8} {count : ℕ}
    (hbody : body.length < 2 ^ 32) (hcount : packedCount type body = some count) :
    isPackableType type = true ∧ ∃ vs ok, parsePackedElements type body = .ok (vs, ok) ∧
      vs.length ≤ count ∧ (ok = true → vs.length = count) ∧
      decodePacked type body = (if ok then some vs else none) ∧
      ∀ v ∈ vs, Value.HasType type v := by
  obtain ⟨hpack, hunit⟩ := packedCount_unit hcount
  obtain ⟨vs, ok, hparse, hle, heq⟩ := parsePackedElements_length hcount
  exact ⟨hpack, vs, ok, hparse, hle, fun hok => heq hok (booleansWithoutEnd_of_lt hbody),
    decodePacked_of hparse hunit, parsePackedElements_hasType hparse⟩

theorem decodePacked_none {type : FieldType} {body : List UInt8}
    (hcount : packedCount type body = none) : decodePacked type body = none := by
  unfold packedCount at hcount
  unfold decodePacked
  cases type <;> simp_all [parsePackedElements, packedUnit]

/-! ## One value -/

theorem parseScalar_spec {type : FieldType} {wire : WireType} {data : List UInt8} {v : Value}
    (h : parseScalar type wire data = some v) :
    isPackableType type = true ∧ Value.HasType type v := by
  cases type <;> simp only [parseScalar, Option.ite_none_left_eq_some, Option.some.injEq] at h
  case string | bytes | message => exact absurd h (by simp)
  case bool => exact ⟨rfl, h ▸ trivial⟩
  all_goals exact ⟨rfl, h.2 ▸ trivial⟩

/-! ## Filled arrays -/

/-- The array holds as many elements as it was allocated for. -/
def CArray.Full {α : Type} (a : CArray α) : Prop := a.n = a.cap ∧ a.elems.length = a.cap

def Slot.Full : Slot → Prop
  | .singular _ _ => True
  | .repeated a => a.Full

/-- Every array of the message, and of every message that it owns, is full. -/
inductive Message.Filled : Message → Prop
  | intro (m : Message) (slots : ∀ sl ∈ m.slots, sl.Full) (unknown : m.unknown.Full)
      (children : ∀ c ∈ m.ownedChildren, Message.Filled c) : Message.Filled m

/-- A message that an unpack has finished. -/
structure Message.Complete (S : Schema) (m : Message) : Prop where
  owned : m.Owned S
  filled : m.Filled

variable {σ : Type} {H : HeapAllocator σ} {S : Schema} {P : Prop} {s : σ} {L : Multiset ℕ}

/-- What `protobuf_c_message_unpack` returns on an input that decodes to `o`: a message in blocks of
its own, or NULL and no block more than before. -/
def Unpacked (H : HeapAllocator σ) (S : Schema) (P : Prop) (o : Option Message) (s : σ) :
    MessagePtr → σ → Prop
  | .null, s' => H.live s' = H.live s ∧ (AllocFailed H s s' ∨ o = none ∨ ¬ P)
  | .ref a m, s' => ∃ b, a = .block b ∧ H.live s' = {b} + m.blocks + H.live s ∧
      H.failures s' = H.failures s ∧ o = some m.erase ∧ m.Complete S

/-- What `parse_required_member` leaves behind when it parses a record over the value `v`. -/
structure Parsed (H : HeapAllocator σ) (S : Schema) (P : Prop) (field : FieldDescriptor) (r : Record)
    (v : Value) (L : Multiset ℕ) (s : σ) (w : Option Value × Bool) (s' : σ) : Prop where
  held : (w.1.getD v).Held field.type field.defaultPointer
  children : ∀ c ∈ (w.1.getD v).ownedChildren, c.Complete S
  live : H.live s' = (w.1.getD v).blocks + L
  ok : w.2 = true → H.failures s' = H.failures s ∧ ∃ new, w.1 = some new ∧
    decodeValue (decode S) field r = some new.erase ∧ new ≠ .message .null ∧
      new.Held field.type none
  fail : w.2 = false → (w.1 = none ∨ (w.1.getD v).blocks = 0) ∧
    (AllocFailed H s s' ∨ decodeValue (decode S) field r = none ∨ ¬ P)

section Member
variable {desc : MessageDescriptor} {r : Record} {tmp : ScannedMember} {field : FieldDescriptor}
  {v : Value} {maybeClear : Bool} {sub : DescriptorId → List UInt8 → Run σ MessagePtr}

theorem Value.Held.mono {type : FieldType} {v : Value} (h : v.Held type none) (p : Option Addr) :
    v.Held type p :=
  ⟨h.1, fun a ha => .inr ((h.2 a ha).resolve_left (by simp))⟩

/-- The old pointer is released, unless it is NULL or the default value. -/
theorem meets_clearPointer {ub : Fault → Prop} (hg : field.Generated) {p : Option Addr}
    (hp : ∀ a, p = some a → some a = field.defaultPointer ∨ ∃ b, a = .block b)
    (hclear : maybeClear = false → blockOf p = 0) (hlive : H.live s = blockOf p + L) :
    Meets ub (clearPointer H.toAllocator field p maybeClear) s fun _ s' =>
      H.live s' = L ∧ H.failures s' = H.failures s := by
  unfold clearPointer
  rw [meets_ite]
  constructor
  · rintro ⟨-, -, hne⟩
    refine meets_freePtr H ?_ hlive
    rintro k rfl
    rcases hp _ rfl with hd | ⟨b, hb⟩
    · exact hne hd
    · exact absurd hb (by simp)
  · intro hguard
    have hzero : blockOf p = 0 := by
      by_cases hc : maybeClear = false
      · exact hclear hc
      · by_cases hnone : p = none
        · rw [hnone, blockOf_none]
        · have hdefault : p = field.defaultPointer := by
            by_contra hne
            exact hguard ⟨by simpa using hc, hnone, hne⟩
          obtain ⟨a, rfl⟩ := Option.ne_none_iff_exists'.mp hnone
          obtain ⟨k, rfl⟩ := hg.defaultPointer_static hdefault.symm
          rfl
    rw [hzero, Multiset.zero_add] at hlive
    exact ⟨hlive, rfl⟩

/-- The old message is released, unless it is NULL or the default value. -/
theorem meets_clearMessage (hg : field.Generated) {p : MessagePtr}
    (hp : (Value.message p).Held .message field.defaultPointer)
    (hown : ∀ c ∈ (Value.message p).ownedChildren, c.Complete S)
    (hclear : maybeClear = false → p.blocks = 0) (hlive : H.live s = p.blocks + L) :
    Meets NoFault (clearMessage H.toAllocator S field p maybeClear) s fun _ s' =>
      H.live s' = L ∧ H.failures s' = H.failures s := by
  have hsame : p.blocks = 0 → H.live s = L := fun h => by rw [hlive, h, Multiset.zero_add]
  unfold clearMessage
  rw [meets_ite]
  constructor
  · rintro ⟨-, hne, hdefault⟩
    cases p with
    | null => exact absurd rfl hne
    | ref a m =>
      rcases hp.2 a rfl with hd | ⟨b, rfl⟩
      · exact absurd hd hdefault
      · rw [MessagePtr.blocks_block] at hlive
        exact frees_messageFreeUnpacked (hown m (by simp [Value.ownedChildren])).owned b s L hlive
  · intro hguard
    refine ⟨hsame ?_, rfl⟩
    by_cases hc : maybeClear = false
    · exact hclear hc
    · rw [← Value.blocks_message]
      refine Value.blocks_eq_zero fun a ha => ?_
      by_cases hd : (Value.message p).pointer = field.defaultPointer
      · exact hg.defaultPointer_static (hd ▸ ha)
      · exact absurd ⟨by simpa using hc, by simp [ha], hd⟩ hguard

theorem Scans.unsignedSub_eq (hs : Scans desc r tmp) :
    unsignedSub tmp.len tmp.lengthPrefixLen = r.body.length := by
  have hle : tmp.lengthPrefixLen ≤ tmp.len := by
    rw [hs.prefixLen, hs.len]
    exact hs.prefixLen_le
  rw [unsignedSub_of_le hle hs.len_lt, hs.readBody.2]

theorem Scans.readBody_eq (hs : Scans desc r tmp) :
    readBytes r.body.length (tmp.data.drop tmp.lengthPrefixLen) = .ok r.body := by
  rw [← hs.readBody.2]
  exact hs.readBody.1

theorem Scans.body_lt (hs : Scans desc r tmp) (hw : r.wireType = .lengthPrefixed) :
    r.body.length + 1 < 2 ^ 32 := by
  have hlt := hs.len_lt
  have hlen := hs.len
  have hle := hs.prefixLen_le
  have hpos : 0 < r.prefixLen := by
    have hwf := hs.wellFormed
    unfold Record.WellFormed payloadLength at hwf
    unfold Record.prefixLen
    rw [hw] at hwf ⊢
    simp only at hwf ⊢
    cases hi : findLastDigit 5 r.payload with
    | none => simp [hi] at hwf
    | some i => simp
  rw [Record.body, List.length_drop]
  omega

theorem meets_parseString (hg : field.Generated) (hs : Scans desc r tmp)
    (htype : field.type = .string) (hw : r.wireType = .lengthPrefixed)
    (hv : v.Held field.type field.defaultPointer) (hclear : maybeClear = false → v.blocks = 0)
    (hlive : H.live s = v.blocks + L) :
    Meets (Excused P) (parseString H.toAllocator tmp field v maybeClear) s
      (Parsed H S P field r v L s) := by
  obtain ⟨hvt, hptr⟩ := hv
  rw [htype] at hvt
  match v, hvt with
  | .string p, _ =>
  have hp : p.map Ptr.addr = (Value.string p).pointer := by cases p <;> rfl
  rw [Value.blocks_string, hp] at hlive
  unfold parseString
  simp only [Value.loadString, require_ok, pure_bind, hs.unsignedSub_eq]
  refine (meets_clearPointer hg (p := p.map Ptr.addr) (hp ▸ hptr)
    (fun h => by simpa using hclear h) (hp ▸ hlive)).bind ?_
  rintro - s₁ ⟨hlive₁, hfail₁⟩
  rw [Nat.mod_eq_of_lt (hs.body_lt hw)]
  refine (meets_doAlloc H _).bind ?_
  rintro (_ | _ | a) s₂ h
  · -- out of memory: the member is NULL
    obtain ⟨hlive₂, hfail₂⟩ := h
    exact ⟨⟨by rw [htype]; trivial, by simp [Value.pointer]⟩, by simp [Value.ownedChildren],
      by simpa [hlive₁] using hlive₂, by simp, fun _ => ⟨.inr (by simp), .inl (hfail₂.of_eq hfail₁)⟩⟩
  · exact absurd (h.2.2.1.mp rfl) (by omega)
  · obtain ⟨hlive₂, hfail₂, -, hblock⟩ := h
    obtain ⟨b, rfl⟩ := hblock a rfl
    simp only [hs.readBody_eq, require_ok, pure_bind, meets_pure]
    have hheld : (Value.string (some ⟨.block b, r.body ++ [0]⟩)).Held field.type none :=
      ⟨by rw [htype]; trivial, by simp [Value.pointer]⟩
    refine ⟨hheld.mono _, by simp [Value.ownedChildren], by simpa [hlive₁] using hlive₂,
      fun _ => ⟨hfail₂.trans hfail₁, _, rfl, ?_, by simp, hheld⟩, by simp⟩
    simp [decodeValue, htype, hw, Ptr.erase]

theorem meets_parseBytes (hg : field.Generated) (hs : Scans desc r tmp)
    (htype : field.type = .bytes) (hw : r.wireType = .lengthPrefixed)
    (hv : v.Held field.type field.defaultPointer) (hclear : maybeClear = false → v.blocks = 0)
    (hlive : H.live s = v.blocks + L) :
    Meets (Excused P) (parseBytes H.toAllocator tmp field v maybeClear) s
      (Parsed H S P field r v L s) := by
  obtain ⟨hvt, hptr⟩ := hv
  rw [htype] at hvt
  match v, hvt with
  | .bytes len p, _ =>
  have hp : p.map Ptr.addr = (Value.bytes len p).pointer := by cases p <;> rfl
  rw [Value.blocks_bytes, hp] at hlive
  unfold parseBytes
  simp only [Value.loadBytes, require_ok, pure_bind, hs.unsignedSub_eq]
  refine (meets_clearPointer hg (p := p.map Ptr.addr) (hp ▸ hptr)
    (fun h => by simpa using hclear h) (hp ▸ hlive)).bind ?_
  rintro - s₁ ⟨hlive₁, hfail₁⟩
  refine (meets_doAlloc H _).bind ?_
  rintro (_ | dst) s₂ h
  · -- out of memory: the data pointer is NULL
    obtain ⟨hlive₂, hfail₂⟩ := h
    exact ⟨⟨by rw [htype]; trivial, by simp [Value.pointer]⟩, by simp [Value.ownedChildren],
      by simpa [hlive₁] using hlive₂, by simp, fun _ => ⟨.inr (by simp), .inl (hfail₂.of_eq hfail₁)⟩⟩
  · obtain ⟨hlive₂, hfail₂, hnull, hblock⟩ := h
    simp only [hs.readBody_eq, require_ok, pure_bind, meets_pure]
    cases dst with
    | none =>
      have hnil : r.body = [] := List.length_eq_zero_iff.mp (hnull.mp rfl)
      have hheld : (Value.bytes r.body.length none).Held field.type none :=
        ⟨by rw [htype]; trivial, by simp [Value.pointer]⟩
      refine ⟨hheld.mono _, by simp [Value.ownedChildren], by simpa [hlive₁] using hlive₂,
        fun _ => ⟨hfail₂.trans hfail₁, _, rfl, ?_, by simp, hheld⟩, by simp⟩
      simp [decodeValue, htype, hw, hnil]
    | some a =>
      obtain ⟨b, rfl⟩ := hblock a rfl
      have hne : r.body ≠ [] := fun hnil => by simpa using hnull.mpr (by rw [hnil]; rfl)
      have hheld : (Value.bytes r.body.length (some ⟨.block b, r.body⟩)).Held field.type none :=
        ⟨by rw [htype]; trivial, by simp [Value.pointer]⟩
      refine ⟨hheld.mono _, by simp [Value.ownedChildren], by simpa [hlive₁] using hlive₂,
        fun _ => ⟨hfail₂.trans hfail₁, _, rfl, ?_, by simp, hheld⟩, by simp⟩
      simp [decodeValue, htype, hw, hne, Ptr.erase]

theorem meets_parseMessage (hg : field.Generated) (hs : Scans desc r tmp)
    (htype : field.type = .message) (hw : r.wireType = .lengthPrefixed)
    (hv : v.Held field.type field.defaultPointer) (hown : ∀ c ∈ v.ownedChildren, c.Complete S)
    (hclear : maybeClear = false → v.blocks = 0) (hlive : H.live s = v.blocks + L)
    (hsub : ∀ s, Meets (Excused P) (sub field.descriptor r.body) s
      (Unpacked H S P (decode S field.descriptor r.body) s)) :
    Meets (Excused P) (parseMessage H.toAllocator S sub tmp field v maybeClear) s
      (Parsed H S P field r v L s) := by
  rw [htype] at hv
  match v, hv.1 with
  | .message p, _ =>
  rw [Value.blocks_message] at hlive
  unfold parseMessage
  simp only [Value.loadMessage, require_ok, pure_bind, hs.unsignedSub_eq, hs.readBody_eq]
  refine ((meets_clearMessage hg hv hown (fun h => by simpa using hclear h) hlive).mono
    (fun _ => False.elim) fun _ _ h => h).bind ?_
  rintro - s₁ ⟨hlive₁, hfail₁⟩
  refine (hsub s₁).bind ?_
  rintro (_ | ⟨a, m⟩) s₂ h
  · obtain ⟨hlive₂, hwhy⟩ := h
    refine ⟨⟨by rw [htype]; trivial, by simp [Value.pointer]⟩, by simp [Value.ownedChildren],
      by simpa [hlive₁] using hlive₂, by simp [Value.pointer], fun _ => ⟨.inr (by simp), ?_⟩⟩
    rcases hwhy with hwhy | hwhy | hwhy
    · exact .inl (hwhy.of_eq hfail₁)
    · exact .inr (.inl (by simp [decodeValue, htype, hw, hwhy]))
    · exact .inr (.inr hwhy)
  · obtain ⟨b, rfl, hlive₂, hfail₂, hdec, hm⟩ := h
    have hheld : (Value.message (.ref (.block b) m)).Held field.type none :=
      ⟨by rw [htype]; trivial, by simp [Value.pointer]⟩
    refine ⟨hheld.mono _, ?_, by simpa [hlive₁] using hlive₂,
      fun _ => ⟨hfail₂.trans hfail₁, _, rfl, ?_, by simp, hheld⟩, by simp [Value.pointer]⟩
    · intro c hc
      simp only [Option.getD_some, Value.ownedChildren, List.mem_singleton] at hc
      exact hc ▸ hm
    · simp [decodeValue, htype, hw, hdec]

/-- `parse_required_member` parses a value as the decoder does, or fails. -/
theorem meets_parseRequiredMember (hg : field.Generated) (hs : Scans desc r tmp)
    (hv : v.Held field.type field.defaultPointer) (hown : ∀ c ∈ v.ownedChildren, c.Complete S)
    (hclear : maybeClear = false → v.blocks = 0) (hlive : H.live s = v.blocks + L)
    (hsub : field.type = .message → r.wireType = .lengthPrefixed → ∀ s,
      Meets (Excused P) (sub field.descriptor r.body) s
        (Unpacked H S P (decode S field.descriptor r.body) s)) :
    Meets (Excused P) (parseRequiredMember H.toAllocator S sub tmp field v maybeClear) s
      (Parsed H S P field r v L s) := by
  have hwrong : ∀ wire : decodeValue (decode S) field r = none,
      Parsed H S P field r v L s (none, false) s := fun wire =>
    ⟨hv, hown, hlive, by simp, fun _ => ⟨.inl rfl, .inr (.inl wire)⟩⟩
  have hread : readBytes tmp.len tmp.data = .ok r.payload := by
    rw [readBytes, if_pos hs.len_le, hs.data]
  have hscalar : ∀ type, field.type = type → isPackableType type = true →
      decodeValue (decode S) field r = parseScalar type r.wireType r.payload →
      Parsed H S P field r v L s (parseScalar type tmp.wireType r.payload,
        (parseScalar type tmp.wireType r.payload).isSome) s := by
    intro type htype hpack hdec
    rw [hs.wireType]
    cases hp : parseScalar type r.wireType r.payload with
    | none => exact hwrong (hdec.trans hp)
    | some new =>
      subst htype
      have htype := (parseScalar_spec hp).2
      obtain ⟨herase, hptr⟩ := Value.erase_of_packable hpack htype
      have hzero : v.blocks = 0 := Value.blocks_of_packable hpack hv.1
      have hzero' : new.blocks = 0 := Value.blocks_of_packable hpack htype
      have hheld : new.Held field.type none := ⟨htype, by simp [hptr]⟩
      refine ⟨hheld.mono _, ?_, by rw [hlive, hzero, Option.getD_some, hzero'],
        fun _ => ⟨rfl, new, rfl, by rw [herase, hdec, hp], ?_, hheld⟩, by simp⟩
      · rw [Option.getD_some, Value.ownedChildren_eq_nil (by simp [hptr])]
        simp
      · rintro rfl
        generalize field.type = type at hpack htype
        cases type <;> first
          | exact False.elim htype
          | exact absurd hpack (by decide)
  unfold parseRequiredMember
  split
  case h_1 htype =>
    rw [meets_ite, hs.wireType]
    exact ⟨fun hw => hwrong (by simp [decodeValue, htype, hw]), fun hw =>
      meets_parseString hg hs htype (not_not.mp hw) hv hclear hlive⟩
  case h_2 htype =>
    rw [meets_ite, hs.wireType]
    exact ⟨fun hw => hwrong (by simp [decodeValue, htype, hw]), fun hw =>
      meets_parseBytes hg hs htype (not_not.mp hw) hv hclear hlive⟩
  case h_3 htype =>
    rw [meets_ite, hs.wireType]
    exact ⟨fun hw => hwrong (by simp [decodeValue, htype, hw]), fun hw =>
      meets_parseMessage hg hs htype (not_not.mp hw) hv hown hclear hlive
        (hsub htype (not_not.mp hw))⟩
  case h_4 hstring hbytes hmessage =>
    simp only [hread, require_ok, pure_bind, meets_pure]
    refine hscalar _ rfl ?_ ?_
    · generalize field.type = type at hstring hbytes hmessage
      cases type <;> simp_all [isPackableType]
    · unfold decodeValue
      split <;> simp_all

end Member

end ProtobufC
