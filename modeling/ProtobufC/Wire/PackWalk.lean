import ProtobufC.Runtime.Pack
import ProtobufC.Wire.SizeWalk

/-! # `protobuf_c_message_pack` writes the encoding

Started on an array with room for the encoding, and on none smaller, `protobuf_c_message_pack`
returns; it has written the encoding and nothing else.
-/

namespace ProtobufC
open Library
set_option autoImplicit false

variable {S : Schema} {sub : Message → ℕ → Pack ℕ} {field : FieldDescriptor}

/-- What the walk assumes of its calls on sub-messages. -/
def PacksChildren (S : Schema) (sub : Message → ℕ → Pack ℕ) (cs : List Message) : Prop :=
  ∀ c ∈ cs, (c.encode S).length < 2 ^ 32 → ∀ out, Emits (sub c out) out (c.encode S)

/-! ## Tags -/

theorem orByte_splice (buf : List UInt8) {bs : List UInt8} (out : ℕ) (code : UInt8) (hne : bs ≠ [])
    (h : out + bs.length ≤ buf.length) :
    orByte out code (splice buf out bs) = .ok ((), splice buf out (orFirst bs code)) := by
  obtain ⟨b, bs, rfl⟩ := List.exists_cons_of_ne_nil hne
  rw [List.length_cons] at h
  have hread : readAt out 1 (splice buf out (b :: bs)) = .ok ([b], splice buf out (b :: bs)) := by
    unfold readAt
    rw [length_splice (by simpa using h), if_pos (by omega)]
    congr 2
    apply List.ext_getElem?
    intro i
    rw [List.getElem?_take, List.getElem?_drop, getElem?_splice (by simpa using h)]
    cases i with
    | zero => simp
    | succ i => simp
  have hlen : out + (orFirst [b] code).length ≤ (splice buf out (b :: bs)).length := by
    rw [length_splice (by simpa using h), length_orFirst, List.length_singleton]
    omega
  have hover := splice_overwrite buf [b] (orFirst [b] code) bs out rfl (by simpa using h)
  unfold orByte
  rw [run_bind hread, writeAt, if_pos hlen]
  congr 2

theorem tagPack_ne_nil (id : UInt32) : tagPack id ≠ [] := by
  rw [tagPack_eq]
  exact base128_ne_nil _

theorem emits_tagged {id : UInt32} {code : UInt8} {out : ℕ} {bs : List UInt8} {f : ℕ → Pack ℕ}
    (hf : Emits (f (tagPack id).length) (out + (tagPack id).length) bs) :
    Emits (do
        let rv ← put out (tagPack id)
        orByte out code
        let n ← f rv
        return rv + n) out (orFirst (tagPack id) code ++ bs) := by
  intro buf h
  have hl := length_orFirst (tagPack id) code
  rw [List.length_append, hl] at h
  have hput := emits_put out (tagPack id) buf (by omega)
  have hor := orByte_splice buf out code (tagPack_ne_nil id) (by omega)
  have hrun := hf (splice buf out (orFirst (tagPack id) code))
    (by rw [length_splice (by omega)]; omega)
  rw [run_bind hput, run_bind hor, run_bind hrun, ← hl,
    splice_splice (by rw [List.length_append]; omega), List.length_append]
  rfl

/-! ## Length-prefixed members -/

theorem emits_stringPack (p : Option (Ptr (List UInt8))) (out : ℕ) :
    Emits (stringPack p out) out (prefixed ((Value.string p).body (Message.encode S))) := by
  cases p with
  | none => exact emits_put out [0]
  | some p =>
    have := (emits_put out (uint32Pack (UInt32.ofNat (cString p.val).length))).bind
      (f := fun rv => put (out + rv) (cString p.val)) (emits_put _ _)
    simpa [stringPack, put, bind_assoc, prefixed, Value.body] using this

theorem loadData_eq {len : ℕ} {data : Option (Ptr (List UInt8))}
    (h : len ≤ (data.elim [] Ptr.val).length) :
    loadData len data = .ok ((data.elim [] Ptr.val).take len) := by
  cases data with
  | none =>
    have : len = 0 := by simpa using h
    simp [loadData, this]
  | some p =>
    have : len ≤ p.val.length := h
    simp [loadData, this]

theorem body_bytes (len : ℕ) (data : Option (Ptr (List UInt8))) (sub : Message → List UInt8) :
    (Value.bytes len data).body sub = (data.elim [] Ptr.val).take len := by
  cases data <;> simp [Value.body]

theorem emits_binaryDataPack {len : ℕ} {data : Option (Ptr (List UInt8))}
    (hr : (Value.bytes len data).Readable) (out : ℕ) :
    Emits (binaryDataPack len data out) out
      (prefixed ((Value.bytes len data).body (Message.encode S))) := by
  have hload := loadData_eq hr
  have hlen : ((data.elim [] Ptr.val).take len).length = len := by
    rw [List.length_take]
    exact Nat.min_eq_left hr
  rw [body_bytes]
  generalize (data.elim [] Ptr.val).take len = body at hload hlen
  subst hlen
  have := (emits_put out (uint32Pack (UInt32.ofNat body.length))).bind
    (f := fun rv => put (out + rv) body) (emits_put _ _)
  simpa [binaryDataPack, hload, put, bind_assoc, prefixed] using this

/-- The sub-message is written one byte behind its place and moved when its length prefix takes more
than one byte. -/
theorem emits_prefixedMessagePack {p : MessagePtr}
    (hsub : PacksChildren S sub (Value.message p).children)
    (hlt : ((Value.message p).body (Message.encode S)).length < 2 ^ 32) (out : ℕ) :
    Emits (prefixedMessagePack sub p out) out
      (prefixed ((Value.message p).body (Message.encode S))) := by
  cases p with
  | null => exact emits_put out [0]
  | ref a m =>
    intro buf h
    rw [show (Value.message (.ref a m)).body (Message.encode S) = m.encode S from rfl] at h ⊢
    have hm := hsub m (by simp [Value.children]) hlt (out + 1)
    generalize m.encode S = body at h hm ⊢
    set header := uint32Pack (UInt32.ofNat body.length) with hheader
    have hsize : uint32Size (UInt32.ofNat body.length) = header.length :=
      (length_uint32Pack _).symm
    have hpos : 1 ≤ header.length := by
      rw [hheader, uint32Pack_eq]
      exact length_base128_pos _
    have hroom : out + (header ++ body).length ≤ buf.length := h
    have hroom' := hroom
    rw [List.length_append] at hroom'
    have hfirst := hm buf (by omega)
    simp only [prefixedMessagePack]
    rw [run_bind hfirst]
    simp only [hsize, ← hheader]
    by_cases h1 : header.length = 1
    · have hput := emits_put out header (splice buf (out + 1) body)
        (by rw [length_splice (by omega)]; omega)
      have hhead := splice_header buf header body out hroom
      rw [h1] at hhead
      rw [if_neg (not_not.mpr h1), run_bind hput, hhead, ← List.length_append]
      rfl
    · have hmove := memmove_splice buf body (out + header.length) (out + 1) (by omega) (by omega)
      have hput := emits_put out header
        (splice (splice buf (out + 1) body) (out + header.length) body)
        (by rw [length_splice (by rw [length_splice (by omega)]; omega), length_splice (by omega)]
            omega)
      rw [if_pos h1, run_bind hmove, run_bind hput, splice_moved _ _ _ _ _ (by omega) (by omega)
        hroom, ← List.length_append]
      rfl

/-! ## Fields -/

theorem length_body_lt {p : MessagePtr} {enc : Message → List UInt8} {n : ℕ}
    (hlt : (Value.record enc field (.message p)).bytes.length < n)
    (ht : field.type = .message) : (Value.body enc (.message p)).length < n := by
  rw [length_bytes] at hlt
  simp only [Value.record, Value.payload, ht, isPackableType, bne_self_eq_false, Bool.and_false,
    Bool.false_eq_true, if_false, length_prefixed] at hlt
  omega

theorem emits_requiredFieldPack {v : Value} (hv : Value.HasType field.type v)
    (hr : v.Readable) (hsub : PacksChildren S sub v.children)
    (hlt : (v.record (Message.encode S) field).bytes.length < 2 ^ 32) (out : ℕ) :
    Emits (requiredFieldPack sub field v out) out
      (v.record (Message.encode S) field).bytes := by
  have hbody : ∀ p, field.type = .message → v = .message p →
      (Value.body (Message.encode S) (.message p)).length < 2 ^ 32 := by
    rintro p ht rfl
    exact length_body_lt hlt ht
  unfold requiredFieldPack Value.record Value.payload Record.bytes
  generalize field.type = type at hv hbody ⊢
  cases type <;> cases v <;> try exact False.elim hv
  all_goals
    simp only [Value.loadWord32, Value.loadWord64, Value.loadBoolean, Value.loadString,
      Value.loadBytes, Value.loadMessage, require_ok, pure_bind]
    refine emits_tagged ?_
  case string.string p => exact emits_stringPack p _
  case bytes.bytes len p => exact emits_binaryDataPack hr _
  case message.message p => exact emits_prefixedMessagePack hsub (hbody p rfl rfl) _
  all_goals exact emits_put _ _

theorem emits_packLoop {pack : Value → Except Fault (List UInt8)} {g : Value → List UInt8}
    {vs : List Value} (h : ∀ v ∈ vs, pack v = .ok (g v)) (at_ : ℕ) {buf : List UInt8}
    (hroom : at_ + (vs.flatMap g).length ≤ buf.length) :
    packLoop pack vs at_ buf =
      .ok (at_ + (vs.flatMap g).length, splice buf at_ (vs.flatMap g)) := by
  induction vs generalizing at_ buf with
  | nil =>
    simp only [List.flatMap_nil, splice_nil]
    rfl
  | cons v vs ih =>
    rw [List.flatMap_cons, List.length_append] at hroom
    have hput := emits_put at_ (g v) buf (by omega)
    rw [packLoop, h v (by simp), require_ok, pure_bind, run_bind hput,
      ih (fun w hw => h w (by simp [hw])) _ (by rw [length_splice (by omega)]; omega),
      splice_splice (by rw [List.length_append]; omega), List.flatMap_cons, List.length_append,
      Nat.add_assoc]

theorem packPayload_eq {type : FieldType} (hp : isPackableType type = true) {vs : List Value}
    (hvs : ∀ v ∈ vs, Value.HasType type v) (at_ : ℕ) (buf : List UInt8)
    (hroom : at_ + (vs.flatMap (scalarBytes type)).length ≤ buf.length) :
    packPayload type vs at_ buf = .ok (at_ + (vs.flatMap (scalarBytes type)).length,
      splice buf at_ (vs.flatMap (scalarBytes type))) := by
  unfold packPayload
  cases type
  case string | bytes | message => exact absurd hp (by decide)
  all_goals
    refine emits_packLoop (fun v hv => ?_) at_ hroom
    have ht := hvs v hv
    cases v <;> first | exact False.elim ht | rfl

/-! ## The guessed length prefix -/

/-- `get_type_min_size` times the count is a lower bound of the payload, and the payload is at most
ten times as long. -/
theorem minLength_le {type : FieldType} (hp : isPackableType type = true) {vs : List Value}
    (hvs : ∀ v ∈ vs, Value.HasType type v) :
    getTypeMinSize type * vs.length ≤ (vs.flatMap (scalarBytes type)).length ∧
      (vs.flatMap (scalarBytes type)).length ≤ 10 * (getTypeMinSize type * vs.length) := by
  have hone : ∀ v, Value.HasType type v → getTypeMinSize type ≤ (scalarBytes type v).length ∧
      (scalarBytes type v).length ≤ 10 * getTypeMinSize type := by
    intro v hv
    have hlen := length_scalarBytes hp hv
    cases type <;> cases v <;> first
      | exact False.elim hv
      | exact absurd hp (by decide)
      | exact ⟨hlen.1, hlen.2⟩
      | simp [getTypeMinSize, scalarBytes]
  induction vs with
  | nil => simp
  | cons v vs ih =>
    have hv := hone v (hvs v (by simp))
    have hrest := ih fun w hw => hvs w (by simp [hw])
    rw [List.flatMap_cons, List.length_append, List.length_cons, Nat.mul_succ]
    omega

theorem uint32Size_guess {m n : ℕ} (hpos : 1 ≤ m) (hle : m ≤ n) (hten : n ≤ 10 * m)
    (hn : n < 2 ^ 32) :
    uint32Size (UInt32.ofNat n) = uint32Size (UInt32.ofNat m) ∨
      uint32Size (UInt32.ofNat n) = uint32Size (UInt32.ofNat m) + 1 := by
  rw [uint32Size_eq, uint32Size_eq, uint32_toNat_ofNat hn, uint32_toNat_ofNat (by omega)]
  have hlow := length_base128_mono hle
  have hhigh := length_base128_mono (show n ≤ m * 128 by omega)
  rw [base128_of_ge (n := m * 128) (by omega), Nat.mul_div_cancel m (by norm_num),
    List.length_cons] at hhigh
  omega

theorem emits_packedField {a : CArray Value} (hg : field.Generated) (hp : field.packed = true)
    (ha : SlotPackable field (.repeated a)) (h0 : a.n ≠ 0) (out : ℕ)
    (hlt : (a.elems.flatMap (scalarBytes field.type)).length < 2 ^ 32) :
    Emits (repeatedFieldPack sub field a.n a out) out (packedRecord field a.elems).bytes := by
  obtain ⟨-, hn, hvs⟩ := ha
  have hpackable := (hg.packed hp).2
  have hvs' : ∀ v ∈ a.elems, Value.HasType field.type v := fun v hv => (hvs v hv).1
  have hmin := minLength_le hpackable hvs'
  rw [← hn] at hmin
  have hminpos : 1 ≤ getTypeMinSize field.type * a.n := by
    have : 1 ≤ getTypeMinSize field.type := by
      unfold getTypeMinSize
      split_ifs <;> norm_num
    exact Nat.mul_pos this (Nat.pos_of_ne_zero h0)
  have hguess := uint32Size_guess hminpos hmin.1 hmin.2 hlt
  have hpayload := fun at_ (buf : List UInt8) => packPayload_eq hpackable hvs' at_ buf
  unfold repeatedFieldPack packedRecord Record.bytes prefixed
  intro buf h
  simp only [hp, if_true, h0, if_false, CArray.load_self hn, require_ok, pure_bind]
  generalize a.elems.flatMap (scalarBytes field.type) = body at *
  set tag := tagPack field.id with htag
  set header := uint32Pack (UInt32.ofNat body.length) with hheader
  have hmod : getTypeMinSize field.type * a.n % 2 ^ 32 = getTypeMinSize field.type * a.n :=
    Nat.mod_eq_of_lt (by omega)
  have hsize : uint32Size (UInt32.ofNat body.length) = header.length := (length_uint32Pack _).symm
  rw [hmod]
  generalize uint32Size (UInt32.ofNat (getTypeMinSize field.type * a.n)) = guess at hguess ⊢
  rw [hsize] at hguess
  have hl := length_orFirst tag WireType.lengthPrefixed.code
  simp only [List.length_append, hl] at h
  -- the tag
  have hput := emits_put out tag buf (by omega)
  have hor := orByte_splice buf out WireType.lengthPrefixed.code
    (show tag ≠ [] from tagPack_ne_nil field.id) (by omega)
  rw [run_bind hput, run_bind hor]
  have hlen₁ : (splice buf out (orFirst tag WireType.lengthPrefixed.code)).length = buf.length :=
    length_splice (by omega)
  have hfinal : splice (splice buf out (orFirst tag WireType.lengthPrefixed.code))
      (out + (orFirst tag WireType.lengthPrefixed.code).length) (header ++ body) = splice buf out
        (orFirst tag WireType.lengthPrefixed.code ++ (header ++ body)) :=
    splice_splice (by simp only [List.length_append]; omega)
  rw [hl] at hfinal
  generalize splice buf out (orFirst tag WireType.lengthPrefixed.code) = buf₁ at hlen₁ hfinal ⊢
  -- the payload behind the guessed prefix
  have hrun := hpayload (out + (tag.length + guess)) buf₁ (by omega)
  have hlen₂ : (splice buf₁ (out + (tag.length + guess)) body).length = buf.length := by
    rw [length_splice (by omega), hlen₁]
  have hback : (out + (tag.length + guess) + body.length - (out + (tag.length + guess))) % 2 ^ 32 =
      body.length := by
    rw [Nat.add_sub_cancel_left, Nat.mod_eq_of_lt hlt]
  rw [run_bind hrun]
  simp only [hback, hsize, ← hheader]
  rcases hguess with hexact | hshort
  · -- the guess was right: only the prefix is missing
    have hfix := emits_put (out + tag.length) header (splice buf₁ (out + (tag.length + guess)) body)
      (by omega)
    have hheadr := splice_header buf₁ header body (out + tag.length) (by rw [List.length_append]; omega)
    rw [if_neg (not_not.mpr hexact.symm), run_bind hfix, ← hexact, ← Nat.add_assoc, hheadr, hfinal]
    simp only [List.length_append, hl, ← Nat.add_assoc]
    rfl
  · -- the prefix takes one byte more: the payload moves
    have hmove := memmove_splice buf₁ body (out + (tag.length + guess) + 1)
      (out + (tag.length + guess)) (by omega) (by omega)
    have hfix := emits_put (out + tag.length) header
      (splice (splice buf₁ (out + (tag.length + guess)) body) (out + (tag.length + guess) + 1) body)
      (by rw [length_splice (by omega)]; omega)
    have hmoved := splice_moved buf₁ header body (out + tag.length) (out + (tag.length + guess))
      (by omega) (by omega) (by rw [List.length_append]; omega)
    have hdst : out + tag.length + header.length = out + (tag.length + guess) + 1 := by omega
    rw [hdst] at hmoved
    rw [if_pos (by omega), if_neg (by omega), run_bind hmove, run_bind hfix, hmoved, hfinal]
    simp only [List.length_append, hl, hshort]
    rw [show tag.length + guess + 1 + body.length = tag.length + (guess + 1 + body.length) by omega]
    rfl

/-! ## Messages -/

theorem emits_requiredFieldPackLoop {vs : List Value}
    (hvs : ∀ v ∈ vs, Value.HasType field.type v ∧ v.Readable ∧ v.NonNull)
    (hsub : ∀ v ∈ vs, PacksChildren S sub v.children) (out rv : ℕ) (buf : List UInt8)
    (hlt : ((vs.map (Value.record (Message.encode S) field)).flatMap Record.bytes).length < 2 ^ 32)
    (hroom : out + rv + ((vs.map (Value.record (Message.encode S) field)).flatMap
      Record.bytes).length ≤ buf.length) :
    requiredFieldPackLoop sub field out vs rv buf =
      .ok (rv + ((vs.map (Value.record (Message.encode S) field)).flatMap Record.bytes).length,
        splice buf (out + rv)
          ((vs.map (Value.record (Message.encode S) field)).flatMap Record.bytes)) := by
  induction vs generalizing rv buf with
  | nil =>
    simp only [List.map_nil, List.flatMap_nil, splice_nil]
    rfl
  | cons v vs ih =>
    rw [List.map_cons, List.flatMap_cons, List.length_append] at hroom hlt
    obtain ⟨ht, hr, -⟩ := hvs v (by simp)
    have hone := emits_requiredFieldPack ht hr (hsub v (by simp)) (by omega) (out + rv) buf
      (by omega)
    have hrest := ih (fun w hw => hvs w (by simp [hw])) (fun w hw => hsub w (by simp [hw]))
      (rv + (v.record (Message.encode S) field).bytes.length)
      (splice buf (out + rv) (v.record (Message.encode S) field).bytes) (by omega)
      (by rw [length_splice (by omega)]; omega)
    rw [requiredFieldPackLoop, run_bind hone, hrest, ← Nat.add_assoc,
      splice_splice (by rw [List.length_append]; omega), List.map_cons, List.flatMap_cons,
      List.length_append, Nat.add_assoc]

theorem emits_fieldPack {slot : Slot} (hg : field.Generated) (hs : SlotPackable field slot)
    (hsub : PacksChildren S sub (slot.writtenChildren field)) (out : ℕ)
    (hlt : ((slotRecords (Message.encode S) field slot).flatMap Record.bytes).length < 2 ^ 32) :
    Emits (fieldPack sub field slot out) out
      ((slotRecords (Message.encode S) field slot).flatMap Record.bytes) := by
  unfold fieldPack
  cases slot with
  | singular has v =>
    obtain ⟨hl, ht, hr⟩ := hs
    have hrecord : field.label = .required ∨ field.isSet has v = true →
        Emits (requiredFieldPack sub field v out) out
          ((slotRecords (Message.encode S) field (.singular has v)).flatMap Record.bytes) := by
      intro hset
      simp only [slotRecords, hset, if_true, List.flatMap_cons, List.flatMap_nil,
        List.append_nil] at hlt ⊢
      exact emits_requiredFieldPack ht (hr hset) (Slot.writtenChildren_singular hset ▸ hsub) hlt out
    cases hlabel : field.label with
    | required => exact hrecord (.inl hlabel)
    | optional =>
      simp only [optionalFieldPack]
      by_cases hset : field.isSet has v = true
      · rw [if_pos hset]
        exact hrecord (.inr hset)
      · rw [if_neg hset]
        simp only [slotRecords, hlabel, hset, reduceCtorEq, or_self, if_false, List.flatMap_nil]
        exact emits_zero out
    | repeated => exact absurd hlabel hl
  | repeated a =>
    have hs' := hs
    obtain ⟨hl, hn, hvs⟩ := hs'
    simp only [hl]
    by_cases hp : field.packed = true
    · by_cases h0 : a.n = 0
      · simp only [repeatedFieldPack, slotRecords, hp, h0, if_true, List.flatMap_nil]
        exact emits_zero out
      · simp only [slotRecords, hp, h0, if_true, if_false, List.flatMap_cons, List.flatMap_nil,
          List.append_nil] at hlt ⊢
        refine emits_packedField hg hp hs h0 out ?_
        rw [length_bytes, packedRecord, length_prefixed] at hlt
        omega
    · intro buf hroom
      simp only [slotRecords, hp] at hlt hroom ⊢
      have hloop := emits_requiredFieldPackLoop hvs
        (fun v hv c hc => hsub c (List.mem_flatMap.mpr ⟨v, hv, hc⟩)) out 0 buf hlt hroom
      simp only [repeatedFieldPack, hp, Bool.false_eq_true, if_false, CArray.load_self hn, require_ok,
        pure_bind]
      rw [hloop, Nat.zero_add, Nat.add_zero]

theorem emits_fieldsPack {fields : List FieldDescriptor} {slots : List Slot}
    (hg : ∀ f ∈ fields, f.Generated) (hs : List.Forall₂ SlotPackable fields slots)
    (hsub : ∀ p ∈ fields.zip slots, PacksChildren S sub (p.2.writtenChildren p.1)) (out rv : ℕ)
    (buf : List UInt8)
    (hlt : ((List.zipWith (slotRecords (Message.encode S)) fields slots).flatten.flatMap
      Record.bytes).length < 2 ^ 32)
    (hroom : out + rv + ((List.zipWith (slotRecords (Message.encode S)) fields
      slots).flatten.flatMap Record.bytes).length ≤ buf.length) :
    fieldsPack sub out fields slots rv buf =
      .ok (rv + ((List.zipWith (slotRecords (Message.encode S)) fields slots).flatten.flatMap
        Record.bytes).length, splice buf (out + rv) ((List.zipWith (slotRecords (Message.encode S))
          fields slots).flatten.flatMap Record.bytes)) := by
  induction hs generalizing rv buf with
  | nil =>
    simp only [List.zipWith_nil_left, List.flatten_nil, List.flatMap_nil, splice_nil]
    rfl
  | @cons f s fields slots hfs _ ih =>
    rw [List.zipWith_cons_cons, List.flatten_cons, List.flatMap_append, List.length_append]
      at hroom hlt
    have hone := emits_fieldPack (hg f (by simp)) hfs (hsub (f, s) (by simp)) (out + rv) (by omega)
      buf
      (by omega)
    have hrest := ih (fun f' hf' => hg f' (by simp [hf'])) (fun p hp => hsub p (by simp [hp]))
      (rv + ((slotRecords (Message.encode S) f s).flatMap Record.bytes).length)
      (splice buf (out + rv) ((slotRecords (Message.encode S) f s).flatMap Record.bytes)) (by omega)
      (by rw [length_splice (by omega)]; omega)
    rw [fieldsPack, run_bind hone, hrest, ← Nat.add_assoc,
      splice_splice (by rw [List.length_append]; omega), List.zipWith_cons_cons, List.flatten_cons,
      List.flatMap_append, List.length_append, Nat.add_assoc]

theorem emits_unknownFieldPack {u : MessageUnknownField}
    (hu : u.len ≤ (u.data.elim [] Ptr.val).length) (out : ℕ) :
    Emits (unknownFieldPack u out) out (unknownRecord u).bytes := by
  have hload := loadData_eq hu
  have hlen : ((u.data.elim [] Ptr.val).take u.len).length = u.len := by
    rw [List.length_take]
    exact Nat.min_eq_left hu
  have hdata := emits_put (out + (tagPack u.tag).length) ((u.data.elim [] Ptr.val).take u.len)
  have htagged := @emits_tagged u.tag u.wireType.code out _
    (fun rv => put (out + rv) ((u.data.elim [] Ptr.val).take u.len)) hdata
  simpa [unknownFieldPack, hload, put, bind_assoc, hlen, unknownRecord, Record.bytes]
    using htagged

theorem emits_unknownFieldsPack {us : List MessageUnknownField}
    (hus : ∀ u ∈ us, u.len ≤ (u.data.elim [] Ptr.val).length) (out rv : ℕ) (buf : List UInt8)
    (hroom : out + rv + ((us.map unknownRecord).flatMap Record.bytes).length ≤ buf.length) :
    unknownFieldsPack out us rv buf =
      .ok (rv + ((us.map unknownRecord).flatMap Record.bytes).length,
        splice buf (out + rv) ((us.map unknownRecord).flatMap Record.bytes)) := by
  induction us generalizing rv buf with
  | nil =>
    simp only [List.map_nil, List.flatMap_nil, splice_nil]
    rfl
  | cons u us ih =>
    rw [List.map_cons, List.flatMap_cons, List.length_append] at hroom
    have hone := emits_unknownFieldPack (hus u (by simp)) (out + rv) buf (by omega)
    have hrest := ih (fun w hw => hus w (by simp [hw])) (rv + (unknownRecord u).bytes.length)
      (splice buf (out + rv) (unknownRecord u).bytes) (by rw [length_splice (by omega)]; omega)
    rw [unknownFieldsPack, run_bind hone, hrest, ← Nat.add_assoc,
      splice_splice (by rw [List.length_append]; omega), List.map_cons, List.flatMap_cons,
      List.length_append, Nat.add_assoc]

theorem emits_messagePack {m : Message} (hm : m.Packable S) (hlt : (m.encode S).length < 2 ^ 32)
    (out : ℕ) : Emits (messagePack S m out) out (m.encode S) := by
  refine layerRec_spec (P := fun m (r : ℕ → Pack ℕ) => m.Packable S →
    (m.encode S).length < 2 ^ 32 → ∀ out, Emits (r out) out (m.encode S)) ?_ m hm hlt out
  intro m sub hsub hm hlt out buf hroom
  obtain ⟨_, hslots, hn, hunknown, hchildren⟩ := hm
  have hchild : ∀ p ∈ (S.desc m.descriptor).fields.zip m.slots,
      PacksChildren S sub (p.2.writtenChildren p.1) := by
    intro p hp c hc
    have hmem : c ∈ m.writtenChildren S := Message.mem_writtenChildren.mpr ⟨p, hp, hc⟩
    exact hsub c (m.depth_children c (Message.writtenChildren_subset hmem)) (hchildren c hmem)
  rw [m.encode_eq S, Message.records, recordsLayer, List.flatMap_append] at hlt hroom ⊢
  rw [List.length_append] at hlt hroom
  have hfields := emits_fieldsPack (S.generated _).field hslots hchild out 0 buf (by omega)
    (by omega)
  have hrest := emits_unknownFieldsPack hunknown out
    (0 + ((List.zipWith (slotRecords (Message.encode S)) (S.desc m.descriptor).fields
      m.slots).flatten.flatMap Record.bytes).length)
    (splice buf (out + 0) ((List.zipWith (slotRecords (Message.encode S))
      (S.desc m.descriptor).fields m.slots).flatten.flatMap Record.bytes))
    (by rw [length_splice (by omega)]; omega)
  unfold messagePackLayer
  rw [run_bind hfields, CArray.load_self hn, require_ok, pure_bind, hrest]
  simp only [Nat.zero_add, Nat.add_zero]
  rw [splice_splice (by rw [List.length_append]; omega), List.length_append]

end ProtobufC
