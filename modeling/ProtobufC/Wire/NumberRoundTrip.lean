import ProtobufC.Wire.NormalForm

/-! # Numbers, there and back

The bytes of a number, as a record of its own or among the elements of a packed field, are parsed into the
number (`parseScalar_scalarBytes`, `decodePacked_scalarBytes`).
-/

namespace ProtobufC
open Library
set_option autoImplicit false

/-! ## Varints -/

/-- The numeral of a number of 64 bits, and what the two parsers make of it. -/
structure IsVarint (bs : List UInt8) (n : ℕ) : Prop where
  eq : bs = base128 n
  lt : n < 2 ^ 64

variable {bs : List UInt8} {n : ℕ}

theorem IsVarint.length_le (h : IsVarint bs n) : bs.length ≤ 10 := by
  have hlt := h.lt
  rw [h.eq]
  exact length_base128_le (k := 9) (by omega)

theorem IsVarint.ne_nil (h : IsVarint bs n) : bs ≠ [] := h.eq ▸ base128_ne_nil n

theorem IsVarint.length_pos (h : IsVarint bs n) : 0 < bs.length := List.length_pos_of_ne_nil h.ne_nil

theorem IsVarint.parseUint32 (h : IsVarint bs n) : (parseUint32 bs).toNat = n % 2 ^ 32 := by
  rw [parseUint32_toNat h.ne_nil, h.eq, base128Value_base128]

theorem IsVarint.parseUint64 (h : IsVarint bs n) : (parseUint64 bs).toNat = n := by
  rw [parseUint64_toNat h.ne_nil h.length_le, h.eq, base128Value_base128, Nat.mod_eq_of_lt h.lt]

theorem IsVarint.findLastDigit (h : IsVarint bs n) (rest : List UInt8) :
    findLastDigit 10 (bs ++ rest) = some (bs.length - 1) := by
  have hlength := h.length_le
  rw [h.eq] at hlength ⊢
  exact findLastDigit_append (terminated_base128 n) hlength rest

theorem IsVarint.payloadLength (h : IsVarint bs n) : payloadLength .varint bs = some bs.length := by
  have hpos := h.length_pos
  have hfind := h.findLastDigit []
  rw [List.append_nil] at hfind
  rw [ProtobufC.payloadLength, hfind, Option.map_some, Nat.sub_add_cancel hpos]

theorem isVarint_uint32Pack (w : UInt32) : IsVarint (uint32Pack w) w.toNat :=
  ⟨uint32Pack_eq w, by have := w.toNat_lt; omega⟩

theorem isVarint_uint64Pack (w : UInt64) : IsVarint (uint64Pack w) w.toNat :=
  ⟨uint64Pack_eq w, by have := w.toNat_lt; omega⟩

theorem isVarint_int32Pack (v : Int32) : IsVarint (int32Pack v) (signExtended v) :=
  ⟨int32Pack_eq v, v.toInt64.toUInt64.toNat_lt⟩

theorem parseUint32_uint32Pack (w : UInt32) : parseUint32 (uint32Pack w) = w := by
  have hw := w.toNat_lt
  apply UInt32.toNat_inj.mp
  rw [(isVarint_uint32Pack w).parseUint32]
  exact Nat.mod_eq_of_lt hw

theorem parseUint64_uint64Pack (w : UInt64) : parseUint64 (uint64Pack w) = w :=
  UInt64.toNat_inj.mp (isVarint_uint64Pack w).parseUint64

/-- The upper half of the sign extension is dropped. -/
theorem parseInt32_int32Pack (w : UInt32) : parseInt32 (int32Pack w.toInt32) = w := by
  have hw := w.toNat_lt
  have hext := signExtended_eq w.toInt32
  have hword := int32_toUInt32_toNat w.toInt32
  rw [show w.toInt32.toUInt32 = w from rfl] at hword
  apply UInt32.toNat_inj.mp
  rw [parseInt32, (isVarint_int32Pack w.toInt32).parseUint32]
  omega

theorem unzigzag32_sint32Pack (w : UInt32) :
    (unzigzag32 (parseUint32 (sint32Pack w.toInt32))).toUInt32 = w := by
  rw [sint32Pack, parseUint32_uint32Pack, unzigzag32_zigzag32]
  rfl

theorem unzigzag64_sint64Pack (w : UInt64) :
    (unzigzag64 (parseUint64 (sint64Pack w.toInt64))).toUInt64 = w := by
  rw [sint64Pack, parseUint64_uint64Pack, unzigzag64_zigzag64]
  rfl

theorem parseFixedUint32_pack (w : UInt32) : parseFixedUint32 (fixed32Pack w) = w := by
  have h := parseFixedUint32_fixed32Pack w []
  rwa [List.append_nil] at h

theorem parseFixedUint64_pack (w : UInt64) : parseFixedUint64 (fixed64Pack w) = w := by
  have h := parseFixedUint64_fixed64Pack w []
  rwa [List.append_nil] at h

/-! ## A number in a record -/

variable {type : FieldType} {v : Value} (sub : Message → Message)

/-- The payload of a number is complete. -/
theorem payloadLength_scalarBytes (hp : isPackableType type = true) (hv : Value.HasType type v) :
    payloadLength type.wireType (scalarBytes type v) = some (scalarBytes type v).length := by
  revert hp
  refine Value.HasType.cases (P := fun type v => isPackableType type = true →
    payloadLength type.wireType (scalarBytes type v) = some (scalarBytes type v).length) hv
    (fun w _ => (isVarint_int32Pack w.toInt32).payloadLength)
    (fun w _ => (isVarint_uint32Pack (zigzag32 w.toInt32)).payloadLength) (fun _ _ => rfl)
    (fun w _ => (isVarint_uint64Pack w).payloadLength)
    (fun w _ => (isVarint_uint64Pack (zigzag64 w.toInt64)).payloadLength) (fun _ _ => rfl)
    (fun w _ => (isVarint_uint32Pack w).payloadLength) (fun _ _ => rfl)
    (fun w _ => (isVarint_uint64Pack w).payloadLength) (fun _ _ => rfl) (fun _ _ => rfl)
    (fun _ _ => rfl) (fun b _ => ?_) (fun w _ => (isVarint_uint32Pack w).payloadLength)
    (fun _ hp => absurd hp (by decide)) (fun _ _ hp => absurd hp (by decide))
    (fun _ hp => absurd hp (by decide))
  by_cases hb : b ≠ 0 <;> simp only [scalarBytes, booleanPack, if_pos hb, if_neg hb] <;> rfl

/-- A number is read back. -/
theorem parseScalar_scalarBytes (hp : isPackableType type = true) (hv : Value.HasType type v) :
    parseScalar type type.wireType (scalarBytes type v) = some (v.normal sub) := by
  revert hp
  refine Value.HasType.cases (P := fun type v => isPackableType type = true →
    parseScalar type type.wireType (scalarBytes type v) = some (v.normal sub)) hv
    (fun w _ => congrArg (some ∘ Value.word32) (parseInt32_int32Pack w))
    (fun w _ => congrArg (some ∘ Value.word32) (unzigzag32_sint32Pack w))
    (fun w _ => congrArg (some ∘ Value.word32) (parseFixedUint32_pack w))
    (fun w _ => congrArg (some ∘ Value.word64) (parseUint64_uint64Pack w))
    (fun w _ => congrArg (some ∘ Value.word64) (unzigzag64_sint64Pack w))
    (fun w _ => congrArg (some ∘ Value.word64) (parseFixedUint64_pack w))
    (fun w _ => congrArg (some ∘ Value.word32) (parseUint32_uint32Pack w))
    (fun w _ => congrArg (some ∘ Value.word32) (parseFixedUint32_pack w))
    (fun w _ => congrArg (some ∘ Value.word64) (parseUint64_uint64Pack w))
    (fun w _ => congrArg (some ∘ Value.word64) (parseFixedUint64_pack w))
    (fun w _ => congrArg (some ∘ Value.word32) (parseFixedUint32_pack w))
    (fun w _ => congrArg (some ∘ Value.word64) (parseFixedUint64_pack w)) (fun b _ => ?_)
    (fun w _ => congrArg (some ∘ Value.word32) (parseUint32_uint32Pack w))
    (fun _ hp => absurd hp (by decide)) (fun _ _ hp => absurd hp (by decide))
    (fun _ hp => absurd hp (by decide))
  by_cases hb : b ≠ 0 <;> simp only [scalarBytes, booleanPack, Value.normal, if_pos hb, if_neg hb] <;> rfl

/-! ## Numbers behind each other -/

variable {parse : List UInt8 → Value} {enc : Value → List UInt8} {nf : Value → Value}

/-- The loop over varints gives them all. -/
theorem parsePackedVarints_flatMap {vs : List Value}
    (hvs : ∀ v ∈ vs, (∃ n, IsVarint (enc v) n) ∧ parse (enc v) = nf v)
    (hlt : (vs.flatMap enc).length < 2 ^ 32) {fuel : ℕ} (hfuel : (vs.flatMap enc).length ≤ fuel) :
    parsePackedVarints parse fuel (vs.flatMap enc) = (vs.map nf, true) := by
  induction vs generalizing fuel with
  | nil =>
    cases fuel with
    | zero => rfl
    | succ fuel => rfl
  | cons v vs ih =>
    obtain ⟨⟨n, hn⟩, hparse⟩ := hvs v List.mem_cons_self
    have hpos := hn.length_pos
    rw [List.flatMap_cons] at hlt hfuel ⊢
    rw [List.length_append] at hlt hfuel
    obtain ⟨fuel, rfl⟩ : ∃ k, fuel = k + 1 := ⟨fuel - 1, by omega⟩
    have hscan : scanPackedVarint (enc v ++ vs.flatMap enc) = (enc v).length := by
      unfold scanPackedVarint scanVarint
      rw [Nat.mod_eq_of_lt (by rw [List.length_append]; exact hlt), List.take_length,
        hn.findLastDigit]
      exact Nat.sub_add_cancel hpos
    have hne : (enc v ++ vs.flatMap enc).isEmpty = false := by
      rw [List.isEmpty_eq_false_iff]
      exact List.append_ne_nil_of_left_ne_nil hn.ne_nil _
    have hrest := ih (fun w hw => hvs w (List.mem_cons_of_mem _ hw)) (by omega)
      (show _ ≤ fuel by omega)
    unfold parsePackedVarints
    simp only [hne, Bool.false_eq_true, if_false, hscan, hpos.ne', List.take_left, List.drop_left,
      hrest, hparse, List.map_cons]

/-- The loop over words of a fixed size gives them all. -/
theorem parsePackedFixed_flatMap {size : ℕ} {vs : List Value}
    (hvs : ∀ v ∈ vs, (enc v).length = size ∧ parse (enc v) = nf v) :
    (vs.flatMap enc).length = vs.length * size ∧
      parsePackedFixed parse size vs.length (vs.flatMap enc) = vs.map nf := by
  induction vs with
  | nil => exact ⟨(Nat.zero_mul size).symm, rfl⟩
  | cons v vs ih =>
    obtain ⟨hsize, hparse⟩ := hvs v List.mem_cons_self
    obtain ⟨hlength, hrest⟩ := ih fun w hw => hvs w (List.mem_cons_of_mem _ hw)
    refine ⟨by rw [List.flatMap_cons, List.length_append, hlength, hsize, List.length_cons]; ring, ?_⟩
    rw [List.flatMap_cons, List.length_cons, parsePackedFixed, List.take_left' hsize, List.drop_left' hsize,
      hrest, hparse, List.map_cons]

/-- The loop over booleans gives them all. -/
theorem parsePackedBooleans_flatMap {vs : List Value} (hvs : ∀ v ∈ vs, Value.HasType .bool v) :
    parsePackedBooleans (vs.flatMap (scalarBytes .bool)) = (vs.map (Value.normal sub), true) ∧
      (vs.flatMap (scalarBytes .bool)).length = vs.length := by
  induction vs with
  | nil => exact ⟨rfl, rfl⟩
  | cons v vs ih =>
    obtain ⟨hrest, hlength⟩ := ih fun w hw => hvs w (List.mem_cons_of_mem _ hw)
    cases v with
    | boolean b =>
      have hbytes : scalarBytes .bool (.boolean b) = [if b ≠ 0 then 1 else 0] := rfl
      rw [List.flatMap_cons, hbytes, List.singleton_append, List.length_cons, hlength]
      refine ⟨?_, rfl⟩
      rw [parsePackedBooleans, hrest, List.map_cons, Value.normal]
      by_cases hb : b ≠ 0
      · rw [if_pos hb, if_pos hb]
        rfl
      · rw [if_neg hb, if_neg hb]
        rfl
    | word32 w | word64 w | string p | bytes len p | message p =>
      exact False.elim (hvs _ List.mem_cons_self)

theorem isVarint_scalarBytes (htype : type.wireType = .varint) (hbool : type ≠ .bool)
    (hv : Value.HasType type v) : ∃ n, IsVarint (scalarBytes type v) n := by
  revert htype hbool
  refine Value.HasType.cases (P := fun type v => type.wireType = .varint → type ≠ .bool →
    ∃ n, IsVarint (scalarBytes type v) n) hv
    (fun w _ _ => ⟨_, isVarint_int32Pack w.toInt32⟩)
    (fun w _ _ => ⟨_, isVarint_uint32Pack (zigzag32 w.toInt32)⟩) (fun _ h => absurd h (by decide))
    (fun w _ _ => ⟨_, isVarint_uint64Pack w⟩) (fun w _ _ => ⟨_, isVarint_uint64Pack (zigzag64 w.toInt64)⟩)
    (fun _ h => absurd h (by decide)) (fun w _ _ => ⟨_, isVarint_uint32Pack w⟩)
    (fun _ h => absurd h (by decide)) (fun w _ _ => ⟨_, isVarint_uint64Pack w⟩)
    (fun _ h => absurd h (by decide)) (fun _ h => absurd h (by decide)) (fun _ h => absurd h (by decide))
    (fun _ _ h => absurd rfl h) (fun w _ _ => ⟨_, isVarint_uint32Pack w⟩)
    (fun _ h => absurd h (by decide)) (fun _ _ h => absurd h (by decide)) (fun _ h => absurd h (by decide))

theorem decodePacked_of_parse {body : List UInt8} {ws : List Value}
    (h : parsePackedElements type body = .ok (ws, true)) (hunit : body.length % packedUnit type = 0) :
    decodePacked type body = some ws := by
  unfold decodePacked
  rw [h]
  exact if_pos hunit

/-! ## Packed fields -/

/-- The numbers of the type take `size` bytes, and `parse` reads them. -/
structure FixedWidth (type : FieldType) (size : ℕ) (parse : List UInt8 → Value) : Prop where
  pos : 0 < size
  length : ∀ {bs}, payloadLength type.wireType bs = some bs.length → bs.length = size
  unit : packedUnit type = size
  scalar : ∀ bs, parseScalar type type.wireType bs = some (parse bs)
  elements : ∀ bs, parsePackedElements type bs =
    .ok (parsePackedFixed parse size (bs.length / size) bs, true)

theorem fixedWidth_bit32 (h : type.wireType = .bit32) :
    FixedWidth type 4 fun bs => .word32 (parseFixedUint32 bs) := by
  have hlength : ∀ {bs}, payloadLength .bit32 bs = some bs.length → bs.length = 4 := by
    intro bs hbs
    change (if bs.length < 4 then none else some 4) = _ at hbs
    split_ifs at hbs
    exact (Option.some.inj hbs).symm
  cases type with
  | sfixed32 | fixed32 | float => exact ⟨by norm_num, hlength, rfl, fun _ => rfl, fun _ => rfl⟩
  | _ => exact absurd h (by decide)

theorem fixedWidth_bit64 (h : type.wireType = .bit64) :
    FixedWidth type 8 fun bs => .word64 (parseFixedUint64 bs) := by
  have hlength : ∀ {bs}, payloadLength .bit64 bs = some bs.length → bs.length = 8 := by
    intro bs hbs
    change (if bs.length < 8 then none else some 8) = _ at hbs
    split_ifs at hbs
    exact (Option.some.inj hbs).symm
  cases type with
  | sfixed64 | fixed64 | double => exact ⟨by norm_num, hlength, rfl, fun _ => rfl, fun _ => rfl⟩
  | _ => exact absurd h (by decide)

section
variable {vs : List Value} (hp : isPackableType type = true) (hvs : ∀ v ∈ vs, Value.HasType type v)
include hp hvs

theorem FixedWidth.decodePacked {size : ℕ} (h : FixedWidth type size parse) :
    decodePacked type (vs.flatMap (scalarBytes type)) = some (vs.map (Value.normal sub)) := by
  have hone : ∀ v ∈ vs, (scalarBytes type v).length = size ∧
      parse (scalarBytes type v) = v.normal sub := by
    intro v hv
    have hscalar := parseScalar_scalarBytes sub hp (hvs v hv)
    exact ⟨h.length (payloadLength_scalarBytes hp (hvs v hv)),
      Option.some.inj ((h.scalar _).symm.trans hscalar)⟩
  obtain ⟨hlength, hloop⟩ := parsePackedFixed_flatMap hone
  refine decodePacked_of_parse ?_ (by rw [h.unit, hlength]; exact Nat.mul_mod_left _ size)
  rw [h.elements, hlength, Nat.mul_div_cancel _ h.pos, hloop]

/-- The elements of a packed field are read back. -/
theorem decodePacked_scalarBytes (hlt : (vs.flatMap (scalarBytes type)).length < 2 ^ 32) :
    decodePacked type (vs.flatMap (scalarBytes type)) = some (vs.map (Value.normal sub)) := by
  have hone := fun v hv => parseScalar_scalarBytes sub hp (hvs v hv)
  cases type with
  | int32 | sint32 | uint32 | enum | int64 | sint64 | uint64 =>
    refine decodePacked_of_parse
      (congrArg Except.ok (parsePackedVarints_flatMap (fun v hv => ⟨?_, ?_⟩) hlt le_rfl)) (Nat.mod_one _)
    · exact isVarint_scalarBytes rfl (by decide) (hvs v hv)
    · exact Option.some.inj (hone v hv)
  | sfixed32 | fixed32 | float => exact (fixedWidth_bit32 rfl).decodePacked sub hp hvs
  | sfixed64 | fixed64 | double => exact (fixedWidth_bit64 rfl).decodePacked sub hp hvs
  | bool =>
    obtain ⟨hloop, hlength⟩ := parsePackedBooleans_flatMap sub hvs
    refine decodePacked_of_parse ?_ (Nat.mod_one _)
    rw [parsePackedElements, List.take_of_length_le (by omega), hloop]
  | string | bytes | message => exact absurd hp (by decide)

end

end ProtobufC
