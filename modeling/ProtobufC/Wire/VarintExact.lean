import ProtobufC.Wire.Record

/-! # The varint routines are plain base-128

`uint64_pack` works on two 32-bit halves, `int32_pack` writes a sign extension by hand and
`tag_pack` shifts by four first.  Against `IsMinimalNumeral`, the numeral that no other digit
string of the same value undercuts, none of this shows.
-/

namespace ProtobufC
open Library
set_option autoImplicit false

theorem exists_wireType {code : UInt8} (h : code < 8) : ∃ wire : WireType, wire.code = code := by
  have hlt : code.toNat < 8 := UInt8.lt_iff_toNat_lt.mp h
  refine ⟨WireType.ofByte code, UInt8.toNat_inj.mp ?_⟩
  have hbyte : (code &&& 7).toNat = code.toNat := by
    rw [UInt8.toNat_and, show (UInt8.toNat 7) = 2 ^ 3 - 1 from rfl, Nat.and_two_pow_sub_one_eq_mod]
    omega
  unfold WireType.ofByte
  rw [hbyte]
  interval_cases code.toNat <;> rfl

theorem length_orFirst_tagPack (id : UInt32) (code : UInt8) :
    (orFirst (tagPack id) code).length = getTagSize id := by
  rw [length_orFirst, tagPack_eq, getTagSize_eq]

/-- A varint routine writes the minimal numeral of its value, as many bytes as its size function
says. -/
structure PacksAs (written : List UInt8) (value size : ℕ) : Prop where
  minimal : IsMinimalNumeral written value
  size : written.length = size

theorem packsAs_uint64 (v : UInt64) : PacksAs (uint64Pack v) v.toNat (uint64Size v) :=
  ⟨isMinimalNumeral_iff.mpr (uint64Pack_eq v), by rw [uint64Pack_eq, uint64Size_eq]⟩

theorem packsAs_uint32 (v : UInt32) : PacksAs (uint32Pack v) v.toNat (uint32Size v) :=
  ⟨isMinimalNumeral_iff.mpr (uint32Pack_eq v), by rw [uint32Pack_eq, uint32Size_eq]⟩

theorem packsAs_int32 (v : Int32) :
    PacksAs (int32Pack v) v.toInt64.toUInt64.toNat (int32Size v) :=
  ⟨isMinimalNumeral_iff.mpr (int32Pack_eq v), by rw [int32Pack_eq, int32Size_eq]⟩

theorem parseTag_orFirst (id : UInt32) {code : UInt8} (h : code < 8) (rest : List UInt8) :
    ∃ wire : WireType, wire.code = code ∧
      parseTagAndWiretype (orFirst (tagPack id) code ++ rest) =
        some (getTagSize id, id, wire) := by
  obtain ⟨wire, rfl⟩ := exists_wireType h
  refine ⟨wire, rfl, ?_⟩
  rw [parseTagAndWiretype_append, length_orFirst_tagPack]

theorem parse_terminated {bs : List UInt8} (h : Terminated bs) (hlen : bs.length ≤ 10) :
    (parseUint64 bs).toNat = base128Value bs % 2 ^ 64 ∧
      (parseUint32 bs).toNat = base128Value bs % 2 ^ 32 := by
  have hne : bs ≠ [] := by
    rintro rfl
    exact h
  exact ⟨parseUint64_toNat hne hlen, parseUint32_toNat hne⟩

/-- The split-word varint routines equal plain base-128. -/
theorem varints_exact :
    (∀ v : UInt64, PacksAs (uint64Pack v) v.toNat (uint64Size v)) ∧
    (∀ v : UInt32, PacksAs (uint32Pack v) v.toNat (uint32Size v)) ∧
    (∀ v : Int32, PacksAs (int32Pack v) v.toInt64.toUInt64.toNat (int32Size v)) ∧
    (∀ (id : UInt32) (code : UInt8) (rest : List UInt8), code < 8 →
      ∃ wire : WireType, wire.code = code ∧
        parseTagAndWiretype (orFirst (tagPack id) code ++ rest) =
          some (getTagSize id, id, wire)) ∧
    (∀ bs : List UInt8, Terminated bs → bs.length ≤ 10 →
      (parseUint64 bs).toNat = base128Value bs % 2 ^ 64 ∧
        (parseUint32 bs).toNat = base128Value bs % 2 ^ 32) ∧
    (∀ v : Int32, unzigzag32 (zigzag32 v) = v) ∧ ∀ v : Int64, unzigzag64 (zigzag64 v) = v :=
  ⟨packsAs_uint64, packsAs_uint32, packsAs_int32, fun id _ rest h => parseTag_orFirst id h rest,
    fun _ h hlen => parse_terminated h hlen, unzigzag32_zigzag32, unzigzag64_zigzag64⟩

/-- The tag of field `2^29 - 1` with wire type 5, and the three bytes of a padded 1. -/
theorem varints_exact_padded :
    (∃ wire : WireType, wire.code = 5 ∧
      parseTagAndWiretype (orFirst (tagPack 0x1fffffff) 5 ++ [7]) = some (5, 0x1fffffff, wire)) ∧
      (parseUint64 [0x81, 0x80, 0x00]).toNat = 1 := by
  have hpadded : Terminated [0x81, 0x80, 0x00] :=
    terminated_cons (by decide)
      (terminated_cons (by decide) (show (0 : UInt8).toNat < 128 by decide))
  obtain ⟨-, -, -, htag, hparse, -, -⟩ := varints_exact
  exact ⟨htag 0x1fffffff 5 [7] (by decide), (hparse _ hpadded (by decide)).1⟩

end ProtobufC
