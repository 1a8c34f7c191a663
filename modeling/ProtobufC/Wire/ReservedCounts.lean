import ProtobufC.Wire.InputBounds

/-! # Reserved elements

The first pass counts the bytes of a packed payload that end a number, and `4` or `8` bytes or one
for the other types; the second consumes numbers of at most ten bytes, and checks booleans.  What
the second stores is covered by what the first has counted, on every payload, so that an array that
was allocated for the counts is filled and never overrun.
-/

namespace ProtobufC
open Library
set_option autoImplicit false

variable {σ : Type}

/-- The payload behind the length prefix is `rem`. -/
def ScannedMember.Holds (scanned : ScannedMember) (rem : List UInt8) : Prop :=
  readBytes (sizeSub scanned.len scanned.lengthPrefixLen)
    (scanned.data.drop scanned.lengthPrefixLen) = .ok rem

/-- `count_packed_elements` on the payload, as the scan calls it. -/
def ScannedMember.countPacked (scanned : ScannedMember) (type : FieldType) :
    Except Fault (Option ℕ) :=
  countPackedElements type (sizeSub scanned.len scanned.lengthPrefixLen)
    (scanned.data.drop scanned.lengthPrefixLen)

/-- The indices at which `parse_packed_repeated_member` stores, behind `n` elements. -/
def packedStores (type : FieldType) (rem : List UInt8) (n : ℕ) : List ℕ :=
  match parsePackedElements type rem with
  | .ok r => List.range' n r.1.length
  | .error _ => []

theorem mem_packedStores {type : FieldType} {rem : List UInt8} {vs : List Value} {ok : Bool}
    (h : parsePackedElements type rem = .ok (vs, ok)) (n : ℕ) :
    (packedStores type rem n).length = vs.length ∧
      ∀ i ∈ packedStores type rem n, n ≤ i ∧ i < n + vs.length := by
  unfold packedStores
  rw [h]
  exact ⟨List.length_range', fun i hi => List.mem_range'_1.mp hi⟩

/-- What a call of `parse_packed_repeated_member` did to an array with `c` elements reserved. -/
def LeavesReserved (array : CArray Value) (c : ℕ) (s : σ) :
    Except Fault ((CArray Value × Bool) × σ) → Prop
  | .ok ((array', true), s') => s' = s ∧ ∃ vs, vs.length = c ∧
      array' = { array with n := array.n + c, elems := array.elems.take array.n ++ vs }
  | .ok ((array', false), s') => s' = s ∧ array' = array
  | .error e => e = .hang

/-- Every array with `c` elements to spare has room for what `parse_packed_repeated_member` stores;
the count grows by `c` or stays.  The function fails to return only where its loop has no end. -/
def StoresReserved (σ : Type) (scanned : ScannedMember) (field : FieldDescriptor)
    (rem : List UInt8) (c : ℕ) : Prop :=
  ∀ (array : CArray Value) (s : σ), array.n + c ≤ array.cap →
    (packedStores field.type rem array.n).length ≤ c ∧
    (∀ i ∈ packedStores field.type rem array.n, array.n ≤ i ∧ i < array.n + c) ∧
    LeavesReserved array c s (parsePackedRepeatedMember scanned field array s) ∧
    ((∃ e, parsePackedRepeatedMember scanned field array s = .error e) ↔
      booleansWithoutEnd field.type rem = true)

section Member
variable {scanned : ScannedMember} {field : FieldDescriptor} {rem : List UInt8} {c : ℕ}

theorem ScannedMember.Holds.length (h : scanned.Holds rem) :
    rem.length = sizeSub scanned.len scanned.lengthPrefixLen := by
  unfold ScannedMember.Holds readBytes at h
  split_ifs at h with hle
  rw [← Except.ok.inj h, List.length_take, Nat.min_eq_left hle]

/-- The count of the scan is the number of elements that the payload announces. -/
theorem ScannedMember.Holds.countPacked_eq (h : scanned.Holds rem) (type : FieldType) :
    scanned.countPacked type = .ok (packedCount type rem) := by
  have hlen := h.length
  unfold ScannedMember.Holds at h
  unfold ScannedMember.countPacked countPackedElements packedCount
  rw [h, ← hlen]
  cases type <;> rfl

theorem CArray.store_of_le (array : CArray Value) (vs : List Value)
    (h : array.n + vs.length ≤ array.cap) : array.store vs =
      .ok { array with n := array.n + vs.length, elems := array.elems.take array.n ++ vs } :=
  if_pos h

theorem storesReserved (hrem : scanned.Holds rem)
    (hcount : scanned.countPacked field.type = .ok (some c)) :
    StoresReserved σ scanned field rem c := by
  rw [hrem.countPacked_eq, Except.ok.injEq] at hcount
  obtain ⟨vs, ok, hparse, hle, heq⟩ := parsePackedElements_length hcount
  intro array s hroom
  obtain ⟨hlen, hmem⟩ := mem_packedStores hparse array.n
  have hstore := array.store_of_le vs (by omega)
  have hrun : parsePackedRepeatedMember scanned field array s =
      if booleansWithoutEnd field.type rem then .error .hang
      else .ok ((if ok then { array with n := array.n + vs.length,
                                          elems := array.elems.take array.n ++ vs }
                 else array, ok), s) := by
    unfold parsePackedRepeatedMember
    rw [hrem]
    simp only [require_ok, pure_bind, hparse, hstore]
    split_ifs <;> rfl
  refine ⟨hlen.trans_le hle, fun i hi => ?_, ?_, ?_⟩
  · have := hmem i hi
    omega
  · rw [hrun]
    cases hends : booleansWithoutEnd field.type rem with
    | true => exact rfl
    | false =>
      cases ok with
      | false => exact ⟨rfl, rfl⟩
      | true =>
        have hall := heq rfl hends
        exact ⟨rfl, vs, hall, by rw [← hall]; rfl⟩
  · rw [hrun]
    cases hends : booleansWithoutEnd field.type rem <;> simp

end Member

/-- The elements counted cover the elements stored: in one packed record, on success and on failure,
and over a whole unpack, which fills every array to its allocated size. -/
theorem reservedCounts_cover (H : HeapAllocator σ) (S : Schema) :
    (∀ scanned field rem c, ScannedMember.Holds scanned rem →
      scanned.countPacked (FieldDescriptor.type field) = .ok (some c) →
        StoresReserved σ scanned field rem c) ∧
    ∀ d data s, (∀ a m s', messageUnpack H.toAllocator S d data s = .ok (.ref a m, s') → m.Filled) ∧
      (TmpReliable H → data.length < 2 ^ 31 → PrefixesBelow S (2 ^ 31) d data →
        ∀ e, messageUnpack H.toAllocator S d data s ≠ .error e) := by
  refine ⟨fun scanned field rem c hrem hcount => storesReserved hrem hcount, fun d data s =>
    ⟨fun a m s' hrun => ?_, fun htmp hlen hprefixes e hrun => ?_⟩⟩
  · obtain ⟨b, -, -, -, -, hdone⟩ := (messageUnpack_spec H S d data s).post hrun
    exact hdone.filled
  · exact ((messageUnpack_spec H S d data s).faulty hrun).2
      (.of_prefixes htmp (by omega) (by norm_num) hprefixes)

theorem prefixesBelow_repeatedInt32 :
    PrefixesBelow repeatedInt32Schema (2 ^ 31) 0 [10, 2, 1, 2] := by
  have htok : tokenize [10, 2, 1, 2] = some [⟨1, .lengthPrefixed, [2, 1, 2]⟩] := by
    rw [tokenize_cons (by simp) (show nextRecord [10, 2, 1, 2] =
      some (⟨1, .lengthPrefixed, [2, 1, 2]⟩, []) from rfl)]
    simp
  have hdec : decode repeatedInt32Schema 0 [10, 2, 1, 2] =
      some (.mk 0 [.repeated (.ofList [.word32 1, .word32 2])] .null) :=
    decode_eq_some.mpr ⟨_, htok, rfl, rfl⟩
  exact prefixesBelow_of_decode (0, [10, 2, 1, 2]) _ hdec (by simp)

/-- `reservedCounts_cover` on the packed payload `01 02` and on the bytes `0a 02 01 02`. -/
theorem reservedCounts_cover_repeatedInt32 :
    StoresReserved (ℕ × List ℕ) ⟨1, .lengthPrefixed, 1, none, 3, [2, 1, 2]⟩
      (.scalar .repeated .int32 1) [1, 2] 2 ∧
    (∃ a m s', messageUnpack countingHeap.toAllocator repeatedInt32Schema 0 [10, 2, 1, 2] (0, []) =
      .ok (.ref a m, s') ∧ m.Filled) ∧
    ∀ e, messageUnpack countingHeap.toAllocator repeatedInt32Schema 0 [10, 2, 1, 2] (0, []) ≠
      .error e :=
  have hcover := reservedCounts_cover countingHeap repeatedInt32Schema
  ⟨hcover.1 _ _ _ _ rfl rfl, ⟨_, _, _, rfl, (hcover.2 0 [10, 2, 1, 2] (0, [])).1 _ _ _ rfl⟩,
    (hcover.2 0 [10, 2, 1, 2] (0, [])).2 countingHeap_infallible.2 (by simp)
      prefixesBelow_repeatedInt32⟩

end ProtobufC
