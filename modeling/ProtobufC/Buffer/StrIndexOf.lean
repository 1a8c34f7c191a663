import ProtobufC.Buffer.Operations

/-! # Searching for a string

`protobuf_c_data_buffer_str_index_of`.  The outer loop reads a fragment from the start of its data and
not from `buf_start`; the inner loop, which goes on in the next fragments, reads from
`protobuf_c_data_buffer_fragment_start`.  The string is of `char`, which is signed.
-/

namespace ProtobufC
open Library
set_option autoImplicit false

/-! ## The code -/

/-- `*str_at == *frag_at`: a `char` against a `uint8_t`. -/
def charMatches (c b : UInt8) : Bool := c.toInt8.toInt == (b.toNat : ℤ)

/-- The inner loops: the rest of the string against the bytes at `subfrag_at`, with the next fragment. -/
def strMatches (heap : FragmentHeap) : ℕ → List UInt8 → List UInt8 → Option ℕ → Except Fault Bool
  | _, [], _, _ => .ok true
  | fuel, c :: str, b :: bytes, next =>
      if charMatches c b then strMatches heap fuel str bytes next else .ok false
  | _, _ :: _, [], none => .ok false
  | 0, _ :: _, [], some _ => .error .hang
  | fuel + 1, c :: str, [], some i => do
      let subfrag ← heap.load i
      strMatches heap fuel (c :: str) subfrag.bytes subfrag.next

/-- The loop over the bytes of one fragment: the index where the string is found, or that of the next
fragment. -/
def strIndexFragment (heap : FragmentHeap) (c : UInt8) (str : List UInt8) (next : Option ℕ) :
    List UInt8 → ℕ → Except Fault (ℕ ⊕ ℕ)
  | [], rv => .ok (.inr rv)
  | b :: bytes, rv =>
      if charMatches c b then do
        if ← strMatches heap (heap.fuel + 1) str bytes next then return .inl rv
        else strIndexFragment heap c str next bytes (rv + 1)
      else strIndexFragment heap c str next bytes (rv + 1)

/-- The loop over the fragments. -/
def strIndexLoop (heap : FragmentHeap) (c : UInt8) (str : List UInt8) :
    ℕ → Option ℕ → ℕ → Except Fault Int32
  | _, none, _ => .ok (-1)
  | 0, some _, _ => .error .hang
  | fuel + 1, some i, rv => do
      let frag ← heap.load i
      match ← strIndexFragment heap c str frag.next (frag.data.take frag.bufLength) rv with
      | .inl rv => return Int32.ofNat rv
      | .inr rv => strIndexLoop heap c str fuel frag.next rv

/-- `protobuf_c_data_buffer_str_index_of`; the string has a first byte. -/
def dataBufferStrIndexOf (heap : FragmentHeap) (buffer : DataBuffer) (c : UInt8) (str : List UInt8) :
    Except Fault Int32 :=
  strIndexLoop heap c str (heap.fuel + 1) buffer.firstFrag 0

/-! ## What is looked at -/

/-- The bytes from an index on, as the loops read them. -/
def bytesRead : List Fragment → ℕ → List UInt8
  | [], _ => []
  | frag :: frags, p =>
      if p < frag.bufLength then (frag.data.take frag.bufLength).drop p ++ fragmentBytes frags
      else bytesRead frags (p - frag.bufLength)

/-- No byte is negative as a `char`. -/
def Ascii (str : List UInt8) : Prop := ∀ c ∈ str, c < 128

/-- `str` stands at the front, as the comparisons see it. -/
def Sees (str bytes : List UInt8) : Prop := Ascii str ∧ str <+: bytes

theorem charMatches_iff (c b : UInt8) : charMatches c b = true ↔ c < 128 ∧ c = b := by
  have hsigned : c.toInt8.toInt = if 2 * c.toNat < 2 ^ 8 then (c.toNat : ℤ) else c.toNat - 2 ^ 8 :=
    BitVec.toInt_eq_toNat_cond c.toBitVec
  have hc := c.toNat_lt
  have hb := b.toNat_lt
  unfold charMatches
  rw [beq_iff_eq, UInt8.lt_iff_toNat_lt, ← UInt8.toNat_inj, hsigned]
  change _ ↔ c.toNat < 128 ∧ _
  split
  · omega
  · omega

/-! ## The loops -/

theorem sees_nil (bytes : List UInt8) : Sees [] bytes :=
  ⟨fun _ hc => absurd hc List.not_mem_nil, List.nil_prefix⟩

theorem sees_cons {c b : UInt8} {str bytes : List UInt8} :
    Sees (c :: str) (b :: bytes) ↔ charMatches c b = true ∧ Sees str bytes := by
  unfold Sees Ascii
  rw [charMatches_iff, List.forall_mem_cons, List.cons_prefix_cons]
  tauto

theorem not_sees_nil {c : UInt8} {str : List UInt8} : ¬ Sees (c :: str) [] :=
  fun h => absurd (List.prefix_nil.mp h.2) (by simp)

section
variable {heap : FragmentHeap} {zs : List (ℕ × Fragment)}

theorem strMatches_spec (fuel : ℕ) (str bytes : List UInt8) {next : Option ℕ}
    (hchain : Chain Fragment.next heap.get next zs none) (hfuel : zs.length ≤ fuel) :
    ∃ found, strMatches heap fuel str bytes next = .ok found ∧
      (found = true ↔ Sees str (bytes ++ contents zs)) := by
  induction zs generalizing fuel str bytes next with
  | nil =>
    obtain rfl : next = none := hchain
    induction str generalizing bytes with
    | nil => exact ⟨true, by rw [strMatches], iff_of_true rfl (sees_nil _)⟩
    | cons c str ih =>
      cases bytes with
      | nil => exact ⟨false, by rw [strMatches], iff_of_false (by simp) not_sees_nil⟩
      | cons b bytes =>
        rw [strMatches, List.cons_append, sees_cons]
        cases hc : charMatches c b with
        | false => exact ⟨false, by rw [if_neg (by simp)], by simp⟩
        | true =>
          obtain ⟨found, hrun, hfound⟩ := ih bytes
          exact ⟨found, by rw [if_pos rfl, hrun], by rw [hfound]; simp⟩
  | cons y zs ihz =>
    obtain ⟨i, frag⟩ := y
    obtain ⟨hnext, hget, hrest⟩ := hchain
    obtain rfl : next = some i := hnext
    obtain ⟨fuel, rfl⟩ : ∃ n, fuel = n + 1 := ⟨fuel - 1, by simp at hfuel; omega⟩
    induction str generalizing bytes with
    | nil => exact ⟨true, by rw [strMatches], iff_of_true rfl (sees_nil _)⟩
    | cons c str ih =>
      cases bytes with
      | nil =>
        -- the next fragment
        obtain ⟨found, hrun, hfound⟩ := ihz fuel (c :: str) frag.bytes hrest (by simpa using hfuel)
        refine ⟨found, ?_, hfound⟩
        rw [strMatches, FragmentHeap.load_ok hget]
        exact hrun
      | cons b bytes =>
        rw [strMatches, List.cons_append, sees_cons]
        cases hc : charMatches c b with
        | false => exact ⟨false, by rw [if_neg (by simp)], by simp⟩
        | true =>
          obtain ⟨found, hrun, hfound⟩ := ih bytes
          exact ⟨found, by rw [if_pos rfl, hrun], by rw [hfound]; simp⟩

/-- Where the string is first seen in the bytes of a fragment, with what follows the fragment. -/
def FirstSeen (str bytes rest : List UInt8) (p : ℕ) : Prop :=
  p < bytes.length ∧ Sees str (bytes.drop p ++ rest) ∧ ∀ q < p, ¬ Sees str (bytes.drop q ++ rest)

theorem strIndexFragment_spec (c : UInt8) (str : List UInt8) {next : Option ℕ}
    (hchain : Chain Fragment.next heap.get next zs none) (hfuel : zs.length ≤ heap.fuel)
    (bytes : List UInt8) (rv : ℕ) :
    ∃ r, strIndexFragment heap c str next bytes rv = .ok r ∧
      ((∃ p, r = .inl (rv + p) ∧ FirstSeen (c :: str) bytes (contents zs) p) ∨
        r = .inr (rv + bytes.length) ∧
          ∀ p < bytes.length, ¬ Sees (c :: str) (bytes.drop p ++ contents zs)) := by
  induction bytes generalizing rv with
  | nil => exact ⟨.inr rv, rfl, .inr ⟨rfl, fun p hp => absurd hp (by simp)⟩⟩
  | cons b bytes ih =>
    obtain ⟨found, hrun, hfound⟩ :=
      strMatches_spec (heap.fuel + 1) str bytes hchain (Nat.le_succ_of_le hfuel)
    have hhead : Sees (c :: str) ((b :: bytes).drop 0 ++ contents zs) ↔
        charMatches c b = true ∧ found = true := by
      rw [List.drop_zero, List.cons_append, sees_cons, hfound]
    by_cases hhere : charMatches c b = true ∧ found = true
    · refine ⟨.inl rv, ?_, .inl ⟨0, rfl, by simp, hhead.mpr hhere, fun q hq => absurd hq (by omega)⟩⟩
      rw [strIndexFragment, if_pos hhere.1, hrun, hhere.2]
      rfl
    · -- not here: one byte further on
      have hnext : strIndexFragment heap c str next (b :: bytes) rv =
          strIndexFragment heap c str next bytes (rv + 1) := by
        rw [strIndexFragment]
        cases hc : charMatches c b with
        | false => rw [if_neg (by simp)]
        | true =>
          have hnot : found = false := by
            cases found with
            | false => rfl
            | true => exact absurd ⟨hc, rfl⟩ hhere
          rw [if_pos rfl, hrun, hnot]
          rfl
      have hnone := mt hhead.mp hhere
      obtain ⟨r, hr, hcase⟩ := ih (rv + 1)
      refine ⟨r, hnext.trans hr, ?_⟩
      obtain ⟨p, hp, hlt, hsees, hbefore⟩ | ⟨hp, hall⟩ := hcase
      · refine .inl ⟨p + 1, by rw [hp]; congr 1; omega, by simpa using hlt, hsees, fun q hq => ?_⟩
        cases q with
        | zero => exact hnone
        | succ q => exact hbefore q (by omega)
      · refine .inr ⟨by rw [hp]; congr 1; simp; omega, fun q hq => ?_⟩
        cases q with
        | zero => exact hnone
        | succ q => exact hall q (by simpa using hq)

end

theorem bytesRead_nil_of_le {frags : List Fragment} {p : ℕ}
    (hvalid : ∀ frag ∈ frags, frag.Valid) (hp : (fragmentBytes frags).length ≤ p) :
    bytesRead frags p = [] := by
  induction frags generalizing p with
  | nil => rfl
  | cons frag frags ih =>
    have hlen := (hvalid frag (by simp)).length_bytes
    rw [fragmentBytes_cons, List.length_append] at hp
    rw [bytesRead, if_neg (by omega)]
    exact ih (fun f hf => hvalid f (by simp [hf])) (by omega)

/-- The search reports the first index from which on the string is seen. -/
theorem strIndexLoop_spec {heap : FragmentHeap} (c : UInt8) (str : List UInt8)
    {zs : List (ℕ × Fragment)} (fuel : ℕ) {p : Option ℕ} (rv : ℕ)
    (hchain : Chain Fragment.next heap.get p zs none) (hvalid : ∀ z ∈ zs, z.2.Valid)
    (hheap : zs.length ≤ heap.fuel) (hfuel : zs.length ≤ fuel) :
    ∃ r, strIndexLoop heap c str fuel p rv = .ok r ∧
      ((∃ q, r = Int32.ofNat (rv + q) ∧ Sees (c :: str) (bytesRead (zs.map Prod.snd) q) ∧
        ∀ q' < q, ¬ Sees (c :: str) (bytesRead (zs.map Prod.snd) q')) ∨
      r = -1 ∧ ∀ q, ¬ Sees (c :: str) (bytesRead (zs.map Prod.snd) q)) := by
  induction zs generalizing fuel p rv with
  | nil =>
    obtain rfl : p = none := hchain
    refine ⟨-1, ?_, .inr ⟨rfl, fun q => not_sees_nil⟩⟩
    cases fuel with
    | zero => rfl
    | succ fuel => rfl
  | cons y zs ih =>
    obtain ⟨i, frag⟩ := y
    obtain ⟨hp, hget, hrest⟩ := hchain
    obtain rfl : p = some i := hp
    obtain ⟨fuel, rfl⟩ : ∃ n, fuel = n + 1 := ⟨fuel - 1, by simp at hfuel; omega⟩
    have hv := hvalid (i, frag) List.mem_cons_self
    have hlen : (frag.data.take frag.bufLength).length = frag.bufLength := by
      have hdata : frag.data.length = fragmentDataSize := hv.data
      have hrange : frag.bufStart + frag.bufLength ≤ fragmentDataSize := hv.range
      rw [List.length_take]
      omega
    have hread : ∀ q, bytesRead (((i, frag) :: zs).map Prod.snd) q =
        if q < frag.bufLength then (frag.data.take frag.bufLength).drop q ++ contents zs
        else bytesRead (zs.map Prod.snd) (q - frag.bufLength) := by
      intro q
      rw [List.map_cons, bytesRead, fragmentBytes_eq]
    obtain ⟨r, hr, hcase⟩ := strIndexFragment_spec c str hrest
      (Nat.le_of_succ_le (by simpa using hheap)) (frag.data.take frag.bufLength) rv
    rw [strIndexLoop, FragmentHeap.load_ok hget]
    simp only [except_ok_bind, hr]
    obtain ⟨q, rfl, hlt, hsees, hbefore⟩ | ⟨rfl, hall⟩ := hcase
    · rw [hlen] at hlt
      refine ⟨_, rfl, .inl ⟨q, rfl, ?_, fun q' hq' => ?_⟩⟩
      · rw [hread, if_pos hlt]
        exact hsees
      · rw [hread, if_pos (by omega)]
        exact hbefore q' hq'
    · rw [hlen] at hall ⊢
      obtain ⟨r, hloop, hcase⟩ := ih fuel (rv + frag.bufLength) hrest
        (fun z hz => hvalid z (List.mem_cons_of_mem _ hz)) (Nat.le_of_succ_le (by simpa using hheap))
        (by simpa using hfuel)
      have hhere : ∀ q < frag.bufLength,
          ¬ Sees (c :: str) (bytesRead (((i, frag) :: zs).map Prod.snd) q) := by
        intro q hq
        rw [hread, if_pos hq]
        exact hall q hq
      refine ⟨r, hloop, ?_⟩
      obtain ⟨q, rfl, hsees, hbefore⟩ | ⟨rfl, hnone⟩ := hcase
      · refine .inl ⟨frag.bufLength + q, by rw [Nat.add_assoc], ?_, fun q' hq' => ?_⟩
        · rw [hread, if_neg (by omega), Nat.add_sub_cancel_left]
          exact hsees
        · by_cases hin : q' < frag.bufLength
          · exact hhere q' hin
          · rw [hread, if_neg hin]
            exact hbefore _ (by omega)
      · refine .inr ⟨rfl, fun q => ?_⟩
        by_cases hin : q < frag.bufLength
        · exact hhere q hin
        · rw [hread, if_neg hin]
          exact hnone _

/-! ## The index of a string -/

/-- What the search should report: the first index at which the string occurs, or -1. -/
def IsStrIndex (str bytes : List UInt8) (r : Int32) : Prop :=
  (∃ p, r = Int32.ofNat p ∧ str <+: bytes.drop p ∧ ∀ q < p, ¬ str <+: bytes.drop q) ∨
    r = -1 ∧ ∀ p, ¬ str <+: bytes.drop p

/-- The bytes in front of `buf_start` do not mislead the search: where the string occurs first, it has
no byte above 127, and, read from the start of the data, it stands there too and not before; where it
does not occur and has no byte above 127, it does not stand anywhere there. -/
def NotMisled (str : List UInt8) (xs : List (ℕ × Fragment)) : Prop :=
  (∀ p, str <+: (contents xs).drop p → (∀ q < p, ¬ str <+: (contents xs).drop q) →
    Ascii str ∧ str <+: bytesRead (xs.map Prod.snd) p ∧
      ∀ q < p, ¬ str <+: bytesRead (xs.map Prod.snd) q) ∧
  ((∀ p, ¬ str <+: (contents xs).drop p) → Ascii str →
    ∀ p, ¬ str <+: bytesRead (xs.map Prod.snd) p)

theorem prefix_lt {c : UInt8} {str bytes : List UInt8} {p : ℕ} (h : c :: str <+: bytes.drop p) :
    p < bytes.length := by
  by_contra hge
  rw [List.drop_of_length_le (by omega)] at h
  exact absurd (List.prefix_nil.mp h) (by simp)

theorem ofNat_int32_inj {p q : ℕ} (hp : p < 2 ^ 31) (hq : q < 2 ^ 31)
    (h : Int32.ofNat p = Int32.ofNat q) : p = q := by
  have hint := congrArg Int32.toInt h
  rw [int32_ofNat_toInt hp, int32_ofNat_toInt hq] at hint
  exact Int.ofNat_inj.mp hint

theorem ofNat_int32_ne {p : ℕ} (hp : p < 2 ^ 31) : Int32.ofNat p ≠ -1 := by
  intro h
  have hint := congrArg Int32.toInt h
  rw [int32_ofNat_toInt hp, show (-1 : Int32).toInt = -1 from rfl] at hint
  omega

/-- The search for a string is right exactly when it is not misled. -/
theorem strIndexOf_exact_iff (heap : FragmentHeap) (buffer : DataBuffer) (xs : List (ℕ × Fragment))
    (c : UInt8) (str : List UInt8) (hbuffer : IsBuffer heap buffer xs)
    (hsmall : (contents xs).length < 2 ^ 31) :
    (∃ r, dataBufferStrIndexOf heap buffer c str = .ok r ∧ IsStrIndex (c :: str) (contents xs) r) ↔
      NotMisled (c :: str) xs := by
  have hlength := hbuffer.toIsChain.length_le
  have hread : ∀ p, c :: str <+: bytesRead (xs.map Prod.snd) p → p < 2 ^ 31 := by
    intro p hp
    by_contra hge
    rw [bytesRead_nil_of_le hbuffer.toIsChain.valid_map (by rw [fragmentBytes_eq]; omega)] at hp
    exact absurd (List.prefix_nil.mp hp) (by simp)
  obtain ⟨r, hr, hcase⟩ := strIndexLoop_spec c str (heap.fuel + 1) 0 hbuffer.chain
    hbuffer.valid hlength (Nat.le_succ_of_le hlength)
  simp only [Nat.zero_add] at hcase
  constructor
  · intro h
    obtain ⟨r', hr', hexact⟩ := h
    obtain rfl : r = r' := Except.ok.inj (hr.symm.trans hr')
    refine ⟨fun p hp hfirst => ?_, fun hnone hascii p hp => ?_⟩
    · -- the string occurs, so that an index was reported
      have hrp : r = Int32.ofNat p := by
        obtain ⟨q, hq, hoccurs, hbefore⟩ | ⟨-, hnone⟩ := hexact
        · obtain hlt | rfl | hgt := lt_trichotomy p q
          · exact absurd hp (hbefore p hlt)
          · exact hq
          · exact absurd hoccurs (hfirst q hgt)
        · exact absurd hp (hnone p)
      have hplt := prefix_lt hp
      obtain ⟨q, hq, hsees, hbefore⟩ | ⟨hq, -⟩ := hcase
      · obtain rfl : p = q := ofNat_int32_inj (by omega) (hread q hsees.2) (hrp.symm.trans hq)
        exact ⟨hsees.1, hsees.2, fun q hq hread => hbefore q hq ⟨hsees.1, hread⟩⟩
      · exact absurd (hrp.symm.trans hq) (ofNat_int32_ne (by omega))
    · obtain ⟨q, hq, hoccurs, -⟩ | ⟨hq, -⟩ := hexact
      · exact hnone q hoccurs
      · obtain ⟨q, hq', hsees, -⟩ | ⟨-, hnot⟩ := hcase
        · exact ofNat_int32_ne (hread q hsees.2) (hq'.symm.trans hq)
        · exact hnot p ⟨hascii, hp⟩
  · intro h
    refine ⟨r, hr, ?_⟩
    by_cases hoccurs : ∃ p, c :: str <+: (contents xs).drop p
    · obtain ⟨p, hp, hfirst⟩ : ∃ p, c :: str <+: (contents xs).drop p ∧
          ∀ q < p, ¬ c :: str <+: (contents xs).drop q :=
        ⟨Nat.find hoccurs, Nat.find_spec hoccurs, fun q hq => Nat.find_min hoccurs hq⟩
      obtain ⟨hascii, hhere, hnot⟩ := h.1 p hp hfirst
      obtain ⟨q, hq, hsees, hbefore⟩ | ⟨-, hnone⟩ := hcase
      · obtain hlt | rfl | hgt := lt_trichotomy p q
        · exact absurd ⟨hascii, hhere⟩ (hbefore p hlt)
        · exact .inl ⟨p, hq, hp, hfirst⟩
        · exact absurd hsees.2 (hnot q hgt)
      · exact absurd ⟨hascii, hhere⟩ (hnone p)
    · push Not at hoccurs
      obtain ⟨q, hq, hsees, -⟩ | ⟨hq, -⟩ := hcase
      · exact absurd hsees.2 (h.2 hoccurs hsees.1 q)
      · exact .inr ⟨hq, hoccurs⟩

/-- A buffer of one fragment. -/
def oneFragment (bufStart bufLength : ℕ) (data : List UInt8) : Fragment :=
  ⟨none, bufStart, bufLength, data ++ List.replicate (fragmentDataSize - data.length) 0⟩

/-- A fragment from which the first bytes were removed. -/
def readFragment (next : Option ℕ) (removed bytes : List UInt8) : Fragment :=
  ⟨next, removed.length, bytes.length,
    removed ++ (bytes ++ List.replicate (fragmentDataSize - (removed.length + bytes.length)) 0)⟩

section
variable {next : Option ℕ} {removed bytes : List UInt8}

theorem readFragment_valid (h : removed.length + bytes.length ≤ fragmentDataSize) :
    (readFragment next removed bytes).Valid := by
  refine ⟨?_, h⟩
  unfold readFragment
  simp only [List.length_append, List.length_replicate]
  omega

theorem readFragment_bytes : (readFragment next removed bytes).bytes = bytes := by
  unfold Fragment.bytes readFragment
  rw [List.drop_left' rfl, List.take_left' rfl]

end

/-- The bytes 65 to 68 in three fragments, of which the outer ones have lost a byte. -/
def splitFragments : List (ℕ × Fragment) :=
  [(0, readFragment (some 1) [90] [65, 66]), (1, readFragment (some 2) [] [67]),
    (2, readFragment none [91] [68])]

theorem contents_splitFragments : contents splitFragments = [65, 66, 67, 68] := by
  unfold splitFragments
  simp only [contents_cons, contents_nil, readFragment_bytes]
  rfl

theorem splitFragments_buffer : IsBuffer ⟨splitFragments.map fun x => some x.2⟩ ⟨4, some 0, some 2⟩
    splitFragments := by
  refine ⟨⟨⟨rfl, rfl, rfl, rfl, rfl, rfl, rfl⟩, rfl, fun x hx => ?_⟩,
    by rw [contents_splitFragments]; rfl⟩
  simp only [splitFragments, List.mem_cons, List.not_mem_nil, or_false] at hx
  obtain rfl | rfl | rfl := hx <;> exact readFragment_valid (by decide)

/-- The search reads a removed byte in place of the second one left. -/
theorem bytesRead_splitFragments :
    bytesRead (splitFragments.map Prod.snd) 0 = [90, 65, 67, 68] ∧
      bytesRead (splitFragments.map Prod.snd) 1 = [65, 67, 68] ∧
      bytesRead (splitFragments.map Prod.snd) 2 = [67, 68] := ⟨rfl, rfl, rfl⟩

/-- A string is found that starts in one fragment and ends in the next. -/
theorem strIndexOf_exact_split : ∃ r, dataBufferStrIndexOf ⟨splitFragments.map fun x => some x.2⟩
    ⟨4, some 0, some 2⟩ 67 [68] = .ok r ∧ IsStrIndex [67, 68] (contents splitFragments) r := by
  have hat : ∀ {p}, [67, 68] <+: (contents splitFragments).drop p → p = 2 := by
    intro p hp
    rw [contents_splitFragments] at hp
    have hlt : p < 4 := prefix_lt hp
    interval_cases p <;> first
      | rfl
      | exact absurd hp (by decide)
  refine (strIndexOf_exact_iff _ _ _ 67 [68] splitFragments_buffer ?_).mpr
    ⟨fun p hp _ => ?_, fun hnone => ?_⟩
  · rw [contents_splitFragments]
    decide
  · obtain rfl := hat hp
    obtain ⟨hzero, hone, htwo⟩ := bytesRead_splitFragments
    refine ⟨fun c hc => ?_, by rw [htwo], fun q hq => ?_⟩
    · simp only [List.mem_cons, List.not_mem_nil, or_false] at hc
      obtain rfl | rfl := hc <;> decide
    · interval_cases q
      · rw [hzero]
        decide
      · rw [hone]
        decide
  · refine absurd ?_ (hnone 2)
    rw [contents_splitFragments]
    decide

/-- A byte that was removed is found; a byte above 127 is not. -/
theorem strIndexOf_fails :
    (dataBufferStrIndexOf ⟨[some (oneFragment 1 1 [65, 66])]⟩ ⟨1, some 0, some 0⟩ 65 [] = .ok 0 ∧
      ¬ IsStrIndex [65] (contents [(0, oneFragment 1 1 [65, 66])]) 0) ∧
    dataBufferStrIndexOf ⟨[some (oneFragment 0 1 [200])]⟩ ⟨1, some 0, some 0⟩ 200 [] = .ok (-1) ∧
      ¬ IsStrIndex [200] (contents [(0, oneFragment 0 1 [200])]) (-1) := by
  have hremoved : (oneFragment 1 1 [65, 66]).data.take 1 = [65] := rfl
  refine ⟨⟨?_, fun h => ?_⟩, rfl, fun h => ?_⟩
  · have hload : FragmentHeap.load ⟨[some (oneFragment 1 1 [65, 66])]⟩ 0 =
        .ok (oneFragment 1 1 [65, 66]) := rfl
    rw [dataBufferStrIndexOf, strIndexLoop, hload]
    simp only [except_ok_bind]
    rw [show (oneFragment 1 1 [65, 66]).bufLength = 1 from rfl, hremoved, strIndexFragment,
      if_pos (by decide), strMatches]
    rfl
  · obtain ⟨p, hp, hoccurs, -⟩ | ⟨hneg, -⟩ := h
    · have hbytes : contents [(0, oneFragment 1 1 [65, 66])] = [66] := rfl
      rw [hbytes] at hoccurs
      have hlt := prefix_lt hoccurs
      obtain rfl : p = 0 := by simpa using hlt
      exact absurd hoccurs (by decide)
    · exact absurd hneg (by decide)
  · obtain ⟨p, hp, hoccurs, -⟩ | ⟨-, hnone⟩ := h
    · have hlt := prefix_lt hoccurs
      have hbytes : contents [(0, oneFragment 0 1 [200])] = [200] := rfl
      rw [hbytes] at hlt
      obtain rfl : p = 0 := by simpa using hlt
      exact absurd hp (by decide)
    · refine hnone 0 ?_
      have hbytes : contents [(0, oneFragment 0 1 [200])] = [200] := rfl
      rw [hbytes]
      exact List.prefix_refl _

end ProtobufC
