import ProtobufC.Wire.ScanRecords
import ProtobufC.Wire.UnpackRuns

/-! # Ranges of the input

The scan stores a pointer into the input and two lengths for every record.  They describe ranges of the
input as long as no length prefix wraps around; behind a wrapped prefix the length of the payload is
smaller than that of its prefix, and the difference is huge.
-/

namespace ProtobufC
open Library
set_option autoImplicit false

variable {σ : Type}

/-- The scanned member describes a range of the input, and so does what is left of it behind the
length prefix, in `unsigned` and in `size_t`. -/
structure ScannedMember.InRange (data : List UInt8) (tmp : ScannedMember) : Prop where
  pointer : tmp.data <:+ data
  inside : tmp.Inside
  unsigned : unsignedSub tmp.len tmp.lengthPrefixLen = tmp.len - tmp.lengthPrefixLen
  size : sizeSub tmp.len tmp.lengthPrefixLen = tmp.len - tmp.lengthPrefixLen
  body : tmp.len - tmp.lengthPrefixLen ≤ (tmp.data.drop tmp.lengthPrefixLen).length

theorem ScannedMember.inRange_iff {data : List UInt8} (hlen : data.length < 2 ^ 32)
    {tmp : ScannedMember} (hdata : tmp.data <:+ data) : tmp.InRange data ↔ tmp.Inside := by
  refine ⟨fun h => h.inside, fun h => ?_⟩
  obtain ⟨hin, hpre⟩ := h
  have hle := hdata.length_le
  refine ⟨hdata, ⟨hin, hpre⟩, unsignedSub_of_le hpre (by omega), sizeSub_of_le hpre (by omega), ?_⟩
  rw [List.length_drop]
  omega

/-- The scan of the input returns, and stores ranges of the input only. -/
def ScanInRange (H : HeapAllocator σ) (desc : MessageDescriptor) (data : List UInt8) (s : σ) : Prop :=
  ∃ r s', scanLoop H.toAllocator desc data.length (ScanState.start desc data) s = .ok (r, s') ∧
    ∀ tmp ∈ r.1.members, tmp.InRange data

/-- The ranges are in the input exactly when the scan comes to no wrapped length prefix; and where no
call for a sub-message comes to one either, nothing outside the input is read. -/
theorem messageUnpack_inRange (H : HeapAllocator σ) (hinf : H.Infallible) (S : Schema)
    (d : DescriptorId) (data : List UInt8) (hlen : data.length < 2 ^ 31) (s : σ) :
    (ScanInRange H (S.desc d) data s ↔ ∀ rest, Reaches (S.desc d) data rest → ¬ Wrapped rest) ∧
      (Safe S d data → ∃ p s', messageUnpack H.toAllocator S d data s = .ok (p, s')) := by
  have hgen := S.generated d
  have hnil : (ScanState.start (S.desc d) data).members = [] := rfl
  have hscan : ∀ {P : Prop}, (P → ∀ rest, Reaches (S.desc d) data rest → ¬ Wrapped rest) →
      Meets (Excused P) (scanLoop H.toAllocator (S.desc d) data.length
        (ScanState.start (S.desc d) data)) s (ScanResult H (S.desc d) data []
          (ScanState.start (S.desc d) data) (H.live s) s) := by
    intro P hP
    refine meets_scanLoop hgen le_rfl (scanned_start hgen data) ?_ ?_ fun hp => ⟨hinf.2, ?_, ?_⟩
    · intro _ slab hslab
      simp [ScanState.start] at hslab
    · simp [ScanState.start, slabBlocks]
    · simp only [List.length_nil, ScanState.start]
      omega
    · exact fun rest hrest hwrap => absurd hwrap (hP hp rest hrest)
  refine ⟨⟨?_, fun hplain => ?_⟩, fun hsafe => ?_⟩
  · rintro ⟨r, s', hrun, hmem⟩
    have hres := (hscan (P := False) False.elim).post hrun
    obtain ⟨ms, hms, -, -, hback⟩ := hres.stores
    rw [hms, hnil, List.nil_append] at hmem
    rcases hback fun tmp htmp => (hmem tmp htmp).inside with hfail | hlong | hplain
    · exact absurd hinf hfail.2
    · have hlong : 2 ^ 32 ≤ data.length := hlong
      omega
    · exact hplain
  · obtain ⟨r, s', hrun, hres⟩ := (hscan fun _ : True => hplain).total fun e he => he.2 trivial
    obtain ⟨ms, hms, hfield, hinside, -⟩ := hres.stores
    refine ⟨r, s', hrun, fun tmp htmp => ?_⟩
    rw [hms, hnil, List.nil_append] at htmp
    have hsuffix : tmp.data <:+ data := (hfield tmp htmp).2
    exact (ScannedMember.inRange_iff (by omega) hsuffix).mpr (hinside hplain tmp htmp)
  · obtain ⟨p, s', hrun, -⟩ := messageUnpack_total s hinf (by omega) hsafe
    exact ⟨p, s', hrun⟩

/-- `messageUnpack_inRange` on an input with length prefixes at two levels. -/
theorem messageUnpack_inRange_nested :
    ScanInRange countingHeap (nestedSchema.desc 0) nestedBytes (0, []) := by
  have hdec := messageUnpack_decode messageUnpack_nestedBytes
  obtain ⟨_, _, hhere, -⟩ := safe_of_decode (0, nestedBytes) _ hdec (by decide)
  exact (messageUnpack_inRange countingHeap countingHeap_infallible nestedSchema 0 nestedBytes (by decide)
    (0, [])).1.mpr hhere

/-- One `repeated int32` field with number 1. -/
def repeatedInt32Schema : Schema :=
  Schema.uniform [.scalar .repeated .int32 1]
    (by simpa using FieldDescriptor.generated_scalar (by decide) (by decide)) (by simp)

/-- A prefix of `2 ^ 32 - 1` is taken for four bytes, and the elements behind it are counted beyond the
end of the input. -/
theorem scanInRange_fails :
    ¬ ScanInRange countingHeap (repeatedInt32Schema.desc 0) [10, 255, 255, 255, 255, 15] (0, []) := by
  rintro ⟨r, s', hrun, -⟩
  have hfault : scanLoop countingHeap.toAllocator (repeatedInt32Schema.desc 0) 6
      (ScanState.start (repeatedInt32Schema.desc 0) [10, 255, 255, 255, 255, 15]) (0, []) =
        .error .access := by rfl
  exact absurd (hfault.symm.trans hrun) (by simp)

end ProtobufC
