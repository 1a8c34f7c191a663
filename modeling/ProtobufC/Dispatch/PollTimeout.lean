import ProtobufC.Dispatch.Timers
import ProtobufC.Library.CheckedInt
import ProtobufC.Library.MachineInt

/-! # How long the dispatcher waits

The timeout that `protobuf_c_dispatch_run` hands to `poll`.  The distance to the deadline is narrowed to
`int` before anything looks at its size, and the clamp looks at the seconds only.
-/

namespace ProtobufC
open Library
set_option autoImplicit false

/-! ## The computation -/

/-- `if (du < 0) { du += 1000000; ds -= 1; }` -/
def borrowSecond (du ds : Int32) : Option (Int32 × Int32) :=
  if du < 0 then do return (← checkedAdd du 1000000, ← checkedSub ds 1) else some (du, ds)

/-- From `if (ds > INT_MAX / 1000)` on. -/
def clampTimeout (du ds : Int32) : Option Int32 :=
  if ds > Int32.maxValue / 1000 then some (Int32.maxValue / 1000 * 1000)
  else do checkedAdd (← checkedMul ds 1000) ((← checkedAdd du 999) / 1000)

/-- The timeout of `protobuf_c_dispatch_run`, where `gettimeofday` reports `tvSec` and `tvUsec`; nothing
where an operation on `int` overflows. -/
def pollTimeout (d : DispatchTimers) (tvSec tvUsec : Int64) : Option Int32 :=
  if d.hasIdle then some 0
  else if !d.hasTimeout then some (-1)
  else if d.timeoutSecs < tvSec.toUInt64 ∨
      (d.timeoutSecs = tvSec.toUInt64 ∧ d.timeoutUsecs ≤ tvUsec.toUInt64.toUInt32) then some 0
  else do
    let du := (d.timeoutUsecs.toUInt64.toInt64 - tvUsec).toInt32
    let ds := (d.timeoutSecs - tvSec.toUInt64).toUInt32.toInt32
    let r ← borrowSecond du ds
    clampTimeout r.1 r.2

/-! ## The statement -/

/-- The time from now to the deadline, in microseconds. -/
def remainingUsecs (d : DispatchTimers) (tvSec tvUsec : Int64) : ℤ :=
  d.timeoutSecs.toNat * 1000000 + d.timeoutUsecs.toNat - (tvSec.toInt * 1000000 + tvUsec.toInt)

/-- A timeout in milliseconds is right for a time in microseconds. -/
structure TimeoutRight (remaining timeout : ℤ) : Prop where
  passed : remaining ≤ 0 → timeout = 0
  positive : 0 < remaining → 1 ≤ timeout ∧ timeout ≤ 2147483647
  atMost : 0 < remaining → timeout * 1000 ≤ remaining + 1000
  atLeast : 0 < remaining → remaining ≤ 2147483000 * 1000 → remaining ≤ timeout * 1000
  clamped : 2147483000 * 1000 < remaining → remaining ≤ timeout * 1000 ∨ 2147483000 ≤ timeout

def PollTimeoutRight (d : DispatchTimers) (tvSec tvUsec : Int64) : Prop :=
  ∃ timeout, pollTimeout d tvSec tvUsec = some timeout ∧
    TimeoutRight (remainingUsecs d tvSec tvUsec) timeout.toInt

/-! ## The parts -/

/-- The borrow normalises the two differences, if there is a second to borrow. -/
theorem borrowSecond_spec {du ds : Int32} (hlow : -1000000 < du.toInt) (hhigh : du.toInt < 1000000)
    (hds : -2 ^ 31 < ds.toInt ∨ 0 ≤ du.toInt) :
    ∃ r, borrowSecond du ds = some r ∧ 0 ≤ r.1.toInt ∧ r.1.toInt < 1000000 ∧
      r.2.toInt * 1000000 + r.1.toInt = ds.toInt * 1000000 + du.toInt := by
  have hds' := ds.le_toInt
  have hds'' := ds.toInt_lt
  unfold borrowSecond
  by_cases hneg : du < 0
  · have hneg' : du.toInt < 0 := by simpa using Int32.lt_iff_toInt_lt.mp hneg
    have hmillion : (1000000 : Int32).toInt = 1000000 := rfl
    have hone : (1 : Int32).toInt = 1 := rfl
    obtain ⟨u, hu, hu'⟩ := checked_fits (n := du.toInt + (1000000 : Int32).toInt)
      (by rw [hmillion]; omega) (by rw [hmillion]; omega)
    obtain ⟨s, hs, hs'⟩ := checked_fits (n := ds.toInt - (1 : Int32).toInt)
      (by rw [hone]; omega) (by rw [hone]; omega)
    rw [hmillion] at hu'
    rw [hone] at hs'
    refine ⟨(u, s), ?_, ?_, ?_, ?_⟩
    · rw [if_pos hneg, checkedAdd, hu, checkedSub, hs]
      rfl
    · simp only
      omega
    · simp only
      omega
    · simp only
      omega
  · have hneg' : 0 ≤ du.toInt := by simpa using fun h => hneg (Int32.lt_iff_toInt_lt.mpr h)
    exact ⟨(du, ds), if_neg hneg, hneg', hhigh, rfl⟩

theorem borrowSecond_overflow {du ds : Int32} (hneg : du.toInt < 0) (hds : ds.toInt = -2 ^ 31) :
    borrowSecond du ds = none := by
  have hone : (1 : Int32).toInt = 1 := rfl
  have hsub : checkedSub ds 1 = none := checked_overflow (by rw [hone, hds]; norm_num)
  unfold borrowSecond
  rw [if_pos (Int32.lt_iff_toInt_lt.mpr hneg), hsub]
  cases checkedAdd du 1000000 <;> rfl

theorem clampTimeout_spec {du ds : Int32} (hlow : 0 ≤ du.toInt) (hhigh : du.toInt < 1000000)
    (hds : 0 ≤ ds.toInt) :
    (2147483 < ds.toInt ∧ clampTimeout du ds = some 2147483000) ∨
    (ds.toInt ≤ 2147483 ∧ 2147483647 < ds.toInt * 1000 + (du.toInt + 999) / 1000 ∧
      clampTimeout du ds = none) ∨
    ∃ timeout, ds.toInt ≤ 2147483 ∧ clampTimeout du ds = some timeout ∧
      timeout.toInt = ds.toInt * 1000 + (du.toInt + 999) / 1000 := by
  have hbound : (Int32.maxValue / 1000).toInt = 2147483 := rfl
  have hthousand : (1000 : Int32).toInt = 1000 := rfl
  have hround : (999 : Int32).toInt = 999 := rfl
  unfold clampTimeout
  by_cases hclamp : ds > Int32.maxValue / 1000
  · have hclamp' := Int32.lt_iff_toInt_lt.mp hclamp
    rw [hbound] at hclamp'
    exact .inl ⟨hclamp', if_pos hclamp⟩
  · have hclamp' : ds.toInt ≤ 2147483 := by
      by_contra hlt
      exact hclamp (Int32.lt_iff_toInt_lt.mpr (by rw [hbound]; omega))
    right
    obtain ⟨secs, hsecs, hsecs'⟩ := checked_fits (n := ds.toInt * (1000 : Int32).toInt)
      (by rw [hthousand]; omega) (by rw [hthousand]; omega)
    obtain ⟨up, hup, hup'⟩ := checked_fits (n := du.toInt + (999 : Int32).toInt)
      (by rw [hround]; omega) (by rw [hround]; omega)
    have hmillis : (up / 1000).toInt = (du.toInt + 999) / 1000 := by
      rw [Int32.toInt_div_of_ne_right _ _ (by decide), hthousand, hup', hround,
        Int.tdiv_eq_ediv_of_nonneg (by omega)]
    have heq : clampTimeout du ds = checked (secs.toInt + (up / 1000).toInt) := by
      unfold clampTimeout
      rw [if_neg hclamp, checkedMul, hsecs, checkedAdd, hup]
      rfl
    unfold clampTimeout at heq
    rw [hthousand] at hsecs'
    rw [heq, hmillis, hsecs']
    by_cases hover : 2147483647 < ds.toInt * 1000 + (du.toInt + 999) / 1000
    · exact .inl ⟨hclamp', hover, checked_overflow (by omega)⟩
    · obtain ⟨timeout, ht, ht'⟩ := checked_fits (n := ds.toInt * 1000 + (du.toInt + 999) / 1000)
        (by omega) (by omega)
      exact .inr ⟨timeout, hclamp', ht, ht'⟩

/-- Narrowed to a negative number of seconds, the distance gives no positive timeout. -/
theorem clampTimeout_negative {du ds timeout : Int32} (hlow : 0 ≤ du.toInt)
    (hhigh : du.toInt < 1000000) (hds : ds.toInt < 0) (h : clampTimeout du ds = some timeout) :
    timeout.toInt ≤ 0 := by
  have hbound : (Int32.maxValue / 1000).toInt = 2147483 := rfl
  have hthousand : (1000 : Int32).toInt = 1000 := rfl
  have hround : (999 : Int32).toInt = 999 := rfl
  unfold clampTimeout at h
  rw [if_neg fun hclamp => by
    have hclamp' := Int32.lt_iff_toInt_lt.mp hclamp
    rw [hbound] at hclamp'
    omega] at h
  obtain ⟨secs, hsecs, h⟩ := Option.bind_eq_some_iff.mp h
  obtain ⟨up, hup, h⟩ := Option.bind_eq_some_iff.mp h
  have hsecs' := checked_eq_some.mp hsecs
  have hup' := checked_eq_some.mp hup
  have hmillis : (up / 1000).toInt = (du.toInt + 999) / 1000 := by
    rw [Int32.toInt_div_of_ne_right _ _ (by decide), hthousand, hup', hround,
      Int.tdiv_eq_ediv_of_nonneg (by omega)]
  have htimeout := checked_eq_some.mp h
  rw [hmillis, hsecs', hthousand] at htimeout
  omega

/-! ## The distance to the deadline -/

theorem uint32_toInt64_toInt (a : UInt32) : a.toUInt64.toInt64.toInt = a.toNat := by
  have ha := a.toNat_lt
  change a.toUInt64.toBitVec.toInt = _
  rw [BitVec.toInt_eq_toNat_bmod]
  change ((a.toUInt64.toNat : ℤ)).bmod (2 ^ 64) = _
  rw [UInt32.toNat_toUInt64, Int.bmod_eq_of_le (by omega) (by omega)]

section Distance
variable {d : DispatchTimers} {tvSec tvUsec : Int64}

/-- The clock shows a time whose seconds fit 32 bits, and the deadline came from
`protobuf_c_dispatch_add_timer`. -/
structure Clock (d : DispatchTimers) (tvSec tvUsec : Int64) : Prop where
  deadlineSecs : d.timeoutSecs.toNat < 2 ^ 32
  deadlineUsecs : d.timeoutUsecs.toNat < 1000000
  secsLow : 0 ≤ tvSec.toInt
  secs : tvSec.toInt < 2 ^ 32
  usecsLow : 0 ≤ tvUsec.toInt
  usecs : tvUsec.toInt < 1000000

theorem Clock.secs_toNat (h : Clock d tvSec tvUsec) : (tvSec.toUInt64.toNat : ℤ) = tvSec.toInt := by
  have hlow := h.secsLow
  have hhigh := h.secs
  rw [int64_toUInt64_toNat, Int.emod_eq_of_lt hlow (by omega)]

theorem Clock.usecs_toNat (h : Clock d tvSec tvUsec) :
    (tvUsec.toUInt64.toUInt32.toNat : ℤ) = tvUsec.toInt := by
  have hlow := h.usecsLow
  have hhigh := h.usecs
  have hwide := int64_toUInt64_toNat tvUsec
  rw [Int.emod_eq_of_lt hlow (by omega)] at hwide
  rw [UInt64.toNat_toUInt32]
  omega

theorem Clock.passed_iff (h : Clock d tvSec tvUsec) :
    (d.timeoutSecs < tvSec.toUInt64 ∨
      (d.timeoutSecs = tvSec.toUInt64 ∧ d.timeoutUsecs ≤ tvUsec.toUInt64.toUInt32)) ↔
        remainingUsecs d tvSec tvUsec ≤ 0 := by
  have hsecs := h.secs_toNat
  have husecs := h.usecs_toNat
  have hdeadline := h.deadlineUsecs
  have hlow := h.usecsLow
  have hhigh := h.usecs
  unfold remainingUsecs
  rw [UInt64.lt_iff_toNat_lt, ← UInt64.toNat_inj, UInt32.le_iff_toNat_le]
  omega

theorem Clock.du_toInt (h : Clock d tvSec tvUsec) :
    (d.timeoutUsecs.toUInt64.toInt64 - tvUsec).toInt32.toInt =
      d.timeoutUsecs.toNat - tvUsec.toInt := by
  have hdeadline := h.deadlineUsecs
  have hlow := h.usecsLow
  have hhigh := h.usecs
  rw [Int64.toInt_toInt32, Int64.toInt_sub, uint32_toInt64_toInt,
    Int.bmod_eq_of_le (n := d.timeoutUsecs.toNat - tvUsec.toInt) (by omega) (by omega),
    Int.bmod_eq_of_le (by omega) (by omega)]

theorem Clock.difference_toNat (h : Clock d tvSec tvUsec)
    (hle : tvSec.toInt ≤ d.timeoutSecs.toNat) :
    ((d.timeoutSecs - tvSec.toUInt64).toUInt32.toNat : ℤ) =
      d.timeoutSecs.toNat - tvSec.toInt := by
  have hsecs := h.secs_toNat
  have hdeadline := h.deadlineSecs
  have hlow := h.secsLow
  rw [UInt64.toNat_toUInt32, UInt64.toNat_sub]
  omega

theorem Clock.ds_near (h : Clock d tvSec tvUsec) (hle : tvSec.toInt ≤ d.timeoutSecs.toNat)
    (hnear : d.timeoutSecs.toNat - tvSec.toInt < 2 ^ 31) :
    (d.timeoutSecs - tvSec.toUInt64).toUInt32.toInt32.toInt =
      d.timeoutSecs.toNat - tvSec.toInt := by
  have hdiff := h.difference_toNat hle
  rw [uint32_toInt32_toInt (by omega)]
  exact hdiff

theorem Clock.ds_far (h : Clock d tvSec tvUsec) (hle : tvSec.toInt ≤ d.timeoutSecs.toNat)
    (hfar : 2 ^ 31 ≤ d.timeoutSecs.toNat - tvSec.toInt) :
    (d.timeoutSecs - tvSec.toUInt64).toUInt32.toInt32.toInt < 0 := by
  have hdiff := h.difference_toNat hle
  have hdeadline := h.deadlineSecs
  have hlow := h.secsLow
  rw [uint32_toInt32_neg (by omega), hdiff]
  omega

/-! ## The theorem -/

theorem Clock.secs_le (h : Clock d tvSec tvUsec) (hahead : 0 < remainingUsecs d tvSec tvUsec) :
    tvSec.toInt ≤ d.timeoutSecs.toNat := by
  have hdeadline := h.deadlineUsecs
  have hlow := h.usecsLow
  unfold remainingUsecs at hahead
  omega

/-- The timeout for a deadline ahead is what the two narrowed differences give. -/
theorem Clock.pollTimeout_eq (h : Clock d tvSec tvUsec) (hidle : d.hasIdle = false)
    (htimeout : d.hasTimeout = true) (hahead : 0 < remainingUsecs d tvSec tvUsec) :
    pollTimeout d tvSec tvUsec =
      (borrowSecond (d.timeoutUsecs.toUInt64.toInt64 - tvUsec).toInt32
        (d.timeoutSecs - tvSec.toUInt64).toUInt32.toInt32).bind fun r => clampTimeout r.1 r.2 := by
  unfold pollTimeout
  rw [hidle, htimeout, if_neg (by simp), if_neg (by simp),
    if_neg fun hpassed => absurd (h.passed_iff.mp hpassed) (by omega)]
  rfl

/-- Less than 2^31 seconds ahead: what the clamp and the rounding make of the time that remains. -/
theorem Clock.near (h : Clock d tvSec tvUsec) (hidle : d.hasIdle = false)
    (htimeout : d.hasTimeout = true) (hahead : 0 < remainingUsecs d tvSec tvUsec)
    (hnear : d.timeoutSecs.toNat - tvSec.toInt < 2 ^ 31) :
    PollTimeoutRight d tvSec tvUsec ↔
      ¬ (2147483647000 < remainingUsecs d tvSec tvUsec ∧
        remainingUsecs d tvSec tvUsec < 2147484000000) := by
  have hle := h.secs_le hahead
  have hdu := h.du_toInt
  have hds := h.ds_near hle hnear
  have hdeadline := h.deadlineUsecs
  have hlow := h.usecsLow
  have hhigh := h.usecs
  have hremaining : remainingUsecs d tvSec tvUsec = (d.timeoutSecs.toNat - tvSec.toInt) * 1000000 +
      (d.timeoutUsecs.toNat - tvUsec.toInt) := by
    unfold remainingUsecs
    ring
  obtain ⟨⟨du, ds⟩, hborrow, hdu0, hdu1, hsum⟩ := @borrowSecond_spec
    (d.timeoutUsecs.toUInt64.toInt64 - tvUsec).toInt32
    (d.timeoutSecs - tvSec.toUInt64).toUInt32.toInt32 (by omega) (by omega)
    (.inl (by omega))
  rw [hds, hdu, ← hremaining] at hsum
  have heq := h.pollTimeout_eq hidle htimeout hahead
  rw [hborrow, Option.bind_some] at heq
  simp only at hdu0 hdu1 hsum heq
  generalize hR : remainingUsecs d tvSec tvUsec = R at *
  unfold PollTimeoutRight
  rw [heq, hR]
  obtain ⟨hfar, hclamp⟩ | ⟨hds', hover, hclamp⟩ | ⟨timeout, hds', hclamp, hvalue⟩ :=
    clampTimeout_spec hdu0 hdu1 (by omega : 0 ≤ ds.toInt)
  · -- clamped
    refine iff_of_true ⟨_, hclamp, ?_⟩ (by omega)
    have hmax : (2147483000 : Int32).toInt = 2147483000 := rfl
    rw [hmax]
    exact ⟨by omega, by omega, by omega, by omega, by omega⟩
  · -- the rounded sum does not fit
    refine iff_of_false ?_ (by omega)
    rintro ⟨timeout, hsome, -⟩
    rw [hclamp] at hsome
    exact absurd hsome (by simp)
  · have hmax := timeout.toInt_lt
    refine iff_of_true ⟨timeout, hclamp, ?_⟩ (by omega)
    rw [hvalue]
    exact ⟨by omega, by omega, by omega, by omega, by omega⟩

/-- From 2^31 seconds on the timeout is not positive, if there is one. -/
theorem Clock.far (h : Clock d tvSec tvUsec) (hidle : d.hasIdle = false)
    (htimeout : d.hasTimeout = true) (hahead : 0 < remainingUsecs d tvSec tvUsec)
    (hfar : 2 ^ 31 ≤ d.timeoutSecs.toNat - tvSec.toInt) : ¬ PollTimeoutRight d tvSec tvUsec := by
  have hle := h.secs_le hahead
  have hdu := h.du_toInt
  have hds := h.ds_far hle hfar
  have hdeadline := h.deadlineUsecs
  have hlow := h.usecsLow
  have hhigh := h.usecs
  rintro ⟨timeout, hsome, hright⟩
  rw [h.pollTimeout_eq hidle htimeout hahead] at hsome
  have hpositive := (hright.positive hahead).1
  set du := (d.timeoutUsecs.toUInt64.toInt64 - tvUsec).toInt32 with hdu'
  set ds := (d.timeoutSecs - tvSec.toUInt64).toUInt32.toInt32 with hds'
  have hmin := ds.le_toInt
  by_cases hover : ds.toInt = -2 ^ 31 ∧ du.toInt < 0
  · rw [borrowSecond_overflow hover.2 hover.1] at hsome
    exact absurd hsome (by simp)
  · obtain ⟨r, hborrow, hr0, hr1, hsum⟩ := @borrowSecond_spec du ds (by omega)
      (by omega) (by omega)
    rw [hborrow, Option.bind_some] at hsome
    have := clampTimeout_negative hr0 hr1 (by omega) hsome
    omega

/-- The timeout is right exactly if the deadline has passed, or is less than 2^31 seconds ahead and not
between `INT_MAX` milliseconds and the second in which they end. -/
theorem pollTimeout_right_iff (d : DispatchTimers) (tvSec tvUsec : Int64)
    (hidle : d.hasIdle = false) (htimeout : d.hasTimeout = true) (h : Clock d tvSec tvUsec) :
    PollTimeoutRight d tvSec tvUsec ↔ remainingUsecs d tvSec tvUsec ≤ 0 ∨
      d.timeoutSecs.toNat - tvSec.toInt < 2 ^ 31 ∧
        ¬ (2147483647000 < remainingUsecs d tvSec tvUsec ∧
          remainingUsecs d tvSec tvUsec < 2147484000000) := by
  by_cases hpassed : remainingUsecs d tvSec tvUsec ≤ 0
  · refine iff_of_true ⟨0, ?_, ?_⟩ (.inl hpassed)
    · unfold pollTimeout
      rw [hidle, htimeout, if_neg (by simp), if_neg (by simp), if_pos (h.passed_iff.mpr hpassed)]
    · have hzero : (0 : Int32).toInt = 0 := rfl
      rw [hzero]
      exact ⟨by omega, by omega, by omega, by omega, by omega⟩
  · rw [or_iff_right hpassed]
    by_cases hnear : d.timeoutSecs.toNat - tvSec.toInt < 2 ^ 31
    · rw [h.near hidle htimeout (by omega) hnear, and_iff_right hnear]
    · exact iff_of_false (h.far hidle htimeout (by omega) (by omega)) fun hboth => hnear hboth.1

/-- A dispatcher that waits for a deadline. -/
def waiting (timeoutSecs : UInt64) (timeoutUsecs : UInt32) : DispatchTimers :=
  { timersNew ⟨true, timeoutSecs, timeoutUsecs⟩ ⟨0, 0⟩ with hasTimeout := true }

/-- A deadline `INT_MAX` milliseconds ahead. -/
theorem pollTimeout_right_edge : PollTimeoutRight (waiting 2147483 647000) 0 0 := by
  refine (pollTimeout_right_iff _ _ _ rfl rfl ?_).mpr (.inr ?_)
  · exact ⟨by decide, by decide, by decide, by decide, by decide, by decide⟩
  · decide

/-- A microsecond later the sum overflows; and the largest deadline that there is makes `poll` wait for
ever at one second past the epoch. -/
theorem pollTimeout_wrong :
    (¬ ∀ (d : DispatchTimers) (tvSec tvUsec : Int64), d.hasIdle = false → d.hasTimeout = true →
      Clock d tvSec tvUsec → PollTimeoutRight d tvSec tvUsec) ∧
    pollTimeout (waiting 2147483 647001) 0 0 = none ∧
    pollTimeout (waiting 4294967295 0) 1 0 = some (-2000) := by
  have hnone : pollTimeout (waiting 2147483 647001) 0 0 = none := by decide
  refine ⟨fun hclaim => ?_, hnone, by decide⟩
  obtain ⟨timeout, hsome, -⟩ := hclaim (waiting 2147483 647001) 0 0 rfl rfl
    ⟨by decide, by decide, by decide, by decide, by decide, by decide⟩
  rw [hnone] at hsome
  exact absurd hsome (by simp)

end Distance

end ProtobufC
