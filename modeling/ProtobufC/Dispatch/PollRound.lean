import ProtobufC.Dispatch.Round
import ProtobufC.Rpc.Protocol

/-! # A round that `poll` begins

`protobuf_c_dispatch_run` copies the desired notifications for `poll`, and what `poll` reports into the
notifications of a round.  Only the bits for reading, writing and a hangup come through: a file descriptor
of which `poll` reports nothing but an error has no turn.
-/

namespace ProtobufC
open Library
set_option autoImplicit false

/-! ## The code -/

/-- `POLLIN` -/
def pollIn : UInt32 := 1

/-- `POLLOUT` -/
def pollOut : UInt32 := 4

/-- `POLLHUP` -/
def pollHup : UInt32 := 16

/-- `struct pollfd` -/
structure Pollfd where
  fd : ℕ
  events : UInt32
  revents : UInt32

/-- `events_to_pollfd_events` -/
def eventsToPollfdEvents (ev : UInt32) : UInt32 :=
  (if ev &&& eventReadable ≠ 0 then pollIn else 0) |||
    (if ev &&& eventWritable ≠ 0 then pollOut else 0)

/-- `pollfd_events_to_events` -/
def pollfdEventsToEvents (ev : UInt32) : UInt32 :=
  (if ev &&& (pollIn ||| pollHup) ≠ 0 then eventReadable else 0) |||
    (if ev &&& pollOut ≠ 0 then eventWritable else 0)

/-- The array that is made for `poll`. -/
def RealDispatch.pollfds (d : RealDispatch) : List Pollfd :=
  (d.notifiesDesired.take d.nNotifiesDesired).map fun n => ⟨n.fd, eventsToPollfdEvents n.events, 0⟩

/-- What `poll` does: it fails, or reports something of every file descriptor it was given. -/
inductive PollOutcome
  | failed
  | reported (revents : ℕ → UInt32)

/-- The loop that fills `events`, an array with room for `room` of them; `events` are those written.  The
next place is written to before it is decided whether it counts. -/
def collectEvents (room : ℕ) : List Pollfd → List FDNotify → Except Fault (List FDNotify)
  | [], events => .ok events
  | p :: fds, events =>
      if p.revents ≠ 0 then
        if events.length < room then
          collectEvents room fds
            (if pollfdEventsToEvents p.revents ≠ 0 then events ++ [⟨p.fd, pollfdEventsToEvents p.revents⟩]
            else events)
        else .error .access
      else collectEvents room fds events

/-- `protobuf_c_dispatch_run`, up to the loop over the notifications. -/
def DispatchConfig.dispatchRun (c : DispatchConfig) : PollOutcome → Except Fault DispatchConfig
  | .failed => .ok c
  | .reported revents => do
      let fds := c.d.pollfds.map fun p => { p with revents := revents p.fd }
      let n_events := (fds.filter fun p => p.revents ≠ 0).length
      c.step (.dispatch (← collectEvents n_events fds []))

/-! ## The notifications -/

theorem pollfdEventsToEvents_zero : pollfdEventsToEvents 0 = 0 := rfl

/-- The notification of a file descriptor, if there is one. -/
def reportedNotify (revents : ℕ → UInt32) (fd : ℕ) : Option FDNotify :=
  if pollfdEventsToEvents (revents fd) ≠ 0 then some ⟨fd, pollfdEventsToEvents (revents fd)⟩ else none

section
variable {revents : ℕ → UInt32}

theorem fd_reportedNotify {fd : ℕ} {notify : FDNotify} (h : reportedNotify revents fd = some notify) :
    notify = ⟨fd, pollfdEventsToEvents (revents fd)⟩ ∧ pollfdEventsToEvents (revents fd) ≠ 0 := by
  unfold reportedNotify at h
  split_ifs at h with hevents
  exact ⟨(Option.some.inj h).symm, hevents⟩

/-- The array has room for all that the loop writes. -/
theorem collectEvents_eq {room : ℕ} : ∀ (fds : List Pollfd) (events : List FDNotify),
    (∀ p ∈ fds, p.revents = revents p.fd) →
    events.length + (fds.filter fun p => p.revents ≠ 0).length ≤ room →
    collectEvents room fds events =
      .ok (events ++ fds.filterMap fun p => reportedNotify revents p.fd) := by
  intro fds
  induction fds with
  | nil =>
    intro events _ _
    rw [collectEvents, List.filterMap_nil, List.append_nil]
  | cons p fds ih =>
    intro events hset hroom
    have hp := hset p List.mem_cons_self
    have hfds := fun q hq => hset q (List.mem_cons_of_mem p hq)
    rw [collectEvents, List.filterMap_cons]
    by_cases hzero : p.revents = 0
    · have hnone : reportedNotify revents p.fd = none := by
        unfold reportedNotify
        rw [← hp, hzero, pollfdEventsToEvents_zero, if_neg (not_not_intro rfl)]
      rw [List.filter_cons_of_neg (by simpa using hzero)] at hroom
      rw [if_neg (not_not_intro hzero), hnone]
      exact ih events hfds hroom
    · rw [List.filter_cons_of_pos (by simpa using hzero), List.length_cons] at hroom
      rw [if_pos hzero, if_pos (by omega)]
      by_cases hevents : pollfdEventsToEvents p.revents = 0
      · have hnone : reportedNotify revents p.fd = none := by
          unfold reportedNotify
          rw [← hp, if_neg (not_not_intro hevents)]
        rw [if_neg (not_not_intro hevents), hnone]
        exact ih events hfds (by omega)
      · have hsome : reportedNotify revents p.fd = some ⟨p.fd, pollfdEventsToEvents p.revents⟩ := by
          unfold reportedNotify
          rw [← hp, if_pos hevents]
        rw [if_pos hevents, hsome, ih _ hfds (by rw [List.length_append, List.length_singleton]; omega),
          List.append_assoc]
        rfl

end

/-- The notifications that a dispatcher takes from what `poll` reports. -/
def RealDispatch.reported (d : RealDispatch) (revents : ℕ → UInt32) : List FDNotify :=
  (d.notifiesDesired.take d.nNotifiesDesired).filterMap fun n => reportedNotify revents n.fd

theorem dispatchRun_eq (c : DispatchConfig) (revents : ℕ → UInt32) :
    c.dispatchRun (.reported revents) = c.step (.dispatch (c.d.reported revents)) := by
  have hset : ∀ p ∈ c.d.pollfds.map fun p => ({ p with revents := revents p.fd } : Pollfd),
      p.revents = revents p.fd := by
    intro p hp
    obtain ⟨q, -, rfl⟩ := List.mem_map.mp hp
    rfl
  have hcollect := collectEvents_eq (c.d.pollfds.map fun p => { p with revents := revents p.fd }) []
    hset (Nat.le_of_eq (Nat.zero_add _))
  unfold DispatchConfig.dispatchRun
  dsimp only
  rw [hcollect, except_ok_bind, List.nil_append]
  unfold RealDispatch.pollfds RealDispatch.reported
  rw [List.map_map, List.filterMap_map]
  rfl

section
variable {d : RealDispatch} {latest : Registered}

theorem ExactTable.mem_iff (h : ExactTable d latest) {notify : FDNotify} :
    notify ∈ d.notifiesDesired.take d.nNotifiesDesired ↔
      ∃ callback, latest notify.fd = some (notify.events, callback) := by
  constructor
  · intro hmem
    obtain ⟨i, hi⟩ := List.getElem?_of_mem hmem
    rw [List.getElem?_take] at hi
    split_ifs at hi with hlt
    obtain ⟨notify', callback, hget, -, hlatest⟩ := h.sound i hlt
    obtain rfl := Option.some.inj (hget.symm.trans hi)
    exact ⟨callback, hlatest⟩
  · rintro ⟨callback, hlatest⟩
    obtain ⟨i, -, hlt, hget, -⟩ := h.complete notify.fd notify.events callback hlatest
    refine List.mem_of_getElem? (i := i) ?_
    rw [List.getElem?_take_of_lt hlt]
    exact hget

theorem ExactTable.nodup (h : ExactTable d latest) :
    ((d.notifiesDesired.take d.nNotifiesDesired).map FDNotify.fd).Nodup := by
  refine List.nodup_iff_getElem?_ne_getElem?.mpr fun i j hij hj heq => ?_
  rw [List.length_map, List.length_take] at hj
  have hj' : j < d.nNotifiesDesired := by omega
  have hi' : i < d.nNotifiesDesired := by omega
  rw [List.getElem?_map, List.getElem?_map, List.getElem?_take_of_lt hi',
    List.getElem?_take_of_lt hj'] at heq
  obtain ⟨b, hb⟩ : ∃ b, d.notifiesDesired[j]? = some b := ⟨_, List.getElem?_eq_getElem (by omega)⟩
  rw [hb, Option.map_some, Option.map_eq_some_iff] at heq
  obtain ⟨a, ha, hab⟩ := heq
  exact absurd (h.once i j a b hi' hj' ha hb hab) (by omega)

/-- The notifications are for what is registered and reported, each file descriptor once. -/
theorem ExactTable.reported (h : ExactTable d latest) (revents : ℕ → UInt32) :
    ((d.reported revents).map FDNotify.fd).Nodup ∧
      ∀ notify, notify ∈ d.reported revents ↔
        (latest notify.fd).isSome ∧ notify.events = pollfdEventsToEvents (revents notify.fd) ∧
          notify.events ≠ 0 := by
  constructor
  · refine h.nodup.sublist ?_
    unfold RealDispatch.reported
    generalize d.notifiesDesired.take d.nNotifiesDesired = notifies
    induction notifies with
    | nil => exact .slnil
    | cons n notifies ih =>
      rw [List.filterMap_cons]
      cases hn : reportedNotify revents n.fd with
      | none => exact ih.cons n.fd
      | some notify =>
        obtain ⟨rfl, -⟩ := fd_reportedNotify hn
        exact ih.cons_cons n.fd
  · intro notify
    unfold RealDispatch.reported
    rw [List.mem_filterMap]
    constructor
    · rintro ⟨n, hn, heq⟩
      obtain ⟨rfl, hevents⟩ := fd_reportedNotify heq
      obtain ⟨callback, hlatest⟩ := h.mem_iff.mp hn
      exact ⟨by rw [hlatest]; rfl, rfl, hevents⟩
    · rintro ⟨hsome, hevents, hne⟩
      obtain ⟨⟨desired, callback⟩, hlatest⟩ := Option.isSome_iff_exists.mp hsome
      refine ⟨⟨notify.fd, desired⟩, h.mem_iff.mpr ⟨callback, hlatest⟩, ?_⟩
      unfold reportedNotify
      rw [← hevents, if_pos hne]

end

/-! ## The round -/

/-- The calls leave a file descriptor alone. -/
def LeavesAlone (fd : ℕ) (calls : List DispatchCall) : Prop :=
  ∀ call ∈ calls, call ≠ .fdClosed fd ∧ ∀ events callback, call ≠ .watchFd fd events callback

theorem mostRecent_of_leavesAlone {fd : ℕ} {since : List DispatchCall} (h : LeavesAlone fd since)
    (calls : List DispatchCall) : mostRecent (calls ++ since) fd = mostRecent calls fd := by
  unfold mostRecent
  rw [List.foldl_append]
  generalize calls.foldl DispatchCall.registers _ = latest
  induction since generalizing latest with
  | nil => rfl
  | cons call since ih =>
    rw [List.foldl_cons, ih (fun c hc => h c (List.mem_cons_of_mem call hc))]
    obtain ⟨hclosed, hwatch⟩ := h call List.mem_cons_self
    cases call with
    | watchFd fd' events callback =>
      have hne : fd ≠ fd' := by
        rintro rfl
        exact hwatch events callback rfl
      simp only [DispatchCall.registers, if_neg hne]
    | fdClosed fd' =>
      have hne : fd ≠ fd' := by
        rintro rfl
        exact hclosed rfl
      simp only [DispatchCall.registers, if_neg hne]
    | clearChanges => rfl

/-- Whatever `poll` reports and the callbacks do, the file descriptors that have a turn are those that were
registered and reported to be readable, hung up or writable, each once; and a file descriptor that was left
alone until its turn is called for what it was registered for of that, or not at all if there is none. -/
theorem dispatchRun_exact (before : List DispatchLabel) (c₀ : DispatchConfig) (calls : List DispatchCall)
    (hbefore : DispatchConfig.run before .start = .ok (c₀, calls)) (huser : c₀.phase.user = true)
    (hidle : c₀.d.isDispatching = false) (revents : ℕ → UInt32) :
    ∃ c₁, c₀.dispatchRun (.reported revents) = .ok c₁ ∧
      ∀ labels : List DispatchLabel, (∀ label ∈ labels, ∀ notifies, label ≠ .dispatch notifies) →
        ∀ c since turns, DispatchConfig.round labels [] c₁ = .ok (c, since, turns) →
          ((turns.map Turn.notify ++ c.phase.rest).map FDNotify.fd).Nodup ∧
          (∀ notify, notify ∈ turns.map Turn.notify ++ c.phase.rest ↔
            (mostRecent calls notify.fd).isSome ∧
              notify.events = pollfdEventsToEvents (revents notify.fd) ∧ notify.events ≠ 0) ∧
          (∀ turn ∈ turns, .fdClosed turn.notify.fd ∈ turn.since → turn.invoked = none) ∧
          ∀ turn ∈ turns, LeavesAlone turn.notify.fd turn.since → ∃ desired callback,
            mostRecent calls turn.notify.fd = some (desired, callback) ∧ turn.invoked =
              if desired &&& pollfdEventsToEvents (revents turn.notify.fd) ≠ 0 then
                some (desired &&& pollfdEventsToEvents (revents turn.notify.fd), callback)
              else none := by
  have hinv : ConfigInv c₀ (mostRecent calls) := configInv_start.run before hbefore
  obtain ⟨hnodup, hmem⟩ := hinv.exact.reported revents
  obtain ⟨hbusy, -⟩ | ⟨c₁, hstep, -⟩ := hinv.step (.dispatch (c₀.d.reported revents))
  · exact absurd (hidle.symm.trans hbusy) (by simp)
  refine ⟨c₁, (dispatchRun_eq c₀ revents).trans hstep, fun labels hround c since turns hrun => ?_⟩
  obtain ⟨hphase, hbegin⟩ := RoundInv.begin hinv huser hstep
  obtain ⟨hturns, hexact, -⟩ := hbegin.run labels hround hrun
  rw [hphase] at hturns
  have hrest : turns.map Turn.notify ++ c.phase.rest = c₀.d.reported revents := hturns
  rw [hrest]
  refine ⟨hnodup, hmem, fun turn hturn hclosed => ?_, fun turn hturn halone => ?_⟩
  · cases hinvoked : turn.invoked with
    | none => rfl
    | some r =>
      have hnot := (((hexact turn hturn).invoked r.1 r.2).mp hinvoked).1
      exact absurd hclosed hnot
  · have hnotify : turn.notify ∈ c₀.d.reported revents := by
      rw [← hrest]
      exact List.mem_append_left _ (List.mem_map_of_mem hturn)
    obtain ⟨hsome, hevents, -⟩ := (hmem turn.notify).mp hnotify
    obtain ⟨⟨desired, callback⟩, hlatest⟩ := Option.isSome_iff_exists.mp hsome
    have hsame := mostRecent_of_leavesAlone halone calls
    have hopen : DispatchCall.fdClosed turn.notify.fd ∉ turn.since := fun hclosed =>
      (halone _ hclosed).1 rfl
    have hiff := (hexact turn hturn).invoked
    rw [hsame, hlatest, hevents] at hiff
    refine ⟨desired, callback, hlatest, ?_⟩
    split_ifs with hnone
    · exact (hiff _ _).mpr ⟨hopen, desired, rfl, rfl, hnone⟩
    · cases hinvoked : turn.invoked with
      | none => rfl
      | some r =>
        obtain ⟨-, desired', heq, hr, hne⟩ := (hiff r.1 r.2).mp hinvoked
        obtain ⟨rfl, -⟩ := Prod.mk.inj (Option.some.inj heq)
        rw [hr] at hne
        exact absurd hne hnone

/-- What `poll` reports of 5, which is hung up, and of 6, which has an error. -/
def hangupAndError (fd : ℕ) : UInt32 := if fd = 5 then pollHup else if fd = 6 then 8 else 0

/-- The callback of 5 is called for reading; 6 has no turn. -/
theorem dispatchRun_exact_hangup : ∃ (c : DispatchConfig) (turns : List Turn),
    turns.map Turn.invoked = [some (1, ⟨1, 50⟩)] ∧
    ((turns.map Turn.notify ++ c.phase.rest).map FDNotify.fd).Nodup ∧
    ∀ events, ⟨6, events⟩ ∉ turns.map Turn.notify ++ c.phase.rest := by
  obtain ⟨c₀, hc₀, huser, hidle, c₁, hc₁, r, hr, hinvoked⟩ : ∃ c₀,
      DispatchConfig.run [.call (.watchFd 5 1 (some ⟨1, 50⟩)), .call (.watchFd 6 2 (some ⟨1, 60⟩))]
        .start = .ok (c₀, [.watchFd 5 1 (some ⟨1, 50⟩), .watchFd 6 2 (some ⟨1, 60⟩)]) ∧
      c₀.phase.user = true ∧ c₀.d.isDispatching = false ∧
      ∃ c₁, c₀.dispatchRun (.reported hangupAndError) = .ok c₁ ∧
      ∃ r, DispatchConfig.round [.advance, .advance] [] c₁ = .ok r ∧
      r.2.2.map Turn.invoked = [some (1, ⟨1, 50⟩)] :=
    ⟨_, rfl, rfl, rfl, _, rfl, _, rfl, rfl⟩
  obtain ⟨c₁', hc₁', hexact⟩ := dispatchRun_exact _ c₀ _ hc₀ huser hidle hangupAndError
  obtain rfl := Except.ok.inj (hc₁.symm.trans hc₁')
  obtain ⟨hnodup, hmem, -⟩ := hexact _ (by simp) r.1 r.2.1 r.2.2 hr
  refine ⟨r.1, r.2.2, hinvoked, hnodup, fun events hsix => ?_⟩
  obtain ⟨-, hevents, hne⟩ := (hmem ⟨6, events⟩).mp hsix
  have hnothing : pollfdEventsToEvents (hangupAndError 6) = 0 := by decide
  exact hne (hevents.trans hnothing)

end ProtobufC
