import ProtobufC.Dispatch.ExactTable

/-! # A round of notifications

While `protobuf_c_dispatch_dispatch` goes through the notifications, the callbacks change the tables that
it looks them up in.  Every notification has its turn all the same, and what is called in it follows from
the calls made so far: the callback that was registered last, unless the file descriptor was closed in
this round.
-/

namespace ProtobufC
open Library
set_option autoImplicit false

/-! ## Turns -/

/-- The turn of one notification. -/
structure Turn where
  notify : FDNotify
  /-- The dispatcher at the turn. -/
  d : RealDispatch
  /-- The calls made since the round began. -/
  since : List DispatchCall
  /-- The callback that is called, with the events. -/
  invoked : Option (UInt32 × Callback)

/-- The turn that a step takes, if it takes one. -/
def DispatchConfig.turn (c : DispatchConfig) (since : List DispatchCall) :
    DispatchLabel → Except Fault (List Turn)
  | .advance =>
      match c.phase with
      | .notifying (notify :: _) => do
          return [⟨notify, c.d, since, ← notifiedCallback c.d notify⟩]
      | _ => return []
  | .call _ | .dispatch _ | .later | .finish => return []

/-- A run, with the calls made since the round began and the turns that were taken. -/
def DispatchConfig.round : List DispatchLabel → List DispatchCall → DispatchConfig →
    Except Fault (DispatchConfig × List DispatchCall × List Turn)
  | [], since, c => .ok (c, since, [])
  | label :: labels, since, c => do
      let turn ← c.turn since label
      let r ← DispatchConfig.round labels (since ++ c.calls label) (← c.step label)
      return (r.1, r.2.1, turn ++ r.2.2)

/-- The tables are those of what is registered, and a callback is called exactly if the file descriptor
was not closed in this round and the events that are desired of it and notified have some in common. -/
structure Turn.Exact (turn : Turn) (latest : Registered) : Prop where
  table : ExactTable turn.d latest
  invoked : ∀ (events : UInt32) (callback : Callback), turn.invoked = some (events, callback) ↔
    .fdClosed turn.notify.fd ∉ turn.since ∧ ∃ desired : UInt32,
      latest turn.notify.fd = some (desired, callback) ∧
        events = desired &&& turn.notify.events ∧ events ≠ 0

/-! ## The flags -/

def RealDispatch.closedFlags (d : RealDispatch) : List ℤ :=
  d.fdMap.map FDMap.closedSinceNotifyStarted

theorem closedFlags_modifyFm (d : RealDispatch) (fd : ℕ) {f : FDMap → FDMap}
    (h : ∀ fm, (f fm).closedSinceNotifyStarted = fm.closedSinceNotifyStarted) :
    (d.modifyFm fd f).closedFlags = d.closedFlags :=
  map_modify_of_eq (g := FDMap.closedSinceNotifyStarted) h d.fdMap fd

theorem closedFlags_flag (d : RealDispatch) (fd : ℕ) (i : ℤ) :
    (d.modifyFm fd fun fm => { fm with closedSinceNotifyStarted := i }).closedFlags =
      d.closedFlags.set fd i :=
  map_modify_of_const (g := FDMap.closedSinceNotifyStarted) (by intro fm; rfl) d.fdMap fd

theorem closedFlags_ensure (d : RealDispatch) (fd : ℕ) :
    ∃ n, (ensureFdMapBigEnough d fd).closedFlags = d.closedFlags ++ List.replicate n (-1) := by
  obtain ⟨n, hens, -⟩ := ensureFdMapBigEnough_fdMap d fd
  refine ⟨n, ?_⟩
  rw [hens]
  unfold RealDispatch.closedFlags
  rw [List.map_append, List.map_replicate]
  rfl

theorem deallocateChangeIndex_closedFlags {d d' : RealDispatch} {fd : ℕ} {fm : FDMap}
    (hok : deallocateChangeIndex d fd fm = .ok d') : d'.closedFlags = d.closedFlags := by
  have hfirst := closedFlags_modifyFm d fd (f := fun fm => { fm with changeIndex := -1 })
    (by intro fm; rfl)
  unfold deallocateChangeIndex at hok
  simp only at hok
  split_ifs at hok
  · obtain rfl := Except.ok.inj hok
    exact hfirst
  · obtain ⟨change, -, hok⟩ := except_bind_eq_ok hok
    obtain ⟨-, -, hok⟩ := except_bind_eq_ok hok
    obtain ⟨last, -, hok⟩ := except_bind_eq_ok hok
    obtain rfl := Except.ok.inj hok
    exact (closedFlags_modifyFm _ change.fd (by intro fm; rfl)).trans hfirst

theorem deallocateNotifyDesiredIndex_closedFlags {d d' : RealDispatch} {fd : ℕ} {fm : FDMap}
    (hok : deallocateNotifyDesiredIndex d fd fm = .ok d') : d'.closedFlags = d.closedFlags := by
  have hfirst := closedFlags_modifyFm d fd (f := fun fm => { fm with notifyDesiredIndex := -1 })
    (by intro fm; rfl)
  unfold deallocateNotifyDesiredIndex at hok
  simp only at hok
  split_ifs at hok
  · obtain rfl := Except.ok.inj hok
    exact hfirst
  · obtain ⟨notify, -, hok⟩ := except_bind_eq_ok hok
    obtain ⟨-, -, hok⟩ := except_bind_eq_ok hok
    obtain ⟨last, -, hok⟩ := except_bind_eq_ok hok
    obtain ⟨callback, -, hok⟩ := except_bind_eq_ok hok
    obtain rfl := Except.ok.inj hok
    exact (closedFlags_modifyFm _ notify.fd (by intro fm; rfl)).trans hfirst

theorem allocateNotifiesDesiredIndex_closedFlags (d : RealDispatch) :
    (allocateNotifiesDesiredIndex d).2.closedFlags = d.closedFlags := by
  unfold allocateNotifiesDesiredIndex
  simp only
  split_ifs <;> rfl

theorem allocateChangeIndex_closedFlags (d : RealDispatch) :
    (allocateChangeIndex d).2.closedFlags = d.closedFlags := by
  unfold allocateChangeIndex
  simp only
  split_ifs <;> rfl

theorem findNotify_closedFlags {d : RealDispatch} {fd : ℕ} {callback : Option Callback}
    {r : RealDispatch × ℕ × UInt32} (hok : findNotify d fd callback = .ok r) :
    r.1.closedFlags = d.closedFlags := by
  unfold findNotify at hok
  obtain ⟨fm, -, hok⟩ := except_bind_eq_ok hok
  split_ifs at hok
  · cases callback with
    | none =>
      obtain rfl := Except.ok.inj hok
      rfl
    | some cb =>
      obtain rfl := Except.ok.inj hok
      exact (closedFlags_modifyFm _ fd (by intro fm; rfl)).trans
        (allocateNotifiesDesiredIndex_closedFlags d)
  · obtain ⟨old, -, hok⟩ := except_bind_eq_ok hok
    cases callback with
    | none =>
      obtain ⟨d₁, hd₁, hok⟩ := except_bind_eq_ok hok
      obtain rfl := Except.ok.inj hok
      exact deallocateNotifyDesiredIndex_closedFlags hd₁
    | some cb =>
      obtain rfl := Except.ok.inj hok
      rfl

theorem recordChange_closedFlags {d d' : RealDispatch} {fd : ℕ} {oldEvents events : UInt32}
    (hok : recordChange d fd oldEvents events = .ok d') : d'.closedFlags = d.closedFlags := by
  unfold recordChange at hok
  obtain ⟨fm, -, hok⟩ := except_bind_eq_ok hok
  split_ifs at hok
  · obtain ⟨changes, -, hok⟩ := except_bind_eq_ok hok
    obtain rfl := Except.ok.inj hok
    exact (closedFlags_modifyFm _ fd (by intro fm; rfl)).trans (allocateChangeIndex_closedFlags d)
  · obtain ⟨changes, -, hok⟩ := except_bind_eq_ok hok
    obtain rfl := Except.ok.inj hok
    rfl

theorem dispatchWatchFd_closedFlags {d d' : RealDispatch} {fd : ℕ} {events : UInt32}
    {callback : Option Callback} (hok : dispatchWatchFd d fd events callback = .ok d') :
    ∃ n, d'.closedFlags = d.closedFlags ++ List.replicate n (-1) := by
  obtain ⟨n, hn⟩ := closedFlags_ensure d fd
  refine ⟨n, ?_⟩
  unfold dispatchWatchFd at hok
  split_ifs at hok
  obtain ⟨r, hfind, hok⟩ := except_bind_eq_ok hok
  obtain ⟨d₁, hrecord, hok⟩ := except_bind_eq_ok hok
  rw [← hn, ← findNotify_closedFlags hfind, ← recordChange_closedFlags hrecord]
  cases callback with
  | none =>
    obtain rfl := Except.ok.inj hok
    rfl
  | some cb =>
    obtain ⟨notifies, -, hok⟩ := except_bind_eq_ok hok
    obtain ⟨callbacks, -, hok⟩ := except_bind_eq_ok hok
    obtain rfl := Except.ok.inj hok
    rfl

theorem dispatchFdClosed_closedFlags {d d' : RealDispatch} {fd : ℕ}
    (hok : dispatchFdClosed d fd = .ok d') :
    ∃ n, d'.closedFlags = (d.closedFlags ++ List.replicate n (-1)).set fd 1 := by
  obtain ⟨n, hn⟩ := closedFlags_ensure d fd
  refine ⟨n, ?_⟩
  rw [← hn, ← closedFlags_flag]
  unfold dispatchFdClosed at hok
  obtain ⟨fm, -, hok⟩ := except_bind_eq_ok hok
  -- the part behind the changes
  have hrest : ∀ d₁ : RealDispatch, (do
      let fm ← d₁.fm fd
      if fm.notifyDesiredIndex ≠ -1 then deallocateNotifyDesiredIndex d₁ fd fm else pure d₁) =
      .ok d' → d'.closedFlags = d₁.closedFlags := by
    intro d₁ hok₁
    obtain ⟨fm₁, -, hok₁⟩ := except_bind_eq_ok hok₁
    split_ifs at hok₁
    · exact deallocateNotifyDesiredIndex_closedFlags hok₁
    · obtain rfl := Except.ok.inj hok₁
      rfl
  simp only at hok
  split_ifs at hok
  · obtain ⟨d₁, hchange, hok⟩ := except_bind_eq_ok hok
    exact (hrest d₁ hok).trans (deallocateChangeIndex_closedFlags hchange)
  · exact hrest _ hok

theorem forgetChanges_closedFlags (asserted : Bool) : ∀ (changes : List FDNotifyChange) (i : ℕ)
    {d d' : RealDispatch}, forgetChanges asserted changes i d = .ok d' →
    d'.closedFlags = d.closedFlags := by
  intro changes
  induction changes with
  | nil =>
    intro i d d' hok
    obtain rfl := Except.ok.inj hok
    rfl
  | cons change changes ih =>
    intro i d d' hok
    unfold forgetChanges at hok
    obtain ⟨fm, -, hok⟩ := except_bind_eq_ok hok
    split_ifs at hok
    exact (ih (i + 1) hok).trans (closedFlags_modifyFm d change.fd (by intro fm; rfl))

/-- One call flags the file descriptor that it closes, and no other one that the map knows. -/
theorem DispatchCall.closedFlags {d d' : RealDispatch} {call : DispatchCall}
    (hok : call.run d = .ok d') {fd : ℕ} (hlt : fd < d.fdMap.length) :
    d'.closedFlags[fd]? = if call = .fdClosed fd then some 1 else d.closedFlags[fd]? := by
  have hlen : fd < d.closedFlags.length := by
    unfold RealDispatch.closedFlags
    rw [List.length_map]
    exact hlt
  cases call with
  | watchFd fd' events callback =>
    obtain ⟨n, hn⟩ := dispatchWatchFd_closedFlags hok
    rw [hn, List.getElem?_append_left hlen, if_neg (by simp)]
  | fdClosed fd' =>
    obtain ⟨n, hn⟩ := dispatchFdClosed_closedFlags hok
    rw [hn]
    by_cases hfd : fd' = fd
    · rw [hfd, if_pos rfl, List.getElem?_set_self]
      rw [List.length_append]
      omega
    · rw [if_neg (by simpa using hfd), List.getElem?_set_ne hfd, List.getElem?_append_left hlen]
  | clearChanges =>
    obtain ⟨changes, -, hok⟩ := except_bind_eq_ok (show _ >>= _ = _ from hok)
    rw [forgetChanges_closedFlags true changes 0 hok, if_neg (by simp)]

/-- At the beginning of the round no file descriptor of a notification is flagged. -/
theorem closedFlags_reopened (notifies : List FDNotify) : ∀ (d : RealDispatch) (fd : ℕ),
    fd < d.fdMap.length →
    (fd ∈ notifies.map FDNotify.fd ∨ d.closedFlags[fd]? = some 0) →
    (notifies.foldl (fun d n => d.modifyFm n.fd fun fm =>
      { fm with closedSinceNotifyStarted := 0 }) d).closedFlags[fd]? = some 0 := by
  induction notifies with
  | nil =>
    rintro d fd - (hmem | hzero)
    · exact absurd hmem List.not_mem_nil
    · exact hzero
  | cons n notifies ih =>
    intro d fd hlt hor
    rw [List.foldl_cons]
    refine ih _ fd ((List.length_modify ..).symm ▸ hlt) ?_
    rw [closedFlags_flag]
    by_cases hfd : n.fd = fd
    · right
      rw [hfd, List.getElem?_set_self]
      unfold RealDispatch.closedFlags
      rw [List.length_map]
      exact hlt
    · rw [List.getElem?_set_ne hfd]
      refine hor.imp_left fun hmem => ?_
      rw [List.map_cons, List.mem_cons] at hmem
      exact hmem.resolve_left (Ne.symm hfd)

theorem beginDispatch_closedFlags {d d' : RealDispatch} {notifies : List FDNotify}
    (hok : beginDispatch d notifies = .ok d') :
    ∀ notify ∈ notifies, notify.fd < d'.fdMap.length →
      d'.closedFlags[notify.fd]? = some 0 := by
  intro notify hmem hlt
  unfold beginDispatch at hok
  split_ifs at hok
  obtain rfl := Except.ok.inj hok
  refine closedFlags_reopened notifies _ notify.fd ?_ (.inl (List.mem_map_of_mem hmem))
  rw [(reopened_same notifies _).1.length] at hlt
  exact hlt

/-! ## The invariant -/

/-- The notifications to come have their flag set exactly if their file descriptor was closed. -/
structure RoundInv (c : DispatchConfig) (calls since : List DispatchCall) : Prop where
  config : ConfigInv c (mostRecent (calls ++ since))
  flags : ∀ notify ∈ c.phase.rest, ∃ i, c.d.closedFlags[notify.fd]? = some i ∧
    (i = 0 ↔ .fdClosed notify.fd ∉ since)

theorem RoundInv.begin {c c' : DispatchConfig} {calls : List DispatchCall}
    (h : ConfigInv c (mostRecent calls)) (huser : c.phase.user = true) {notifies : List FDNotify}
    (hok : c.step (.dispatch notifies) = .ok c') :
    c'.phase = .notifying notifies ∧ RoundInv c' calls [] := by
  have hconfig : ConfigInv c' (mostRecent calls) := by
    obtain ⟨-, f, herr⟩ | ⟨c₁, hok₁, h₁⟩ := h.step (.dispatch notifies)
    · exact absurd (herr.symm.trans hok) (by simp)
    · obtain rfl := Except.ok.inj (hok₁.symm.trans hok)
      exact h₁
  simp only [DispatchConfig.step, if_pos huser] at hok
  obtain ⟨d', hbegin, hok⟩ := except_bind_eq_ok hok
  obtain rfl := Except.ok.inj hok
  refine ⟨rfl, by rw [List.append_nil]; exact hconfig, fun notify hmem => ?_⟩
  exact ⟨0, beginDispatch_closedFlags hbegin notify hmem (hconfig.rest notify hmem), by simp⟩

/-- Looking a notification up gives the callback that is registered, unless the flag is set. -/
theorem notifiedCallback_iff {d : RealDispatch} {latest : Registered} (h : TableInv d)
    (hdesired : ∀ fd, d.desired fd = (latest fd).map fun r => (⟨fd, r.1⟩, r.2))
    {notify : FDNotify} {i : ℤ} (hflag : d.closedFlags[notify.fd]? = some i)
    {r : Option (UInt32 × Callback)} (hr : notifiedCallback d notify = .ok r) (events : UInt32)
    (callback : Callback) :
    r = some (events, callback) ↔ i = 0 ∧ ∃ desired : UInt32,
      latest notify.fd = some (desired, callback) ∧
        events = desired &&& notify.events ∧ events ≠ 0 := by
  unfold RealDispatch.closedFlags at hflag
  rw [List.getElem?_map, Option.map_eq_some_iff] at hflag
  obtain ⟨fm, hfm, rfl⟩ := hflag
  have hread : d.fm notify.fd = .ok fm := RealDispatch.fm_ok.mpr hfm
  have hdes := hdesired notify.fd
  unfold notifiedCallback at hr
  simp only [hread, except_ok_bind] at hr
  by_cases hneg : fm.notifyDesiredIndex = -1
  · rw [if_neg fun h => h.2 hneg] at hr
    obtain rfl := Except.ok.inj hr
    rw [(h.not_found hfm hneg).2, eq_comm, Option.map_eq_none_iff] at hdes
    simp [hdes]
  · obtain ⟨j, e, hj, -, -, -, -, hn, hc, hdesE⟩ := h.found hfm hneg
    have hreadn : readAtIndex d.notifiesDesired fm.notifyDesiredIndex.toNat = .ok e.1 := by
      rw [hj, Int.toNat_natCast, readAtIndex, hn]
    have hreadc : readAtIndex d.callbacks fm.notifyDesiredIndex.toNat = .ok e.2 := by
      rw [hj, Int.toNat_natCast, readAtIndex, hc]
    rw [hdesE, eq_comm, Option.map_eq_some_iff] at hdes
    obtain ⟨⟨desired, cb⟩, hlatest, rfl⟩ := hdes
    rw [hlatest]
    by_cases hclosed : fm.closedSinceNotifyStarted = 0
    · rw [if_pos ⟨hclosed, hneg⟩, hreadn, except_ok_bind, hreadc] at hr
      simp only [except_ok_bind] at hr
      split_ifs at hr with hevents
      · obtain rfl := Except.ok.inj hr
        constructor
        · intro heq
          obtain ⟨rfl, rfl⟩ := Prod.mk.inj (Option.some.inj heq)
          exact ⟨hclosed, desired, rfl, rfl, hevents⟩
        · rintro ⟨-, desired', heq, rfl, -⟩
          obtain ⟨rfl, rfl⟩ := Prod.mk.inj (Option.some.inj heq)
          rfl
      · obtain rfl := Except.ok.inj hr
        refine iff_of_false (by simp) ?_
        rintro ⟨-, desired', heq, rfl, hne⟩
        obtain ⟨rfl, rfl⟩ := Prod.mk.inj (Option.some.inj heq)
        exact hevents hne
    · rw [if_neg fun h => hclosed h.1] at hr
      obtain rfl := Except.ok.inj hr
      exact iff_of_false (by simp) fun h => hclosed h.1

/-! ## Steps -/

/-- What one step of the round takes off the notifications is its turn. -/
theorem RoundInv.turn {c : DispatchConfig} {calls since : List DispatchCall}
    (h : RoundInv c calls since) {label : DispatchLabel} {turns : List Turn}
    (hturn : c.turn since label = .ok turns) :
    ∀ turn ∈ turns, turn.Exact (mostRecent (calls ++ turn.since)) := by
  intro turn hmem
  cases label with
  | advance =>
    simp only [DispatchConfig.turn] at hturn
    cases hphase : c.phase with
    | notifying rest =>
      rw [hphase] at hturn
      cases rest with
      | nil =>
        obtain rfl := Except.ok.inj hturn
        exact absurd hmem List.not_mem_nil
      | cons notify rest =>
        obtain ⟨r, hr, hturn⟩ := except_bind_eq_ok hturn
        obtain rfl := Except.ok.inj hturn
        obtain rfl := List.mem_singleton.mp hmem
        obtain ⟨i, hflag, hi⟩ := h.flags notify (by rw [hphase]; exact List.mem_cons_self)
        refine ⟨h.config.exact, fun events callback => ?_⟩
        rw [← hi]
        exact notifiedCallback_iff h.config.table h.config.desired hflag hr events callback
    | outside | inCallback | settling | inLater =>
      rw [hphase] at hturn
      obtain rfl := Except.ok.inj hturn
      exact absurd hmem List.not_mem_nil
  | call | dispatch | later | finish =>
    obtain rfl := Except.ok.inj hturn
    exact absurd hmem List.not_mem_nil

theorem RoundInv.step {c c' : DispatchConfig} {calls since : List DispatchCall}
    (h : RoundInv c calls since) {label : DispatchLabel}
    (hround : ∀ notifies, label ≠ .dispatch notifies) {turns : List Turn}
    (hturn : c.turn since label = .ok turns) (hok : c.step label = .ok c') :
    turns.map Turn.notify ++ c'.phase.rest = c.phase.rest ∧
      RoundInv c' calls (since ++ c.calls label) := by
  have hconfig : ConfigInv c' (mostRecent (calls ++ (since ++ c.calls label))) := by
    obtain ⟨-, f, herr⟩ | ⟨c₁, hok₁, h₁⟩ := h.config.step label
    · exact absurd (herr.symm.trans hok) (by simp)
    · obtain rfl := Except.ok.inj (hok₁.symm.trans hok)
      unfold mostRecent at h₁ ⊢
      rw [← List.append_assoc, List.foldl_append]
      exact h₁
  -- a step that makes no call and leaves the map
  have hkeep : c.calls label = [] → c'.d.closedFlags = c.d.closedFlags →
      (∀ notify ∈ c'.phase.rest, notify ∈ c.phase.rest) →
      RoundInv c' calls (since ++ c.calls label) := by
    intro hcalls hflags hrest
    refine ⟨hconfig, fun notify hmem => ?_⟩
    rw [hflags, hcalls, List.append_nil]
    exact h.flags notify (hrest notify hmem)
  cases label with
  | call k =>
    obtain rfl := Except.ok.inj hturn
    simp only [DispatchConfig.step] at hok
    by_cases huser : c.phase.user = true
    · rw [if_pos huser] at hok
      obtain ⟨d', hrun, hok⟩ := except_bind_eq_ok hok
      obtain rfl := Except.ok.inj hok
      have hcalls : c.calls (.call k) = [k] := if_pos huser
      refine ⟨rfl, hconfig, fun notify hmem => ?_⟩
      obtain ⟨i, hflag, hi⟩ := h.flags notify hmem
      have hnew := DispatchCall.closedFlags hrun (h.config.rest notify hmem)
      rw [hcalls]
      by_cases hk : k = .fdClosed notify.fd
      · rw [if_pos hk] at hnew
        exact ⟨1, hnew, by simp [hk]⟩
      · rw [if_neg hk] at hnew
        refine ⟨i, hnew.trans hflag, ?_⟩
        rw [hi, List.mem_append, List.mem_singleton]
        simp [Ne.symm hk]
    · rw [if_neg huser] at hok
      obtain rfl := Except.ok.inj hok
      exact ⟨rfl, hkeep (if_neg huser) rfl fun _ hmem => hmem⟩
  | dispatch notifies => exact absurd rfl (hround notifies)
  | advance =>
    simp only [DispatchConfig.turn] at hturn
    simp only [DispatchConfig.step] at hok
    cases hphase : c.phase with
    | notifying rest =>
      rw [hphase] at hturn hok
      cases rest with
      | nil =>
        obtain rfl := Except.ok.inj hturn
        obtain ⟨changes, -, hok⟩ := except_bind_eq_ok hok
        obtain ⟨d', hforget, hok⟩ := except_bind_eq_ok hok
        obtain rfl := Except.ok.inj hok
        exact ⟨rfl, hkeep rfl (forgetChanges_closedFlags false changes 0 hforget)
          fun _ hmem => absurd hmem List.not_mem_nil⟩
      | cons notify rest =>
        obtain ⟨r, hr, hturn⟩ := except_bind_eq_ok hturn
        obtain rfl := Except.ok.inj hturn
        simp only [hr, except_ok_bind] at hok
        have hnext : c'.d = c.d ∧ c'.phase.rest = rest := by
          cases r with
          | none =>
            obtain rfl := Except.ok.inj hok
            exact ⟨rfl, rfl⟩
          | some called =>
            obtain rfl := Except.ok.inj hok
            exact ⟨rfl, rfl⟩
        refine ⟨by rw [hnext.2]; rfl, hkeep rfl (by rw [hnext.1]) fun notify' hmem => ?_⟩
        rw [hphase]
        rw [hnext.2] at hmem
        exact List.mem_cons_of_mem notify hmem
    | inCallback rest =>
      rw [hphase] at hturn hok
      obtain rfl := Except.ok.inj hturn
      obtain rfl := Except.ok.inj hok
      refine ⟨rfl, hkeep rfl rfl fun notify hmem => ?_⟩
      rw [hphase]
      exact hmem
    | inLater =>
      rw [hphase] at hturn hok
      obtain rfl := Except.ok.inj hturn
      obtain rfl := Except.ok.inj hok
      exact ⟨rfl, hkeep rfl rfl fun _ hmem => absurd hmem List.not_mem_nil⟩
    | outside | settling =>
      rw [hphase] at hturn hok
      obtain rfl := Except.ok.inj hturn
      obtain rfl := Except.ok.inj hok
      exact ⟨by rw [hphase]; rfl, hkeep rfl rfl fun _ hmem => hmem⟩
  | later | finish =>
    obtain rfl := Except.ok.inj hturn
    simp only [DispatchConfig.step] at hok
    cases hphase : c.phase with
    | settling =>
      rw [hphase] at hok
      obtain rfl := Except.ok.inj hok
      exact ⟨rfl, hkeep rfl rfl fun _ hmem => absurd hmem List.not_mem_nil⟩
    | outside | notifying | inCallback | inLater =>
      rw [hphase] at hok
      obtain rfl := Except.ok.inj hok
      exact ⟨by rw [hphase]; rfl, hkeep rfl rfl fun _ hmem => hmem⟩

theorem RoundInv.run {calls : List DispatchCall} : ∀ (labels : List DispatchLabel)
    {c c' : DispatchConfig} {since since' : List DispatchCall} {turns : List Turn},
    RoundInv c calls since → (∀ label ∈ labels, ∀ notifies, label ≠ .dispatch notifies) →
    DispatchConfig.round labels since c = .ok (c', since', turns) →
    turns.map Turn.notify ++ c'.phase.rest = c.phase.rest ∧
      (∀ turn ∈ turns, turn.Exact (mostRecent (calls ++ turn.since))) ∧
      RoundInv c' calls since' := by
  intro labels
  induction labels with
  | nil =>
    intro c c' since since' turns h _ hrun
    simp only [DispatchConfig.round, Except.ok.injEq, Prod.mk.injEq] at hrun
    obtain ⟨rfl, rfl, rfl⟩ := hrun
    exact ⟨rfl, fun turn hmem => absurd hmem List.not_mem_nil, h⟩
  | cons label labels ih =>
    intro c c' since since' turns h hround hrun
    unfold DispatchConfig.round at hrun
    obtain ⟨first, hturn, hrun⟩ := except_bind_eq_ok hrun
    obtain ⟨c₁, hok, hrun⟩ := except_bind_eq_ok hrun
    obtain ⟨r, hrest, hrun⟩ := except_bind_eq_ok hrun
    obtain ⟨rfl, hpair⟩ := Prod.mk.inj (Except.ok.inj hrun)
    obtain ⟨rfl, rfl⟩ := Prod.mk.inj hpair
    obtain ⟨hphase, h₁⟩ := h.step (hround label List.mem_cons_self) hturn hok
    obtain ⟨hphase', hexact, h'⟩ := ih h₁
      (fun l hl => hround l (List.mem_cons_of_mem label hl)) hrest
    refine ⟨?_, fun turn hmem => ?_, h'⟩
    · rw [List.map_append, List.append_assoc, hphase', hphase]
    · obtain hfirst | hlater := List.mem_append.mp hmem
      · exact h.turn hturn turn hfirst
      · exact hexact turn hlater

/-! ## The theorem -/

/-- However the callbacks behave, the notifications have their turns one after the other, each once, and
what is called in a turn is exact; and the dispatcher can always go on. -/
theorem notifications_exact (before : List DispatchLabel) (c₀ : DispatchConfig)
    (calls : List DispatchCall) (hbefore : DispatchConfig.run before .start = .ok (c₀, calls))
    (huser : c₀.phase.user = true) (notifies : List FDNotify) (c₁ : DispatchConfig)
    (hdispatch : c₀.step (.dispatch notifies) = .ok c₁) (labels : List DispatchLabel)
    (hround : ∀ label ∈ labels, ∀ notifies', label ≠ .dispatch notifies') (c : DispatchConfig)
    (since : List DispatchCall) (turns : List Turn)
    (hrun : DispatchConfig.round labels [] c₁ = .ok (c, since, turns)) :
    turns.map Turn.notify ++ c.phase.rest = notifies ∧
      (∀ turn ∈ turns, turn.Exact (mostRecent (calls ++ turn.since))) ∧
      ∃ c', c.step .advance = .ok c' := by
  obtain ⟨hphase, hbegin⟩ := RoundInv.begin (configInv_start.run before hbefore) huser hdispatch
  obtain ⟨hturns, hexact, hinv⟩ := hbegin.run labels hround hrun
  rw [hphase] at hturns
  refine ⟨hturns, hexact, ?_⟩
  obtain ⟨hmay, -⟩ | ⟨c', hok, -⟩ := hinv.config.step .advance
  · exact hmay.elim
  · exact ⟨c', hok⟩

/-- The callback of 5 closes 6 and watches 7 instead, and watches 6 again: 6 is passed over, 7 is
delivered. -/
theorem notifications_exact_reused : ∃ (c : DispatchConfig) (turns : List Turn),
    turns.map Turn.notify ++ c.phase.rest = [⟨5, 1⟩, ⟨6, 1⟩, ⟨7, 3⟩] ∧
    turns.map Turn.invoked = [some (1, ⟨1, 50⟩), none, some (2, ⟨1, 70⟩)] ∧
    ∀ turn ∈ turns, turn.Exact (mostRecent ([.watchFd 5 1 (some ⟨1, 50⟩),
      .watchFd 6 1 (some ⟨1, 60⟩)] ++ turn.since)) := by
  obtain ⟨c₀, hc₀, huser, c₁, hc₁, r, hr, hinvoked⟩ : ∃ c₀,
      DispatchConfig.run [.call (.watchFd 5 1 (some ⟨1, 50⟩)), .call (.watchFd 6 1 (some ⟨1, 60⟩))]
        .start = .ok (c₀, [.watchFd 5 1 (some ⟨1, 50⟩), .watchFd 6 1 (some ⟨1, 60⟩)]) ∧
      c₀.phase.user = true ∧ ∃ c₁, c₀.step (.dispatch [⟨5, 1⟩, ⟨6, 1⟩, ⟨7, 3⟩]) = .ok c₁ ∧
      ∃ r, DispatchConfig.round [.advance, .call (.fdClosed 6),
        .call (.watchFd 7 2 (some ⟨1, 70⟩)), .call (.watchFd 6 1 (some ⟨2, 60⟩)), .advance, .advance,
        .advance] [] c₁ = .ok r ∧
      r.2.2.map Turn.invoked = [some (1, ⟨1, 50⟩), none, some (2, ⟨1, 70⟩)] :=
    ⟨_, rfl, rfl, _, rfl, _, rfl, rfl⟩
  obtain ⟨hturns, hexact, -⟩ := notifications_exact _ c₀ _ hc₀ huser _ c₁ hc₁ _ (by simp) r.1 r.2.1
    r.2.2 hr
  exact ⟨r.1, r.2.2, hturns, hinvoked, hexact⟩

end ProtobufC
