import ProtobufC.Dispatch.DesiredTable

/-! # The desired notifications are exact

Over every run of the dispatcher, `notifies_desired` holds what was registered last, and nothing else.
-/

namespace ProtobufC
open Library
set_option autoImplicit false

/-! ## Runs -/

/-- What is registered for every file descriptor, by the most recent call on it. -/
abbrev Registered : Type := ℕ → Option (UInt32 × Callback)

def DispatchCall.registers (latest : Registered) : DispatchCall → Registered
  | .watchFd fd events callback =>
      fun fd' => if fd' = fd then callback.map (events, ·) else latest fd'
  | .fdClosed fd => fun fd' => if fd' = fd then none else latest fd'
  | .clearChanges => latest

/-- The calls that a step makes. -/
def DispatchConfig.calls (c : DispatchConfig) : DispatchLabel → List DispatchCall
  | .call k => if c.phase.user then [k] else []
  | .dispatch _ | .advance | .later | .finish => []

/-- A run, with the calls that were made in it. -/
def DispatchConfig.run : List DispatchLabel → DispatchConfig →
    Except Fault (DispatchConfig × List DispatchCall)
  | [], c => .ok (c, [])
  | label :: labels, c => do
      let r ← DispatchConfig.run labels (← c.step label)
      return (r.1, c.calls label ++ r.2)

def mostRecent (calls : List DispatchCall) : Registered :=
  calls.foldl DispatchCall.registers fun _ => none

/-! ## The statement -/

/-- The three arrays hold exactly what is registered. -/
structure ExactTable (d : RealDispatch) (latest : Registered) : Prop where
  /-- Every file descriptor is there at most once. -/
  once : ∀ (i j : ℕ) (a b : FDNotify), i < d.nNotifiesDesired → j < d.nNotifiesDesired →
    d.notifiesDesired[i]? = some a → d.notifiesDesired[j]? = some b → a.fd = b.fd → i = j
  /-- Position `i` is filled, with a registered entry and its callback. -/
  sound : ∀ (i : ℕ), i < d.nNotifiesDesired → ∃ (notify : FDNotify) (callback : Callback),
    d.notifiesDesired[i]? = some notify ∧ d.callbacks[i]? = some callback ∧
      latest notify.fd = some (notify.events, callback)
  /-- What is registered has a position, the one in the map. -/
  complete : ∀ (fd : ℕ) (events : UInt32) (callback : Callback),
    latest fd = some (events, callback) → ∃ (i : ℕ) (fm : FDMap), i < d.nNotifiesDesired ∧
      d.notifiesDesired[i]? = some ⟨fd, events⟩ ∧ d.callbacks[i]? = some callback ∧
      d.fdMap[fd]? = some fm ∧ fm.notifyDesiredIndex = i
  /-- The map has no other positions. -/
  absent : ∀ (fd : ℕ) (fm : FDMap), latest fd = none → d.fdMap[fd]? = some fm →
    fm.notifyDesiredIndex = -1

/-- The steps that may fail: an assertion of the source does not hold, or the list of changes has lost
its entries. -/
def DispatchConfig.MayFail (c : DispatchConfig) : DispatchLabel → Prop
  | .call (.watchFd _ events callback) => callback.isNone ≠ decide (events = 0)
  | .call (.fdClosed fd) => c.d.nChanges = 0 ∧ indexOf c.d.changeIndices fd ≠ none
  | .call .clearChanges => ¬ c.d.Tracked
  | .dispatch _ => c.d.isDispatching = true
  | .advance | .later | .finish => False

/-! ## The invariant -/

/-- The notifications that are still to come. -/
def Phase.rest : Phase → List FDNotify
  | .notifying rest | .inCallback rest => rest
  | .outside | .settling | .inLater => []

structure ConfigInv (c : DispatchConfig) (latest : Registered) : Prop where
  table : TableInv c.d
  changes : ChangeRoom c.d
  rest : ∀ notify ∈ c.phase.rest, notify.fd < c.d.fdMap.length
  desired : ∀ fd, c.d.desired fd = (latest fd).map fun r => (⟨fd, r.1⟩, r.2)

theorem ConfigInv.exact {c : DispatchConfig} {latest : Registered} (h : ConfigInv c latest) :
    ExactTable c.d latest := by
  have hT := h.table
  have hget : ∀ (i : ℕ), i < c.d.nNotifiesDesired → ∀ (e : FDNotify × Callback),
      c.d.table[i]? = some e ↔ c.d.notifiesDesired[i]? = some e.1 ∧ c.d.callbacks[i]? = some e.2 := by
    intro i hi e
    unfold RealDispatch.table
    rw [List.getElem?_take_of_lt hi]
    exact List.getElem?_zip_eq_some
  have hfilled : ∀ (i : ℕ), i < c.d.nNotifiesDesired → ∃ e, c.d.table[i]? = some e := by
    intro i hi
    exact ⟨_, List.getElem?_eq_getElem (by rw [hT.length_table]; exact hi)⟩
  refine ⟨?_, ?_, ?_, ?_⟩
  · intro i j a b hi hj ha hb hab
    obtain ⟨e, he⟩ := hfilled i hi
    obtain ⟨e', he'⟩ := hfilled j hj
    obtain ⟨hn, -⟩ := (hget i hi e).mp he
    obtain ⟨hn', -⟩ := (hget j hj e').mp he'
    rw [ha, Option.some.injEq] at hn
    rw [hb, Option.some.injEq] at hn'
    exact hT.indexes.injective he he' (by rw [← hn, ← hn', hab])
  · intro i hi
    obtain ⟨e, he⟩ := hfilled i hi
    obtain ⟨hn, hc⟩ := (hget i hi e).mp he
    have hent : c.d.desired e.1.fd = some e :=
      hT.indexes.entryAt_eq_some.mpr ⟨List.mem_of_getElem? he, rfl⟩
    rw [h.desired, Option.map_eq_some_iff] at hent
    obtain ⟨r, hr, hre⟩ := hent
    exact ⟨e.1, e.2, hn, hc, by rw [hr, ← hre]⟩
  · intro fd events callback hlatest
    have hent := h.desired fd
    rw [hlatest] at hent
    unfold RealDispatch.desired entryAt at hent
    obtain ⟨i, hidx, hi⟩ := Option.bind_eq_some_iff.mp hent
    have hlt := hT.indexes.lt_length hidx
    rw [hT.length_table] at hlt
    obtain ⟨hn, hc⟩ := (hget i hlt _).mp hi
    have hcol := hT.column.indexOf_eq_some.mp hidx
    unfold RealDispatch.notifyIndices at hcol
    rw [List.getElem?_map, Option.map_eq_some_iff] at hcol
    obtain ⟨fm, hfm, hfmi⟩ := hcol
    exact ⟨i, fm, hlt, hn, hc, hfm, hfmi⟩
  · intro fd fm hlatest hfm
    have hent := h.desired fd
    rw [hlatest] at hent
    by_contra hne
    obtain ⟨-, e, -, -, -, -, -, -, -, hdes⟩ := hT.found hfm hne
    rw [hdes] at hent
    exact absurd hent (by simp)

theorem configInv_start : ConfigInv .start (mostRecent []) where
  table := tableInv_new
  changes := changeRoom_new
  rest := by intro notify hmem; exact absurd hmem (by simp [DispatchConfig.start, Phase.rest])
  desired := by
    intro fd
    exact tableInv_new.indexes.entryAt_eq_none.mpr (by
      have happ := indexOf_append_unknown [] 16
      rw [List.nil_append] at happ
      exact congrFun happ fd)

/-! ## Steps -/

theorem ConfigInv.congr {c c' : DispatchConfig} {latest : Registered} (h : ConfigInv c latest)
    (htable : SameTable c.d c'.d) (hchanges : ChangeRoom c'.d)
    (hrest : ∀ notify ∈ c'.phase.rest, notify ∈ c.phase.rest) : ConfigInv c' latest where
  table := h.table.congr htable
  changes := hchanges
  rest := by
    intro notify hmem
    rw [htable.length]
    exact h.rest notify (hrest notify hmem)
  desired := by rw [htable.desired]; exact h.desired

theorem ConfigInv.call {c : DispatchConfig} {latest : Registered} (h : ConfigInv c latest)
    (k : DispatchCall) :
    (c.MayFail (.call k) ∧ ∃ f, k.run c.d = .error f) ∨
      ∃ d', k.run c.d = .ok d' ∧ ConfigInv { c with d := d' } (k.registers latest) := by
  cases k with
  | watchFd fd events callback =>
    by_cases hok : callback.isNone = decide (events = 0)
    · right
      obtain ⟨d', hrun, hT, hC, hlen, hdes⟩ := dispatchWatchFd_spec h.table h.changes fd hok
      refine ⟨d', hrun, hT, hC, fun notify hmem => (h.rest notify hmem).trans_le hlen, fun fd' => ?_⟩
      rw [hdes fd', h.desired]
      simp only [DispatchCall.registers]
      by_cases hfd : fd' = fd
      · rw [if_pos hfd, if_pos hfd, hfd]
        cases callback <;> rfl
      · rw [if_neg hfd, if_neg hfd]
    · exact .inl ⟨hok, _, if_pos hok⟩
  | fdClosed fd =>
    obtain ⟨hzero, hidx, f, herr⟩ | ⟨d', hrun, hT, hC, hlen, hdes⟩ :=
      dispatchFdClosed_spec h.table h.changes fd
    · exact .inl ⟨⟨hzero, hidx⟩, f, herr⟩
    · right
      refine ⟨d', hrun, hT, hC, fun notify hmem => (h.rest notify hmem).trans_le hlen, fun fd' => ?_⟩
      rw [hdes fd', h.desired]
      simp only [DispatchCall.registers]
      by_cases hfd : fd' = fd
      · rw [if_pos hfd, if_pos hfd]
        rfl
      · rw [if_neg hfd, if_neg hfd]
  | clearChanges =>
    cases hrun : dispatchClearChanges c.d with
    | error f =>
      left
      refine ⟨fun htracked => ?_, f, hrun⟩
      obtain ⟨d', hok, -⟩ := dispatchClearChanges_spec h.changes htracked
      rw [hok] at hrun
      exact absurd hrun (by simp)
    | ok d' =>
      obtain ⟨hsame, hC⟩ := dispatchClearChanges_same h.changes hrun
      have hkept : ConfigInv { c with d := d' } _ := h.congr hsame hC fun _ hmem => hmem
      exact .inr ⟨d', hrun, hkept⟩

theorem le_foldl_max (notifies : List FDNotify) : ∀ (fd_max : ℕ),
    fd_max ≤ notifies.foldl (fun fd_max n => if fd_max < n.fd then n.fd else fd_max) fd_max ∧
    ∀ notify ∈ notifies, notify.fd ≤
      notifies.foldl (fun fd_max n => if fd_max < n.fd then n.fd else fd_max) fd_max := by
  induction notifies with
  | nil => exact fun fd_max => ⟨Nat.le_refl fd_max, by simp⟩
  | cons n notifies ih =>
    intro fd_max
    obtain ⟨hge, hall⟩ := ih (if fd_max < n.fd then n.fd else fd_max)
    rw [List.foldl_cons]
    refine ⟨?_, fun notify hmem => ?_⟩
    · split_ifs at hge ⊢ <;> omega
    · obtain rfl | hmem := List.mem_cons.mp hmem
      · split_ifs at hge ⊢ <;> omega
      · exact hall notify hmem

theorem reopened_same (notifies : List FDNotify) : ∀ (d : RealDispatch),
    SameTable d (notifies.foldl (fun d n => d.modifyFm n.fd fun fm =>
      { fm with closedSinceNotifyStarted := 0 }) d) ∧
    SameChanges d (notifies.foldl (fun d n => d.modifyFm n.fd fun fm =>
      { fm with closedSinceNotifyStarted := 0 }) d) := by
  induction notifies with
  | nil => exact fun d => ⟨⟨rfl, rfl, rfl, rfl⟩, rfl, rfl, rfl⟩
  | cons n notifies ih =>
    intro d
    obtain ⟨hT, hC⟩ := ih (d.modifyFm n.fd fun fm => { fm with closedSinceNotifyStarted := 0 })
    exact ⟨(sameTable_closed d n.fd 0).trans hT, (sameChanges_closed d n.fd 0).trans hC⟩

theorem beginDispatch_spec {d : RealDispatch} (h : TableInv d) (hC : ChangeRoom d)
    (hidle : d.isDispatching = false) (notifies : List FDNotify) :
    ∃ d', beginDispatch d notifies = .ok d' ∧ TableInv d' ∧ ChangeRoom d' ∧
      d'.desired = d.desired ∧ (∀ notify ∈ notifies, notify.fd < d'.fdMap.length) ∧
      d'.pending = d.pending ∧ indexOf d'.changeIndices = indexOf d.changeIndices := by
  have h₀ : TableInv { d with isDispatching := true } :=
    ⟨h.rooms, h.room, h.count, h.map, h.column, h.indexes⟩
  have hC₀ : ChangeRoom { d with isDispatching := true } :=
    ⟨hC.room, hC.count, hC.column, hC.bound, hC.known⟩
  let fd_max := notifies.foldl (fun fd_max n => if fd_max < n.fd then n.fd else fd_max) 0
  obtain ⟨hT, hdes, hlt⟩ := h₀.ensure fd_max
  obtain ⟨hpend, hidx⟩ := ensure_pending (d := { d with isDispatching := true }) fd_max
  obtain ⟨hsame, hchanges⟩ := reopened_same notifies
    (ensureFdMapBigEnough { d with isDispatching := true } fd_max)
  refine ⟨_, by unfold beginDispatch; rw [hidle]; rfl, hT.congr hsame,
    (hC₀.ensure fd_max).congr hchanges, hsame.desired.trans hdes, fun notify hmem => ?_,
    hchanges.pending.trans hpend, by rw [hchanges.indices, hidx]; rfl⟩
  rw [hsame.length]
  exact ((le_foldl_max notifies 0).2 notify hmem).trans_lt hlt

theorem notifiedCallback_spec {d : RealDispatch} (h : TableInv d) {notify : FDNotify}
    (hlt : notify.fd < d.fdMap.length) : ∃ r, notifiedCallback d notify = .ok r := by
  obtain ⟨fm, hfm⟩ : ∃ fm, d.fdMap[notify.fd]? = some fm := ⟨_, List.getElem?_eq_getElem hlt⟩
  have hread : d.fm notify.fd = .ok fm := RealDispatch.fm_ok.mpr hfm
  unfold notifiedCallback
  simp only [bind, Except.bind, hread]
  by_cases hopen : fm.closedSinceNotifyStarted = 0 ∧ fm.notifyDesiredIndex ≠ -1
  · obtain ⟨i, e, hi, -, -, -, -, hn, hc, -⟩ := h.found hfm hopen.2
    have hreadn : readAtIndex d.notifiesDesired fm.notifyDesiredIndex.toNat = .ok e.1 := by
      rw [hi, Int.toNat_natCast, readAtIndex, hn]
    have hreadc : readAtIndex d.callbacks fm.notifyDesiredIndex.toNat = .ok e.2 := by
      rw [hi, Int.toNat_natCast, readAtIndex, hc]
    rw [if_pos hopen, hreadn, hreadc]
    simp only
    split_ifs
    · exact ⟨_, rfl⟩
    · exact ⟨_, rfl⟩
  · rw [if_neg hopen]
    exact ⟨_, rfl⟩

theorem ConfigInv.step {c : DispatchConfig} {latest : Registered} (h : ConfigInv c latest)
    (label : DispatchLabel) :
    (c.MayFail label ∧ ∃ f, c.step label = .error f) ∨
      ∃ c', c.step label = .ok c' ∧
        ConfigInv c' ((c.calls label).foldl DispatchCall.registers latest) := by
  have hnone : ∀ phase : Phase, (∀ notify ∈ phase.rest, notify ∈ c.phase.rest) →
      ConfigInv ⟨c.d, phase⟩ latest :=
    fun phase hrest => h.congr ⟨rfl, rfl, rfl, rfl⟩ h.changes hrest
  have hstay : ∀ phase : Phase, phase.rest = [] → ConfigInv ⟨c.d, phase⟩ latest := by
    intro phase hrest
    refine hnone phase fun notify hmem => ?_
    rw [hrest] at hmem
    exact absurd hmem List.not_mem_nil
  cases label with
  | call k =>
    by_cases huser : c.phase.user = true
    · simp only [DispatchConfig.step, DispatchConfig.calls, if_pos huser, List.foldl_cons,
        List.foldl_nil, bind, Except.bind]
      obtain ⟨hmay, f, herr⟩ | ⟨d', hok, hinv⟩ := h.call k
      · rw [herr]
        exact .inl ⟨hmay, f, rfl⟩
      · rw [hok]
        exact .inr ⟨_, rfl, hinv⟩
    · right
      simp only [DispatchConfig.step, DispatchConfig.calls, if_neg huser, List.foldl_nil]
      exact ⟨c, rfl, h⟩
  | dispatch notifies =>
    by_cases huser : c.phase.user = true
    · simp only [DispatchConfig.step, DispatchConfig.calls, if_pos huser, List.foldl_nil, bind,
        Except.bind]
      by_cases hbusy : c.d.isDispatching = true
      · left
        refine ⟨hbusy, .assertion, ?_⟩
        rw [beginDispatch, if_pos hbusy]
      · right
        obtain ⟨d', hok, hT, hC, hdes, hrest, -⟩ := beginDispatch_spec h.table h.changes
          (Bool.not_eq_true _ ▸ hbusy) notifies
        rw [hok]
        exact ⟨_, rfl, hT, hC, hrest, fun fd => by rw [hdes, h.desired]⟩
    · right
      simp only [DispatchConfig.step, DispatchConfig.calls, if_neg huser, List.foldl_nil]
      exact ⟨c, rfl, h⟩
  | advance =>
    right
    simp only [DispatchConfig.step, DispatchConfig.calls, List.foldl_nil]
    cases hphase : c.phase with
    | outside => exact ⟨c, rfl, h⟩
    | settling => exact ⟨c, rfl, h⟩
    | inLater => exact ⟨_, rfl, hstay .settling rfl⟩
    | inCallback rest =>
      refine ⟨_, rfl, hnone (.notifying rest) fun notify hmem => ?_⟩
      rw [hphase]
      exact hmem
    | notifying rest =>
      cases rest with
      | nil =>
        have hpending : c.d.pendingChanges = .ok c.d.pending := if_pos h.changes.count
        obtain ⟨d', hok, hsame, hC, -⟩ := forgetChanges_spec false c.d.pending 0 c.d h.changes
          (fun change hmem => h.changes.known change (List.mem_of_mem_take hmem))
          (fun hfalse => absurd hfalse (by simp))
        simp only [bind, Except.bind, hpending, hok]
        have hkept : ConfigInv ⟨d', .settling⟩ _ :=
          h.congr hsame hC fun notify hmem => absurd hmem List.not_mem_nil
        exact ⟨_, rfl, hkept⟩
      | cons notify rest =>
        have hmem : notify ∈ c.phase.rest := by
          rw [hphase]
          exact List.mem_cons_self
        have hrest : ∀ notify' ∈ rest, notify' ∈ c.phase.rest := by
          intro notify' hmem'
          rw [hphase]
          exact List.mem_cons_of_mem notify hmem'
        obtain ⟨r, hr⟩ := notifiedCallback_spec h.table (h.rest notify hmem)
        simp only [bind, Except.bind, hr]
        cases r with
        | none => exact ⟨_, rfl, hnone (.notifying rest) hrest⟩
        | some called => exact ⟨_, rfl, hnone (.inCallback rest) hrest⟩
  | later =>
    right
    simp only [DispatchConfig.step, DispatchConfig.calls, List.foldl_nil]
    cases hphase : c.phase with
    | settling => exact ⟨_, rfl, hstay .inLater rfl⟩
    | outside | notifying | inCallback | inLater => exact ⟨c, rfl, h⟩
  | finish =>
    right
    simp only [DispatchConfig.step, DispatchConfig.calls, List.foldl_nil]
    cases hphase : c.phase with
    | settling =>
      exact ⟨_, rfl, ⟨h.table.rooms, h.table.room, h.table.count, h.table.map, h.table.column,
        h.table.indexes⟩, ⟨h.changes.room, h.changes.count, h.changes.column, h.changes.bound,
        h.changes.known⟩, fun notify hmem => absurd hmem List.not_mem_nil, h.desired⟩
    | outside | notifying | inCallback | inLater => exact ⟨c, rfl, h⟩

/-! ## The theorem -/

theorem ConfigInv.run : ∀ (labels : List DispatchLabel) {c c' : DispatchConfig}
    {latest : Registered} {calls : List DispatchCall}, ConfigInv c latest →
    DispatchConfig.run labels c = .ok (c', calls) →
    ConfigInv c' (calls.foldl DispatchCall.registers latest) := by
  intro labels
  induction labels with
  | nil =>
    intro c c' latest calls h hrun
    simp only [DispatchConfig.run, Except.ok.injEq, Prod.mk.injEq] at hrun
    obtain ⟨rfl, rfl⟩ := hrun
    exact h
  | cons label labels ih =>
    intro c c' latest calls h hrun
    simp only [DispatchConfig.run, bind, Except.bind] at hrun
    obtain ⟨-, f, herr⟩ | ⟨c₁, hok, h₁⟩ := h.step label
    · rw [herr] at hrun
      exact absurd hrun (by simp)
    · rw [hok] at hrun
      simp only at hrun
      cases hrest : DispatchConfig.run labels c₁ with
      | error f =>
        rw [hrest] at hrun
        exact absurd hrun (by simp)
      | ok r =>
        rw [hrest] at hrun
        obtain ⟨rfl, rfl⟩ := Prod.mk.inj (Except.ok.inj hrun)
        rw [List.foldl_append]
        exact ih h₁ hrest

end ProtobufC
