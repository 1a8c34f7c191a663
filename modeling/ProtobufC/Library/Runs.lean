import ProtobufC.Library.Outcome

/-! # Fallible computations and runs of a machine

`Ends ub x Q` is the judgement of the development for a computation without a store: `x` ends in a
result that satisfies `Q`, or in a fault that `ub` allows.

A machine is a step function; `Runs step allowed s t` says that `t` is reached from `s` by steps that
are allowed where they are taken.  `Runs.invariant` is the rule for what holds in every state that is
reached.
-/

namespace ProtobufC.Library
set_option autoImplicit false

variable {α β : Type} {ub ub' : Fault → Prop}

/-! ## One computation -/

def Ends (ub : Fault → Prop) (x : Except Fault α) (Q : α → Prop) : Prop :=
  match x with
  | .error e => ub e
  | .ok a => Q a

@[simp] theorem ends_ok (a : α) (Q : α → Prop) : Ends ub (.ok a) Q ↔ Q a := Iff.rfl

@[simp] theorem ends_pure (a : α) (Q : α → Prop) : Ends ub (pure a : Except Fault α) Q ↔ Q a := Iff.rfl

@[simp] theorem ends_error (e : Fault) (Q : α → Prop) : Ends ub (.error e) Q ↔ ub e := Iff.rfl

theorem Ends.bind {x : Except Fault α} {f : α → Except Fault β} {R : α → Prop} {Q : β → Prop}
    (h : Ends ub x R) (hf : ∀ a, R a → Ends ub (f a) Q) : Ends ub (x >>= f) Q := by
  cases x with
  | error e => exact h
  | ok a => exact hf a h

theorem Ends.mono {x : Except Fault α} {Q Q' : α → Prop} (h : Ends ub x Q)
    (hub : ∀ e, ub e → ub' e) (hQ : ∀ a, Q a → Q' a) : Ends ub' x Q' := by
  cases x with
  | error e => exact hub e h
  | ok a => exact hQ a h

theorem Ends.imp {x : Except Fault α} {Q Q' : α → Prop} (h : Ends ub x Q) (hQ : ∀ a, Q a → Q' a) :
    Ends ub x Q' := h.mono (fun _ => id) hQ

/-- A computation that returned satisfies the postcondition. -/
theorem Ends.post {x : Except Fault α} {Q : α → Prop} {a : α} (h : Ends ub x Q) (hx : x = .ok a) :
    Q a := by
  rw [hx] at h
  exact h

theorem Ends.total {x : Except Fault α} {Q : α → Prop} (h : Ends ub x Q) (hub : ∀ e, ¬ ub e) :
    ∃ a, x = .ok a ∧ Q a := by
  cases x with
  | error e => exact absurd h (hub e)
  | ok a => exact ⟨a, rfl, h⟩

theorem ends_of_ok {x : Except Fault α} {Q : α → Prop} {a : α} (hx : x = .ok a) (h : Q a) :
    Ends ub x Q := by
  rw [hx]
  exact h

/-! ## Runs -/

variable {σ ℓ : Type} {step : σ → ℓ → Except Fault σ} {allowed allowed' : σ → ℓ → Prop}

inductive Runs (step : σ → ℓ → Except Fault σ) (allowed : σ → ℓ → Prop) : σ → σ → Prop
  | refl (s : σ) : Runs step allowed s s
  | tail {s t u : σ} (label : ℓ) : Runs step allowed s t → allowed t label →
      step t label = .ok u → Runs step allowed s u

/-- What holds at the start and is kept by every allowed step holds in every state reached. -/
theorem Runs.invariant {s t : σ} {I : σ → Prop} (h : Runs step allowed s t) (hs : I s)
    (hstep : ∀ (t : σ) (label : ℓ) (u : σ), I t → allowed t label → step t label = .ok u → I u) :
    I t := by
  induction h with
  | refl => exact hs
  | tail label _ hallowed hok ih => exact hstep _ label _ ih hallowed hok

/-! ## Runs of given labels -/

/-- `P` holds in every state that the run of the labels comes through, up to the step that fails. -/
def HoldsAlong (step : σ → ℓ → Except Fault σ) (P : σ → Prop) : List ℓ → σ → Prop
  | [], s => P s
  | label :: labels, s => P s ∧ ∀ t, step s label = .ok t → HoldsAlong step P labels t

/-- Every step of the run is allowed where it is taken. -/
def AllowedAlong (step : σ → ℓ → Except Fault σ) (allowed : σ → ℓ → Prop) : List ℓ → σ → Prop
  | [], _ => True
  | label :: labels, s => allowed s label ∧
      ∀ t, step s label = .ok t → AllowedAlong step allowed labels t

/-- Labels that are allowed anywhere are allowed along every run. -/
theorem allowedAlong_of_forall : ∀ {labels : List ℓ}, (∀ label ∈ labels, ∀ s, allowed s label) →
    ∀ s, AllowedAlong step allowed labels s := by
  intro labels
  induction labels with
  | nil => exact fun _ _ => trivial
  | cons label labels ih =>
    exact fun h s => ⟨h label List.mem_cons_self s,
      fun t _ => ih (fun l hl => h l (List.mem_cons_of_mem label hl)) t⟩

/-- Where the allowed steps keep an invariant and every other step leads out of `P`, a property that the
invariant gives holds along exactly the runs of allowed steps; `given` is kept by the surroundings. -/
theorem holdsAlong_iff_given {given : σ → ℓ → Prop} {I P : σ → Prop} (hP : ∀ s, I s → P s)
    (hkept : ∀ s label t, I s → given s label → allowed s label → step s label = .ok t → I t)
    (hbreaks : ∀ s label, I s → given s label → ¬ allowed s label →
      ∃ t, step s label = .ok t ∧ ¬ P t) :
    ∀ (labels : List ℓ) (s : σ), I s → AllowedAlong step given labels s →
      (HoldsAlong step P labels s ↔ AllowedAlong step allowed labels s) := by
  intro labels
  induction labels with
  | nil => exact fun s hs _ => ⟨fun _ => trivial, fun _ => hP s hs⟩
  | cons label labels ih =>
    intro s hs hgiven
    obtain ⟨hlabel, hgiven⟩ := hgiven
    constructor
    · rintro ⟨-, hrest⟩
      have hallowed : allowed s label := by
        by_contra hnot
        obtain ⟨t, hok, hbad⟩ := hbreaks s label hs hlabel hnot
        have hthere := hrest t hok
        cases labels with
        | nil => exact hbad hthere
        | cons _ _ => exact hbad hthere.1
      exact ⟨hallowed, fun t hok =>
        (ih t (hkept s label t hs hlabel hallowed hok) (hgiven t hok)).mp (hrest t hok)⟩
    · rintro ⟨hallowed, hrest⟩
      exact ⟨hP s hs, fun t hok =>
        (ih t (hkept s label t hs hlabel hallowed hok) (hgiven t hok)).mpr (hrest t hok)⟩

theorem holdsAlong_iff {I P : σ → Prop} (hP : ∀ s, I s → P s)
    (hkept : ∀ s label t, I s → allowed s label → step s label = .ok t → I t)
    (hbreaks : ∀ s label, I s → ¬ allowed s label → ∃ t, step s label = .ok t ∧ ¬ P t)
    (labels : List ℓ) (s : σ) (hs : I s) :
    HoldsAlong step P labels s ↔ AllowedAlong step allowed labels s :=
  holdsAlong_iff_given hP (fun s label t hI _ => hkept s label t hI)
    (fun s label hI _ => hbreaks s label hI) labels s hs
    (allowedAlong_of_forall (fun _ _ _ => trivial) s)

theorem AllowedAlong.cons {label : ℓ} {labels : List ℓ} {s t : σ} (hallowed : allowed s label)
    (hok : step s label = .ok t) (hrest : AllowedAlong step allowed labels t) :
    AllowedAlong step allowed (label :: labels) s := by
  refine ⟨hallowed, fun u hu => ?_⟩
  obtain rfl := Except.ok.inj (hok.symm.trans hu)
  exact hrest

/-- Every step of the run succeeds, and `P` holds in every state that the run comes through. -/
def SafeAlong (step : σ → ℓ → Except Fault σ) (P : σ → Prop) : List ℓ → σ → Prop
  | [], s => P s
  | label :: labels, s => P s ∧ ∃ t, step s label = .ok t ∧ SafeAlong step P labels t

theorem SafeAlong.start {P : σ → Prop} : ∀ {labels : List ℓ} {s : σ},
    SafeAlong step P labels s → P s
  | [], _, h => h
  | _ :: _, _, h => h.1

/-- Where the allowed steps succeed and keep an invariant, and every other step fails or leads out of `P`,
exactly the runs of allowed steps are safe. -/
theorem safeAlong_iff_given {given : σ → ℓ → Prop} {I P : σ → Prop} (hP : ∀ s, I s → P s)
    (hkept : ∀ s label, I s → given s label → allowed s label → ∃ t, step s label = .ok t ∧ I t)
    (hbreaks : ∀ s label, I s → given s label → ¬ allowed s label →
      ∀ t, step s label = .ok t → ¬ P t) :
    ∀ (labels : List ℓ) (s : σ), I s → AllowedAlong step given labels s →
      (SafeAlong step P labels s ↔ AllowedAlong step allowed labels s) := by
  intro labels
  induction labels with
  | nil => exact fun s hs _ => ⟨fun _ => trivial, fun _ => hP s hs⟩
  | cons label labels ih =>
    intro s hs hgiven
    obtain ⟨hlabel, hgiven⟩ := hgiven
    constructor
    · rintro ⟨-, t, hok, hrest⟩
      have hallowed : allowed s label := by
        by_contra hnot
        exact hbreaks s label hs hlabel hnot t hok hrest.start
      obtain ⟨u, hok', hu⟩ := hkept s label hs hlabel hallowed
      obtain rfl := Except.ok.inj (hok.symm.trans hok')
      exact .cons hallowed hok ((ih t hu (hgiven t hok)).mp hrest)
    · rintro ⟨hallowed, hrest⟩
      obtain ⟨t, hok, ht⟩ := hkept s label hs hlabel hallowed
      exact ⟨hP s hs, t, hok, (ih t ht (hgiven t hok)).mpr (hrest t hok)⟩

end ProtobufC.Library
