import ProtobufC.Library.Runs

/-! # Simulation

A specification is a relation between states with an event on every step; `Trace` is a run of it.  Where
every allowed step of a machine is matched by a trace that shows the same, so is every run
(`Runs.simulated`).
-/

namespace ProtobufC.Library
set_option autoImplicit false

variable {σ ℓ τ ε : Type} {spec : τ → ε → τ → Prop} {t u v : τ} {es es' : List ε} {e : ε}

/-- A run of a specification, with its events. -/
inductive Trace (spec : τ → ε → τ → Prop) (t : τ) : List ε → τ → Prop
  | refl : Trace spec t [] t
  | tail {u v : τ} {es : List ε} (e : ε) : Trace spec t es u → spec u e v → Trace spec t (es ++ [e]) v

theorem Trace.single (h : spec t e u) : Trace spec t [e] u := by
  rw [← List.nil_append [e]]
  exact .tail e .refl h

theorem Trace.append (h : Trace spec t es u) (h' : Trace spec u es' v) : Trace spec t (es ++ es') v := by
  induction h' with
  | refl =>
    rw [List.append_nil]
    exact h
  | tail e _ hstep ih =>
    rw [← List.append_assoc]
    exact .tail e ih hstep

/-- What holds at the start and is kept by every step, together with the events so far, holds of every
trace. -/
theorem Trace.invariant {I : List ε → τ → Prop} (h : Trace spec t es u) (hstart : I [] t)
    (hstep : ∀ es u e v, I es u → spec u e v → I (es ++ [e]) v) : I es u := by
  induction h with
  | refl => exact hstart
  | tail e _ hspec ih => exact hstep _ _ e _ ih hspec

/-- A machine whose steps are matched by traces is matched by a trace in every run; `shows` says what of
the machine the events are. -/
theorem Runs.simulated {step : σ → ℓ → Except Fault σ} {allowed : σ → ℓ → Prop} {R : σ → τ → Prop}
    {shows : σ → List ε → σ → Prop} (hrefl : ∀ s, shows s [] s)
    (htrans : ∀ s es s' es' s'', shows s es s' → shows s' es' s'' → shows s (es ++ es') s'')
    (hstep : ∀ s label s' t, R s t → allowed s label → step s label = .ok s' →
      ∃ es t', Trace spec t es t' ∧ R s' t' ∧ shows s es s')
    {s s' : σ} (h : Runs step allowed s s') (hstart : R s t) :
    ∃ es t', Trace spec t es t' ∧ R s' t' ∧ shows s es s' := by
  induction h with
  | refl => exact ⟨[], t, .refl, hstart, hrefl s⟩
  | tail label _ hallowed hok ih =>
    obtain ⟨es, u, htrace, hrel, hshows⟩ := ih
    obtain ⟨es', v, htrace', hrel', hshows'⟩ := hstep _ label _ u hrel hallowed hok
    exact ⟨es ++ es', v, htrace.append htrace', hrel', htrans _ es _ es' _ hshows hshows'⟩

end ProtobufC.Library
