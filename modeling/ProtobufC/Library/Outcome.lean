import Mathlib.Tactic

/-! # Stateful computations with undefined behaviour

A C function that reads and writes a store of type `σ` is a computation `Run σ α`: from a store it
returns a value and the next store, or ends in a `Fault`.

`Meets ub x s Q` is the one correctness judgement of the development: if `x` started in `s`
returns then the result satisfies `Q`, and `x` ends in a fault only where `ub` allows it.  With
`ub` false it is total correctness, with `ub` true partial correctness; a hypothesis on the input
that rules faults out is carried in `ub`, so that one proof gives both.
-/

namespace ProtobufC.Library
set_option autoImplicit false

/-- Where a C program's behaviour ends: a read or write outside an object, a read through a NULL
pointer of a message, the release of a block that is not live, a failed assertion, a shift by the
width of the type or more, a loop without end. -/
inductive Fault
  | access
  | null
  | release
  | assertion
  | shift
  | hang
  deriving DecidableEq, Repr

/-- A computation over the store `σ`. -/
abbrev Run (σ α : Type) := StateT σ (Except Fault) α

variable {σ α β : Type} {ub : Fault → Prop}

def fault (e : Fault) : Run σ α := fun _ => .error e

theorem run_bind {x : Run σ α} {f : α → Run σ β} {s s' : σ} {a : α} (h : x s = .ok (a, s')) :
    (x >>= f) s = f a s' := by
  simp only [bind, StateT.bind, h, Except.bind]

/-- `x` from `s` ends in a result that satisfies `Q`, or in a fault that `ub` allows. -/
def Meets (ub : Fault → Prop) (x : Run σ α) (s : σ) (Q : α → σ → Prop) : Prop :=
  match x s with
  | .error e => ub e
  | .ok (a, s') => Q a s'

/-- No fault is allowed. -/
abbrev NoFault : Fault → Prop := fun _ => False

theorem meets_def (x : Run σ α) (s : σ) (Q : α → σ → Prop) :
    Meets ub x s Q ↔ (∀ e, x s = .error e → ub e) ∧ ∀ a s', x s = .ok (a, s') → Q a s' := by
  unfold Meets
  cases h : x s with
  | error e => simp
  | ok r =>
    obtain ⟨a, s'⟩ := r
    simp

theorem Meets.total {x : Run σ α} {s : σ} {Q : α → σ → Prop} (h : Meets ub x s Q)
    (hub : ∀ e, ¬ ub e) : ∃ a s', x s = .ok (a, s') ∧ Q a s' := by
  unfold Meets at h
  cases hx : x s with
  | error e => simp only [hx] at h; exact absurd h (hub e)
  | ok r =>
    obtain ⟨a, s'⟩ := r
    simp only [hx] at h
    exact ⟨a, s', rfl, h⟩

/-- A run that returned satisfies the postcondition. -/
theorem Meets.post {x : Run σ α} {s s' : σ} {a : α} {Q : α → σ → Prop} (h : Meets ub x s Q)
    (hx : x s = .ok (a, s')) : Q a s' := by
  unfold Meets at h
  rw [hx] at h
  exact h

/-- A run that did not return ended in a fault that is allowed. -/
theorem Meets.faulty {x : Run σ α} {s : σ} {e : Fault} {Q : α → σ → Prop} (h : Meets ub x s Q)
    (hx : x s = .error e) : ub e := by
  unfold Meets at h
  rw [hx] at h
  exact h

@[simp] theorem meets_pure (a : α) (s : σ) (Q : α → σ → Prop) :
    Meets ub (pure a : Run σ α) s Q ↔ Q a s := Iff.rfl

@[simp] theorem meets_fault (e : Fault) (s : σ) (Q : α → σ → Prop) :
    Meets ub (fault e : Run σ α) s Q ↔ ub e := Iff.rfl

@[simp] theorem meets_get (s : σ) (Q : σ → σ → Prop) :
    Meets ub (get : Run σ σ) s Q ↔ Q s s := Iff.rfl

@[simp] theorem meets_modify (f : σ → σ) (s : σ) (Q : PUnit → σ → Prop) :
    Meets ub (modify f : Run σ PUnit) s Q ↔ Q ⟨⟩ (f s) := Iff.rfl

@[simp] theorem meets_bind (x : Run σ α) (f : α → Run σ β) (s : σ) (Q : β → σ → Prop) :
    Meets ub (x >>= f) s Q ↔ Meets ub x s (fun a s' => Meets ub (f a) s' Q) := by
  unfold Meets
  simp only [bind, StateT.bind, Except.bind]
  cases x s with
  | error e => simp
  | ok r => simp

theorem Meets.mono {ub' : Fault → Prop} {x : Run σ α} {s : σ} {Q Q' : α → σ → Prop}
    (h : Meets ub x s Q) (hub : ∀ e, ub e → ub' e) (hQ : ∀ a s', Q a s' → Q' a s') :
    Meets ub' x s Q' := by
  unfold Meets at h ⊢
  cases hx : x s with
  | error e => rw [hx] at h; exact hub e h
  | ok r => rw [hx] at h; exact hQ _ _ h

theorem Meets.imp {x : Run σ α} {s : σ} {Q Q' : α → σ → Prop} (h : Meets ub x s Q)
    (hQ : ∀ a s', Q a s' → Q' a s') : Meets ub x s Q' := h.mono (fun _ => id) hQ

theorem Meets.bind {x : Run σ α} {f : α → Run σ β} {s : σ} {R : α → σ → Prop} {Q : β → σ → Prop}
    (h : Meets ub x s R) (hf : ∀ a s', R a s' → Meets ub (f a) s' Q) :
    Meets ub (x >>= f) s Q := (meets_bind x f s Q).mpr (h.imp hf)

theorem meets_ite (c : Prop) [Decidable c] (x y : Run σ α) (s : σ) (Q : α → σ → Prop) :
    Meets ub (if c then x else y) s Q ↔ (c → Meets ub x s Q) ∧ (¬ c → Meets ub y s Q) := by
  by_cases h : c <;> simp [h]

/-! ## Pure computations that may fault -/

@[simp] theorem except_pure (a : α) : (pure a : Except Fault α) = .ok a := rfl

@[simp] theorem except_ok_bind (a : α) (f : α → Except Fault β) : (.ok a >>= f) = f a := rfl

@[simp] theorem except_error_bind (e : Fault) (f : α → Except Fault β) :
    (.error e >>= f) = .error e := rfl

theorem except_bind_eq_ok {x : Except Fault α} {f : α → Except Fault β} {b : β}
    (h : (x >>= f) = .ok b) : ∃ a, x = .ok a ∧ f a = .ok b := by
  cases x with
  | error e => exact absurd h (by simp)
  | ok a => exact ⟨a, rfl, h⟩

/-- What follows a computation in step is in step with the whole. -/
theorem except_bind_eq_map {γ : Type} {x : Except Fault α} {f : α → Except Fault γ}
    {f' : α → Except Fault β} {g : β → γ} (h : ∀ a, f a = (f' a).map g) :
    (x >>= f) = (x >>= f').map g := by
  cases x with
  | error e => rfl
  | ok a => exact h a

theorem except_map_bind_eq {γ δ : Type} {x : Except Fault α} {k : α → δ} {f : δ → Except Fault γ}
    {f' : α → Except Fault β} {g : β → γ} (h : ∀ a, f (k a) = (f' a).map g) :
    (x.map k >>= f) = (x >>= f').map g := by
  cases x with
  | error e => rfl
  | ok a => exact h a

@[simp] theorem except_map_ok (f : α → β) (a : α) :
    (f <$> (.ok a : Except Fault α)) = .ok (f a) := rfl

/-- A step that reads the store only: a pure computation that may fault. -/
def require (o : Except Fault α) : Run σ α := fun s => o.map fun a => (a, s)

@[simp] theorem require_ok (a : α) : (require (.ok a) : Run σ α) = pure a := rfl

@[simp] theorem meets_require (o : Except Fault α) (s : σ) (Q : α → σ → Prop) :
    Meets ub (require o : Run σ α) s Q ↔ (∀ e, o = .error e → ub e) ∧ ∀ a, o = .ok a → Q a s := by
  cases o with
  | error e => simp [require, Meets, Except.map]
  | ok a => simp [require, Meets, Except.map]

/-! ## A fault that is never met -/

/-- `x` ends in the fault `e` from no store. -/
def Never (e : Fault) (x : Run σ α) : Prop := ∀ s, x s ≠ .error e

section Never
variable {e : Fault}

theorem never_pure (a : α) : Never e (pure a : Run σ α) := fun s h =>
  absurd (show Except.ok (a, s) = .error e from h) (by simp)

theorem never_get : Never e (get : Run σ σ) := fun s h =>
  absurd (show Except.ok (s, s) = .error e from h) (by simp)

theorem never_modify (f : σ → σ) : Never e (modify f : Run σ PUnit) := fun s h =>
  absurd (show Except.ok ((), f s) = .error e from h) (by simp)

theorem never_fault {e' : Fault} (h : e' ≠ e) : Never e (fault e' : Run σ α) :=
  fun _ h' => h (Except.error.inj h')

theorem Never.bind {x : Run σ α} {f : α → Run σ β} (hx : Never e x) (hf : ∀ a, Never e (f a)) :
    Never e (x >>= f) := by
  intro s h
  simp only [Bind.bind, StateT.bind, Except.bind] at h
  cases hr : x s with
  | error e' =>
    rw [hr, Except.error.injEq] at h
    exact hx s (h ▸ hr)
  | ok r =>
    rw [hr] at h
    exact hf r.1 r.2 h

theorem Never.require {o : Except Fault α} {f : α → Run σ β} (h : o ≠ .error e)
    (hf : ∀ a, o = .ok a → Never e (f a)) : Never e (require o >>= f) := by
  intro s hs
  cases o with
  | error e' => exact h (congrArg Except.error (Except.error.inj hs))
  | ok a => exact hf a rfl s hs

theorem Never.ite {c : Prop} [Decidable c] {x y : Run σ α} (hx : Never e x) (hy : Never e y) :
    Never e (if c then x else y) := by
  split
  · exact hx
  · exact hy

end Never

end ProtobufC.Library
