import Mathlib.Tactic

/-! # Recursion on a measure, layer by layer

A recursive function is written as one layer `F : (α → ρ) → α → ρ`, which is given the function
itself for arguments of smaller measure; `layerRec` ties the knot by counting the measure down, so
that it evaluates structurally.

* `layerRec_spec` proves a relation between an argument and its value layer by layer.
* `layerRec_eq` is the recursion equation, for layers that look at smaller arguments only.
* `measure_induction` is induction on the measure.
-/

namespace ProtobufC.Library
set_option autoImplicit false

variable {α ρ : Type}

/-- `n` layers of `F` over the value `bottom`. -/
def layerIter (F : (α → ρ) → α → ρ) (bottom : ρ) : ℕ → α → ρ
  | 0, _ => bottom
  | n + 1, a => F (layerIter F bottom n) a

/-- The function whose layer is `F`. -/
def layerRec (measure : α → ℕ) (F : (α → ρ) → α → ρ) (bottom : ρ) (a : α) : ρ :=
  layerIter F bottom (measure a + 1) a

variable {measure : α → ℕ}

theorem measure_induction (measure : α → ℕ) {P : α → Prop}
    (h : ∀ a, (∀ c, measure c < measure a → P c) → P a) (a : α) : P a := by
  induction hn : measure a using Nat.strong_induction_on generalizing a with
  | _ n ih =>
    apply h
    intro c hc
    exact ih (measure c) (by omega) c rfl

theorem layerIter_spec {F : (α → ρ) → α → ρ} {bottom : ρ} {P : α → ρ → Prop}
    (h : ∀ a g, (∀ c, measure c < measure a → P c (g c)) → P a (F g a)) :
    ∀ n a, measure a < n → P a (layerIter F bottom n a)
  | 0, _, hn => absurd hn (Nat.not_lt_zero _)
  | n + 1, a, hn => by
      apply h
      intro c hc
      exact layerIter_spec h n c (by omega)

/-- A relation that one layer establishes from smaller arguments holds of the recursion. -/
theorem layerRec_spec {F : (α → ρ) → α → ρ} {bottom : ρ} {P : α → ρ → Prop}
    (h : ∀ a g, (∀ c, measure c < measure a → P c (g c)) → P a (F g a)) (a : α) :
    P a (layerRec measure F bottom a) :=
  layerIter_spec h (measure a + 1) a (Nat.lt_succ_self _)

/-- The recursion equation of a layer that looks at smaller arguments only. -/
theorem layerRec_eq {F : (α → ρ) → α → ρ} {bottom : ρ}
    (hlocal : ∀ a g g', (∀ c, measure c < measure a → g c = g' c) → F g a = F g' a) (a : α) :
    layerRec measure F bottom a = F (layerRec measure F bottom) a := by
  have hiter : ∀ n m a, measure a < n → measure a < m →
      layerIter F bottom n a = layerIter F bottom m a := by
    intro n
    induction n with
    | zero => intro m a hn; omega
    | succ n ih =>
      intro m a hn hm
      cases m with
      | zero => omega
      | succ m =>
        apply hlocal
        intro c hc
        exact ih m c (by omega) (by omega)
  apply hlocal
  intro c hc
  exact hiter _ _ c (by omega) (by omega)

end ProtobufC.Library
