import ProtobufC.Library.Outcome

/-! # Chains of nodes in a store

A linked list in memory is a store, which maps addresses to nodes, with a function that says where the
next node is.

* `Chain next store p xs q` says that the nodes from `p` up to `q` are `xs`, each with its address.
* `walk` is a loop over a chain that only reads it, and may stop early; `walk_chain` makes it a
  function of the list.
* `Chain.congr`, `chain_append` and `chain_concat` are what updates of the store need.
-/

namespace ProtobufC.Library
set_option autoImplicit false

variable {ι α : Type} {next : α → Option ι}

/-- The nodes from `p` up to `q`, with their addresses. -/
def Chain (next : α → Option ι) (store : ι → Option α) : Option ι → List (ι × α) → Option ι → Prop
  | p, [], q => p = q
  | p, (i, a) :: xs, q => p = some i ∧ store i = some a ∧ Chain next store (next a) xs q

/-- The addresses of a chain. -/
abbrev addresses (xs : List (ι × α)) : List ι := xs.map Prod.fst

section
variable {store store' : ι → Option α}

theorem Chain.store_eq : ∀ {xs : List (ι × α)} {p q : Option ι}, Chain next store p xs q →
    ∀ x ∈ xs, store x.1 = some x.2 := by
  intro xs
  induction xs with
  | nil => exact fun _ x hx => absurd hx List.not_mem_nil
  | cons y xs ih =>
    intro p q h x hx
    obtain ⟨-, hstore, hrest⟩ := h
    obtain rfl | hx := List.mem_cons.mp hx
    · exact hstore
    · exact ih hrest x hx

/-- A chain depends on the store at its own addresses only. -/
theorem Chain.congr : ∀ {xs : List (ι × α)} {p q : Option ι}, Chain next store p xs q →
    (∀ x ∈ xs, store' x.1 = some x.2) → Chain next store' p xs q := by
  intro xs
  induction xs with
  | nil => exact fun h _ => h
  | cons y xs ih =>
    intro p q h hsame
    obtain ⟨hp, -, hrest⟩ := h
    exact ⟨hp, hsame y List.mem_cons_self, ih hrest fun x hx => hsame x (List.mem_cons_of_mem y hx)⟩

theorem chain_append : ∀ {xs ys : List (ι × α)} {p q : Option ι},
    Chain next store p (xs ++ ys) q ↔ ∃ r, Chain next store p xs r ∧ Chain next store r ys q := by
  intro xs
  induction xs with
  | nil =>
    intro ys p q
    constructor
    · exact fun h => ⟨p, rfl, h⟩
    · intro h
      obtain ⟨r, hr, h⟩ := h
      obtain rfl : p = r := hr
      exact h
  | cons y xs ih =>
    intro ys p q
    constructor
    · intro h
      obtain ⟨hp, hstore, hrest⟩ := h
      obtain ⟨r, hxs, hys⟩ := ih.mp hrest
      exact ⟨r, ⟨hp, hstore, hxs⟩, hys⟩
    · intro h
      obtain ⟨r, ⟨hp, hstore, hxs⟩, hys⟩ := h
      exact ⟨hp, hstore, ih.mpr ⟨r, hxs, hys⟩⟩

theorem chain_concat {xs : List (ι × α)} {i : ι} {a : α} {p q : Option ι} :
    Chain next store p (xs ++ [(i, a)]) q ↔
      Chain next store p xs (some i) ∧ store i = some a ∧ next a = q := by
  rw [chain_append]
  constructor
  · intro h
    obtain ⟨r, hxs, hr, hstore, hq⟩ := h
    subst hr
    exact ⟨hxs, hstore, hq⟩
  · intro h
    obtain ⟨hxs, hstore, hq⟩ := h
    exact ⟨some i, hxs, rfl, hstore, hq⟩

theorem Chain.unique : ∀ {xs ys : List (ι × α)} {p : Option ι}, Chain next store p xs none →
    Chain next store p ys none → xs = ys := by
  intro xs
  induction xs with
  | nil =>
    intro ys p hxs hys
    obtain rfl : p = none := hxs
    cases ys with
    | nil => rfl
    | cons y ys => exact absurd hys.1 (by simp)
  | cons x xs ih =>
    intro ys p hxs hys
    obtain ⟨hp, hstore, hrest⟩ := hxs
    cases ys with
    | nil =>
      obtain rfl : p = none := hys
      exact absurd hp (by simp)
    | cons y ys =>
      obtain ⟨hp', hstore', hrest'⟩ := hys
      have hi : x.1 = y.1 := by
        rw [hp, Option.some.injEq] at hp'
        exact hp'
      have ha : x.2 = y.2 := by
        rw [hi, hstore', Option.some.injEq] at hstore
        exact hstore.symm
      rw [← ha] at hrest'
      rw [Prod.ext hi ha, ih hrest hrest']

/-- A chain that ends does not come back to an address. -/
theorem Chain.nodup : ∀ {xs : List (ι × α)} {p : Option ι}, Chain next store p xs none →
    (addresses xs).Nodup := by
  intro xs
  induction xs with
  | nil => exact fun _ => List.nodup_nil
  | cons x xs ih =>
    intro p h
    obtain ⟨hp, hstore, hrest⟩ := h
    refine List.nodup_cons.mpr ⟨fun hmem => ?_, ih hrest⟩
    -- the rest would lead from its first node to itself
    obtain ⟨y, hy, hyx⟩ := List.mem_map.mp hmem
    obtain ⟨before, after, rfl⟩ := List.append_of_mem hy
    obtain ⟨r, -, hr, hstore', hafter⟩ := chain_append.mp hrest
    have hagain : Chain next store p (y :: after) none := ⟨by rw [hp, hyx], hstore', hafter⟩
    have hwhole : Chain next store p (x :: (before ++ y :: after)) none := ⟨hp, hstore, hrest⟩
    have hlen := congrArg List.length (hagain.unique hwhole)
    simp only [List.length_cons, List.length_append] at hlen
    omega

end

/-! ## Loops over a chain -/

/-- A loop over the nodes from a place on; `step` goes on with a new state or stops with a result. -/
def walk {σ ρ : Type} (next : α → Option ι) (store : ι → Option α) (step : σ → α → σ ⊕ ρ)
    (done : σ → ρ) : ℕ → Option ι → σ → Except Fault ρ
  | _, none, s => .ok (done s)
  | 0, some _, _ => .error .hang
  | fuel + 1, some i, s =>
      match store i with
      | none => .error .access
      | some a =>
          match step s a with
          | .inr r => .ok r
          | .inl s => walk next store step done fuel (next a) s

/-- The same loop over a list. -/
def walkList {σ ρ : Type} (step : σ → α → σ ⊕ ρ) (done : σ → ρ) : List α → σ → ρ
  | [], s => done s
  | a :: as, s =>
      match step s a with
      | .inr r => r
      | .inl s => walkList step done as s

theorem walk_chain {σ ρ : Type} {store : ι → Option α} (step : σ → α → σ ⊕ ρ) (done : σ → ρ) :
    ∀ {xs : List (ι × α)} {p : Option ι} (fuel : ℕ) (s : σ), Chain next store p xs none →
    xs.length ≤ fuel →
    walk next store step done fuel p s = .ok (walkList step done (xs.map Prod.snd) s) := by
  intro xs
  induction xs with
  | nil =>
    intro p fuel s h _
    obtain rfl : p = none := h
    cases fuel <;> rfl
  | cons x xs ih =>
    intro p fuel s h hfuel
    obtain ⟨rfl, hstore, hrest⟩ := h
    obtain ⟨fuel, rfl⟩ : ∃ n, fuel = n + 1 := ⟨fuel - 1, by simp at hfuel; omega⟩
    simp only [walk, hstore, List.map_cons, walkList]
    cases hstep : step s x.2 with
    | inr r => rfl
    | inl s => exact ih fuel s hrest (by simpa using hfuel)

end ProtobufC.Library
