import ProtobufC.Library.Outcome

/-! # Lists that are written block by block

A program goes over a list and writes a block for every element of it.  Two such lists are in step where
their blocks are (`zip_flatMap`); what stands under a key is in the block that the key belongs to
(`lookup_flatMap`); and where no block is the beginning of another, the whole determines the elements
(`prefixCode_injective`).
-/

namespace ProtobufC.Library
set_option autoImplicit false

variable {α β γ κ : Type}

theorem zip_flatMap {f : α → List β} {g : α → List γ} :
    ∀ {l : List α}, (∀ a ∈ l, (f a).length = (g a).length) →
      (l.flatMap f).zip (l.flatMap g) = l.flatMap fun a => (f a).zip (g a) := by
  intro l
  induction l with
  | nil => exact fun _ => rfl
  | cons a l ih =>
    intro h
    rw [List.flatMap_cons, List.flatMap_cons, List.flatMap_cons, List.zip_append (h a List.mem_cons_self),
      ih fun b hb => h b (List.mem_cons_of_mem a hb)]

theorem zipIdx_zip_map {f : α → β} :
    ∀ (l : List α) (n : ℕ), (l.zipIdx n).zip (l.map f) = (l.zipIdx n).map fun a => (a, f a.1) := by
  intro l
  induction l with
  | nil => exact fun _ => rfl
  | cons a l ih =>
    intro n
    rw [List.map_cons, List.zipIdx_cons, List.zip_cons_cons, ih, List.map_cons]

/-- A key is found in the block of its element, if no other block has it. -/
theorem lookup_flatMap [BEq κ] [LawfulBEq κ] {block : α → List (κ × β)} {key : κ} {a : α} :
    ∀ {l : List α}, a ∈ l → (∀ b ∈ l, ∀ x ∈ block b, x.1 = key → b = a) →
      (l.flatMap block).lookup key = (block a).lookup key := by
  intro l
  induction l with
  | nil => exact fun ha _ => absurd ha List.not_mem_nil
  | cons b l ih =>
    intro ha hown
    rw [List.flatMap_cons, List.lookup_append]
    by_cases hb : b = a
    · subst hb
      cases hfound : (block b).lookup key with
      | some x => rfl
      | none =>
        rw [Option.none_or]
        refine List.lookup_eq_none_iff.mpr fun x hx => ?_
        obtain ⟨c, hc, hxc⟩ := List.mem_flatMap.mp hx
        rw [bne_iff_ne]
        rintro rfl
        obtain rfl := hown c (List.mem_cons_of_mem b hc) x hxc rfl
        exact absurd rfl (bne_iff_ne.mp (List.lookup_eq_none_iff.mp hfound x hxc))
    · have hnone : (block b).lookup key = none := by
        refine List.lookup_eq_none_iff.mpr fun x hx => ?_
        rw [bne_iff_ne]
        exact fun heq => hb (hown b List.mem_cons_self x hx heq.symm)
      rw [hnone, Option.none_or]
      exact ih ((List.mem_cons.mp ha).resolve_left fun heq => hb heq.symm)
        fun c hc => hown c (List.mem_cons_of_mem b hc)

theorem mapM_eq_ok {f : α → Except Fault β} {g : α → β} :
    ∀ {l : List α}, (∀ a ∈ l, f a = .ok (g a)) → l.mapM f = .ok (l.map g) := by
  intro l
  induction l with
  | nil => exact fun _ => rfl
  | cons a l ih =>
    intro h
    rw [List.mapM_cons, h a List.mem_cons_self, ih fun b hb => h b (List.mem_cons_of_mem a hb)]
    rfl

/-- Where no character is written as the beginning of another, the text determines the characters. -/
theorem prefixCode_injective {code : α → List β} {good : α → Prop}
    (hne : ∀ a, good a → code a ≠ [])
    (hbegins : ∀ a b, good a → good b → code a <+: code b → a = b) :
    ∀ {as bs : List α}, (∀ a ∈ as, good a) → (∀ b ∈ bs, good b) →
      as.flatMap code = bs.flatMap code → as = bs := by
  intro as
  induction as with
  | nil =>
    intro bs _ hbs h
    cases bs with
    | nil => rfl
    | cons b bs =>
      rw [List.flatMap_nil, List.flatMap_cons, eq_comm, List.append_eq_nil_iff] at h
      exact absurd h.1 (hne b (hbs b List.mem_cons_self))
  | cons a as ih =>
    intro bs has hbs h
    have ha := has a List.mem_cons_self
    cases bs with
    | nil =>
      rw [List.flatMap_nil, List.flatMap_cons, List.append_eq_nil_iff] at h
      exact absurd h.1 (hne a ha)
    | cons b bs =>
      have hb := hbs b List.mem_cons_self
      rw [List.flatMap_cons, List.flatMap_cons] at h
      have hsame : a = b := by
        obtain hab | hba := List.prefix_or_prefix_of_prefix (List.prefix_append (code a) _)
          (h ▸ List.prefix_append (code b) _)
        · exact hbegins a b ha hb hab
        · exact (hbegins b a hb ha hba).symm
      subst hsame
      rw [ih (fun x hx => has x (List.mem_cons_of_mem a hx))
        (fun x hx => hbs x (List.mem_cons_of_mem a hx)) (List.append_cancel_left h)]

end ProtobufC.Library
