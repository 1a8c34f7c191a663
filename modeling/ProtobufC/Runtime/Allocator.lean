import ProtobufC.Library.Outcome
import ProtobufC.Runtime.Message

/-! # Allocators

`ProtobufCAllocator` over a state `σ`, and `HeapAllocator`, an allocator whose state determines the
multiset of blocks it accounts for.  Any `alloc` call may fail.  What `free` does with a block that
is not live is left open, so that a program proved free of `Fault.release` over every
`HeapAllocator` releases live blocks only, and none that the caller keeps out of `live`.
-/

namespace ProtobufC
open Library
set_option autoImplicit false

variable {σ : Type}

/-- `ProtobufCAllocator`.  `free` is undefined on a block that the allocator cannot release;
`tmpAlloc` is `none` for a NULL `tmp_alloc`. -/
structure Allocator (σ : Type) where
  alloc : ℕ → σ → Option ℕ × σ
  free : ℕ → σ → Option σ
  tmpAlloc : Option (ℕ → σ → Option ℕ × σ)

/-- `DO_ALLOC (dst, allocator, size, ..)`: the pointer assigned to `dst`, or `none` where `dst` is
assigned NULL and the failure code runs. -/
def Allocator.doAlloc (A : Allocator σ) (size : ℕ) : Run σ (Option (Option Addr)) := fun s =>
  if size = 0 then .ok (some none, s)
  else
    match A.alloc size s with
    | (some b, s') => .ok (some (some (.block b)), s')
    | (none, s') => .ok (none, s')

/-- `FREE (allocator, ptr)` -/
def Allocator.freePtr (A : Allocator σ) : Option Addr → Run σ Unit
  | none => pure ()
  | some (.static _) => fault .release
  | some (.block b) => fun s =>
      match A.free b s with
      | some s' => .ok ((), s')
      | none => .error .release

/-- An allocator that keeps account of its live blocks. -/
structure HeapAllocator (σ : Type) extends Allocator σ where
  live : σ → Multiset ℕ
  failures : σ → ℕ
  alloc_some : ∀ {n s b s'}, alloc n s = (some b, s') →
    live s' = b ::ₘ live s ∧ failures s' = failures s
  alloc_none : ∀ {n s s'}, alloc n s = (none, s') →
    live s' = live s ∧ failures s' = failures s + 1
  free_live : ∀ {b s L}, live s = b ::ₘ L →
    ∃ s', free b s = some s' ∧ live s' = L ∧ failures s' = failures s
  tmp_some : ∀ {f}, tmpAlloc = some f → ∀ {n s r s'}, f n s = (r, s') →
    live s' = live s ∧ failures s' = failures s

/-- No allocation fails. -/
def HeapAllocator.Infallible (H : HeapAllocator σ) : Prop :=
  (∀ n s, (H.alloc n s).1 ≠ none) ∧ ∀ f, H.tmpAlloc = some f → ∀ n s, (f n s).1 ≠ none

/-- An allocation failed between the two states. -/
def AllocFailed (H : HeapAllocator σ) (s s' : σ) : Prop :=
  H.failures s < H.failures s' ∧ ¬ H.Infallible

theorem AllocFailed.of_eq {H : HeapAllocator σ} {s s₁ s' : σ} (h : AllocFailed H s₁ s')
    (heq : H.failures s₁ = H.failures s) : AllocFailed H s s' :=
  ⟨heq ▸ h.1, h.2⟩

/-- The blocks behind a pointer that may be NULL or static. -/
def blockOf : Option Addr → Multiset ℕ
  | some (.block b) => {b}
  | _ => 0

@[simp] theorem blockOf_none : blockOf none = 0 := rfl
@[simp] theorem blockOf_static (k : ℕ) : blockOf (some (.static k)) = 0 := rfl
@[simp] theorem blockOf_block (b : ℕ) : blockOf (some (.block b)) = {b} := rfl

/-! ## Rules -/

section Rules
variable (H : HeapAllocator σ) {ub : Fault → Prop} {s : σ}

/-- An allocation returns a new block, or NULL for size 0, or fails. -/
theorem meets_doAlloc (size : ℕ) :
    Meets ub (H.doAlloc size) s fun r s' =>
      match r with
      | some dst => H.live s' = blockOf dst + H.live s ∧ H.failures s' = H.failures s ∧
          (dst = none ↔ size = 0) ∧ ∀ a, dst = some a → ∃ b, a = .block b
      | none => H.live s' = H.live s ∧ AllocFailed H s s' := by
  unfold Meets Allocator.doAlloc
  by_cases hsize : size = 0
  · simp [hsize]
  · rw [if_neg hsize]
    cases ha : H.alloc size s with
    | mk r s' =>
      cases r with
      | some b =>
        obtain ⟨hlive, hfail⟩ := H.alloc_some ha
        exact ⟨by rw [hlive, blockOf_block, Multiset.singleton_add], hfail, by simp [hsize],
          fun a h => ⟨b, (Option.some.inj h).symm⟩⟩
      | none =>
        obtain ⟨hlive, hfail⟩ := H.alloc_none ha
        refine ⟨hlive, by omega, fun hinf => hinf.1 size s ?_⟩
        rw [ha]

theorem meets_freePtr {p : Option Addr} (hp : ∀ k, p ≠ some (.static k)) {L : Multiset ℕ}
    (hlive : H.live s = blockOf p + L) :
    Meets ub (H.freePtr p) s fun _ s' => H.live s' = L ∧ H.failures s' = H.failures s := by
  match p, hp with
  | none, _ =>
    rw [blockOf_none, Multiset.zero_add] at hlive
    exact ⟨hlive, rfl⟩
  | some (.static k), hp => exact absurd rfl (hp k)
  | some (.block b), _ =>
    rw [blockOf_block, Multiset.singleton_add] at hlive
    obtain ⟨s', hfree, hlive', hfail⟩ := H.free_live hlive
    unfold Meets Allocator.freePtr
    simp only [hfree]
    exact ⟨hlive', hfail⟩

theorem meets_doAlloc_infallible (hinf : H.Infallible) (size : ℕ) :
    Meets ub (H.doAlloc size) s fun r s' => ∃ dst, r = some dst ∧
      H.live s' = blockOf dst + H.live s ∧ H.failures s' = H.failures s ∧
        (dst = none ↔ size = 0) ∧ ∀ a, dst = some a → ∃ b, a = .block b := by
  have h : Meets ub (H.doAlloc size) s _ := meets_doAlloc H size
  have hsome : ∀ s', H.doAlloc size s ≠ .ok (none, s') := by
    intro s'
    unfold Allocator.doAlloc
    split_ifs with hsize
    · simp
    · have halloc := hinf.1 size s
      cases ha : H.alloc size s with
      | mk r s'' =>
        rw [ha] at halloc
        cases r with
        | some b => simp
        | none => exact absurd rfl halloc
  rw [meets_def] at h ⊢
  refine ⟨h.1, fun r s' hr => ?_⟩
  cases r with
  | none => exact absurd hr (hsome s')
  | some dst => exact ⟨dst, rfl, h.2 _ _ hr⟩

end Rules

/-! ## A heap that counts -/

theorem erase_of_live {bs : List ℕ} {b : ℕ} {L : Multiset ℕ} (h : (bs : Multiset ℕ) = b ::ₘ L) :
    b ∈ bs ∧ (bs.erase b : Multiset ℕ) = L := by
  have hmem : b ∈ (bs : Multiset ℕ) := by
    rw [h]
    exact Multiset.mem_cons_self b L
  refine ⟨Multiset.mem_coe.mp hmem, ?_⟩
  rw [← Multiset.coe_erase, h, Multiset.erase_cons_head]

/-- An allocator that never fails: the number of the next block and the blocks in use. -/
def countingHeap : HeapAllocator (ℕ × List ℕ) where
  alloc _ s := (some s.1, (s.1 + 1, s.1 :: s.2))
  free b s := if b ∈ s.2 then some (s.1, s.2.erase b) else none
  tmpAlloc := none
  live s := s.2
  failures _ := 0
  alloc_some := by
    intro n s b s' h
    simp only [Prod.mk.injEq, Option.some.injEq] at h
    obtain ⟨rfl, rfl⟩ := h
    simp
  alloc_none := by
    intro n s s' h
    simp at h
  free_live := by
    intro b s L h
    obtain ⟨hmem, herase⟩ := erase_of_live h
    exact ⟨(s.1, s.2.erase b), if_pos hmem, herase, rfl⟩
  tmp_some := by
    intro f hf
    simp at hf

theorem countingHeap_infallible : countingHeap.Infallible := by
  refine ⟨fun n s => ?_, fun f hf => ?_⟩
  · simp [countingHeap]
  · simp [countingHeap] at hf

/-- A heap that refuses the allocations with these numbers.  Its state is the number of allocations so
far, the live blocks, and how many allocations were refused. -/
def refusingHeap (refused : ℕ → Bool) : HeapAllocator (ℕ × List ℕ × ℕ) where
  alloc _ s :=
    if refused s.1 then (none, (s.1 + 1, s.2.1, s.2.2 + 1)) else (some s.1, (s.1 + 1, s.1 :: s.2.1, s.2.2))
  free b s := if b ∈ s.2.1 then some (s.1, s.2.1.erase b, s.2.2) else none
  tmpAlloc := none
  live s := s.2.1
  failures s := s.2.2
  alloc_some := by
    intro n s b s' h
    split_ifs at h
    · simp at h
    · simp only [Prod.mk.injEq, Option.some.injEq] at h
      obtain ⟨rfl, rfl⟩ := h
      simp
  alloc_none := by
    intro n s s' h
    split_ifs at h
    · obtain ⟨-, rfl⟩ := Prod.mk.inj h
      exact ⟨rfl, rfl⟩
    · simp at h
  free_live := by
    intro b s L h
    obtain ⟨hmem, herase⟩ := erase_of_live h
    exact ⟨(s.1, s.2.1.erase b, s.2.2), if_pos hmem, herase, rfl⟩
  tmp_some := by
    intro f hf
    simp at hf

end ProtobufC
