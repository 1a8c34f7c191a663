import ProtobufC.Library.Outcome

/-! # Writes into an array of bytes

The store is the array's contents.  A read or write that does not lie inside it is a fault, so a
function that returns on an array of `n` bytes has touched indices below `n` only.

`Emits x at bs` says that `x` writes the bytes `bs` from index `at` on, leaves the rest of the array
alone and returns their number, on every array that has room for them.
-/

namespace ProtobufC.Library
set_option autoImplicit false

/-- The array `buf` with `bs` written from index `at` on. -/
def splice (buf : List UInt8) (at_ : ℕ) (bs : List UInt8) : List UInt8 :=
  buf.take at_ ++ bs ++ buf.drop (at_ + bs.length)

/-- `memcpy (out + at, bs, length)` -/
def writeAt (at_ : ℕ) (bs : List UInt8) : Run (List UInt8) Unit := fun buf =>
  if at_ + bs.length ≤ buf.length then .ok ((), splice buf at_ bs) else .error .access

/-- `n` bytes from index `at` on. -/
def readAt (at_ n : ℕ) : Run (List UInt8) (List UInt8) := fun buf =>
  if at_ + n ≤ buf.length then .ok ((buf.drop at_).take n, buf) else .error .access

/-- `memmove (out + dst, out + src, n)` -/
def memmove (dst src n : ℕ) : Run (List UInt8) Unit := do
  let bs ← readAt src n
  writeAt dst bs

/-- Writes `bs` and returns their number. -/
def put (at_ : ℕ) (bs : List UInt8) : Run (List UInt8) ℕ := do
  writeAt at_ bs
  return bs.length

/-! ## Splicing -/

theorem getElem?_splice {buf bs : List UInt8} {at_ : ℕ} (h : at_ + bs.length ≤ buf.length) (i : ℕ) :
    (splice buf at_ bs)[i]? =
      if i < at_ then buf[i]? else if i < at_ + bs.length then bs[i - at_]? else buf[i]? := by
  have hmin : min at_ buf.length = at_ := Nat.min_eq_left (by omega)
  unfold splice
  rw [List.append_assoc, List.getElem?_append, List.getElem?_append, List.length_take, hmin]
  split_ifs with h1 h2 h3 h3
  · rw [List.getElem?_take, if_pos h1]
  · rfl
  · omega
  · omega
  · rw [List.getElem?_drop]
    congr 1
    omega

theorem length_splice {buf bs : List UInt8} {at_ : ℕ} (h : at_ + bs.length ≤ buf.length) :
    (splice buf at_ bs).length = buf.length := by
  unfold splice
  simp only [List.length_append, List.length_take, List.length_drop]
  omega

@[simp] theorem splice_nil (buf : List UInt8) (at_ : ℕ) : splice buf at_ [] = buf := by
  simp [splice]

theorem splice_splice {buf b₁ b₂ : List UInt8} {at_ : ℕ}
    (h : at_ + (b₁ ++ b₂).length ≤ buf.length) :
    splice (splice buf at_ b₁) (at_ + b₁.length) b₂ = splice buf at_ (b₁ ++ b₂) := by
  rw [List.length_append] at h
  have h₁ : at_ + b₁.length ≤ buf.length := by omega
  have h₂ : at_ + b₁.length + b₂.length ≤ (splice buf at_ b₁).length := by
    rw [length_splice h₁]
    omega
  apply List.ext_getElem?
  intro i
  rw [getElem?_splice h₂, getElem?_splice h₁,
    getElem?_splice (by rw [List.length_append]; omega), List.length_append]
  by_cases c1 : i < at_
  · simp [c1, show i < at_ + b₁.length by omega]
  · by_cases c2 : i < at_ + b₁.length
    · simp [c1, c2, show i < at_ + (b₁.length + b₂.length) by omega,
        List.getElem?_append_left (show i - at_ < b₁.length by omega)]
    · by_cases c3 : i < at_ + b₁.length + b₂.length
      · simp only [c1, c2, c3, if_true, if_false, show i < at_ + (b₁.length + b₂.length) by omega]
        rw [List.getElem?_append_right (by omega)]
        congr 1
        omega
      · simp [c1, c2, c3, show ¬ i < at_ + (b₁.length + b₂.length) by omega]

theorem splice_hide {buf b₁ b₂ : List UInt8} {at₁ at₂ : ℕ} (hlo : at₂ ≤ at₁)
    (hhi : at₁ + b₁.length ≤ at₂ + b₂.length) (h : at₂ + b₂.length ≤ buf.length) :
    splice (splice buf at₁ b₁) at₂ b₂ = splice buf at₂ b₂ := by
  have h₁ : at₁ + b₁.length ≤ buf.length := by omega
  have h₂ : at₂ + b₂.length ≤ (splice buf at₁ b₁).length := by rw [length_splice h₁]; omega
  apply List.ext_getElem?
  intro i
  rw [getElem?_splice h₂, getElem?_splice h, getElem?_splice h₁]
  split_ifs <;> first | rfl | omega

theorem splice_comm {buf b₁ b₂ : List UInt8} {at₁ at₂ : ℕ} (hsep : at₁ + b₁.length ≤ at₂)
    (h : at₂ + b₂.length ≤ buf.length) :
    splice (splice buf at₂ b₂) at₁ b₁ = splice (splice buf at₁ b₁) at₂ b₂ := by
  have h₁ : at₁ + b₁.length ≤ buf.length := by omega
  apply List.ext_getElem?
  intro i
  rw [getElem?_splice (by rw [length_splice h]; omega), getElem?_splice h,
    getElem?_splice (by rw [length_splice h₁]; omega), getElem?_splice h₁]
  split_ifs <;> first | rfl | omega

theorem splice_overwrite (buf p p' body : List UInt8) (out : ℕ) (hlen : p'.length = p.length)
    (h : out + (p ++ body).length ≤ buf.length) :
    splice (splice buf out (p ++ body)) out p' = splice buf out (p' ++ body) := by
  have h' := h
  rw [List.length_append] at h'
  have hp : (splice buf out p).length = buf.length := length_splice (by omega)
  rw [← splice_splice h, ← hlen, splice_comm (le_refl _) (by rw [hp, hlen]; omega),
    splice_hide (le_refl _) (by omega) (by omega),
    splice_splice (by rw [List.length_append]; omega)]

/-- A header written in front of the bytes already there. -/
theorem splice_header (buf p body : List UInt8) (out : ℕ)
    (h : out + (p ++ body).length ≤ buf.length) :
    splice (splice buf (out + p.length) body) out p = splice buf out (p ++ body) := by
  rw [List.length_append] at h
  rw [splice_comm (by omega) (by omega), splice_splice (by rw [List.length_append]; omega)]

/-- Bytes written too early, moved behind their header, and the header. -/
theorem splice_moved (buf p body : List UInt8) (out at_ : ℕ) (hlo : out ≤ at_)
    (hhi : at_ ≤ out + p.length) (h : out + (p ++ body).length ≤ buf.length) :
    splice (splice (splice buf at_ body) (out + p.length) body) out p =
      splice buf out (p ++ body) := by
  rw [List.length_append] at h
  rw [splice_header _ _ _ _ (by rw [List.length_append, length_splice (by omega)]; omega),
    splice_hide hlo (by rw [List.length_append]; omega) (by rw [List.length_append]; omega)]

theorem readAt_splice {buf bs : List UInt8} {at_ : ℕ} (h : at_ + bs.length ≤ buf.length) :
    readAt at_ bs.length (splice buf at_ bs) = .ok (bs, splice buf at_ bs) := by
  unfold readAt
  rw [length_splice h, if_pos h]
  congr 2
  apply List.ext_getElem?
  intro i
  rw [List.getElem?_take, List.getElem?_drop, getElem?_splice h]
  split_ifs with h1 h2 h3
  · omega
  · congr 1
    omega
  · omega
  · rw [List.getElem?_eq_none (by omega)]

theorem memmove_splice (buf bs : List UInt8) (dst src : ℕ) (hsrc : src + bs.length ≤ buf.length)
    (hdst : dst + bs.length ≤ buf.length) :
    memmove dst src bs.length (splice buf src bs) = .ok ((), splice (splice buf src bs) dst bs) := by
  unfold memmove
  rw [run_bind (readAt_splice hsrc), writeAt, if_pos (by rw [length_splice hsrc]; exact hdst)]

/-! ## Emitting -/

/-- `x` writes `bs` from index `at` on and returns their number. -/
def Emits (x : Run (List UInt8) ℕ) (at_ : ℕ) (bs : List UInt8) : Prop :=
  ∀ buf : List UInt8, at_ + bs.length ≤ buf.length → x buf = .ok (bs.length, splice buf at_ bs)

theorem emits_put (at_ : ℕ) (bs : List UInt8) : Emits (put at_ bs) at_ bs := by
  intro buf h
  have hwrite : writeAt at_ bs buf = .ok ((), splice buf at_ bs) := by rw [writeAt, if_pos h]
  rw [put, run_bind hwrite]
  rfl

theorem emits_zero (at_ : ℕ) : Emits (pure 0) at_ [] := by
  intro buf _
  rw [splice_nil]
  rfl

theorem Emits.bind {x : Run (List UInt8) ℕ} {f : ℕ → Run (List UInt8) ℕ} {at_ : ℕ}
    {b₁ b₂ : List UInt8} (hx : Emits x at_ b₁) (hf : Emits (f b₁.length) (at_ + b₁.length) b₂) :
    Emits (do let n ← x; let k ← f n; return n + k) at_ (b₁ ++ b₂) := by
  intro buf h
  rw [List.length_append] at h
  have h₁ : at_ + b₁.length ≤ buf.length := by omega
  have h₂ : at_ + b₁.length + b₂.length ≤ (splice buf at_ b₁).length := by
    rw [length_splice h₁]
    omega
  rw [run_bind (hx buf h₁), run_bind (hf _ h₂), splice_splice (by rw [List.length_append]; omega),
    List.length_append]
  rfl

end ProtobufC.Library
