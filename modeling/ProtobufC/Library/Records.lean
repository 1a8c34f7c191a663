import Mathlib.Tactic

/-! # Records of one size in a stream

Records that are all encoded in `size` elements follow each other in a stream, and a reader has got some
front of the stream.  `records_front` says which records are whole in the front, and what of the next one
is left over.
-/

namespace ProtobufC.Library
set_option autoImplicit false

variable {α β : Type} {encode : α → List β} {size : ℕ}

theorem length_records (hsize : ∀ a, (encode a).length = size) (xs : List α) :
    (xs.flatMap encode).length = xs.length * size := by
  induction xs with
  | nil => simp
  | cons x xs ih =>
    rw [List.flatMap_cons, List.length_append, hsize, ih, List.length_cons]
    ring

/-- The front of a stream begins with as many records as fit, and less than one is left over. -/
theorem records_front (hsize : ∀ a, (encode a).length = size) (hpos : 0 < size) {front rest : List β}
    {xs : List α} (h : front ++ rest = xs.flatMap encode) :
    front.length / size ≤ xs.length ∧
      front = (xs.take (front.length / size)).flatMap encode ++
        front.drop (front.length / size * size) ∧
      front.drop (front.length / size * size) ++ rest =
        (xs.drop (front.length / size)).flatMap encode ∧
      (front.drop (front.length / size * size)).length < size := by
  set n := front.length / size with hn
  have hle : n * size ≤ front.length := Nat.div_mul_le_self ..
  have hlength : front.length + rest.length = xs.length * size := by
    rw [← List.length_append, h, length_records hsize]
  have hwhole : n ≤ xs.length := by
    by_contra hlt
    have : (xs.length + 1) * size ≤ n * size := Nat.mul_le_mul_right size (by omega)
    rw [Nat.succ_mul] at this
    omega
  have hsplit : front ++ rest = (xs.take n).flatMap encode ++ (xs.drop n).flatMap encode := by
    rw [← List.flatMap_append, List.take_append_drop, h]
  have htake : ((xs.take n).flatMap encode).length = n * size := by
    rw [length_records hsize, List.length_take, min_eq_left hwhole]
  have hfront : front.take (n * size) = (xs.take n).flatMap encode := by
    have := congrArg (List.take (n * size)) hsplit
    rwa [List.take_append_of_le_length hle, List.take_append_of_le_length htake.ge,
      List.take_of_length_le htake.le] at this
  refine ⟨hwhole, ?_, ?_, ?_⟩
  · rw [← hfront, List.take_append_drop]
  · have := congrArg (List.drop (n * size)) hsplit
    rwa [List.drop_append_of_le_length hle, List.drop_append_of_le_length htake.ge,
      List.drop_of_length_le htake.le, List.nil_append] at this
  · have hmod := Nat.div_add_mod front.length size
    have hlt := Nat.mod_lt front.length hpos
    rw [List.length_drop]
    rw [← hn, Nat.mul_comm] at hmod
    omega

end ProtobufC.Library
