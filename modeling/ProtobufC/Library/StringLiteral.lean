import Mathlib.Tactic

/-! # String literals of C

What a compiler makes of the characters between the quotes of a string literal: an octal escape sequence
ends after three digits, a hexadecimal one where the digits end, and neither may go beyond a byte.
Trigraphs are not replaced.
-/

namespace ProtobufC.Library
set_option autoImplicit false

/-! ## Characters -/

def octalDigit (c : UInt8) : Option ℕ := if 48 ≤ c ∧ c ≤ 55 then some (c.toNat - 48) else none

def hexDigit (c : UInt8) : Option ℕ :=
  if 48 ≤ c ∧ c ≤ 57 then some (c.toNat - 48)
  else if 97 ≤ c ∧ c ≤ 102 then some (c.toNat - 87)
  else if 65 ≤ c ∧ c ≤ 70 then some (c.toNat - 55)
  else none

/-- The character that a backslash and this character stand for. -/
def simpleEscape (c : UInt8) : Option UInt8 :=
  if c = 110 then some 10
  else if c = 114 then some 13
  else if c = 116 then some 9
  else if c = 34 ∨ c = 39 ∨ c = 92 ∨ c = 63 then some c
  else if c = 97 then some 7
  else if c = 98 then some 8
  else if c = 102 then some 12
  else if c = 118 then some 11
  else none

/-! ## Reading -/

/-- Where the compiler stands in a literal. -/
inductive LiteralState
  | plain
  /-- Behind a backslash. -/
  | escape
  /-- In an octal escape sequence, behind so many digits. -/
  | octal (digits value : ℕ)
  /-- In a hexadecimal escape sequence, behind its `x`, or behind a digit. -/
  | hex (digits : Bool) (value : ℕ)
  deriving DecidableEq

def byte? (value : ℕ) : Option (List UInt8) := if value < 256 then some [UInt8.ofNat value] else none

/-- A character outside of an escape sequence: neither a quote nor the end of the line. -/
def plainChar (c : UInt8) : Option (LiteralState × List UInt8) :=
  if c = 34 ∨ c = 10 then none
  else if c = 92 then some (.escape, [])
  else some (.plain, [c])

/-- One character, and what it adds to the array. -/
def LiteralState.next : LiteralState → UInt8 → Option (LiteralState × List UInt8)
  | .plain, c => plainChar c
  | .escape, c =>
      match simpleEscape c, octalDigit c with
      | some b, _ => some (.plain, [b])
      | none, some d => some (.octal 1 d, [])
      | none, none => if c = 120 then some (.hex false 0, []) else none
  | .octal digits value, c =>
      match (if digits < 3 then octalDigit c else none) with
      | some d => some (.octal (digits + 1) (8 * value + d), [])
      | none => (byte? value).bind fun b => (plainChar c).map fun x => (x.1, b ++ x.2)
  | .hex digits value, c =>
      match hexDigit c with
      | some d => some (.hex true (16 * value + d), [])
      | none =>
          (if digits then byte? value else none).bind fun b =>
            (plainChar c).map fun x => (x.1, b ++ x.2)

/-- The quote at the end. -/
def LiteralState.finish : LiteralState → Option (List UInt8)
  | .plain => some []
  | .escape => none
  | .octal _ value => byte? value
  | .hex digits value => if digits then byte? value else none

/-- The characters of the array, without the NUL. -/
def LiteralState.read : LiteralState → List UInt8 → Option (List UInt8)
  | state, [] => state.finish
  | state, c :: text => (state.next c).bind fun x => (x.1.read text).map (x.2 ++ ·)

/-- The array that a literal with these characters initialises. -/
def literalArray (text : List UInt8) : Option (List UInt8) :=
  (LiteralState.read .plain text).map (· ++ [0])

theorem LiteralState.read_cons {state state' : LiteralState} {c : UInt8} {out : List UInt8}
    (h : state.next c = some (state', out)) (text : List UInt8) :
    state.read (c :: text) = (state'.read text).map (out ++ ·) := by
  rw [read, h]
  rfl

/-! ## What is pending -/

/-- A byte of an escape sequence that the next character may still belong to. -/
inductive LiteralState.Pending : LiteralState → List UInt8 → Prop
  | plain : Pending .plain []
  | octal (b : UInt8) : Pending (.octal 3 b.toNat) [b]
  | hex (b : UInt8) : Pending (.hex true b.toNat) [b]

theorem byte?_toNat (b : UInt8) : byte? b.toNat = some [b] := by
  unfold byte?
  rw [if_pos b.toNat_lt, UInt8.ofNat_toNat]

theorem LiteralState.Pending.finish {state : LiteralState} {pending : List UInt8}
    (h : state.Pending pending) : state.finish = some pending := by
  cases h with
  | plain => rfl
  | octal b => exact byte?_toNat b
  | hex b => exact byte?_toNat b

/-- A character that cannot belong to the escape sequence is read as outside of one. -/
theorem LiteralState.Pending.next {state : LiteralState} {pending : List UInt8}
    (h : state.Pending pending) {c : UInt8}
    (hdigit : ∀ value, state = .hex true value → hexDigit c = none) :
    state.next c = (plainChar c).map fun x => (x.1, pending ++ x.2) := by
  cases h with
  | plain =>
    show plainChar c = _
    cases plainChar c <;> rfl
  | octal b =>
    dsimp only [LiteralState.next]
    rw [if_neg (lt_irrefl 3), byte?_toNat]
    rfl
  | hex b =>
    dsimp only [LiteralState.next]
    rw [hdigit _ rfl, if_pos rfl, byte?_toNat]
    rfl

end ProtobufC.Library
