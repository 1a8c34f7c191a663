import ProtobufC.Library.Blocks
import ProtobufC.Library.StringLiteral

/-! # Text that the generator writes

`CEscape`, which writes the default values of strings and bytes as literals, and `FilenameIdentifier`,
which makes an identifier of the name of a file.  The literal initialises an array with the default value;
the identifiers of two files are different, unless a name has a character whose code is a single digit.
-/

namespace ProtobufC
open Library
set_option autoImplicit false

/-! ## The code -/

/-- `isprint`, as in the locale "C". -/
def isprint (c : UInt8) : Bool := 32 ≤ c ∧ c ≤ 126

def isxdigit (c : UInt8) : Bool := (hexDigit c).isSome

def isalnum (c : UInt8) : Bool := (48 ≤ c ∧ c ≤ 57) ∨ (65 ≤ c ∧ c ≤ 90) ∨ (97 ≤ c ∧ c ≤ 122)

def octalChar (d : ℕ) : UInt8 := UInt8.ofNat (48 + d)

def hexChar (d : ℕ) : UInt8 := if d < 10 then UInt8.ofNat (48 + d) else UInt8.ofNat (87 + d)

/-- `sprintf (.., "\\%03o", c)` -/
def octalEscape (c : UInt8) : List UInt8 :=
  [92, octalChar (c.toNat / 64), octalChar (c.toNat / 8 % 8), octalChar (c.toNat % 8)]

/-- `sprintf (.., "\\x%02x", c)` -/
def hexEscape (c : UInt8) : List UInt8 := [92, 120, hexChar (c.toNat / 16), hexChar (c.toNat % 16)]

/-- The characters that are written as a backslash and a letter or themselves. -/
def letterEscape (c : UInt8) : Option UInt8 :=
  if c = 10 then some 110
  else if c = 13 then some 114
  else if c = 9 then some 116
  else if c = 34 ∨ c = 39 ∨ c = 92 then some c
  else none

/-- The loop of `CEscapeInternal`, which has written `dest` of the `dest_len` characters there is room for;
`none` is a result of -1. -/
def cEscapeLoop (destLen : ℕ) (useHex : Bool) :
    List UInt8 → List UInt8 → Bool → Except Fault (Option (List UInt8))
  | [], dest, _ => .ok (if destLen < dest.length + 1 then none else some dest)
  | c :: src, dest, lastHexEscape =>
      if destLen < dest.length + 2 then .ok none
      else
        match letterEscape c with
        | some letter => cEscapeLoop destLen useHex src (dest ++ [92, letter]) false
        | none =>
            if isprint c = false ∨ (lastHexEscape ∧ isxdigit c) then
              if destLen < dest.length + 4 then .ok none
              -- behind the four characters `sprintf` writes a NUL
              else if destLen < dest.length + 5 then .error .access
              else
                cEscapeLoop destLen useHex src
                  (dest ++ if useHex then hexEscape c else octalEscape c) useHex
            else cEscapeLoop destLen useHex src (dest ++ [c]) false

/-- `CEscapeInternal` -/
def cEscapeInternal (src : List UInt8) (destLen : ℕ) (useHex : Bool) :
    Except Fault (Option (List UInt8)) :=
  cEscapeLoop destLen useHex src [] false

/-- `CEscape`, of a string so short that `dest_length` is an `int`. -/
def cEscape (src : List UInt8) : Except Fault (List UInt8) := do
  match ← cEscapeInternal src (src.length * 4 + 1) false with
  | none => .error .assertion
  | some dest => .ok dest

/-- `FastHexToBuffer`, of a byte. -/
def fastHexToBuffer (i : ℕ) : List UInt8 :=
  if i < 16 then [hexChar i] else [hexChar (i / 16), hexChar (i % 16)]

/-- `FilenameIdentifier` -/
def filenameIdentifier (filename : List UInt8) : List UInt8 :=
  filename.flatMap fun c => if isalnum c then [c] else 95 :: fastHexToBuffer c.toNat

/-! ## Digits -/

theorem octalDigit_octalChar {d : ℕ} (h : d < 8) :
    octalDigit (octalChar d) = some d ∧ simpleEscape (octalChar d) = none := by
  interval_cases d <;> exact ⟨rfl, rfl⟩

theorem hexDigit_hexChar {d : ℕ} (h : d < 16) : hexDigit (hexChar d) = some d := by
  interval_cases d <;> rfl

theorem hexChar_injective {d d' : ℕ} (h : d < 16) (h' : d' < 16) (heq : hexChar d = hexChar d') :
    d = d' := by
  have hdigit := hexDigit_hexChar h
  rw [heq, hexDigit_hexChar h'] at hdigit
  exact (Option.some.inj hdigit).symm

/-! ## Literals -/

/-- Reading a piece of the literal: the byte is what the array gets next, or is pending. -/
def ReadsByte (state : LiteralState) (pending piece : List UInt8) (c : UInt8) (lastHexEscape : Bool) :
    Prop :=
  ∃ (state' : LiteralState) (out pending' : List UInt8), state'.Pending pending' ∧
    (∀ value, state' = .hex true value → lastHexEscape = true) ∧ out ++ pending' = pending ++ [c] ∧
    ∀ text, state.read (piece ++ text) = (state'.read text).map (out ++ ·)

section
variable {state : LiteralState} {pending : List UInt8} {c : UInt8}

/-- A backslash ends every escape sequence, and begins one. -/
theorem read_backslash (h : state.Pending pending) (text : List UInt8) :
    state.read (92 :: text) = (LiteralState.read .escape text).map (pending ++ ·) := by
  have hnext := h.next (c := 92) fun _ _ => rfl
  rw [show plainChar 92 = some (.escape, []) from rfl, Option.map_some, List.append_nil] at hnext
  exact LiteralState.read_cons hnext text

theorem reads_letter (h : state.Pending pending) {letter : UInt8} (hletter : letterEscape c = some letter)
    : ReadsByte state pending [92, letter] c false := by
  have hsimple : simpleEscape letter = some c := by
    unfold letterEscape at hletter
    split_ifs at hletter with h₁ h₂ h₃ h₄
    · rw [h₁, ← Option.some.inj hletter]
      rfl
    · rw [h₂, ← Option.some.inj hletter]
      rfl
    · rw [h₃, ← Option.some.inj hletter]
      rfl
    · rw [← Option.some.inj hletter]
      obtain rfl | rfl | rfl := h₄ <;> rfl
  have hnext : LiteralState.next .escape letter = some (.plain, [c]) := by
    dsimp only [LiteralState.next]
    rw [hsimple]
  refine ⟨.plain, pending ++ [c], [], .plain, fun _ heq => absurd heq (by simp), List.append_nil _,
    fun text => ?_⟩
  rw [List.cons_append, List.singleton_append, read_backslash h, LiteralState.read_cons hnext,
    Option.map_map]
  congr 1
  funext rest
  exact (List.append_assoc _ _ _).symm

theorem reads_octal (h : state.Pending pending) : ReadsByte state pending (octalEscape c) c false := by
  have hc := c.toNat_lt
  obtain ⟨hd₁, hs₁⟩ := octalDigit_octalChar (d := c.toNat / 64) (by omega)
  obtain ⟨hd₂, -⟩ := octalDigit_octalChar (d := c.toNat / 8 % 8) (by omega)
  obtain ⟨hd₃, -⟩ := octalDigit_octalChar (d := c.toNat % 8) (by omega)
  have hvalue : 8 * (8 * (c.toNat / 64) + c.toNat / 8 % 8) + c.toNat % 8 = c.toNat := by omega
  have h₁ : LiteralState.next .escape (octalChar (c.toNat / 64)) =
      some (.octal 1 (c.toNat / 64), []) := by
    dsimp only [LiteralState.next]
    rw [hs₁, hd₁]
  have h₂ : LiteralState.next (.octal 1 (c.toNat / 64)) (octalChar (c.toNat / 8 % 8)) =
      some (.octal 2 (8 * (c.toNat / 64) + c.toNat / 8 % 8), []) := by
    dsimp only [LiteralState.next]
    rw [if_pos (by norm_num), hd₂]
  have h₃ : LiteralState.next (.octal 2 (8 * (c.toNat / 64) + c.toNat / 8 % 8))
      (octalChar (c.toNat % 8)) = some (.octal 3 c.toNat, []) := by
    dsimp only [LiteralState.next]
    rw [if_pos (by norm_num), hd₃]
    dsimp only
    rw [hvalue]
  refine ⟨.octal 3 c.toNat, pending, [c], .octal c, fun _ heq => absurd heq (by simp), rfl, fun text => ?_⟩
  unfold octalEscape
  simp only [List.cons_append, List.nil_append]
  rw [read_backslash h, LiteralState.read_cons h₁, LiteralState.read_cons h₂, LiteralState.read_cons h₃]
  simp only [Option.map_map]
  rfl

theorem reads_hex (h : state.Pending pending) : ReadsByte state pending (hexEscape c) c true := by
  have hc := c.toNat_lt
  have hd₁ := hexDigit_hexChar (d := c.toNat / 16) (by omega)
  have hd₂ := hexDigit_hexChar (d := c.toNat % 16) (by omega)
  have hvalue : 16 * (16 * 0 + c.toNat / 16) + c.toNat % 16 = c.toNat := by omega
  have h₁ : LiteralState.next (.hex false 0) (hexChar (c.toNat / 16)) =
      some (.hex true (16 * 0 + c.toNat / 16), []) := by
    dsimp only [LiteralState.next]
    rw [hd₁]
  have h₂ : LiteralState.next (.hex true (16 * 0 + c.toNat / 16)) (hexChar (c.toNat % 16)) =
      some (.hex true c.toNat, []) := by
    dsimp only [LiteralState.next]
    rw [hd₂]
    dsimp only
    rw [hvalue]
  refine ⟨.hex true c.toNat, pending, [c], .hex c, fun _ _ => rfl, rfl, fun text => ?_⟩
  unfold hexEscape
  simp only [List.cons_append, List.nil_append]
  rw [read_backslash h, LiteralState.read_cons (show LiteralState.next .escape 120 = some (.hex false 0, [])
    from rfl), LiteralState.read_cons h₁, LiteralState.read_cons h₂]
  simp only [Option.map_map]
  rfl

theorem reads_plain (h : state.Pending pending) (hletter : letterEscape c = none)
    (hdigit : ∀ value, state = .hex true value → hexDigit c = none) :
    ReadsByte state pending [c] c false := by
  have hplain : plainChar c = some (.plain, [c]) := by
    unfold letterEscape at hletter
    split_ifs at hletter with h₁ h₂ h₃ h₄
    unfold plainChar
    rw [if_neg fun heq => heq.elim (fun heq => h₄ (.inl heq)) h₁,
      if_neg fun heq => h₄ (.inr (.inr heq))]
  have hnext := h.next hdigit
  rw [hplain, Option.map_some] at hnext
  exact ⟨.plain, pending ++ [c], [], .plain, fun _ heq => absurd heq (by simp), List.append_nil _,
    fun text => LiteralState.read_cons hnext text⟩

end

/-- What is written for a character, and the flag behind it. -/
def escapePiece (useHex lastHexEscape : Bool) (c : UInt8) : List UInt8 × Bool :=
  match letterEscape c with
  | some letter => ([92, letter], false)
  | none =>
      if isprint c = false ∨ (lastHexEscape ∧ isxdigit c) then
        (if useHex then hexEscape c else octalEscape c, useHex)
      else ([c], false)

section
variable (useHex lastHexEscape : Bool) (c : UInt8)

theorem length_escapePiece : (escapePiece useHex lastHexEscape c).1.length ≤ 4 := by
  unfold escapePiece
  cases letterEscape c with
  | some letter => simp
  | none =>
    dsimp only
    split_ifs with hescape huse
    · simp [hexEscape]
    · simp [octalEscape]
    · simp

variable {useHex lastHexEscape c}

theorem reads_escapePiece {state : LiteralState} {pending : List UInt8} (hpending : state.Pending pending)
    (hflag : ∀ value, state = .hex true value → lastHexEscape = true) :
    ReadsByte state pending (escapePiece useHex lastHexEscape c).1 c
      (escapePiece useHex lastHexEscape c).2 := by
  unfold escapePiece
  cases hletter : letterEscape c with
  | some letter => exact reads_letter hpending hletter
  | none =>
    dsimp only
    split_ifs with hescape huse
    · rw [huse]
      exact reads_hex hpending
    · rw [Bool.eq_false_iff.mpr huse]
      exact reads_octal hpending
    · refine reads_plain hpending hletter fun value heq => ?_
      have hnot := fun hdigit => hescape (.inr ⟨hflag value heq, hdigit⟩)
      unfold isxdigit at hnot
      simpa using hnot

variable {destLen : ℕ} {src dest r : List UInt8}

/-- With room for five characters a piece is written. -/
theorem cEscapeLoop_room (hroom : dest.length + 5 ≤ destLen) :
    cEscapeLoop destLen useHex (c :: src) dest lastHexEscape =
      cEscapeLoop destLen useHex src (dest ++ (escapePiece useHex lastHexEscape c).1)
        (escapePiece useHex lastHexEscape c).2 := by
  have h₂ : ¬ destLen < dest.length + 2 := by omega
  have h₄ : ¬ destLen < dest.length + 4 := by omega
  have h₅ : ¬ destLen < dest.length + 5 := by omega
  rw [cEscapeLoop, if_neg h₂]
  unfold escapePiece
  cases letterEscape c with
  | some letter => rfl
  | none =>
    dsimp only
    split_ifs <;> rfl

/-- A loop that succeeds has written the piece. -/
theorem cEscapeLoop_some
    (h : cEscapeLoop destLen useHex (c :: src) dest lastHexEscape = .ok (some r)) :
    cEscapeLoop destLen useHex src (dest ++ (escapePiece useHex lastHexEscape c).1)
      (escapePiece useHex lastHexEscape c).2 = .ok (some r) := by
  rw [cEscapeLoop] at h
  unfold escapePiece
  by_cases h₂ : destLen < dest.length + 2
  · rw [if_pos h₂] at h
    simp at h
  · rw [if_neg h₂] at h
    cases hletter : letterEscape c with
    | some letter =>
      rw [hletter] at h
      exact h
    | none =>
      rw [hletter] at h
      dsimp only at h ⊢
      by_cases hescape : isprint c = false ∨ (lastHexEscape = true ∧ isxdigit c = true)
      · rw [if_pos hescape] at h ⊢
        by_cases h₄ : destLen < dest.length + 4
        · rw [if_pos h₄] at h
          simp at h
        · rw [if_neg h₄] at h
          by_cases h₅ : destLen < dest.length + 5
          · rw [if_pos h₅] at h
            simp at h
          · rw [if_neg h₅] at h
            exact h
      · rw [if_neg hescape] at h ⊢
        exact h

end

section
variable {destLen : ℕ} {useHex : Bool}

/-- What the loop has written fits with its NUL, and the part of it that the loop has added is read as the
rest of the string; what is still pending of the text in front of it comes first. -/
theorem cEscapeLoop_reads :
    ∀ (src dest : List UInt8) (lastHexEscape : Bool) {r : List UInt8},
      cEscapeLoop destLen useHex src dest lastHexEscape = .ok (some r) →
      r.length + 1 ≤ destLen ∧ ∃ text, r = dest ++ text ∧
        ∀ state pending, LiteralState.Pending state pending →
          (∀ value, state = .hex true value → lastHexEscape = true) →
          state.read text = some (pending ++ src) := by
  intro src
  induction src with
  | nil =>
    intro dest lastHexEscape r h
    unfold cEscapeLoop at h
    by_cases hroom : destLen < dest.length + 1
    · rw [if_pos hroom] at h
      simp at h
    rw [if_neg hroom] at h
    obtain rfl := Option.some.inj (Except.ok.inj h)
    refine ⟨by omega, [], (List.append_nil _).symm, fun state pending hpending _ => ?_⟩
    rw [List.append_nil]
    exact hpending.finish
  | cons c src ih =>
    intro dest lastHexEscape r h
    obtain ⟨hlength, text, rfl, hread⟩ := ih _ _ (cEscapeLoop_some h)
    refine ⟨hlength, _, List.append_assoc _ _ _, fun state pending hpending hflag => ?_⟩
    have hpiece : ReadsByte state pending (escapePiece useHex lastHexEscape c).1 c
        (escapePiece useHex lastHexEscape c).2 := reads_escapePiece hpending hflag
    obtain ⟨state', out, pending', hpending', hflag', hout, htext⟩ := hpiece
    rw [htext, hread state' pending' hpending' hflag', Option.map_some, ← List.append_assoc, hout,
      List.append_assoc, List.singleton_append]

/-- Four characters for each are enough. -/
theorem cEscapeLoop_succeeds :
    ∀ (src dest : List UInt8) (lastHexEscape : Bool), dest.length + src.length * 4 + 1 ≤ destLen →
      ∃ r, cEscapeLoop destLen useHex src dest lastHexEscape = .ok (some r) := by
  intro src
  induction src with
  | nil =>
    intro dest lastHexEscape hroom
    refine ⟨dest, ?_⟩
    unfold cEscapeLoop
    rw [if_neg (by simpa using hroom)]
  | cons c src ih =>
    intro dest lastHexEscape hroom
    rw [List.length_cons] at hroom
    have hpiece := length_escapePiece useHex lastHexEscape c
    rw [cEscapeLoop_room (by omega)]
    exact ih _ _ (by rw [List.length_append]; omega)

end

/-- A result of `CEscapeInternal` fits with its NUL, and the literal initialises an array with the
string. -/
theorem literal_of_cEscapeInternal {src text : List UInt8} {destLen : ℕ} {useHex : Bool}
    (h : cEscapeInternal src destLen useHex = .ok (some text)) :
    text.length + 1 ≤ destLen ∧ literalArray text = some (src ++ [0]) := by
  obtain ⟨hlength, _, rfl, hread⟩ := cEscapeLoop_reads src [] false h
  refine ⟨hlength, ?_⟩
  unfold literalArray
  rw [hread .plain [] .plain fun _ heq => absurd heq (by simp)]
  rfl

/-- `CEscape` never writes behind its buffer. -/
theorem cEscape_literal (src : List UInt8) :
    ∃ text, cEscape src = .ok text ∧ literalArray text = some (src ++ [0]) := by
  have hroom : ([] : List UInt8).length + src.length * 4 + 1 ≤ src.length * 4 + 1 := by simp
  obtain ⟨text, hok⟩ : ∃ r, cEscapeInternal src (src.length * 4 + 1) false = .ok (some r) :=
    cEscapeLoop_succeeds src [] false hroom
  refine ⟨text, ?_, (literal_of_cEscapeInternal hok).2⟩
  unfold cEscape
  rw [hok]
  rfl

/-- The files whose names have no character with a code of a single digit have different identifiers. -/
theorem filenameIdentifier_inj {a b : List UInt8} (ha : ∀ c ∈ a, 16 ≤ c.toNat)
    (hb : ∀ c ∈ b, 16 ≤ c.toNat) : filenameIdentifier a = filenameIdentifier b ↔ a = b := by
  refine ⟨prefixCode_injective (fun c (_ : 16 ≤ c.toNat) => ?_)
    (fun c c' (hc : 16 ≤ c.toNat) (hc' : 16 ≤ c'.toNat) hpre => ?_) ha hb, congrArg _⟩
  · cases isalnum c <;> simp
  · have hlt := c.toNat_lt
    have hlt' := c'.toNat_lt
    cases halnum : isalnum c with
    | true =>
      cases halnum' : isalnum c' with
      | true => simpa [halnum, halnum'] using hpre
      | false =>
        have hc95 : c = 95 := by
          rw [halnum, halnum'] at hpre
          simpa using (List.cons_prefix_cons.mp hpre).1
        rw [hc95] at halnum
        exact absurd halnum (by decide)
    | false =>
      cases halnum' : isalnum c' with
      | true =>
        have hc95 : 95 = c' := by
          rw [halnum, halnum'] at hpre
          simpa using (List.cons_prefix_cons.mp hpre).1
        rw [← hc95] at halnum'
        exact absurd halnum' (by decide)
      | false =>
        have htext : fastHexToBuffer c.toNat <+: fastHexToBuffer c'.toNat := by
          rw [halnum, halnum'] at hpre
          exact (List.cons_prefix_cons.mp hpre).2
        unfold fastHexToBuffer at htext
        rw [if_neg (by omega), if_neg (by omega)] at htext
        obtain ⟨h₁, htext⟩ := List.cons_prefix_cons.mp htext
        obtain ⟨h₂, -⟩ := List.cons_prefix_cons.mp htext
        have hhigh := hexChar_injective (by omega) (by omega) h₁
        have hlow := hexChar_injective (by omega) (by omega) h₂
        exact UInt8.toNat_inj.mp (by omega)

/-- `a.b` and `a_b` -/
theorem filenameIdentifier_inj_dot : filenameIdentifier [97, 46, 98] = filenameIdentifier [97, 95, 98] ↔
    ([97, 46, 98] : List UInt8) = [97, 95, 98] :=
  have ha : ∀ c ∈ ([97, 46, 98] : List UInt8), 16 ≤ c.toNat := by simp
  have hb : ∀ c ∈ ([97, 95, 98] : List UInt8), 16 ≤ c.toNat := by simp
  filenameIdentifier_inj ha hb

/-- `.` and a character 2 in front of an `e` come to the same. -/
example : filenameIdentifier [46] = filenameIdentifier [2, 101] := rfl

end ProtobufC
