import Mathlib
import ProtobufC.Generator.Names

/-! # Names of symbols

The generator makes three C names of the full name of a message: `FullNameToC` names its type,
`FullNameToLower` begins the names of its functions and of its descriptor, and `FullNameToUpper` those of
its macros.  The macros of two messages have one name just if the functions have
(`fullNameToUpper_eq_iff`), and where the names are in camel case just if the types have
(`fullNames_eq_iff`).

`Char.toUpper_toLower_eq_toUpper` and the other lemmas on the case of a letter are in none of the smaller
modules of Mathlib, so this one imports it whole.
-/

namespace ProtobufC
open Library
set_option autoImplicit false

/-! ## The code -/

/-- The loop of `CamelToUpper` and `CamelToLower`, which differ in what they make of a capital and of
another character. -/
def camelLoop (capital other : Char → Char) : Bool → List Char → List Char
  | _, [] => []
  | wasUpper, c :: name =>
      if c.isUpper then
        (if wasUpper then [] else ['_']) ++ capital c :: camelLoop capital other true name
      else other c :: camelLoop capital other false name

def camelToUpper (name : List Char) : List Char := camelLoop id Char.toUpper true name

def camelToLower (name : List Char) : List Char := camelLoop Char.toLower id true name

/-- The loop of `ToCamel` -/
def toCamelLoop : Bool → List Char → List Char
  | _, [] => []
  | nextIsUpper, c :: name =>
      if c = '_' then toCamelLoop true name
      else (if nextIsUpper then c.toUpper else c) :: toCamelLoop false name

def toCamel (name : List Char) : List Char := toCamelLoop true name

/-- `SplitStringUsing`, with a delimiter of one character: the pieces between delimiters that are not
empty. -/
def splitStringUsing (full : List Char) (delim : Char) : List (List Char) :=
  (full.splitOn delim).filter fun piece => !piece.isEmpty

/-- A round of the loops of `FullNameToLower`, `FullNameToUpper` and `FullNameToC`. -/
def joinPiece (convert : List Char → List Char) (rv piece : List Char) : List Char :=
  if piece = [] then rv else (if rv ≠ [] then rv ++ ['_', '_'] else rv) ++ convert piece

def joinPieces (convert : List Char → List Char) (pieces : List (List Char)) : List Char :=
  pieces.foldl (joinPiece convert) []

def fullNameToLower (fullName : List Char) : List Char :=
  joinPieces camelToLower (splitStringUsing fullName '.')

def fullNameToUpper (fullName : List Char) : List Char :=
  joinPieces camelToUpper (splitStringUsing fullName '.')

def fullNameToC (fullName : List Char) : List Char :=
  joinPieces toCamel (splitStringUsing fullName '.')

/-! ## Lower and upper case -/

theorem camelLoop_upper (wasUpper : Bool) (name : List Char) : camelLoop id Char.toUpper wasUpper name =
    (camelLoop Char.toLower id wasUpper name).map Char.toUpper := by
  induction name generalizing wasUpper with
  | nil => rfl
  | cons c name ih =>
    unfold camelLoop
    by_cases hc : c.isUpper = true
    · have hupper : c.toUpper = c := Char.toUpper_eq_of_not_isLower (Char.not_isLower_of_isUpper hc)
      rw [if_pos hc, if_pos hc, ih, List.map_append, List.map_cons, Char.toUpper_toLower_eq_toUpper,
        hupper]
      cases wasUpper <;> rfl
    · rw [if_neg hc, if_neg hc, ih, List.map_cons]
      rfl

theorem camelToUpper_eq (name : List Char) : camelToUpper name = (camelToLower name).map Char.toUpper :=
  camelLoop_upper true name

theorem joinPiece_upper (rv piece : List Char) : joinPiece camelToUpper (rv.map Char.toUpper) piece =
    (joinPiece camelToLower rv piece).map Char.toUpper := by
  unfold joinPiece
  by_cases hpiece : piece = []
  · rw [if_pos hpiece, if_pos hpiece]
  · rw [if_neg hpiece, if_neg hpiece, List.map_append, camelToUpper_eq]
    cases rv with
    | nil => rfl
    | cons c rv => simp

/-- The names of the macros are those of the functions in upper case. -/
theorem fullNameToUpper_eq (fullName : List Char) :
    fullNameToUpper fullName = (fullNameToLower fullName).map Char.toUpper := by
  have hfold : ∀ (pieces : List (List Char)) (rv : List Char),
      pieces.foldl (joinPiece camelToUpper) (rv.map Char.toUpper) =
        (pieces.foldl (joinPiece camelToLower) rv).map Char.toUpper := by
    intro pieces
    induction pieces with
    | nil => exact fun rv => rfl
    | cons piece pieces ih =>
      intro rv
      rw [List.foldl_cons, List.foldl_cons, joinPiece_upper]
      exact ih _
  exact hfold _ []

theorem camelLoop_not_upper (wasUpper : Bool) (name : List Char) :
    ∀ c ∈ camelLoop Char.toLower id wasUpper name, c.isUpper = false := by
  induction name generalizing wasUpper with
  | nil => exact fun c hc => absurd hc List.not_mem_nil
  | cons d name ih =>
    intro c hc
    unfold camelLoop at hc
    by_cases hd : d.isUpper = true
    · rw [if_pos hd, List.mem_append, List.mem_cons] at hc
      obtain hc | rfl | hc := hc
      · cases wasUpper
        · obtain rfl := List.mem_singleton.mp hc
          rfl
        · exact absurd hc List.not_mem_nil
      · exact Char.isUpper_toLower_eq_false d
      · exact ih true c hc
    · rw [if_neg hd, List.mem_cons] at hc
      obtain rfl | hc := hc
      · exact Bool.eq_false_iff.mpr hd
      · exact ih false c hc

/-- The names of functions are in lower case. -/
theorem fullNameToLower_not_upper (fullName : List Char) :
    ∀ c ∈ fullNameToLower fullName, c.isUpper = false := by
  have hround : ∀ (piece rv : List Char), (∀ c ∈ rv, c.isUpper = false) →
      ∀ c ∈ joinPiece camelToLower rv piece, c.isUpper = false := by
    intro piece rv hrv c hc
    unfold joinPiece at hc
    split_ifs at hc with hpiece hne
    · exact hrv c hc
    · obtain hc | hc := List.mem_append.mp hc
      · obtain hc | hc := List.mem_append.mp hc
        · exact hrv c hc
        · obtain rfl : c = '_' := by simpa using hc
          rfl
      · exact camelLoop_not_upper true piece c hc
    · obtain hc | hc := List.mem_append.mp hc
      · exact hrv c hc
      · exact camelLoop_not_upper true piece c hc
  have hfold : ∀ (pieces : List (List Char)) (rv : List Char), (∀ c ∈ rv, c.isUpper = false) →
      ∀ c ∈ pieces.foldl (joinPiece camelToLower) rv, c.isUpper = false := by
    intro pieces
    induction pieces with
    | nil => exact fun rv hrv => hrv
    | cons piece pieces ih => exact fun rv hrv => ih _ (hround piece rv hrv)
  exact hfold _ [] fun c hc => absurd hc List.not_mem_nil

/-- The macros of two messages have one name just if their functions have. -/
theorem fullNameToUpper_eq_iff (a b : List Char) :
    fullNameToUpper a = fullNameToUpper b ↔ fullNameToLower a = fullNameToLower b := by
  have hback : ∀ fullName : List Char,
      (fullNameToUpper fullName).map Char.toLower = fullNameToLower fullName := by
    intro fullName
    rw [fullNameToUpper_eq, List.map_map]
    conv_rhs => rw [← List.map_id (fullNameToLower fullName)]
    refine List.map_congr_left fun c hc => ?_
    have hupper := fullNameToLower_not_upper fullName c hc
    rw [Function.comp_apply, Char.toLower_toUpper_eq_toLower]
    exact Char.toLower_eq_of_not_isUpper (by simp [hupper])
  constructor
  · intro h
    rw [← hback a, h, hback b]
  · intro h
    rw [fullNameToUpper_eq, fullNameToUpper_eq, h]

/-! ## Names in camel case -/

/-- No underscore, and no capital behind another; `wasUpper` says so of the character before. -/
def camelCase : Bool → List Char → Bool
  | _, [] => true
  | wasUpper, c :: name => c ≠ '_' && !(wasUpper && c.isUpper) && camelCase c.isUpper name

def uncapitalize : List Char → List Char
  | [] => []
  | c :: name => c.toLower :: name

def capitalize : List Char → List Char
  | [] => []
  | c :: name => c.toUpper :: name

/-- The pieces of a name, as far as it tells. -/
def unjoin : List Char → List (List Char)
  | [] => [[]]
  | [c] => [[c]]
  | c :: d :: name =>
      if c = '_' then
        if d = '_' then [] :: unjoin name else (unjoin name).modifyHead (d.toUpper :: ·)
      else (unjoin (d :: name)).modifyHead (c :: ·)

theorem unjoin_cons {c : Char} (hc : c ≠ '_') (name : List Char) :
    unjoin (c :: name) = (unjoin name).modifyHead (c :: ·) := by
  cases name with
  | nil => rfl
  | cons d name =>
    rw [unjoin, if_neg hc]

theorem toLower_ne_underscore {c : Char} (hc : c ≠ '_') : c.toLower ≠ '_' := by
  by_cases hupper : c.isUpper = true
  · intro h
    have hlower := Char.isLower_toLower_eq_isAlpha c
    rw [h, Char.isAlpha, hupper, Bool.true_or] at hlower
    exact absurd hlower (by decide)
  · rw [Char.toLower_eq_of_not_isUpper hupper]
    exact hc

theorem unjoin_capital {c : Char} (hc : c.isUpper = true) (hunderscore : c ≠ '_') (name : List Char) :
    unjoin ('_' :: c.toLower :: name) = (unjoin name).modifyHead (c :: ·) := by
  have hupper : c.toLower.toUpper = c := by
    rw [Char.toUpper_toLower_eq_toUpper]
    exact Char.toUpper_eq_of_not_isLower (Char.not_isLower_of_isUpper hc)
  rw [unjoin, if_pos rfl, if_neg (toLower_ne_underscore hunderscore), hupper]

theorem unjoin_camelLoop {wasUpper : Bool} {name behind : List Char} {pieces : List (List Char)}
    (hname : camelCase wasUpper name = true) (hbehind : unjoin behind = [] :: pieces) :
    unjoin (camelLoop Char.toLower id wasUpper name ++ behind) = name :: pieces := by
  induction name generalizing wasUpper with
  | nil => exact hbehind
  | cons c name ih =>
    simp only [camelCase, Bool.and_eq_true, decide_eq_true_eq, Bool.not_eq_true'] at hname
    obtain ⟨⟨hunderscore, hcapital⟩, hrest⟩ := hname
    have hpieces := ih hrest
    unfold camelLoop
    by_cases hc : c.isUpper = true
    · obtain rfl : wasUpper = false := by simpa [hc] using hcapital
      rw [hc] at hpieces
      rw [if_pos hc]
      change unjoin ('_' :: c.toLower :: (camelLoop Char.toLower id true name ++ behind)) = _
      rw [unjoin_capital hc hunderscore, hpieces]
      rfl
    · rw [Bool.eq_false_iff.mpr hc] at hpieces
      rw [if_neg hc, List.cons_append, id_eq, unjoin_cons hunderscore, hpieces]
      rfl

theorem camelToLower_cons (c : Char) (name : List Char) :
    camelToLower (c :: name) = c.toLower :: camelLoop Char.toLower id c.isUpper name := by
  unfold camelToLower
  rw [camelLoop]
  by_cases hc : c.isUpper = true
  · rw [if_pos hc, hc]
    rfl
  · rw [if_neg hc, Bool.eq_false_iff.mpr hc, Char.toLower_eq_of_not_isUpper hc]
    rfl

theorem unjoin_append {name behind : List Char} {pieces : List (List Char)}
    (hname : ∀ c ∈ name, c ≠ '_') (hbehind : unjoin behind = [] :: pieces) :
    unjoin (name ++ behind) = name :: pieces := by
  induction name with
  | nil => exact hbehind
  | cons c name ih =>
    rw [List.cons_append, unjoin_cons (hname c List.mem_cons_self),
      ih fun d hd => hname d (List.mem_cons_of_mem c hd)]
    rfl

/-- What `convert` makes of a piece shows `view` of the piece, and nothing else of it. -/
structure Tells (convert view back : List Char → List Char) (piece : List Char) : Prop where
  nonempty : view piece ≠ []
  eq : convert piece = back (view piece)
  read : ∀ behind pieces, unjoin behind = [] :: pieces →
    unjoin (convert piece ++ behind) = view piece :: pieces

/-- `CamelToLower` of a name without its first capital. -/
def lowerTail : List Char → List Char
  | [] => []
  | c :: name => c :: camelLoop Char.toLower id false name

theorem camelToLower_tells {piece : List Char} (hne : piece ≠ []) (hpiece : camelCase false piece = true) :
    Tells camelToLower uncapitalize lowerTail piece := by
  cases piece with
  | nil => exact absurd rfl hne
  | cons c name =>
    simp only [camelCase, Bool.and_eq_true, decide_eq_true_eq] at hpiece
    obtain ⟨⟨hunderscore, -⟩, hname⟩ := hpiece
    have htail : camelLoop Char.toLower id c.isUpper name = camelLoop Char.toLower id false name := by
      cases name with
      | nil => rfl
      | cons d name =>
        by_cases hd : d.isUpper = true
        · have hcapital : c.isUpper = false := by
            simp only [camelCase, Bool.and_eq_true, Bool.not_eq_true'] at hname
            simpa [hd] using hname.1.2
          rw [hcapital]
        · unfold camelLoop
          rw [if_neg hd, if_neg hd]
    refine ⟨by simp [uncapitalize], ?_, fun behind pieces hbehind => ?_⟩
    · rw [camelToLower_cons, htail]
      rfl
    · rw [camelToLower_cons, List.cons_append, unjoin_cons (toLower_ne_underscore hunderscore),
        unjoin_camelLoop hname hbehind]
      rfl

theorem not_underscore_of_camelCase {wasUpper : Bool} {name : List Char}
    (h : camelCase wasUpper name = true) : ∀ c ∈ name, c ≠ '_' := by
  induction name generalizing wasUpper with
  | nil => exact fun c hc => absurd hc List.not_mem_nil
  | cons d name ih =>
    simp only [camelCase, Bool.and_eq_true, decide_eq_true_eq] at h
    intro c hc
    obtain rfl | hc := List.mem_cons.mp hc
    · exact h.1.1
    · exact ih h.2 c hc

theorem toCamelLoop_eq {name : List Char} (h : ∀ c ∈ name, c ≠ '_') : toCamelLoop false name = name := by
  induction name with
  | nil => rfl
  | cons c name ih =>
    rw [toCamelLoop, if_neg (h c List.mem_cons_self), ih fun d hd => h d (List.mem_cons_of_mem c hd)]
    rfl

theorem toUpper_ne_underscore {c : Char} (hc : c ≠ '_') : c.toUpper ≠ '_' := by
  intro h
  have hlower : c.toLower = '_' := by
    rw [← Char.toLower_toUpper_eq_toLower, h]
    rfl
  exact toLower_ne_underscore hc hlower

theorem toCamel_tells {piece : List Char} (hne : piece ≠ []) (hpiece : camelCase false piece = true) :
    Tells toCamel capitalize id piece := by
  have hunderscore := not_underscore_of_camelCase hpiece
  cases piece with
  | nil => exact absurd rfl hne
  | cons c name =>
    have hc := hunderscore c List.mem_cons_self
    have hname : ∀ d ∈ name, d ≠ '_' := fun d hd => hunderscore d (List.mem_cons_of_mem c hd)
    have heq : toCamel (c :: name) = capitalize (c :: name) := by
      unfold toCamel
      rw [toCamelLoop, if_neg hc, toCamelLoop_eq hname]
      rfl
    refine ⟨by simp [capitalize], heq, fun behind pieces hbehind => ?_⟩
    rw [heq]
    refine unjoin_append (fun d hd => ?_) hbehind
    obtain rfl | hd := List.mem_cons.mp hd
    · exact toUpper_ne_underscore hc
    · exact hname d hd

section
variable {convert view back : List Char → List Char} {pieces pieces' : List (List Char)}

theorem Tells.convert_ne {piece : List Char} (h : Tells convert view back piece) : convert piece ≠ [] := by
  intro hempty
  have hread := h.read [] [] rfl
  rw [hempty] at hread
  exact h.nonempty (List.cons.inj hread).1.symm

theorem foldl_joinPiece (hne : ∀ piece ∈ pieces, piece ≠ []) {rv : List Char} (hrv : rv ≠ []) :
    pieces.foldl (joinPiece convert) rv =
      rv ++ pieces.flatMap fun piece => '_' :: '_' :: convert piece := by
  induction pieces generalizing rv with
  | nil => exact (List.append_nil rv).symm
  | cons piece pieces ih =>
    have hround : joinPiece convert rv piece = rv ++ '_' :: '_' :: convert piece := by
      unfold joinPiece
      rw [if_neg (hne piece List.mem_cons_self), if_pos hrv, List.append_assoc]
      rfl
    rw [List.foldl_cons, hround, ih (fun p hp => hne p (List.mem_cons_of_mem _ hp)) (by simp),
      List.append_assoc, List.flatMap_cons]

theorem unjoin_flatMap (h : ∀ piece ∈ pieces, Tells convert view back piece) :
    unjoin (pieces.flatMap fun piece => '_' :: '_' :: convert piece) = [] :: pieces.map view := by
  induction pieces with
  | nil => rfl
  | cons piece pieces ih =>
    have hbehind := ih fun p hp => h p (List.mem_cons_of_mem _ hp)
    rw [List.flatMap_cons, List.map_cons]
    change [] :: unjoin (convert piece ++ _) = _
    rw [(h piece List.mem_cons_self).read _ _ hbehind]

/-- What the pieces are joined to tells what `view` shows of them. -/
theorem unjoin_joinPieces (hne : ∀ piece ∈ pieces, piece ≠ [])
    (h : ∀ piece ∈ pieces, Tells convert view back piece) :
    (unjoin (joinPieces convert pieces)).filter (fun piece => !piece.isEmpty) = pieces.map view := by
  cases pieces with
  | nil => rfl
  | cons piece pieces =>
    have hpiece := h piece List.mem_cons_self
    have hrest : ∀ p ∈ pieces, Tells convert view back p := fun p hp => h p (List.mem_cons_of_mem _ hp)
    have hfirst : joinPiece convert [] piece = convert piece := if_neg (hne piece List.mem_cons_self)
    have hall : unjoin (joinPieces convert (piece :: pieces)) = (piece :: pieces).map view := by
      unfold joinPieces
      rw [List.foldl_cons, hfirst,
        foldl_joinPiece (fun p hp => hne p (List.mem_cons_of_mem _ hp)) hpiece.convert_ne]
      exact hpiece.read _ _ (unjoin_flatMap hrest)
    rw [hall, List.filter_eq_self]
    intro p hp
    obtain ⟨q, hq, rfl⟩ := List.mem_map.mp hp
    simpa using (h q hq).nonempty

theorem joinPieces_eq (hne : ∀ piece ∈ pieces, piece ≠ [])
    (h : ∀ piece ∈ pieces, Tells convert view back piece) :
    joinPieces convert pieces = joinPieces back (pieces.map view) := by
  unfold joinPieces
  rw [List.foldl_map]
  refine List.foldl_ext _ _ _ fun rv piece hpiece => ?_
  unfold joinPiece
  rw [if_neg (hne piece hpiece), if_neg (h piece hpiece).nonempty, (h piece hpiece).eq]

theorem joinPieces_eq_iff (hne : ∀ piece ∈ pieces, piece ≠ []) (hne' : ∀ piece ∈ pieces', piece ≠ [])
    (h : ∀ piece ∈ pieces, Tells convert view back piece)
    (h' : ∀ piece ∈ pieces', Tells convert view back piece) :
    joinPieces convert pieces = joinPieces convert pieces' ↔ pieces.map view = pieces'.map view := by
  constructor
  · intro heq
    rw [← unjoin_joinPieces hne h, heq, unjoin_joinPieces hne' h']
  · intro heq
    rw [joinPieces_eq hne h, joinPieces_eq hne' h', heq]

end

theorem capitalize_uncapitalize (piece : List Char) :
    capitalize (uncapitalize piece) = capitalize piece := by
  cases piece with
  | nil => rfl
  | cons c name => exact congrArg (· :: name) (Char.toUpper_toLower_eq_toUpper c)

theorem uncapitalize_capitalize (piece : List Char) :
    uncapitalize (capitalize piece) = uncapitalize piece := by
  cases piece with
  | nil => rfl
  | cons c name => exact congrArg (· :: name) (Char.toLower_toUpper_eq_toLower c)

theorem map_capitalize_iff {pieces pieces' : List (List Char)} :
    pieces.map capitalize = pieces'.map capitalize ↔
      pieces.map uncapitalize = pieces'.map uncapitalize := by
  have hlower : ∀ ps : List (List Char), (ps.map capitalize).map uncapitalize = ps.map uncapitalize := by
    intro ps
    rw [List.map_map]
    exact List.map_congr_left fun piece _ => uncapitalize_capitalize piece
  have hupper : ∀ ps : List (List Char), (ps.map uncapitalize).map capitalize = ps.map capitalize := by
    intro ps
    rw [List.map_map]
    exact List.map_congr_left fun piece _ => capitalize_uncapitalize piece
  constructor
  · intro h
    rw [← hlower pieces, h, hlower pieces']
  · intro h
    rw [← hupper pieces, h, hupper pieces']

theorem splitStringUsing_ne (full : List Char) : ∀ piece ∈ splitStringUsing full '.', piece ≠ [] := by
  intro piece hpiece
  have hnonempty := (List.mem_filter.mp hpiece).2
  rintro rfl
  exact absurd hnonempty (by decide)

/-- Where the pieces of two names have no underscores and no capitals in succession, the types have one
name just if the functions have, and both just if the pieces are the same but for their first capitals. -/
theorem fullNames_eq_iff {a b : List Char}
    (ha : ∀ piece ∈ splitStringUsing a '.', camelCase false piece = true)
    (hb : ∀ piece ∈ splitStringUsing b '.', camelCase false piece = true) :
    (fullNameToC a = fullNameToC b ↔ fullNameToLower a = fullNameToLower b) ∧
    (fullNameToLower a = fullNameToLower b ↔
      (splitStringUsing a '.').map uncapitalize = (splitStringUsing b '.').map uncapitalize) := by
  have hna := splitStringUsing_ne a
  have hnb := splitStringUsing_ne b
  have hlower := joinPieces_eq_iff hna hnb (fun p hp => camelToLower_tells (hna p hp) (ha p hp))
    fun p hp => camelToLower_tells (hnb p hp) (hb p hp)
  have hcamel := joinPieces_eq_iff hna hnb (fun p hp => toCamel_tells (hna p hp) (ha p hp))
    fun p hp => toCamel_tells (hnb p hp) (hb p hp)
  exact ⟨hcamel.trans (map_capitalize_iff.trans hlower.symm), hlower⟩

/-- The messages `Ab` of the packages `c` and `d`. -/
theorem fullNames_eq_iff_packages :
    (fullNameToC ['c', '.', 'A', 'b'] = fullNameToC ['d', '.', 'A', 'b'] ↔
      fullNameToLower ['c', '.', 'A', 'b'] = fullNameToLower ['d', '.', 'A', 'b']) ∧
    (fullNameToLower ['c', '.', 'A', 'b'] = fullNameToLower ['d', '.', 'A', 'b'] ↔
      (splitStringUsing ['c', '.', 'A', 'b'] '.').map uncapitalize =
        (splitStringUsing ['d', '.', 'A', 'b'] '.').map uncapitalize) :=
  fullNames_eq_iff (by decide) (by decide)

end ProtobufC
