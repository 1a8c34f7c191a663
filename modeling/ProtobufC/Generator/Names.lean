import ProtobufC.Generator.MessageTables

/-! # Names of members

The names that the members of a generated structure get.  `FieldName` writes the name of a field in lower
case, with an underscore behind it where it is a keyword; the structure has a member of that name, before
it a `has_` or `n_` member for some fields, and `base` before all of them.  Two declarations that differ
can so get members of one name, and `structMembers_exact` says when they do.
-/

namespace ProtobufC
open Library
set_option autoImplicit false

/-! ## The code -/

/-- `ToLower` -/
def toLower (name : List Char) : List Char := name.map Char.toLower

def kKeywordList : List String := [
  "and", "and_eq", "asm", "auto", "bitand", "bitor", "bool", "break", "case",
  "catch", "char", "class", "compl", "const", "const_cast", "continue",
  "default", "delete", "do", "double", "dynamic_cast", "else", "enum",
  "explicit", "extern", "false", "float", "for", "friend", "goto", "if",
  "inline", "int", "long", "mutable", "namespace", "new", "not", "not_eq",
  "operator", "or", "or_eq", "private", "protected", "public", "register",
  "reinterpret_cast", "return", "short", "signed", "sizeof", "static",
  "static_cast", "struct", "switch", "template", "this", "throw", "true", "try",
  "typedef", "typeid", "typename", "union", "unsigned", "using", "virtual",
  "void", "volatile", "wchar_t", "while", "xor", "xor_eq"]

/-- `MakeKeywordsMap` -/
def kKeywords : List (List Char) := kKeywordList.map String.toList

/-- `FieldName` -/
def FieldDeclaration.fieldName (field : FieldDeclaration) : List Char :=
  let result := toLower field.name.toList
  if result ∈ kKeywords then result ++ ['_'] else result

/-- The texts of the functions `GenerateStructMembers`, where `name` stands for the name of the field. -/
def memberName (name : List Char) : MemberKind → List Char
  | .has => 'h' :: 'a' :: 's' :: '_' :: name
  | .count => 'n' :: '_' :: name
  | .value => name

def FieldDeclaration.memberKinds (field : FieldDeclaration) : List MemberKind :=
  (makeGenerator field.type).generateStructMembers field.label

/-- The members of the structure of `MessageGenerator::GenerateStructDefinition`. -/
def structMembers (fields : List FieldDeclaration) : List (List Char) :=
  ['b', 'a', 's', 'e'] :: fields.flatMap fun field => field.memberKinds.map (memberName field.fieldName)

/-- The field `g` gets the name of a member of `f`: they are written alike but for case, `f` is a keyword
and `g` is the keyword with an underscore, or `g` is called as the `has_` or `n_` member of `f`. -/
inductive FieldDeclaration.Clash (f g : FieldDeclaration) : Prop
  | same (h : toLower f.name.toList = toLower g.name.toList)
  | keyword (hkeyword : toLower f.name.toList ∈ kKeywords)
      (h : toLower g.name.toList = toLower f.name.toList ++ ['_'])
  | companion (kind : MemberKind) (hmem : kind ∈ f.memberKinds) (hkind : kind ≠ .value)
      (h : toLower g.name.toList = memberName f.fieldName kind)

/-! ## Keywords -/

theorem keyword_last : ∀ k ∈ kKeywords, k.getLast? ≠ some '_' := by
  decide +kernel

theorem underscore_not_last (n : List Char) : n ++ ['_'] ∉ kKeywords :=
  fun hmem => keyword_last _ hmem (by simp)

theorem base_not_keyword : ∀ k ∈ kKeywords,
    k ≠ ['b', 'a', 's', 'e'] ∧ k ++ ['_'] ≠ ['b', 'a', 's', 'e'] := by
  decide +kernel

/-- No keyword begins as the name of a `has_` or `n_` member does. -/
theorem keyword_start : ∀ k ∈ kKeywords, ¬ memberName [] .has <+: k ++ ['_'] ∧
    ¬ memberName [] .count <+: k ++ ['_'] := by
  decide +kernel

variable {f g : FieldDeclaration} {m n : List Char} {k l : MemberKind}

theorem memberName_not_start (hk : k ≠ .value) (n : List Char) :
    ∀ word ∈ kKeywords, word ≠ memberName n k ∧ word ++ ['_'] ≠ memberName n k := by
  have hstart : ∀ word ∈ kKeywords, ¬ memberName [] k <+: word ++ ['_'] := by
    intro word hword
    cases k with
    | has => exact (keyword_start word hword).1
    | count => exact (keyword_start word hword).2
    | value => exact absurd rfl hk
  have happend : memberName [] k <+: memberName n k := by
    cases k with
    | has => exact ⟨n, rfl⟩
    | count => exact ⟨n, rfl⟩
    | value => exact absurd rfl hk
  refine fun word hword => ⟨fun heq => hstart word hword ?_, fun heq => hstart word hword ?_⟩
  · rw [heq]
    exact happend.trans (List.prefix_append _ _)
  · rw [heq]
    exact happend

/-! ## Names of fields -/

theorem fieldName_of_keyword (h : toLower f.name.toList ∈ kKeywords) :
    f.fieldName = toLower f.name.toList ++ ['_'] :=
  if_pos h

theorem fieldName_of_plain (h : toLower f.name.toList ∉ kKeywords) :
    f.fieldName = toLower f.name.toList :=
  if_neg h

theorem fieldName_not_keyword (f : FieldDeclaration) : f.fieldName ∉ kKeywords := by
  by_cases hkeyword : toLower f.name.toList ∈ kKeywords
  · rw [fieldName_of_keyword hkeyword]
    exact underscore_not_last _
  · rwa [fieldName_of_plain hkeyword]

/-- A name that is not made of a keyword is that of the fields that are written so. -/
theorem fieldName_eq_iff_of (hm : ∀ word ∈ kKeywords, word ≠ m ∧ word ++ ['_'] ≠ m) :
    f.fieldName = m ↔ toLower f.name.toList = m := by
  by_cases hkeyword : toLower f.name.toList ∈ kKeywords
  · obtain ⟨hplain, hunderscore⟩ := hm _ hkeyword
    rw [fieldName_of_keyword hkeyword]
    exact iff_of_false hunderscore hplain
  · rw [fieldName_of_plain hkeyword]

theorem clash_of_fieldName (h : f.fieldName = g.fieldName) : f.Clash g ∨ g.Clash f := by
  by_cases hf : toLower f.name.toList ∈ kKeywords
  · by_cases hg : toLower g.name.toList ∈ kKeywords
    · rw [fieldName_of_keyword hf, fieldName_of_keyword hg] at h
      exact .inl (.same (List.append_cancel_right h))
    · rw [fieldName_of_keyword hf, fieldName_of_plain hg] at h
      exact .inl (.keyword hf h.symm)
  · by_cases hg : toLower g.name.toList ∈ kKeywords
    · rw [fieldName_of_plain hf, fieldName_of_keyword hg] at h
      exact .inr (.keyword hg h)
    · rw [fieldName_of_plain hf, fieldName_of_plain hg] at h
      exact .inl (.same h)

theorem fieldName_congr (h : toLower f.name.toList = toLower g.name.toList) :
    f.fieldName = g.fieldName := by
  unfold FieldDeclaration.fieldName
  rw [h]

/-! ## Names of members -/

theorem memberKinds_eq (f : FieldDeclaration) :
    f.memberKinds = [.value] ∨ f.memberKinds = [.has, .value] ∨ f.memberKinds = [.count, .value] := by
  have hmembers : ∀ (type : FieldType) (label : Label) (kinds : List MemberKind),
      (makeGenerator type).generateStructMembers label = kinds →
        kinds = [.value] ∨ kinds = [.has, .value] ∨ kinds = [.count, .value] := by
    rintro type label kinds rfl
    cases type <;> cases label <;> decide
  exact hmembers f.type f.label f.memberKinds rfl

theorem value_mem_memberKinds (f : FieldDeclaration) : .value ∈ f.memberKinds := by
  obtain h | h | h := memberKinds_eq f <;> simp [h]

theorem memberName_ne (hk : k ≠ .value) (n : List Char) : memberName n k ≠ memberName n .value := by
  intro h
  have hlength := congrArg List.length h
  cases k with
  | has =>
    simp only [memberName, List.length_cons] at hlength
    omega
  | count =>
    simp only [memberName, List.length_cons] at hlength
    omega
  | value => exact hk rfl

theorem name_of_companions (hk : k ≠ .value) (hl : l ≠ .value) (h : memberName m k = memberName n l) :
    m = n := by
  cases k <;> cases l <;> simp_all [memberName]

theorem memberNames_nodup (f : FieldDeclaration) : (f.memberKinds.map (memberName f.fieldName)).Nodup := by
  have hhas := memberName_ne (k := .has) (by simp) f.fieldName
  have hcount := memberName_ne (k := .count) (by simp) f.fieldName
  obtain h | h | h := memberKinds_eq f
  · simp [h]
  · simpa [h] using hhas
  · simpa [h] using hcount

/-- Two fields have members of one name. -/
theorem exists_common_iff : (∃ k ∈ f.memberKinds, ∃ l ∈ g.memberKinds,
    memberName f.fieldName k = memberName g.fieldName l) ↔ f.Clash g ∨ g.Clash f := by
  have hback : ∀ {f g : FieldDeclaration}, f.Clash g → ∃ k ∈ f.memberKinds,
      memberName f.fieldName k = g.fieldName := by
    intro f g h
    cases h with
    | same h => exact ⟨.value, value_mem_memberKinds f, fieldName_congr h⟩
    | keyword hkeyword h =>
      have hplain : toLower g.name.toList ∉ kKeywords := h ▸ underscore_not_last _
      refine ⟨.value, value_mem_memberKinds f, ?_⟩
      rw [fieldName_of_plain hplain, h]
      exact fieldName_of_keyword hkeyword
    | companion kind hmem hkind h =>
      exact ⟨kind, hmem, ((fieldName_eq_iff_of (memberName_not_start hkind _)).mpr h).symm⟩
  constructor
  · rintro ⟨k, hk, l, hl, h⟩
    by_cases hkvalue : k = .value
    · subst hkvalue
      by_cases hlvalue : l = .value
      · subst hlvalue
        exact clash_of_fieldName h
      · exact .inr (.companion l hl hlvalue ((fieldName_eq_iff_of (memberName_not_start hlvalue _)).mp h))
    · by_cases hlvalue : l = .value
      · subst hlvalue
        exact .inl (.companion k hk hkvalue
          ((fieldName_eq_iff_of (memberName_not_start hkvalue _)).mp h.symm))
      · exact clash_of_fieldName (name_of_companions hkvalue hlvalue h)
  · rintro (h | h)
    · obtain ⟨k, hk, heq⟩ := hback h
      exact ⟨k, hk, .value, value_mem_memberKinds g, heq⟩
    · obtain ⟨k, hk, heq⟩ := hback h
      exact ⟨.value, value_mem_memberKinds f, k, hk, heq.symm⟩

theorem disjoint_memberNames_iff : List.Disjoint (f.memberKinds.map (memberName f.fieldName))
    (g.memberKinds.map (memberName g.fieldName)) ↔ ¬ f.Clash g ∧ ¬ g.Clash f := by
  rw [← not_or, ← exists_common_iff]
  constructor
  · rintro h ⟨k, hk, l, hl, heq⟩
    exact h (List.mem_map_of_mem hk) (heq ▸ List.mem_map_of_mem hl)
  · intro h m hf hg
    obtain ⟨k, hk, rfl⟩ := List.mem_map.mp hf
    obtain ⟨l, hl, heq⟩ := List.mem_map.mp hg
    exact h ⟨k, hk, l, hl, heq.symm⟩

theorem base_mem_iff : ['b', 'a', 's', 'e'] ∈ f.memberKinds.map (memberName f.fieldName) ↔
    toLower f.name.toList = ['b', 'a', 's', 'e'] := by
  rw [← fieldName_eq_iff_of base_not_keyword]
  constructor
  · intro h
    obtain ⟨k, -, heq⟩ := List.mem_map.mp h
    cases k with
    | has => simp [memberName] at heq
    | count => simp [memberName] at heq
    | value => exact heq
  · intro h
    exact List.mem_map.mpr ⟨.value, value_mem_memberKinds f, h⟩

theorem memberName_not_keyword (f : FieldDeclaration) (k : MemberKind) :
    memberName f.fieldName k ∉ kKeywords := by
  by_cases hk : k = .value
  · subst hk
    exact fieldName_not_keyword f
  · exact fun hmem => (memberName_not_start hk f.fieldName _ hmem).1 rfl

/-- No member of a generated structure is called as a keyword, and the members have different names just if
no field is called `base` and no two fields clash. -/
theorem structMembers_exact (fields : List FieldDeclaration) :
    (∀ m ∈ structMembers fields, m ∉ kKeywords) ∧
    ((structMembers fields).Nodup ↔
      (∀ f ∈ fields, toLower f.name.toList ≠ ['b', 'a', 's', 'e']) ∧
        fields.Pairwise fun f g => ¬ f.Clash g ∧ ¬ g.Clash f) := by
  unfold structMembers
  refine ⟨fun m hm hkeyword => ?_, ?_⟩
  · obtain rfl | hm := List.mem_cons.mp hm
    · exact (base_not_keyword _ hkeyword).1 rfl
    · obtain ⟨f, -, hm⟩ := List.mem_flatMap.mp hm
      obtain ⟨k, -, rfl⟩ := List.mem_map.mp hm
      exact memberName_not_keyword f k hkeyword
  · rw [List.nodup_cons, List.nodup_flatMap]
    have hbase : ['b', 'a', 's', 'e'] ∉
        fields.flatMap (fun f => f.memberKinds.map (memberName f.fieldName)) ↔
        ∀ f ∈ fields, toLower f.name.toList ≠ ['b', 'a', 's', 'e'] := by
      rw [List.mem_flatMap, not_exists]
      refine forall_congr' fun f => ?_
      rw [not_and, base_mem_iff]
    have hpairs : fields.Pairwise (Function.onFun List.Disjoint fun f =>
        f.memberKinds.map (memberName f.fieldName)) ↔
        fields.Pairwise fun f g => ¬ f.Clash g ∧ ¬ g.Clash f :=
      List.Pairwise.iff fun _ _ => disjoint_memberNames_iff
    rw [hbase, hpairs]
    exact and_congr_right fun _ => and_iff_right fun f _ => memberNames_nodup f

end ProtobufC
