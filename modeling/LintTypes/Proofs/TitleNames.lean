import LintTypes.Proofs.IndexEntries
import Mathlib.Order.Bounds.Basic

/-!
# Names of titles

A title may say anything, and what is declared under it is referred to by a bare name. The name that
is made from a title is its own name as a title, and it is read as a reference: the reserved words
begin with a lower-case letter, and a name from a title does not, however it goes on.

A name that is taken gets a number, which is found by trying one after another. The search ends at
the least number that will do, and it has not far to go: with every number tried, one of the taken
names is used up.
-/

namespace LintTypes.Names

open LintTypes.Source

/-! ## The search for an unused name -/

section Search

variable {taken : List String} {base found : String} {n : Nat}

/-- The base, or the base and a positive number behind it. -/
def numbered (base : String) : Nat → String
  | 0 => base
  | n + 1 => base ++ toString (n + 1)

theorem numbered_of_pos (base : String) (h : 0 < n) : numbered base n = base ++ toString n := by
  cases n with
  | zero => exact absurd h (Nat.lt_irrefl 0)
  | succ n => rfl

/-- The search for an unused name from a number on: while the name is taken, the next number is
tried. -/
inductive Search (taken : List String) (base : String) : Nat → String → Prop where
  /-- A name that is not taken is found. -/
  | free {n : Nat} (h : numbered base n ∉ taken) : Search taken base n (numbered base n)
  /-- Behind a taken name the search goes on. -/
  | next {n : Nat} {found : String} (h : numbered base n ∈ taken)
      (hs : Search taken base (n + 1) found) : Search taken base n found

/-- A search that ends has passed over taken names only. -/
theorem Search.isLeast (h : Search taken base n found) :
    ∃ m, found = numbered base m ∧ IsLeast {k | n ≤ k ∧ numbered base k ∉ taken} m := by
  induction h with
  | @free n hfree => exact ⟨n, rfl, ⟨Nat.le_refl n, hfree⟩, fun k hk => hk.1⟩
  | @next n found htaken _ ih =>
    obtain ⟨m, rfl, ⟨hle, hfree⟩, hleast⟩ := ih
    refine ⟨m, rfl, ⟨Nat.le_of_succ_le hle, hfree⟩, fun k hk => hleast ⟨?_, hk.2⟩⟩
    refine Nat.lt_of_le_of_ne hk.1 ?_
    rintro rfl
    exact hk.2 htaken

/-- Where some number will do, the search ends at the least one. -/
theorem search_of_isLeast {m : Nat} (h : IsLeast {k | n ≤ k ∧ numbered base k ∉ taken} m) :
    Search taken base n (numbered base m) := by
  obtain ⟨⟨hle, hfree⟩, hleast⟩ := h
  -- From the number that is found back to the one that is tried first.
  induction hle using Nat.decreasingInduction with
  | self => exact .free hfree
  | of_succ k hlt ih =>
    have htaken : numbered base k ∈ taken := by
      by_contra hnot
      exact absurd (hleast ⟨Nat.le_refl k, hnot⟩) (Nat.not_le.2 hlt)
    exact .next htaken (ih fun j hj => hleast ⟨Nat.le_of_succ_le hj.1, hj.2⟩)

theorem candidates_eq_map (taken : List String) (base : String) :
    candidates taken base = (List.range (taken.length + 1)).map (numbered base) := by
  rw [List.range_succ_eq_map, List.map_cons, List.map_map]
  rfl

/-- The unused name has the least number that will do, which is at most that of the taken names. -/
theorem unusedName_isLeast (taken : List String) (base : String) :
    ∃ n ≤ taken.length, unusedName taken base = numbered base n ∧
      IsLeast {k | numbered base k ∉ taken} n := by
  have hfind := find?_candidates taken base
  rw [candidates_eq_map, List.find?_map] at hfind
  obtain ⟨n, hn, hname⟩ := Option.map_eq_some_iff.1 hfind
  obtain ⟨hfree, hrange, hbefore⟩ := List.find?_range_eq_some.1 hn
  refine ⟨n, Nat.le_of_lt_succ (List.mem_range.1 hrange), hname.symm, ?_, fun k hk => ?_⟩
  · simpa using hfree
  · by_contra hlt
    have htaken := hbefore k (Nat.not_le.1 hlt)
    exact hk (by simpa using htaken)

/-- The search from the base on ends, and what it finds is the unused name. -/
theorem search_iff : Search taken base 0 found ↔ found = unusedName taken base := by
  obtain ⟨n, -, hname, hleast⟩ := unusedName_isLeast taken base
  have hall : {k | 0 ≤ k ∧ numbered base k ∉ taken} = {k | numbered base k ∉ taken} := by simp
  rw [hname]
  constructor
  · intro h
    obtain ⟨m, rfl, hm⟩ := h.isLeast
    rw [hall] at hm
    rw [hm.unique hleast]
  · rintro rfl
    exact search_of_isLeast (hall ▸ hleast)

/-- Where the base is taken, the least number that will do is the least positive one. -/
theorem isLeast_positive (hb : base ∈ taken) (h : IsLeast {k | numbered base k ∉ taken} n) :
    numbered base n = base ++ toString n ∧
      IsLeast {k | 0 < k ∧ base ++ toString k ∉ taken} n := by
  have hpos : 0 < n := by
    refine Nat.pos_of_ne_zero ?_
    rintro rfl
    exact h.1 hb
  have hnumbered := numbered_of_pos base hpos
  refine ⟨hnumbered, ⟨hpos, hnumbered ▸ h.1⟩, fun k hk => h.2 ?_⟩
  show numbered base k ∉ taken
  rw [numbered_of_pos base hk.1]
  exact hk.2

end Search

/-! ## Titles that are names -/

/-- Name characters make one word. -/
theorem words_go_of_isNameChar (text word : List Char) (h : ∀ c ∈ text, isNameChar c = true)
    (hne : word ≠ [] ∨ text ≠ []) : words.go word text = [word.reverse ++ text] := by
  induction text generalizing word with
  | nil =>
    have hword : word.isEmpty = false := by simpa using hne
    simp [words.go, hword]
  | cons c text ih =>
    obtain ⟨hc, htext⟩ := List.forall_mem_cons.1 h
    rw [words.go, if_pos hc, ih (c :: word) htext (.inl (List.cons_ne_nil c word))]
    simp

/-- The names that are made from titles are those that are their own names as titles. -/
theorem titleIdentifier_eq_self_iff {name : String} :
    titleIdentifier name = name ↔ IsTitleName name := by
  refine ⟨fun h => h ▸ isTitleName_titleIdentifier name, ?_⟩
  rintro ⟨c, rest, hname, hstart, hlower, hrest⟩
  have hchars : ∀ d ∈ c :: rest, isNameChar d = true :=
    List.forall_mem_cons.2 ⟨isNameChar_of_isNameStart hstart, hrest⟩
  have hwords : words name.toList = [c :: rest] := by
    rw [hname]
    exact words_go_of_isNameChar (c :: rest) [] hchars (.inr (List.cons_ne_nil c rest))
  have hdigit : ¬ c.isDigit = true := by
    intro hdigit
    exact Bool.false_ne_true ((not_isNameStart_of_isDigit hdigit).symm.trans hstart)
  have hjoined : [c :: rest].flatMap capitalize = c :: rest := by
    simp [capitalize, toUpper_of_not_isLower hlower]
  rw [titleIdentifier, hwords, hjoined]
  dsimp only
  rw [if_neg hdigit, ← hname, String.ofList_toList]

/-! ## Names that are referred to -/

section Reading

variable {name read : String} {nested : Parser TypeExpr} {type : TypeExpr} {bound : Nat}
  {text rest more : List Char}

/-- What is read where an identifier stands begins with it. -/
theorem prefix_of_dottedName (hn : isIdentifier name = true)
    (h : skipBlanks text = name.toList ++ more)
    (hread : Parser.dottedName bound text = .done read rest) : name.toList <+: read.toList := by
  obtain ⟨c, tail, hname, hstart, htail⟩ := isIdentifierChars_iff.1 hn
  rw [Parser.dottedName, Parser.lexeme, h] at hread
  obtain ⟨parts, middle, hparts, hread⟩ := bind_eq_done hread
  cases hread
  rw [Parser.sepBy1] at hparts
  obtain ⟨first, after, hfirst, hparts⟩ := bind_eq_done hparts
  obtain ⟨others, _, -, hparts⟩ := bind_eq_done hparts
  cases hparts
  have hlong : first = name.toList ++ more.takeWhile isNameChar := by
    rw [hname, List.cons_append, Parser.nameChars, if_pos hstart,
      List.takeWhile_append_of_pos htail] at hfirst
    cases hfirst
    rw [hname, List.cons_append]
  rw [String.toList_ofList, intercalate_point, hlong, List.append_assoc]
  exact List.prefix_append _ _

/-- Where the name of a title stands no reserved word is read, whatever is behind it. -/
theorem IsTitleName.reference_of_wordOrReference (hn : IsTitleName name)
    (h : skipBlanks text = name.toList ++ more)
    (hread : Parser.wordOrReference nested bound text = .done type rest) :
    ∃ declared args, type = .reference declared args := by
  rw [Parser.wordOrReference] at hread
  obtain ⟨declared, middle, hdotted, hread⟩ := bind_eq_done hread
  -- What is read may go on behind the name, but it begins like the name.
  obtain ⟨behind, hbehind⟩ := prefix_of_dottedName hn.isIdentifier h hdotted
  obtain ⟨c, tail, hname, -, hlower, -⟩ := hn
  rw [hname, List.cons_append] at hbehind
  rw [reservedType?_eq_none (not_reserved_of_head hbehind.symm hlower)] at hread
  obtain ⟨args, _, -, hread⟩ := bind_eq_done hread
  cases hread
  exact ⟨declared, args.getD [], rfl⟩

/-- A name that can be declared for a title and referred to by itself. -/
structure Referable (name : String) : Prop where
  /-- The name is an identifier. -/
  isIdentifier : LintTypes.isIdentifier name = true
  /-- As a title it is made into itself. -/
  titleIdentifier_eq : titleIdentifier name = name
  /-- Where the name does not go on and no arguments follow, it is read as the type of this name,
  and what is behind it is left. -/
  reads (nested : Parser TypeExpr) (bound : Nat) {blanks rest : List Char} (hb : Blanks blanks)
    (hr : Apart rest) (ha : (skipBlanks rest).head? ≠ some '<') :
    Parser.wordOrReference nested bound (blanks ++ (name.toList ++ rest)) =
      .done (.named name) rest
  /-- Whatever is behind the name, no reserved word and no truth value is read there. -/
  reference (nested : Parser TypeExpr) (bound : Nat) {blanks more rest : List Char}
    {type : TypeExpr} (hb : Blanks blanks)
    (h : Parser.wordOrReference nested bound (blanks ++ (name.toList ++ more)) = .done type rest) :
    ∃ declared args, type = .reference declared args

theorem IsTitleName.referable (h : IsTitleName name) : Referable name := by
  have hskip {blanks : List Char} (hb : Blanks blanks) (behind : List Char) :
      skipBlanks (blanks ++ (name.toList ++ behind)) = name.toList ++ behind := by
    rw [hb.skipBlanks_append, skipBlanks_identifier h.isIdentifier]
  exact {
    isIdentifier := h.isIdentifier
    titleIdentifier_eq := titleIdentifier_eq_self_iff.2 h
    reads := fun _ _ _ _ hb hr ha =>
      wordOrReference_eq h.isIdentifier h.not_reserved (hskip hb _) hr ha
    reference := fun _ _ _ _ _ _ hb hread => h.reference_of_wordOrReference (hskip hb _) hread }

/-- Titles become names that can be used. The name made from a title is referable, and so is the
name that it gets where names are taken. The search for it ends, whatever the base: with the base
itself if it is not taken, and otherwise with the least positive number behind the base that makes
it a name that is not taken. -/
theorem titleIdentifier_referable (title : String) (taken : List String) :
    Referable (titleIdentifier title) ∧
    Referable (unusedName taken (titleIdentifier title)) ∧
    ∀ base : String,
      (∀ found, Search taken base 0 found ↔ found = unusedName taken base) ∧
      unusedName taken base ∉ taken ∧
      (base ∉ taken → unusedName taken base = base) ∧
      (base ∈ taken → ∃ n ≤ taken.length, unusedName taken base = base ++ toString n ∧
        IsLeast {k | 0 < k ∧ base ++ toString k ∉ taken} n) := by
  have htitle := isTitleName_titleIdentifier title
  refine ⟨htitle.referable, (isTitleName_unusedName htitle taken).referable, fun base => ?_⟩
  obtain ⟨n, hbound, hname, hleast⟩ := unusedName_isLeast taken base
  refine ⟨fun found => search_iff, (unusedName_spec taken base).2, fun hfree => ?free,
    fun htaken => ?taken⟩
  case free =>
    have hzero : n = 0 := Nat.le_zero.1 (hleast.2 (show numbered base 0 ∉ taken from hfree))
    rw [hname, hzero, numbered]
  case taken =>
    obtain ⟨hnumbered, hpositive⟩ := isLeast_positive htaken hleast
    exact ⟨n, hbound, hname.trans hnumbered, hpositive⟩

/-- The title `string` is a reserved word. The name made from it is taken, and so is the one with
the first number; the one with the second is read in front of a comment that holds a `<`. -/
theorem titleIdentifier_referable_reserved :
    titleIdentifier "string" = "String" ∧
    Search ["Schema0", "String", "String1"] "String" 0 "String2" ∧
    Parser.wordOrReference Parser.typeExpr 0
        ("\n  ".toList ++ ("String2".toList ++ " /* < */ | null".toList)) =
      .done (.named "String2") " /* < */ | null".toList := by
  have hbase : titleIdentifier "string" = "String" := by decide
  have hname : unusedName ["Schema0", "String", "String1"] "String" = "String2" := by decide
  obtain ⟨-, hreferable, hsearch⟩ :=
    titleIdentifier_referable "string" ["Schema0", "String", "String1"]
  rw [hbase, hname] at hreferable
  have hblanks : Blanks "\n  ".toList :=
    .space (by decide) (.space (by decide) (.space (by decide) .nil))
  have hargs : (skipBlanks " /* < */ | null".toList).head? ≠ some '<' := by
    have hskip : (skipBlanks " /* < */ | null".toList).head? = some '|' := by decide +kernel
    rw [hskip]
    decide
  exact ⟨hbase, ((hsearch "String").1 "String2").2 hname.symm,
    hreferable.reads Parser.typeExpr 0 hblanks (apart_cons (by decide) (by decide)) hargs⟩

end Reading

end LintTypes.Names
