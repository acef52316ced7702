import LintTypes.Proofs.FreshNames

/-!
# Conventional names of rules

The name of a file and that of a type are made from a rule's name by rewriting its separators, and
what the separators were is lost: `a/b` and `a_b` have the same file, `a-b` and `aB` the same type.

Names as they are usual keep apart. Such a name begins with a small letter, has no capitals and no
underscores of its own, and each of its hyphens stands in front of a small letter and not behind a
slash. So in what is made from it each underscore was a slash and each capital a letter behind a
separator, or the first one; the name can be restored.
-/

namespace LintTypes.Names

/-! ## Letters -/

attribute [grind =] isWordChar capitalizeSegments flattenSlashes

theorem isNameChar_of_isWordChar {c : Char} (h : isWordChar c = true) : isNameChar c = true := by
  simp only [isWordChar, isNameChar, Bool.or_eq_true] at h ⊢
  exact .inl h

theorem isWordChar_of_isLower {c : Char} (h : c.isLower = true) : isWordChar c = true := by
  have halpha : c.isAlpha = true := Bool.or_eq_true_iff.2 (.inr h)
  simp [isWordChar, Char.isAlphanum, halpha]

/-- The letters from `a` to `z` have their capitals among those from `A` to `Z`. -/
theorem toUpper_of_isLower {c : Char} (h : c.isLower = true) :
    Casing.upper c = [c.toUpper] ∧ c.toUpper.isUpper = true ∧ c.toUpper.toLower = c :=
  holds_of_isNameChar (P := fun c => c.isLower = true →
      Casing.upper c = [c.toUpper] ∧ c.toUpper.isUpper = true ∧ c.toUpper.toLower = c)
    (by decide +kernel) (isNameChar_of_isWordChar (isWordChar_of_isLower h)) h

theorem toLower_of_isWordChar {c : Char} (h : isWordChar c = true) :
    c.toLower ≠ '/' ∧ (c.isUpper = false → c.toLower = c) :=
  holds_of_isNameChar (P := fun c => isWordChar c = true →
      c.toLower ≠ '/' ∧ (c.isUpper = false → c.toLower = c))
    (by decide +kernel) (isNameChar_of_isWordChar h) h

theorem ne_of_isUpper {c : Char} (h : c.isUpper = true) : c ≠ '/' ∧ c ≠ '_' := by
  constructor <;> rintro rfl <;> cases h

/-! ## Separators -/

theorem capitalizeSegments_cons {c : Char} (h : c ≠ '-') (rest : List Char) :
    capitalizeSegments (c :: rest) = c :: capitalizeSegments rest := by
  rw [capitalizeSegments]
  exact fun _ _ hc _ => h hc

theorem capitalizeSegments_hyphen {c : Char} (h : c.isLower = true) (rest : List Char) :
    capitalizeSegments ('-' :: c :: rest) = c.toUpper :: capitalizeSegments rest := by
  rw [capitalizeSegments, if_pos (isWordChar_of_isLower h)]

section Slashes

variable (recase : Char → Char)

theorem flattenSlashes_cons {c : Char} (h : c ≠ '/') (rest : List Char) :
    flattenSlashes recase (c :: rest) = c :: flattenSlashes recase rest := by
  rw [flattenSlashes]
  · exact fun _ _ hc _ => h hc
  · exact fun hc _ => h hc

/-- Behind a slash only a word character is given another case. -/
theorem flattenSlashes_slash (rest : List Char) :
    ∃ first, flattenSlashes recase ('/' :: rest) = '_' :: first ∧
      (first = flattenSlashes recase rest ∨ ∃ c others, rest = c :: others ∧ isWordChar c = true ∧
        first = recase c :: flattenSlashes recase others) := by
  cases rest with
  | nil => exact ⟨[], rfl, .inl rfl⟩
  | cons c others =>
    rw [flattenSlashes]
    split
    · rename_i hword
      exact ⟨_, rfl, .inr ⟨c, others, rfl, hword, rfl⟩⟩
    · exact ⟨_, rfl, .inl rfl⟩

/-- What holds of the underscore and of changed word characters holds of all characters if it holds
of the others. -/
theorem forall_mem_flattenSlashes {P : Char → Prop} (hu : P '_')
    (hr : ∀ c, isWordChar c = true → P (recase c)) {text : List Char}
    (h : ∀ c ∈ text, P c ∨ c = '/') : ∀ c ∈ flattenSlashes recase text, P c := by
  induction text using flattenSlashes.induct with
  | case1 c rest hword ih =>
    obtain ⟨-, hrest⟩ := List.forall_mem_cons.1 (List.forall_mem_cons.1 h).2
    rw [flattenSlashes, if_pos hword]
    exact List.forall_mem_cons.2 ⟨hu, List.forall_mem_cons.2 ⟨hr c hword, ih hrest⟩⟩
  | case2 c rest hword ih =>
    rw [flattenSlashes, if_neg hword]
    exact List.forall_mem_cons.2 ⟨hu, ih (List.forall_mem_cons.1 h).2⟩
  | case3 => exact List.forall_mem_singleton.2 hu
  | case4 c rest hslash hlast ih =>
    obtain ⟨hc, hrest⟩ := List.forall_mem_cons.1 h
    have hne : c ≠ '/' := by
      rintro rfl
      cases rest with
      | nil => exact hlast rfl rfl
      | cons d others => exact hslash d others rfl rfl
    rw [flattenSlashes_cons recase hne]
    exact List.forall_mem_cons.2 ⟨hc.resolve_right hne, ih hrest⟩
  | case5 => exact nofun

theorem not_mem_flattenSlashes (hr : ∀ c, isWordChar c = true → recase c ≠ '/')
    (text : List Char) : '/' ∉ flattenSlashes recase text := fun hmem =>
  forall_mem_flattenSlashes (P := (· ≠ '/')) recase (by decide) hr
    (fun c _ => (em (c = '/')).symm) '/' hmem rfl

end Slashes

/-! ## Conventional names -/

/-- What may follow the first letter of a conventional name. -/
inductive Continues : List Char → Prop where
  | nil : Continues []
  | char {c : Char} {rest : List Char} (hc : c ∉ ['-', '/', '_']) (hu : c.isUpper = false)
      (h : Continues rest) : Continues (c :: rest)
  | hyphen {c : Char} {rest : List Char} (hc : c.isLower = true) (h : Continues rest) :
      Continues ('-' :: c :: rest)
  | slash {rest : List Char} (hs : rest.head? ≠ some '-') (h : Continues rest) :
      Continues ('/' :: rest)

/-- A name of small letters and other characters without case, whose separators can be told from
what is made of them. -/
def IsConventional (name : String) : Prop :=
  ∃ c rest, name.toList = c :: rest ∧ c.isLower = true ∧ Continues rest

theorem ne_of_not_separator {c : Char} (h : c ∉ ['-', '/', '_']) : c ≠ '-' ∧ c ≠ '/' ∧ c ≠ '_' := by
  simpa using h

/-- A word character in such a text has no capital form of its own. -/
theorem Continues.of_isWordChar {c : Char} {rest : List Char} (h : Continues (c :: rest))
    (hword : isWordChar c = true) : c ≠ '/' ∧ c ≠ '_' ∧ c.isUpper = false := by
  cases h with
  | char hc hu =>
    obtain ⟨-, hslash, hunderscore⟩ := ne_of_not_separator hc
    exact ⟨hslash, hunderscore, hu⟩
  | hyphen => cases hword
  | slash => cases hword

theorem ne_of_isLower {c : Char} (h : c.isLower = true) : c ≠ '/' ∧ c ≠ '_' := by
  constructor <;> rintro rfl <;> cases h

/-! ## Files -/

/-- The slashes of a name again. -/
def restoreSlashes (text : List Char) : List Char :=
  text.map fun c => if c = '_' then '/' else c

theorem restoreSlashes_cons {c : Char} (h : c ≠ '_') (rest : List Char) :
    restoreSlashes (c :: rest) = c :: restoreSlashes rest := by
  rw [restoreSlashes, List.map_cons, if_neg h]
  rfl

/-- The slashes of a conventional name can be restored from its file name. -/
theorem restoreSlashes_flattenSlashes {text : List Char} (h : Continues text) :
    restoreSlashes (flattenSlashes Char.toLower text) = text := by
  induction h with
  | nil => rfl
  | @char c rest hc _ _ ih =>
    obtain ⟨-, hslash, hunderscore⟩ := ne_of_not_separator hc
    rw [flattenSlashes_cons _ hslash, restoreSlashes_cons hunderscore, ih]
  | @hyphen c rest hc _ ih =>
    obtain ⟨hslash, hunderscore⟩ := ne_of_isLower hc
    rw [flattenSlashes_cons _ (by decide), flattenSlashes_cons _ hslash,
      restoreSlashes_cons (by decide), restoreSlashes_cons hunderscore, ih]
  | @slash rest _ h ih =>
    obtain ⟨first, heq, hfirst⟩ := flattenSlashes_slash Char.toLower rest
    have hsame : first = flattenSlashes Char.toLower rest := by
      rcases hfirst with rfl | ⟨c, others, rfl, hword, rfl⟩
      · rfl
      · obtain ⟨hslash, -, hu⟩ := h.of_isWordChar hword
        rw [flattenSlashes_cons _ hslash, (toLower_of_isWordChar hword).2 hu]
    rw [heq, hsame]
    exact congrArg _ ih

/-- The name of a file is a single one. -/
theorem slash_not_mem_fileName (name : String) : '/' ∉ (fileName name).toList := by
  rw [fileName, String.toList_ofList]
  exact not_mem_flattenSlashes _ (fun _ hword => (toLower_of_isWordChar hword).1) _

/-- Conventional names have files of their own. -/
theorem fileName_inj {name other : String} (h : IsConventional name) (h' : IsConventional other)
    (heq : fileName name = fileName other) : name = other := by
  have hrestore : ∀ {name}, IsConventional name →
      restoreSlashes (flattenSlashes Char.toLower name.toList) = name.toList := by
    rintro name ⟨c, rest, hname, hc, hrest⟩
    obtain ⟨hslash, hunderscore⟩ := ne_of_isLower hc
    rw [hname, flattenSlashes_cons _ hslash, restoreSlashes_cons hunderscore,
      restoreSlashes_flattenSlashes hrest]
  have hflat : flattenSlashes Char.toLower name.toList = flattenSlashes Char.toLower other.toList :=
    String.ofList_injective heq
  have hlist := congrArg restoreSlashes hflat
  rw [hrestore h, hrestore h'] at hlist
  exact String.toList_inj.1 hlist

/-! ## Types -/

/-- The separators of a name again. A capital stands for a small letter behind a hyphen, or for one
right behind a slash. -/
def restoreSeparators (behindSlash : Bool) : List Char → List Char
  | [] => []
  | c :: rest =>
    if c = '_' then '/' :: restoreSeparators true rest
    else if c.isUpper then
      (if behindSlash then [] else ['-']) ++ c.toLower :: restoreSeparators false rest
    else c :: restoreSeparators false rest

theorem restoreSeparators_cons (behindSlash : Bool) {c : Char} (h : c ≠ '_')
    (hu : c.isUpper = false) (rest : List Char) :
    restoreSeparators behindSlash (c :: rest) = c :: restoreSeparators false rest := by
  rw [restoreSeparators, if_neg h, if_neg (by simp [hu])]

theorem restoreSeparators_toUpper (behindSlash : Bool) {c : Char} (h : c.isLower = true)
    (rest : List Char) :
    restoreSeparators behindSlash (c.toUpper :: rest) =
      (if behindSlash then [] else ['-']) ++ c :: restoreSeparators false rest := by
  obtain ⟨-, hupper, hlower⟩ := toUpper_of_isLower h
  rw [restoreSeparators, if_neg (ne_of_isUpper hupper).2, if_pos hupper, hlower]

/-- Behind a slash a word character and its capital are restored alike. -/
theorem restoreSeparators_word {c : Char} {rest : List Char} (h : Continues (c :: rest))
    (hword : isWordChar c = true) (text : List Char) :
    restoreSeparators true (c.toUpper :: text) = restoreSeparators true (c :: text) := by
  obtain ⟨-, hunderscore, hu⟩ := h.of_isWordChar hword
  rw [restoreSeparators_cons true hunderscore hu]
  cases hl : c.isLower with
  | true => rw [restoreSeparators_toUpper true hl]; rfl
  | false =>
    rw [toUpper_of_not_isLower hl, restoreSeparators_cons true hunderscore hu]

/-- The separators of a conventional name can be restored from its identifier. -/
theorem restoreSeparators_flattenSlashes {text : List Char} (h : Continues text)
    (behindSlash : Bool) (hb : behindSlash = true → text.head? ≠ some '-') :
    restoreSeparators behindSlash (flattenSlashes Char.toUpper (capitalizeSegments text)) =
      text := by
  induction h generalizing behindSlash with
  | nil => rfl
  | @char c rest hc hu _ ih =>
    obtain ⟨hhyphen, hslash, hunderscore⟩ := ne_of_not_separator hc
    rw [capitalizeSegments_cons hhyphen, flattenSlashes_cons _ hslash,
      restoreSeparators_cons _ hunderscore hu, ih false nofun]
  | @hyphen c rest hc _ ih =>
    have hbehind : behindSlash = false := by
      cases behindSlash with
      | false => rfl
      | true => exact absurd rfl (hb rfl)
    obtain ⟨-, hupper, -⟩ := toUpper_of_isLower hc
    rw [capitalizeSegments_hyphen hc, flattenSlashes_cons _ (ne_of_isUpper hupper).1,
      restoreSeparators_toUpper _ hc, ih false nofun, hbehind]
    rfl
  | @slash rest hs h ih =>
    have hrest := ih true fun _ => hs
    obtain ⟨first, heq, hfirst⟩ := flattenSlashes_slash Char.toUpper (capitalizeSegments rest)
    rw [capitalizeSegments_cons (by decide), heq, restoreSeparators, if_pos rfl]
    rcases hfirst with rfl | ⟨c, others, hcap, hword, rfl⟩
    · rw [hrest]
    · -- The letter behind the slash was there before, since no hyphen is behind a slash.
      have hhead : ∃ letters, rest = c :: letters := by
        cases h with
        | nil => cases hcap
        | @char d letters hd =>
          rw [capitalizeSegments_cons (ne_of_not_separator hd).1] at hcap
          cases hcap
          exact ⟨letters, rfl⟩
        | hyphen => exact absurd rfl hs
        | slash =>
          rw [capitalizeSegments_cons (by decide)] at hcap
          cases hcap
          cases hword
      obtain ⟨letters, rfl⟩ := hhead
      obtain ⟨hslash, -, -⟩ := h.of_isWordChar hword
      rw [hcap, flattenSlashes_cons _ hslash] at hrest
      rw [restoreSeparators_word h hword, hrest]

/-- Conventional names have types of their own. -/
theorem typeIdentifier_inj {name other : String} (h : IsConventional name)
    (h' : IsConventional other) (heq : typeIdentifier name = typeIdentifier other) :
    name = other := by
  have hrestore : ∀ {name}, IsConventional name →
      restoreSeparators true (flattenSlashes Char.toUpper (pascalCase name.toList)) =
        name.toList := by
    rintro name ⟨c, rest, hname, hc, hrest⟩
    obtain ⟨hcase, hupper, -⟩ := toUpper_of_isLower hc
    rw [hname, pascalCase, hcase, List.singleton_append,
      flattenSlashes_cons _ (ne_of_isUpper hupper).1, restoreSeparators_toUpper _ hc,
      restoreSeparators_flattenSlashes hrest false (absurd · Bool.false_ne_true)]
    rfl
  have hflat : flattenSlashes Char.toUpper (pascalCase name.toList) =
      flattenSlashes Char.toUpper (pascalCase other.toList) := String.ofList_injective heq
  have hlist := congrArg (restoreSeparators true) hflat
  rw [hrestore h, hrestore h'] at hlist
  exact String.toList_inj.1 hlist

theorem Continues.append {word rest : List Char} (hw : word.all Char.isLower = true)
    (h : Continues rest) : Continues (word ++ rest) := by
  induction word with
  | nil => exact h
  | cons c word ih =>
    obtain ⟨hc, hword⟩ : c.isLower = true ∧ word.all Char.isLower = true := by simpa using hw
    have hcase : c ∉ ['-', '/', '_'] ∧ c.isUpper = false :=
      holds_of_isNameChar (P := fun c => c.isLower = true → c ∉ ['-', '/', '_'] ∧ c.isUpper = false)
        (by decide +kernel) (isNameChar_of_isWordChar (isWordChar_of_isLower hc)) hc
    exact .char hcase.1 hcase.2 (ih hword)

theorem isConventional_ruleOptions : IsConventional "rule-options" :=
  ⟨'r', "ule".toList ++ '-' :: 'o' :: ("ptions".toList ++ []), rfl, by decide,
    .append (by decide) (.hyphen (by decide) (.append (by decide) .nil))⟩

/-- There is one conventional name whose type is called like that of the index. -/
theorem typeIdentifier_eq_ruleOptions {name : String} (h : IsConventional name) :
    typeIdentifier name = "RuleOptions" ↔ name = "rule-options" := by
  have hname : typeIdentifier "rule-options" = "RuleOptions" := by decide +kernel
  constructor
  · exact fun heq => typeIdentifier_inj h isConventional_ruleOptions (heq.trans hname.symm)
  · rintro rfl
    exact hname

end LintTypes.Names
