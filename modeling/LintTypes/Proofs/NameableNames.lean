import LintTypes.Proofs.ConventionalNames

/-!
# Nameable rules

A rule's type is called after the rule, and not every name gives an identifier: nothing is asked of
the name of a rule but that it is not empty, and what is neither a hyphen in front of a word nor a
slash is taken over as it stands.

A name gives an identifier if and only if its first character is a slash or has a capital to begin
an identifier with, and every other one is a name character, a slash, or a hyphen in front of a
word.
-/

namespace LintTypes

/-! ## Capitals -/

namespace Casing

/-- The letters outside ASCII with capitals in ASCII: `ß`, the `i` without a dot, the long `s` and
the ligatures of `f`, `i`, `l`, `s` and `t`. -/
def asciiCapitalized : List Char :=
  ['\u00DF', '\u0131', '\u017F', '\uFB00', '\uFB01', '\uFB02', '\uFB03', '\uFB04', '\uFB05',
    '\uFB06']

theorem not_isNameChar_of_le {c : Char} (h : 128 ≤ c.toNat) : isNameChar c = false ∧ c ≠ '/' := by
  refine ⟨Bool.eq_false_iff.2 fun hc => ?_, ?_⟩
  · exact absurd (Names.toNat_lt_of_isNameChar hc) (Nat.not_lt.2 h)
  · rintro rfl
    exact absurd h (by decide)

theorem not_isNameChar_ofNat {n : Nat} (h : 128 ≤ n) :
    isNameChar (Char.ofNat n) = false ∧ Char.ofNat n ≠ '/' := by
  by_cases hn : n.isValidChar
  · rw [Char.ofNat, dif_pos hn]
    exact not_isNameChar_of_le (show 128 ≤ n from h)
  · rw [Char.ofNat, dif_neg hn]
    decide

theorem upper_ne_nil (c : Char) : upper c ≠ [] := by
  unfold upper mapWith
  split
  · rename_i codes hlookup
    have hspecials : ∀ special ∈ upperSpecials, special.2 ≠ [] := by decide
    obtain ⟨front, back, hlist, -⟩ := List.lookup_eq_some_iff.1 hlookup
    have hcodes := hspecials (c.toNat, codes) (by simp [hlist])
    simpa using hcodes
  · split <;> exact List.cons_ne_nil _ _

/-- In ASCII the capitals are those of the ASCII letters. -/
theorem upper_of_lt {c : Char} (h : c.toNat < 128) : upper c = [c.toUpper] := by
  cases hl : c.isLower with
  | true => exact (Names.toUpper_of_isLower hl).1
  | false =>
    have hspecials : ∀ special ∈ upperSpecials, 128 ≤ special.1 := by decide +kernel
    have hruns : ∀ run ∈ upperRuns, 128 ≤ run.first ∨ run.first = 97 ∧ run.last = 122 := by
      decide +kernel
    have hlookup : upperSpecials.lookup c.toNat = none := by
      refine List.lookup_eq_none_iff.2 fun special hmem => bne_iff_ne.2 ?_
      have hle := hspecials special hmem
      omega
    have hfind : upperRuns.find? (·.contains c.toNat) = none := by
      refine List.find?_eq_none.2 fun run hmem hcontains => ?_
      simp only [Run.contains, Bool.and_eq_true, decide_eq_true_eq] at hcontains
      have hletter : ¬ (97 ≤ c.toNat ∧ c.toNat ≤ 122) := Source.holds_of_toNat_lt
        (P := fun c => c.isLower = false → ¬ (97 ≤ c.toNat ∧ c.toNat ≤ 122)) (by decide +kernel)
        h hl
      have hrun := hruns run hmem
      omega
    rw [upper, mapWith, hlookup, hfind, Names.toUpper_of_not_isLower hl]

/-- Outside ASCII the capitals of the other letters are not all ASCII letters. -/
theorem upper_of_le {c : Char} (h : 128 ≤ c.toNat) (hc : c ∉ asciiCapitalized) :
    ∃ d ∈ upper c, isNameChar d = false ∧ d ≠ '/' := by
  unfold upper mapWith
  split
  · rename_i codes hlookup
    have hspecials : ∀ special ∈ upperSpecials, Char.ofNat special.1 ∉ asciiCapitalized →
        ∃ code ∈ special.2, isNameChar (Char.ofNat code) = false ∧ Char.ofNat code ≠ '/' := by
      decide +kernel
    obtain ⟨front, back, hlist, -⟩ := List.lookup_eq_some_iff.1 hlookup
    obtain ⟨code, hcode, hd⟩ := hspecials (c.toNat, codes) (by simp [hlist])
      (by rwa [Char.ofNat_toNat])
    exact ⟨Char.ofNat code, List.mem_map_of_mem hcode, hd⟩
  · split
    · rename_i run hrun
      have hruns : ∀ run ∈ upperRuns, 128 ≤ run.last →
          (128 : Int) ≤ run.first + run.shift ∨
            run.first = run.last ∧ Char.ofNat run.first ∈ asciiCapitalized := by
        decide +kernel
      have hcontains := List.find?_some hrun
      simp only [Run.contains, Bool.and_eq_true, decide_eq_true_eq] at hcontains
      obtain ⟨⟨hfirst, hlast⟩, -⟩ := hcontains
      rcases hruns run (List.mem_of_find?_eq_some hrun) (by omega) with hshift | ⟨hsingle, hmem⟩
      · exact ⟨_, List.mem_singleton_self _, not_isNameChar_ofNat (by omega)⟩
      · rw [show run.first = c.toNat by omega, Char.ofNat_toNat] at hmem
        exact absurd hmem hc
    · exact ⟨c, List.mem_singleton_self c, not_isNameChar_of_le h⟩

end Casing

namespace Names

/-! ## Nameable names -/

/-- A character that may begin a nameable name. -/
def BeginsNameable (c : Char) : Prop :=
  c = '/' ∨ isNameStart c = true ∨ c ∈ Casing.asciiCapitalized

/-- What may follow the first character of a nameable name. -/
inductive ContinuesNameable : List Char → Prop where
  | nil : ContinuesNameable []
  | char {c : Char} {rest : List Char} (hc : isNameChar c = true) (h : ContinuesNameable rest) :
      ContinuesNameable (c :: rest)
  | slash {rest : List Char} (h : ContinuesNameable rest) : ContinuesNameable ('/' :: rest)
  | hyphen {c : Char} {rest : List Char} (hc : isWordChar c = true) (h : ContinuesNameable rest) :
      ContinuesNameable ('-' :: c :: rest)

theorem ContinuesNameable.append {word rest : List Char} (hw : word.all isNameChar = true)
    (h : ContinuesNameable rest) : ContinuesNameable (word ++ rest) := by
  induction word with
  | nil => exact h
  | cons c word ih =>
    obtain ⟨hc, hword⟩ : isNameChar c = true ∧ word.all isNameChar = true := by simpa using hw
    exact .char hc (ih hword)

/-- A name that a type can be called after. -/
def Nameable (name : String) : Prop :=
  ∃ c rest, name.toList = c :: rest ∧ BeginsNameable c ∧ ContinuesNameable rest

/-! ## Slashes -/

/-- A character of an identifier, but for slashes. -/
def Slashed (c : Char) : Prop := isNameChar c = true ∨ c = '/'

instance : DecidablePred Slashed := fun _ => inferInstanceAs (Decidable (_ ∨ _))

instance : DecidablePred BeginsNameable := fun _ => inferInstanceAs (Decidable (_ ∨ _))

/-- What is neither a name character nor a slash is taken over. -/
theorem mem_flattenSlashes (recase : Char → Char) {d : Char} (hd : ¬ Slashed d) {text : List Char}
    (hmem : d ∈ text) : d ∈ flattenSlashes recase text := by
  have hslash : d ≠ '/' := fun heq => hd (.inr heq)
  induction text using flattenSlashes.induct with
  | case1 c rest hword ih =>
    have hc : d ≠ c := by
      rintro rfl
      exact hd (.inl (isNameChar_of_isWordChar hword))
    rw [flattenSlashes, if_pos hword]
    simp only [List.mem_cons, hslash, hc, false_or] at hmem
    exact List.mem_cons_of_mem _ (List.mem_cons_of_mem _ (ih hmem))
  | case2 c rest hword ih =>
    rw [flattenSlashes, if_neg hword]
    exact List.mem_cons_of_mem _ (ih ((List.mem_cons.1 hmem).resolve_left hslash))
  | case3 => exact absurd (List.mem_singleton.1 hmem) hslash
  | case4 c rest _ _ ih =>
    rw [flattenSlashes.eq_3 _ _ _ (by assumption) (by assumption)]
    rcases List.mem_cons.1 hmem with rfl | hmem
    · exact List.mem_cons_self ..
    · exact List.mem_cons_of_mem _ (ih hmem)
  | case5 => cases hmem

theorem isNameChar_flattenSlashes {text : List Char} (h : ∀ d ∈ text, Slashed d) :
    ∀ d ∈ flattenSlashes Char.toUpper text, isNameChar d = true :=
  forall_mem_flattenSlashes Char.toUpper (by decide)
    (fun _ hword => (toUpper_of_isNameChar (isNameChar_of_isWordChar hword)).1) h

theorem flattenSlashes_head (recase : Char → Char) (c : Char) (rest : List Char) :
    ∃ tail, flattenSlashes recase (c :: rest) = (if c = '/' then '_' else c) :: tail := by
  by_cases hc : c = '/'
  · subst hc
    obtain ⟨tail, heq, -⟩ := flattenSlashes_slash recase rest
    exact ⟨tail, heq⟩
  · exact ⟨_, by rw [flattenSlashes_cons recase hc, if_neg hc]⟩

/-! ## Capitals of the first character -/

/-- The capitals of a character begin an identifier, but for slashes. -/
def CapitalsBegin (c : Char) : Prop :=
  (Casing.upper c).head?.any (fun d => isNameStart d || d == '/') = true ∧
    ∀ d ∈ Casing.upper c, Slashed d

instance : DecidablePred CapitalsBegin := fun _ => inferInstanceAs (Decidable (_ ∧ _))

theorem capitalsBegin_iff (c : Char) : CapitalsBegin c ↔ BeginsNameable c := by
  rcases Nat.lt_or_ge c.toNat 128 with hascii | hwide
  · rw [CapitalsBegin, Casing.upper_of_lt hascii]
    exact Source.holds_of_toNat_lt (P := fun c =>
      [c.toUpper].head?.any (fun d => isNameStart d || d == '/') = true ∧
        (∀ d ∈ [c.toUpper], Slashed d) ↔ BeginsNameable c) (by decide +kernel) hascii
  · by_cases hc : c ∈ Casing.asciiCapitalized
    · have hall : ∀ c ∈ Casing.asciiCapitalized, CapitalsBegin c := by decide +kernel
      exact iff_of_true (hall c hc) (.inr (.inr hc))
    · obtain ⟨hname, hslash⟩ := Casing.not_isNameChar_of_le hwide
      obtain ⟨d, hd, hdname, hdslash⟩ := Casing.upper_of_le hwide hc
      refine iff_of_false (fun h => ?_) ?_
      · rcases h.2 d hd with hchar | heq
        · exact Bool.false_ne_true (hdname.symm.trans hchar)
        · exact hdslash heq
      · rintro (heq | hstart | hmem)
        · exact hslash heq
        · exact Bool.false_ne_true (hname.symm.trans (Source.isNameChar_of_isNameStart hstart))
        · exact hc hmem

/-- A capital is no lower-case letter. -/
theorem isLower_of_beginsNameable {c : Char} (h : BeginsNameable c) :
    (Casing.upper c).head?.any Char.isLower = false := by
  have hcapitals : ∀ c ∈ Casing.asciiCapitalized,
      (Casing.upper c).head?.any Char.isLower = false := by
    decide +kernel
  have hascii : c.toNat < 128 → c.toUpper.isLower = false :=
    Source.holds_of_toNat_lt (P := fun c => c.toUpper.isLower = false) (by decide +kernel)
  have hhead : c.toNat < 128 → (Casing.upper c).head?.any Char.isLower = false := by
    intro hlt
    rw [Casing.upper_of_lt hlt]
    exact hascii hlt
  rcases h with rfl | hstart | hmem
  · exact hhead (by decide)
  · exact hhead (toNat_lt_of_isNameChar (Source.isNameChar_of_isNameStart hstart))
  · exact hcapitals c hmem

/-! ## Hyphens -/

theorem not_slashed_hyphen : ¬ Slashed '-' := by decide

/-- A hyphen stays unless a word is behind it. -/
theorem slashed_capitalizeSegments_iff {text : List Char} :
    (∀ d ∈ capitalizeSegments text, Slashed d) ↔ ContinuesNameable text := by
  constructor
  · intro h
    induction text using capitalizeSegments.induct with
    | case1 c rest hword ih =>
      rw [capitalizeSegments, if_pos hword] at h
      exact .hyphen hword (ih (List.forall_mem_cons.1 h).2)
    | case2 c rest hword ih =>
      rw [capitalizeSegments, if_neg hword] at h
      exact absurd (h '-' (List.mem_cons_self ..)) not_slashed_hyphen
    | case3 c rest hne ih =>
      rw [capitalizeSegments.eq_2 _ _ hne] at h
      obtain ⟨hc, hrest⟩ := List.forall_mem_cons.1 h
      rcases hc with hchar | rfl
      · exact .char hchar (ih hrest)
      · exact .slash (ih hrest)
    | case4 => exact .nil
  · intro h
    induction h with
    | nil => exact nofun
    | @char c rest hc _ ih =>
      have hne : c ≠ '-' := by
        rintro rfl
        exact not_slashed_hyphen (.inl hc)
      rw [capitalizeSegments_cons hne]
      exact List.forall_mem_cons.2 ⟨.inl hc, ih⟩
    | slash _ ih =>
      rw [capitalizeSegments_cons (by decide)]
      exact List.forall_mem_cons.2 ⟨.inr rfl, ih⟩
    | hyphen hc _ ih =>
      rw [capitalizeSegments, if_pos hc]
      have hcapital := (toUpper_of_isNameChar (isNameChar_of_isWordChar hc)).1
      exact List.forall_mem_cons.2 ⟨.inl hcapital, ih⟩

/-! ## Types -/

theorem isTitleName_typeIdentifier {name : String} (h : Nameable name) :
    IsTitleName (typeIdentifier name) := by
  obtain ⟨c, rest, hname, hc, hrest⟩ := h
  obtain ⟨hbegins, hcapitals⟩ := (capitalsBegin_iff c).2 hc
  obtain ⟨first, hfirst, hstart⟩ := (Option.any_eq_true ..).1 hbegins
  rw [Bool.or_eq_true, beq_iff_eq] at hstart
  have hlower : first.isLower = false := by
    simpa [hfirst] using isLower_of_beginsNameable hc
  obtain ⟨others, hupper⟩ := List.head?_eq_some_iff.1 hfirst
  have hslashed : ∀ d ∈ Casing.upper c ++ capitalizeSegments rest, Slashed d :=
    List.forall_mem_append.2 ⟨hcapitals, slashed_capitalizeSegments_iff.2 hrest⟩
  have hchars := isNameChar_flattenSlashes hslashed
  rw [hupper, List.cons_append] at hchars
  obtain ⟨tail, hflat⟩ := flattenSlashes_head Char.toUpper first (others ++ capitalizeSegments rest)
  have htext : (typeIdentifier name).toList = (if first = '/' then '_' else first) :: tail := by
    rw [typeIdentifier, String.toList_ofList, hname, pascalCase, hupper, List.cons_append, hflat]
  refine ⟨_, tail, htext, ?_, ?_, (List.forall_mem_cons.1 (hflat ▸ hchars)).2⟩
  · split
    · decide
    · rename_i hslash
      exact hstart.resolve_right hslash
  · split
    · decide
    · exact hlower

/-- The type of a rule has an identifier for its name if and only if the rule is nameable. -/
theorem isIdentifier_typeIdentifier_iff {name : String} :
    isIdentifier (typeIdentifier name) = true ↔ Nameable name := by
  refine ⟨fun h => ?_, fun h => (isTitleName_typeIdentifier h).isIdentifier⟩
  obtain ⟨d, tail, htext, hstart, hchars⟩ := Source.isIdentifierChars_iff.1 h
  rw [typeIdentifier, String.toList_ofList] at htext
  cases hname : name.toList with
  | nil =>
    rw [hname] at htext
    cases htext
  | cons c rest =>
    rw [hname, pascalCase] at htext
    have hslashed : ∀ e ∈ Casing.upper c ++ capitalizeSegments rest, Slashed e := by
      intro e he
      by_contra hnot
      have hmem := mem_flattenSlashes Char.toUpper hnot he
      rw [htext] at hmem
      rcases List.mem_cons.1 hmem with rfl | hmem
      · exact hnot (.inl (Source.isNameChar_of_isNameStart hstart))
      · exact hnot (.inl (hchars e hmem))
    obtain ⟨hupper, hrest⟩ := List.forall_mem_append.1 hslashed
    refine ⟨c, rest, hname, (capitalsBegin_iff c).1 ⟨?_, hupper⟩,
      slashed_capitalizeSegments_iff.1 hrest⟩
    obtain ⟨first, others, hcapitals⟩ := List.exists_cons_of_ne_nil (Casing.upper_ne_nil c)
    obtain ⟨tail', hflat⟩ :=
      flattenSlashes_head Char.toUpper first (others ++ capitalizeSegments rest)
    rw [hcapitals, List.cons_append, hflat] at htext
    obtain ⟨hd, -⟩ := List.cons.inj htext
    rw [hcapitals, List.head?_cons, Option.any_some, Bool.or_eq_true, beq_iff_eq]
    by_cases hslash : first = '/'
    · exact .inr hslash
    · rw [if_neg hslash] at hd
      exact .inl (hd ▸ hstart)

end Names

end LintTypes
