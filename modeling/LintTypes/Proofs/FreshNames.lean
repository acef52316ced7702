import LintTypes.Names
import LintTypes.Proofs.WrittenForms
import Mathlib.Data.List.Nodup
import Mathlib.Data.List.Perm.Subperm

/-!
# Fresh names

The name that a titled schema is given is not taken, since there are more candidates than taken
names. It is an identifier, and no reserved word since it does not begin with a lower-case letter.
-/

namespace LintTypes.Names

open LintTypes.Source (reservedNames)

/-! ## Unused names -/

/-- The names that are tried in turn. -/
def candidates (taken : List String) (base : String) : List String :=
  base :: (List.range taken.length).map fun n => base ++ toString (n + 1)

theorem toString_injective : Function.Injective (toString : Nat → String) := by
  intro m n h
  have hdigits : Nat.toDigits 10 m = Nat.toDigits 10 n := by
    rw [Nat.toString_eq_ofList_toDigits, Nat.toString_eq_ofList_toDigits] at h
    exact String.ofList_injective h
  rw [← Nat.ofDigitChars_toDigits (b := 10) (n := m) (by decide) (by decide), hdigits,
    Nat.ofDigitChars_toDigits (by decide) (by decide)]

theorem append_right_injective (base : String) :
    Function.Injective fun s : String => base ++ s := by
  intro s t h
  have := congrArg String.toList h
  exact String.toList_inj.1 (by simpa using this)

theorem nodup_candidates (taken : List String) (base : String) :
    (candidates taken base).Nodup := by
  refine List.nodup_cons.2 ⟨fun hmem => ?_, List.Nodup.map ?_ List.nodup_range⟩
  · obtain ⟨n, -, hn⟩ := List.mem_map.1 hmem
    have := congrArg String.toList hn
    simp at this
  · intro m n h
    have := toString_injective (append_right_injective base h)
    omega

/-- One of the candidates is not taken, for there is one more of them than of taken names. -/
theorem exists_candidate (taken : List String) (base : String) :
    ∃ name ∈ candidates taken base, name ∉ taken := by
  by_contra hall
  push Not at hall
  have hlength := ((nodup_candidates taken base).subperm hall).length_le
  simp only [candidates, List.length_cons, List.length_map, List.length_range] at hlength
  omega

/-- So the search among the candidates finds the unused name. -/
theorem find?_candidates (taken : List String) (base : String) :
    (candidates taken base).find? (fun name => !taken.contains name) =
      some (unusedName taken base) := by
  obtain ⟨name, hmem, hfree⟩ := exists_candidate taken base
  have hsome : ((candidates taken base).find? fun name => !taken.contains name).isSome := by
    rw [List.find?_isSome]
    exact ⟨name, hmem, by simpa using hfree⟩
  obtain ⟨found, hfound⟩ := Option.isSome_iff_exists.1 hsome
  have hname : unusedName taken base = found := by
    show ((candidates taken base).find? _).getD base = found
    rw [hfound]
    rfl
  rw [hname, hfound]

theorem unusedName_spec (taken : List String) (base : String) :
    unusedName taken base ∈ candidates taken base ∧ unusedName taken base ∉ taken :=
  ⟨List.mem_of_find?_eq_some (find?_candidates taken base),
    by simpa using List.find?_some (find?_candidates taken base)⟩

/-! ## Names of titles -/

/-- An identifier that does not begin with a lower-case letter. -/
def IsTitleName (name : String) : Prop :=
  ∃ c rest, name.toList = c :: rest ∧ isNameStart c = true ∧ c.isLower = false ∧
    ∀ d ∈ rest, isNameChar d = true

theorem IsTitleName.isIdentifier {name : String} (h : IsTitleName name) :
    isIdentifier name = true := by
  obtain ⟨c, rest, hname, hstart, -, hrest⟩ := h
  exact Source.isIdentifierChars_iff.2 ⟨c, rest, hname, hstart, hrest⟩

/-- All reserved names begin with a lower-case letter. -/
theorem not_reserved_of_head {name : String} {c : Char} {rest : List Char}
    (h : name.toList = c :: rest) (hc : c.isLower = false) : name ∉ reservedNames := by
  intro hmem
  have hreserved : reservedNames.all (fun s => s.toList.head?.all Char.isLower) = true := by decide
  have := List.all_eq_true.1 hreserved name hmem
  rw [h] at this
  exact Bool.false_ne_true (hc.symm.trans this)

theorem IsTitleName.not_reserved {name : String} (h : IsTitleName name) :
    name ∉ reservedNames := by
  obtain ⟨c, rest, hname, -, hlower, -⟩ := h
  exact not_reserved_of_head hname hlower

theorem toNat_lt_of_isNameChar {c : Char} (h : isNameChar c = true) : c.toNat < 128 := by
  simp only [isNameChar, Char.isAlphanum, Bool.or_eq_true, beq_iff_eq] at h
  rcases h with ((halpha | hdigit) | rfl) | rfl
  · rcases Bool.or_eq_true_iff.1 halpha with hupper | hlower
    · exact Nat.lt_of_le_of_lt (of_decide_eq_true hupper).2 (by decide : 'Z'.toNat < 128)
    · have hle : c.val ≤ 'z'.val := of_decide_eq_true (Bool.and_eq_true_iff.1 hlower).2
      exact Nat.lt_of_le_of_lt hle (by decide : 'z'.toNat < 128)
  · exact Nat.lt_of_le_of_lt (Char.isDigit_iff_toNat.1 hdigit).2 (by decide)
  · decide
  · decide

/-- What holds of the characters below 128 holds of name characters. -/
theorem holds_of_isNameChar {P : Char → Prop} (hall : ∀ n < 128, P (Char.ofNat n)) {c : Char}
    (h : isNameChar c = true) : P c :=
  Source.holds_of_toNat_lt hall (toNat_lt_of_isNameChar h)

/-- A name character in upper case is a name character and no lower-case letter. -/
theorem toUpper_of_isNameChar {c : Char} (h : isNameChar c = true) :
    isNameChar c.toUpper = true ∧ c.toUpper.isLower = false :=
  holds_of_isNameChar (P := fun c => isNameChar c = true →
      isNameChar c.toUpper = true ∧ c.toUpper.isLower = false)
    (by decide +kernel) h h

/-- What is no lower-case letter is its own capital. -/
theorem toUpper_of_not_isLower {c : Char} (h : c.isLower = false) : c.toUpper = c := by
  unfold Char.toUpper
  rw [dif_neg]
  rintro ⟨hle, hge⟩
  have hlower : c.isLower = true :=
    Bool.and_eq_true_iff.2 ⟨decide_eq_true hle, decide_eq_true hge⟩
  exact Bool.false_ne_true (h.symm.trans hlower)

/-- Words are made of name characters. -/
theorem words_go_spec (text word : List Char) (hw : ∀ c ∈ word, isNameChar c = true) :
    ∀ w ∈ words.go word text, ∀ c ∈ w, isNameChar c = true := by
  induction text generalizing word with
  | nil =>
    unfold words.go
    split
    · simp
    · simpa using hw
  | cons d text ih =>
    unfold words.go
    split
    · rename_i hd
      exact ih (d :: word) (List.forall_mem_cons.2 ⟨hd, hw⟩)
    · split
      · exact ih [] (by simp)
      · exact List.forall_mem_cons.2 ⟨by simpa using hw, ih [] (by simp)⟩

/-- A capitalized word consists of name characters and begins with no lower-case letter. -/
theorem capitalize_spec {word : List Char} (h : ∀ c ∈ word, isNameChar c = true) :
    (∀ c ∈ capitalize word, isNameChar c = true) ∧
      ∀ c ∈ (capitalize word).head?, c.isLower = false := by
  cases word with
  | nil => simp [capitalize]
  | cons c rest =>
    obtain ⟨hc, hrest⟩ := List.forall_mem_cons.1 h
    obtain ⟨hupper, hlower⟩ := toUpper_of_isNameChar hc
    refine ⟨List.forall_mem_cons.2 ⟨hupper, hrest⟩, ?_⟩
    rintro d ⟨⟩
    exact hlower

theorem flatMap_capitalize_spec {ws : List (List Char)}
    (h : ∀ w ∈ ws, ∀ c ∈ w, isNameChar c = true) :
    (∀ c ∈ ws.flatMap capitalize, isNameChar c = true) ∧
      ∀ c ∈ (ws.flatMap capitalize).head?, c.isLower = false := by
  induction ws with
  | nil => simp
  | cons w ws ih =>
    obtain ⟨hw, hws⟩ := List.forall_mem_cons.1 h
    obtain ⟨hchars, hhead⟩ := capitalize_spec hw
    obtain ⟨hchars', hhead'⟩ := ih hws
    refine ⟨?_, ?_⟩
    · simpa [List.flatMap_cons, or_imp, forall_and] using ⟨hchars, by simpa using hchars'⟩
    · rw [List.flatMap_cons]
      cases hcap : capitalize w with
      | nil => simpa using hhead'
      | cons c rest => simpa [hcap] using hhead

/-- A name character that is no digit may begin a name. -/
theorem isNameStart_of_not_digit {c : Char} (h : isNameChar c = true) (hd : c.isDigit = false) :
    isNameStart c = true := by
  simpa [isNameChar, isNameStart, Char.isAlphanum, hd] using h

theorem isTitleName_titleIdentifier (title : String) : IsTitleName (titleIdentifier title) := by
  obtain ⟨hchars, hhead⟩ := flatMap_capitalize_spec (words_go_spec title.toList [] (by simp))
  unfold titleIdentifier words
  generalize (words.go [] title.toList).flatMap capitalize = joined at hchars hhead ⊢
  cases joined with
  | nil => exact ⟨'_', [], rfl, by decide, by decide, by simp⟩
  | cons c rest =>
    dsimp only
    by_cases hdigit : c.isDigit = true
    · rw [if_pos hdigit]
      exact ⟨'_', c :: rest, String.toList_ofList, by decide, by decide, hchars⟩
    · rw [if_neg hdigit]
      rw [Bool.not_eq_true] at hdigit
      obtain ⟨hc, hrest⟩ := List.forall_mem_cons.1 hchars
      exact ⟨c, rest, String.toList_ofList, isNameStart_of_not_digit hc hdigit, hhead c rfl, hrest⟩

/-- Digits behind a title name make a title name. -/
theorem IsTitleName.append_toString {name : String} (h : IsTitleName name) (n : Nat) :
    IsTitleName (name ++ toString n) := by
  obtain ⟨c, rest, hname, hstart, hlower, hrest⟩ := h
  refine ⟨c, rest ++ Nat.toDigits 10 n, ?_, hstart, hlower, ?_⟩
  · rw [String.toList_append, hname, Nat.toString_eq_ofList_toDigits, String.toList_ofList,
      List.cons_append]
  · intro d hd
    rcases List.mem_append.1 hd with hd | hd
    · exact hrest d hd
    · exact Source.isNameChar_of_isDigit (Nat.isDigit_of_mem_toDigits (by decide) (by decide) hd)

theorem isTitleName_unusedName {base : String} (h : IsTitleName base) (taken : List String) :
    IsTitleName (unusedName taken base) := by
  rcases List.mem_cons.1 (unusedName_spec taken base).1 with heq | hmem
  · rwa [heq]
  · obtain ⟨n, -, heq⟩ := List.mem_map.1 hmem
    rw [← heq]
    exact h.append_toString (n + 1)

end LintTypes.Names
