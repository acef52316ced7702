import LintTypes.Proofs.LexicalReading
import LintTypes.Proofs.StringForms

/-!
# Enclosed texts

Two kinds of text come into a source from outside and may say anything: strings, which stand in
literals, and descriptions, which stand in doc comments. Either kind stands between marks, and the
mark that ends it must not come earlier. A string keeps its characters, as escapes if need be, and
is read back as it was, whatever stands behind the literal. A description only has to be passed
over: its end marks are broken up, so the one that closes the comment is the only one.
-/

namespace LintTypes

/-! ## Strings -/

namespace StringLiteral

open Source (Parser firstOf_quotedBy_append skipBlanks_of_head)

variable {quote : Char} {text : List Char}

/-- A text as a literal between the given quotes. -/
def between (quote : Char) (text : List Char) : List Char :=
  quote :: (text.flatMap (escapeChar quote) ++ [quote])

/-- The quotes in a literal that have a backslash of their own. A backslash belongs to the character
behind it, which may be another backslash. -/
def escapedQuotes : List Char → Nat
  | '\\' :: c :: rest => (if c = '\'' ∨ c = '"' then 1 else 0) + escapedQuotes rest
  | _ :: rest => escapedQuotes rest
  | [] => 0

/-- A literal is read back as its text, whatever follows it. -/
theorem stringLiteral_between (hq : quote = '\'' ∨ quote = '"') (text rest : List Char)
    (bound : Nat) :
    Parser.stringLiteral bound (between quote text ++ rest) = .done (String.ofList text) rest := by
  have hskip : Source.skipBlanks (between quote text ++ rest) = between quote text ++ rest := by
    rcases hq with rfl | rfl <;> exact skipBlanks_of_head (by decide) (by decide)
  rw [Parser.stringLiteral, Parser.lexeme, hskip, between, List.cons_append, List.append_assoc,
    List.singleton_append, firstOf_quotedBy_append hq (quoted_flatMap_escapeChar hq text)]

/-! ### Control characters -/

theorem isControl_fourHexDigits (n : Nat) : ∀ c ∈ fourHexDigits n, isControl c = false := by
  have hdigit : ∀ k < 16, isControl (hexDigit k) = false := by decide
  simp only [fourHexDigits, List.forall_mem_cons, List.not_mem_nil, false_implies, implies_true,
    and_true]
  exact ⟨hdigit _ (Nat.mod_lt _ (by decide)), hdigit _ (Nat.mod_lt _ (by decide)),
    hdigit _ (Nat.mod_lt _ (by decide)), hdigit _ (Nat.mod_lt _ (by decide))⟩

/-- No character is written with a control character. -/
theorem isControl_escapeChar (hq : isControl quote = false) (c : Char) :
    ∀ d ∈ escapeChar quote c, isControl d = false := by
  unfold escapeChar
  split
  case h_7 =>
    split_ifs with hquote hcontrol
    · exact List.forall_mem_cons.2 ⟨by decide, List.forall_mem_singleton.2 (hquote ▸ hq)⟩
    · exact List.forall_mem_cons.2 ⟨by decide, List.forall_mem_cons.2 ⟨by decide,
        isControl_fourHexDigits _⟩⟩
    · exact List.forall_mem_singleton.2 (Bool.eq_false_iff.2 hcontrol)
  all_goals decide

theorem isControl_between (hq : isControl quote = false) (text : List Char) :
    ∀ c ∈ between quote text, isControl c = false := by
  have hbody : ∀ c ∈ text.flatMap (escapeChar quote) ++ [quote], isControl c = false := by
    refine List.forall_mem_append.2 ⟨fun c hc => ?_, List.forall_mem_singleton.2 hq⟩
    obtain ⟨d, -, hd⟩ := List.mem_flatMap.1 hc
    exact isControl_escapeChar hq d c hd
  exact List.forall_mem_cons.2 ⟨hq, hbody⟩

/-! ### Backslashes -/

theorem escapedQuotes_cons {c : Char} (hc : c ≠ '\\') (rest : List Char) :
    escapedQuotes (c :: rest) = escapedQuotes rest := by
  rw [escapedQuotes]
  exact fun _ _ h _ => hc h

theorem escapedQuotes_append {front : List Char} (hf : '\\' ∉ front) (rest : List Char) :
    escapedQuotes (front ++ rest) = escapedQuotes rest := by
  induction front with
  | nil => rfl
  | cons c front ih =>
    obtain ⟨hc, hfront⟩ := not_or.1 (List.mem_cons.not.1 hf)
    rw [List.cons_append, escapedQuotes_cons (Ne.symm hc), ih hfront]

theorem backslash_not_mem_fourHexDigits (n : Nat) : '\\' ∉ fourHexDigits n := by
  have hdigit : ∀ k < 16, '\\' ≠ hexDigit k := by decide
  simp [fourHexDigits, hdigit, Nat.mod_lt]

/-- Of the characters of a text only the quote itself is written as a quote behind a backslash. -/
theorem escapedQuotes_escapeChar (hq : quote = '\'' ∨ quote = '"') (c : Char) (rest : List Char) :
    escapedQuotes (escapeChar quote c ++ rest) =
      (if c = quote then 1 else 0) + escapedQuotes rest := by
  unfold escapeChar
  split
  case h_7 hbackslash _ _ _ _ _ =>
    split_ifs with hquote hcontrol
    · rw [List.cons_append, List.singleton_append, escapedQuotes, if_pos (hquote ▸ hq)]
    · rw [List.cons_append, List.cons_append, escapedQuotes, if_neg (by decide),
        escapedQuotes_append (backslash_not_mem_fourHexDigits _)]
    · rw [List.singleton_append, escapedQuotes_cons hbackslash, Nat.zero_add]
  -- The other characters are no quotes and are written by a backslash and a letter or a backslash.
  all_goals rcases hq with rfl | rfl <;> rfl

theorem escapedQuotes_between (hq : quote = '\'' ∨ quote = '"') (text : List Char) :
    escapedQuotes (between quote text) = text.count quote := by
  have hbody : escapedQuotes (text.flatMap (escapeChar quote) ++ [quote]) = text.count quote := by
    induction text with
    | nil => rcases hq with rfl | rfl <;> rfl
    | cons c text ih =>
      rw [List.flatMap_cons, List.append_assoc, escapedQuotes_escapeChar hq, ih, List.count_cons,
        Nat.add_comm]
      simp
  have hne : quote ≠ '\\' := by rcases hq with rfl | rfl <;> decide
  rw [between, escapedQuotes_cons hne, hbody]

/-- The delimiter is the quote that the text holds less of. -/
theorem count_delimiter (preferSingle : Bool) (text : List Char) :
    text.count (delimiter preferSingle text) = min (text.count '\'') (text.count '"') := by
  unfold delimiter
  cases preferSingle
  · simp only [Bool.false_eq_true, if_false]
    split <;> omega
  · simp only [if_true]
    split <;> omega

/-- A string survives being quoted: its literal is read as the string, and what follows the literal
is left. The literal has no control characters, and with neither of the quotes it would have fewer
backslashes in front of quotes. -/
theorem stringLiteral_quoted (preferSingle : Bool) (text : String) :
    (∀ bound rest, Parser.stringLiteral bound ((quoted preferSingle text).toList ++ rest) =
      .done text rest) ∧
    (quoted preferSingle text).toList.any isControl = false ∧
    escapedQuotes (quoted preferSingle text).toList =
      min (escapedQuotes (between '\'' text.toList)) (escapedQuotes (between '"' text.toList)) := by
  have hq := delimiter_eq preferSingle text.toList
  have hquoted : (quoted preferSingle text).toList =
      between (delimiter preferSingle text.toList) text.toList := String.toList_ofList
  rw [hquoted]
  refine ⟨fun bound rest => ?read, ?control, ?backslashes⟩
  case read =>
    rw [stringLiteral_between hq, String.ofList_toList]
  case control =>
    have hcontrol : isControl (delimiter preferSingle text.toList) = false := by
      rcases hq with h | h <;> rw [h] <;> decide
    exact List.any_eq_false.2 fun c hc => by simp [isControl_between hcontrol text.toList c hc]
  case backslashes =>
    rw [escapedQuotes_between hq, escapedQuotes_between (.inl rfl),
      escapedQuotes_between (.inr rfl), count_delimiter]

end StringLiteral

/-! ## Descriptions -/

namespace Layout

open Source (afterCommentEnd? afterCommentEnd?_cons afterCommentEnd?_append skipBlanks)

/-- The search for an end mark finds the first one. -/
theorem length_le_of_afterCommentEnd? {before after rest : List Char}
    (h : afterCommentEnd? (before ++ '*' :: '/' :: after) = some rest) :
    after.length ≤ rest.length := by
  induction before with
  | nil =>
    cases h
    exact Nat.le_refl _
  | cons c before ih =>
    by_cases hmark : c = '*' ∧ (before ++ '*' :: '/' :: after).head? = some '/'
    · obtain ⟨rfl, hnext⟩ := hmark
      obtain ⟨tail, htail⟩ := List.head?_eq_some_iff.1 hnext
      rw [List.cons_append, htail] at h
      cases h
      have hlength := congrArg List.length htail
      simp only [List.length_append, List.length_cons] at hlength
      omega
    · rw [List.cons_append, afterCommentEnd?_cons hmark] at h
      exact ih h

/-- In a doc comment the search ends at its very end. -/
theorem afterCommentEnd?_commentBlock (text : String) (indent : Nat) :
    afterCommentEnd? (commentBlock (some text) indent).toList = some ['\n'] := by
  obtain ⟨body, heq, hbody⟩ := exists_commentBlock text indent
  rw [heq, afterCommentEnd?_spaces, afterCommentEnd?_cons (by simp),
    afterCommentEnd?_cons (by simp), afterCommentEnd?_append hbody (by decide)]
  rfl

/-- A description cannot get out of its doc comment. The comment begins with its indentation and its
mark; there is one end mark in it, at its end and in front of the line feed; and it is passed over
as a whole, so that what follows is read as it would be by itself. -/
theorem commentBlock_closed (text : String) (indent : Nat) :
    (pad indent ++ "/**").toList <+: (commentBlock (some text) indent).toList ∧
    (∃ front, ∀ before after,
      (commentBlock (some text) indent).toList = before ++ '*' :: '/' :: after ↔
        before = front ∧ after = ['\n']) ∧
    ∀ rest, skipBlanks ((commentBlock (some text) indent).toList ++ rest) = skipBlanks rest := by
  obtain ⟨body, heq, -⟩ := exists_commentBlock text indent
  have hfirst := afterCommentEnd?_commentBlock text indent
  have hpasses := (blanks_commentBlock (some text) indent).skipBlanks_append
  generalize (commentBlock (some text) indent).toList = block at heq hfirst hpasses ⊢
  obtain ⟨front, hsplit⟩ : ∃ front, block = front ++ '*' :: '/' :: ['\n'] :=
    ⟨List.replicate indent ' ' ++ '/' :: '*' :: '*' :: body, by simpa using heq⟩
  refine ⟨?begins, ⟨front, fun before after => ⟨fun hmark => ?_, ?_⟩⟩, hpasses⟩
  case begins =>
    rw [heq, String.toList_append, toList_pad]
    exact ⟨body ++ '*' :: '/' :: ['\n'], by simp⟩
  · -- An end mark is not before the first one, and behind that there is room for none.
    have hlength : after.length ≤ 1 := length_le_of_afterCommentEnd? (hmark ▸ hfirst)
    have hsame := hmark.symm.trans hsplit
    cases after with
    | nil =>
      have hlast := congrArg List.getLast? hsame
      simp at hlast
    | cons c after =>
      obtain rfl : after = [] := List.length_eq_zero_iff.1 (by simpa using hlength)
      have hparts := List.append_inj' hsame rfl
      exact ⟨hparts.1, (List.cons.inj (List.cons.inj hparts.2).2).2⟩
  · rintro ⟨rfl, rfl⟩
    exact hsplit

end Layout

end LintTypes
