import LintTypes.Source.Token
import LintTypes.Types.Layout

/-!
# Blanks and comments

What may stand between two tokens: white space, line comments with the line feed that ends them, and
block comments with their end mark. `skipBlanks` passes over exactly such a text, and a doc comment
is always one, whatever its text says.
-/

namespace LintTypes.Source

/-- White space and complete comments. A comment ends with the text: a line comment by its line
feed, a block comment by the first end mark behind its start. -/
inductive Blanks : List Char → Prop where
  /-- No text at all. -/
  | nil : Blanks []
  /-- A character of white space. -/
  | space {c : Char} {text : List Char} (hc : isSpace c = true) (h : Blanks text) :
      Blanks (c :: text)
  /-- A comment up to the end of its line. -/
  | lineComment {body text : List Char} (hb : '\n' ∉ body) (h : Blanks text) :
      Blanks ('/' :: '/' :: (body ++ '\n' :: text))
  /-- A comment between its marks. -/
  | blockComment {body text : List Char} (hb : ¬ ['*', '/'] <:+: body) (h : Blanks text) :
      Blanks ('/' :: '*' :: (body ++ '*' :: '/' :: text))

/-! ## The end of a block comment -/

/-- Past a character that does not begin an end mark, the search goes on. -/
theorem afterCommentEnd?_cons {c : Char} {text : List Char}
    (h : ¬ (c = '*' ∧ text.head? = some '/')) :
    afterCommentEnd? (c :: text) = afterCommentEnd? text := by
  rw [afterCommentEnd?.eq_2]
  rintro rest rfl rfl
  exact h ⟨rfl, rfl⟩

/-- A text without end mark is passed over, unless its end and what follows make one. -/
theorem afterCommentEnd?_append {body : List Char} (hb : ¬ ['*', '/'] <:+: body) {c : Char}
    (hc : c ≠ '/') (text : List Char) :
    afterCommentEnd? (body ++ c :: text) = afterCommentEnd? (c :: text) := by
  induction body with
  | nil => rfl
  | cons d body ih =>
    have hbody : ¬ ['*', '/'] <:+: body := fun h => hb (h.trans (List.suffix_cons d body).isInfix)
    rw [List.cons_append, afterCommentEnd?_cons, ih hbody]
    rintro ⟨rfl, hnext⟩
    cases body with
    | nil => exact hc (by simpa using hnext)
    | cons e body =>
      obtain rfl : e = '/' := by simpa using hnext
      exact hb ⟨[], body, rfl⟩

theorem afterCommentEnd?_eq_none {text : List Char} :
    afterCommentEnd? text = none ↔ ¬ ['*', '/'] <:+: text := by
  constructor
  · rintro h ⟨before, after, rfl⟩
    induction before with
    | nil => cases h
    | cons c before ih =>
      by_cases hc : c = '*' ∧ (before ++ ['*', '/'] ++ after).head? = some '/'
      · obtain ⟨rfl, hnext⟩ := hc
        cases before with
        | nil => cases hnext
        | cons d before =>
          obtain rfl : d = '/' := by simpa using hnext
          cases h
      · exact ih (by rwa [List.cons_append, List.cons_append, afterCommentEnd?_cons hc] at h)
  · intro h
    induction text with
    | nil => rfl
    | cons c text ih =>
      rw [afterCommentEnd?_cons, ih fun hin => h (hin.trans (List.suffix_cons c text).isInfix)]
      rintro ⟨rfl, hnext⟩
      cases text with
      | nil => cases hnext
      | cons d text =>
        obtain rfl : d = '/' := by simpa using hnext
        exact h ⟨[], text, rfl⟩

/-! ## Skipping -/

theorem skipBlanks_cons {c : Char} (hc : c ≠ '/') (text : List Char) :
    skipBlanks (c :: text) = if isSpace c then skipBlanks text else c :: text := by
  rw [skipBlanks.eq_3]
  · rintro rest rfl
    exact absurd rfl hc
  · rintro rest rfl
    exact absurd rfl hc

theorem skipBlanks_space {c : Char} (hc : isSpace c = true) (text : List Char) :
    skipBlanks (c :: text) = skipBlanks text := by
  rw [skipBlanks_cons, if_pos hc]
  rintro rfl
  exact absurd hc (by decide)

theorem skipBlanks_lineComment {body : List Char} (hb : '\n' ∉ body) (text : List Char) :
    skipBlanks ('/' :: '/' :: (body ++ '\n' :: text)) = skipBlanks text := by
  have hdrop : (body ++ '\n' :: text).dropWhile (· != '\n') = '\n' :: text := by
    rw [List.dropWhile_append_of_pos]
    · rfl
    · intro c hc
      exact bne_iff_ne.2 fun h => hb (h ▸ hc)
  rw [skipBlanks.eq_1, hdrop, skipBlanks_space (by decide)]

theorem skipBlanks_blockComment {body : List Char} (hb : ¬ ['*', '/'] <:+: body)
    (text : List Char) :
    skipBlanks ('/' :: '*' :: (body ++ '*' :: '/' :: text)) = skipBlanks text := by
  have hend : afterCommentEnd? (body ++ '*' :: '/' :: text) = some text :=
    afterCommentEnd?_append hb (by decide) _
  rw [skipBlanks.eq_2]
  split
  · rename_i after h
    rw [hend] at h
    rw [Option.some.inj h]
  · rename_i h
    rw [hend] at h
    cases h

/-- Blanks in front of a text are passed over. -/
theorem Blanks.skipBlanks_append {blanks : List Char} (h : Blanks blanks) (text : List Char) :
    skipBlanks (blanks ++ text) = skipBlanks text := by
  induction h with
  | nil => rfl
  | space hc _ ih => rw [List.cons_append, skipBlanks_space hc, ih]
  | lineComment hb _ ih =>
    simp only [List.cons_append, List.append_assoc]
    rw [skipBlanks_lineComment hb, ih]
  | blockComment hb _ ih =>
    simp only [List.cons_append, List.append_assoc]
    rw [skipBlanks_blockComment hb, ih]

/-- Nothing is skipped in front of a character that is neither white space nor a slash. -/
theorem skipBlanks_of_head {c : Char} {text : List Char} (hc : isSpace c = false) (hs : c ≠ '/') :
    skipBlanks (c :: text) = c :: text := by
  rw [skipBlanks_cons hs, hc]
  rfl

theorem Blanks.append {a b : List Char} (ha : Blanks a) (hb : Blanks b) : Blanks (a ++ b) := by
  induction ha with
  | nil => exact hb
  | space hc _ ih => exact .space hc ih
  | lineComment hbody _ ih =>
    simp only [List.cons_append, List.append_assoc]
    exact .lineComment hbody ih
  | blockComment hbody _ ih =>
    simp only [List.cons_append, List.append_assoc]
    exact .blockComment hbody ih

theorem blanks_replicate (n : Nat) : Blanks (List.replicate n ' ') := by
  induction n with
  | zero => exact .nil
  | succ n ih => exact .space (by decide) ih

end LintTypes.Source

namespace LintTypes.Layout

open Source

/-! ## Doc comments -/

theorem toList_pad (width : Nat) : (pad width).toList = List.replicate width ' ' :=
  String.toList_ofList

theorem head?_guardCommentEnd (line : List Char) : (guardCommentEnd line).head? = line.head? := by
  fun_cases guardCommentEnd line <;> rfl

/-- A guarded line holds no end mark. -/
theorem afterCommentEnd?_guardCommentEnd (line : List Char) :
    afterCommentEnd? (guardCommentEnd line) = none := by
  fun_induction guardCommentEnd line with
  | case1 rest ih =>
    rw [afterCommentEnd?_cons (by simp), afterCommentEnd?_cons (by simp),
      afterCommentEnd?_cons (by simp), ih]
  | case2 c rest hno ih =>
    rw [afterCommentEnd?_cons, ih]
    rintro ⟨rfl, hnext⟩
    rw [head?_guardCommentEnd] at hnext
    obtain ⟨rest', rfl⟩ := List.head?_eq_some_iff.1 hnext
    exact hno rest' rfl rfl
  | case3 => rfl

/-- Past spaces the search for an end mark goes on. -/
theorem afterCommentEnd?_spaces (n : Nat) (text : List Char) :
    afterCommentEnd? (List.replicate n ' ' ++ text) = afterCommentEnd? text := by
  induction n with
  | zero => rfl
  | succ n ih => rw [List.replicate_succ, List.cons_append, afterCommentEnd?_cons (by simp), ih]

/-- Past a line of a doc comment the search for an end mark goes on. -/
theorem afterCommentEnd?_commentLine (line text : List Char) :
    afterCommentEnd? ((commentLine line).toList ++ text) = afterCommentEnd? text := by
  unfold commentLine
  split
  · simp only [String.reduceToList, List.cons_append, List.nil_append]
    rw [afterCommentEnd?_cons (by simp), afterCommentEnd?_cons (by simp),
      afterCommentEnd?_cons (by simp)]
  · have hguard := afterCommentEnd?_eq_none.1 (afterCommentEnd?_guardCommentEnd line)
    simp only [String.toList_append, String.toList_ofList, String.reduceToList, List.append_assoc,
      List.cons_append, List.nil_append]
    rw [afterCommentEnd?_cons (by simp), afterCommentEnd?_cons (by simp),
      afterCommentEnd?_cons (by simp), afterCommentEnd?_append hguard (by decide),
      afterCommentEnd?_cons (by simp)]

/-- A doc comment stands between its marks, and what is between them holds no end mark, whatever its
text says. -/
theorem exists_commentBlock (text : String) (indent : Nat) :
    ∃ body, (commentBlock (some text) indent).toList =
        List.replicate indent ' ' ++ '/' :: '*' :: ('*' :: body ++ '*' :: '/' :: ['\n']) ∧
      ¬ ['*', '/'] <:+: '*' :: body := by
  refine ⟨'\n' :: ((String.join ((linesOf text.toList).map fun line =>
    pad indent ++ commentLine line)).toList ++ ((pad indent).toList ++ [' '])), ?_, ?_⟩
  · simp [commentBlock, toList_pad]
  · rw [← afterCommentEnd?_eq_none, afterCommentEnd?_cons (by simp),
      afterCommentEnd?_cons (by simp)]
    generalize linesOf text.toList = lines
    induction lines with
    | nil => simp [toList_pad, afterCommentEnd?_spaces, afterCommentEnd?]
    | cons line lines ih =>
      simpa [toList_pad, afterCommentEnd?_spaces, afterCommentEnd?_commentLine,
        List.append_assoc] using ih

/-- A doc comment is made of blanks and one complete comment. -/
theorem blanks_commentBlock (comment : Option String) (indent : Nat) :
    Blanks (commentBlock comment indent).toList := by
  cases comment with
  | none => exact .nil
  | some text =>
    obtain ⟨body, heq, hbody⟩ := exists_commentBlock text indent
    rw [heq]
    exact (blanks_replicate indent).append (.blockComment hbody (.space (by decide) .nil))

end LintTypes.Layout
