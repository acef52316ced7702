import LintTypes.Proofs.Blanks
import Mathlib.Data.List.TakeWhile
import Mathlib.Tactic.ByContra
import Mathlib.Tactic.Tauto

/-!
# Token sequences and their spellings

A declaration source is a sequence of tokens: symbols, names, strings and numbers. `Spells` relates
such a sequence to the texts that spell it, with any blanks between the tokens. Names and numbers
must not run into what follows them; nothing else is asked of the text.
-/

namespace LintTypes.Source

open StringLiteral (unescape?)

/-! ## Literals -/

/-- The characters of a name: identifiers with points between them. -/
inductive DottedName : List Char → Prop where
  /-- A single identifier. -/
  | identifier {text : List Char} (h : isIdentifierChars text = true) : DottedName text
  /-- An identifier, a point and a name. -/
  | dotted {part text : List Char} (hp : isIdentifierChars part = true) (h : DottedName text) :
      DottedName (part ++ '.' :: text)

/-- The text between two quotes, and the value that it stands for. -/
inductive Quoted (quote : Char) : List Char → List Char → Prop where
  /-- The empty string. -/
  | nil : Quoted quote [] []
  /-- A character that stands for itself. -/
  | plain {c : Char} {text value : List Char} (hq : c ≠ quote) (hs : c ≠ '\\')
      (h : Quoted quote text value) : Quoted quote (c :: text) (c :: value)
  /-- A character by its escape. -/
  | escaped {c : Char} {escape text value : List Char}
      (he : ∀ rest, unescape? (escape ++ rest) = some (c, rest)) (h : Quoted quote text value) :
      Quoted quote ('\\' :: (escape ++ text)) (c :: value)

/-- The exponent of a number literal. -/
structure ExponentParts where
  /-- The mark in front: `e` or `E`. -/
  mark : Char
  /-- The sign, if there is one. -/
  sign : List Char
  /-- The digits. -/
  digits : List Char

namespace ExponentParts

/-- The exponent as it is written. -/
def text (e : ExponentParts) : List Char := e.mark :: (e.sign ++ e.digits)

/-- The parts are what their names say. -/
structure WellFormed (e : ExponentParts) : Prop where
  mark : e.mark = 'e' ∨ e.mark = 'E'
  sign : e.sign = [] ∨ e.sign = ['+'] ∨ e.sign = ['-']
  digits_ne : e.digits ≠ []
  digits : ∀ c ∈ e.digits, c.isDigit = true

end ExponentParts

/-- The parts of a number literal. -/
structure NumberParts where
  /-- Whether a `-` stands in front. -/
  isNegative : Bool
  /-- The digits before the point. -/
  whole : List Char
  /-- The digits behind the point; without any there is no point. -/
  fraction : List Char
  /-- The exponent, if there is one. -/
  exponent : Option ExponentParts

namespace NumberParts

/-- The sign as it is written. -/
def signText (p : NumberParts) : List Char := if p.isNegative then ['-'] else []

/-- The fraction with its point. -/
def fractionText (p : NumberParts) : List Char :=
  if p.fraction = [] then [] else '.' :: p.fraction

/-- The exponent as it is written, if there is one. -/
def exponentText (p : NumberParts) : List Char := (p.exponent.map ExponentParts.text).getD []

/-- The number as it is written. -/
def text (p : NumberParts) : List Char :=
  p.signText ++ p.whole ++ p.fractionText ++ p.exponentText

/-- The parts are what their names say. -/
structure WellFormed (p : NumberParts) : Prop where
  whole_ne : p.whole ≠ []
  whole : ∀ c ∈ p.whole, c.isDigit = true
  fraction : ∀ c ∈ p.fraction, c.isDigit = true
  exponent : ∀ e ∈ p.exponent, e.WellFormed

end NumberParts

/-- The text of a number: digits, possibly behind a `-` and before a fraction and an exponent. -/
def IsNumber (text : List Char) : Prop := ∃ p : NumberParts, p.WellFormed ∧ p.text = text

/-! ## Tokens -/

/-- A token. -/
inductive Token where
  /-- A single character, such as a bracket. -/
  | symbol (c : Char)
  /-- Three points. -/
  | dots
  /-- A name or a reserved word. -/
  | name (text : String)
  /-- A string literal. -/
  | string (value : String)
  /-- A number literal. -/
  | number (text : String)
deriving DecidableEq

/-- The single characters that are tokens. -/
def symbols : List Char :=
  ['=', ';', ',', ':', '?', '|', '&', '(', ')', '[', ']', '{', '}', '<', '>']

/-- What a check of all the symbols finds holds of each. -/
theorem all_of_mem_symbols (p : Char → Bool) (hp : symbols.all p = true) {c : Char}
    (h : c ∈ symbols) : p c = true :=
  List.all_eq_true.1 hp c h

/-- How a token may be written. -/
inductive Lexeme : Token → List Char → Prop where
  /-- A symbol stands for itself. -/
  | symbol {c : Char} (h : c ∈ symbols) : Lexeme (.symbol c) [c]
  /-- Three points stand for themselves. -/
  | dots : Lexeme .dots ['.', '.', '.']
  /-- A name stands for itself. -/
  | name {text : String} (h : DottedName text.toList) : Lexeme (.name text) text.toList
  /-- A string stands between two equal quotes. -/
  | string {value : String} {quote : Char} {body : List Char} (hq : quote = '\'' ∨ quote = '"')
      (h : Quoted quote body value.toList) : Lexeme (.string value) (quote :: (body ++ [quote]))
  /-- A number stands for itself. -/
  | number {text : String} (h : IsNumber text.toList) : Lexeme (.number text) text.toList

/-- A text that no name and no number runs into. -/
def Apart (text : List Char) : Prop := ∀ c ∈ text.head?, isNameChar c = false ∧ c ≠ '.'

/-- The token does not go on in the text right behind it. A name would go on with a name character
or a point, a number with a digit, a point, or an exponent if it has none. -/
def Token.EndsBefore : Token → List Char → Prop
  | .name _, text => Apart text
  | .number value, text =>
    (∀ c ∈ text.head?, c.isDigit = false ∧ c ≠ '.') ∧
      ∀ e : ExponentParts, e.WellFormed → e.text <+: text → 'e' ∈ value.toList ∨ 'E' ∈ value.toList
  | _, _ => True

/-- The texts that spell tokens, with blanks in front of each token and behind the last. A comment
at the very end may lack its line feed. -/
inductive Spells : List Token → List Char → Prop where
  /-- Blanks spell no token. -/
  | nil {blanks : List Char} (hb : Blanks blanks) : Spells [] blanks
  /-- Blanks and a comment up to the end of the text spell no token. -/
  | lineComment {blanks body : List Char} (hb : Blanks blanks) (hc : '\n' ∉ body) :
      Spells [] (blanks ++ '/' :: '/' :: body)
  /-- The text of a token, behind blanks and before the texts of the other tokens. -/
  | cons {token : Token} {tokens : List Token} {blanks lexeme text : List Char}
      (hb : Blanks blanks) (hl : Lexeme token lexeme) (hs : Spells tokens text)
      (he : token.EndsBefore text) :
      Spells (token :: tokens) (blanks ++ (lexeme ++ text))

/-! ## Characters of names -/

/-- What holds of every character below a bound can be checked one by one. -/
theorem holds_of_toNat_lt {bound : Nat} {P : Char → Prop} (hall : ∀ n < bound, P (Char.ofNat n))
    {c : Char} (h : c.toNat < bound) : P c := by
  have := hall c.toNat h
  rwa [Char.ofNat_toNat] at this

/-- For the characters in a list only these are tried. -/
instance (priority := high) decidableForallMem (chars : List Char) (P : Char → Prop)
    [DecidablePred P] : Decidable (∀ c ∈ chars, P c) :=
  List.decidableBAll P chars

theorem holds_of_isDigit {P : Char → Prop}
    (hall : ∀ n < 58, (Char.ofNat n).isDigit = true → P (Char.ofNat n)) {c : Char}
    (h : c.isDigit = true) : P c := by
  have hlt : c.toNat < 58 := Nat.lt_succ_of_le (Char.isDigit_iff_toNat.1 h).2
  exact holds_of_toNat_lt (P := fun c => c.isDigit = true → P c) hall hlt h

theorem isNameChar_of_isNameStart {c : Char} (h : isNameStart c = true) : isNameChar c = true := by
  simp only [isNameStart, isNameChar, Char.isAlphanum, Bool.or_eq_true] at h ⊢
  tauto

theorem isNameChar_of_isDigit {c : Char} (h : c.isDigit = true) : isNameChar c = true := by
  simp [isNameChar, Char.isAlphanum, h]

theorem isIdentifierChars_iff {text : List Char} :
    isIdentifierChars text = true ↔
      ∃ c rest, text = c :: rest ∧ isNameStart c = true ∧ ∀ d ∈ rest, isNameChar d = true := by
  cases text with
  | nil => simp [isIdentifierChars]
  | cons c rest =>
    simp only [isIdentifierChars, Bool.and_eq_true, List.all_eq_true]
    constructor
    · intro h
      exact ⟨c, rest, rfl, h⟩
    · rintro ⟨_, _, ⟨⟩, h⟩
      exact h

/-- All characters of an identifier are name characters. -/
theorem isNameChar_of_mem {text : List Char} (h : isIdentifierChars text = true) {c : Char}
    (hc : c ∈ text) : isNameChar c = true := by
  obtain ⟨d, rest, rfl, hd, hrest⟩ := isIdentifierChars_iff.1 h
  rcases List.mem_cons.1 hc with rfl | hc
  · exact isNameChar_of_isNameStart hd
  · exact hrest c hc

/-- A name begins with a letter, `_` or `$`. -/
theorem DottedName.head {text : List Char} (h : DottedName text) :
    ∃ c rest, text = c :: rest ∧ isNameStart c = true := by
  cases h with
  | identifier h =>
    obtain ⟨c, rest, rfl, hc, -⟩ := isIdentifierChars_iff.1 h
    exact ⟨c, rest, rfl, hc⟩
  | dotted hp _ =>
    obtain ⟨c, rest, rfl, hc, -⟩ := isIdentifierChars_iff.1 hp
    exact ⟨c, _, rfl, hc⟩

/-- A number begins with a digit or `-`. -/
theorem IsNumber.head {text : List Char} (h : IsNumber text) :
    ∃ c rest, text = c :: rest ∧ (c = '-' ∨ c.isDigit = true) := by
  obtain ⟨p, hp, rfl⟩ := h
  obtain ⟨c, rest, hw⟩ := List.exists_cons_of_ne_nil hp.whole_ne
  unfold NumberParts.text NumberParts.signText
  cases p.isNegative with
  | true => exact ⟨'-', _, rfl, Or.inl rfl⟩
  | false => exact ⟨c, _, by rw [hw]; rfl, Or.inr (hp.whole c (by simp [hw]))⟩

/-! ## Spellings -/

theorem apart_nil : Apart [] := by simp [Apart]

/-- No token goes on in a text that no name and no number runs into. -/
theorem Apart.endsBefore {text : List Char} (h : Apart text) (token : Token) :
    token.EndsBefore text := by
  cases token with
  | name _ => exact h
  | number value =>
    refine ⟨fun c hc => ⟨?_, (h c hc).2⟩, fun e he hprefix => ?_⟩
    · by_contra hdigit
      rw [Bool.not_eq_false] at hdigit
      exact Bool.false_ne_true ((h c hc).1.symm.trans (isNameChar_of_isDigit hdigit))
    · obtain ⟨rest, rfl⟩ := hprefix
      have hmark := (h e.mark rfl).1
      rcases he.mark with hm | hm <;> rw [hm] at hmark <;> exact absurd hmark (by decide)
  | symbol _ | dots | string _ => trivial

theorem apart_cons {c : Char} {text : List Char} (h : isNameChar c = false) (hp : c ≠ '.') :
    Apart (c :: text) := by
  simpa [Apart] using ⟨h, hp⟩

/-- A name character is no blank and begins no comment. -/
theorem not_blank_of_isNameChar {c : Char} (h : isNameChar c = true) :
    isSpace c = false ∧ c ≠ '/' := by
  constructor
  · by_contra hs
    rw [Bool.not_eq_false] at hs
    simp only [isSpace, Bool.or_eq_true, beq_iff_eq] at hs
    rcases hs with ((rfl | rfl) | rfl) | rfl <;> exact absurd h (by decide)
  · rintro rfl
    exact absurd h (by decide)

/-- A lexeme begins with a character that is no blank and begins no comment. -/
theorem Lexeme.head {token : Token} {lexeme : List Char} (h : Lexeme token lexeme) :
    ∃ c rest, lexeme = c :: rest ∧ isSpace c = false ∧ c ≠ '/' := by
  cases h with
  | @symbol c h =>
    have := all_of_mem_symbols (fun d => !isSpace d && d != '/') rfl h
    exact ⟨c, [], rfl, by simpa using this⟩
  | dots => exact ⟨'.', _, rfl, by decide, by decide⟩
  | name h =>
    obtain ⟨c, rest, hc, hs⟩ := h.head
    exact ⟨c, rest, hc, not_blank_of_isNameChar (isNameChar_of_isNameStart hs)⟩
  | string hq _ =>
    rcases hq with rfl | rfl
    · exact ⟨'\'', _, rfl, by decide, by decide⟩
    · exact ⟨'"', _, rfl, by decide, by decide⟩
  | number h =>
    obtain ⟨c, rest, hc, rfl | hd⟩ := h.head
    · exact ⟨'-', rest, hc, by decide, by decide⟩
    · exact ⟨c, rest, hc, not_blank_of_isNameChar (isNameChar_of_isDigit hd)⟩

theorem Spells.skipBlanks_nil {text : List Char} (h : Spells [] text) : skipBlanks text = [] := by
  cases h with
  | nil hb =>
    have := hb.skipBlanks_append []
    rwa [List.append_nil, skipBlanks.eq_4] at this
  | @lineComment blanks body hb hc =>
    have hdrop : body.dropWhile (· != '\n') = [] :=
      List.dropWhile_eq_nil_iff.2 fun c hmem => bne_iff_ne.2 fun h => hc (h ▸ hmem)
    rw [hb.skipBlanks_append, skipBlanks.eq_1, hdrop, skipBlanks.eq_4]

/-- Behind the blanks of a spelling stands the first lexeme. -/
theorem Spells.skipBlanks_cons {token : Token} {tokens : List Token} {text : List Char}
    (h : Spells (token :: tokens) text) :
    ∃ lexeme rest, skipBlanks text = lexeme ++ rest ∧ Lexeme token lexeme ∧ Spells tokens rest ∧
      token.EndsBefore rest ∧ 1 ≤ lexeme.length ∧ lexeme.length + rest.length ≤ text.length := by
  cases h with
  | @cons _ _ blanks lexeme rest hb hl hs he =>
    obtain ⟨c, tail, rfl, hc, hslash⟩ := hl.head
    refine ⟨_, rest, ?_, hl, hs, he, Nat.le_add_left .., ?_⟩
    · rw [hb.skipBlanks_append, List.cons_append, skipBlanks_of_head hc hslash]
    · simp only [List.length_append, List.length_cons]
      omega

/-- Blanks may stand in front of a spelling. -/
theorem Spells.blanks_append {tokens : List Token} {blanks text : List Char} (hb : Blanks blanks)
    (h : Spells tokens text) : Spells tokens (blanks ++ text) := by
  cases h with
  | nil hc => exact .nil (hb.append hc)
  | lineComment hc hbody =>
    rw [← List.append_assoc]
    exact .lineComment (hb.append hc) hbody
  | cons hc hl hs he =>
    rw [← List.append_assoc]
    exact .cons (hb.append hc) hl hs he

end LintTypes.Source
