import LintTypes.Proofs.StringForms
import LintTypes.Proofs.WrittenForms
import Mathlib.Data.List.Forall2

/-!
# Printing tokens

`Prints` is the counterpart of `Reads`: a text prints a token sequence if it spells the sequence
wherever it is put in front of something that no name runs into. Texts are put together from left
to right, one lemma for each way to begin one.
-/

namespace LintTypes.Source

variable {tokens more : List Token} {text rest : List Char}

/-- In front of what is spelled, the text spells the tokens. -/
def Prints (tokens : List Token) (text : List Char) : Prop :=
  ∀ ⦃more : List Token⦄ ⦃rest : List Char⦄, Apart rest → Spells more rest →
    Spells (tokens ++ more) (text ++ rest)

/-- The text prints a form of the value. -/
def PrintsAs {α : Type} (form : α → List Token → Prop) (a : α) (text : String) : Prop :=
  ∃ tokens, form a tokens ∧ Prints tokens text.toList

/-! ## What a text begins with -/

/-- A text that keeps apart does so whatever is behind it. -/
theorem Apart.append (h : Apart text) (hr : Apart rest) : Apart (text ++ rest) := by
  cases text with
  | nil => exact hr
  | cons c text => exact h

/-- No name runs into a blank. -/
theorem Blanks.apart {blanks : List Char} (hb : Blanks blanks) (h : Apart text) :
    Apart (blanks ++ text) := by
  cases hb with
  | nil => exact h
  | @space c _ hc _ =>
    have : isNameChar c = false ∧ c ≠ '.' := by
      simp only [isSpace, Bool.or_eq_true, beq_iff_eq] at hc
      rcases hc with ((rfl | rfl) | rfl) | rfl <;> decide
    exact apart_cons this.1 this.2
  | lineComment _ _ => exact apart_cons (by decide) (by decide)
  | blockComment _ _ => exact apart_cons (by decide) (by decide)

/-- No name runs into a symbol. -/
theorem apart_symbol {c : Char} (hc : c ∈ symbols) (text : List Char) : Apart (c :: text) := by
  have := all_of_mem_symbols (fun d => !isNameChar d && d != '.') rfl hc
  simp only [Bool.and_eq_true, Bool.not_eq_true', bne_iff_ne] at this
  exact apart_cons this.1 this.2

theorem apart_space (text : List Char) : Apart (' ' :: text) :=
  apart_cons (by decide) (by decide)

theorem apart_newline (text : List Char) : Apart ('\n' :: text) :=
  apart_cons (by decide) (by decide)

/-! ## Texts from left to right -/

theorem prints_nil : Prints [] [] := fun _ _ _ hs => hs

/-- A text that prints tokens spells them. -/
theorem Prints.spells (h : Prints tokens text) : Spells tokens text := by
  have := h apart_nil (.nil .nil)
  rwa [List.append_nil, List.append_nil] at this

/-- Texts that print tokens may be put one behind the other if the second one keeps apart from the
first. -/
theorem Prints.append (h : Prints tokens text) (hr : Prints more rest) (ha : Apart rest) :
    Prints (tokens ++ more) (text ++ rest) := by
  intro after left hleft hs
  rw [List.append_assoc, List.append_assoc]
  exact h (ha.append hleft) (hr hleft hs)

/-- Blanks in front of a text do not change what it prints. -/
theorem Prints.blanks {blanks : List Char} (hb : Blanks blanks) (h : Prints tokens text) :
    Prints tokens (blanks ++ text) := by
  intro after left hleft hs
  rw [List.append_assoc]
  exact (h hleft hs).blanks_append hb

theorem Prints.space (h : Prints tokens text) : Prints tokens (' ' :: text) :=
  h.blanks (.space (by decide) .nil)

theorem Prints.newline (h : Prints tokens text) : Prints tokens ('\n' :: text) :=
  h.blanks (.space (by decide) .nil)

/-- A token whose text begins the text. -/
theorem Prints.token {token : Token} {lexeme : List Char} (hl : Lexeme token lexeme)
    (he : ∀ rest, Apart rest → token.EndsBefore (text ++ rest)) (h : Prints tokens text) :
    Prints (token :: tokens) (lexeme ++ text) := by
  intro after left hleft hs
  have := Spells.cons .nil hl (h hleft hs) (he left hleft)
  rwa [List.nil_append, ← List.append_assoc] at this

/-- A symbol need not be kept apart from what follows, -/
theorem Prints.symbol {c : Char} (hc : c ∈ symbols) (h : Prints tokens text) :
    Prints (.symbol c :: tokens) (c :: text) :=
  h.token (.symbol hc) fun _ _ => trivial

theorem Prints.dots (h : Prints tokens text) :
    Prints (.dots :: tokens) ('.' :: '.' :: '.' :: text) :=
  h.token .dots fun _ _ => trivial

/-- but a name has to be, since it would go on otherwise, -/
theorem Prints.name {s : String} (hs : DottedName s.toList) (ha : Apart text)
    (h : Prints tokens text) : Prints (.name s :: tokens) (s.toList ++ text) :=
  h.token (.name hs) fun _ hr => (ha.append hr).endsBefore _

theorem Prints.identifier {s : String} (hs : isIdentifier s = true) (ha : Apart text)
    (h : Prints tokens text) : Prints (.name s :: tokens) (s.toList ++ text) :=
  h.name (.identifier hs) ha

/-- and so has a number. -/
theorem Prints.number {s : String} (hs : IsNumber s.toList) (ha : Apart text)
    (h : Prints tokens text) : Prints (.number s :: tokens) (s.toList ++ text) :=
  h.token (.number hs) fun _ hr => (ha.append hr).endsBefore _

theorem Prints.string (preferSingle : Bool) (s : String) (h : Prints tokens text) :
    Prints (.string s :: tokens) ((StringLiteral.quoted preferSingle s).toList ++ text) :=
  h.token (StringLiteral.lexeme_quoted preferSingle s) fun _ _ => trivial

/-! ## Items with separators -/

/-- A text that prints the separator `c`: the symbol between blanks. -/
def Separates (c : Char) (gap : List Char) : Prop :=
  c ∈ symbols ∧ ∃ before after, gap = before ++ c :: after ∧ Blanks before ∧ Blanks after

/-- A gap prints the symbol that it separates by. -/
theorem Separates.prints {c : Char} {gap : List Char} (hg : Separates c gap)
    (h : Prints tokens text) : Prints (.symbol c :: tokens) (gap ++ text) := by
  obtain ⟨hc, before, after, rfl, hbefore, hafter⟩ := hg
  rw [List.append_assoc, List.cons_append]
  exact Prints.blanks hbefore (Prints.symbol hc (h.blanks hafter))

theorem Separates.apart {c : Char} {gap : List Char} (hg : Separates c gap) (text : List Char) :
    Apart (gap ++ text) := by
  obtain ⟨hc, before, after, rfl, hbefore, -⟩ := hg
  rw [List.append_assoc, List.cons_append]
  exact hbefore.apart (apart_symbol hc _)

/-- Texts of items with gaps between them print the items with separators between them. -/
theorem printsAs_intercalate {α : Type} {form : α → List Token → Prop} {c : Char} {gap : String}
    (hg : Separates c gap.toList) {items : List α} {texts : List String}
    (h : List.Forall₂ (PrintsAs form) items texts) (hne : items ≠ []) :
    PrintsAs (Joined form (.symbol c)) items (gap.intercalate texts) := by
  induction h with
  | nil => exact absurd rfl hne
  | @cons a text items texts ha hs ih =>
    obtain ⟨tokens, hform, hprints⟩ := ha
    cases hs with
    | nil => exact ⟨tokens, .single hform, by simpa using hprints⟩
    | @cons b text' items texts hb hs =>
      obtain ⟨more, hjoined, hmore⟩ := ih (by simp)
      refine ⟨tokens ++ .symbol c :: more, .cons hform hjoined, ?_⟩
      have hrest : Prints (.symbol c :: more)
          (gap.toList ++ (gap.intercalate (text' :: texts)).toList) := hg.prints hmore
      have hboth := hprints.append hrest (hg.apart _)
      simpa using hboth

end LintTypes.Source
