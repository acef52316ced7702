import LintTypes.Proofs.DeclarationReading
import LintTypes.Proofs.LayoutForms

/-!
# Declarations are read back as they were written

The text of declarations is read as what is left of them, as long as it is faithful: no comments,
numbers in normal form. For declarations that can be written neither the width of the page nor the
style of quotes and semicolons matters. A banner may stand above the declarations as long as it is
made of comments.
-/

namespace LintTypes

open Source Layout

variable {strict : Bool} {style : Style}

/-- The banner is empty or made of white space and complete comments. A line comment at its end is
complete since the banner is a line of its own. -/
def Style.BannerIsComment (style : Style) : Prop :=
  Blanks (style.bannerComment.toList ++ ['\n'])

theorem Style.bannerIsComment_of_empty {style : Style} (h : style.bannerComment = "") :
    style.BannerIsComment := by
  rw [Style.BannerIsComment, h]
  exact .space (by decide) .nil

/-! ## Faithful declarations -/

/-- What is asked of a declaration whatever the style: names and numbers are spelled as such, and no
type is a text itself. -/
def Declaration.Sound : Declaration → Prop
  | .typeAlias name type _ => isIdentifier name = true ∧ type.Sound
  | .interface name parents members _ =>
    isIdentifier name = true ∧ (∀ type ∈ parents, type.Sound) ∧ ∀ member ∈ members, member.Sound

/-- The text of the declaration says all of it: its types are laid out faithfully, and what an
interface extends needs no parentheses. -/
def Declaration.Faithful (style : Style) : Declaration → Prop
  | .typeAlias _ type _ => Source.Faithful style 0 .afterToken type
  | .interface _ parents members _ =>
    (∀ type ∈ parents, type.hasOperator = false ∧ Source.Faithful style 0 .lineStart type) ∧
      Source.Faithful style 0 .lineStart (.object members)

theorem Declaration.Writable.sound {declaration : Declaration}
    (h : declaration.Writable strict) : declaration.Sound := by
  cases declaration with
  | typeAlias _ _ _ => exact ⟨h.1, h.2.sound⟩
  | interface _ _ _ _ =>
    exact ⟨h.1, fun type ht => (h.2.1 type ht).1.sound, TypeExpr.sound_object.1 h.2.2.sound⟩

theorem Declaration.Writable.faithful {declaration : Declaration}
    (h : declaration.Writable strict) : declaration.Faithful style := by
  cases declaration with
  | typeAlias _ _ _ => exact faithful_of_writable h.2 0 .afterToken
  | interface _ _ _ _ =>
    exact ⟨fun type ht => ⟨(h.2.1 type ht).2, faithful_of_writable (h.2.1 type ht).1 0 .lineStart⟩,
      faithful_of_writable h.2.2 0 .lineStart⟩

theorem Declaration.Writable.sound_faithful {declaration : Declaration}
    (h : declaration.Writable strict) : declaration.Sound ∧ declaration.Faithful style :=
  ⟨h.sound, h.faithful⟩

namespace Source

/-! ## Declarations -/

/-- A declaration with the words in front and the semicolon behind that may come with it. -/
def MarkedForm (declaration : Declaration) (tokens : List Token) : Prop :=
  ∃ ts terminated, DeclarationForm declaration ts ∧
    tokens = .name "export" :: (ts ++ (Token.symbol ';').when terminated)

/-- What is printed behind `=` is printed behind the head of an alias. -/
theorem prints_aliasHead {name : String} (hname : isIdentifier name = true) {tokens : List Token}
    {text : List Char} (h : Prints tokens text) :
    Prints (.name "export" :: .name "type" :: .name name :: .symbol '=' :: tokens)
      (("export type " ++ name ++ " =").toList ++ text) := by
  have hequals := (Prints.symbol (c := '=') (by decide) h).space
  have hnamed := (Prints.identifier hname (apart_space _) hequals).space
  have hword : isIdentifier "type" = true := by decide
  have hexport : isIdentifier "export" = true := by decide
  have htyped := (Prints.identifier hword (apart_space _) hnamed).space
  have hline := Prints.identifier hexport (apart_space _) htyped
  simpa only [String.toList_append, String.reduceToList, List.append_assoc, List.cons_append,
    List.nil_append] using hline

theorem printsAs_typeAlias {name : String} {type : TypeExpr} {comment : Option String}
    (hs : (Declaration.typeAlias name type comment).Sound)
    (hf : (Declaration.typeAlias name type comment).Faithful style) :
    PrintsAs MarkedForm ((Declaration.typeAlias name type comment).remains true)
      ((Declaration.typeAlias name type comment).layout style) := by
  obtain ⟨hname, htype⟩ := hs
  obtain ⟨terminated, hmark, hapart⟩ := prints_terminator style
  obtain ⟨tokens, hform, hprints⟩ := (laidOut_of_faithful hf htype).bare
    (("export type " ++ name ++ " =").utf8ByteSize + 1) (terminator style).utf8ByteSize
  rw [Declaration.layout]
  generalize type.layout style 0 _ _ _ = body at hprints ⊢
  obtain ⟨gap, hgap, hput⟩ := putAfter_eq ("export type " ++ name ++ " =") body
  refine ⟨_, ⟨_, terminated, .typeAlias hname hform.written, rfl⟩, ?_⟩
  have hbody := Prints.blanks hgap (hprints.append hmark hapart)
  have hall := Prints.blanks (blanks_commentBlock comment 0) (prints_aliasHead hname hbody)
  rw [hput]
  simpa only [String.toList_append, List.append_assoc, List.cons_append, List.nil_append] using hall

theorem printsAs_parents {parents : List TypeExpr}
    (hs : ∀ type ∈ parents, type.Sound)
    (hf : ∀ type ∈ parents, type.hasOperator = false ∧ Faithful style 0 .lineStart type) :
    PrintsAs ParentsForm (parents.map (TypeExpr.remains true))
      (if parents.isEmpty then ""
        else " extends " ++ ", ".intercalate (layouts style 0 0 parents)) := by
  cases parents with
  | nil => exact ⟨[], .nil, prints_nil⟩
  | cons type types =>
    have htexts : List.Forall₂ (PrintsAs (ArrayForm Written))
        ((type :: types).map (TypeExpr.remains true)) (layouts style 0 0 (type :: types)) := by
      refine List.forall₂_map_left_iff.2 (forall₂_of_mem (layouts_forall₂ (type :: types)) ?_)
      rintro t ht _ rfl
      obtain ⟨hop, hfaithful⟩ := hf t ht
      refine ((laidOut_of_faithful hfaithful (hs t ht)).bare 0 0).imp fun _ hform => hform.array ?_
      rwa [TypeExpr.hasOperator_remains]
    obtain ⟨ts, hform, hprints⟩ := printsAs_intercalate separates_comma htexts (by simp)
    refine ⟨_, .parents hform, ?_⟩
    have hword : isIdentifier "extends" = true := by decide
    have hall := (Prints.identifier hword (apart_space _) hprints.space).space
    simpa only [List.isEmpty_cons, Bool.false_eq_true, if_false, String.toList_append,
      String.reduceToList, List.cons_append, List.nil_append] using hall

theorem apart_parents (parents : List TypeExpr) {text : List Char} (h : Apart text) :
    Apart ((if parents.isEmpty then ""
      else " extends " ++ ", ".intercalate (layouts style 0 0 parents)).toList ++ text) := by
  cases parents with
  | nil => exact h
  | cons _ _ =>
    simp only [List.isEmpty_cons, Bool.false_eq_true, if_false, String.toList_append,
      String.reduceToList, List.cons_append]
    exact apart_space _

theorem printsAs_interface {name : String} {parents : List TypeExpr} {members : List Member}
    {comment : Option String}
    (hs : (Declaration.interface name parents members comment).Sound)
    (hf : (Declaration.interface name parents members comment).Faithful style) :
    PrintsAs MarkedForm ((Declaration.interface name parents members comment).remains true)
      ((Declaration.interface name parents members comment).layout style) := by
  obtain ⟨hname, hparents, hmembers⟩ := hs
  obtain ⟨hfparents, hfmembers⟩ := hf
  obtain ⟨parentTokens, hparentForm, hprintsParents⟩ := printsAs_parents hparents hfparents
  obtain ⟨_, ⟨ts, hform, rfl⟩, hprints⟩ := printsAs_faithfulBlock hmembers hfmembers
  rw [Declaration.remains, remainsOfTypes_eq, remainsOfMembers_eq]
  refine ⟨_, ⟨_, false, .interface hname hparentForm hform, rfl⟩, ?_⟩
  have hbody := hprintsParents.append hprints.space (apart_space _)
  have hnamed := (Prints.identifier hname (apart_parents parents (apart_space _)) hbody).space
  have hword : isIdentifier "interface" = true := by decide
  have hexport : isIdentifier "export" = true := by decide
  have hinterface := (Prints.identifier hword (apart_space _) hnamed).space
  have hline := Prints.identifier hexport (apart_space _) hinterface
  have hall := Prints.blanks (blanks_commentBlock comment 0) hline
  rw [Declaration.layout]
  simpa only [Token.when, Bool.false_eq_true, if_false, List.append_nil, String.toList_append,
    String.reduceToList, List.append_assoc, List.cons_append, List.nil_append] using hall

theorem printsAs_declaration {declaration : Declaration} (hs : declaration.Sound)
    (hf : declaration.Faithful style) :
    PrintsAs MarkedForm (declaration.remains true) (declaration.layout style) := by
  cases declaration with
  | typeAlias _ _ _ => exact printsAs_typeAlias hs hf
  | interface _ _ _ _ => exact printsAs_interface hs hf

/-- The declarations of a file without its banner, in front of others. -/
theorem printsAs_body {declarations others : Declarations} {rest : String}
    (h : ∀ declaration ∈ declarations, declaration.Sound ∧ declaration.Faithful style)
    (hr : PrintsAs DeclarationsForm others rest) :
    PrintsAs DeclarationsForm (declarations.map (Declaration.remains true) ++ others)
      (declarations.body style ++ rest) := by
  induction declarations with
  | nil => simpa [Declarations.body] using hr
  | cons declaration declarations ih =>
    obtain ⟨⟨hs, hf⟩, hothers⟩ := List.forall_mem_cons.1 h
    obtain ⟨_, ⟨ts, terminated, hform, rfl⟩, hprints⟩ := printsAs_declaration hs hf
    obtain ⟨more, hforms, hmore⟩ := ih hothers
    refine ⟨_, .cons true false terminated hform hforms, ?_⟩
    have hall := hprints.append hmore.newline (apart_newline _)
    simpa only [Declarations.body, List.map_cons, String.join_cons, String.toList_append,
      String.reduceToList, Token.when, if_true, Bool.false_eq_true, if_false, List.append_assoc,
      List.cons_append, List.nil_append] using hall

/-- A banner of comments is blank. -/
theorem printsAs_render {declarations others : Declarations} {rest : String}
    (hb : style.BannerIsComment)
    (h : ∀ declaration ∈ declarations, declaration.Sound ∧ declaration.Faithful style)
    (hr : PrintsAs DeclarationsForm others rest) :
    PrintsAs DeclarationsForm (declarations.map (Declaration.remains true) ++ others)
      (declarations.render style ++ rest) := by
  have hbody := printsAs_body h hr
  rw [Declarations.render]
  split
  · rwa [String.empty_append]
  · rw [String.append_assoc]
    refine hbody.blanks ?_
    have hbanner := hb.append (.space (c := '\n') (by decide) .nil)
    simpa using hbanner

theorem printsAs_nothing : PrintsAs DeclarationsForm [] "" := ⟨[], .nil, prints_nil⟩

end Source

/-! ## Files -/

/-- Declarations with a faithful text are read back as what is left of them. -/
theorem Declarations.ofSource_faithful {declarations : Declarations} (hb : style.BannerIsComment)
    (h : ∀ declaration ∈ declarations, declaration.Sound ∧ declaration.Faithful style) :
    Declarations.ofSource (declarations.render style)
      = .ok (declarations.map (Declaration.remains true)) := by
  have hall := printsAs_render hb h printsAs_nothing
  rw [List.append_nil, String.append_empty] at hall
  obtain ⟨tokens, hform, hprints⟩ := hall
  exact Declarations.ofSource_spells hform hprints.spells

/-- Declarations that can be written are read back as what is left of them. -/
theorem Declarations.ofSource_remains {declarations : Declarations} (hb : style.BannerIsComment)
    (h : ∀ declaration ∈ declarations, declaration.Writable strict) :
    Declarations.ofSource (declarations.render style)
      = .ok (declarations.map (Declaration.remains true)) :=
  ofSource_faithful hb fun declaration hd => (h declaration hd).sound_faithful

/-- Printable declarations are read back as they are, but for comments and the form of numbers. -/
theorem Declarations.ofSource_render {declarations : Declarations} (hb : style.BannerIsComment)
    (h : ∀ declaration ∈ declarations, declaration.Printable) :
    Declarations.ofSource (declarations.render style)
      = .ok (declarations.map Declaration.plain) := by
  rw [Declarations.ofSource_remains hb h,
    List.map_congr_left fun d hd => Declaration.remains_of_printable (h d hd)]

/-- A union on a page without width, below a banner. -/
theorem Declarations.ofSource_render_limit :
    Declarations.ofSource (Declarations.render { bannerComment := "// generated", printWidth := 0 }
      [.typeAlias "Limit" (.union [.literal (.number "1.50"), .null]) (some "At most.")])
      = .ok [.typeAlias "Limit" (.union [.literal (.number "1.5"), .null]) none] := by
  have hbanner : Style.BannerIsComment { bannerComment := "// generated", printWidth := 0 } :=
    show Blanks ('/' :: '/' :: (" generated".toList ++ '\n' :: [])) from
      .lineComment (by decide) .nil
  have hnumber : IsNumber "1.50".toList :=
    ⟨⟨false, ['1'], ['5', '0'], none⟩, ⟨by simp, by simp, by simp, by simp⟩, rfl⟩
  refine (Declarations.ofSource_render hbanner fun d hd => ?_).trans rfl
  obtain rfl := List.mem_singleton.1 hd
  refine ⟨by decide, TypeExpr.writable_union.2 ⟨by simp [TypeExpr.isUnion], ?_⟩⟩
  refine List.forall_mem_cons.2
    ⟨TypeExpr.writable_literal.2 hnumber, List.forall_mem_singleton.2 ?_⟩
  simp [TypeExpr.Writable, TypeExpr.parts, TypeExpr.Fit]

end LintTypes
