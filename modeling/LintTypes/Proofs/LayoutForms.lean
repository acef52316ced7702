import LintTypes.Proofs.OneLineForms

/-!
# Laid-out types are written forms

The text of a type at a place in a file prints what is left of the type, wherever the place is and
whichever lines are broken. So do the texts of members, and with them the text between braces.

Two things can go wrong. The type in an index signature is lost if it has no one-line form, and a
union that is broken right behind a bar of the union around it puts two bars next to each other.
`Faithful` rules out both. It speaks of where a type stands when everything around it is broken; a
type that fits on the line takes its parts onto the line.
-/

namespace LintTypes.Source

open Layout

variable {strict : Bool} {style : Style} {tokens : List Token} {indent column tail : Nat}
  {opening : Opening}

/-! ## Lines -/

theorem blanks_pad (width : Nat) : Blanks (pad width).toList := by
  rw [toList_pad]
  exact blanks_replicate width

theorem blanks_lineBreak (width : Nat) : Blanks (lineBreak width).toList := by
  have := Blanks.space (c := '\n') (by decide) (blanks_pad width)
  simpa [lineBreak] using this

/-- A prefix that all lines have may be counted among the separators. -/
theorem intercalate_map_append (gap before : String) (line : String) (lines : List String) :
    gap.intercalate ((line :: lines).map (before ++ ·))
      = before ++ (gap ++ before).intercalate (line :: lines) := by
  induction lines generalizing line with
  | nil => simp
  | cons next lines ih =>
    have := ih next
    simp only [List.map_cons, String.intercalate_cons_cons, String.append_assoc] at this ⊢
    rw [this]

theorem separates_newline_comma (width : Nat) :
    Separates ',' ("," ++ "\n" ++ pad width).toList := by
  refine ⟨by decide, [], '\n' :: (pad width).toList, by simp, .nil, ?_⟩
  exact .space (by decide) (blanks_pad width)

theorem separates_newline_bar (width : Nat) : Separates '|' (lineBreak width ++ "| ").toList := by
  refine ⟨by decide, (lineBreak width).toList, [' '], by simp, blanks_lineBreak width, ?_⟩
  exact .space (by decide) .nil

/-! ## Texts of lists -/

theorem layouts_forall₂ (types : List TypeExpr) :
    List.Forall₂ (fun type text => text = type.layout style indent column 0 .lineStart) types
      (layouts style indent column types) := by
  induction types with
  | nil => exact .nil
  | cons type types ih => exact .cons rfl ih

theorem factorLayouts_forall₂ (types : List TypeExpr) :
    List.Forall₂ (fun type text => ∃ column tail,
      text = parenthesized type.isUnion (type.layout style indent column tail .lineStart)) types
      (factorLayouts style indent column types) := by
  induction types with
  | nil => exact .nil
  | cons type types ih =>
    cases type with
    | union members => exact .cons ⟨column + 1, 1, rfl⟩ ih
    | _ => exact .cons ⟨column, 0, rfl⟩ ih

theorem slotLayouts_forall₂ (slots : List Slot) :
    List.Forall₂ (fun slot text => text = slot.layout style indent) slots
      (slotLayouts style indent slots) := by
  induction slots with
  | nil => exact .nil
  | cons slot slots ih => exact .cons rfl ih

theorem memberLayouts_forall₂ (members : List Member) :
    List.Forall₂ (fun member text => text = member.layout style indent) members
      (memberLayouts style indent members) := by
  induction members with
  | nil => exact .nil
  | cons member members ih => exact .cons rfl ih

/-- The members of a broken union as they are laid out behind their bars. -/
def barLayouts (style : Style) (indent : Nat) (types : List TypeExpr) : List String :=
  types.map fun type => type.layout style (indent + 2) (indent + 2) 0 .lineStart

theorem bars_eq (types : List TypeExpr) :
    bars style indent types = (barLayouts style indent types).map ("| " ++ ·) := by
  induction types with
  | nil => rfl
  | cons type types ih =>
    rw [bars, ih]
    rfl

/-- A broken union whose first line is indented already. -/
theorem intercalate_bars (types : List TypeExpr) (hne : types ≠ []) :
    (lineBreak indent).intercalate (bars style indent types)
      = "| " ++ (lineBreak indent ++ "| ").intercalate (barLayouts style indent types) := by
  cases types with
  | nil => exact absurd rfl hne
  | cons type types =>
    rw [bars_eq, barLayouts, List.map_cons, intercalate_map_append]

/-- A broken union on lines of its own. -/
theorem indentedLines_bars (types : List TypeExpr) (hne : types ≠ []) :
    indentedLines indent "" (bars style indent types)
      = pad indent
        ++ ("| " ++ (lineBreak indent ++ "| ").intercalate (barLayouts style indent types)) := by
  have hbars : bars style indent types ≠ [] := by
    cases types with
    | nil => exact absurd rfl hne
    | cons type types => simp [bars]
  obtain ⟨bar, others, hcons⟩ := List.exists_cons_of_ne_nil hbars
  rw [indentedLines, hcons, intercalate_map_append, ← hcons, ← intercalate_bars types hne]
  rfl

/-! ## Faithful layouts -/

/-- Where the bars of a broken union stand. -/
def barIndent (indent : Nat) : Opening → Nat
  | .afterToken => indent + step
  | .lineStart => indent

/-- The text of the type begins with a bar: it is a union that neither fits on the line nor stays on
the line of an object type. -/
def BeginsWithBar (style : Style) (column tail : Nat) : TypeExpr → Prop
  | .union members =>
    wrapsInline members = false ∧ fitting? style (.union members) column tail = none
  | _ => False

/-- The text of the member has all of its key. -/
def KeyShown (style : Style) (member : Member) : Prop :=
  ∀ param type, member.key = .index param type → (type.oneLine? style).isSome = true

/-- The text of a type in a block says all of the type: keys of members are shown, and no bar stands
right behind another one. -/
inductive Faithful (style : Style) : Nat → Opening → TypeExpr → Prop where
  /-- Words stand for themselves. -/
  | keyword {indent : Nat} {opening : Opening} (word : Keyword) :
      Faithful style indent opening (.keyword word)
  /-- Literals stand for themselves. -/
  | literal {indent : Nat} {opening : Opening} (value : Literal) :
      Faithful style indent opening (.literal value)
  /-- Arguments stay in the block. -/
  | reference {indent : Nat} {opening : Opening} {name : String} {args : List TypeExpr}
      (h : ∀ type ∈ args, Faithful style indent .lineStart type) :
      Faithful style indent opening (.reference name args)
  /-- An element without bars stays in the block. -/
  | element {indent : Nat} {opening : Opening} {element : TypeExpr}
      (hu : element.isUnion = false) (h : ∀ opening, Faithful style indent opening element) :
      Faithful style indent opening (.array element)
  /-- A union in front of `[]` is broken in parentheses. -/
  | unionElement {indent : Nat} {opening : Opening} {members : List TypeExpr}
      (h : ∀ type ∈ members, Faithful style (indent + step + 2) .lineStart type)
      (hb : ∀ type ∈ members, ¬ BeginsWithBar style (indent + step + 2) 0 type) :
      Faithful style indent opening (.array (.union members))
  /-- The slots of a broken tuple form a block. -/
  | tuple {indent : Nat} {opening : Opening} {slots : List Slot}
      (h : ∀ slot ∈ slots, Faithful style (indent + step) .lineStart slot.type) :
      Faithful style indent opening (.tuple slots)
  /-- The members of an object type form a block. -/
  | object {indent : Nat} {opening : Opening} {members : List Member}
      (hk : ∀ member ∈ members, KeyShown style member)
      (h : ∀ member ∈ members, Faithful style (indent + step) .afterToken member.type) :
      Faithful style indent opening (.object members)
  /-- A union on the line of its object type has no bars at line starts. -/
  | wrapped {indent : Nat} {opening : Opening} {members : List TypeExpr}
      (hw : wrapsInline members = true)
      (h : ∀ type ∈ members, Faithful style indent .lineStart type) :
      Faithful style indent opening (.union members)
  /-- Behind the bars of a broken union no type begins with a bar. -/
  | bars {indent : Nat} {opening : Opening} {members : List TypeExpr}
      (hw : wrapsInline members = false)
      (h : ∀ type ∈ members, Faithful style (barIndent indent opening + 2) .lineStart type)
      (hb : ∀ type ∈ members, ¬ BeginsWithBar style (barIndent indent opening + 2) 0 type) :
      Faithful style indent opening (.union members)
  /-- Factors stay in the block. -/
  | intersection {indent : Nat} {opening : Opening} {members : List TypeExpr}
      (h : ∀ type ∈ members, Faithful style indent .lineStart type) :
      Faithful style indent opening (.intersection members)

/-- Wherever it starts and whatever follows it, the text of a type in a block prints what is left of
the type, without a bar in front unless it is broken. -/
structure LaidOut (style : Style) (indent : Nat) (opening : Opening) (type : TypeExpr) : Prop where
  bare (column tail : Nat) : PrintsAs BareForm (type.remains true)
    (type.layout style indent column tail opening)
  flat (column tail : Nat) (hb : ¬ BeginsWithBar style column tail type) :
    PrintsAs FlatForm (type.remains true) (type.layout style indent column tail opening)

theorem LaidOut.of_bare {type : TypeExpr} (hu : type.isUnion = false)
    (h : ∀ column tail, PrintsAs BareForm (type.remains true)
      (type.layout style indent column tail opening)) : LaidOut style indent opening type :=
  ⟨h, fun column tail _ => (h column tail).imp fun _ hf =>
    hf.flat (by rwa [TypeExpr.isUnion_remains])⟩

theorem LaidOut.alternatives {type : TypeExpr} (h : LaidOut style indent opening type)
    (hb : ¬ BeginsWithBar style column tail type) :
    PrintsAs AlternativesForm (type.remains true)
      (type.layout style indent column tail opening) :=
  (h.flat column tail hb).imp fun _ hf => hf.alternatives

/-! ## Fitting types -/

theorem fitting?_eq_some {type : TypeExpr} {text : String}
    (h : fitting? style type column tail = some text) : type.oneLine? style = some text :=
  Option.eq_some_of_filter_eq_some h

/-- A type is printed if the text for the case that it does not fit prints it. -/
theorem printsAs_getD {type : TypeExpr} {broken : String} (h : type.Sound)
    (hb : PrintsAs BareForm (type.remains true) broken) :
    PrintsAs BareForm (type.remains true) ((fitting? style type column tail).getD broken) := by
  cases hfit : fitting? style type column tail with
  | none => exact hb
  | some text => exact (oneLine?_printsAs h (fitting?_eq_some hfit)).imp fun _ hf => hf.bare

theorem PrintsAs.blanks {α : Type} {form : α → List Token → Prop} {a : α} {text blanks : String}
    (hb : Blanks blanks.toList) (h : PrintsAs form a text) : PrintsAs form a (blanks ++ text) := by
  obtain ⟨tokens, hform, hprints⟩ := h
  refine ⟨tokens, hform, ?_⟩
  rw [String.toList_append]
  exact hprints.blanks hb

/-! ## Members -/

/-- The body behind a head is set off by blanks. -/
theorem putAfter_eq (head body : String) :
    ∃ gap : String, Blanks gap.toList ∧ putAfter head body = head ++ (gap ++ body) := by
  unfold putAfter
  split
  · exact ⟨"", .nil, by rw [String.append_empty, String.empty_append]⟩
  · exact ⟨" ", .space (by decide) .nil, by rw [String.append_assoc]⟩

theorem prints_terminator (style : Style) :
    ∃ terminated, Prints ((Token.symbol ';').when terminated) (terminator style).toList ∧
      Apart (terminator style).toList := by
  unfold terminator
  cases style.semi
  · exact ⟨false, prints_nil, apart_nil⟩
  · exact ⟨true, Prints.symbol (c := ';') (by decide) prints_nil, apart_symbol (by decide) _⟩

theorem Prints.optionalMark {text : List Char} (isOptional : Bool) (h : Prints tokens text) :
    Prints ((Token.symbol '?').when isOptional ++ tokens)
      ((if isOptional then "?" else "").toList ++ text) := by
  cases isOptional
  · exact h
  · exact Prints.symbol (c := '?') (by decide) h

theorem apart_optionalMark {text : List Char} (isOptional : Bool) (h : Apart text) :
    Apart ((if isOptional then "?" else "").toList ++ text) := by
  cases isOptional
  · exact h
  · exact apart_symbol (by decide) _

theorem Prints.readonlyMark {text : List Char} (isReadonly : Bool) (h : Prints tokens text) :
    Prints ((Token.name "readonly").when isReadonly ++ tokens)
      ((if isReadonly then "readonly " else "").toList ++ text) := by
  cases isReadonly
  · exact h
  · have hword : isIdentifier "readonly" = true := by decide
    exact Prints.identifier hword (apart_space _) h.space

/-- A member with the mark that may end it. -/
def TerminatedForm (member : Member) (tokens : List Token) : Prop :=
  ∃ ts terminated, MemberForm Written member ts ∧
    tokens = ts ++ (Token.symbol ';').when terminated

theorem printsAs_members {members : List Member} {texts : List String}
    (h : List.Forall₂ (PrintsAs TerminatedForm) members texts) :
    PrintsAs (MembersForm Written) members ("\n".intercalate texts) := by
  induction h with
  | nil => exact ⟨[], .nil, by simpa using prints_nil⟩
  | @cons member text members texts hm hs ih =>
    obtain ⟨_, ⟨ts, terminated, hform, rfl⟩, hprints⟩ := hm
    have hsep : (Token.symbol ';').when terminated = [] ∨
        (Token.symbol ';').when terminated = [.symbol ';'] ∨
        (Token.symbol ';').when terminated = [.symbol ','] := by
      cases terminated
      · exact Or.inl rfl
      · exact Or.inr (Or.inl rfl)
    cases hs with
    | nil => exact ⟨_, .cons hform hsep .nil, by simpa using hprints⟩
    | @cons next text' members texts hnext hs =>
      obtain ⟨more, hforms, hmore⟩ := ih
      have hboth := hprints.append hmore.newline (apart_newline _)
      refine ⟨_, .cons hform hsep hforms, ?_⟩
      simpa using hboth

/-- What a member is found under, whose key type has a one-line form. -/
theorem printsAs_key {member : Member} (h : member.Sound) (hs : KeyShown style member) :
    PrintsAs (KeyForm Written) (member.key.remains true) (keyText style member.key) := by
  cases hk : member.key with
  | named name =>
    rw [MemberKey.remains, keyText, propertyName]
    split
    · rename_i hid
      exact ⟨_, .bare hid, by simpa using Prints.identifier hid apart_nil prints_nil⟩
    · exact ⟨_, .quoted name, by simpa using Prints.string style.singleQuote name prints_nil⟩
  | index param type =>
    have hparam : isIdentifier param = true := by
      have hspelled := h.1
      rwa [hk] at hspelled
    have htype : type.Sound := (forall_parts_member.1 h.2).2 param type hk
    obtain ⟨text, htext⟩ := Option.isSome_iff_exists.1 (hs param type hk)
    obtain ⟨ts, hform, hprints⟩ := oneLine?_printsAs htype htext
    refine ⟨_, .index hparam hform.bare.written, ?_⟩
    have hclose := hprints.append (Prints.symbol (c := ']') (by decide) prints_nil)
      (apart_symbol (by decide) _)
    have hcolon := Prints.symbol (c := ':') (by decide) hclose.space
    have hname := Prints.identifier hparam (apart_symbol (by decide) _) hcolon
    have hopen := Prints.symbol (c := '[') (by decide) hname
    simpa [keyText, htext] using hopen

/-- The text of a member prints what is left of it, if the text of its type does. -/
theorem printsAs_member {member : Member} (h : member.Sound) (hs : KeyShown style member)
    (ht : LaidOut style indent .afterToken member.type) :
    PrintsAs TerminatedForm (member.remains true) (member.layout style indent) := by
  obtain ⟨keyTokens, hkey, hprintsKey⟩ := printsAs_key h hs
  obtain ⟨key, type, isOptional, isReadonly, comment⟩ := member
  obtain ⟨terminated, hmark, hapart⟩ := prints_terminator style
  rw [Member.layout]
  obtain ⟨typeTokens, htype, hprintsType⟩ := ht.bare
    ((memberHead style ⟨key, type, isOptional, isReadonly, comment⟩ indent).utf8ByteSize + 1)
    (terminator style).utf8ByteSize
  dsimp only at hprintsType hprintsKey hkey
  generalize type.layout style indent _ _ _ = body at hprintsType ⊢
  obtain ⟨gap, hgap, hput⟩ :=
    putAfter_eq (memberHead style ⟨key, type, isOptional, isReadonly, comment⟩ indent) body
  refine ⟨_, ⟨_, terminated, .member isOptional isReadonly hkey htype.written, rfl⟩, ?_⟩
  have hbody := Prints.blanks hgap (hprintsType.append hmark hapart)
  have hcolon := Prints.symbol (c := ':') (by decide) hbody
  have hkeyed := hprintsKey.append (hcolon.optionalMark isOptional)
    (apart_optionalMark isOptional (apart_symbol (by decide) _))
  have hline := Prints.blanks (blanks_pad indent) (hkeyed.readonlyMark isReadonly)
  have hall := Prints.blanks (blanks_commentBlock comment indent) hline
  rw [hput]
  simpa only [memberHead, String.toList_append, String.reduceToList, List.append_assoc,
    List.cons_append, List.nil_append] using hall

/-- Members between braces, on lines of their own. -/
theorem printsAs_membersBlock {members : List Member} (h : ∀ member ∈ members, member.Sound)
    (hs : ∀ member ∈ members, KeyShown style member)
    (ht : ∀ member ∈ members, LaidOut style (indent + step) .afterToken member.type) :
    PrintsAs BlockForm (members.map (Member.remains true)) (membersBlock style indent members) := by
  have htexts : List.Forall₂ (PrintsAs TerminatedForm) (members.map (Member.remains true))
      (memberLayouts style (indent + step) members) := by
    refine List.forall₂_map_left_iff.2 (forall₂_of_mem (memberLayouts_forall₂ members) ?_)
    rintro member hm _ rfl
    exact printsAs_member (h member hm) (hs member hm) (ht member hm)
  obtain ⟨ts, hform, hprints⟩ := printsAs_members htexts
  cases members with
  | nil => exact printsAs_emptyBlock
  | cons member members =>
    refine ⟨_, ⟨ts, hform, rfl⟩, ?_⟩
    have hclose := Prints.blanks (blanks_lineBreak indent)
      (Prints.symbol (c := '}') (by decide) prints_nil)
    have hapart : Apart ((lineBreak indent).toList ++ ['}']) :=
      (blanks_lineBreak indent).apart (apart_symbol (by decide) _)
    have hbody := (hprints.append hclose hapart).newline
    have hopen := Prints.symbol (c := '{') (by decide) hbody
    simpa only [membersBlock, memberLayouts, String.toList_append, String.reduceToList,
      List.append_assoc, List.cons_append, List.nil_append] using hopen

/-! ## Slots -/

theorem printsAs_slotLayout {slot : Slot} (ht : LaidOut style indent .lineStart slot.type) :
    PrintsAs (SlotForm Written) (slot.remains true) (slot.layout style indent) := by
  obtain ⟨type, isOptional, isRest⟩ := slot
  rw [Slot.layout]
  refine printsAs_slot isOptional isRest ?_
  split
  · exact printsAs_parenthesized true (ht.bare ..)
  · exact printsAs_parenthesized false (ht.bare ..)

/-- Slots on lines of their own. -/
theorem printsAs_slotLines {slots : List Slot}
    (ht : ∀ slot ∈ slots, LaidOut style (indent + step) .lineStart slot.type) :
    PrintsAs BareForm (.tuple (slots.map (Slot.remains true)))
      ("[\n" ++ indentedLines (indent + step) "," (slotLayouts style (indent + step) slots)
        ++ lineBreak indent ++ "]") := by
  have htexts : List.Forall₂ (PrintsAs (SlotForm Written)) (slots.map (Slot.remains true))
      (slotLayouts style (indent + step) slots) := by
    refine List.forall₂_map_left_iff.2 (forall₂_of_mem (slotLayouts_forall₂ slots) ?_)
    rintro slot hs _ rfl
    exact printsAs_slotLayout (ht slot hs)
  have hbreak := blanks_lineBreak indent
  cases hlines : slotLayouts style (indent + step) slots with
  | nil =>
    rw [hlines] at htexts
    have htuple := @printsAs_tuple _ _ ", " "\n" (lineBreak indent) separates_comma
      (.space (by decide) .nil) hbreak htexts
    simpa [indentedLines, String.append_assoc] using htuple
  | cons line lines =>
    rw [hlines] at htexts
    have hblank : Blanks ("\n" ++ pad (indent + step)).toList := by
      simpa using Blanks.space (c := '\n') (by decide) (blanks_pad (indent + step))
    have htuple := printsAs_tuple (separates_newline_comma (indent + step)) hblank hbreak htexts
    have hopen : "[\n" = "[" ++ "\n" := rfl
    rw [indentedLines, intercalate_map_append, hopen]
    simpa only [String.append_assoc] using htuple

/-! ## Unions -/

theorem barLayouts_forall₂ {members : List TypeExpr}
    (h : ∀ type ∈ members, LaidOut style (indent + 2) .lineStart type)
    (hb : ∀ type ∈ members, ¬ BeginsWithBar style (indent + 2) 0 type) :
    List.Forall₂ (PrintsAs AlternativesForm) (members.map (TypeExpr.remains true))
      (barLayouts style indent members) := by
  induction members with
  | nil => exact .nil
  | cons type types ih =>
    obtain ⟨hfirst, hothers⟩ := List.forall_mem_cons.1 h
    obtain ⟨hbfirst, hbothers⟩ := List.forall_mem_cons.1 hb
    exact .cons (hfirst.alternatives hbfirst) (ih hothers hbothers)

/-- The lines of a broken union print what is left of the union. -/
theorem printsAs_bars {members : List TypeExpr} (h2 : 2 ≤ members.length)
    (h : ∀ type ∈ members, LaidOut style (indent + 2) .lineStart type)
    (hb : ∀ type ∈ members, ¬ BeginsWithBar style (indent + 2) 0 type) :
    PrintsAs BareForm ((TypeExpr.union members).remains true)
      ("| " ++ (lineBreak indent ++ "| ").intercalate (barLayouts style indent members)) := by
  rw [remains_union_eq]
  exact printsAs_union_bar (separates_newline_bar indent) (barLayouts_forall₂ h hb)
    (by rwa [List.length_map])

theorem ne_nil_of_length {members : List TypeExpr} (h2 : 2 ≤ members.length) : members ≠ [] := by
  rintro rfl
  simp at h2

/-- A union on lines of its own. -/
theorem printsAs_barLines {members : List TypeExpr} (h2 : 2 ≤ members.length)
    (h : ∀ type ∈ members, LaidOut style (indent + 2) .lineStart type)
    (hb : ∀ type ∈ members, ¬ BeginsWithBar style (indent + 2) 0 type) :
    PrintsAs BareForm ((TypeExpr.union members).remains true)
      ("\n" ++ indentedLines indent "" (bars style indent members)) := by
  rw [indentedLines_bars members (ne_nil_of_length h2)]
  exact ((printsAs_bars h2 h hb).blanks (blanks_pad indent)).blanks (.space (by decide) .nil)

/-- Nothing that stays on the line of an object type is a union. -/
theorem not_union_of_wrapsInline {members : List TypeExpr} (hw : wrapsInline members = true) :
    ∀ type ∈ members, type.isUnion = false := by
  intro type ht
  rw [wrapsInline, Bool.and_eq_true, List.all_eq_true] at hw
  have hhuggable := hw.2 type ht
  cases type with
  | union _ => cases hhuggable
  | _ => rfl

theorem not_beginsWithBar {type : TypeExpr} (hu : type.isUnion = false) :
    ¬ BeginsWithBar style column tail type := by
  cases type with
  | union _ => cases hu
  | _ => exact id

/-- A union on the line of its object type. -/
theorem laidOut_wrapped {members : List TypeExpr} (hs : (TypeExpr.union members).Sound)
    (hw : wrapsInline members = true)
    (h : ∀ type ∈ members, LaidOut style indent .lineStart type) :
    LaidOut style indent opening (.union members) := by
  obtain ⟨h2, -⟩ := TypeExpr.sound_union.1 hs
  have hflat (column tail : Nat) : PrintsAs FlatForm ((TypeExpr.union members).remains true)
      ((TypeExpr.union members).layout style indent column tail opening) := by
    unfold TypeExpr.layout
    rw [if_pos hw]
    cases hfit : fitting? style (.union members) column tail with
    | some text => exact oneLine?_printsAs hs (fitting?_eq_some hfit)
    | none =>
      rw [remains_union_eq]
      refine printsAs_union separates_bar (forall₂_remains ?_) (by rwa [List.length_map])
      refine forall₂_of_mem (layouts_forall₂ members) ?_
      rintro type ht _ rfl
      exact (h type ht).alternatives (not_beginsWithBar (not_union_of_wrapsInline hw type ht))
  exact ⟨fun column tail => (hflat column tail).imp fun _ hf => hf.bare,
    fun column tail _ => hflat column tail⟩

/-- A union that is broken unless it fits. -/
theorem laidOut_bars {members : List TypeExpr} (hs : (TypeExpr.union members).Sound)
    (hw : wrapsInline members = false)
    (h : ∀ type ∈ members, LaidOut style (barIndent indent opening + 2) .lineStart type)
    (hb : ∀ type ∈ members, ¬ BeginsWithBar style (barIndent indent opening + 2) 0 type) :
    LaidOut style indent opening (.union members) := by
  obtain ⟨h2, -⟩ := TypeExpr.sound_union.1 hs
  constructor
  · intro column tail
    unfold TypeExpr.layout
    refine printsAs_getD hs ?_
    rw [if_neg (by simp [hw])]
    cases opening with
    | afterToken => exact printsAs_barLines h2 h hb
    | lineStart =>
      simp only [intercalate_bars members (ne_nil_of_length h2)]
      exact printsAs_bars h2 h hb
  · intro column tail hbar
    unfold TypeExpr.layout
    cases hfit : fitting? style (.union members) column tail with
    | some text => exact oneLine?_printsAs hs (fitting?_eq_some hfit)
    | none => exact absurd ⟨hw, hfit⟩ hbar

/-! ## Arrays -/

theorem union_parenthesized_eq (indent : Nat) (lines : String) :
    "(\n" ++ lines ++ lineBreak indent ++ ")[]"
      = ("(" ++ ("\n" ++ lines ++ lineBreak indent) ++ ")") ++ "[]" := by
  have hopen : "(\n" = "(" ++ "\n" := rfl
  have hclose : ")[]" = ")" ++ "[]" := rfl
  rw [hopen, hclose]
  simp only [String.append_assoc]

theorem PrintsAs.blanks_behind {α : Type} {form : α → List Token → Prop} {a : α}
    {text blanks : String} (hb : Blanks blanks.toList) (h : PrintsAs form a text) :
    PrintsAs form a (text ++ blanks) := by
  obtain ⟨tokens, hform, hprints⟩ := h
  refine ⟨tokens, hform, ?_⟩
  have hbehind : Prints [] blanks.toList := by
    simpa using prints_nil.blanks hb
  have hapart : Apart blanks.toList := by
    simpa using hb.apart apart_nil
  simpa using hprints.append hbehind hapart

theorem layout_array {element : TypeExpr} (hop : element.hasOperator = false)
    (opening : Opening) :
    (TypeExpr.array element).layout style indent column tail opening
      = (fitting? style (.array element) column tail).getD
          (element.layout style indent column (tail + 2) opening ++ "[]") := by
  cases element with
  | union _ | intersection _ => cases hop
  | _ =>
    conv_lhs => unfold TypeExpr.layout

theorem laidOut_element {element : TypeExpr} (hs : (TypeExpr.array element).Sound)
    (hu : element.isUnion = false) (h : ∀ opening, LaidOut style indent opening element) :
    LaidOut style indent opening (.array element) := by
  refine .of_bare rfl fun column tail => ?_
  by_cases hop : element.hasOperator = true
  · -- An element with an operator stands in parentheses.
    cases element with
    | intersection members =>
      rw [TypeExpr.layout]
      refine printsAs_getD hs ?_
      have hclose : ")[]" = ")" ++ "[]" := rfl
      rw [hclose, ← String.append_assoc]
      have hinside := (h .lineStart).bare (column + 1) (tail + 3)
      exact printsAs_array ((printsAs_parentheses hinside).imp fun _ hf => .primary hf)
    | union _ => cases hu
    | _ => cases hop
  · rw [Bool.not_eq_true] at hop
    have htext := ((h opening).bare column (tail + 2)).imp fun _ hf =>
      hf.array (by rwa [TypeExpr.hasOperator_remains])
    rw [layout_array hop]
    exact printsAs_getD hs (printsAs_array htext)

theorem laidOut_unionElement {members : List TypeExpr}
    (hs : (TypeExpr.array (.union members)).Sound)
    (h : ∀ type ∈ members, LaidOut style (indent + step + 2) .lineStart type)
    (hb : ∀ type ∈ members, ¬ BeginsWithBar style (indent + step + 2) 0 type) :
    LaidOut style indent opening (.array (.union members)) := by
  refine .of_bare rfl fun column tail => ?_
  obtain ⟨h2, -⟩ := TypeExpr.sound_union.1 (forall_parts_array.1 hs).2
  rw [TypeExpr.layout]
  refine printsAs_getD hs ?_
  rw [union_parenthesized_eq]
  refine printsAs_array ((printsAs_parentheses ?_).imp fun _ hf => .primary hf)
  exact (printsAs_barLines h2 h hb).blanks_behind (blanks_lineBreak indent)

/-! ## Types -/

/-- The text of a type prints what is left of the type, if it is faithful. -/
theorem laidOut_of_faithful {type : TypeExpr} (hf : Faithful style indent opening type)
    (hs : type.Sound) : LaidOut style indent opening type := by
  induction hf with
  | keyword word =>
    refine .of_bare rfl fun column tail => ?_
    rw [TypeExpr.layout]
    exact printsAs_keyword word
  | literal value =>
    refine .of_bare rfl fun column tail => ?_
    rw [TypeExpr.layout]
    exact printsAs_literal hs
  | @reference indent opening name args _ ih =>
    refine .of_bare rfl fun column tail => ?_
    obtain ⟨⟨⟨hname, hreserved⟩, -⟩, hargs⟩ := forall_parts_reference.1 hs
    cases args with
    | nil =>
      rw [TypeExpr.layout]
      exact printsAs_name hname hreserved
    | cons arg args =>
      rw [TypeExpr.layout]
      refine printsAs_getD hs ?_
      rw [TypeExpr.remains, remainsOfTypes_eq]
      refine printsAs_generic hname hreserved (by simp) (forall₂_remains ?_)
      refine forall₂_of_mem (layouts_forall₂ (arg :: args)) ?_
      rintro type ht _ rfl
      exact (ih type ht (hargs type ht)).bare column 0
  | element hu _ ih =>
    have helement := (forall_parts_array.1 hs).2
    exact laidOut_element hs hu fun opening => ih opening helement
  | unionElement _ hb ih =>
    obtain ⟨-, hmembers⟩ := TypeExpr.sound_union.1 (forall_parts_array.1 hs).2
    exact laidOut_unionElement hs (fun type ht => ih type ht (hmembers type ht)) hb
  | tuple _ ih =>
    refine .of_bare rfl fun column tail => ?_
    have hslots := (forall_parts_tuple.1 hs).2
    rw [TypeExpr.layout]
    refine printsAs_getD hs ?_
    rw [TypeExpr.remains, remainsOfSlots_eq]
    exact printsAs_slotLines fun slot hslot => ih slot hslot (hslots slot hslot)
  | object hk _ ih =>
    refine .of_bare rfl fun column tail => ?_
    have hmembers := TypeExpr.sound_object.1 hs
    rw [TypeExpr.layout]
    refine printsAs_getD hs ?_
    rw [TypeExpr.remains, remainsOfMembers_eq]
    have hblock := printsAs_membersBlock hmembers hk fun member hm =>
      ih member hm (forall_parts_member.1 (hmembers member hm).2).1
    exact hblock.imp fun _ hf => hf.bare
  | wrapped hw _ ih =>
    have hmembers := (TypeExpr.sound_union.1 hs).2
    exact laidOut_wrapped hs hw fun type ht => ih type ht (hmembers type ht)
  | bars hw _ hb ih =>
    have hmembers := (TypeExpr.sound_union.1 hs).2
    exact laidOut_bars hs hw (fun type ht => ih type ht (hmembers type ht)) hb
  | @intersection indent opening members _ ih =>
    refine .of_bare rfl fun column tail => ?_
    obtain ⟨h2, hmembers⟩ := TypeExpr.sound_intersection.1 hs
    rw [TypeExpr.layout]
    refine printsAs_getD hs ?_
    rw [remains_intersection_eq]
    refine printsAs_intersection separates_ampersand (forall₂_remains ?_) (by rwa [List.length_map])
    refine forall₂_of_mem (factorLayouts_forall₂ members) ?_
    rintro type ht _ ⟨column, tail, rfl⟩
    have hfactor := printsAs_factor ((ih type ht (hmembers type ht)).bare column tail)
    rwa [TypeExpr.isUnion_remains] at hfactor

/-- Members between braces, if the object type is laid out faithfully. -/
theorem printsAs_faithfulBlock {members : List Member} (hs : ∀ member ∈ members, member.Sound)
    (hf : Faithful style indent opening (.object members)) :
    PrintsAs BlockForm (members.map (Member.remains true)) (membersBlock style indent members) := by
  cases hf with
  | object hk hmembers =>
    exact printsAs_membersBlock hs hk fun member hm =>
      laidOut_of_faithful (hmembers member hm) (forall_parts_member.1 (hs member hm).2).1

/-- The text of a type that can be written is faithful wherever it stands. -/
theorem faithful_of_writable {type : TypeExpr} (h : type.Writable strict) (indent : Nat)
    (opening : Opening) : Faithful style indent opening type := by
  induction type using TypeExpr.ind generalizing indent opening with
  | keyword word => exact .keyword word
  | literal value => exact .literal value
  | reference name args ih =>
    have hargs := (TypeExpr.writable_reference.1 h).2
    exact .reference fun type ht => ih type ht (hargs type ht) indent .lineStart
  | array element ih =>
    have hfaithful := ih (TypeExpr.writable_array.1 h)
    cases element with
    | union members =>
      -- The members are laid out as in the union at the start of a line.
      obtain ⟨⟨-, hne⟩, -⟩ := TypeExpr.writable_union.1 (TypeExpr.writable_array.1 h)
      refine .unionElement (fun type ht => ?_) fun type ht => not_beginsWithBar (hne type ht)
      by_cases hw : wrapsInline members = true
      · cases hfaithful (indent + step + 2) .lineStart with
        | wrapped _ hmembers => exact hmembers type ht
        | bars hnot _ _ => rw [hw] at hnot; cases hnot
      · cases hfaithful (indent + step) .lineStart with
        | wrapped hyes _ => exact absurd hyes hw
        | bars _ hmembers _ => exact hmembers type ht
    | _ => exact .element rfl (hfaithful indent)
  | tuple slots ih =>
    have hslots := TypeExpr.writable_tuple.1 h
    exact .tuple fun slot hs => ih slot hs (hslots slot hs) (indent + step) .lineStart
  | object members ih =>
    have hmembers := TypeExpr.writable_object.1 h
    refine .object (fun member hm param type hk => ?_) fun member hm =>
      (ih member hm).1 (hmembers member hm).type (indent + step) .afterToken
    obtain ⟨text, htext⟩ := @oneLine?_isSome style type ((hmembers member hm).index hk).2.1
    exact Option.isSome_iff_exists.2 ⟨text, htext⟩
  | union members ih =>
    obtain ⟨⟨-, hne⟩, hmembers⟩ := TypeExpr.writable_union.1 h
    by_cases hw : wrapsInline members = true
    · exact .wrapped hw fun type ht => ih type ht (hmembers type ht) indent .lineStart
    · rw [Bool.not_eq_true] at hw
      exact .bars hw (fun type ht => ih type ht (hmembers type ht) _ .lineStart)
        fun type ht => not_beginsWithBar (hne type ht)
  | intersection members ih =>
    have hmembers := (TypeExpr.writable_intersection.1 h).2
    exact .intersection fun type ht => ih type ht (hmembers type ht) indent .lineStart
  | verbatim text => exact absurd h TypeExpr.not_writable_verbatim

end LintTypes.Source
