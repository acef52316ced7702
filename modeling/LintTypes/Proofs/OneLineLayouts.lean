import LintTypes.Proofs.FreshNames
import LintTypes.Proofs.LayoutForms
import LintTypes.Proofs.SchemaTyping

/-!
# Tuples and unions on one line

A tuple or a union that has a one-line form either stands on the line of the name before it, or it
is broken: a tuple behind its bracket, a union before its first bar. Which of the two is decided
before there is a line, from the part before the type, the one-line form and the mark behind it. The
part before the type is measured in bytes and all else in characters. So a line is taken to be
longer than it is by the surplus of a property name that is not ASCII, and such a member may be
broken although its line fits the print width.
-/

namespace LintTypes

open Source

variable {style : Style} {type : TypeExpr} {line : String}

/-! ## Lines -/

namespace Layout

/-- The text has no line break. -/
def IsLine (text : String) : Prop := '\n' ∉ text.toList

instance : DecidablePred IsLine := fun _ => inferInstanceAs (Decidable (_ ∉ _))

@[simp]
theorem isLine_append {text more : String} : IsLine (text ++ more) ↔ IsLine text ∧ IsLine more := by
  simp [IsLine]

theorem isLine_intercalate {gap : String} (hgap : IsLine gap) {texts : List String}
    (h : ∀ text ∈ texts, IsLine text) : IsLine (gap.intercalate texts) := by
  induction texts with
  | nil => exact nofun
  | cons text texts ih =>
    obtain ⟨htext, htexts⟩ := List.forall_mem_cons.1 h
    cases texts with
    | nil => simpa using htext
    | cons next texts =>
      rw [String.intercalate_cons_cons]
      simp [htext, hgap, ih htexts]

/-- Forms on one line can be joined to one line. -/
theorem isLine_joined {α : Type} {Form : α → String → Prop} {gap : String} (hgap : IsLine gap)
    {items : List α} {texts : List String} (hforms : List.Forall₂ Form items texts)
    (h : ∀ item ∈ items, ∀ text, Form item text → IsLine text) :
    IsLine (gap.intercalate texts) := by
  refine isLine_intercalate hgap fun text htext => ?_
  obtain ⟨item, hmem, hform⟩ := (Schema.forall₂_exists hforms).2 text htext
  exact h item hmem text hform

theorem isLine_of_isIdentifier {name : String} (h : isIdentifier name = true) : IsLine name :=
  fun hmem => absurd (isNameChar_of_mem h hmem) (by decide)

theorem isLine_pad (width : Nat) : IsLine (pad width) := by
  simp [IsLine, toList_pad]

theorem isLine_terminator (style : Style) : IsLine (terminator style) := by
  unfold terminator
  split <;> decide

theorem isLine_parenthesized (wanted : Bool) {text : String} (h : IsLine text) :
    IsLine (parenthesized wanted text) := by
  unfold parenthesized
  split
  · simp only [isLine_append]
    exact ⟨⟨by decide, h⟩, by decide⟩
  · exact h

end Layout

open Layout

/-- An escape has no line break. -/
theorem StringLiteral.newline_not_mem_escapeChar (quote c : Char) : '\n' ∉ escapeChar quote c := by
  have hdigit : ∀ n < 16, '\n' ≠ hexDigit n := by decide
  have hdigits (n : Nat) : '\n' ∉ fourHexDigits n := by
    simp only [fourHexDigits, List.mem_cons, List.not_mem_nil, or_false, not_or]
    exact ⟨hdigit _ (Nat.mod_lt _ (by decide)), hdigit _ (Nat.mod_lt _ (by decide)),
      hdigit _ (Nat.mod_lt _ (by decide)), hdigit _ (Nat.mod_lt _ (by decide))⟩
  unfold escapeChar
  split
  · decide
  · decide
  · decide
  · decide
  · decide
  · decide
  · rename_i hnewline _ _ _ _
    split
    · simp [Ne.symm hnewline]
    split
    · simp [hdigits]
    · simp [Ne.symm hnewline]

theorem StringLiteral.isLine_quoted (preferSingle : Bool) (text : String) :
    IsLine (quoted preferSingle text) := by
  have hq := delimiter_eq preferSingle text.toList
  have hquote : '\n' ≠ delimiter preferSingle text.toList := by
    rcases hq with h | h <;> rw [h] <;> decide
  simp only [IsLine, quoted, String.toList_ofList, encode, List.mem_cons, List.mem_append,
    List.mem_flatMap, List.not_mem_nil, or_false, not_or, not_exists, not_and]
  exact ⟨hquote, fun c _ => newline_not_mem_escapeChar _ c, hquote⟩

theorem Layout.isLine_propertyName (style : Style) (name : String) :
    IsLine (propertyName style name) := by
  unfold propertyName
  split
  · rename_i hname
    exact isLine_of_isIdentifier hname
  · exact StringLiteral.isLine_quoted style.singleQuote name

theorem isLine_of_dottedName {name : String} (h : DottedName name.toList) : IsLine name := by
  have hpart : ∀ {text : List Char}, isIdentifierChars text = true → '\n' ∉ text := by
    intro text htext hmem
    have hall : isIdentifier (String.ofList text) = true := by
      rwa [isIdentifier, String.toList_ofList]
    exact isLine_of_isIdentifier hall (by rwa [String.toList_ofList])
  unfold IsLine
  generalize name.toList = text at h
  induction h with
  | identifier h => exact hpart h
  | dotted hp _ ih => simp [hpart hp, ih]

theorem isLine_of_isNumber {text : String} (h : IsNumber text.toList) : IsLine text := by
  obtain ⟨p, hp, htext⟩ := h
  have hdigits : ∀ {digits : List Char}, (∀ c ∈ digits, c.isDigit = true) → '\n' ∉ digits :=
    fun hall hmem => absurd (hall _ hmem) (by decide)
  rw [IsLine, ← htext]
  simp only [NumberParts.text, List.mem_append, not_or]
  refine ⟨⟨⟨?sign, hdigits hp.whole⟩, ?fraction⟩, ?exponent⟩
  case sign =>
    unfold NumberParts.signText
    split <;> decide
  case fraction =>
    unfold NumberParts.fractionText
    split
    · decide
    · simp [hdigits hp.fraction]
  case exponent =>
    unfold NumberParts.exponentText
    cases he : p.exponent with
    | none => decide
    | some e =>
      have hwf := hp.exponent e he
      have hmark : '\n' ≠ e.mark := by rcases hwf.mark with h | h <;> rw [h] <;> decide
      have hsign : '\n' ∉ e.sign := by rcases hwf.sign with h | h | h <;> rw [h] <;> decide
      simp [ExponentParts.text, hmark, hsign, hdigits hwf.digits]

theorem isLine_literal {value : Literal} (h : (TypeExpr.literal value).Sound) :
    IsLine (value.text style) := by
  cases value with
  | string value => exact StringLiteral.isLine_quoted style.singleQuote value
  | number text => exact isLine_of_isNumber (IsNumber.normalize (forall_parts_literal.1 h).1)
  | bool value =>
    show IsLine (if value then "true" else "false")
    split <;> decide

theorem isLine_keyword (word : Keyword) : IsLine word.text := by
  cases word <;> decide

theorem isLine_slot {slot : Slot} (h : ∀ {bare}, slot.type.oneLine? style = some bare → IsLine bare)
    (hline : slot.oneLine? style = some line) : IsLine line := by
  obtain ⟨type, isOptional, isRest⟩ := slot
  simp only [Slot.oneLine?, Option.bind_eq_bind, Option.bind_eq_some_iff, Option.pure_def,
    Option.some.injEq] at hline
  obtain ⟨bare, hbare, rfl⟩ := hline
  have hbody := isLine_parenthesized (isOptional && type.hasOperator) (h hbare)
  unfold Slot.decorate
  simp only [isLine_append]
  refine ⟨⟨?_, hbody⟩, ?_⟩
  · split <;> decide
  · split <;> decide

/-- The one-line form of a type without verbatim text has no line break. -/
theorem TypeExpr.Sound.isLine_oneLine (h : type.Sound) (hline : type.oneLine? style = some line) :
    IsLine line := by
  induction type using TypeExpr.ind generalizing line with
  | keyword word =>
    cases hline
    exact isLine_keyword word
  | literal value =>
    cases hline
    exact isLine_literal h
  | reference name args ih =>
    obtain ⟨⟨⟨hname, -⟩, -⟩, hargs⟩ := forall_parts_reference.1 h
    have hname := isLine_of_dottedName hname
    cases args with
    | nil =>
      cases hline
      exact hname
    | cons arg args =>
      simp only [TypeExpr.oneLine?, Option.bind_eq_bind, Option.bind_eq_some_iff, Option.pure_def,
        Option.some.injEq] at hline
      obtain ⟨first, hfirst, others, hothers, rfl⟩ := hline
      have hlines : oneLines? style (arg :: args) = some (first :: others) := by
        simp [oneLines?, hfirst, hothers]
      have hjoined : IsLine (", ".intercalate (first :: others)) :=
        isLine_joined (by decide) (oneLines?_eq_some hlines) fun type hmem _ =>
          ih type hmem (hargs type hmem)
      simp only [isLine_append]
      exact ⟨⟨⟨hname, by decide⟩, hjoined⟩, by decide⟩
  | array element ih =>
    simp only [TypeExpr.oneLine?, Option.bind_eq_bind, Option.bind_eq_some_iff, Option.pure_def,
      Option.some.injEq] at hline
    obtain ⟨bare, hbare, rfl⟩ := hline
    exact isLine_append.2
      ⟨isLine_parenthesized _ (ih (forall_parts_array.1 h).2 hbare), by decide⟩
  | tuple slots ih =>
    simp only [TypeExpr.oneLine?, Option.bind_eq_bind, Option.bind_eq_some_iff, Option.pure_def,
      Option.some.injEq] at hline
    obtain ⟨texts, htexts, rfl⟩ := hline
    have hslots := (forall_parts_tuple.1 h).2
    simp only [isLine_append]
    refine ⟨⟨by decide, ?_⟩, by decide⟩
    exact isLine_joined (by decide) (slotsOneLine?_eq_some htexts) fun slot hmem _ =>
      isLine_slot (ih slot hmem (hslots slot hmem))
  | object members _ =>
    cases members with
    | nil =>
      cases hline
      decide
    | cons _ _ => cases hline
  | union members ih =>
    obtain ⟨-, hmembers⟩ := TypeExpr.sound_union.1 h
    simp only [TypeExpr.oneLine?, Option.bind_eq_bind, Option.bind_eq_some_iff, Option.pure_def,
      Option.some.injEq] at hline
    obtain ⟨texts, htexts, rfl⟩ := hline
    exact isLine_joined (by decide) (oneLines?_eq_some htexts) fun type hmem _ =>
      ih type hmem (hmembers type hmem)
  | intersection members ih =>
    obtain ⟨-, hmembers⟩ := TypeExpr.sound_intersection.1 h
    simp only [TypeExpr.oneLine?, Option.bind_eq_bind, Option.bind_eq_some_iff, Option.pure_def,
      Option.some.injEq] at hline
    obtain ⟨texts, htexts, rfl⟩ := hline
    refine isLine_joined (by decide) (factorsOneLine?_eq_some htexts) fun type hmem text hform => ?_
    obtain ⟨bare, hbare, rfl⟩ := hform
    exact isLine_parenthesized _ (ih type hmem (hmembers type hmem) hbare)
  | verbatim text => cases (h _ (TypeExpr.mem_parts_self _)).2

/-! ## Bytes and characters -/

namespace Layout

/-- How many more bytes than characters a text has. -/
def surplus (text : String) : Nat := (text.toList.map fun c => c.utf8Size - 1).sum

theorem surplus_append (text more : String) :
    surplus (text ++ more) = surplus text + surplus more := by
  simp [surplus]

theorem utf8ByteSize_eq (text : String) : text.utf8ByteSize = text.length + surplus text := by
  have hchars : ∀ chars : List Char, (String.ofList chars).utf8ByteSize =
      chars.length + (chars.map fun c => c.utf8Size - 1).sum := by
    intro chars
    induction chars with
    | nil => rfl
    | cons c chars ih =>
      have hpos := c.utf8Size_pos
      rw [String.ofList_cons, String.utf8ByteSize_append, String.utf8ByteSize_singleton, ih]
      simp only [List.length_cons, List.map_cons, List.sum_cons]
      omega
  have h := hchars text.toList
  rwa [String.ofList_toList, String.length_toList] at h

/-- Only a text of ASCII characters has no surplus. -/
theorem surplus_eq_zero_iff {text : String} :
    surplus text = 0 ↔ ∀ c ∈ text.toList, c.toNat < 128 := by
  have hsize (c : Char) : c.utf8Size - 1 = 0 ↔ c.toNat < 128 := by
    have hpos := c.utf8Size_pos
    have hone : c.utf8Size = 1 ↔ c.toNat ≤ 127 := Char.utf8Size_eq_one_iff
    omega
  simp only [surplus, List.sum_eq_zero_iff_forall_eq_nat, List.forall_mem_map, hsize]

theorem surplus_of_isIdentifier {name : String} (h : isIdentifier name = true) : surplus name = 0 :=
  surplus_eq_zero_iff.2 fun _ hc => Names.toNat_lt_of_isNameChar (isNameChar_of_mem h hc)

theorem surplus_terminator (style : Style) : surplus (terminator style) = 0 := by
  unfold terminator
  split <;> rfl

/-! ## The line of a type -/

/-- What comes before the type of an alias. -/
def aliasHead (name : String) : String := "export type " ++ name ++ " ="

/-- A one-line form on the line of what comes before it, with the mark that ends it. -/
def wholeLine (style : Style) (head line : String) : String :=
  head ++ " " ++ line ++ terminator style

/-- Below the comment, the text is on one line exactly when `fits`, and then it is `whole`. -/
def OnOneLineIff (fits : Prop) (text comment whole : String) : Prop :=
  ∃ below, text = comment ++ below ∧ (IsLine below ↔ fits) ∧ (IsLine below → below = whole)

/-- A union that has a one-line form holds no object type with members. -/
theorem wrapsInline_eq_false {members : List TypeExpr}
    (h : (TypeExpr.union members).oneLine? style = some line) : wrapsInline members = false := by
  simp only [TypeExpr.oneLine?, Option.bind_eq_bind, Option.bind_eq_some_iff] at h
  obtain ⟨texts, htexts, -⟩ := h
  rw [wrapsInline, Bool.and_eq_false_imp]
  intro hfilled
  exfalso
  have hsome : 0 < List.countP _ members := (beq_iff_eq.1 hfilled).symm ▸ Nat.one_pos
  obtain ⟨type, hmem, hfilled⟩ := List.countP_pos_iff.1 hsome
  obtain ⟨text, -, htext⟩ := (Schema.forall₂_exists (oneLines?_eq_some htexts)).1 type hmem
  split at hfilled
  · cases htext
  · cases hfilled

/-- A broken tuple or union takes several lines. -/
theorem exists_layout_eq (hkind : type.isTuple = true ∨ type.isUnion = true)
    (h : type.oneLine? style = some line) (indent column tail : Nat) :
    ∃ broken, ¬ IsLine broken ∧ type.layout style indent column tail .afterToken =
      (fitting? style type column tail).getD broken := by
  cases type with
  | tuple slots =>
    refine ⟨_, ?_, by rw [TypeExpr.layout]⟩
    simp [IsLine]
  | union members =>
    refine ⟨_, ?_, by rw [TypeExpr.layout, if_neg (by rw [wrapsInline_eq_false h]; decide)]⟩
    simp [IsLine]
  | _ => simp [TypeExpr.isTuple, TypeExpr.isUnion] at hkind

/-- The one-line form is taken to fit when the line, with the surplus before the type, does. -/
theorem fitting?_eq_ite (h : type.oneLine? style = some line) (head : String) :
    fitting? style type (head.utf8ByteSize + 1) (terminator style).utf8ByteSize =
      if (wholeLine style head line).length + surplus head ≤ style.printWidth then some line
      else none := by
  have hwidth : head.utf8ByteSize + 1 + line.length + (terminator style).utf8ByteSize =
      (wholeLine style head line).length + surplus head := by
    have hblank : " ".length = 1 := rfl
    rw [utf8ByteSize_eq, utf8ByteSize_eq, surplus_terminator]
    simp only [wholeLine, String.length_append, hblank]
    omega
  simp only [fitting?, h, Option.filter_some, hwidth, decide_eq_true_eq]

/-- A type stays on the line of what comes before it exactly when the line, with the surplus of what
comes before, is no longer than the print width. -/
theorem onOneLineIff_putAfter (hkind : type.isTuple = true ∨ type.isUnion = true)
    (h : type.oneLine? style = some line) (hline : IsLine line) {head : String}
    (hhead : IsLine head) (comment : String) (indent : Nat) :
    OnOneLineIff ((wholeLine style head line).length + surplus head ≤ style.printWidth)
      (comment ++ putAfter head (type.layout style indent (head.utf8ByteSize + 1)
        (terminator style).utf8ByteSize .afterToken) ++ terminator style)
      comment (wholeLine style head line) := by
  obtain ⟨broken, hbroken, hlayout⟩ :=
    exists_layout_eq hkind h indent (head.utf8ByteSize + 1) (terminator style).utf8ByteSize
  rw [hlayout, fitting?_eq_ite h, String.append_assoc]
  split
  · rename_i hfits
    have hput : putAfter head line ++ terminator style = wholeLine style head line := by
      have hstart : line.toList.head? ≠ some '\n' := fun hfirst => hline (List.mem_of_head? hfirst)
      rw [Layout.putAfter, if_neg hstart, wholeLine]
    have hwhole : IsLine (wholeLine style head line) := by
      simp only [wholeLine, isLine_append]
      exact ⟨⟨⟨hhead, by decide⟩, hline⟩, isLine_terminator style⟩
    exact ⟨_, congrArg (comment ++ ·) hput, iff_of_true hwhole hfits, fun _ => rfl⟩
  · rename_i hfits
    have hbelow : ¬ IsLine (putAfter head broken ++ terminator style) := by
      simp only [putAfter, isLine_append]
      exact fun h => hbroken h.1.2
    exact ⟨_, rfl, iff_of_false hbelow hfits, fun h => absurd h hbelow⟩

theorem isLine_aliasHead {name : String} (h : isIdentifier name = true) :
    IsLine (aliasHead name) := by
  simp only [aliasHead, isLine_append]
  exact ⟨⟨by decide, isLine_of_isIdentifier h⟩, by decide⟩

theorem surplus_aliasHead {name : String} (h : isIdentifier name = true) :
    surplus (aliasHead name) = 0 := by
  have hwords : surplus "export type " = 0 ∧ surplus " =" = 0 := ⟨rfl, rfl⟩
  rw [aliasHead, surplus_append, surplus_append, surplus_of_isIdentifier h, hwords.1, hwords.2]

variable {member : Member} {indent : Nat}

theorem isLine_memberHead (indent : Nat) (h : IsLine (keyText style member.key)) :
    IsLine (memberHead style member indent) := by
  simp only [memberHead, isLine_append]
  refine ⟨⟨⟨⟨isLine_pad indent, ?_⟩, h⟩, ?_⟩, by decide⟩
  · split <;> decide
  · split <;> decide

/-- In the part of a member before its type, only the key can be other than ASCII. -/
theorem surplus_memberHead :
    surplus (memberHead style member indent) = surplus (keyText style member.key) := by
  have hpad : surplus (pad indent) = 0 := by
    rw [surplus_eq_zero_iff, toList_pad]
    exact fun c hc => List.eq_of_mem_replicate hc ▸ by decide
  have hreadonly : surplus (if member.isReadonly then "readonly " else "") = 0 := by
    split <;> rfl
  have hoptional : surplus (if member.isOptional then "?" else "") = 0 := by
    split <;> rfl
  have hcolon : surplus ":" = 0 := rfl
  simp only [memberHead, surplus_append, hpad, hreadonly, hoptional, hcolon]
  omega

end Layout

/-- A tuple or a union with a one-line form, which has no line break if the type is sound. An alias
of it is on one line, below its comment, exactly when the line is no longer than the print width.
The line of a member is taken to be longer than it is by the surplus of bytes of the key: it is on
one line exactly when there is room for the surplus as well. So if all characters of the key are
ASCII, it is on one line exactly when the line is no longer than the print width. -/
theorem TypeExpr.onOneLineIff_fits (hkind : type.isTuple = true ∨ type.isUnion = true)
    (h : type.oneLine? style = some line) :
    (type.Sound → IsLine line) ∧
    (IsLine line →
      (∀ name comment, isIdentifier name = true →
        OnOneLineIff ((wholeLine style (aliasHead name) line).length ≤ style.printWidth)
          ((Declaration.typeAlias name type comment).layout style) (commentBlock comment 0)
          (wholeLine style (aliasHead name) line)) ∧
      ∀ (member : Member) (indent : Nat), member.type = type →
        (∀ param keyType, member.key = .index param keyType → IsLine (keyText style member.key)) →
        OnOneLineIff ((wholeLine style (memberHead style member indent) line).length +
            surplus (keyText style member.key) ≤ style.printWidth)
          (member.layout style indent) (commentBlock member.comment indent)
          (wholeLine style (memberHead style member indent) line) ∧
        ((∀ c ∈ (keyText style member.key).toList, c.toNat < 128) →
          OnOneLineIff
            ((wholeLine style (memberHead style member indent) line).length ≤ style.printWidth)
            (member.layout style indent) (commentBlock member.comment indent)
            (wholeLine style (memberHead style member indent) line))) := by
  refine ⟨fun hs => hs.isLine_oneLine h, fun hline => ⟨fun name comment hname => ?_, ?_⟩⟩
  · have halias := onOneLineIff_putAfter hkind h hline (isLine_aliasHead hname)
      (commentBlock comment 0) 0
    rwa [surplus_aliasHead hname, Nat.add_zero] at halias
  · intro member indent htype hindex
    have hkey : IsLine (keyText style member.key) := by
      cases hk : member.key with
      | named name => exact isLine_propertyName style name
      | index param keyType => exact hk ▸ hindex param keyType hk
    have hmember := onOneLineIff_putAfter hkind h hline (isLine_memberHead indent hkey)
      (commentBlock member.comment indent) indent
    rw [surplus_memberHead] at hmember
    obtain ⟨key, _, isOptional, isReadonly, comment⟩ := member
    obtain rfl : _ = type := htype
    refine ⟨hmember, fun hascii => ?_⟩
    rw [surplus_eq_zero_iff.2 hascii, Nat.add_zero] at hmember
    exact hmember

/-- A union of two letters that are not ASCII. -/
def umlauts : TypeExpr := .union [.literal (.string "ä"), .literal (.string "ö")]

/-- A member of the union whose name has to be quoted. -/
def umlautsMember : Member := ⟨.named "a-b", umlauts, true, true, none⟩

/-- The style with another print width. -/
def narrow (printWidth : Nat) : Style := { printWidth }

/-- An alias of the union fits exactly, and the member is two characters too long. -/
theorem onOneLineIff_fits_umlauts :
    (Declaration.typeAlias "Mark" umlauts (some "One mark.")).layout (narrow 28) =
        commentBlock (some "One mark.") 0 ++ "export type Mark = 'ä' | 'ö'" ∧
      ¬ IsLine (umlautsMember.layout (narrow 28) 4) := by
  have hform : umlauts.oneLine? (narrow 28) = some "'ä' | 'ö'" := by decide +kernel
  obtain ⟨-, hfits⟩ := TypeExpr.onOneLineIff_fits (.inr rfl) hform
  obtain ⟨halias, hmember⟩ := hfits (by decide)
  constructor
  · obtain ⟨below, htext, hiff, hwhole⟩ := halias "Mark" (some "One mark.") (by decide)
    rw [htext, hwhole (hiff.2 (by decide +kernel))]
    rfl
  · obtain ⟨below, htext, hiff, -⟩ := (hmember umlautsMember 4 rfl nofun).2 (by decide +kernel)
    have hbelow : umlautsMember.layout (narrow 28) 4 = below := by
      rw [htext, show commentBlock umlautsMember.comment 4 = "" from rfl, String.empty_append]
    rw [hbelow]
    exact fun h => absurd (hiff.1 h) (by decide +kernel)

/-- A member whose name is not ASCII. -/
def umlautMember : Member :=
  .property "ä" (.union [.literal (.string "a"), .literal (.string "b")]) false none

/-- The member is broken although its line fills the print width exactly. -/
theorem not_onOneLineIff_umlautMember :
    umlautMember.layout (narrow 16) 2 = "  'ä':\n    | 'a'\n    | 'b'" ∧
      ¬ OnOneLineIff ((wholeLine (narrow 16) (memberHead (narrow 16) umlautMember 2)
          "'a' | 'b'").length ≤ (narrow 16).printWidth)
        (umlautMember.layout (narrow 16) 2) (commentBlock umlautMember.comment 2)
        (wholeLine (narrow 16) (memberHead (narrow 16) umlautMember 2) "'a' | 'b'") := by
  have hlayout : umlautMember.layout (narrow 16) 2 = "  'ä':\n    | 'a'\n    | 'b'" := by
    decide +kernel
  have hlength : (wholeLine (narrow 16) (memberHead (narrow 16) umlautMember 2)
      "'a' | 'b'").length = 16 := by decide +kernel
  refine ⟨hlayout, ?_⟩
  rintro ⟨below, htext, hiff, -⟩
  rw [hlayout, show commentBlock umlautMember.comment 2 = "" from rfl,
    String.empty_append] at htext
  exact absurd (htext ▸ hiff.2 hlength.le) (by decide)

end LintTypes
