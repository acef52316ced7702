import LintTypes.Proofs.NumberForms
import LintTypes.Proofs.Printing
import LintTypes.Proofs.TypeParts

/-!
# One-line forms are written forms

The one-line form of a type prints the type, or rather what is left of it. Unions inside
intersections stand in parentheses there, and so do both in front of `[]` and `?`. An operator
directly inside one of its own kind takes no parentheses, so that its operands join those around it.
-/

namespace LintTypes.Source

variable {style : Style} {tokens : List Token}

/-! ## Forms without parentheses -/

/-- The form that a type takes when no parentheses stand around it. -/
def BareForm : TypeExpr → List Token → Prop
  | .union members => UnionForm Written (.union members)
  | .intersection members => fun tokens =>
    2 ≤ members.length ∧ Joined (ArrayForm Written) (.symbol '&') members tokens
  | .array element => ArrayForm Written (.array element)
  | type => PrimaryForm Written type

/-- A type without operators may be the element of an array as it stands. -/
theorem BareForm.array {type : TypeExpr} (h : BareForm type tokens)
    (hop : type.hasOperator = false) : ArrayForm Written type tokens := by
  cases type with
  | union _ | intersection _ => cases hop
  | array _ => exact h
  | _ => exact .primary h

/-- The factors that a type stands for in an intersection. -/
theorem BareForm.factors {type : TypeExpr} (h : BareForm type tokens)
    (hu : type.isUnion = false) :
    Joined (ArrayForm Written) (.symbol '&') type.intersectionMembers tokens := by
  cases type with
  | union _ => cases hu
  | intersection _ => exact h.2
  | _ => exact .single (BareForm.array h rfl)

theorem intersectionForm_of_joined {members : List TypeExpr} (h2 : 2 ≤ members.length)
    (h : Joined (ArrayForm Written) (.symbol '&') members tokens) :
    IntersectionForm Written (.intersection members) tokens := by
  match members, h2 with
  | first :: second :: others, _ => exact .several false h

/-- Two operands or more are a union, with or without a bar in front. -/
theorem unionForm_of_joined {members : List TypeExpr} (h2 : 2 ≤ members.length) (lead : Bool)
    (h : Joined (IntersectionForm Written) (.symbol '|') members tokens) :
    UnionForm Written (.union members) ((Token.symbol '|').when lead ++ tokens) := by
  match members, h2 with
  | first :: second :: others, _ => exact .several lead h

/-- What is no union may be an operand of a union as it stands. -/
theorem BareForm.intersection {type : TypeExpr} (h : BareForm type tokens)
    (hu : type.isUnion = false) : IntersectionForm Written type tokens := by
  cases type with
  | union _ => cases hu
  | intersection _ => exact intersectionForm_of_joined h.1 h.2
  | _ => exact .single false (BareForm.array h rfl)

/-- A bare type is one that is written by the grammar. -/
theorem BareForm.written {type : TypeExpr} (h : BareForm type tokens) : Written type tokens := by
  cases type with
  | union _ => exact .mk h
  | _ => exact .mk (.single false (BareForm.intersection h rfl))

/-- The form of a type without parentheses around it and without a bar in front. -/
def FlatForm : TypeExpr → List Token → Prop
  | .union members => fun tokens =>
    2 ≤ members.length ∧ Joined (IntersectionForm Written) (.symbol '|') members tokens
  | type => BareForm type

theorem FlatForm.bare {type : TypeExpr} (h : FlatForm type tokens) : BareForm type tokens := by
  cases type with
  | union _ => exact unionForm_of_joined h.1 false h.2
  | _ => exact h

theorem BareForm.flat {type : TypeExpr} (h : BareForm type tokens) (hu : type.isUnion = false) :
    FlatForm type tokens := by
  cases type with
  | union _ => cases hu
  | _ => exact h

/-- The form of a type among the operands of `|`. -/
def AlternativesForm (type : TypeExpr) (tokens : List Token) : Prop :=
  Joined (IntersectionForm Written) (.symbol '|') type.unionMembers tokens

/-- A type that brings no alternatives of its own is one. -/
theorem FlatForm.alternatives {type : TypeExpr} (h : FlatForm type tokens) :
    AlternativesForm type tokens := by
  cases type with
  | union _ => exact h.2
  | _ => exact .single (BareForm.intersection h rfl)

/-- A type in parentheses. -/
theorem BareForm.parenthesized {type : TypeExpr} (h : BareForm type tokens) :
    PrimaryForm Written type (.symbol '(' :: (tokens ++ [.symbol ')'])) :=
  .parentheses h.written

/-! ## Lists of types -/

/-- Two lists of items are joined with the separator in between. -/
theorem Joined.append {α : Type} {item : α → List Token → Prop} {separator : Token}
    {items others : List α} {more : List Token} (h : Joined item separator items tokens)
    (h' : Joined item separator others more) :
    Joined item separator (items ++ others) (tokens ++ separator :: more) := by
  induction h with
  | single h => exact .cons h h'
  | cons h _ ih =>
    rw [List.append_assoc]
    exact .cons h ih

/-- Joined items may themselves consist of joined items. -/
theorem Joined.flatMap {α : Type} {item : α → List Token → Prop} {separator : Token}
    {f : α → List α} {items : List α}
    (h : Joined (fun a => Joined item separator (f a)) separator items tokens) :
    Joined item separator (items.flatMap f) tokens := by
  induction h with
  | single h => simpa using h
  | cons h _ ih => exact h.append ih

/-- What follows from a relation for the members of the first list. -/
theorem forall₂_of_mem {α β : Type} {R S : α → β → Prop} {as : List α} {bs : List β}
    (h : List.Forall₂ R as bs) (hs : ∀ a ∈ as, ∀ b, R a b → S a b) : List.Forall₂ S as bs := by
  induction h with
  | nil => exact .nil
  | cons hab _ ih =>
    exact .cons (hs _ (List.mem_cons_self ..) _ hab)
      (ih fun a ha => hs a (List.mem_cons_of_mem _ ha))

/-- Types fit on a line together only if each of them does. -/
theorem oneLines?_eq_some {types : List TypeExpr} {texts : List String}
    (h : oneLines? style types = some texts) :
    List.Forall₂ (fun type text => type.oneLine? style = some text) types texts := by
  induction types generalizing texts with
  | nil =>
    cases h
    exact .nil
  | cons type types ih =>
    simp only [oneLines?, Option.bind_eq_bind, Option.bind_eq_some_iff, Option.pure_def,
      Option.some.injEq] at h
    obtain ⟨first, hfirst, others, hothers, rfl⟩ := h
    exact .cons hfirst (ih hothers)

/-- The factors of an intersection fit on a line only if each of them does, in parentheses if it is
a union. -/
theorem factorsOneLine?_eq_some {types : List TypeExpr} {texts : List String}
    (h : factorsOneLine? style types = some texts) :
    List.Forall₂ (fun type text => ∃ bare, type.oneLine? style = some bare ∧
      text = Layout.parenthesized type.isUnion bare) types texts := by
  induction types generalizing texts with
  | nil =>
    cases h
    exact .nil
  | cons type types ih =>
    simp only [factorsOneLine?, Option.bind_eq_bind, Option.bind_eq_some_iff, Option.pure_def,
      Option.some.injEq] at h
    obtain ⟨first, hfirst, others, hothers, rfl⟩ := h
    refine .cons ⟨first, hfirst, ?_⟩ (ih hothers)
    cases type <;> rfl

theorem slotsOneLine?_eq_some {slots : List Slot} {texts : List String}
    (h : slotsOneLine? style slots = some texts) :
    List.Forall₂ (fun slot text => slot.oneLine? style = some text) slots texts := by
  induction slots generalizing texts with
  | nil =>
    cases h
    exact .nil
  | cons slot slots ih =>
    simp only [slotsOneLine?, Option.bind_eq_bind, Option.bind_eq_some_iff, Option.pure_def,
      Option.some.injEq] at h
    obtain ⟨first, hfirst, others, hothers, rfl⟩ := h
    exact .cons hfirst (ih hothers)

/-! ## Texts of composite types -/

/-- The separators of one-line forms. -/
theorem separates_comma : Separates ',' ", ".toList :=
  ⟨by decide, [], [' '], rfl, .nil, .space (by decide) .nil⟩

theorem separates_bar : Separates '|' " | ".toList :=
  ⟨by decide, [' '], [' '], rfl, .space (by decide) .nil, .space (by decide) .nil⟩

theorem separates_ampersand : Separates '&' " & ".toList :=
  ⟨by decide, [' '], [' '], rfl, .space (by decide) .nil, .space (by decide) .nil⟩

theorem PrintsAs.imp {α β : Type} {form : α → List Token → Prop} {form' : β → List Token → Prop}
    {a : α} {b : β} {text : String} (h : PrintsAs form a text)
    (hf : ∀ tokens, form a tokens → form' b tokens) : PrintsAs form' b text := by
  obtain ⟨tokens, hform, hprints⟩ := h
  exact ⟨tokens, hf tokens hform, hprints⟩

/-- In parentheses a type may stand wherever one without operators may. -/
theorem printsAs_parentheses {type : TypeExpr} {text : String} (h : PrintsAs BareForm type text) :
    PrintsAs (PrimaryForm Written) type ("(" ++ text ++ ")") := by
  obtain ⟨tokens, hform, hprints⟩ := h
  refine ⟨_, hform.parenthesized, ?_⟩
  have hclose := hprints.append (Prints.symbol (c := ')') (by decide) prints_nil)
    (apart_symbol (by decide) _)
  have hboth := Prints.symbol (c := '(') (by decide) hclose
  simpa using hboth

/-- In front of `[]`, operators stand in parentheses. -/
theorem printsAs_operand {type : TypeExpr} {text : String} (h : PrintsAs BareForm type text) :
    PrintsAs (ArrayForm Written) type (Layout.parenthesized type.hasOperator text) := by
  by_cases hop : type.hasOperator = true
  · rw [hop]
    exact (printsAs_parentheses h).imp fun _ => .primary
  · rw [Bool.not_eq_true] at hop
    rw [hop]
    exact h.imp fun _ hf => hf.array hop

/-- A pair of brackets makes an array. -/
theorem printsAs_array {element : TypeExpr} {text : String}
    (h : PrintsAs (ArrayForm Written) element text) :
    PrintsAs BareForm (.array element) (text ++ "[]") := by
  obtain ⟨tokens, hform, hprints⟩ := h
  refine ⟨_, ArrayForm.array hform, ?_⟩
  have hclose := Prints.symbol (c := ']') (by decide) prints_nil
  have hbrackets := Prints.symbol (c := '[') (by decide) hclose
  have hboth := hprints.append hbrackets (apart_symbol (by decide) _)
  simpa using hboth

theorem Joined.exists_form {α : Type} {item : α → List Token → Prop} {separator : Token}
    {items : List α} (h : Joined item separator items tokens) :
    ∀ a ∈ items, ∃ ts, item a ts := by
  induction h with
  | single h => exact List.forall_mem_singleton.2 ⟨_, h⟩
  | cons h _ ih => exact List.forall_mem_cons.2 ⟨⟨_, h⟩, ih⟩

theorem Joined.ne_nil {α : Type} {item : α → List Token → Prop} {separator : Token}
    {items : List α} (h : Joined item separator items tokens) : items ≠ [] := by
  cases h <;> simp

theorem length_le_flatMap {α β : Type} {f : α → List β} {as : List α} (h : ∀ a ∈ as, f a ≠ []) :
    as.length ≤ (as.flatMap f).length := by
  induction as with
  | nil => exact Nat.le_refl _
  | cons a as ih =>
    have ha := List.length_pos_iff.2 (h a (List.mem_cons_self ..))
    have has := ih fun b hb => h b (List.mem_cons_of_mem _ hb)
    rw [List.flatMap_cons, List.length_append, List.length_cons]
    omega

/-- The texts of alternatives with gaps between them. -/
theorem joined_alternatives {members : List TypeExpr} {texts : List String} {gap : String}
    (hg : Separates '|' gap.toList) (h : List.Forall₂ (PrintsAs AlternativesForm) members texts)
    (h2 : 2 ≤ members.length) :
    ∃ tokens, Prints tokens (gap.intercalate texts).toList ∧
      2 ≤ (members.flatMap TypeExpr.unionMembers).length ∧
      Joined (IntersectionForm Written) (.symbol '|') (members.flatMap TypeExpr.unionMembers)
        tokens := by
  obtain ⟨tokens, hform, hprints⟩ := printsAs_intercalate hg h (by rintro rfl; simp at h2)
  have hne : ∀ type ∈ members, type.unionMembers ≠ [] := by
    intro type ht
    obtain ⟨_, halternatives⟩ := hform.exists_form type ht
    exact Joined.ne_nil halternatives
  exact ⟨tokens, hprints, Nat.le_trans h2 (length_le_flatMap hne), hform.flatMap⟩

/-- Texts with bars in between print the union of all their alternatives. -/
theorem printsAs_union {members : List TypeExpr} {texts : List String} {gap : String}
    (hg : Separates '|' gap.toList) (h : List.Forall₂ (PrintsAs AlternativesForm) members texts)
    (h2 : 2 ≤ members.length) :
    PrintsAs FlatForm (.union (members.flatMap TypeExpr.unionMembers)) (gap.intercalate texts) := by
  obtain ⟨tokens, hprints, hlength, hform⟩ := joined_alternatives hg h h2
  exact ⟨tokens, ⟨hlength, hform⟩, hprints⟩

/-- A union may begin with a bar of its own. -/
theorem printsAs_union_bar {members : List TypeExpr} {texts : List String} {gap : String}
    (hg : Separates '|' gap.toList) (h : List.Forall₂ (PrintsAs AlternativesForm) members texts)
    (h2 : 2 ≤ members.length) :
    PrintsAs BareForm (.union (members.flatMap TypeExpr.unionMembers))
      ("| " ++ gap.intercalate texts) := by
  obtain ⟨tokens, hprints, hlength, hform⟩ := joined_alternatives hg h h2
  refine ⟨_, unionForm_of_joined hlength true hform, ?_⟩
  have hbar := Prints.symbol (c := '|') (by decide) hprints.space
  simpa [Token.when] using hbar

/-- The form of a type among the operands of `&`. -/
def FactorsForm (type : TypeExpr) (tokens : List Token) : Prop :=
  Joined (ArrayForm Written) (.symbol '&') type.intersectionMembers tokens

/-- A union is put into parentheses to be a factor. -/
theorem printsAs_factor {type : TypeExpr} {text : String} (h : PrintsAs BareForm type text) :
    PrintsAs FactorsForm type (Layout.parenthesized type.isUnion text) := by
  by_cases hu : type.isUnion = true
  · rw [hu]
    refine (printsAs_parentheses h).imp fun tokens hf => ?_
    cases type with
    | union _ => exact .single (.primary hf)
    | _ => cases hu
  · rw [Bool.not_eq_true] at hu
    rw [hu]
    exact h.imp fun _ hf => hf.factors hu

/-- Texts with ampersands in between print the intersection of all their factors. -/
theorem printsAs_intersection {members : List TypeExpr} {texts : List String} {gap : String}
    (hg : Separates '&' gap.toList) (h : List.Forall₂ (PrintsAs FactorsForm) members texts)
    (h2 : 2 ≤ members.length) :
    PrintsAs BareForm (.intersection (members.flatMap TypeExpr.intersectionMembers))
      (gap.intercalate texts) := by
  obtain ⟨tokens, hform, hprints⟩ := printsAs_intercalate hg h (by rintro rfl; simp at h2)
  have hne : ∀ type ∈ members, type.intersectionMembers ≠ [] := by
    intro type ht
    obtain ⟨_, hfactors⟩ := hform.exists_form type ht
    exact Joined.ne_nil hfactors
  exact ⟨tokens, ⟨Nat.le_trans h2 (length_le_flatMap hne), hform.flatMap⟩, hprints⟩

/-- A slot prints its dots, its type and its mark. -/
theorem printsAs_slot {type : TypeExpr} {text : String} (isOptional isRest : Bool)
    (h : PrintsAs Written type text) :
    PrintsAs (SlotForm Written) ⟨type, isOptional, isRest⟩
      (Slot.decorate ⟨type, isOptional, isRest⟩ text) := by
  obtain ⟨tokens, hform, hprints⟩ := h
  refine ⟨_, .slot isOptional isRest hform, ?_⟩
  have hmark : Prints (tokens ++ (Token.symbol '?').when isOptional)
      (text.toList ++ (if isOptional then "?" else "").toList) := by
    cases isOptional
    · exact hprints.append prints_nil apart_nil
    · exact hprints.append (Prints.symbol (c := '?') (by decide) prints_nil)
        (apart_symbol (by decide) _)
  cases isRest
  · simpa [Slot.decorate, Token.when] using hmark
  · simpa [Slot.decorate, Token.when] using hmark.dots

/-- Slots between brackets, with blanks next to the brackets. -/
theorem printsAs_tuple {slots : List Slot} {texts : List String} {gap before after : String}
    (hg : Separates ',' gap.toList) (hb : Blanks before.toList) (ha : Blanks after.toList)
    (h : List.Forall₂ (PrintsAs (SlotForm Written)) slots texts) :
    PrintsAs BareForm (.tuple slots)
      ("[" ++ before ++ gap.intercalate texts ++ after ++ "]") := by
  have hclose := Prints.blanks ha (Prints.symbol (c := ']') (by decide) prints_nil)
  have hapart : Apart (after.toList ++ [']']) := ha.apart (apart_symbol (by decide) _)
  cases h with
  | nil =>
    refine ⟨_, PrimaryForm.emptyTuple, ?_⟩
    have hopen := Prints.symbol (c := '[') (by decide) (Prints.blanks hb hclose)
    simpa using hopen
  | cons hslot hslots =>
    obtain ⟨tokens, hform, hprints⟩ := printsAs_intercalate hg (.cons hslot hslots) (by simp)
    refine ⟨_, PrimaryForm.tuple false hform, ?_⟩
    have hinside := Prints.blanks hb (hprints.append hclose hapart)
    have hopen := Prints.symbol (c := '[') (by decide) hinside
    simpa [Token.when] using hopen

/-- A name prints its arguments between angle brackets. -/
theorem printsAs_generic {name : String} {args : List TypeExpr} {texts : List String}
    (hn : DottedName name.toList) (hr : name ∉ reservedNames) (hne : args ≠ [])
    (h : List.Forall₂ (PrintsAs BareForm) args texts) :
    PrintsAs BareForm (.reference name args)
      (name ++ "<" ++ ", ".intercalate texts ++ ">") := by
  have hargs := forall₂_of_mem h fun type _ text hp => hp.imp fun _ hf => hf.written
  obtain ⟨tokens, hform, hprints⟩ := printsAs_intercalate separates_comma hargs hne
  refine ⟨_, PrimaryForm.generic hr hform, ?_⟩
  have hclose := hprints.append (Prints.symbol (c := '>') (by decide) prints_nil)
    (apart_symbol (by decide) _)
  have hopen := Prints.symbol (c := '<') (by decide) hclose
  have hname := Prints.name hn (apart_symbol (by decide) _) hopen
  simpa using hname

/-! ## One-line forms -/

theorem printsAs_keyword (word : Keyword) :
    PrintsAs BareForm (.keyword word) word.text := by
  refine ⟨_, PrimaryForm.keyword word, ?_⟩
  have hword : isIdentifier word.text = true := by cases word <;> decide
  simpa using Prints.identifier hword apart_nil prints_nil

/-- A literal prints itself; a number does so in its normal form. -/
theorem printsAs_literal {value : Literal} (h : (TypeExpr.literal value).Sound) :
    PrintsAs BareForm (.literal value.plain) (value.text style) := by
  cases value with
  | string value =>
    refine ⟨_, PrimaryForm.string value, ?_⟩
    simpa [Literal.text] using Prints.string style.singleQuote value prints_nil
  | number text =>
    have hnumber : IsNumber text.toList := (forall_parts_literal.1 h).1
    refine ⟨_, PrimaryForm.number _, ?_⟩
    simpa [Literal.text] using Prints.number hnumber.normalize apart_nil prints_nil
  | bool value =>
    refine ⟨_, PrimaryForm.bool value, ?_⟩
    have hword : isIdentifier (if value then "true" else "false") = true := by
      cases value <;> decide
    simpa [Literal.text] using Prints.identifier hword apart_nil prints_nil

/-- A name that is not reserved prints a reference. -/
theorem printsAs_name {name : String} (hn : DottedName name.toList) (hr : name ∉ reservedNames) :
    PrintsAs BareForm (.reference name []) name := by
  refine ⟨_, PrimaryForm.reference hr, ?_⟩
  simpa using Prints.name hn apart_nil prints_nil

/-- Members between braces. -/
def BlockForm (members : List Member) (tokens : List Token) : Prop :=
  ∃ ts, MembersForm Written members ts ∧ tokens = .symbol '{' :: (ts ++ [.symbol '}'])

theorem BlockForm.bare {members : List Member} (h : BlockForm members tokens) :
    BareForm (.object members) tokens := by
  obtain ⟨ts, hform, rfl⟩ := h
  exact PrimaryForm.object hform

theorem printsAs_emptyBlock : PrintsAs BlockForm [] "\x7b\x7d" := by
  refine ⟨_, ⟨[], .nil, rfl⟩, ?_⟩
  have hclose := Prints.symbol (c := '}') (by decide) prints_nil
  exact Prints.symbol (c := '{') (by decide) hclose

/-- What holds of types and their texts holds of what is left of the types. -/
theorem forall₂_remains {R : TypeExpr → String → Prop} {types : List TypeExpr}
    {texts : List String}
    (h : List.Forall₂ (fun type text => R (type.remains true) text) types texts) :
    List.Forall₂ R (types.map (TypeExpr.remains true)) texts :=
  List.forall₂_map_left_iff.2 h

/-- Parentheses where they are wanted do not change what is printed. -/
theorem printsAs_parenthesized {type : TypeExpr} {text : String} (wanted : Bool)
    (h : PrintsAs BareForm type text) :
    PrintsAs Written type (Layout.parenthesized wanted text) := by
  cases wanted
  · exact h.imp fun _ hf => hf.written
  · exact (printsAs_parentheses h).imp fun _ hf => .mk (.single false (.single false (.primary hf)))

theorem slot_oneLine?_printsAs {slot : Slot} {text : String} (ht : slot.oneLine? style = some text)
    (h : ∀ bare, slot.type.oneLine? style = some bare →
      PrintsAs BareForm (slot.type.remains true) bare) :
    PrintsAs (SlotForm Written) (slot.remains true) text := by
  obtain ⟨type, isOptional, isRest⟩ := slot
  simp only [Slot.oneLine?, Option.bind_eq_bind, Option.bind_eq_some_iff, Option.pure_def,
    Option.some.injEq] at ht
  obtain ⟨bare, hbare, rfl⟩ := ht
  exact printsAs_slot isOptional isRest (printsAs_parenthesized _ (h bare hbare))

/-- What is left of a union has the members of the unions directly inside among its own. -/
theorem remains_union_eq (members : List TypeExpr) :
    (TypeExpr.union members).remains true =
      .union ((members.map (TypeExpr.remains true)).flatMap TypeExpr.unionMembers) := by
  rw [TypeExpr.remains, if_pos rfl, remainsOfTypes_eq]

theorem remains_intersection_eq (members : List TypeExpr) :
    (TypeExpr.intersection members).remains true =
      .intersection
        ((members.map (TypeExpr.remains true)).flatMap TypeExpr.intersectionMembers) := by
  rw [TypeExpr.remains, if_pos rfl, remainsOfTypes_eq]

/-- The one-line form of a type prints what is left of the type. -/
theorem oneLine?_printsAs {type : TypeExpr} {text : String} (h : type.Sound)
    (ht : type.oneLine? style = some text) : PrintsAs FlatForm (type.remains true) text := by
  induction type using TypeExpr.ind generalizing text with
  | keyword word =>
    cases ht
    exact printsAs_keyword word
  | literal value =>
    cases ht
    exact printsAs_literal h
  | reference name args ih =>
    obtain ⟨⟨⟨hname, hreserved⟩, -⟩, hargs⟩ := forall_parts_reference.1 h
    rw [TypeExpr.remains, remainsOfTypes_eq]
    cases args with
    | nil =>
      cases ht
      exact printsAs_name hname hreserved
    | cons arg args =>
      simp only [TypeExpr.oneLine?, Option.bind_eq_bind, Option.bind_eq_some_iff, Option.pure_def,
        Option.some.injEq] at ht
      obtain ⟨first, hfirst, others, hothers, rfl⟩ := ht
      have hlines : oneLines? style (arg :: args) = some (first :: others) := by
        simp [oneLines?, hfirst, hothers]
      refine printsAs_generic hname hreserved (by simp) (forall₂_remains ?_)
      exact forall₂_of_mem (oneLines?_eq_some hlines) fun type hmem text hline =>
        (ih type hmem (hargs type hmem) hline).imp fun _ hf => hf.bare
  | array element ih =>
    simp only [TypeExpr.oneLine?, Option.bind_eq_bind, Option.bind_eq_some_iff, Option.pure_def,
      Option.some.injEq] at ht
    obtain ⟨bare, hbare, rfl⟩ := ht
    have helement := (ih (forall_parts_array.1 h).2 hbare).imp fun _ hf => hf.bare
    have hoperand := printsAs_operand helement
    rw [TypeExpr.hasOperator_remains] at hoperand
    exact printsAs_array hoperand
  | tuple slots ih =>
    simp only [TypeExpr.oneLine?, Option.bind_eq_bind, Option.bind_eq_some_iff, Option.pure_def,
      Option.some.injEq] at ht
    obtain ⟨texts, htexts, rfl⟩ := ht
    have hslots := (forall_parts_tuple.1 h).2
    have hprints : List.Forall₂ (PrintsAs (SlotForm Written)) (slots.map (Slot.remains true))
        texts := by
      refine List.forall₂_map_left_iff.2 (forall₂_of_mem (slotsOneLine?_eq_some htexts) ?_)
      intro slot hs text hline
      exact slot_oneLine?_printsAs hline fun bare hbare =>
        (ih slot hs (hslots slot hs) hbare).imp fun _ hf => hf.bare
    rw [TypeExpr.remains, remainsOfSlots_eq]
    have htuple := @printsAs_tuple _ _ ", " "" "" separates_comma .nil .nil hprints
    rwa [String.append_empty, String.append_empty] at htuple
  | object members _ =>
    cases members with
    | nil =>
      cases ht
      exact printsAs_emptyBlock.imp fun _ hf => hf.bare
    | cons _ _ => cases ht
  | union members ih =>
    obtain ⟨h2, hmembers⟩ := TypeExpr.sound_union.1 h
    simp only [TypeExpr.oneLine?, Option.bind_eq_bind, Option.bind_eq_some_iff, Option.pure_def,
      Option.some.injEq] at ht
    obtain ⟨texts, htexts, rfl⟩ := ht
    rw [remains_union_eq]
    refine printsAs_union separates_bar (forall₂_remains ?_) (by simpa using h2)
    exact forall₂_of_mem (oneLines?_eq_some htexts) fun type hmem text hline =>
      (ih type hmem (hmembers type hmem) hline).imp fun _ hf => hf.alternatives
  | intersection members ih =>
    obtain ⟨h2, hmembers⟩ := TypeExpr.sound_intersection.1 h
    simp only [TypeExpr.oneLine?, Option.bind_eq_bind, Option.bind_eq_some_iff, Option.pure_def,
      Option.some.injEq] at ht
    obtain ⟨texts, htexts, rfl⟩ := ht
    rw [remains_intersection_eq]
    refine printsAs_intersection separates_ampersand (forall₂_remains ?_) (by simpa using h2)
    refine forall₂_of_mem (factorsOneLine?_eq_some htexts) fun type hmem text hline => ?_
    obtain ⟨bare, hbare, rfl⟩ := hline
    have hfactor := printsAs_factor
      ((ih type hmem (hmembers type hmem) hbare).imp fun _ hf => hf.bare)
    rwa [TypeExpr.isUnion_remains] at hfactor
  | verbatim text => cases (h _ (TypeExpr.mem_parts_self _)).2

/-! ## Types that have a one-line form -/

/-- Types fit on a line together if each of them does. -/
theorem oneLines?_isSome {types : List TypeExpr}
    (h : ∀ type ∈ types, ∃ text, type.oneLine? style = some text) :
    ∃ texts, oneLines? style types = some texts := by
  induction types with
  | nil => exact ⟨[], rfl⟩
  | cons type types ih =>
    obtain ⟨text, htext⟩ := h type (List.mem_cons_self ..)
    obtain ⟨texts, htexts⟩ := ih fun t ht => h t (List.mem_cons_of_mem _ ht)
    exact ⟨text :: texts, by simp [oneLines?, htext, htexts]⟩

theorem factorsOneLine?_isSome {types : List TypeExpr}
    (h : ∀ type ∈ types, ∃ text, type.oneLine? style = some text) :
    ∃ texts, factorsOneLine? style types = some texts := by
  induction types with
  | nil => exact ⟨[], rfl⟩
  | cons type types ih =>
    obtain ⟨text, htext⟩ := h type (List.mem_cons_self ..)
    obtain ⟨texts, htexts⟩ := ih fun t ht => h t (List.mem_cons_of_mem _ ht)
    simp [factorsOneLine?, htext, htexts]

theorem slotsOneLine?_isSome {slots : List Slot}
    (h : ∀ slot ∈ slots, ∃ text, slot.type.oneLine? style = some text) :
    ∃ texts, slotsOneLine? style slots = some texts := by
  induction slots with
  | nil => exact ⟨[], rfl⟩
  | cons slot slots ih =>
    obtain ⟨text, htext⟩ := h slot (List.mem_cons_self ..)
    obtain ⟨texts, htexts⟩ := ih fun t ht => h t (List.mem_cons_of_mem _ ht)
    obtain ⟨type, isOptional, isRest⟩ := slot
    simp [slotsOneLine?, Slot.oneLine?, htext, htexts]

/-- Only object types with members have no one-line form. -/
theorem oneLine?_isSome {type : TypeExpr}
    (h : ∀ part ∈ type.parts, part.isFilledObject = false) :
    ∃ text, type.oneLine? style = some text := by
  induction type using TypeExpr.ind with
  | keyword _ | literal _ | verbatim _ => exact ⟨_, rfl⟩
  | reference name args ih =>
    have hargs : ∀ type ∈ args, ∃ text, type.oneLine? style = some text := by
      simp only [TypeExpr.parts, partsOfTypes_eq, List.forall_mem_cons, List.forall_mem_flatMap]
        at h
      exact fun type ht => ih type ht (h.2 type ht)
    cases args with
    | nil => exact ⟨_, rfl⟩
    | cons arg args =>
      obtain ⟨hfirst, hothers⟩ := List.forall_mem_cons.1 hargs
      obtain ⟨text, htext⟩ := hfirst
      obtain ⟨texts, htexts⟩ := oneLines?_isSome hothers
      simp [TypeExpr.oneLine?, htext, htexts]
  | array element ih =>
    obtain ⟨text, htext⟩ := ih fun part hp => h part (List.mem_cons_of_mem _ hp)
    simp [TypeExpr.oneLine?, htext]
  | tuple slots ih =>
    simp only [TypeExpr.parts, partsOfSlots_eq, List.forall_mem_cons, List.forall_mem_flatMap,
      Slot.parts_eq] at h
    obtain ⟨texts, htexts⟩ := slotsOneLine?_isSome fun slot hs => ih slot hs (h.2 slot hs)
    simp [TypeExpr.oneLine?, htexts]
  | object members _ =>
    cases members with
    | nil => exact ⟨_, rfl⟩
    | cons member members => cases h _ (TypeExpr.mem_parts_self _)
  | union members ih =>
    simp only [TypeExpr.parts, partsOfTypes_eq, List.forall_mem_cons, List.forall_mem_flatMap] at h
    obtain ⟨texts, htexts⟩ := oneLines?_isSome fun type ht => ih type ht (h.2 type ht)
    simp [TypeExpr.oneLine?, htexts]
  | intersection members ih =>
    simp only [TypeExpr.parts, partsOfTypes_eq, List.forall_mem_cons, List.forall_mem_flatMap] at h
    obtain ⟨texts, htexts⟩ := factorsOneLine?_isSome fun type ht => ih type ht (h.2 type ht)
    simp [TypeExpr.oneLine?, htexts]

end LintTypes.Source
