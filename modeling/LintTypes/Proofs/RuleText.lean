import LintTypes.Proofs.Rebasing
import LintTypes.Proofs.RoundTrip
import LintTypes.Proofs.SchemaForms
import LintTypes.Proofs.StyleChoices
import LintTypes.Rule

/-!
# The declarations of a rule

The text of a rule's options is read back as what it was made of: the declarations of its schemas,
one schema after the other, and then the alias that joins them. Whether the first schema is used as
it is can be told from its text as well as from its declarations.
-/

namespace LintTypes

open Source

namespace Rule

/-- The declarations of the schemas of a rule. -/
def modules (style : Style) (rule : Rule) : Except SchemaProblem (List Declarations) :=
  rule.schema.elements.zipIdx.mapM fun (schema, index) =>
    Schema.declarations schema.rebase (elementName index) style

/-- Whether the first declaration is an alias of a union of tuples, which is a choice of argument
lists. -/
def offersLists : Declarations → Bool
  | .typeAlias _ (.union members) _ :: _ => members.all TypeExpr.isTuple
  | _ => false

/-- The type of a rule's options, whose schemas have these declarations. -/
def optionsType : List Declarations → TypeExpr
  | [] => .tuple []
  | [module] =>
    if offersLists module then .named "Schema0" else .tuple [.optional (.named "Schema0")]
  | modules =>
    .tuple ((List.range modules.length).map fun index => .optional (.named (elementName index)))

/-! ## The alias -/

theorem isTitleName_elementName (index : Nat) : Names.IsTitleName (elementName index) := by
  have hstart : Names.IsTitleName "Schema" :=
    ⟨'S', "chema".toList, rfl, by decide, by decide, List.all_eq_true.1 (by decide)⟩
  exact hstart.append_toString index

theorem printsAs_elementName (index : Nat) :
    PrintsAs BareForm (.named (elementName index)) (elementName index) :=
  printsAs_name (.identifier (isTitleName_elementName index).isIdentifier)
    (isTitleName_elementName index).not_reserved

theorem printsAs_optionals (indices : List Nat) :
    PrintsAs BareForm
      (.tuple (indices.map fun index => .optional (.named (elementName index))))
      ("[" ++ ", ".intercalate (indices.map fun index => elementName index ++ "?") ++ "]") := by
  have hslots : List.Forall₂ (PrintsAs (SlotForm Written))
      (indices.map fun index => .optional (.named (elementName index)))
      (indices.map fun index => elementName index ++ "?") := by
    rw [List.forall₂_map_left_iff, List.forall₂_map_right_iff, List.forall₂_same]
    intro index _
    have hslot := printsAs_slot true false ((printsAs_elementName index).imp fun _ h => h.written)
    have hmark : Slot.decorate (.optional (.named (elementName index))) (elementName index) =
        elementName index ++ "?" := by
      simp [Slot.decorate, Slot.optional]
    exact hmark ▸ hslot
  have htuple := @printsAs_tuple _ _ _ "" "" separates_comma .nil .nil hslots
  simpa using htuple

theorem printsAs_slots (count : Nat) :
    PrintsAs BareForm
      (.tuple ((List.range count).map fun index => .optional (.named (elementName index))))
      (joinedTypeText count false) := by
  have htext : joinedTypeText count false = "[" ++
      ", ".intercalate ((List.range count).map fun index => elementName index ++ "?") ++ "]" := by
    rw [joinedTypeText, if_neg (by simp)]
  rw [htext]
  exact printsAs_optionals _

/-- The written type of a rule's options. -/
theorem printsAs_joinedType {modules : List Declarations} {complete : Bool}
    (hc : ∀ module, modules = [module] → complete = offersLists module) :
    PrintsAs BareForm (optionsType modules) (joinedTypeText modules.length complete) := by
  match modules with
  | [] => exact printsAs_slots 0
  | [module] =>
    rw [hc module rfl, optionsType]
    cases offersLists module with
    | true => exact printsAs_elementName 0
    | false => exact printsAs_slots 1
  | first :: second :: others =>
    have hcount : joinedTypeText (first :: second :: others).length complete =
        joinedTypeText (first :: second :: others).length false := by
      rw [joinedTypeText, joinedTypeText, if_neg (by simp), if_neg (by simp)]
    rw [hcount]
    exact printsAs_slots _

theorem printsAs_alias {name : String} (hname : isIdentifier name = true) {type : TypeExpr}
    {text : String} (h : PrintsAs BareForm type text) :
    PrintsAs DeclarationsForm [.typeAlias name type none]
      ("export type " ++ name ++ " = " ++ text) := by
  obtain ⟨tokens, hform, hprints⟩ := h
  refine ⟨_, .cons true false false (.typeAlias hname hform.written) .nil, ?_⟩
  have hall := prints_aliasHead hname hprints.space
  simpa only [Token.when, if_true, Bool.false_eq_true, if_false, List.append_nil,
    String.toList_append, String.reduceToList, List.append_assoc, List.cons_append,
    List.nil_append] using hall

/-! ## The first declaration -/

theorem shape_plain (declaration : Declaration) : declaration.plain.shape = declaration.shape := by
  cases declaration with
  | interface => rfl
  | typeAlias name type comment =>
    cases type with
    | union members =>
      have htuple : TypeExpr.isTuple ∘ TypeExpr.remains false = TypeExpr.isTuple := by
        funext member
        cases member <;> rfl
      simp only [Declaration.plain, Declaration.remains, TypeExpr.remains, remainsOfTypes_eq,
        Bool.false_eq_true, if_false, Declaration.shape, List.all_map, htuple]
    | _ => rfl

theorem offersLists_iff {declaration : Declaration} {others : Declarations} :
    offersLists (declaration :: others) = decide (declaration.shape = .unionOfTuples) := by
  cases declaration with
  | interface => rfl
  | typeAlias name type comment =>
    cases type with
    | union members =>
      simp only [offersLists, Declaration.shape]
      split <;> simp_all
    | _ => rfl

/-- The shape that is read from a text is that of the declaration it was made of. -/
theorem firstShape_render {style : Style} (hb : style.BannerIsComment) {declaration : Declaration}
    {others : Declarations} (h : ∀ d ∈ declaration :: others, d.Printable) :
    firstShape (Declarations.render style (declaration :: others)) = .ok declaration.shape := by
  have hread := Declarations.ofSource_remains hb h
  rw [firstShape, hread]
  show Except.ok (declaration.remains true).shape = _
  rw [Declaration.remains_of_printable (h _ (List.mem_cons_self ..)), shape_plain]

/-! ## The text -/

variable {style : Style} {rule : Rule}

theorem mapM_ok_iff {ε α β : Type} {f : α → Except ε β} {xs : List α} {ys : List β} :
    xs.mapM f = .ok ys ↔ List.Forall₂ (fun x y => f x = .ok y) xs ys := by
  induction xs generalizing ys with
  | nil =>
    rw [List.mapM_nil, List.forall₂_nil_left_iff]
    exact ⟨fun h => by cases h; rfl, fun h => by rw [h]; rfl⟩
  | cons x xs ih =>
    rw [List.mapM_cons]
    constructor
    · intro h
      cases hx : f x with
      | error problem =>
        rw [hx] at h
        cases h
      | ok y =>
        cases hxs : xs.mapM f with
        | error problem =>
          rw [hx, hxs] at h
          cases h
        | ok rest =>
          rw [hx, hxs] at h
          cases h
          exact .cons hx (ih.1 hxs)
    · rintro (_ | ⟨hx, hxs⟩)
      rw [hx, ih.2 hxs]
      rfl

/-- Each module is that of a schema without a written type. -/
theorem modules_printable (ht : ∀ element ∈ rule.schema.elements, element.Lacks "tsType")
    {modules : List Declarations} (hm : rule.modules style = .ok modules) :
    ∀ module ∈ modules, module ≠ [] ∧ ∀ declaration ∈ module, declaration.Printable := by
  intro module hmodule
  obtain ⟨⟨element, index⟩, helement, hdecl⟩ :=
    (Schema.forall₂_exists (mapM_ok_iff.1 hm)).2 module hmodule
  have hmem : element ∈ rule.schema.elements := (List.mem_zipIdx' helement).2 ▸ List.getElem_mem _
  exact Schema.declarations_printable (ht element hmem).rebase (isTitleName_elementName index) hdecl

/-- The texts of the schemas, one for each module. -/
theorem declareElements_eq {modules : List Declarations} (hm : rule.modules style = .ok modules) :
    declareElements .standard style rule.schema.elements =
      .ok (modules.map (Declarations.render style)) := by
  refine mapM_ok_iff.2 (List.forall₂_map_right_iff.2 ((mapM_ok_iff.1 hm).imp ?_))
  rintro ⟨element, index⟩ module hdecl
  dsimp only at hdecl ⊢
  rw [Declarer.standard, hdecl]

/-- The texts of the modules, one after the other, in front of the alias. -/
theorem printsAs_modules (hb : style.BannerIsComment) {modules : List Declarations}
    (h : ∀ module ∈ modules, ∀ declaration ∈ module, declaration.Sound ∧ declaration.Faithful style)
    {others : Declarations} {rest : String} (hr : PrintsAs DeclarationsForm others rest) :
    PrintsAs DeclarationsForm (modules.flatten.map (Declaration.remains true) ++ others)
      (String.join (modules.map (Declarations.render style)) ++ rest) := by
  induction modules with
  | nil => simpa using hr
  | cons module modules ih =>
    obtain ⟨hmodule, hmodules⟩ := List.forall_mem_cons.1 h
    have hall := printsAs_render hb hmodule (ih hmodules)
    simpa only [List.flatten_cons, List.map_append, List.append_assoc, List.map_cons,
      String.join_cons, String.append_assoc] using hall

theorem source_nil {declarer : Declarer} (name : String)
    (hd : declareElements declarer style rule.schema.elements = .ok []) :
    rule.source declarer style name = .ok ("export type " ++ name ++ " = []") := by
  unfold source
  rw [hd]
  rfl

theorem source_cons {declarer : Declarer} (name : String) {first : String} {others : List String}
    (hd : declareElements declarer style rule.schema.elements = .ok (first :: others))
    {shape : DeclarationShape} (hs : firstShape first = .ok shape) :
    rule.source declarer style name =
      .ok (String.join (first :: others) ++ ("export type " ++ name ++ " = " ++
        joinedTypeText (first :: others).length (shape = .unionOfTuples))) := by
  unfold source
  simp only [hd, hs, bind, Except.bind, pure, Except.pure, List.length_cons, String.append_assoc]

/-- A rule whose modules are printable has a text, which prints them and the alias. -/
theorem printsAs_source (hb : style.BannerIsComment) {name : String}
    (hname : isIdentifier name = true) {modules : List Declarations}
    (hm : rule.modules style = .ok modules)
    (h : ∀ module ∈ modules, module ≠ [] ∧ ∀ declaration ∈ module, declaration.Printable) :
    ∃ text, rule.source .standard style name = .ok text ∧
      PrintsAs DeclarationsForm
        (modules.flatten.map Declaration.plain ++ [.typeAlias name (optionsType modules) none])
        text := by
  have hd := declareElements_eq hm
  cases modules with
  | nil =>
    have hempty : joinedTypeText 0 false = "[]" := by decide
    have halias := printsAs_alias hname (printsAs_slots 0)
    rw [hempty, String.append_assoc] at halias
    refine ⟨_, source_nil name hd, ?_⟩
    rw [String.append_assoc]
    exact halias
  | cons module modules =>
    obtain ⟨⟨hne, hmodule⟩, -⟩ := List.forall_mem_cons.1 h
    obtain ⟨first, others, rfl⟩ := List.exists_cons_of_ne_nil hne
    refine ⟨_, source_cons name hd (firstShape_render hb hmodule), ?_⟩
    have hjoined := @printsAs_joinedType ((first :: others) :: modules)
      (decide (first.shape = .unionOfTuples)) (by
        rintro _ ⟨⟩
        exact offersLists_iff.symm)
    have hfaithful : ∀ m ∈ (first :: others) :: modules, ∀ d ∈ m, d.Sound ∧ d.Faithful style :=
      fun m hmem d hd => ((h m hmem).2 d hd).sound_faithful
    have hall := printsAs_modules hb hfaithful (printsAs_alias hname hjoined)
    have hplain : ((first :: others) :: modules).flatten.map (Declaration.remains true) =
        ((first :: others) :: modules).flatten.map Declaration.plain := by
      refine List.map_congr_left fun d hd => ?_
      obtain ⟨m, hmem, hd⟩ := List.mem_flatten.1 hd
      exact Declaration.remains_of_printable ((h m hmem).2 d hd)
    rw [hplain] at hall
    simpa only [List.map_cons, List.length_map, List.length_cons] using hall

theorem modules_congr {style' : Style} (h : style.SameTypes style') :
    rule.modules style = rule.modules style' := by
  have hf : (fun element : Json × Nat =>
      Schema.declarations element.1.rebase (elementName element.2) style) =
      fun element => Schema.declarations element.1.rebase (elementName element.2) style' :=
    funext fun element => Schema.declarations_congr h element.1.rebase (elementName element.2)
  exact congrArg (fun f => rule.schema.elements.zipIdx.mapM f) hf

/-- The text of a rule's options is read back as the declarations of its schemas, in order, and the
alias that joins them. Whether the first schema is a choice of argument lists is the same in every
layout. -/
theorem ofSource_source {name : String} {modules : List Declarations}
    (hname : isIdentifier name = true) (hb : style.BannerIsComment)
    (ht : ∀ element ∈ rule.schema.elements, element.Lacks "tsType")
    (hm : rule.modules style = .ok modules) :
    (∃ text, rule.source .standard style name = .ok text ∧
      Declarations.ofSource text = .ok (modules.flatten.map Declaration.plain ++
        [.typeAlias name (optionsType modules) none])) ∧
      ∀ style', style.SameTypes style' → style'.BannerIsComment →
        rule.modules style' = .ok modules ∧ ∀ module ∈ modules,
          ∃ shape, firstShape (Declarations.render style' module) = .ok shape ∧
            (shape = .unionOfTuples ↔ offersLists module = true) := by
  have hprintable := modules_printable ht hm
  refine ⟨?_, fun style' hsame hb' => ⟨modules_congr hsame ▸ hm, fun module hmodule => ?_⟩⟩
  · obtain ⟨text, hsource, tokens, hform, hprints⟩ := printsAs_source hb hname hm hprintable
    exact ⟨text, hsource, Declarations.ofSource_spells hform hprints.spells⟩
  · obtain ⟨hne, hmodule⟩ := hprintable module hmodule
    obtain ⟨first, others, rfl⟩ := List.exists_cons_of_ne_nil hne
    exact ⟨first.shape, firstShape_render hb' hmodule, by rw [offersLists_iff, decide_eq_true_iff]⟩

/-- A rule with at most one option, which is a number. -/
def numberRule : Rule where
  schema := .single (.object [("maxItems", .number (.integer 1)), ("items", .array [.object
    [("title", .string "only"), ("const", .number (.integer ⟨-1, by decide, by decide⟩))]])])

/-- Below a banner and on a page without width, the options are a choice of argument lists. -/
theorem ofSource_source_numberRule :
    ∃ text, numberRule.source .standard { bannerComment := "/* made */", printWidth := 0 } "Options"
        = .ok text ∧
      Declarations.ofSource text = .ok [
        .typeAlias "Schema0" (.union [.tuple [], .tuple [.required (.named "Only")]]) none,
        .typeAlias "Only" (.literal (.number "-1")) none,
        .typeAlias "Options" (.named "Schema0") none] := by
  have hbanner : Style.BannerIsComment { bannerComment := "/* made */", printWidth := 0 } :=
    show Blanks ('/' :: '*' :: (" made ".toList ++ '*' :: '/' :: ['\n'])) from
      .blockComment (afterCommentEnd?_eq_none.1 rfl) (.space (by decide) .nil)
  have hlacks : ∀ element ∈ numberRule.schema.elements, element.Lacks "tsType" := by
    simp [numberRule, RuleSchema.elements]
  have hmodules : numberRule.modules { bannerComment := "/* made */", printWidth := 0 } = .ok [[
      .typeAlias "Schema0" (.union [.tuple [], .tuple [.required (.named "Only")]]) none,
      .typeAlias "Only" (.literal (.number "-1")) none]] := rfl
  exact (ofSource_source (by decide) hbanner hlacks hmodules).1

end Rule

end LintTypes
