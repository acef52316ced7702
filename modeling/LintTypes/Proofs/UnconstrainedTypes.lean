import LintTypes.Proofs.NormalForms
import LintTypes.Proofs.RunsInStep

/-!
# The type of unconstrained values

A user may choose whether unconstrained values are `unknown` or `any`. The choice makes no other
difference: the two runs on a document go in step, and what they declare is the same once `any` is
written for `unknown`. That relation is kept by all that is done to make types, the intersection of
no types included, which is `unknown` in both runs.

For that one the choice does not count. Where no schema is the intersection of no schemas, nothing
that is declared is `unknown` unless the user has chosen so, and then the declarations with `any`
are the other ones with each `unknown` replaced.
-/

namespace LintTypes

/-! ## Keywords replaced -/

mutual

/-- The type with its reserved words replaced, at every depth. -/
def TypeExpr.mapKeywords (f : Keyword → Keyword) : TypeExpr → TypeExpr
  | .keyword word => .keyword (f word)
  | .literal value => .literal value
  | .reference name args => .reference name (mapKeywordsOfTypes f args)
  | .array element => .array (element.mapKeywords f)
  | .tuple slots => .tuple (mapKeywordsOfSlots f slots)
  | .object members => .object (mapKeywordsOfMembers f members)
  | .union members => .union (mapKeywordsOfTypes f members)
  | .intersection members => .intersection (mapKeywordsOfTypes f members)
  | .verbatim text => .verbatim text

/-- Several types with their reserved words replaced. -/
def mapKeywordsOfTypes (f : Keyword → Keyword) : List TypeExpr → List TypeExpr
  | [] => []
  | type :: types => type.mapKeywords f :: mapKeywordsOfTypes f types

/-- A slot with the reserved words in its type replaced. -/
def Slot.mapKeywords (f : Keyword → Keyword) : Slot → Slot
  | ⟨type, isOptional, isRest⟩ => ⟨type.mapKeywords f, isOptional, isRest⟩

/-- Several slots with the reserved words in their types replaced. -/
def mapKeywordsOfSlots (f : Keyword → Keyword) : List Slot → List Slot
  | [] => []
  | slot :: slots => slot.mapKeywords f :: mapKeywordsOfSlots f slots

/-- The key of a member with the reserved words in it replaced. -/
def MemberKey.mapKeywords (f : Keyword → Keyword) : MemberKey → MemberKey
  | .named name => .named name
  | .index param type => .index param (type.mapKeywords f)

/-- A member with the reserved words in its types replaced. -/
def Member.mapKeywords (f : Keyword → Keyword) : Member → Member
  | ⟨key, type, isOptional, isReadonly, comment⟩ =>
    ⟨key.mapKeywords f, type.mapKeywords f, isOptional, isReadonly, comment⟩

/-- Several members with the reserved words in their types replaced. -/
def mapKeywordsOfMembers (f : Keyword → Keyword) : List Member → List Member
  | [] => []
  | member :: members => member.mapKeywords f :: mapKeywordsOfMembers f members

end

/-- A declaration with the reserved words in its types replaced. -/
def Declaration.mapKeywords (f : Keyword → Keyword) : Declaration → Declaration
  | .typeAlias name type comment => .typeAlias name (type.mapKeywords f) comment
  | .interface name parents members comment =>
    .interface name (parents.map (TypeExpr.mapKeywords f)) (members.map (Member.mapKeywords f))
      comment

/-- Every `unknown` becomes `any`. -/
def Keyword.withAny : Keyword → Keyword
  | .unknown => .any
  | word => word

/-- The declaration with `any` for every `unknown`. -/
def Declaration.withAny (declaration : Declaration) : Declaration :=
  declaration.mapKeywords Keyword.withAny

section Replaced

variable (f : Keyword → Keyword)

@[simp]
theorem mapKeywordsOfTypes_eq (types : List TypeExpr) :
    mapKeywordsOfTypes f types = types.map (TypeExpr.mapKeywords f) := by
  induction types with
  | nil => rfl
  | cons type types ih => rw [mapKeywordsOfTypes, ih, List.map_cons]

@[simp]
theorem mapKeywordsOfSlots_eq (slots : List Slot) :
    mapKeywordsOfSlots f slots = slots.map (Slot.mapKeywords f) := by
  induction slots with
  | nil => rfl
  | cons slot slots ih => rw [mapKeywordsOfSlots, ih, List.map_cons]

@[simp]
theorem mapKeywordsOfMembers_eq (members : List Member) :
    mapKeywordsOfMembers f members = members.map (Member.mapKeywords f) := by
  induction members with
  | nil => rfl
  | cons member members ih => rw [mapKeywordsOfMembers, ih, List.map_cons]

theorem Declaration.mapKeywords_ofType (name : String) (type : TypeExpr)
    (comment : Option String) :
    (Declaration.ofType name type comment).mapKeywords f =
      .ofType name (type.mapKeywords f) comment := by
  cases type with
  | object members =>
    simp only [Declaration.ofType, Declaration.mapKeywords, TypeExpr.mapKeywords, List.map_nil,
      mapKeywordsOfMembers_eq]
  | _ => rfl

/-- If each reserved word in the type stays as it is, so does the type. -/
theorem TypeExpr.mapKeywords_eq_self {type : TypeExpr}
    (h : ∀ word, .keyword word ∈ type.parts → f word = word) : type.mapKeywords f = type := by
  have hparts : ∀ part ∈ type.parts, ∀ word, part = .keyword word → f word = word :=
    fun part hpart word hword => h word (hword ▸ hpart)
  clear h
  induction type using TypeExpr.ind with
  | keyword word => exact congrArg TypeExpr.keyword (hparts _ (mem_parts_self _) word rfl)
  | literal _ | verbatim _ => rfl
  | reference name args ih =>
    obtain ⟨-, hargs⟩ := forall_parts_reference.1 hparts
    simp only [mapKeywords, mapKeywordsOfTypes_eq]
    rw [List.map_congr_left fun type htype => ih type htype (hargs type htype), List.map_id']
  | array element ih =>
    obtain ⟨-, helement⟩ := forall_parts_array.1 hparts
    rw [mapKeywords, ih helement]
  | tuple slots ih =>
    obtain ⟨-, hslots⟩ := forall_parts_tuple.1 hparts
    simp only [mapKeywords, mapKeywordsOfSlots_eq]
    rw [List.map_congr_left (g := id), List.map_id]
    rintro ⟨type, _, _⟩ hslot
    rw [Slot.mapKeywords, ih _ hslot (hslots _ hslot)]
    rfl
  | object members ih =>
    obtain ⟨-, hmembers⟩ := forall_parts_object.1 hparts
    simp only [mapKeywords, mapKeywordsOfMembers_eq]
    rw [List.map_congr_left (g := id), List.map_id]
    intro member hmember
    obtain ⟨htype, hkey⟩ := ih member hmember
    obtain ⟨htypeParts, hkeyParts⟩ := forall_parts_member.1 (hmembers member hmember)
    obtain ⟨key, type, _, _, _⟩ := member
    have hkey : key.mapKeywords f = key := by
      cases key with
      | named name => rfl
      | index param type =>
        rw [MemberKey.mapKeywords, hkey param type rfl (hkeyParts param type rfl)]
    rw [Member.mapKeywords, htype htypeParts, hkey]
    rfl
  | union members ih =>
    obtain ⟨-, hmembers⟩ := forall_parts_union.1 hparts
    simp only [mapKeywords, mapKeywordsOfTypes_eq]
    rw [List.map_congr_left fun type htype => ih type htype (hmembers type htype), List.map_id']
  | intersection members ih =>
    obtain ⟨-, hmembers⟩ := forall_parts_intersection.1 hparts
    simp only [mapKeywords, mapKeywordsOfTypes_eq]
    rw [List.map_congr_left fun type htype => ih type htype (hmembers type htype), List.map_id']

/-! ## Unions and intersections -/

theorem TypeExpr.mapKeywords_combine {empty : TypeExpr} {wrap : List TypeExpr → TypeExpr}
    (hwrap : ∀ types, (wrap types).mapKeywords f = wrap (types.map (mapKeywords f)))
    (types : List TypeExpr) :
    (combine empty wrap types).mapKeywords f =
      combine (empty.mapKeywords f) wrap (types.map (mapKeywords f)) := by
  match types with
  | [] => rfl
  | [type] => rfl
  | _ :: _ :: _ => exact hwrap _

/-- Replacing reserved words makes no difference to what is spliced into a union. -/
theorem TypeExpr.mapKeywords_unionOf (types : List TypeExpr) :
    (unionOf types).mapKeywords f =
      combine (.keyword (f .never)) .union
        ((types.map (mapKeywords f)).flatMap unionMembers) := by
  have hmembers : ∀ type : TypeExpr,
      unionMembers (type.mapKeywords f) = (unionMembers type).map (mapKeywords f) := by
    intro type
    cases type with
    | union members => simp [mapKeywords, unionMembers]
    | _ => simp [mapKeywords, unionMembers]
  rw [unionOf_eq, mapKeywords_combine f (fun types => by simp [mapKeywords]), List.map_flatMap,
    List.flatMap_map]
  simp only [hmembers, mapKeywords]

theorem TypeExpr.mapKeywords_intersectionOf (types : List TypeExpr) :
    (intersectionOf types).mapKeywords f =
      combine (.keyword (f .unknown)) .intersection
        ((types.map (mapKeywords f)).flatMap intersectionMembers) := by
  have hmembers : ∀ type : TypeExpr,
      intersectionMembers (type.mapKeywords f) =
        (intersectionMembers type).map (mapKeywords f) := by
    intro type
    cases type with
    | intersection members => simp [mapKeywords, intersectionMembers]
    | _ => simp [mapKeywords, intersectionMembers]
  rw [intersectionOf_eq, mapKeywords_combine f (fun types => by simp [mapKeywords]),
    List.map_flatMap, List.flatMap_map]
  simp only [hmembers, mapKeywords]

end Replaced

namespace Schema

open TypeExpr Relation

/-- The types are the same once their reserved words are replaced. -/
def SameUpTo (f : Keyword → Keyword) (type type' : TypeExpr) : Prop :=
  type.mapKeywords f = type'.mapKeywords f

theorem congruent_sameUpTo (f : Keyword → Keyword) : Congruent (SameUpTo f) Eq where
  keyword _ _ _ := rfl
  literal _ := rfl
  array h := congrArg TypeExpr.array h
  tuple h := by
    unfold SameUpTo
    simp only [mapKeywords, mapKeywordsOfSlots_eq]
    rw [map_eq_of_forall₂ h fun slot slot' hpair => ?_]
    cases hpair with
    | required h => exact congrArg Slot.required h
    | rest h => exact congrArg Slot.rest h
  object h := by
    unfold SameUpTo
    simp only [mapKeywords, mapKeywordsOfMembers_eq]
    rw [map_eq_of_forall₂ h fun member member' hpair => ?_]
    cases hpair with
    | @property name isOptional _ _ comment _ h hc =>
      subst hc
      exact congrArg (Member.property name · isOptional comment) h
    | @anyKey type type' h =>
      show (⟨_, _, _, _, _⟩ : Member) = ⟨_, _, _, _, _⟩
      rw [show type.mapKeywords f = type'.mapKeywords f from h]
  unionOf h := by
    unfold SameUpTo
    rw [mapKeywords_unionOf, mapKeywords_unionOf, map_eq_of_forall₂ h fun _ _ h => h]
  intersectionOf _ h := by
    unfold SameUpTo
    rw [mapKeywords_intersectionOf, mapKeywords_intersectionOf,
      map_eq_of_forall₂ h fun _ _ h => h]
  unknown := rfl

/-! ## The two choices -/

/-- The choices with `unknown` for unconstrained values. -/
def withUnknown (style : Style) : Style := { style with unknownAny := true }

/-- The choices with `any` for unconstrained values. -/
def withoutUnknown (style : Style) : Style := { style with unknownAny := false }

section Choices

variable {document : Json} {name : String} {style : Style}

/-- Each schema is worked out alike with either choice. -/
theorem inParallel_withAny (document : Json) (name : String) (style : Style) :
    InParallel (SameUpTo Keyword.withAny) Eq ⟨document, name, withoutUnknown style⟩
      ⟨document, name, withUnknown style⟩ where
  name := rfl
  root := rfl
  place h := congrArg Node.path h.symm
  title h := congrArg Node.title? h.symm
  comment h := congrArg (fun node => comment? node.value) h.symm
  object node node' h hv := h ▸ hv
  target reference := by
    have heq : target ⟨document, name, withUnknown style⟩ reference =
        target ⟨document, name, withoutUnknown style⟩ reference := rfl
    rw [heq]
    cases target ⟨document, name, withoutUnknown style⟩ reference with
    | error problem => exact .nowhere problem problem
    | ok leads =>
      cases leads with
      | document => exact .document
      | node node => exact .node rfl
  named _ := rfl
  schema := by
    rintro node _ rfl
    have hc := congruent_sameUpTo Keyword.withAny
    exact meetBoth_typeOfSchema hc.toRespected ⟨rfl, rfl, rfl⟩ (fun _ _ => rfl)
      (fun _ => hc.unknown) (corresponds_self (fun _ => rfl) (fun _ => rfl) _ node)

theorem DeclarationPair.withAny {declaration declaration' : Declaration}
    (h : DeclarationPair (SameUpTo Keyword.withAny) declaration declaration') :
    declaration.withAny = declaration'.withAny := by
  cases h with
  | ofType name comment h =>
    unfold Declaration.withAny
    rw [Declaration.mapKeywords_ofType, Declaration.mapKeywords_ofType, h]

/-- With either choice there are declarations or there are none, and they are the same once `any` is
written for `unknown`. -/
theorem declarations_withAny_both (document : Json) (name : String) (style : Style) :
    (Schema.declarations document name (withoutUnknown style)).toOption.map
        (List.map Declaration.withAny) =
      (Schema.declarations document name (withUnknown style)).toOption.map
        (List.map Declaration.withAny) := by
  have hpair := (inParallel_withAny document name style).declarations
  rcases optionRel_cases hpair with ⟨h, h'⟩ | ⟨_, _, h, h', hdeclared⟩
  · rw [h, h']
  · rw [h, h', Option.map_some, Option.map_some,
      map_eq_of_forall₂ hdeclared fun _ _ h => h.withAny]

/-! ## Constrained types -/

/-- No value in the type is unconstrained, and nothing in it would be if nothing were spliced. -/
def Constrained (type : TypeExpr) : Prop :=
  ∀ part ∈ type.parts, part ≠ .unknown ∧ part ≠ .intersection []

theorem Constrained.unionOf {types : List TypeExpr} (h : ∀ type ∈ types, Constrained type) :
    Constrained (.unionOf types) := by
  refine unionOf_cases (Q := Constrained) (forall_parts_keyword.2 ⟨nofun, nofun⟩) (fun _ h => h)
    (fun members _ hmembers => forall_parts_union.2 ⟨⟨nofun, nofun⟩, hmembers⟩) fun type htype => ?_
  have hparts := h type htype
  cases type with
  | union members => exact (forall_parts_union.1 hparts).2
  | _ => exact List.forall_mem_singleton.2 hparts

/-- Some constrained types have a constrained intersection: there are members to splice. -/
theorem Constrained.intersectionOf {types : List TypeExpr} (hne : types ≠ [])
    (h : ∀ type ∈ types, Constrained type) : Constrained (.intersectionOf types) := by
  have hmembers : ∀ type ∈ types, type.intersectionMembers ≠ [] ∧
      ∀ member ∈ type.intersectionMembers, Constrained member := by
    intro type htype
    have hparts := h type htype
    cases type with
    | intersection members =>
      obtain ⟨⟨-, hsome⟩, hinside⟩ := forall_parts_intersection.1 hparts
      exact ⟨fun hnone => hsome (congrArg TypeExpr.intersection hnone), hinside⟩
    | _ => exact ⟨List.cons_ne_nil _ _, List.forall_mem_singleton.2 hparts⟩
  obtain ⟨type, htype⟩ := List.exists_mem_of_ne_nil types hne
  obtain ⟨member, hmember⟩ := List.exists_mem_of_ne_nil _ (hmembers type htype).1
  have hall : ∀ member ∈ types.flatMap TypeExpr.intersectionMembers, Constrained member :=
    List.forall_mem_flatMap.2 fun type htype => (hmembers type htype).2
  have hsome : types.flatMap TypeExpr.intersectionMembers ≠ [] :=
    List.ne_nil_of_mem (List.mem_flatMap.2 ⟨type, htype, hmember⟩)
  rw [intersectionOf_eq]
  generalize types.flatMap TypeExpr.intersectionMembers = members at hall hsome ⊢
  match members with
  | [] => exact absurd rfl hsome
  | [member] => exact hall member (List.mem_singleton_self _)
  | _ :: _ :: _ => exact forall_parts_intersection.2 ⟨⟨nofun, nofun⟩, hall⟩

/-- All that is done to make types keeps them constrained, but for the intersection of no types. -/
theorem respected_constrained :
    Respected (fun type _ => Constrained type) fun _ _ => True where
  keyword word _ hunknown :=
    forall_parts_keyword.2 ⟨fun heq => hunknown (TypeExpr.keyword.inj heq), nofun⟩
  literal _ := forall_parts_literal.2 ⟨nofun, nofun⟩
  array h := forall_parts_array.2 ⟨⟨nofun, nofun⟩, h⟩
  tuple h := by
    refine forall_parts_tuple.2 ⟨⟨nofun, nofun⟩,
      forall_of_forall₂_left h fun slot slot' hpair => ?_⟩
    cases hpair with
    | required h => exact h
    | rest h => exact forall_parts_array.2 ⟨⟨nofun, nofun⟩, h⟩
  object h := by
    refine forall_parts_object.2 ⟨⟨nofun, nofun⟩,
      forall_of_forall₂_left h fun member member' hpair => forall_parts_member.2 ?_⟩
    cases hpair with
    | property h => exact ⟨h, nofun⟩
    | anyKey h =>
      refine ⟨h, ?_⟩
      rintro _ _ ⟨⟩
      exact forall_parts_keyword.2 ⟨nofun, nofun⟩
  unionOf h := Constrained.unionOf (forall_of_forall₂_left h fun _ _ h => h)
  intersectionOf hne h := Constrained.intersectionOf hne (forall_of_forall₂_left h fun _ _ h => h)

/-- What is declared without `unknown` stays as it is if `any` is written for `unknown`. -/
theorem withAny_ofType {type : TypeExpr} (h : Constrained type) (name : String)
    (comment : Option String) :
    (Declaration.ofType name type comment).withAny = .ofType name type comment := by
  unfold Declaration.withAny
  rw [Declaration.mapKeywords_ofType, TypeExpr.mapKeywords_eq_self]
  intro word hword
  have hne : word ≠ .unknown := fun heq => (h _ hword).1 (congrArg TypeExpr.keyword heq)
  cases word with
  | unknown => exact absurd rfl hne
  | _ => rfl

/-! ## Documents -/

theorem leadsTo_style {style' : Style} {node child : Node}
    (h : LeadsTo ⟨document, name, style⟩ node child) :
    LeadsTo ⟨document, name, style'⟩ node child := by
  obtain ⟨demand, hmem, hleads⟩ := h
  cases hleads with
  | inner => exact .inner hmem
  | referred ht => exact .referred hmem ht

/-- What a document leads to is no matter of choice. -/
theorem reaches_style (style' : Style) {node : Node}
    (h : Reaches ⟨document, name, style'⟩ (.root document) node) :
    Reaches ⟨document, name, style⟩ (.root document) node :=
  ReflTransGen.mono (fun _ _ => leadsTo_style) _ _ h

/-- If no schema in a document without written types is the intersection of no schemas, then nothing
that is declared is `unknown` where the user wants `any`, and it is what is declared otherwise with
`any` for every `unknown`. -/
theorem declarations_withAny (hd : document.Distinct) (hw : NoWrittenTypes ⟨document, name, style⟩)
    (hempty : ∀ node, Reaches ⟨document, name, style⟩ (.root document) node →
      ¬ EmptyIntersection node) :
    (Schema.declarations document name (withoutUnknown style)).toOption =
        (Schema.declarations document name (withUnknown style)).toOption.map
          (List.map Declaration.withAny) ∧
      ∀ declarations, Schema.declarations document name (withoutUnknown style) = .ok declarations →
        ∀ declaration ∈ declarations, .unknown ∉ declaration.type.parts := by
  have hdeclared : ∀ declarations,
      Schema.declarations document name (withoutUnknown style) = .ok declarations →
      ∀ declaration ∈ declarations, ∃ name type comment, Constrained type ∧
        declaration = .ofType name type comment := by
    intro declarations h
    have hnamed : ∀ name, Constrained (.named name) := fun name =>
      forall_parts_reference.2 ⟨⟨nofun, nofun⟩, by simp⟩
    have hany : Constrained .any := forall_parts_keyword.2 ⟨nofun, nofun⟩
    exact respected_constrained.declared hd (fun node hreach => hw node (reaches_style _ hreach))
      (hnamed name) h
      (fun node hreach hnone => absurd hnone (hempty node (reaches_style _ hreach))) hany
      fun name _ => hnamed name
  refine ⟨?same, ?unknown⟩
  case same =>
    rw [← declarations_withAny_both]
    cases hrun : Schema.declarations document name (withoutUnknown style) with
    | error problem => rfl
    | ok declarations =>
      have hself : ∀ declaration ∈ declarations, declaration.withAny = id declaration := by
        intro declaration hmem
        obtain ⟨name, type, comment, hconstrained, rfl⟩ :=
          hdeclared declarations hrun declaration hmem
        exact withAny_ofType hconstrained name comment
      have hsame : declarations.map Declaration.withAny = declarations :=
        (List.map_congr_left hself).trans (List.map_id declarations)
      exact congrArg some hsame.symm
  case unknown =>
    intro declarations hrun declaration hmem hunknown
    obtain ⟨name, type, comment, hconstrained, rfl⟩ := hdeclared declarations hrun declaration hmem
    rw [Declaration.type_ofType] at hunknown
    exact (hconstrained _ hunknown).1 rfl

theorem not_emptyIntersection_of_lacks (hd : document.Distinct) (h : document.Lacks "allOf") :
    ∀ node, Reaches ⟨document, name, style⟩ (.root document) node → ¬ EmptyIntersection node := by
  intro node hreach hnone
  have hlacks : node.value.Lacks "allOf" :=
    Json.at?_kept (fun _ _ _ h hs => h.step? hs) h (inDocument_of_reaches hd hreach)
  have hget := hnone.allOf
  rw [hlacks.get?] at hget
  cases hget

end Choices

/-- A list of rows, at least one of them, and maybe anything else. -/
def looseTable : Json :=
  .object
    [("properties", .object
      [("rows", .object [("type", .string "array"), ("minItems", .number (.integer 1))]),
        ("footer", .bool true)])]

/-- Rows, the footer and all other keys are unconstrained. -/
theorem declarations_withAny_looseTable :
    looseTable.Distinct ∧ NoWrittenTypes ⟨looseTable, "Table", {}⟩ ∧
      (∀ node, Reaches ⟨looseTable, "Table", {}⟩ (.root looseTable) node →
        ¬ EmptyIntersection node) ∧
      Schema.declarations looseTable "Table" (withoutUnknown {}) =
        .ok [.interface "Table" []
          [.property "rows" (.tuple [.required .any, .rest .any]) true none,
            .property "footer" .any true none, .anyKey .any] none] ∧
      (Schema.declarations looseTable "Table" (withoutUnknown {})).toOption =
        (Schema.declarations looseTable "Table" (withUnknown {})).toOption.map
          (List.map Declaration.withAny) := by
  have hd : looseTable.Distinct := by simp [looseTable]
  have hw : NoWrittenTypes ⟨looseTable, "Table", {}⟩ :=
    noWrittenTypes_of_lacks hd (by simp [looseTable])
  have hempty : ∀ node, Reaches ⟨looseTable, "Table", {}⟩ (.root looseTable) node →
      ¬ EmptyIntersection node := not_emptyIntersection_of_lacks hd (by simp [looseTable])
  exact ⟨hd, hw, hempty, rfl, (declarations_withAny hd hw hempty).1⟩

/-- The intersection of no schemas. -/
def emptyIntersection : Json := .object [("allOf", .array [])]

/-- It is `unknown` also where the user wants `any`. -/
theorem declarations_withAny_emptyIntersection :
    emptyIntersection.Distinct ∧ emptyIntersection.Lacks "tsType" ∧
      Schema.declarations emptyIntersection "Schema0" (withoutUnknown {}) =
        .ok [.typeAlias "Schema0" .unknown none] ∧
      Schema.declarations emptyIntersection "Schema0" (withUnknown {}) =
        .ok [.typeAlias "Schema0" .unknown none] ∧
      (Schema.declarations emptyIntersection "Schema0" (withoutUnknown {})).toOption ≠
        (Schema.declarations emptyIntersection "Schema0" (withUnknown {})).toOption.map
          (List.map Declaration.withAny) := by
  refine ⟨by simp [emptyIntersection], by simp [emptyIntersection], rfl, rfl, fun h => ?_⟩
  have hsame : some [Declaration.typeAlias "Schema0" .unknown none] =
      some [.typeAlias "Schema0" .any none] := h
  cases hsame

end Schema

end LintTypes
