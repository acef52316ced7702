import LintTypes.Proofs.HoistedNodes

/-!
# References in the open

What a name stands for has to be known before an alias means anything, if the alias is the name or a
union or intersection with it. It need not be known where the name stands in an array, a tuple or an
object. `TypeExpr.openNames` are the names of the first kind, and a schema opens with another one
(`OpensTo`) if it refers to it or has it as a branch.

The two go together: the open names of the type that a schema is given are those of the types that
the schemas it opens with are given (`Opening`). A run may give an untitled schema a type more than
once, so that this is said of each run by itself.
-/

namespace LintTypes

/-! ## Open names -/

mutual

/-- The names that the type is, or is a union or an intersection of. -/
def TypeExpr.openNames : TypeExpr → List String
  | .reference name _ => [name]
  | .union members => openNamesOf members
  | .intersection members => openNamesOf members
  | _ => []

/-- The open names of several types. -/
def openNamesOf : List TypeExpr → List String
  | [] => []
  | type :: types => type.openNames ++ openNamesOf types

end

theorem openNamesOf_eq (types : List TypeExpr) :
    openNamesOf types = types.flatMap TypeExpr.openNames := by
  induction types with
  | nil => rfl
  | cons type types ih => rw [openNamesOf, ih, List.flatMap_cons]

namespace TypeExpr

/-- A union or an intersection has the open names of its members. -/
theorem openNames_combine {members : TypeExpr → List TypeExpr} {empty : TypeExpr}
    {wrap : List TypeExpr → TypeExpr} (ho : IsOperator members empty wrap)
    (hempty : empty.openNames = [])
    (hwrap : ∀ types, (wrap types).openNames = types.flatMap openNames) (types : List TypeExpr) :
    (combine empty wrap (types.flatMap members)).openNames = types.flatMap openNames := by
  have hmembers : ∀ type, (members type).flatMap openNames = type.openNames := by
    intro type
    rcases ho.cases type with hself | hwrapped
    · rw [hself, List.flatMap_singleton]
    · rw [← hwrap, ← hwrapped]
  have hlist : ∀ types, (combine empty wrap types).openNames = types.flatMap openNames := by
    intro types
    match types with
    | [] => exact hempty
    | [type] => exact (List.append_nil _).symm
    | first :: second :: types => exact hwrap _
  rw [hlist, List.flatMap_assoc]
  simp only [hmembers]

theorem openNames_unionOf (types : List TypeExpr) :
    (unionOf types).openNames = types.flatMap openNames := by
  rw [unionOf_eq]
  exact openNames_combine isOperator_union rfl openNamesOf_eq types

theorem openNames_intersectionOf (types : List TypeExpr) :
    (intersectionOf types).openNames = types.flatMap openNames := by
  rw [intersectionOf_eq]
  exact openNames_combine isOperator_intersection rfl openNamesOf_eq types

theorem openNames_unionOf_nil {types : List TypeExpr} (h : ∀ type ∈ types, type.openNames = []) :
    (unionOf types).openNames = [] := by
  rw [openNames_unionOf]
  exact List.flatMap_eq_nil_iff.2 h

end TypeExpr

/-! ## Below the document -/

/-- No child is the document. -/
theorem Node.ne_root_of_mem_children {parent child : Node} {document : Json}
    (hc : child ∈ parent.children) : child ≠ .root document := by
  suffices hpath : child.path ≠ [] by
    rintro rfl
    exact hpath rfl
  rcases List.mem_append.1 hc with hc | hc
  · obtain ⟨_, -, rfl⟩ := List.mem_map.1 hc
    exact List.append_ne_nil_of_right_ne_nil _ (List.cons_ne_nil _ _)
  · obtain ⟨_, hmem, rfl⟩ := List.mem_map.1 hc
    obtain ⟨_, -, rfl⟩ := List.mem_map.1 hmem
    exact List.append_ne_nil_of_right_ne_nil _ (List.cons_ne_nil _ _)

/-- Nor does a pointer with a segment lead to the document. -/
theorem Pointer.ne_root_of_resolve? {document : Json} {pointer : List Char} {node : Node}
    (hp : pointer ≠ []) (h : resolve? document pointer = some node) : node ≠ .root document := by
  have hgo : ∀ segment text, segments?.go segment text ≠ [] := by
    intro segment text
    induction text generalizing segment with
    | nil => exact List.cons_ne_nil _ _
    | cons c text ih =>
      unfold segments?.go
      split
      · exact List.cons_ne_nil _ _
      · exact List.cons_ne_nil _ _
      · rename_i heq
        cases heq
        exact ih _
  unfold resolve? at h
  split at h
  · contradiction
  · obtain ⟨segments, hsegments, hfold⟩ := Option.bind_eq_some_iff.1 h
    have hne : segments ≠ [] := by
      unfold segments? at hsegments
      split at hsegments
      · cases hsegments
        exact hgo _ _
      · cases hsegments
    rcases List.eq_nil_or_concat' segments with hnil | ⟨before, segment, rfl⟩
    · exact absurd hnil hne
    · rw [List.foldlM_append] at hfold
      obtain ⟨parent, -, hlast⟩ := Option.bind_eq_some_iff.1 hfold
      obtain ⟨child, henter, hsame⟩ := Option.bind_eq_some_iff.1 hlast
      cases hsame
      exact Node.ne_root_of_mem_children (mem_children_of_enter? henter)

namespace Schema

open Hoisting Relation

variable {context : Context} {depth : Nat} {active : List String} {node child : Node}
  {h h' last : Hoisted} {type : TypeExpr}

/-! ## Types without open names -/

/-- No name is open in an array type: all of them stand inside a tuple or an array. -/
theorem openNames_ofItems (filler : TypeExpr) (types : List TypeExpr) (bounds : ArrayType.Bounds)
    (rest : Option TypeExpr) : (ArrayType.ofItems filler types bounds rest).openNames = [] := by
  unfold ArrayType.ofItems
  obtain ⟨types, rest⟩ := ArrayType.complete filler types bounds rest
  dsimp only
  split
  · rfl
  · refine TypeExpr.openNames_unionOf_nil fun type htype => ?_
    rcases List.mem_append.1 htype with htype | htype
    · obtain ⟨length, -, rfl⟩ := List.mem_map.1 htype
      rfl
    · cases List.mem_singleton.1 htype
      rfl

theorem openNames_uniform (filler item : TypeExpr) (bounds : ArrayType.Bounds) :
    (ArrayType.uniform filler item bounds).openNames = [] := by
  unfold ArrayType.uniform
  extract_lets count
  split
  · rfl
  · exact openNames_ofItems _ _ _ _

theorem openNames_unknown (context : Context) : context.unknown.openNames = [] := by
  unfold Context.unknown
  split <;> rfl

section Typed

variable {typed : Node → TypeExpr → Prop}

/-- A literal has no names, -/
theorem LiteralTyped.openNames {value : Json} (ht : LiteralTyped value type) :
    type.openNames = [] := by
  cases ht <;> rfl

/-- an array type has no open ones, -/
theorem ArrayTyped.openNames (ht : ArrayTyped context typed node type) : type.openNames = [] := by
  cases ht with
  | absent => exact openNames_uniform _ _ _
  | each => exact openNames_uniform _ _ _
  | list => exact openNames_ofItems _ _ _ _

/-- and so has no type that is called by name. -/
theorem NameTyped.openNames {name : String} (ht : NameTyped context typed node name type) :
    type.openNames = [] := by
  cases ht with
  | any => exact openNames_unknown context
  | object ht =>
    cases ht
    rfl
  | array ht => exact ht.openNames
  | _ => rfl

/-- So only references and branches make open names. -/
theorem KindTyped.openNames (ht : KindTyped context typed node type) : type.openNames = [] := by
  cases ht with
  | name _ ht => exact ht.openNames
  | names _ ht =>
    refine TypeExpr.openNames_unionOf_nil fun type htype => ?_
    obtain ⟨value, -, name, -, hnamed⟩ := (forall₂_exists ht).2 type htype
    exact hnamed.openNames
  | object _ _ ht =>
    cases ht
    rfl
  | array _ _ _ ht => exact ht.openNames
  | anything => exact openNames_unknown context

end Typed

/-! ## Schemas that a schema opens with -/

/-- What a schema is a union or an intersection of: the branches under the first of these keywords,
if no other one speaks for the schema. -/
def branches? (node : Node) : Option Node :=
  let has (keyword : String) : Bool := (node.value.get? keyword).isSome
  if ["$ref", "enum", "const"].any has ∨ ((node.value.get? "tsType").bind Json.string?).isSome then
    none
  else (node.field? "anyOf").or ((node.field? "oneOf").or (node.field? "allOf"))

/-- The node that a reference leads to. -/
def Target.place (context : Context) : Target → Node
  | .document => .root context.document
  | .node node => node

/-- The schema refers to the other one or has it as a branch. -/
inductive OpensTo (context : Context) (node : Node) : Node → Prop where
  | referred {reference : String} {found : Target}
      (hr : node.value.get? "$ref" = some (.string reference))
      (ht : target context reference = .ok found) : OpensTo context node (found.place context)
  | branch {branches child : Node} (hb : branches? node = some branches)
      (hc : child ∈ branches.items) : OpensTo context node child

theorem branches?_of_ref {value : Json} (hr : node.value.get? "$ref" = some value) :
    branches? node = none := by
  simp [branches?, hr]

theorem object_of_branches? {branches : Node} (hb : branches? node = some branches) :
    ∃ fields, node.value = .object fields := by
  cases hv : node.value with
  | object fields => exact ⟨fields, rfl⟩
  | _ => simp [branches?, Node.field?, hv, Json.get?] at hb

/-- The keywords in front of branches are missing, and these are the first ones. -/
theorem keywords_of_branches {branches : Node} (hb : branches? node = some branches) :
    ∃ keyword join, (join = TypeExpr.unionOf ∨ join = TypeExpr.intersectionOf) ∧
      keywordDemands node = branchDemands keyword branches ∧
      ∀ context typeOf follow, typeByKeywords context typeOf follow node =
        branchTypes typeOf keyword branches >>= fun types => pure (join types) := by
  unfold branches? at hb
  extract_lets has at hb
  split at hb
  · cases hb
  rename_i hmissing
  simp only [has, List.any_cons, List.any_nil, Bool.or_false, Bool.or_eq_true, not_or,
    Bool.not_eq_true, Option.isSome_eq_false_iff, Option.isNone_iff_eq_none] at hmissing
  obtain ⟨⟨href, henum, hconst⟩, hwritten⟩ := hmissing
  unfold keywordDemands typeByKeywords
  simp only [href, hwritten, henum, hconst]
  cases hany : node.field? "anyOf" with
  | some branches =>
    rw [hany] at hb
    cases hb
    exact ⟨_, _, .inl rfl, rfl, fun _ _ _ => rfl⟩
  | none =>
  cases hone : node.field? "oneOf" with
  | some branches =>
    rw [hany, hone] at hb
    cases hb
    exact ⟨_, _, .inl rfl, rfl, fun _ _ _ => rfl⟩
  | none =>
  cases hall : node.field? "allOf" with
  | some branches =>
    rw [hany, hone, hall] at hb
    cases hb
    exact ⟨_, _, .inr rfl, rfl, fun _ _ _ => rfl⟩
  | none =>
    rw [hany, hone, hall] at hb
    cases hb

/-- What a schema opens to is demanded for it, unless it is the document. -/
theorem OpensTo.leadsTo (ho : OpensTo context node child)
    (hne : child ≠ .root context.document) : LeadsTo context node child := by
  cases ho with
  | @referred reference found hr ht =>
    have hmem : .referred reference ∈ demands node := by
      unfold demands
      cases hv : node.value with
      | object fields =>
        simp only [keywordDemands, hr]
        exact List.mem_singleton_self _
      | _ =>
        rw [hv] at hr
        cases hr
    cases found with
    | document => exact absurd rfl hne
    | node child => exact .referred hmem ht
  | @branch branches _ hb hc =>
    obtain ⟨keyword, join, -, hdemands, -⟩ := keywords_of_branches hb
    refine .inner ?_
    have hmem : .inner child ∈ branchDemands keyword branches := by
      unfold branchDemands
      cases hv : branches.value with
      | array items => exact List.mem_map_of_mem hc
      | _ => simp [Node.items, hv, Json.items?] at hc
    obtain ⟨fields, hv⟩ := object_of_branches? hb
    unfold demands
    rw [hv]
    exact hdemands ▸ hmem

/-- A reference to the whole document is to it by its name. -/
theorem ne_root_of_target {reference : String} (ht : target context reference = .ok (.node child)) :
    child ≠ .root context.document := by
  obtain ⟨pointer, hreference, hresolve⟩ := target_node ht
  refine Pointer.ne_root_of_resolve? ?_ hresolve
  rintro rfl
  unfold target at ht
  rw [hreference] at ht
  cases ht

/-- No schema leads back to the document as one of its nodes. -/
theorem LeadsTo.ne_root (hl : LeadsTo context node child) : child ≠ .root context.document := by
  obtain ⟨demand, hmem, hleads⟩ := hl
  cases hleads with
  | inner =>
    cases ofNode_of_mem_demands hmem with
    | child hc => exact Node.ne_root_of_mem_children hc
    | grandchild _ hc => exact Node.ne_root_of_mem_children hc
  | referred ht => exact ne_root_of_target ht

/-! ## Runs -/

/-- A schema that another one opens with was given the type: the document its name, and any other
schema what the run to the depth made of it. -/
inductive OpenedAs (context : Context) (last : Hoisted) (depth : Nat) : Node → TypeExpr → Prop where
  | document : OpenedAs context last depth (.root context.document) (.named context.name)
  | run {active : List String} {child : Node} {h h' : Hoisted} {type : TypeExpr}
      (hne : child ≠ .root context.document)
      (hr : typeAt context depth active child h = .done type h') (hl : Later h' last) :
      OpenedAs context last depth child type

/-- The open names of the type are those of the schemas that the schema opens with. -/
structure Opening (context : Context) (last : Hoisted) (depth : Nat) (node : Node)
    (type : TypeExpr) : Prop where
  /-- Each open name comes from a schema, -/
  named : ∀ name ∈ type.openNames, ∃ child type', OpensTo context node child ∧
    OpenedAs context last depth child type' ∧ name ∈ type'.openNames
  /-- and each schema brings its open names. -/
  opened : ∀ child, OpensTo context node child → ∃ type',
    OpenedAs context last depth child type' ∧ type'.openNames ⊆ type.openNames

/-- A list of schemas is worked out one after the other, each of them later than the one before. -/
theorem mapM_later {typeOf : Node → Hoisting TypeExpr}
    (hlater : ∀ node h type h', typeOf node h = .done type h' → Later h h') {nodes : List Node}
    {types : List TypeExpr} (hr : nodes.mapM typeOf h = .done types h') (hl : Later h' last) :
    Later h last ∧ List.Forall₂
      (fun node type => ∃ h₁ h₂, typeOf node h₁ = .done type h₂ ∧ Later h₂ last) nodes types := by
  induction nodes generalizing h types with
  | nil =>
    cases hr
    exact ⟨hl, .nil⟩
  | cons node nodes ih =>
    rw [List.mapM_cons] at hr
    obtain ⟨type, h₁, hfirst, hr⟩ := bind_done hr
    obtain ⟨types, h₂, hrest, hr⟩ := bind_done hr
    cases hr
    obtain ⟨hl₁, htypes⟩ := ih hrest
    exact ⟨(hlater _ _ _ _ hfirst).trans hl₁, .cons ⟨_, _, hfirst, hl₁⟩ htypes⟩

theorem mapM_of_branchTypes {typeOf : Node → Hoisting TypeExpr} {keyword : String}
    {branches : Node} {types : List TypeExpr}
    (hr : branchTypes typeOf keyword branches h = .done types h') :
    branches.items.mapM typeOf h = .done types h' := by
  unfold branchTypes at hr
  cases hv : branches.value with
  | array items =>
    rw [hv] at hr
    exact hr
  | _ =>
    rw [hv] at hr
    cases hr

/-- A schema that refers to another one is given the type of that one. -/
theorem opening_of_ref {value : Json} (href : node.value.get? "$ref" = some value)
    (hr : bodyAt context depth active node h = .done type h') (hl : Later h' last) :
    Opening context last depth node type := by
  obtain ⟨reference, rfl⟩ : ∃ reference, value = .string reference := by
    obtain ⟨fields, hv⟩ := object_of_get? href
    unfold bodyAt typeOfSchema at hr
    simp only [hv, typeByKeywords, hv ▸ href] at hr
    split at hr
    · exact ⟨_, rfl⟩
    · cases hr
  rw [bodyAt_of_ref href] at hr
  have hfound : ∀ found, target context reference = .ok found →
      OpenedAs context last depth (found.place context) type →
      Opening context last depth node type := by
    intro found ht hopened
    have hopens : OpensTo context node (found.place context) := .referred href ht
    refine ⟨fun name hname => ⟨_, type, hopens, hopened, hname⟩, fun child hchild => ?_⟩
    cases hchild with
    | referred href' ht' =>
      rw [href] at href'
      cases href'
      rw [ht] at ht'
      cases ht'
      exact ⟨type, hopened, List.Subset.refl _⟩
    | branch hb =>
      rw [branches?_of_ref href] at hb
      cases hb
  have hrun : ∀ child active', target context reference = .ok (.node child) →
      typeAt context depth active' child h = .done type h' →
      Opening context last depth node type := by
    intro child active' ht hr
    exact hfound _ ht (.run (ne_root_of_target ht) hr hl)
  cases referral context active reference with
  | document ht href =>
    rw [href] at hr
    cases hr
    exact hfound _ ht .document
  | titled ht _ href =>
    rw [href] at hr
    exact hrun _ _ ht hr
  | followed ht _ _ href =>
    rw [href] at hr
    exact hrun _ _ ht hr
  | targetless _ href | again _ _ _ href =>
    rw [href] at hr
    cases hr

/-- A schema with branches is given the union or the intersection of their types. -/
theorem opening_of_branches {branches : Node} (hb : branches? node = some branches)
    (hr : bodyAt context depth active node h = .done type h') (hl : Later h' last) :
    Opening context last depth node type := by
  obtain ⟨keyword, join, hjoin, -, hkeywords⟩ := keywords_of_branches hb
  have hbody : bodyAt context depth active node =
      branchTypes (typeAt context depth active) keyword branches >>= fun types =>
        pure (join types) := by
    obtain ⟨fields, hv⟩ := object_of_branches? hb
    unfold bodyAt typeOfSchema
    rw [hv]
    exact hkeywords _ _ _
  rw [hbody] at hr
  obtain ⟨types, h₁, htypes, hr⟩ := bind_done hr
  cases hr
  have hnames : ∀ name, name ∈ (join types).openNames ↔ ∃ type ∈ types, name ∈ type.openNames := by
    intro name
    rcases hjoin with rfl | rfl
    · rw [TypeExpr.openNames_unionOf, List.mem_flatMap]
    · rw [TypeExpr.openNames_intersectionOf, List.mem_flatMap]
  have hopened : List.Forall₂ (OpenedAs context last depth) branches.items types := by
    have hruns := mapM_later (fun _ _ _ _ => typeAt_later) (mapM_of_branchTypes htypes) hl
    have hbelow : ∀ child ∈ branches.items, child ≠ .root context.document :=
      fun child hc => Node.ne_root_of_mem_children (Node.mem_children_of_items hc)
    refine ((List.forall₂_and_left _ _).2 ⟨hbelow, hruns.2⟩).imp ?_
    rintro child type ⟨hne, h₁, h₂, hr, hl⟩
    exact .run hne hr hl
  refine ⟨fun name hname => ?_, fun child ho => ?_⟩
  · obtain ⟨type, htype, hmem⟩ := (hnames name).1 hname
    obtain ⟨child, hchild, hopened⟩ := (forall₂_exists hopened).2 type htype
    exact ⟨child, type, .branch hb hchild, hopened, hmem⟩
  · cases ho with
    | referred href =>
      rw [branches?_of_ref href] at hb
      cases hb
    | branch hb' hc =>
      rw [hb] at hb'
      cases hb'
      obtain ⟨type, htype, hopened⟩ := (forall₂_exists hopened).1 child hc
      exact ⟨type, hopened, fun name hmem => (hnames name).2 ⟨type, htype, hmem⟩⟩

/-- Literals and the types of kinds have no open names. -/
theorem openNames_of_kind (href : node.value.get? "$ref" = none)
    (hw : (node.value.get? "tsType").bind Json.string? = none) (hb : branches? node = none)
    (hr : bodyAt context depth active node h = .done type h') : type.openNames = [] := by
  have hclosed : Closed context fun _ => True :=
    ⟨fun _ _ => trivial, fun _ _ => trivial, fun _ _ => trivial, fun _ => trivial⟩
  have hliterals : ∀ value, Yields context (fun _ => True) (literalType value)
      fun _ => LiteralTyped value := yields_literalType
  unfold bodyAt typeOfSchema at hr
  cases hv : node.value with
  | object fields =>
    rw [hv] at hr
    unfold typeByKeywords at hr
    simp only [href, hw] at hr
    cases henum : node.value.get? "enum" with
    | some values =>
      simp only [henum] at hr
      split at hr
      · rename_i values
        obtain ⟨types, h₁, htypes, hr⟩ := bind_done hr
        cases hr
        obtain ⟨-, -, htyped⟩ := Yields.mapM literalTyped_stable
          (fun value _ => hliterals value) _ _ _ htypes
        refine TypeExpr.openNames_unionOf_nil fun type htype => ?_
        obtain ⟨value, -, hliteral⟩ := (forall₂_exists htyped).2 type htype
        exact hliteral.openNames
      · cases hr
    | none =>
    simp only [henum] at hr
    cases hconst : node.value.get? "const" with
    | some value =>
      simp only [hconst] at hr
      obtain ⟨-, -, hliteral⟩ := hliterals value _ _ _ hr
      exact hliteral.openNames
    | none =>
    simp only [hconst] at hr
    have hfields : node.field? "anyOf" = none ∧ node.field? "oneOf" = none ∧
        node.field? "allOf" = none := by
      simpa [branches?, href, hw, henum, hconst] using hb
    obtain ⟨hany, hone, hall⟩ := hfields
    simp only [hany, hone, hall] at hr
    obtain ⟨-, -, hkind⟩ := yields_typeByKind hclosed (typed_stable depth)
      (yields_typeAt hclosed depth active) trivial _ _ _ hr
    exact hkind.openNames
  | bool value =>
    rw [hv] at hr
    cases value with
    | true =>
      cases hr
      exact openNames_unknown context
    | false =>
      cases hr
      rfl
  | _ =>
    rw [hv] at hr
    cases hr

/-- Any other schema that does not write out its type is given one without open names. -/
theorem opening_of_kind (href : node.value.get? "$ref" = none)
    (hw : (node.value.get? "tsType").bind Json.string? = none) (hb : branches? node = none)
    (hr : bodyAt context depth active node h = .done type h') :
    Opening context last depth node type := by
  have hnames : type.openNames = [] := openNames_of_kind href hw hb hr
  refine ⟨fun name hname => ?_, fun child ho => ?_⟩
  · rw [hnames] at hname
    cases hname
  · cases ho with
    | referred href' =>
      rw [href] at href'
      cases href'
    | branch hb' =>
      rw [hb] at hb'
      cases hb'

/-- The open names that a run gives to a schema come from the schemas that it opens with. -/
theorem opening_of_bodyAt (hw : (node.value.get? "tsType").bind Json.string? = none)
    (hr : bodyAt context depth active node h = .done type h') (hl : Later h' last) :
    Opening context last depth node type := by
  cases href : node.value.get? "$ref" with
  | some value => exact opening_of_ref href hr hl
  | none =>
    cases hb : branches? node with
    | some branches => exact opening_of_branches hb hr hl
    | none => exact opening_of_kind href hw hb hr

end Schema

end LintTypes
