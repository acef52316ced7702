import LintTypes.Proofs.HoistingRuns

/-!
# What the type of a schema depends on

The type of a schema is made of the types of schemas inside it, or is that of the schema that it
refers to. Which ones these are, and in which order they are asked for, can be read off the schema:
`demands` lists them, and where a keyword is of no use the problem stands in the list.

`meets_typeOfSchema` says that working out one schema is meeting its demands one after the other,
whatever the types turn out to be. What holds of a whole run thereby comes down to what holds of
each demand: why it fails, that it ends, and that nothing is left out when it is done.
-/

namespace LintTypes

/-! ## Schemas inside -/

namespace Node

/-- The nodes right below a node. -/
def children (node : Node) : List Node := node.items ++ node.fields.map Prod.snd

variable {node child : Node}

/-- The items of an array are children, -/
theorem mem_children_of_items (h : child ∈ node.items) : child ∈ node.children :=
  List.mem_append_left _ h

/-- and so are the values of an object. -/
theorem mem_children_of_fields {key : String} (h : (key, child) ∈ node.fields) :
    child ∈ node.children :=
  List.mem_append_right _ (List.mem_map.2 ⟨_, h, rfl⟩)

theorem below_mem_children {key : String} {value : Json} (h : node.value.get? key = some value) :
    node.below (.field key) value ∈ node.children := by
  have hfields : (key, node.below (.field key) value) ∈ node.fields := by
    refine List.mem_map.2 ⟨(key, value), ?_, rfl⟩
    cases hv : node.value with
    | object fields =>
      rw [hv] at h
      exact Json.mem_of_lookup h
    | _ =>
      rw [hv] at h
      cases h
  exact mem_children_of_fields hfields

theorem mem_children_of_field? {key : String} (h : node.field? key = some child) :
    child ∈ node.children := by
  obtain ⟨value, hvalue, rfl⟩ := Option.map_eq_some_iff.1 h
  exact below_mem_children hvalue

/-- The children of a place in the document are places in the document. The keys have to be
distinct, since a place is found by its key. -/
theorem InDocument.children {document : Json} (hd : document.Distinct)
    (h : node.InDocument document) (hc : child ∈ node.children) : child.InDocument document := by
  rcases List.mem_append.1 hc with hc | hc
  · exact h.items hc
  · obtain ⟨⟨key, child⟩, hmem, rfl⟩ := List.mem_map.1 hc
    exact (h.fields hd hmem).1

end Node

/-- The problem is that of a single schema, and no matter of where it is met. -/
def SchemaProblem.IsOwn : SchemaProblem → Prop
  | .untitledCycle _ | .rejected _ => False
  | _ => True

namespace Schema

/-! ## Demands -/

/-- One thing that the type of a schema depends on. -/
inductive Demand where
  /-- The type of a schema inside. -/
  | inner (node : Node)
  /-- The type of the schema that a reference leads to. -/
  | referred (reference : String)
  /-- Nothing that there could be, for the reason given. -/
  | refused (problem : SchemaProblem)

/-- Works out what is demanded. -/
def Demand.meet (typeOf : Node → Hoisting TypeExpr) (follow : String → Hoisting TypeExpr) :
    Demand → Hoisting TypeExpr
  | inner node => typeOf node
  | referred reference => follow reference
  | refused problem => .fail problem

/-- The demands of a literal. -/
def literalDemands (value : Json) : List Demand :=
  match value with
  | .array _ | .object _ => [.refused (.badLiteral value)]
  | _ => []

section Keywords

variable (node : Node)

/-- The demands of the properties of an object schema. -/
def propertyDemands : List Demand :=
  match node.field? "properties" with
  | none => []
  | some properties =>
    match properties.value with
    | .object _ => properties.fields.map fun field => .inner field.2
    | _ => [.refused .propertiesNotObject]

/-- The demand of the other keys of an object schema. -/
def indexDemands : List Demand :=
  match node.field? "additionalProperties" with
  | none => []
  | some additional =>
    match additional.value with
    | .bool _ => []
    | .object _ => [.inner additional]
    | value => [.refused (.badAdditionalProperties value)]

/-- The demands of an object schema. -/
def objectDemands : List Demand := propertyDemands node ++ indexDemands node

/-- The demand of the items behind those that have a schema of their own. -/
def restDemands : List Demand :=
  match node.field? "additionalItems" with
  | none => []
  | some additional =>
    match additional.value with
    | .object _ => [.inner additional]
    | _ => []

/-- The demands of an array schema. -/
def arrayDemands : List Demand :=
  match node.field? "items" with
  | none => []
  | some items =>
    match items.value with
    | .array _ => items.items.map Demand.inner ++ restDemands node
    | .object _ | .bool _ => [.inner items]
    | value => [.refused (.badItems value)]

/-- The demands of a schema with the type name `name`. -/
def nameDemands (name : String) : List Demand :=
  match name with
  | "string" | "number" | "integer" | "boolean" | "null" | "any" => []
  | "object" => objectDemands node
  | "array" => arrayDemands node
  | name => [.refused (.unknownType name)]

/-- The demands of a schema that has none of the keywords in front of `type`. -/
def kindDemands : List Demand :=
  match node.value.get? "type" with
  | some (.string name) => nameDemands node name
  | some (.array names) => names.flatMap fun
    | .string name => nameDemands node name
    | value => [.refused (.badTypeName value)]
  | some value => [.refused (.badType value)]
  | none =>
    let has (keyword : String) : Bool := (node.value.get? keyword).isSome
    if keywordsOfObjects.any has then objectDemands node
    else if keywordsOfArrays.any has then arrayDemands node
    else []

/-- The demands of the branches under a keyword. -/
def branchDemands (keyword : String) (branches : Node) : List Demand :=
  match branches.value with
  | .array _ => branches.items.map Demand.inner
  | _ => [.refused (.branchesNotArray keyword)]

/-- The demands of a schema that is an object. -/
def keywordDemands : List Demand :=
  if let some reference := node.value.get? "$ref" then
    match reference with
    | .string reference => [.referred reference]
    | _ => [.refused .refNotString]
  else if let some _ := (node.value.get? "tsType").bind Json.string? then []
  else if let some values := node.value.get? "enum" then
    match values with
    | .array values => values.flatMap literalDemands
    | _ => [.refused .enumNotArray]
  else if let some value := node.value.get? "const" then literalDemands value
  else if let some branches := node.field? "anyOf" then branchDemands "anyOf" branches
  else if let some branches := node.field? "oneOf" then branchDemands "oneOf" branches
  else if let some branches := node.field? "allOf" then branchDemands "allOf" branches
  else kindDemands node

/-- What the type of a schema depends on, in order. -/
def demands : List Demand :=
  match node.value with
  | .object _ => keywordDemands node
  | .bool _ => []
  | value => [.refused (.noSchema value)]

end Keywords

/-! ## Meeting demands -/

/-- A computation that asks for the types of other schemas. -/
abbrev Asking (α : Type) : Type :=
  (Node → Hoisting TypeExpr) → (String → Hoisting TypeExpr) → Hoisting α

/-- The computation meets the demands one after the other and adds nothing on its own. -/
inductive Meets {α : Type} : List Demand → Asking α → Prop where
  | pure (value : α) : Meets [] fun _ _ => Pure.pure value
  | refused (problem : SchemaProblem) (rest : List Demand) :
      Meets (.refused problem :: rest) fun _ _ => .fail problem
  | next (demand : Demand) {rest : List Demand} {f : TypeExpr → Asking α}
      (h : ∀ type, Meets rest (f type)) :
      Meets (demand :: rest) fun typeOf follow =>
        demand.meet typeOf follow >>= fun type => f type typeOf follow

section Rules

variable {α β ι : Type} {x : Asking α} {first : List Demand}

/-- To meet one demand is all that is done for it. -/
theorem Meets.one (demand : Demand) :
    Meets [demand] fun typeOf follow => demand.meet typeOf follow := by
  have h := Meets.next demand fun type => Meets.pure type
  simpa using h

/-- The demands of two steps one after the other are met one after the other; those of the second
one do not depend on what the first one gives. -/
theorem Meets.bind {others : List Demand} {f : α → Asking β} (hx : Meets first x)
    (hf : ∀ a, Meets others (f a)) :
    Meets (first ++ others) fun typeOf follow =>
      x typeOf follow >>= fun a => f a typeOf follow := by
  induction hx with
  | pure value => simpa using hf value
  | refused problem rest => exact .refused problem (rest ++ others)
  | next demand _ ih =>
    simp only [bind_assoc]
    exact .next demand ih

theorem Meets.map {f : α → β} (hx : Meets first x) :
    Meets first fun typeOf follow => x typeOf follow >>= fun a => Pure.pure (f a) := by
  have h := hx.bind fun a => Meets.pure (f a)
  rwa [List.append_nil] at h

/-- The demands of a list of inputs are those of each of them in turn. -/
theorem Meets.mapM {f : ι → Asking α} {each : ι → List Demand} {inputs : List ι}
    (h : ∀ i, Meets (each i) (f i)) :
    Meets (inputs.flatMap each) fun typeOf follow =>
      inputs.mapM fun i => f i typeOf follow := by
  induction inputs with
  | nil => exact .pure []
  | cons i inputs ih =>
    simp only [List.mapM_cons, List.flatMap_cons]
    exact (h i).bind fun _ => ih.map

end Rules

/-! ## Schemas -/

/-- A value without a literal is refused, and nothing else is asked for. -/
theorem meets_literalType (value : Json) :
    Meets (literalDemands value) fun _ _ => literalType value := by
  cases value with
  | array items => exact .refused _ []
  | object fields => exact .refused _ []
  | _ => exact .pure _

section Keywords

variable (context : Context) (node : Node)

/-- Each property asks for the type of its value. -/
theorem meets_propertyMembers :
    Meets (propertyDemands node) fun typeOf _ => propertyMembers typeOf node := by
  unfold propertyMembers propertyDemands
  cases node.field? "properties" with
  | none => exact .pure []
  | some properties =>
    dsimp only
    cases properties.value with
    | object fields =>
      dsimp only
      rw [List.map_eq_flatMap]
      exact Meets.mapM fun field => (Meets.one (.inner field.2)).map
    | _ => exact .refused _ []

/-- `additionalProperties` asks for a type if it is a schema with keywords; truth values ask for
none. -/
theorem meets_indexMembers :
    Meets (indexDemands node) fun typeOf _ => indexMembers context typeOf node := by
  unfold indexMembers indexDemands
  cases node.field? "additionalProperties" with
  | none => exact .pure _
  | some additional =>
    dsimp only
    cases additional.value with
    | bool value => cases value <;> exact .pure _
    | object fields => exact (Meets.one (.inner additional)).map
    | _ => exact .refused _ []

theorem meets_typeOfObject :
    Meets (objectDemands node) fun typeOf _ => typeOfObject context typeOf node :=
  (meets_propertyMembers node).bind fun _ => (meets_indexMembers context node).map

/-- `additionalItems` asks for a type only if it is a schema with keywords. -/
theorem meets_restType (bounds : ArrayType.Bounds) :
    Meets (restDemands node) fun typeOf _ => restType context typeOf node bounds := by
  unfold restType restDemands
  cases node.field? "additionalItems" with
  | none => exact .pure _
  | some additional =>
    dsimp only
    cases additional.value with
    | bool value => cases value <;> exact .pure _
    | object fields => exact (Meets.one (.inner additional)).map
    | _ => exact .pure _

theorem meets_items (parent : Node) :
    Meets (parent.items.map Demand.inner) fun typeOf _ => parent.items.mapM typeOf := by
  rw [List.map_eq_flatMap]
  exact Meets.mapM fun child => Meets.one (.inner child)

/-- An array asks for its items and for what is behind them. -/
theorem meets_typeOfArray :
    Meets (arrayDemands node) fun typeOf _ => typeOfArray context typeOf node := by
  unfold typeOfArray arrayDemands
  cases node.field? "items" with
  | none => exact .pure _
  | some items =>
    dsimp only
    cases items.value with
    | array values => exact (meets_items items).bind fun _ => (meets_restType context node _).map
    | object fields => exact (Meets.one (.inner items)).map
    | bool value => exact (Meets.one (.inner items)).map
    | _ => exact .refused _ []

/-- Only the names `object` and `array` ask for the types of other schemas; a name that does not
exist is refused. -/
theorem meets_typeNamed (name : String) :
    Meets (nameDemands node name) fun typeOf _ => typeNamed context typeOf name node := by
  unfold nameDemands
  split
  · exact .pure _
  · exact .pure _
  · exact .pure _
  · exact .pure _
  · exact .pure _
  · exact .pure _
  · exact meets_typeOfObject context node
  · exact meets_typeOfArray context node
  · unfold typeNamed
    split <;> first | contradiction | exact .refused _ []

/-- Each branch asks for its type. -/
theorem meets_branchTypes (keyword : String) (branches : Node) :
    Meets (branchDemands keyword branches) fun typeOf _ => branchTypes typeOf keyword branches := by
  unfold branchTypes branchDemands
  cases branches.value with
  | array values => exact meets_items branches
  | _ => exact .refused _ []

/-- A schema without any of the former keywords asks for what its kind needs. -/
theorem meets_typeByKind :
    Meets (kindDemands node) fun typeOf _ => typeByKind context typeOf node := by
  unfold typeByKind kindDemands
  cases node.value.get? "type" with
  | none =>
    dsimp only
    split
    · exact meets_typeOfObject context node
    split
    · exact meets_typeOfArray context node
    exact .pure _
  | some value =>
    cases value with
    | string name => exact meets_typeNamed context node name
    | array names =>
      dsimp only
      refine (Meets.mapM fun value => ?_).map
      cases value with
      | string name => exact meets_typeNamed context node name
      | _ => exact .refused _ []
    | _ => exact .refused _ []

/-- The first keyword that a schema has says what is asked for. -/
theorem meets_typeByKeywords :
    Meets (keywordDemands node) fun typeOf follow => typeByKeywords context typeOf follow node := by
  unfold typeByKeywords keywordDemands
  cases node.value.get? "$ref" with
  | some reference =>
    cases reference with
    | string reference => exact Meets.one (.referred reference)
    | _ => exact .refused _ []
  | none =>
  cases (node.value.get? "tsType").bind Json.string? with
  | some text => exact .pure _
  | none =>
  cases node.value.get? "enum" with
  | some values =>
    cases values with
    | array values => exact (Meets.mapM meets_literalType).map
    | _ => exact .refused _ []
  | none =>
  cases node.value.get? "const" with
  | some value => exact meets_literalType value
  | none =>
  cases node.field? "anyOf" with
  | some branches => exact (meets_branchTypes _ branches).map
  | none =>
  cases node.field? "oneOf" with
  | some branches => exact (meets_branchTypes _ branches).map
  | none =>
  cases node.field? "allOf" with
  | some branches => exact (meets_branchTypes _ branches).map
  | none => exact meets_typeByKind context node

/-- Working out one schema is meeting its demands. -/
theorem meets_typeOfSchema :
    Meets (demands node) fun typeOf follow => typeOfSchema context typeOf follow node := by
  unfold typeOfSchema demands
  cases node.value with
  | object fields => exact meets_typeByKeywords context node
  | bool value => cases value <;> exact .pure _
  | _ => exact .refused _ []

end Keywords

/-! ## Where demands come from -/

/-- The demand is for a schema below the node, for what its reference leads to, or refused for the
sake of the node alone. -/
inductive Demand.OfNode (node : Node) : Demand → Prop where
  | child {child : Node} (h : child ∈ node.children) : OfNode node (.inner child)
  | grandchild {parent child : Node} (hp : parent ∈ node.children) (h : child ∈ parent.children) :
      OfNode node (.inner child)
  | referred {reference : String} (h : node.value.get? "$ref" = some (.string reference)) :
      OfNode node (.referred reference)
  | refused {problem : SchemaProblem} (h : problem.IsOwn) : OfNode node (.refused problem)

section Keywords

variable {node : Node} {demand : Demand}

/-- A demand that is refused for a reason of its own is one of the node. -/
theorem ofNode_of_refused {problem : SchemaProblem} (h : demand ∈ [.refused problem])
    (ho : problem.IsOwn) : demand.OfNode node := by
  cases List.mem_singleton.1 h
  exact .refused ho

theorem ofNode_of_child {child : Node} (h : demand ∈ [.inner child])
    (hc : child ∈ node.children) : demand.OfNode node := by
  cases List.mem_singleton.1 h
  exact .child hc

theorem ofNode_of_literal {value : Json} (h : demand ∈ literalDemands value) :
    demand.OfNode node := by
  unfold literalDemands at h
  split at h
  · exact ofNode_of_refused h trivial
  · exact ofNode_of_refused h trivial
  · cases h

/-- An object asks for the types of its properties, which are children of a child. -/
theorem ofNode_of_object (h : demand ∈ objectDemands node) : demand.OfNode node := by
  rcases List.mem_append.1 h with h | h
  · unfold propertyDemands at h
    split at h
    · cases h
    · rename_i properties hproperties
      split at h
      · obtain ⟨⟨key, property⟩, hmem, rfl⟩ := List.mem_map.1 h
        exact .grandchild (Node.mem_children_of_field? hproperties)
          (Node.mem_children_of_fields hmem)
      · exact ofNode_of_refused h trivial
  · unfold indexDemands at h
    split at h
    · cases h
    · rename_i additional hadditional
      split at h
      · cases h
      · exact ofNode_of_child h (Node.mem_children_of_field? hadditional)
      · exact ofNode_of_refused h trivial

theorem ofNode_of_items {parent : Node} (hp : parent ∈ node.children)
    (h : demand ∈ parent.items.map Demand.inner) : demand.OfNode node := by
  obtain ⟨child, hmem, rfl⟩ := List.mem_map.1 h
  exact .grandchild hp (Node.mem_children_of_items hmem)

theorem ofNode_of_rest (h : demand ∈ restDemands node) : demand.OfNode node := by
  unfold restDemands at h
  split at h
  · cases h
  · rename_i additional hadditional
    split at h
    · exact ofNode_of_child h (Node.mem_children_of_field? hadditional)
    · cases h

/-- An array asks for the type of a child, or for those of the items of a child. -/
theorem ofNode_of_array (h : demand ∈ arrayDemands node) : demand.OfNode node := by
  unfold arrayDemands at h
  split at h
  · cases h
  · rename_i items hitems
    have hchild := Node.mem_children_of_field? hitems
    split at h
    · rcases List.mem_append.1 h with h | h
      · exact ofNode_of_items hchild h
      · exact ofNode_of_rest h
    · exact ofNode_of_child h hchild
    · exact ofNode_of_child h hchild
    · exact ofNode_of_refused h trivial

theorem ofNode_of_name {name : String} (h : demand ∈ nameDemands node name) :
    demand.OfNode node := by
  unfold nameDemands at h
  split at h
  · cases h
  · cases h
  · cases h
  · cases h
  · cases h
  · cases h
  · exact ofNode_of_object h
  · exact ofNode_of_array h
  · exact ofNode_of_refused h trivial

/-- What the branches ask for is about the items of a child. -/
theorem ofNode_of_branches {keyword name : String} {branches : Node}
    (hb : node.field? name = some branches) (h : demand ∈ branchDemands keyword branches) :
    demand.OfNode node := by
  unfold branchDemands at h
  split at h
  · exact ofNode_of_items (Node.mem_children_of_field? hb) h
  · exact ofNode_of_refused h trivial

theorem ofNode_of_kind (h : demand ∈ kindDemands node) : demand.OfNode node := by
  unfold kindDemands at h
  split at h
  · exact ofNode_of_name h
  · obtain ⟨value, -, hmem⟩ := List.mem_flatMap.1 h
    split at hmem
    · exact ofNode_of_name hmem
    · exact ofNode_of_refused hmem trivial
  · exact ofNode_of_refused h trivial
  · dsimp only at h
    split at h
    · exact ofNode_of_object h
    split at h
    · exact ofNode_of_array h
    cases h

theorem ofNode_of_keywords (h : demand ∈ keywordDemands node) : demand.OfNode node := by
  unfold keywordDemands at h
  split at h
  · rename_i reference hreference
    split at h
    · cases List.mem_singleton.1 h
      exact .referred hreference
    · exact ofNode_of_refused h trivial
  split at h
  · cases h
  split at h
  · split at h
    · obtain ⟨value, -, hmem⟩ := List.mem_flatMap.1 h
      exact ofNode_of_literal hmem
    · exact ofNode_of_refused h trivial
  split at h
  · exact ofNode_of_literal h
  split at h
  · rename_i hbranches
    exact ofNode_of_branches hbranches h
  split at h
  · rename_i hbranches
    exact ofNode_of_branches hbranches h
  split at h
  · rename_i hbranches
    exact ofNode_of_branches hbranches h
  exact ofNode_of_kind h

/-- Whatever is asked for a node concerns its children or their children, its own reference, or a
reason of its own to refuse it. -/
theorem ofNode_of_mem_demands (h : demand ∈ demands node) : demand.OfNode node := by
  unfold demands at h
  split at h
  · exact ofNode_of_keywords h
  · cases h
  · exact ofNode_of_refused h trivial

/-- A schema that refers to another one depends on nothing else. -/
theorem demands_of_referred {reference : String} (h : .referred reference ∈ demands node) :
    demands node = [.referred reference] := by
  cases ofNode_of_mem_demands h with
  | referred hr =>
    unfold demands
    cases hv : node.value with
    | object fields => simp only [keywordDemands, hr]
    | _ =>
      rw [hv] at hr
      cases hr

end Keywords

/-- What is demanded below a node of the document is in the document. -/
theorem inDocument_of_demand {document : Json} {node child : Node} (hd : document.Distinct)
    (hn : node.InDocument document) (h : .inner child ∈ demands node) :
    child.InDocument document := by
  cases ofNode_of_mem_demands h with
  | child h => exact hn.children hd h
  | grandchild hp h => exact (hn.children hd hp).children hd h

end Schema

end LintTypes
