import LintTypes.Proofs.OpenReferences
import LintTypes.Types.Equality

/-!
# Circular aliases

An alias that comes back to itself through names, unions and intersections alone stands for
nothing, and compilers refuse it. Such an alias is declared if and only if its schema comes back to
itself through references and branches alone. Names do not end such a way: a reference to a titled
schema or to the document is not followed but written as the name, and thereby the check for
references that lead back does not see the way that is closed by names. Only where no schema on the
way has a name is the document refused.

The two kinds of ways are matched name by name. `OpensByName` is a way through schemas without names
to the first one that has one; by it the type of a schema that was worked out has the name in the
open, and all its open names come by such ways (`mem_openNames_iff`).
-/

namespace LintTypes

/-! ## Ways through aliases -/

/-- The first name is that of an alias which has the other name in the open. -/
def AliasLeads (declarations : Declarations) (name other : String) : Prop :=
  ∃ type comment, .typeAlias name type comment ∈ declarations ∧ other ∈ type.openNames

/-- The alias comes back to itself through names in the open. -/
def Circular (declarations : Declarations) (name : String) : Prop :=
  Relation.TransGen (AliasLeads declarations) name name

/-- Objects have no open names, and all other types are declared by aliases. -/
theorem aliasLeads_iff {declarations : Declarations} {name other : String} {type : TypeExpr}
    {comment : Option String} (hnodup : (declarations.map Declaration.name).Nodup)
    (hmem : .ofType name type comment ∈ declarations) :
    AliasLeads declarations name other ↔ other ∈ type.openNames := by
  constructor
  · rintro ⟨type', comment', hmem', hother⟩
    have heq := List.inj_on_of_nodup_map hnodup hmem hmem' (Declaration.name_ofType ..)
    unfold Declaration.ofType at heq
    split at heq
    · cases heq
    · cases heq
      exact hother
  · intro hother
    refine ⟨type, comment, ?_, hother⟩
    cases type with
    | object members => cases hother
    | _ => exact hmem

namespace Schema

open Hoisting Relation

variable {context : Context} {names : Names} {nodes : List Node} {node child : Node}
  {last : Hoisted} {type : TypeExpr} {name : String}

/-! ## Ways through schemas -/

/-- The name is that of the schema: the document has its own, and the titled schemas below it have
those that they were given. -/
inductive Bears (context : Context) (names : Names) (nodes : List Node) : Node → String → Prop where
  | document : Bears context names nodes (.root context.document) context.name
  | titled {node : Node} {name : String} (hn : node ∈ nodes)
      (hname : names node.path = some name) : Bears context names nodes node name

/-- The schema is neither the document nor has it a title. -/
def Unnamed (context : Context) (node : Node) : Prop :=
  node ≠ .root context.document ∧ node.title? = none

/-- A way through schemas without names leads to one that has the name. -/
inductive OpensByName (context : Context) (names : Names) (nodes : List Node) :
    Node → String → Prop where
  | here {node child : Node} {name : String} (ho : OpensTo context node child)
      (hb : Bears context names nodes child name) : OpensByName context names nodes node name
  | through {node child : Node} {name : String} (ho : OpensTo context node child)
      (hu : Unnamed context child) (h : OpensByName context names nodes child name) :
      OpensByName context names nodes node name

theorem OpensByName.way (h : OpensByName context names nodes node name) :
    ∃ other, Bears context names nodes other name ∧ TransGen (OpensTo context) node other := by
  induction h with
  | here ho hb => exact ⟨_, hb, .single ho⟩
  | through ho _ _ ih =>
    obtain ⟨other, hb, hway⟩ := ih
    exact ⟨other, hb, .head ho hway⟩

theorem OpensTo.reaches (ho : OpensTo context node child)
    (hr : Reaches context (.root context.document) node) :
    Reaches context (.root context.document) child := by
  by_cases hroot : child = .root context.document
  · rw [hroot]
  · exact hr.tail (ho.leadsTo hroot)

/-! ## The run on a document -/

/-- The document was worked out, and these are its declarations. -/
structure Declared (context : Context) (type : TypeExpr) (last : Hoisted) (nodes : List Node) :
    Prop where
  distinct : context.document.Distinct
  unwritten : NoWrittenTypes context
  run : DocumentRun context type last
  hoists : HoistsOnce context (nameAt last) nodes (documentDeclarations context type last)

section Declared

variable (hs : Declared context type last nodes)
include hs

theorem Declared.mem_nodes {title : String} (ht : node.title? = some title)
    (hne : node ≠ .root context.document)
    (hr : Reaches context (.root context.document) node) : node ∈ nodes := by
  rcases reflTransGen_iff_eq_or_transGen.1 hr with heq | hway
  · exact absurd heq hne
  · exact (hs.hoists.reached node).2 ⟨by rw [ht]; rfl, hway⟩

theorem Declared.not_root (hn : node ∈ nodes) : node ≠ .root context.document := by
  obtain ⟨-, hway⟩ := (hs.hoists.reached node).1 hn
  obtain ⟨_, -, hl⟩ := TransGen.tail'_iff.1 hway
  exact hl.ne_root

/-- A schema that is reached bears a name or is unnamed. -/
theorem Declared.bears_or_unnamed (hr : Reaches context (.root context.document) node) :
    (∃ name, Bears context (nameAt last) nodes node name) ∨ Unnamed context node := by
  by_cases hroot : node = .root context.document
  · subst hroot
    exact .inl ⟨_, .document⟩
  · cases ht : node.title? with
    | none => exact .inr ⟨hroot, ht⟩
    | some title =>
      have hn := hs.mem_nodes ht hroot hr
      obtain ⟨name, hname⟩ := hs.run.named hs.distinct ((hs.hoists.reached node).1 hn).2 ht
      exact .inl ⟨name, .titled hn hname⟩

theorem Declared.reaches_of_bears (hb : Bears context (nameAt last) nodes node name) :
    Reaches context (.root context.document) node := by
  cases hb with
  | document => exact .refl
  | titled hn => exact ((hs.hoists.reached node).1 hn).2.to_reflTransGen

/-- The type of a schema that bears a name is declared by it. -/
theorem Declared.declared (hb : Bears context (nameAt last) nodes node name) :
    ∃ type' comment, WorkedOut context last node type' ∧
      .ofType name type' comment ∈ documentDeclarations context type last := by
  cases hb with
  | document => exact ⟨type, _, hs.run.workedOut, List.mem_cons_self ..⟩
  | titled hn hname =>
    obtain ⟨-, hway⟩ := (hs.hoists.reached node).1 hn
    obtain ⟨type', hw, hmem⟩ := hs.run.declared hs.distinct hway.to_reflTransGen hname
    exact ⟨type', _, hw, List.mem_cons_of_mem _ hmem⟩

/-- All declared names are borne by schemas. -/
theorem Declared.exists_bears {declaration : Declaration}
    (hmem : declaration ∈ documentDeclarations context type last) :
    ∃ node, Bears context (nameAt last) nodes node declaration.name := by
  rcases List.mem_cons.1 hmem with rfl | hmem
  · rw [Declaration.name_ofType]
    exact ⟨_, .document⟩
  · obtain ⟨node, hn, hd⟩ := (forall₂_exists hs.hoists.declared).2 declaration hmem
    exact ⟨node, .titled hn hd.named⟩

/-- No two schemas bear the same name. -/
theorem Declared.eq_of_bears {other : Node} (hb : Bears context (nameAt last) nodes node name)
    (hb' : Bears context (nameAt last) nodes other name) : node = other := by
  have hfree : ∀ {node}, node ∈ nodes → nameAt last node.path ≠ some context.name := by
    intro node hn hname
    obtain ⟨-, hway⟩ := (hs.hoists.reached node).1 hn
    obtain ⟨type', -, hmem⟩ := hs.run.declared hs.distinct hway.to_reflTransGen hname
    have hnodup := hs.hoists.distinct
    rw [List.map_cons, Declaration.name_ofType, List.nodup_cons] at hnodup
    exact hnodup.1 (List.mem_map.2 ⟨_, hmem, Declaration.name_ofType ..⟩)
  cases hb with
  | document =>
    cases hb' with
    | document => rfl
    | titled hn hname => exact absurd hname (hfree hn)
  | titled hn hname =>
    cases hb' with
    | document => exact absurd hname (hfree hn)
    | titled hn' hname' => exact hs.hoists.apart _ hn _ hn' (hname.trans hname'.symm)

/-! ## Open names of schemas -/

/-- What a run gives to a schema that another one opens with has the names in the open that the way
on leads to. -/
theorem Declared.opensByName {depth : Nat} {active : List String} {h h' : Hoisted}
    {type' : TypeExpr} (hreach : Reaches context (.root context.document) node)
    (hr : bodyAt context depth active node h = .done type' h') (hl : Later h' last)
    (hname : name ∈ type'.openNames) : OpensByName context (nameAt last) nodes node name := by
  induction depth using Nat.strong_induction_on generalizing node active h type' h' with
  | _ depth ih =>
  obtain ⟨child, type₁, ho, hopened, hname⟩ :=
    (opening_of_bodyAt (hs.unwritten node hreach) hr hl).named name hname
  cases hopened with
  | document =>
    cases List.mem_singleton.1 hname
    exact .here ho .document
  | run hne hr hl =>
    have hreach' := ho.reaches hreach
    cases metAs_of_typeAt hr hl with
    | titled ht hgiven =>
      cases List.mem_singleton.1 hname
      exact .here ho (.titled (hs.mem_nodes ht hne hreach') hgiven)
    | untitled ht =>
      cases depth with
      | zero => cases hr
      | succ depth =>
        rw [typeAt_untitled _ _ _ ht] at hr
        exact .through ho ⟨hne, ht⟩ (ih depth (Nat.lt_succ_self depth) hreach' hr hl hname)

theorem Declared.mem_openNames (ho : OpensByName context (nameAt last) nodes node name)
    (hreach : Reaches context (.root context.document) node) {type' : TypeExpr}
    (hw : WorkedOut context last node type') : name ∈ type'.openNames := by
  induction ho generalizing type' with
  | @here node child name ho hb =>
    obtain ⟨depth, active, h, h', hr, hl⟩ := hw
    obtain ⟨type₁, hopened, hsub⟩ :=
      (opening_of_bodyAt (hs.unwritten node hreach) hr hl).opened child ho
    refine hsub ?_
    cases hb with
    | document =>
      cases hopened with
      | document => exact List.mem_singleton_self _
      | run hne => exact absurd rfl hne
    | titled hn hname =>
      cases hopened with
      | document => exact absurd rfl (hs.not_root hn)
      | run _ hr hl =>
        cases metAs_of_typeAt hr hl with
        | untitled hnone =>
          have htitle := ((hs.hoists.reached child).1 hn).1
          rw [hnone] at htitle
          cases htitle
        | titled _ hgiven =>
          rw [hname] at hgiven
          cases hgiven
          exact List.mem_singleton_self _
  | @through node child name ho hu _ ih =>
    obtain ⟨depth, active, h, h', hr, hl⟩ := hw
    obtain ⟨type₁, hopened, hsub⟩ :=
      (opening_of_bodyAt (hs.unwritten node hreach) hr hl).opened child ho
    refine hsub ?_
    cases hopened with
    | document => exact absurd rfl hu.1
    | run _ hr hl =>
      cases metAs_of_typeAt hr hl with
      | untitled _ hw => exact ih (ho.reaches hreach) hw
      | titled ht =>
        rw [hu.2] at ht
        cases ht

/-- The alias of a schema has the names in the open that the ways from the schema come to. -/
theorem Declared.aliasLeads_iff {other : String}
    (hb : Bears context (nameAt last) nodes node name) :
    AliasLeads (documentDeclarations context type last) name other ↔
      OpensByName context (nameAt last) nodes node other := by
  have hreach := hs.reaches_of_bears hb
  obtain ⟨type', comment, hw, hmem⟩ := hs.declared hb
  rw [LintTypes.aliasLeads_iff hs.hoists.distinct hmem]
  constructor
  · intro hother
    obtain ⟨depth, active, h, h', hr, hl⟩ := hw
    exact hs.opensByName hreach hr hl hother
  · intro ho
    exact hs.mem_openNames ho hreach hw

/-! ## Circular aliases -/

theorem Declared.way_of_aliases {other : String}
    (hb : Bears context (nameAt last) nodes node name)
    (hway : TransGen (AliasLeads (documentDeclarations context type last)) name other) :
    ∃ child, Bears context (nameAt last) nodes child other ∧
      TransGen (OpensTo context) node child := by
  induction hway with
  | single hstep => exact ((hs.aliasLeads_iff hb).1 hstep).way
  | tail _ hstep ih =>
    obtain ⟨child, hbears, hway⟩ := ih
    obtain ⟨other, hother, hway'⟩ := ((hs.aliasLeads_iff hbears).1 hstep).way
    exact ⟨other, hother, hway.trans hway'⟩

/-- A way to a schema with a name comes to a first name, and from there through aliases. -/
theorem Declared.aliases_of_way {other : Node}
    (hb : Bears context (nameAt last) nodes other name)
    (hway : TransGen (OpensTo context) node other)
    (hreach : Reaches context (.root context.document) node) :
    ∃ first, OpensByName context (nameAt last) nodes node first ∧
      ReflTransGen (AliasLeads (documentDeclarations context type last)) first name := by
  induction hway using TransGen.head_induction_on with
  | single ho => exact ⟨name, .here ho hb, .refl⟩
  | @head node child ho _ ih =>
    have hreach' := ho.reaches hreach
    obtain ⟨first, hfirst, haliases⟩ := ih hreach'
    rcases hs.bears_or_unnamed hreach' with ⟨own, hown⟩ | hu
    · exact ⟨own, .here ho hown, .head ((hs.aliasLeads_iff hown).2 hfirst) haliases⟩
    · exact ⟨first, .through ho hu hfirst, haliases⟩

theorem Declared.circular_iff :
    Circular (documentDeclarations context type last) name ↔
      ∃ node, Bears context (nameAt last) nodes node name ∧
        TransGen (OpensTo context) node node := by
  constructor
  · intro hcircular
    obtain ⟨_, ⟨type', comment, hmem, -⟩, -⟩ := TransGen.head'_iff.1 hcircular
    obtain ⟨node, hb⟩ := hs.exists_bears hmem
    obtain ⟨other, hother, hway⟩ := hs.way_of_aliases hb hcircular
    cases hs.eq_of_bears hb hother
    exact ⟨node, hb, hway⟩
  · rintro ⟨node, hb, hway⟩
    obtain ⟨first, hfirst, haliases⟩ := hs.aliases_of_way hb hway (hs.reaches_of_bears hb)
    exact .head' ((hs.aliasLeads_iff hb).2 hfirst) haliases

end Declared

/-- A way that comes back without names goes through schemas without titles. -/
theorem onUntitledCycle_of_unnamed
    (hway : TransGen (fun parent child => OpensTo context parent child ∧ Unnamed context child)
      node node) : OnUntitledCycle context node :=
  TransGen.mono (fun _ _ hstep => ⟨hstep.1.leadsTo hstep.2.1, hstep.2.2⟩) _ _ hway

/-- An alias is circular if and only if the schema that bears its name comes back to itself through
references and branches. Where such a way has no names on it, the document is refused. -/
theorem declarations_circular {document : Json} (hd : document.Distinct) (name : String)
    (style : Style) (hw : NoWrittenTypes ⟨document, name, style⟩) :
    (∀ declarations, Schema.declarations document name style = .ok declarations →
      ∃ names nodes, HoistsOnce ⟨document, name, style⟩ names nodes declarations ∧
        ∀ declared, Circular declarations declared ↔
          ∃ node, Bears ⟨document, name, style⟩ names nodes node declared ∧
            TransGen (OpensTo ⟨document, name, style⟩) node node) ∧
    ∀ node, Reaches ⟨document, name, style⟩ (.root document) node →
      TransGen (fun parent child => OpensTo ⟨document, name, style⟩ parent child ∧
        Unnamed ⟨document, name, style⟩ child) node node →
      ∃ problem, Schema.declarations document name style = .error problem ∧
        ∀ reason, problem ≠ .rejected reason := by
  refine ⟨fun declarations h => ?done, fun node hreach hway => ?refused⟩
  case done =>
    obtain ⟨type, last, hdone, rfl⟩ := declarations_ok h
    have hrun : DocumentRun ⟨document, name, style⟩ type last := ⟨⟨_, hdone⟩⟩
    obtain ⟨nodes, hoists⟩ := hrun.hoistsOnce hd hw
    have hs : Declared ⟨document, name, style⟩ type last nodes := ⟨hd, hw, hrun, hoists⟩
    exact ⟨nameAt last, nodes, hoists, fun _ => hs.circular_iff⟩
  case refused =>
    refine declarations_error fun type h' hdone => ?_
    exact bodyAt_not_done hd (Node.root_inDocument document) hreach
      (onUntitledCycle_of_unnamed hway).stuck (List.Subset.refl _) rfl hdone

/-- A schema with a title that has itself as a branch. -/
def selfBranch : Json :=
  .object
    [("title", .string "N"),
      ("anyOf", .array
        [.object [("$ref", .string "#/$defs/n")], .object [("type", .string "null")]])]

/-- A document that refers to it. -/
def selfBranchDocument : Json :=
  .object [("$defs", .object [("n", selfBranch)]), ("$ref", .string "#/$defs/n")]

/-- The titled schema is its own branch, and so its alias is circular. -/
theorem declarations_circular_selfBranch :
    selfBranchDocument.Distinct ∧ NoWrittenTypes ⟨selfBranchDocument, "Schema0", {}⟩ ∧
      ∃ declarations, Schema.declarations selfBranchDocument "Schema0" {} = .ok declarations ∧
        Circular declarations "N" := by
  have hd : selfBranchDocument.Distinct := by simp [selfBranchDocument, selfBranch]
  have hw : NoWrittenTypes ⟨selfBranchDocument, "Schema0", {}⟩ :=
    noWrittenTypes_of_lacks hd (by simp [selfBranchDocument, selfBranch])
  have hrun : Schema.declarations selfBranchDocument "Schema0" {} =
      .ok [.typeAlias "Schema0" (.named "N") none,
        .typeAlias "N" (.union [.named "N", .null]) none] := by decide +kernel
  obtain ⟨names, nodes, hoists, hcircular⟩ := (declarations_circular hd "Schema0" {} hw).1 _ hrun
  let titled : Node := ⟨[.field "$defs", .field "n"], selfBranch⟩
  have hreferred : .referred "#/$defs/n" ∈ demands (.root selfBranchDocument) :=
    List.mem_singleton_self _
  have hn : titled ∈ nodes := (hoists.reached titled).2 ⟨rfl, .single (.referred hreferred rfl)⟩
  obtain ⟨declaration, hmem, hdeclared⟩ := (forall₂_exists hoists.declared).1 titled hn
  cases List.mem_singleton.1 hmem
  have hback : OpensTo ⟨selfBranchDocument, "Schema0", {}⟩
      ⟨[.field "$defs", .field "n", .field "anyOf", .item 0],
        .object [("$ref", .string "#/$defs/n")]⟩ ((Target.node titled).place _) :=
    .referred rfl rfl
  have hcycle : TransGen (OpensTo ⟨selfBranchDocument, "Schema0", {}⟩) titled titled :=
    .head (.branch rfl (List.mem_cons_self ..)) (.single hback)
  exact ⟨hd, hw, _, hrun, (hcircular "N").2 ⟨titled, .titled hn hdeclared.named, hcycle⟩⟩

/-- A schema that has the document as a branch. -/
def documentBranch : Json :=
  .object
    [("anyOf", .array [.object [("$ref", .string "#")], .object [("type", .string "string")]])]

/-- The document is not refused, although its alias is a union with itself. -/
theorem circular_documentBranch :
    documentBranch.Distinct ∧ documentBranch.Lacks "tsType" ∧
      ∃ declarations, Schema.declarations documentBranch "Schema0" {} = .ok declarations ∧
        Circular declarations "Schema0" := by
  have hrun : Schema.declarations documentBranch "Schema0" {} =
      .ok [.typeAlias "Schema0" (.union [.named "Schema0", .string]) none] := rfl
  refine ⟨by simp [documentBranch], by simp [documentBranch], _, hrun, .single ?_⟩
  exact ⟨_, _, List.mem_singleton_self _, List.mem_cons_self ..⟩

end Schema

end LintTypes
