import LintTypes.Proofs.Inlining

/-!
# Types of inlined schemas

References and titles change names only: what a document declares with them unfolds to what it
declares with all references in place, and it is refused if and only if the other one is.

The runs on the two documents name and follow different things, and they fail at different places.
So they are compared schema by schema, with the depth that references are put in place to as the
measure: a schema that was worked out on the one side (`WorkedOut`) has a type on the other side,
and nothing that it leads to is to blame.
-/

namespace LintTypes.Schema

open Hoisting Relation

variable {context context' : Context} {depth : Nat} {node node' child : Node} {last : Hoisted}
  {type : TypeExpr}

/-- All references of schemas that the document leads to are to schemas below it, and none leads
back. -/
structure ReferencesEnd (context : Context) : Prop where
  inside : ∀ node, Reaches context (.root context.document) node → RefersInside context node
  acyclic : ∀ node, Reaches context (.root context.document) node →
    ¬TransGen (LeadsTo context) node node

/-- A document whose references can be put in place, and another context for the result. -/
structure Inlinable (context context' : Context) : Prop where
  distinct : context.document.Distinct
  unwritten : NoWrittenTypes context
  kinds : ∀ node, Reaches context (.root context.document) node → KindsKept context node
  style : context'.style = context.style

/-! ## Side by side -/

theorem not_referred (hr : node.value.get? "$ref" = none) (reference : String) :
    .referred reference ∉ demands node := by
  intro hmem
  cases ofNode_of_mem_demands hmem with
  | referred hsome =>
    rw [hr] at hsome
    cases hsome

theorem unfoldsTo_keyword (declarations : Declarations) (word : Keyword) :
    UnfoldsTo declarations (.keyword word) (.keyword word) := by
  refine ⟨0, fun deeper _ => ?_⟩
  obtain ⟨reference, heq⟩ := TypeExpr.unfolded_eq declarations deeper
  rw [heq]
  exact ⟨by simp [TypeExpr.NoReferences, TypeExpr.rebuild, TypeExpr.parts], .of_plain rfl,
    .of_plain rfl, rfl⟩

theorem contextPair_unfoldsTo (declarations : Declarations) (h : context'.style = context.style) :
    ContextPair (UnfoldsTo declarations) context context' := by
  refine ⟨by rw [h], by rw [h], ?_⟩
  have hsame : context'.unknown = context.unknown := by
    unfold Context.unknown
    rw [h]
  rw [hsame]
  unfold Context.unknown
  split <;> exact unfoldsTo_keyword _ _

section Inlinable

variable (hs : Inlinable context context')
include hs

/-- A schema without a reference is worked out like what becomes of it. -/
theorem Inlinable.meetBoth (declarations : Declarations)
    (hreach : Reaches context (.root context.document) node)
    (hwithin : AllWithin context (RefersInside context) (depth + 1) node)
    (hr : node.value.get? "$ref" = none)
    (hi : Inlines context.document (depth + 1) node node') :
    MeetBoth (UnfoldsTo declarations) (Inlines context.document depth) context'.unknown
      (UnfoldsTo declarations) (demands node) (demands node')
      (fun typeOf follow => typeOfSchema context typeOf follow node)
      fun typeOf follow => typeOfSchema context' typeOf follow node' := by
  have hc := congruent_unfoldsTo declarations
  refine meetBoth_typeOfSchema hc.toRespected (contextPair_unfoldsTo declarations hs.style)
    (fun text htext => ?_) (fun _ => hc.unknown)
    (corresponds_inlined hi hr (hs.kinds node hreach)
      fun child hmem => hwithin.2 child (.inner hmem))
  rw [hs.unwritten node hreach] at htext
  cases htext

end Inlinable

/-- What is done refuses nothing. -/
theorem not_refused_of_done {active : List String} {h h' : Hoisted}
    (hr : bodyAt context depth active node h = .done type h') (problem : SchemaProblem) :
    .refused problem ∉ demands node := by
  intro hmem
  obtain ⟨-, hmet⟩ := (meets_typeOfSchema context node).done (fun _ => True)
    (fun _ _ _ _ _ _ _ => trivial) trivial hr
  obtain ⟨h₁, type, h₂, -, hdone⟩ := hmet _ hmem
  cases hdone

/-- What is done is a schema. -/
theorem not_noSchema_of_done {active : List String} {h h' : Hoisted}
    (hr : bodyAt context depth active node h = .done type h') : ¬NoSchema node.value := by
  rintro ⟨hobject, hbool⟩
  refine not_refused_of_done hr (.noSchema node.value) ?_
  unfold demands
  cases hv : node.value with
  | object fields => exact absurd hv (hobject fields)
  | bool truth => exact absurd hv (hbool truth)
  | _ => exact List.mem_singleton_self _

/-- An untitled schema at its place is worked out by its keywords. -/
theorem bodyAt_of_typeAt {active : List String} {h h' : Hoisted} (ht : node.title? = none)
    (hr : typeAt context depth active node h = .done type h') :
    ∃ less, bodyAt context less active node h = .done type h' := by
  cases depth with
  | zero => cases hr
  | succ depth =>
    rw [typeAt_untitled _ _ _ ht] at hr
    exact ⟨depth, hr⟩

theorem bodyAt_true (hv : node.value = .bool true) {active : List String} {h : Hoisted} :
    bodyAt context depth active node h = .done context.unknown h := by
  unfold bodyAt typeOfSchema
  rw [hv]
  rfl

/-- A schema that refers to another one is met as that one. -/
theorem WorkedOut.metAs {reference : String} (hw : WorkedOut context last node type)
    (hr : node.value.get? "$ref" = some (.string reference))
    (ht : target context reference = .ok (.node child)) : MetAs context last child type := by
  obtain ⟨depth, active, h, h', hdone, hlater⟩ := hw
  have hmeet : (Demand.referred reference).meet (typeAt context depth active)
      (referredType context (typeAt context depth) active) h = .done type h' := by
    rw [bodyAt_of_ref hr] at hdone
    exact hdone
  obtain ⟨active', -, hdone⟩ := (Demand.LeadsTo.referred ht).done hmeet
  exact metAs_of_typeAt hdone hlater

/-! ## From the document to its inlined form -/

section Run

variable {first : TypeExpr} (hs : Inlinable context context')
  (hrun : DocumentRun context first last)
include hs hrun

/-- What stands in the place of a schema of a document that was worked out is a schema. -/
theorem DocumentRun.isSchema (hreach : Reaches context (.root context.document) node)
    (hwithin : AllWithin context (RefersInside context) depth node)
    (hi : Inlines context.document depth node node') : ¬NoSchema node'.value := by
  obtain ⟨end', hends, hkind⟩ := takesPlace_inlined hwithin
  obtain ⟨_, _, _, _, _, hdone, -⟩ := hrun.reached hs.distinct (hreach.trans hends.reaches)
  rintro ⟨hobject, hbool⟩
  rcases hkind with ⟨-, fields', hvalue⟩ | ⟨hplain, hvalue⟩
  · exact hobject fields' (hi.trans hvalue)
  · refine not_noSchema_of_done hdone ⟨hplain, fun truth => ?_⟩
    rw [← hvalue, ← hi]
    exact hbool truth

/-- What the inlined form asks for are the inlined forms of what the schema asks for. -/
theorem DocumentRun.asksFor (hreach : Reaches context (.root context.document) node)
    (hwithin : AllWithin context (RefersInside context) (depth + 1) node)
    (hr : node.value.get? "$ref" = none)
    (hi : Inlines context.document (depth + 1) node node') {demand' : Demand}
    (hd : demand' ∈ demands node') :
    ∃ child child', demand' = .inner child' ∧ .inner child ∈ demands node ∧
      Inlines context.document depth child child' := by
  have hunknown := (contextPair_unfoldsTo last.declarations (rfl : context'.style = _)).unknown
  rcases (hs.meetBoth last.declarations hreach hwithin hr hi).right hunknown hd with
    ⟨demand, hmem, hpair⟩ | ⟨problem, hmem⟩ | ⟨child, child', hmem, hinlines, hnone⟩
  · cases hpair with
    | inner hinlines => exact ⟨_, _, rfl, hmem, hinlines⟩
    | referred reference => exact absurd hmem (not_referred hr reference)
  · obtain ⟨_, _, _, _, _, hdone, -⟩ := hrun.reached hs.distinct hreach
    exact absurd hmem (not_refused_of_done hdone problem)
  · have hl : LeadsTo context node child := .inner hmem
    exact absurd hnone (hrun.isSchema hs (hreach.tail hl) (hwithin.2 child hl) hinlines)

theorem DocumentRun.find? {declaration : Declaration} (hmem : declaration ∈ last.declarations) :
    last.declarations.find? declaration.name = some declaration := by
  obtain ⟨depth, hdone⟩ := hrun
  have hdeclares := declaresDocument_of_done (closed_inDocument hs.distinct)
    (Node.root_inDocument context.document) hdone
  exact Declarations.find?_of_mem hdeclares.nodup.of_cons hmem

/-- Up to the depth, a schema and its inlined form have types that say the same, and the inlined
form declares nothing. -/
def TypesAgree (context context' : Context) (last : Hoisted) (depth : Nat) : Prop :=
  ∀ node node' type depth' active k type' k', Reaches context (.root context.document) node →
    AllWithin context (RefersInside context) depth node →
    Inlines context.document depth node node' → WorkedOut context last node type →
    bodyAt context' depth' active node' k = .done type' k' →
    UnfoldsTo last.declarations type type' ∧ k' = k

section Agreement

variable {active : List String} {k k' : Hoisted} {type' : TypeExpr} {depth' : Nat} {child' : Node}
  (ih : TypesAgree context context' last depth)
  (hreach : Reaches context (.root context.document) node)
  (hwithin : AllWithin context (RefersInside context) (depth + 1) node)
include ih hreach hwithin

/-- A titled schema was declared, and its name unfolds to what its keywords made. -/
theorem TypesAgree.metAs (hl : LeadsTo context node child) (hmet : MetAs context last child type)
    (hi : Inlines context.document depth child child')
    (hdone : bodyAt context' depth' active child' k = .done type' k') :
    UnfoldsTo last.declarations type type' ∧ k' = k := by
  cases hmet with
  | untitled _ hw =>
    exact ih _ _ _ _ _ _ _ _ (hreach.tail hl) (hwithin.2 child hl) hi hw hdone
  | titled _ hname =>
    obtain ⟨type, hw, hmem⟩ := hrun.declared hs.distinct (hreach.tail hl) hname
    obtain ⟨hunfolds, hsame⟩ :=
      ih _ _ _ _ _ _ _ _ (hreach.tail hl) (hwithin.2 child hl) hi hw hdone
    have hfound := hrun.find? hs hmem
    rw [Declaration.name_ofType] at hfound
    refine ⟨unfoldsTo_named hfound ?_, hsame⟩
    rwa [Declaration.type_ofType]

theorem TypesAgree.keywords (hr : node.value.get? "$ref" = none)
    (hi : Inlines context.document (depth + 1) node node') (hw : WorkedOut context last node type)
    (hdone : bodyAt context' depth' active node' k = .done type' k') :
    UnfoldsTo last.declarations type type' ∧ k' = k := by
  have huntitled : ∀ {child child'}, .inner child ∈ demands node →
      Inlines context.document depth child child' → child'.title? = none :=
    fun hmem hi => hi.title? (hwithin.2 _ (.inner hmem))
  have hsame : k' = k := by
    refine (bodyAt_done (· = k) (fun child' active' h type' h' hl _ hk hdone => ?_) rfl hdone).1
    obtain ⟨demand', hmem', hleads⟩ := hl
    obtain ⟨child, child'', rfl, hmem, hi⟩ := hrun.asksFor hs hreach hwithin hr hi hmem'
    cases hleads
    obtain ⟨less, hdone⟩ := bodyAt_of_typeAt (huntitled hmem hi) hdone
    obtain ⟨type', hmet⟩ := hw.leadsTo (.inner hmem)
    rw [(ih.metAs hs hrun hreach hwithin (.inner hmem) hmet hi hdone).2, hk]
  refine ⟨?_, hsame⟩
  obtain ⟨_, _, _, _, hdone', hlater⟩ := hw
  refine (hs.meetBoth last.declarations hreach hwithin hr hi).done (fun h => Later h last)
    (fun _ _ _ _ _ hdone hlater => (meet_later hdone).trans hlater)
    (fun demand hmem demand' hpair h type h' k type' k' hdone hlater hdone' => ?_)
    (fun child child' hmem hi hv h type h' hdone hlater => ?_) hdone' hlater hdone
  · cases hpair with
    | inner hi =>
      have hmet := metAs_of_typeAt hdone hlater
      obtain ⟨less, hdone'⟩ := bodyAt_of_typeAt (huntitled hmem hi) hdone'
      exact (ih.metAs hs hrun hreach hwithin (.inner hmem) hmet hi hdone').1
    | referred reference => exact absurd hmem (not_referred hr reference)
  · have hmet := metAs_of_typeAt hdone hlater
    have hknown : bodyAt context' 0 [] child' h = .done context'.unknown h := bodyAt_true hv
    exact (ih.metAs hs hrun hreach hwithin (.inner hmem) hmet hi hknown).1

end Agreement

theorem DocumentRun.typesAgree (depth : Nat) : TypesAgree context context' last depth := by
  induction depth with
  | zero =>
    intro node node' type depth' active k type' k' _ hwithin
    exact hwithin.elim
  | succ depth ih =>
    intro node node' type depth' active k type' k' hreach hwithin hi hw hdone
    cases hr : node.value.get? "$ref" with
    | none => exact ih.keywords hs hrun hreach hwithin hr hi hw hdone
    | some reference =>
      obtain ⟨text, child, rfl, ht⟩ := hwithin.1 reference hr
      exact ih.metAs hs hrun hreach hwithin (.ofReference hr ht) (hw.metAs hr ht)
        (hi.trans (inlined_of_reference hr ht)) hdone

/-- No schema in the inlined form is to blame. -/
theorem DocumentRun.not_blamed {active : List String} {problem : SchemaProblem}
    (hreach : Reaches context (.root context.document) node)
    (hwithin : AllWithin context (RefersInside context) depth node)
    (hi : Inlines context.document depth node node') :
    ¬Blamed context' active node' problem := by
  induction depth generalizing node node' active with
  | zero => exact hwithin.elim
  | succ depth ih =>
    cases hr : node.value.get? "$ref" with
    | some reference =>
      obtain ⟨text, child, rfl, ht⟩ := hwithin.1 reference hr
      have hl : LeadsTo context node child := .ofReference hr ht
      exact ih (hreach.tail hl) (hwithin.2 child hl) (hi.trans (inlined_of_reference hr ht))
    | none =>
      have hinner : ∀ {demand'}, demand' ∈ demands node' → ∃ child child',
          demand' = .inner child' ∧ .inner child ∈ demands node ∧
            Inlines context.document depth child child' :=
        fun hmem => hrun.asksFor hs hreach hwithin hr hi hmem
      intro hb
      cases hb with
      | inner hmem hb =>
        obtain ⟨child, _, ⟨⟩, hmem, hi⟩ := hinner hmem
        have hl : LeadsTo context node child := .inner hmem
        exact ih (hreach.tail hl) (hwithin.2 child hl) hi hb
      | refused hmem | targetless hmem | cycle hmem | titled hmem | followed hmem =>
        obtain ⟨_, _, heq, -⟩ := hinner hmem
        cases heq

end Run

/-! ## From the inlined form to the document -/

/-- The schema can be worked out. -/
def Finishes (context : Context) (node : Node) : Prop :=
  ∃ depth active h type h', bodyAt context depth active node h = .done type h'

theorem Finishes.inner (hf : Finishes context node) (hmem : .inner child ∈ demands node)
    (ht : child.title? = none) : Finishes context child := by
  obtain ⟨depth, active, h, type, h', hdone⟩ := hf
  obtain ⟨active', h₁, type', h₂, -, -, hdone⟩ := (bodyAt_done (fun _ => True)
    (fun _ _ _ _ _ _ _ _ _ => trivial) trivial hdone).2 child (.inner hmem)
  obtain ⟨less, hdone⟩ := bodyAt_of_typeAt ht hdone
  exact ⟨less, active', h₁, type', h₂, hdone⟩

/-- If a schema that refers to another one is to blame and no way leads from it back to it, the
other one is to blame. -/
theorem Blamed.of_reference {active : List String} {problem : SchemaProblem} {text : String}
    (hb : Blamed context active node problem) (hfollowed : FollowedTo context active node)
    (hacyclic : ¬TransGen (LeadsTo context) node node)
    (hr : node.value.get? "$ref" = some (.string text))
    (ht : target context text = .ok (.node child)) :
    ∃ active', FollowedTo context active' child ∧ Blamed context active' child problem := by
  have hl : LeadsTo context node child := .ofReference hr ht
  have honly : ∀ {demand}, demand ∈ demands node → demand = .referred text := by
    intro demand hmem
    rw [demands_of_get? hr] at hmem
    exact List.mem_singleton.1 hmem
  cases hb with
  | refused hmem | inner hmem => cases honly hmem
  | targetless hmem ht' =>
    cases honly hmem
    rw [ht] at ht'
    cases ht'
  | cycle hmem ht' hu ha =>
    -- The reference is being followed, so the way from its target led here and goes on to it.
    cases honly hmem
    obtain ⟨start, hstart, hback⟩ := hfollowed text ha
    rw [ht] at hstart
    cases hstart
    exact absurd (.head' hl hback) hacyclic
  | titled hmem ht' hb =>
    cases honly hmem
    rw [ht] at ht'
    cases ht'
    exact ⟨active, hfollowed.leadsTo hl, hb⟩
  | followed hmem ht' hb =>
    have hcons := hfollowed.cons hmem ht'
    cases honly hmem
    rw [ht] at ht'
    cases ht'
    exact ⟨_, hcons, hb⟩

section Inlinable

variable (hs : Inlinable context context')
include hs

/-- If the inlined form can be worked out, the schema asks for schemas only, and their inlined forms
can be worked out. -/
theorem Inlinable.asksFor (hreach : Reaches context (.root context.document) node)
    (hwithin : AllWithin context (RefersInside context) (depth + 1) node)
    (hr : node.value.get? "$ref" = none)
    (hi : Inlines context.document (depth + 1) node node') (hf : Finishes context' node')
    {demand : Demand} (hd : demand ∈ demands node) :
    ∃ child child', demand = .inner child ∧ Inlines context.document depth child child' ∧
      Finishes context' child' := by
  have hunknown := (contextPair_unfoldsTo [] (rfl : context'.style = _)).unknown
  rcases (hs.meetBoth [] hreach hwithin hr hi).left hunknown hd with
    ⟨demand', hmem, hpair⟩ | ⟨child, child', rfl, hi, hv⟩ | ⟨problem, hmem⟩
  · cases hpair with
    | inner hi => exact ⟨_, _, rfl, hi, hf.inner hmem (hi.title? (hwithin.2 _ (.inner hd)))⟩
    | referred reference => exact absurd hd (not_referred hr reference)
  · exact ⟨child, child', rfl, hi, 0, [], { taken := [] }, _, _, bodyAt_true hv⟩
  · obtain ⟨_, _, _, _, _, hdone⟩ := hf
    exact absurd hmem (not_refused_of_done hdone problem)

/-- No schema of the document is to blame. -/
theorem Inlinable.not_blamed {active : List String} {problem : SchemaProblem}
    (hreach : Reaches context (.root context.document) node)
    (hwithin : AllWithin context (RefersInside context) depth node)
    (hi : Inlines context.document depth node node') (hf : Finishes context' node')
    (hfollowed : FollowedTo context active node) : ¬Blamed context active node problem := by
  induction depth generalizing node node' active with
  | zero => exact hwithin.elim
  | succ depth ih =>
    intro hb
    cases hr : node.value.get? "$ref" with
    | some reference =>
      obtain ⟨text, child, rfl, ht⟩ := hwithin.1 reference hr
      have hl : LeadsTo context node child := .ofReference hr ht
      obtain ⟨active', hfollowed, hb⟩ := hb.of_reference hfollowed hwithin.acyclic hr ht
      exact ih (hreach.tail hl) (hwithin.2 child hl) (hi.trans (inlined_of_reference hr ht)) hf
        hfollowed hb
    | none =>
      have hinner : ∀ {demand}, demand ∈ demands node → ∃ child child',
          demand = .inner child ∧ Inlines context.document depth child child' ∧
            Finishes context' child' :=
        fun hmem => hs.asksFor hreach hwithin hr hi hf hmem
      cases hb with
      | inner hmem hb =>
        obtain ⟨_, _, heq, hi, hf⟩ := hinner hmem
        cases heq
        exact ih (hreach.tail (.inner hmem)) (hwithin.2 _ (.inner hmem)) hi hf
          (hfollowed.leadsTo (.inner hmem)) hb
      | refused hmem | targetless hmem | cycle hmem | titled hmem | followed hmem =>
        obtain ⟨_, _, heq, -⟩ := hinner hmem
        cases heq

end Inlinable

/-! ## Documents -/

/-- Both documents are refused, or both have declarations. Then the second one has one only, and the
first declaration of the first one unfolds to it. -/
inductive SameType (name : String) :
    Except SchemaProblem Declarations → Except SchemaProblem Declarations → Prop where
  | declared {first first' : Declaration} {others : Declarations} (hn : first.name = name)
      (hn' : first'.name = name) (h : UnfoldsTo others first.type first'.type) :
      SameType name (.ok (first :: others)) (.ok [first'])
  | refused (problem problem' : SchemaProblem) : SameType name (.error problem) (.error problem')

/-- References and titles change names only: a document without written types whose references end
declares the same as its inlined form, as long as keywords read what stands in the place of a
reference like what stands there in general. -/
theorem declarations_inlined {document : Json} {depth : Nat} {name : String} {style : Style}
    (hd : document.Distinct) (hw : NoWrittenTypes ⟨document, name, style⟩)
    (hr : ReferencesEnd ⟨document, name, style⟩)
    (hk : ∀ node, Reaches ⟨document, name, style⟩ (.root document) node →
      KindsKept ⟨document, name, style⟩ node) (hdepth : document.size ≤ depth) :
    SameType name (Schema.declarations document name style)
      (Schema.declarations (inlined document depth document) name style) := by
  have hs : Inlinable ⟨document, name, style⟩ ⟨inlined document depth document, name, style⟩ :=
    ⟨hd, hw, hk, rfl⟩
  have hwithin : AllWithin ⟨document, name, style⟩ (RefersInside ⟨document, name, style⟩) depth
      (.root document) := allWithin_of_acyclic hr.inside hr.acyclic hdepth
  have hi : Inlines document depth (.root document) (.root (inlined document depth document)) := rfl
  rcases declarations_ok_or_blamed document name style with
    ⟨declarations, hok⟩ | ⟨problem, herror, hblamed⟩
  · obtain ⟨type, last, hdone, rfl⟩ := declarations_ok hok
    have hrun : DocumentRun ⟨document, name, style⟩ type last := ⟨⟨_, hdone⟩⟩
    rcases declarations_ok_or_blamed (inlined document depth document) name style with
      ⟨declarations', hok'⟩ | ⟨problem', -, hblamed'⟩
    · obtain ⟨type', last', hdone', rfl⟩ := declarations_ok hok'
      obtain ⟨hunfolds, rfl⟩ :=
        hrun.typesAgree hs depth _ _ _ _ _ _ _ _ .refl hwithin hi hrun.workedOut hdone'
      rw [hok, hok']
      refine .declared (Declaration.name_ofType ..) (Declaration.name_ofType ..) ?_
      rwa [Declaration.type_ofType, Declaration.type_ofType]
    · exact absurd hblamed' (hrun.not_blamed hs .refl hwithin hi)
  · rcases declarations_ok_or_blamed (inlined document depth document) name style with
      ⟨declarations', hok'⟩ | ⟨problem', herror', -⟩
    · obtain ⟨type', last', hdone', rfl⟩ := declarations_ok hok'
      have hf : Finishes ⟨inlined document depth document, name, style⟩
          (.root (inlined document depth document)) := ⟨_, [], _, _, _, hdone'⟩
      exact absurd hblamed (hs.not_blamed .refl hwithin hi hf (List.forall_mem_nil _))
    · rw [herror, herror']
      exact .refused _ _

/-! ## Small documents -/

/-- The schemas that a schema leads to, in order. -/
def leads (context : Context) (node : Node) : List Node :=
  (demands node).filterMap fun
    | .inner child => some child
    | .referred reference =>
      match target context reference with
      | .ok (.node child) => some child
      | _ => none
    | .refused _ => none

theorem mem_leads : child ∈ leads context node ↔ LeadsTo context node child := by
  unfold leads
  rw [List.mem_filterMap]
  refine exists_congr fun demand => and_congr_right fun _ => ⟨fun h => ?_, fun h => ?_⟩
  · cases demand with
    | inner child =>
      cases h
      exact .inner child
    | referred reference =>
      dsimp only at h
      split at h
      · rename_i ht
        cases h
        exact .referred ht
      · cases h
    | refused problem => cases h
  · cases h with
    | inner => rfl
    | referred ht => simp only [ht]

theorem allWithin_succ {P : Node → Prop} (hP : P node)
    (h : ∀ child ∈ leads context node, AllWithin context P depth child) :
    AllWithin context P (depth + 1) node :=
  ⟨hP, fun child hl => h child (mem_leads.2 hl)⟩

theorem referencesEnd_of_allWithin {P : Node → Prop}
    (h : AllWithin context P depth (.root context.document))
    (hP : ∀ node, P node → RefersInside context node) : ReferencesEnd context := by
  refine ⟨fun node hreach => hP node (h.reached hreach), fun node hreach hcycle => ?_⟩
  obtain ⟨less, hless⟩ := h.within hreach
  exact hless.acyclic hcycle

theorem refersInside_of_none (h : node.value.get? "$ref" = none) : RefersInside context node := by
  intro reference hr
  rw [h] at hr
  cases hr

theorem refersInside_of_target {text : String} (h : node.value.get? "$ref" = some (.string text))
    (ht : target context text = .ok (.node child)) : RefersInside context node := by
  intro reference hr
  rw [h] at hr
  cases hr
  exact ⟨text, child, rfl, ht⟩

/-- A document with a keyword whose value is a reference to a value that is no object. -/
def referring (keyword : String) (value : Json) (others : List (String × Json)) : Json :=
  .object ([("$defs", .object [("value", value)]),
    (keyword, .object [("$ref", .string "#/$defs/value")])] ++ others)

/-- The references of the document end, and still its type is not that of its inlined form. -/
structure ReadsApart (document : Json) : Prop where
  distinct : document.Distinct
  unwritten : NoWrittenTypes ⟨document, "Schema0", {}⟩
  ends : ReferencesEnd ⟨document, "Schema0", {}⟩
  apart : ¬SameType "Schema0" (Schema.declarations document "Schema0" {})
    (Schema.declarations (inlined document document.size document) "Schema0" {})

theorem not_unfoldsTo {declarations : Declarations} {type type' : TypeExpr}
    (h : ∀ reference, (type.rebuild { reference := reference }).flat ≠ type'.flat) :
    ¬UnfoldsTo declarations type type' := by
  rintro ⟨depth, hunfolds⟩
  obtain ⟨reference, heq⟩ := TypeExpr.unfolded_eq declarations depth
  obtain ⟨-, -, -, hflat⟩ := hunfolds depth le_rfl
  rw [heq] at hflat
  exact h reference hflat

theorem not_sameType {name : String} {outcome outcome' : Except SchemaProblem Declarations}
    (first first' : Declaration) {others : Declarations} (h : outcome = .ok (first :: others))
    (h' : outcome' = .ok [first'])
    (hr : ∀ reference, (first.type.rebuild { reference := reference }).flat ≠ first'.type.flat) :
    ¬SameType name outcome outcome' := by
  subst h h'
  rintro ⟨-, -, hunfolds⟩
  exact not_unfoldsTo hr hunfolds

theorem not_sameType_refused {name : String} {outcome outcome' : Except SchemaProblem Declarations}
    (problem : SchemaProblem) (declarations : Declarations) (h : outcome = .error problem)
    (h' : outcome' = .ok declarations) : ¬SameType name outcome outcome' := by
  subst h h'
  nofun

/-- The only way from the document leads to a reference and from there to a value that leads
nowhere. -/
theorem ReadsApart.of_link {document : Json} {link value : Node} {text : String}
    (hd : document.Distinct) (ht : document.Lacks "tsType")
    (hroot : document.get? "$ref" = none)
    (hlink : leads ⟨document, "Schema0", {}⟩ (.root document) = [link])
    (href : link.value.get? "$ref" = some (.string text))
    (htarget : target ⟨document, "Schema0", {}⟩ text = .ok (.node value))
    (hplain : value.value.get? "$ref" = none)
    (hvalue : leads ⟨document, "Schema0", {}⟩ value = [])
    (hapart : ¬SameType "Schema0" (Schema.declarations document "Schema0" {})
      (Schema.declarations (inlined document document.size document) "Schema0" {})) :
    ReadsApart document := by
  have hnext : leads ⟨document, "Schema0", {}⟩ link = [value] := by
    simp [leads, demands_of_get? href, htarget]
  have hwithin : AllWithin ⟨document, "Schema0", {}⟩ (RefersInside ⟨document, "Schema0", {}⟩) 3
      (.root document) := by
    refine allWithin_succ (refersInside_of_none hroot) ?_
    rw [hlink]
    refine List.forall_mem_singleton.2 (allWithin_succ (refersInside_of_target href htarget) ?_)
    rw [hnext]
    refine List.forall_mem_singleton.2 (allWithin_succ (refersInside_of_none hplain) ?_)
    rw [hvalue]
    exact List.forall_mem_nil _
  exact ⟨hd, noWrittenTypes_of_lacks hd ht, referencesEnd_of_allWithin hwithin fun _ h => h, hapart⟩

/-- A reference to `false` is a schema without values for other keys or items, while `false` itself
says that there are none. A reference to `true` is a schema for any number of other items, while
`true` itself leaves a greatest length in force. And a reference under `items` is to one schema,
while an array there is a list of schemas. -/
theorem readsApart_referring :
    ReadsApart (referring "additionalProperties" (.bool false) []) ∧
      ReadsApart (referring "additionalItems" (.bool false) [("items", .array [])]) ∧
      ReadsApart (referring "additionalItems" (.bool true)
        [("items", .array []), ("maxItems", .number (.integer 1))]) ∧
      ReadsApart (referring "items" (.array []) []) := by
  refine ⟨?keys, ?none, ?any, ?list⟩
  case keys =>
    refine .of_link (by simp [referring]) (by simp [referring]) rfl rfl rfl rfl rfl rfl ?_
    exact not_sameType (.interface "Schema0" [] [.anyKey .never] none)
      (.interface "Schema0" [] [] none) rfl rfl nofun
  case none =>
    refine .of_link (by simp [referring]) (by simp [referring]) rfl rfl rfl rfl rfl rfl ?_
    exact not_sameType (.typeAlias "Schema0" (.tuple [.rest .never]) none)
      (.typeAlias "Schema0" (.tuple []) none) rfl rfl nofun
  case any =>
    refine .of_link (by simp [referring]) (by simp [referring]) rfl rfl rfl rfl rfl rfl ?_
    exact not_sameType (.typeAlias "Schema0" (.tuple [.rest .unknown]) none)
      (.typeAlias "Schema0" (.union [.tuple [], .tuple [.required .unknown]]) none) rfl rfl nofun
  case list =>
    refine .of_link (by simp [referring]) (by simp [referring]) rfl rfl rfl rfl rfl rfl ?_
    exact not_sameType_refused (.noSchema (.array []))
      [.typeAlias "Schema0" (.tuple [.rest .unknown]) none] rfl rfl

theorem kindsKept_of_none (hproperties : node.field? "additionalProperties" = none)
    (hitems : node.field? "items" = none) (hrest : node.field? "additionalItems" = none) :
    KindsKept context node := by
  constructor
  · intro additional last h
    rw [hproperties] at h
    cases h
  · intro items last h
    rw [hitems] at h
    cases h
  · intro additional last h
    rw [hrest] at h
    cases h

/-- An array of at most two entries, where an entry is a titled union with a titled union in it. -/
def sharedEntries : Json :=
  .object
    [("$defs", .object
      [("mode", .object
        [("title", .string "Mode"), ("enum", .array [.string "a", .string "b"])]),
      ("entry", .object
        [("title", .string "Entry"),
          ("anyOf", .array
            [.object [("$ref", .string "#/$defs/mode")], .object [("type", .string "null")]])])]),
    ("items", .object [("$ref", .string "#/$defs/entry")]), ("maxItems", .number (.integer 2))]

theorem kindsKept_sharedEntries :
    KindsKept ⟨sharedEntries, "Schema0", {}⟩ (.root sharedEntries) := by
  constructor
  · rintro additional last ⟨⟩
  · rintro items last ⟨⟩ - hends
    cases hends with
    | here h => cases h
    | next hr ht h =>
      cases hr
      cases ht
      cases h with
      | here => exact nofun
      | next hr => cases hr
  · rintro additional last ⟨⟩

/-- The union of the mode and `null` becomes one union of three, in each of the three lengths. -/
theorem declarations_inlined_sharedEntries :
    sharedEntries.Distinct ∧ NoWrittenTypes ⟨sharedEntries, "Schema0", {}⟩ ∧
      ReferencesEnd ⟨sharedEntries, "Schema0", {}⟩ ∧
      (∀ node, Reaches ⟨sharedEntries, "Schema0", {}⟩ (.root sharedEntries) node →
        KindsKept ⟨sharedEntries, "Schema0", {}⟩ node) ∧
      (Schema.declarations sharedEntries "Schema0" {}).isOk = true ∧
      SameType "Schema0" (Schema.declarations sharedEntries "Schema0" {})
        (Schema.declarations (inlined sharedEntries sharedEntries.size sharedEntries) "Schema0"
          {}) := by
  have hd : sharedEntries.Distinct := by simp [sharedEntries]
  have hw : NoWrittenTypes ⟨sharedEntries, "Schema0", {}⟩ :=
    noWrittenTypes_of_lacks hd (by simp [sharedEntries])
  have hwithin : AllWithin ⟨sharedEntries, "Schema0", {}⟩
      (fun node => RefersInside ⟨sharedEntries, "Schema0", {}⟩ node ∧
        KindsKept ⟨sharedEntries, "Schema0", {}⟩ node) 5 (.root sharedEntries) := by
    refine allWithin_succ ⟨refersInside_of_none rfl, kindsKept_sharedEntries⟩
      (List.forall_mem_singleton.2 ?items)
    refine allWithin_succ ⟨refersInside_of_target rfl rfl, kindsKept_of_none rfl rfl rfl⟩
      (List.forall_mem_singleton.2 ?entry)
    refine allWithin_succ ⟨refersInside_of_none rfl, kindsKept_of_none rfl rfl rfl⟩
      (List.forall_mem_cons.2 ⟨?mode, List.forall_mem_singleton.2 ?null⟩)
    case mode =>
      refine allWithin_succ ⟨refersInside_of_target rfl rfl, kindsKept_of_none rfl rfl rfl⟩
        (List.forall_mem_singleton.2 ?_)
      exact allWithin_succ ⟨refersInside_of_none rfl, kindsKept_of_none rfl rfl rfl⟩
        (List.forall_mem_nil _)
    case null =>
      exact allWithin_succ ⟨refersInside_of_none rfl, kindsKept_of_none rfl rfl rfl⟩
        (List.forall_mem_nil _)
  have hr := referencesEnd_of_allWithin hwithin fun _ => And.left
  have hk := fun node (hreach : Reaches _ _ node) => (hwithin.reached hreach).2
  exact ⟨hd, hw, hr, hk, by decide +kernel, declarations_inlined hd hw hr hk le_rfl⟩

end LintTypes.Schema
