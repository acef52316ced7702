import LintTypes.Proofs.FreshNames
import LintTypes.Proofs.SchemaTyping

/-!
# What hoisting declares

A computation that hoists only ever adds: names, and declarations whose names were free. `Adds` says
what a whole run adds, each new declaration being that of a titled schema. `Yields` says that a
computation adds no more than that and which values it yields, with a rule for each way to compose
computations.
-/

namespace LintTypes

@[simp] theorem Declaration.name_ofType (name : String) (type : TypeExpr)
    (comment : Option String) : (Declaration.ofType name type comment).name = name := by
  unfold Declaration.ofType
  split <;> rfl

/-! ## Computations -/

namespace Hoisting

variable {α β γ : Type}

theorem bind_apply (x : Hoisting α) (f : α → Hoisting β) (h : Hoisted) :
    (x >>= f) h =
      match x h with
      | .done a h₁ => f a h₁
      | .failed problem => .failed problem
      | .tooDeep => .tooDeep := rfl

/-- If two steps are done, so is the first, and the second one from where it ended. -/
theorem bind_done {x : Hoisting α} {f : α → Hoisting β} {h h' : Hoisted} {b : β}
    (hr : (x >>= f) h = .done b h') : ∃ a h₁, x h = .done a h₁ ∧ f a h₁ = .done b h' := by
  rw [bind_apply] at hr
  split at hr
  · rename_i a h₁ hx
    exact ⟨a, h₁, hx, hr⟩
  · cases hr
  · cases hr

theorem bind_pure_id (x : Hoisting α) : (x >>= pure) = x := by
  funext h
  rw [bind_apply]
  split
  · rename_i hx
    rw [hx]
    rfl
  · rename_i hx
    rw [hx]
  · rename_i hx
    rw [hx]

/-- Steps may be put together in either way. -/
theorem bind_bind (x : Hoisting α) (f : α → Hoisting β) (g : β → Hoisting γ) :
    (x >>= f >>= g) = x >>= fun a => f a >>= g := by
  funext h
  simp only [bind_apply]
  cases x h <;> rfl

instance : LawfulMonad Hoisting :=
  LawfulMonad.mk' Hoisting bind_pure_id (fun _ _ => rfl) bind_bind

end Hoisting

namespace Schema

open Hoisting

/-! ## Additions -/

/-- The nodes are all that is reached from one of them. -/
structure Closed (context : Context) (inside : Node → Prop) : Prop where
  /-- The values of keys are inside. -/
  field {node child : Node} {key : String} : inside node → node.field? key = some child →
    inside child
  /-- The values of all fields are inside. -/
  fields {node child : Node} {key : String} : inside node → (key, child) ∈ node.fields →
    inside child
  /-- The items are inside. -/
  items {node child : Node} : inside node → child ∈ node.items → inside child
  /-- The targets of references are inside. -/
  target {reference : String} {child : Node} : target context reference = .ok (.node child) →
    inside child

variable {context : Context} {inside : Node → Prop}

/-- The name that a schema at a place has. -/
def nameAt (hoisted : Hoisted) : Names := fun path => hoisted.names.lookup path

/-- The declaration of the titled schema at a node. -/
inductive DeclaredAt (context : Context) (names : Names) (node : Node) (name : String) :
    Declaration → Prop where
  | declared {depth : Nat} {type : TypeExpr} (hname : names node.path = some name)
      (ht : SchemaTyped context (Typed context names depth) node type) :
      DeclaredAt context names node name (.ofType name type (comment? node.value))

/-- What a declaration says of a node stays true as more names are given. -/
theorem DeclaredAt.mono {names names' : Names} (hn : NamesExtend names names') {node : Node}
    {name : String} {declaration : Declaration}
    (h : DeclaredAt context names node name declaration) :
    DeclaredAt context names' node name declaration := by
  obtain ⟨hname, ht⟩ := h
  exact .declared (hn _ _ hname) (ht.mono fun _ _ h => h.mono hn)

theorem NamesExtend.refl (names : Names) : NamesExtend names names := fun _ _ h => h

theorem NamesExtend.trans {names names' names'' : Names} (h : NamesExtend names names')
    (h' : NamesExtend names' names'') : NamesExtend names names'' :=
  fun path name hname => h' path name (h path name hname)

/-- The declarations are those of titled schemas inside. -/
def Originate (context : Context) (inside : Node → Prop) (names : Names)
    (declarations : Declarations) : Prop :=
  ∀ declaration ∈ declarations, ∃ node, inside node ∧
    DeclaredAt context names node declaration.name declaration

/-- The declaration of a named place is there. -/
def DeclaredIn (context : Context) (inside : Node → Prop) (names : Names)
    (declarations : Declarations) (path : List Step) (name : String) : Prop :=
  Names.IsTitleName name ∧ ∃ node, inside node ∧ node.path = path ∧
    ∃ declaration ∈ declarations, DeclaredAt context names node name declaration

/-- What a run adds: declarations of titled schemas under names that were free, one for each place
that got a name. -/
structure Adds (context : Context) (inside : Node → Prop) (new : Declarations) (h h' : Hoisted) :
    Prop where
  /-- Names that were given stay. -/
  names : NamesExtend (nameAt h) (nameAt h')
  /-- Names that were taken stay so. -/
  taken : h.taken ⊆ h'.taken
  /-- The new declarations come last. -/
  declarations : h'.declarations = h.declarations ++ new
  /-- Their names were free, -/
  free : ∀ declaration ∈ new, declaration.name ∉ h.taken
  /-- are taken now, -/
  used : ∀ declaration ∈ new, declaration.name ∈ h'.taken
  /-- and distinct. -/
  nodup : (new.map Declaration.name).Nodup
  /-- Each is that of a titled schema. -/
  originate : Originate context inside (nameAt h') new
  /-- Each place that got a name has one. -/
  declared : ∀ path name, nameAt h path = none → nameAt h' path = some name →
    DeclaredIn context inside (nameAt h') new path name

/-- Where declarations come from does not change as more names are given. -/
theorem Originate.mono {names names' : Names} (hn : NamesExtend names names')
    {declarations : Declarations} (h : Originate context inside names declarations) :
    Originate context inside names' declarations := by
  intro declaration hmem
  obtain ⟨node, hin, hd⟩ := h declaration hmem
  exact ⟨node, hin, hd.mono hn⟩

/-- A declaration is still found among more of them. -/
theorem DeclaredIn.mono {names names' : Names} (hn : NamesExtend names names')
    {new new' : Declarations} (hnew : new ⊆ new') {path : List Step} {name : String}
    (h : DeclaredIn context inside names new path name) :
    DeclaredIn context inside names' new' path name := by
  obtain ⟨htitle, node, hin, hpath, declaration, hmem, hd⟩ := h
  exact ⟨htitle, node, hin, hpath, declaration, hnew hmem, hd.mono hn⟩

theorem Adds.refl (h : Hoisted) : Adds context inside [] h h where
  names := NamesExtend.refl _
  taken := fun _ hmem => hmem
  declarations := (List.append_nil _).symm
  free := by simp
  used := by simp
  nodup := List.nodup_nil
  originate := by simp [Originate]
  declared := by
    intro path name hnone hsome
    rw [hnone] at hsome
    cases hsome

/-- What two runs add one after the other is added by both together. -/
theorem Adds.trans {new new' : Declarations} {h h₁ h' : Hoisted}
    (ha : Adds context inside new h h₁) (hb : Adds context inside new' h₁ h') :
    Adds context inside (new ++ new') h h' where
  names := ha.names.trans hb.names
  taken := fun _ hmem => hb.taken (ha.taken hmem)
  declarations := by rw [hb.declarations, ha.declarations, List.append_assoc]
  free := by
    intro declaration hmem
    rcases List.mem_append.1 hmem with hmem | hmem
    · exact ha.free declaration hmem
    · exact fun htaken => hb.free declaration hmem (ha.taken htaken)
  used := by
    intro declaration hmem
    rcases List.mem_append.1 hmem with hmem | hmem
    · exact hb.taken (ha.used declaration hmem)
    · exact hb.used declaration hmem
  nodup := by
    rw [List.map_append]
    refine ha.nodup.append hb.nodup fun name hmem hmem' => ?_
    obtain ⟨declaration, hd, rfl⟩ := List.mem_map.1 hmem
    obtain ⟨declaration', hd', heq⟩ := List.mem_map.1 hmem'
    exact hb.free declaration' hd' (heq ▸ ha.used declaration hd)
  originate := by
    intro declaration hmem
    rcases List.mem_append.1 hmem with hmem | hmem
    · exact ha.originate.mono hb.names declaration hmem
    · exact hb.originate declaration hmem
  declared := by
    intro path name hnone hsome
    cases hmid : nameAt h₁ path with
    | none =>
      exact (hb.declared path name hmid hsome).mono (NamesExtend.refl _)
        (List.subset_append_right _ _)
    | some name' =>
      have heq : name' = name := Option.some.inj ((hb.names path name' hmid).symm.trans hsome)
      subst heq
      exact (ha.declared path name' hnone hmid).mono hb.names (List.subset_append_left _ _)

/-! ## Computations that only add -/

/-- The property is not lost when names are added. -/
def Stable {α : Type} (P : Names → α → Prop) : Prop :=
  ∀ names names' a, NamesExtend names names' → P names a → P names' a

/-- The computation adds declarations of titled schemas, and its value has the property. -/
def Yields (context : Context) (inside : Node → Prop) {α : Type} (x : Hoisting α)
    (P : Names → α → Prop) : Prop :=
  ∀ h a h', x h = .done a h' → ∃ new, Adds context inside new h h' ∧ P (nameAt h') a

section Rules

variable {α β : Type} {P : Names → α → Prop} {Q : Names → β → Prop}

/-- Nothing is added to return a result. -/
theorem Yields.pure {a : α} (h : ∀ names, P names a) : Yields context inside (pure a) P := by
  rintro h₀ _ _ ⟨⟩
  exact ⟨[], Adds.refl h₀, h _⟩

theorem Yields.fail {problem : SchemaProblem} :
    Yields context inside (Hoisting.fail problem) P := by
  rintro _ _ _ ⟨⟩

/-- A yield may be weakened. -/
theorem Yields.imp {P' : Names → α → Prop} {x : Hoisting α} (hx : Yields context inside x P)
    (himp : ∀ names a, P names a → P' names a) : Yields context inside x P' := by
  intro h a h' hr
  obtain ⟨new, hadds, ha⟩ := hx h a h' hr
  exact ⟨new, hadds, himp _ _ ha⟩

/-- What follows may rely on the value. -/
theorem Yields.bind {x : Hoisting α} {f : α → Hoisting β} (hP : Stable P)
    (hx : Yields context inside x P)
    (hf : ∀ a, Yields context inside (f a) fun names b => P names a → Q names b) :
    Yields context inside (x >>= f) Q := by
  intro h b h' hr
  obtain ⟨a, h₁, hxa, hfb⟩ := bind_done hr
  obtain ⟨new, hadds, ha⟩ := hx h a h₁ hxa
  obtain ⟨new', hadds', hb⟩ := hf a h₁ b h' hfb
  exact ⟨new ++ new', hadds.trans hadds', hb (hP _ _ _ hadds'.names ha)⟩

theorem Yields.map {x : Hoisting α} {f : α → β} (hx : Yields context inside x P)
    (himp : ∀ names a, P names a → Q names (f a)) :
    Yields context inside (x >>= fun a => Pure.pure (f a)) Q := by
  intro h b h' hr
  obtain ⟨a, h₁, hxa, hfb⟩ := bind_done hr
  obtain ⟨new, hadds, ha⟩ := hx h a h₁ hxa
  cases hfb
  exact ⟨new, hadds, himp _ _ ha⟩

/-- If each input yields its result, then the list of inputs yields the list of results: what was
settled for one of them stays so while the others are worked out. -/
theorem Yields.mapM {ι : Type} {R : Names → ι → α → Prop} (hR : ∀ i, Stable fun names => R names i)
    {f : ι → Hoisting α} {inputs : List ι}
    (hf : ∀ i ∈ inputs, Yields context inside (f i) fun names => R names i) :
    Yields context inside (inputs.mapM f) fun names => List.Forall₂ (R names) inputs := by
  induction inputs with
  | nil => exact Yields.pure fun _ => .nil
  | cons i inputs ih =>
    obtain ⟨hi, hrest⟩ := List.forall_mem_cons.1 hf
    rw [List.mapM_cons]
    refine Yields.bind (hR i) hi fun a => ?_
    exact (ih hrest).map fun names as has ha => .cons ha has

end Rules

/-! ## Schemas -/

section Keywords

variable {typed : Names → Node → TypeExpr → Prop} {typeOf : Node → Hoisting TypeExpr}
  {follow : String → Hoisting TypeExpr} {node : Node}

theorem literalTyped_stable : ∀ value : Json, Stable fun _ => LiteralTyped value :=
  fun _ _ _ _ _ h => h

/-- A literal type says which value it is the type of. -/
theorem yields_literalType (value : Json) :
    Yields context inside (literalType value) fun _ => LiteralTyped value := by
  cases value with
  | string text => exact Yields.pure fun _ => .string text
  | number number => exact Yields.pure fun _ => .number number
  | bool value => exact Yields.pure fun _ => .bool value
  | null => exact Yields.pure fun _ => .null
  | _ => exact Yields.fail

variable (hc : Closed context inside)
  (hs : ∀ node, Stable fun names => typed names node)
  (ht : ∀ node, inside node → Yields context inside (typeOf node) fun names => typed names node)
  (hn : inside node)
include hc hs ht hn

/-- Each property has a member, and nothing else has. -/
theorem yields_propertyMembers :
    Yields context inside (propertyMembers typeOf node) fun names =>
      PropertiesTyped (typed names) node := by
  unfold propertyMembers
  split
  · rename_i hnone
    exact Yields.pure fun _ => .absent hnone
  · rename_i properties hproperties
    have hin := hc.field hn hproperties
    split
    · rename_i fields hv
      refine (Yields.mapM (fun field names names' member hext hp => ?_) fun field hfield => ?_).imp
        fun names members hm => .present hproperties hv hm
      · obtain ⟨type, htype, rfl⟩ := hp
        exact ⟨type, hs _ _ _ _ hext htype, rfl⟩
      · obtain ⟨key, property⟩ := field
        exact (ht property (hc.fields hin hfield)).map fun _ type h => ⟨type, h, rfl⟩
    · exact Yields.fail

omit hs in
/-- Whether there is a signature for all other keys is the matter of `additionalProperties`. -/
theorem yields_indexMembers :
    Yields context inside (indexMembers context typeOf node) fun names =>
      OthersTyped context (typed names) node := by
  unfold indexMembers
  split
  · rename_i hnone
    exact Yields.pure fun _ => .absent hnone
  · rename_i additional hadditional
    split
    · rename_i hv
      exact Yields.pure fun _ => .none hadditional hv
    · rename_i hv
      exact Yields.pure fun _ => .anything hadditional hv
    · rename_i fields hv
      exact (ht additional (hc.field hn hadditional)).map fun _ type h =>
        .some hadditional hv h
    · exact Yields.fail

theorem yields_typeOfObject :
    Yields context inside (typeOfObject context typeOf node) fun names =>
      ObjectTyped context (typed names) node := by
  have hstable : Stable fun names => PropertiesTyped (typed names) node :=
    fun _ _ _ hext h => h.mono fun _ _ h => hs _ _ _ _ hext h
  refine Yields.bind hstable (yields_propertyMembers hc hs ht hn) fun members => ?_
  exact (yields_indexMembers hc ht hn).map fun _ _ ho hm => .object hm ho

omit hs in
/-- The slots behind the items have the type that `additionalItems` gives them. -/
theorem yields_restType (bounds : ArrayType.Bounds) :
    Yields context inside (restType context typeOf node bounds) fun names =>
      RestTyped context (typed names) node bounds := by
  cases hadditional : node.field? "additionalItems" with
  | none =>
    simp only [restType, hadditional]
    exact Yields.pure fun _ => .absent hadditional
  | some additional =>
    cases hv : additional.value with
    | bool value =>
      cases value <;> simp only [restType, hadditional, hv]
      · exact Yields.pure fun _ => .none hadditional (by simp [hv]) (by simp [hv])
      · exact Yields.pure fun _ => .anything hadditional hv
    | object fields =>
      simp only [restType, hadditional, hv]
      exact (ht additional (hc.field hn hadditional)).map fun _ type h => .some hadditional hv h
    | _ =>
      simp only [restType, hadditional, hv]
      exact Yields.pure fun _ => .none hadditional (by simp [hv]) (by simp [hv])

omit hn in
theorem yields_items {parent : Node} (hp : inside parent) :
    Yields context inside (parent.items.mapM typeOf) fun names =>
      List.Forall₂ (typed names) parent.items :=
  Yields.mapM hs fun child hchild => ht child (hc.items hp hchild)

/-- An array type is put together as `ArrayTyped` says. -/
theorem yields_typeOfArray :
    Yields context inside (typeOfArray context typeOf node) fun names =>
      ArrayTyped context (typed names) node := by
  unfold typeOfArray
  dsimp only
  split
  · rename_i hnone
    exact Yields.pure fun _ => .absent hnone
  · rename_i items hitems
    have hin := hc.field hn hitems
    split
    · rename_i values hv
      have hstable : Stable fun names => List.Forall₂ (typed names) items.items :=
        fun _ _ _ hext h => h.imp fun _ _ h => hs _ _ _ _ hext h
      refine Yields.bind hstable (yields_items hc hs ht hin) fun types => ?_
      exact (yields_restType hc ht hn _).map fun _ rest hr hts => .list hitems hv hts hr
    · rename_i fields hv
      exact (ht items hin).map fun _ type h => .each hitems (by rw [hv]; simp) h
    · rename_i value hv
      exact (ht items hin).map fun _ type h => .each hitems (by rw [hv]; simp) h
    · exact Yields.fail

/-- A type that is called by name gives what `NameTyped` says of that name. -/
theorem yields_typeNamed (name : String) :
    Yields context inside (typeNamed context typeOf name node) fun names =>
      NameTyped context (typed names) node name := by
  unfold typeNamed
  split
  · exact Yields.pure fun _ => .string
  · exact Yields.pure fun _ => .number
  · exact Yields.pure fun _ => .integer
  · exact Yields.pure fun _ => .boolean
  · exact Yields.pure fun _ => .null
  · exact Yields.pure fun _ => .any
  · exact (yields_typeOfObject hc hs ht hn).imp fun _ _ => .object
  · exact (yields_typeOfArray hc hs ht hn).imp fun _ _ => .array
  · exact Yields.fail

/-- The branches of a keyword have their types one by one. -/
theorem yields_branchTypes {keyword : String} {branches : Node}
    (hb : node.field? keyword = some branches) :
    Yields context inside (branchTypes typeOf keyword branches) fun names =>
      BranchesTyped (typed names) node keyword := by
  unfold branchTypes
  split
  · rename_i values hv
    exact (yields_items hc hs ht (hc.field hn hb)).imp fun _ _ h => .branches hb hv h
  · exact Yields.fail

/-- A schema that none of the former keywords decides has a type by its kind. The order of the cases
is that of the program, and what was passed is put into the premises. -/
theorem yields_typeByKind :
    Yields context inside (typeByKind context typeOf node) fun names =>
      KindTyped context (typed names) node := by
  unfold typeByKind
  split
  · rename_i name hname
    exact (yields_typeNamed hc hs ht hn name).imp fun _ _ => .name hname
  · rename_i values hvalues
    refine Yields.map (Yields.mapM (R := fun names value type => ∃ name, value = .string name ∧
      NameTyped context (typed names) node name type) ?_ ?_) fun _ _ => .names hvalues
    · rintro value names names' type hext ⟨name, rfl, h⟩
      exact ⟨name, rfl, h.mono fun _ _ h => hs _ _ _ _ hext h⟩
    · rintro value -
      split
      · rename_i name
        exact (yields_typeNamed hc hs ht hn name).imp fun _ _ h => ⟨name, rfl, h⟩
      · exact Yields.fail
  · exact Yields.fail
  · rename_i hnone
    dsimp only
    split
    · rename_i hk
      exact (yields_typeOfObject hc hs ht hn).imp fun _ _ => .object hnone hk
    · rename_i hnk
      rw [Bool.not_eq_true] at hnk
      split
      · rename_i hk
        exact (yields_typeOfArray hc hs ht hn).imp fun _ _ => .array hnone hnk hk
      · rename_i hnk'
        rw [Bool.not_eq_true] at hnk'
        exact Yields.pure fun _ => .anything hnone hnk hnk'

variable (hf : ∀ reference, Yields context inside (follow reference) fun names =>
    Followed context (typed names) reference)
include hf

/-- The type of an object schema is that of the first keyword that it has. Each keyword that is not
there is one more that the schema is past. -/
theorem yields_typeByKeywords {fields : List (String × Json)} (hv : node.value = .object fields) :
    Yields context inside (typeByKeywords context typeOf follow node) fun names =>
      SchemaTyped context (typed names) node := by
  unfold typeByKeywords
  split
  · rename_i value hr
    split
    · rename_i reference
      exact (hf reference).imp fun _ _ => .reference hr
    · exact Yields.fail
  rename_i hr
  replace hr := Option.eq_none_iff_forall_ne_some.2 hr
  split
  · rename_i text htext
    exact Yields.pure fun _ => .written hr htext
  rename_i hw
  have hpast : IsPast node.value ["$ref"] :=
    ⟨Option.eq_none_iff_forall_ne_some.2 hw, by simpa using hr⟩
  split
  · rename_i value henum
    split
    · rename_i values
      exact Yields.map (Yields.mapM literalTyped_stable fun value _ => yields_literalType value)
        fun _ _ h => .enum hpast henum h
    · exact Yields.fail
  rename_i he
  replace hpast := hpast.snoc (Option.eq_none_iff_forall_ne_some.2 he)
  split
  · rename_i value hconst
    exact (yields_literalType value).imp fun _ _ => .const hpast hconst
  rename_i hconst
  replace hpast := hpast.snoc (Option.eq_none_iff_forall_ne_some.2 hconst)
  split
  · rename_i branches hb
    exact (yields_branchTypes hc hs ht hn hb).map fun _ _ => .anyOf hpast
  rename_i hany
  replace hpast := hpast.snoc_field (Option.eq_none_iff_forall_ne_some.2 hany)
  split
  · rename_i branches hb
    exact (yields_branchTypes hc hs ht hn hb).map fun _ _ => .oneOf hpast
  rename_i hone
  replace hpast := hpast.snoc_field (Option.eq_none_iff_forall_ne_some.2 hone)
  split
  · rename_i branches hb
    exact (yields_branchTypes hc hs ht hn hb).map fun _ _ => .allOf hpast
  rename_i hall
  replace hpast := hpast.snoc_field (Option.eq_none_iff_forall_ne_some.2 hall)
  exact (yields_typeByKind hc hs ht hn).imp fun _ _ => .kind hv hpast

/-- One schema, given what is inside it and what it refers to. -/
theorem yields_typeOfSchema :
    Yields context inside (typeOfSchema context typeOf follow node) fun names =>
      SchemaTyped context (typed names) node := by
  unfold typeOfSchema
  split
  · rename_i fields hv
    exact yields_typeByKeywords hc hs ht hn hf hv
  · rename_i hv
    exact Yields.pure fun _ => .anything hv
  · rename_i hv
    exact Yields.pure fun _ => .nothing hv
  · exact Yields.fail

end Keywords

/-! ## Schemas at their places -/

/-- A reference to the document yields its name, and one to another schema the type of that
schema. -/
theorem yields_referredType {depth : Nat} {typeAt : List String → Node → Hoisting TypeExpr}
    (hc : Closed context inside)
    (ht : ∀ active node, inside node → Yields context inside (typeAt active node) fun names =>
      Typed context names depth node) (active : List String) (reference : String) :
    Yields context inside (referredType context typeAt active reference) fun names =>
      Followed context (Typed context names depth) reference := by
  unfold referredType
  split
  · exact Yields.fail
  · rename_i htarget
    exact Yields.pure fun _ => .document htarget
  · rename_i node htarget
    have hin := hc.target htarget
    split
    · exact (ht active node hin).imp fun _ _ => .node htarget
    · split
      · exact Yields.fail
      · exact (ht _ node hin).imp fun _ _ => .node htarget

/-- A schema that has a type keeps it as more names are given. -/
theorem typed_stable (depth : Nat) (node : Node) :
    Stable fun names => Typed context names depth node :=
  fun _ _ _ hext h => h.mono hext

/-- The state after a place got a name. -/
def withName (h : Hoisted) (path : List Step) (name : String) : Hoisted :=
  { h with taken := name :: h.taken, names := (path, name) :: h.names }

theorem nameAt_withName (h : Hoisted) (path : List Step) (name : String) (place : List Step) :
    nameAt (withName h path name) place = if place = path then some name else nameAt h place := by
  by_cases heq : place = path
  · subst heq
    simp [nameAt, withName]
  · rw [if_neg heq]
    show List.lookup place ((path, name) :: h.names) = _
    rw [List.lookup_cons, beq_false_of_ne heq]
    rfl

/-- A name that is given is a new one, and the names given before stay. -/
theorem giveName_done {path : List Step} {title name : String} {h h₁ : Hoisted}
    (hr : giveName path title h = .done name h₁) :
    h₁ = withName h path name ∧ name ∉ h.taken ∧ Names.IsTitleName name := by
  cases hr
  exact ⟨rfl, (Names.unusedName_spec _ _).2,
    Names.isTitleName_unusedName (Names.isTitleName_titleIdentifier title) _⟩

/-- The state after a declaration was added. -/
def withDeclaration (h : Hoisted) (declaration : Declaration) : Hoisted :=
  { h with declarations := h.declarations ++ [declaration] }

/-- Naming a place, a run, and the declaration of the place make one run. -/
theorem Adds.declare {new : Declarations} {h h₁ : Hoisted} {node : Node} {name : String}
    {declaration : Declaration} (hn : inside node) (hnone : nameAt h node.path = none)
    (hfree : name ∉ h.taken) (htitle : Names.IsTitleName name)
    (ha : Adds context inside new (withName h node.path name) h₁)
    (hd : DeclaredAt context (nameAt h₁) node name declaration) :
    Adds context inside (new ++ [declaration]) h (withDeclaration h₁ declaration) := by
  have hname : declaration.name = name := by
    cases hd
    exact Declaration.name_ofType ..
  have htaken : name ∈ h₁.taken := ha.taken (List.mem_cons_self ..)
  have hmem : ∀ d, d ∈ new ++ [declaration] ↔ d ∈ new ∨ d = declaration := by simp
  refine
    { names := ?names, taken := fun _ hmem => ha.taken (List.mem_cons_of_mem _ hmem)
      declarations := ?declarations, free := ?free, used := ?used, nodup := ?nodup
      originate := ?originate, declared := ?named }
  case names =>
    intro path name' hsome
    refine ha.names path name' ?_
    rw [nameAt_withName, if_neg]
    · exact hsome
    · rintro rfl
      rw [hnone] at hsome
      cases hsome
  case declarations =>
    show h₁.declarations ++ [declaration] = _
    rw [ha.declarations, List.append_assoc]
    rfl
  case free =>
    intro d hd'
    rcases (hmem d).1 hd' with hd' | rfl
    · exact fun hused => ha.free d hd' (List.mem_cons_of_mem _ hused)
    · rwa [hname]
  case used =>
    intro d hd'
    rcases (hmem d).1 hd' with hd' | rfl
    · exact ha.used d hd'
    · rwa [hname]
  case nodup =>
    -- The name was taken before the run, so that no declaration of the run has it.
    rw [List.map_append]
    refine ha.nodup.append (List.nodup_singleton _) fun other hother hlast => ?_
    obtain ⟨d, hd', rfl⟩ := List.mem_map.1 hother
    refine ha.free d hd' ?_
    rw [List.mem_singleton.1 hlast, hname]
    exact List.mem_cons_self ..
  case originate =>
    intro d hd'
    rcases (hmem d).1 hd' with hd' | rfl
    · exact ha.originate d hd'
    · exact ⟨node, hn, by rwa [hname]⟩
  case named =>
    -- A place that got its name since is the place of the node itself, or one of the run.
    intro path name' hnone' hsome
    by_cases heq : path = node.path
    · have hgiven : nameAt h₁ path = some name :=
        ha.names path name (by rw [nameAt_withName, if_pos heq])
      have hsame : name = name' := Option.some.inj (hgiven.symm.trans hsome)
      subst hsame
      exact ⟨htitle, node, hn, heq.symm, declaration, (hmem _).2 (.inr rfl), hd⟩
    · refine (ha.declared path name' ?_ hsome).mono (NamesExtend.refl _)
        (List.subset_append_left _ _)
      rw [nameAt_withName, if_neg heq]
      exact hnone'

/-- A schema at its place: it has its name, or gets one and is declared, or has no title. -/
theorem yields_typeAt (hc : Closed context inside) (depth : Nat) (active : List String)
    (node : Node) (hn : inside node) :
    Yields context inside (typeAt context depth active node) fun names =>
      Typed context names depth node := by
  induction depth generalizing active node with
  | zero => rintro _ _ _ ⟨⟩
  | succ depth ih =>
    have hbody := yields_typeOfSchema hc (typed_stable depth) (ih active) hn
      (yields_referredType hc ih active)
    unfold typeAt
    dsimp only
    split
    · rename_i htitle
      exact hbody.imp fun _ _ => (typed_untitled htitle).2
    · rename_i title htitle
      -- The name is taken before the schema is converted, which may refer to itself by it.
      intro h type h' hr
      obtain ⟨known, h₀, hknown, hr⟩ := bind_done hr
      cases hknown
      cases hknown : h.names.lookup node.path with
      | some name =>
        simp only [hknown] at hr
        cases hr
        exact ⟨[], Adds.refl h, (typed_titled htitle).2 ⟨name, hknown, rfl⟩⟩
      | none =>
        simp only [hknown] at hr
        obtain ⟨name, h₁, hgive, hr⟩ := bind_done hr
        obtain ⟨rfl, hfree, hname⟩ := giveName_done hgive
        obtain ⟨inner, h₂, hinner, hr⟩ := bind_done hr
        cases hr
        obtain ⟨new, hadds, htyped⟩ := hbody _ _ _ hinner
        have hgiven : nameAt h₂ node.path = some name :=
          hadds.names node.path name (by rw [nameAt_withName, if_pos rfl])
        exact ⟨_, hadds.declare hn hknown hfree hname (.declared hgiven htyped),
          (typed_titled htitle).2 ⟨name, hgiven, rfl⟩⟩

/-! ## Documents -/

/-- What is declared for a document: its own type under its name, and titled schemas inside, one for
each place that has a name. -/
structure DeclaresDocument (context : Context) (inside : Node → Prop) (names : Names)
    (type : TypeExpr) (hoisted : Declarations) : Prop where
  /-- The type of the document. -/
  typed : ∃ depth, SchemaTyped context (Typed context names depth) (.root context.document) type
  /-- No name is declared twice. -/
  nodup : (context.name :: hoisted.map Declaration.name).Nodup
  /-- The other declarations are those of titled schemas. -/
  originate : Originate context inside names hoisted
  /-- Each place with a name is declared. -/
  declared : ∀ path name, names path = some name →
    DeclaredIn context inside names hoisted path name

/-- The declarations of a document are its own and those that were made on the way. -/
theorem declarations_ok {document : Json} {name : String} {style : Style}
    {declarations : Declarations}
    (h : Schema.declarations document name style = .ok declarations) :
    ∃ type last, typeOfDocument ⟨document, name, style⟩ (depthBound document) { taken := [name] } =
        .done type last ∧
      declarations = .ofType name type (comment? document) :: last.declarations := by
  unfold Schema.declarations at h
  split at h
  · rename_i type last hrun
    cases h
    exact ⟨type, last, hrun, rfl⟩
  · cases h
  · cases h

/-- A run that is done has worked out the type of the document and declared what it adds. -/
theorem declaresDocument_of_done (hc : Closed context inside)
    (hroot : inside (.root context.document))
    {depth : Nat} {type : TypeExpr} {last : Hoisted}
    (hrun : typeOfDocument context depth { taken := [context.name] } = .done type last) :
    DeclaresDocument context inside (nameAt last) type last.declarations := by
  obtain ⟨new, hadds, htyped⟩ := yields_typeOfSchema hc (typed_stable _)
    (yields_typeAt hc _ []) hroot (yields_referredType hc (yields_typeAt hc _) []) _ _ _ hrun
  have hnew : last.declarations = new := hadds.declarations
  rw [hnew]
  refine ⟨⟨_, htyped⟩, ?_, hadds.originate,
    fun path name hname => hadds.declared path name rfl hname⟩
  refine List.nodup_cons.2 ⟨fun hmem => ?_, hadds.nodup⟩
  obtain ⟨declaration, hd, heq⟩ := List.mem_map.1 hmem
  exact hadds.free declaration hd (by rw [heq]; exact List.mem_cons_self ..)

/-- What is declared for a document: its own type, and then the schemas with a title that were met
on the way. -/
theorem declarations_spec {document : Json} {name : String} {style : Style}
    {declarations : Declarations} (hc : Closed ⟨document, name, style⟩ inside)
    (hroot : inside (.root document))
    (h : Schema.declarations document name style = .ok declarations) :
    ∃ names type hoisted, DeclaresDocument ⟨document, name, style⟩ inside names type hoisted ∧
      declarations = .ofType name type (comment? document) :: hoisted := by
  obtain ⟨type, last, hrun, rfl⟩ := declarations_ok h
  exact ⟨_, type, _, declaresDocument_of_done hc hroot hrun, rfl⟩

end Schema

end LintTypes
