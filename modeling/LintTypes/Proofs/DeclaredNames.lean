import LintTypes.Proofs.RuleErrors

/-!
# The names in the text of a rule

Each schema of a rule is worked out on its own: its declarations have distinct names, the first of
them `Schema<i>`. Then the texts are put one behind the other, and the alias comes last. Nobody
looks at all the names together, so that a name can be declared twice: by titled schemas of two
schemas of the rule, by a titled schema of one and by another one as a whole, or by the rule itself.

`Rule.source_declares` says that these are the only ways.
-/

namespace LintTypes

open Source

@[simp] theorem Declaration.name_remains (splice : Bool) (declaration : Declaration) :
    (declaration.remains splice).name = declaration.name := by
  cases declaration <;> rfl

namespace Rule

variable {style : Style} {rule : Rule} {name : String} {modules : List Declarations}

/-! ## The names of one schema -/

/-- The names of the titled schemas of a module, which are declared behind the schema itself. -/
def titledNames (module : Declarations) : List String := module.tail.map Declaration.name

theorem elementName_injective : Function.Injective elementName := fun _ _ h =>
  Names.toString_injective (Names.append_right_injective "Schema" h)

/-- Each module declares its schema first, and no name twice. -/
theorem names_module (hm : rule.modules style = .ok modules) {index : Nat} {module : Declarations}
    (h : modules[index]? = some module) :
    module.map Declaration.name = elementName index :: titledNames module ∧
      (module.map Declaration.name).Nodup := by
  have hrun := mapM_ok_iff.1 hm
  obtain ⟨hindex, rfl⟩ := List.getElem?_eq_some_iff.1 h
  have helement := hrun.get (hrun.length_eq ▸ hindex) hindex
  simp only [List.get_eq_getElem, List.getElem_zipIdx, Nat.zero_add] at helement
  obtain ⟨_, type, hoisted, hdeclares, heq⟩ :=
    Schema.declarations_spec (Schema.closed_all _) trivial helement
  rw [heq]
  have hnodup := hdeclares.nodup
  simp only [titledNames, List.map_cons, Declaration.name_ofType, List.tail_cons]
  exact ⟨trivial, hnodup⟩

/-! ## The names of all schemas -/

/-- The names of the declarations in the text of a rule. -/
def declaredNames (modules : List Declarations) (name : String) : List String :=
  modules.flatten.map Declaration.name ++ [name]

/-- What has to hold beyond the single schemas for no name to be declared twice. -/
structure NamesApart (modules : List Declarations) (name : String) : Prop where
  /-- Different schemas have no name of a titled schema in common. -/
  titled : (modules.map titledNames).Pairwise List.Disjoint
  /-- No titled schema has the name of a schema as a whole. -/
  elements : ∀ module ∈ modules, ∀ index < modules.length, elementName index ∉ titledNames module
  /-- The rule has a name of its own. -/
  rule : name ∉ modules.flatten.map Declaration.name

/-- Two modules have no name in common if no titled schema has a name of the other one. -/
theorem disjoint_names (hm : rule.modules style = .ok modules) {i j : Nat} (hne : i ≠ j)
    {first second : Declarations} (hi : modules[i]? = some first) (hj : modules[j]? = some second) :
    List.Disjoint (first.map Declaration.name) (second.map Declaration.name) ↔
      List.Disjoint (titledNames first) (titledNames second) ∧
        elementName j ∉ titledNames first ∧ elementName i ∉ titledNames second := by
  have hnames : elementName i ≠ elementName j := fun h => hne (elementName_injective h)
  rw [(names_module hm hi).1, (names_module hm hj).1]
  simp only [List.disjoint_cons_left, List.disjoint_cons_right, List.mem_cons, not_or]
  constructor
  · rintro ⟨⟨-, hj⟩, hi, hdisjoint⟩
    exact ⟨hdisjoint, hj, hi⟩
  · rintro ⟨hdisjoint, hj, hi⟩
    exact ⟨⟨hnames.symm, hj⟩, hi, hdisjoint⟩

/-- No name is declared twice if and only if the modules and the rule are apart. -/
theorem nodup_declaredNames_iff (hm : rule.modules style = .ok modules) :
    (declaredNames modules name).Nodup ↔ NamesApart modules name := by
  have hflat : modules.flatten.map Declaration.name =
      (modules.map (List.map Declaration.name)).flatten := List.map_flatten
  have hmodules : ∀ names ∈ modules.map (List.map Declaration.name), names.Nodup := by
    intro names hnames
    obtain ⟨module, hmodule, rfl⟩ := List.mem_map.1 hnames
    obtain ⟨index, hindex⟩ := List.mem_iff_getElem?.1 hmodule
    exact (names_module hm hindex).2
  have hget : ∀ i (hi : i < modules.length), modules[i]? = some modules[i] :=
    fun i hi => List.getElem?_eq_getElem hi
  constructor
  · intro h
    obtain ⟨hnodup, -, hlast⟩ := List.nodup_append.1 h
    have hpairs := (List.nodup_flatten.1 (hflat ▸ hnodup)).2
    rw [List.pairwise_map, List.pairwise_iff_getElem] at hpairs
    refine ⟨?titled, ?elements, fun hmem => hlast name hmem name (List.mem_singleton_self _) rfl⟩
    case titled =>
      rw [List.pairwise_map, List.pairwise_iff_getElem]
      intro i j hi hj hlt
      exact ((disjoint_names hm hlt.ne (hget i hi) (hget j hj)).1 (hpairs i j hi hj hlt)).1
    case elements =>
      -- Within one module the names are distinct anyway; a pair of modules is in order of index.
      intro module hmodule index hindex
      obtain ⟨i, hi, rfl⟩ := List.getElem_of_mem hmodule
      rcases Nat.lt_trichotomy i index with hlt | rfl | hgt
      · exact ((disjoint_names hm hlt.ne (hget i hi) (hget index hindex)).1
          (hpairs i index hi hindex hlt)).2.1
      · obtain ⟨hnames, hnodup⟩ := names_module hm (hget i hi)
        rw [hnames] at hnodup
        exact (List.nodup_cons.1 hnodup).1
      · exact ((disjoint_names hm hgt.ne (hget index hindex) (hget i hi)).1
          (hpairs index i hindex hi hgt)).2.2
  · rintro ⟨htitled, helements, hrule⟩
    rw [List.pairwise_map, List.pairwise_iff_getElem] at htitled
    refine List.nodup_append.2 ⟨?_, List.nodup_singleton _, ?_⟩
    · rw [hflat]
      refine List.nodup_flatten.2 ⟨hmodules, ?_⟩
      rw [List.pairwise_map, List.pairwise_iff_getElem]
      intro i j hi hj hlt
      exact (disjoint_names hm hlt.ne (hget i hi) (hget j hj)).2 ⟨htitled i j hi hj hlt,
        helements _ (List.getElem_mem hi) j hj, helements _ (List.getElem_mem hj) i hi⟩
    · rintro _ hmem other hother rfl
      cases List.mem_singleton.1 hother
      exact hrule hmem

/-! ## The text -/

/-- Where the schemas of a rule have texts, they have declarations. -/
theorem modules_of_declareElements {texts : List String}
    (hd : declareElements .standard style rule.schema.elements = .ok texts) :
    ∃ modules, rule.modules style = .ok modules ∧
      texts = modules.map (Declarations.render style) := by
  have hrun := mapM_ok_iff.1 hd
  clear hd
  unfold modules
  generalize rule.schema.elements.zipIdx = elements at hrun
  induction hrun with
  | nil => exact ⟨[], rfl, rfl⟩
  | @cons element text elements texts htext _ ih =>
    obtain ⟨modules, hmodules, rfl⟩ := ih
    dsimp only [Declarer.standard] at htext
    split at htext
    · rename_i declarations hdeclarations
      cases htext
      exact ⟨declarations :: modules, mapM_ok_iff.2 (.cons hdeclarations (mapM_ok_iff.1 hmodules)),
        rfl⟩
    · cases htext

/-- The text of a rule is that of the declarations of its schemas, in front of the alias. -/
theorem text_of_source {text : String} (hs : rule.source .standard style name = .ok text) :
    ∃ modules, rule.modules style = .ok modules ∧ ∃ complete,
      text = String.join (modules.map (Declarations.render style)) ++
        ("export type " ++ name ++ " = " ++ joinedTypeText modules.length complete) := by
  cases hd : declareElements .standard style rule.schema.elements with
  | error error =>
    unfold source at hs
    rw [hd] at hs
    cases hs
  | ok texts =>
    obtain ⟨modules, hm, rfl⟩ := modules_of_declareElements hd
    refine ⟨modules, hm, ?_⟩
    cases modules with
    | nil =>
      rw [source_nil name hd] at hs
      cases hs
      refine ⟨false, ?_⟩
      have hempty : joinedTypeText 0 false = "[]" := by decide
      simp [hempty, String.append_assoc]
    | cons module modules =>
      cases hshape : firstShape (Declarations.render style module) with
      | error error =>
        rw [source_error hd hshape] at hs
        cases hs
      | ok shape =>
        rw [source_cons name hd hshape] at hs
        cases hs
        refine ⟨decide (shape = .unionOfTuples), ?_⟩
        simp only [List.map_cons, List.length_cons, List.length_map]

theorem printsAs_configuration (count : Nat) (complete : Bool) :
    ∃ type, PrintsAs BareForm type (joinedTypeText count complete) := by
  by_cases hone : count = 1 ∧ complete = true
  · rw [joinedTypeText, if_pos hone]
    exact ⟨_, printsAs_elementName 0⟩
  · rw [joinedTypeText, if_neg hone]
    exact ⟨_, printsAs_optionals (List.range count)⟩

/-- The text is read as declarations of the names. -/
theorem names_of_text (hb : style.BannerIsComment) (hname : isIdentifier name = true)
    (h : ∀ module ∈ modules, ∀ declaration ∈ module, declaration.Sound ∧ declaration.Faithful style)
    (complete : Bool) :
    ∃ declarations, Declarations.ofSource (String.join (modules.map (Declarations.render style)) ++
        ("export type " ++ name ++ " = " ++ joinedTypeText modules.length complete)) =
        .ok declarations ∧
      declarations.map Declaration.name = declaredNames modules name := by
  obtain ⟨type, htype⟩ := printsAs_configuration modules.length complete
  obtain ⟨tokens, hform, hprints⟩ := printsAs_modules hb h (printsAs_alias hname htype)
  refine ⟨_, Declarations.ofSource_spells hform hprints.spells, ?_⟩
  have hnames : (modules.flatten.map (Declaration.remains true)).map Declaration.name =
      modules.flatten.map Declaration.name := by
    simp only [List.map_map, Function.comp_def, Declaration.name_remains]
  rw [List.map_append, hnames]
  rfl

/-- What the text of a rule declares. It is the text of the declarations of the schemas and of the
alias behind them; so they are read from it, if they can be recovered. No name is declared twice if
and only if the schemas have no titled schema's name in common, none of them is that of a schema as
a whole, and the rule has a name of its own. -/
theorem source_declares {text : String} (hs : rule.source .standard style name = .ok text) :
    ∃ modules, rule.modules style = .ok modules ∧
      (∃ complete, text = String.join (modules.map (Declarations.render style)) ++
        ("export type " ++ name ++ " = " ++ joinedTypeText modules.length complete)) ∧
      (isIdentifier name = true → style.BannerIsComment →
        (∀ module ∈ modules, ∀ declaration ∈ module, declaration.Recoverable style) →
        ∃ declarations, Declarations.ofSource text = .ok declarations ∧
          declarations.map Declaration.name = declaredNames modules name) ∧
      ((declaredNames modules name).Nodup ↔ NamesApart modules name) := by
  obtain ⟨modules, hm, complete, rfl⟩ := text_of_source hs
  refine ⟨modules, hm, ⟨complete, rfl⟩, fun hname hb hr => ?_, nodup_declaredNames_iff hm⟩
  refine names_of_text hb hname (fun module hmodule declaration hmem => ?_) complete
  have hrecoverable := hr module hmodule declaration hmem
  exact ⟨sound_of_recoverable hm hmodule hmem hrecoverable, hrecoverable.2⟩

/-- The text of a rule without written types is read as declarations of these names. -/
theorem names_of_source (hb : style.BannerIsComment) (hname : isIdentifier name = true)
    (ht : ∀ element ∈ rule.schema.elements, element.Lacks "tsType")
    (hm : rule.modules style = .ok modules) :
    ∃ text declarations, rule.source .standard style name = .ok text ∧
      Declarations.ofSource text = .ok declarations ∧
      declarations.map Declaration.name = declaredNames modules name := by
  have hprintable := modules_printable ht hm
  obtain ⟨text, hs, -⟩ := printsAs_source hb hname hm hprintable
  obtain ⟨modules', hm', complete, rfl⟩ := text_of_source hs
  cases hm.symm.trans hm'
  obtain ⟨declarations, hread, hnames⟩ :=
    names_of_text hb hname
      (fun module hmodule d hd => ((hprintable module hmodule).2 d hd).sound_faithful) complete
  exact ⟨_, declarations, hs, hread, hnames⟩

/-- A rule with two options, each an array of one value under a title. -/
def titledRule (first second : String) : Rule where
  schema := .sequence
    [.object [("items", .object [("title", .string first), ("const", .string "fast")])],
      .object [("items", .object [("title", .string second), ("const", .string "safe")])]]

/-- Under different titles the values are declared apart. -/
theorem source_declares_titles :
    ∃ text, (titledRule "Mode" "Level").source .standard {} "Test" = .ok text ∧
      ∃ modules, (titledRule "Mode" "Level").modules {} = .ok modules ∧
        NamesApart modules "Test" := by
  have hmodules : (titledRule "Mode" "Level").modules {} = .ok
      [[.typeAlias "Schema0" (.array (.named "Mode")) none,
        .typeAlias "Mode" (.literal (.string "fast")) none],
      [.typeAlias "Schema1" (.array (.named "Level")) none,
        .typeAlias "Level" (.literal (.string "safe")) none]] := rfl
  obtain ⟨text, _, hs, -, -⟩ := names_of_source (Style.bannerIsComment_of_empty rfl)
    (by decide : isIdentifier "Test" = true) (by simp [titledRule, RuleSchema.elements]) hmodules
  obtain ⟨modules, hm, -, -, hnodup⟩ := source_declares hs
  rw [hmodules] at hm
  cases hm
  exact ⟨text, hs, _, hmodules, hnodup.1 (by decide)⟩

/-- Two options with the same title inside are declared under the same name. -/
theorem source_declares_twice :
    isIdentifier "Test" = true ∧
      ∃ text declarations, (titledRule "Mode" "Mode").source .standard {} "Test" = .ok text ∧
        Declarations.ofSource text = .ok declarations ∧
        ¬(declarations.map Declaration.name).Nodup := by
  have hmodules : (titledRule "Mode" "Mode").modules {} = .ok
      [[.typeAlias "Schema0" (.array (.named "Mode")) none,
        .typeAlias "Mode" (.literal (.string "fast")) none],
      [.typeAlias "Schema1" (.array (.named "Mode")) none,
        .typeAlias "Mode" (.literal (.string "safe")) none]] := rfl
  have hname : isIdentifier "Test" = true := by decide
  obtain ⟨text, declarations, hs, hread, hnames⟩ := names_of_source
    (Style.bannerIsComment_of_empty rfl) hname (by simp [titledRule, RuleSchema.elements]) hmodules
  refine ⟨hname, text, declarations, hs, hread, ?_⟩
  rw [hnames]
  decide

end Rule

end LintTypes
