import LintTypes.Proofs.Membership
import LintTypes.Proofs.ParsedForms
import LintTypes.Proofs.RuleText
import LintTypes.Types.Equality

/-!
# When the declarations of a rule cannot be judged

The first schema of a rule is judged by its own text, which has to be read for that. Every type of a
schema is spelled as it should be, also one that was read from a text. So the reading goes wrong
only for the sake of a text that was passed on as it is, or of a type that is laid out such that its
text does not say all of it.
-/

namespace LintTypes

open Source

/-! ## Recoverable declarations -/

/-- What is declared can be recovered from its text: no type in it is a text that is passed on, and
it is laid out faithfully. -/
def Declaration.Recoverable (style : Style) (declaration : Declaration) : Prop :=
  (∀ part ∈ declaration.type.parts, part.isVerbatim = false) ∧ declaration.Faithful style

theorem Declaration.sound_ofType {name : String} (hname : isIdentifier name = true)
    {type : TypeExpr} (h : type.Sound) (comment : Option String) :
    (Declaration.ofType name type comment).Sound := by
  unfold Declaration.ofType
  split
  · exact ⟨hname, List.forall_mem_nil _, TypeExpr.sound_object.1 h⟩
  · exact ⟨hname, h⟩

/-! ## Spelled schemas -/

namespace Schema

theorem spelled_unionOf {types : List TypeExpr} (h : ∀ type ∈ types, type.Spelled) :
    (TypeExpr.unionOf types).Spelled :=
  forall_parts_unionOf False trivial (fun _ => (and_iff_left nofun).symm) h

theorem spelled_intersectionOf {types : List TypeExpr} (h : ∀ type ∈ types, type.Spelled) :
    (TypeExpr.intersectionOf types).Spelled :=
  forall_parts_intersectionOf False trivial (fun _ => (and_iff_left nofun).symm) h

theorem kept_spelled : Kept TypeExpr.Spelled where
  keyword := TypeExpr.spelled_keyword
  string := TypeExpr.spelled_string
  number := fun number => TypeExpr.spelled_number (isNumber_text number)
  bool := TypeExpr.spelled_bool
  named := fun h =>
    TypeExpr.spelled_reference.2 ⟨⟨.identifier h.isIdentifier, h.not_reserved⟩, by simp⟩
  array := TypeExpr.spelled_array.2
  tuple := TypeExpr.spelled_tuple.2
  object := by
    intro members hkeys htypes
    refine TypeExpr.spelled_object.2 fun member hmember => ?_
    have htype := htypes member hmember
    obtain ⟨key, type, _, _, _⟩ := member
    rcases hkeys _ hmember with ⟨name, rfl⟩ | rfl
    · exact ⟨trivial, htype⟩
    · exact ⟨show isIdentifier "k" = true by decide, List.forall_mem_cons.2 ⟨trivial, htype⟩⟩
  unionOf := spelled_unionOf
  intersectionOf := spelled_intersectionOf

/-- A type that is written out as text is read, or passed on as a whole. -/
theorem spelled_writtenType (text : String) : (writtenType text).Spelled := by
  unfold writtenType
  split
  · rename_i hread
    exact (TypeExpr.readable_ofSource hread).spelled
  · simp [TypeExpr.Spelled, TypeExpr.parts, TypeExpr.PartSpelled]

/-- A declaration of a document is sound if no type in it is passed on as text. -/
theorem declarations_sound {document : Json} {name : String} {style : Style}
    (hname : Names.IsTitleName name) {declarations : Declarations}
    (hd : Schema.declarations document name style = .ok declarations) {declaration : Declaration}
    (hmem : declaration ∈ declarations)
    (hv : ∀ part ∈ declaration.type.parts, part.isVerbatim = false) : declaration.Sound := by
  obtain ⟨name, type, comment, hname, htype, rfl⟩ :=
    kept_spelled.declarations (closed_all ⟨document, name, style⟩) trivial
      (fun _ _ text _ => spelled_writtenType text) hname hd declaration hmem
  rw [Declaration.type_ofType] at hv
  have hsound : type.Sound := fun part hp => ⟨htype part hp, hv part hp⟩
  exact Declaration.sound_ofType hname.isIdentifier hsound comment

end Schema

/-! ## Errors of rules -/

namespace Rule

variable {style : Style} {rule : Rule} {name : String} {modules : List Declarations}

theorem firstShape_error {source : String} {error : Error}
    (h : firstShape source = .error error) : ∃ problem, error = .unparseableSource problem := by
  unfold firstShape at h
  split at h <;> cases h
  · exact ⟨_, rfl⟩
  · exact ⟨_, rfl⟩

theorem source_error {declarer : Declarer} {first : String} {others : List String}
    (hd : declareElements declarer style rule.schema.elements = .ok (first :: others))
    {error : Error} (hs : firstShape first = .error error) :
    rule.source declarer style name = .error error := by
  unfold source
  simp only [hd, hs, bind, Except.bind]

/-- Recoverable declarations of the schemas of a rule are sound. -/
theorem sound_of_recoverable (hm : rule.modules style = .ok modules) {module : Declarations}
    (hmodule : module ∈ modules) {declaration : Declaration} (hmem : declaration ∈ module)
    (hr : declaration.Recoverable style) : declaration.Sound := by
  obtain ⟨⟨element, index⟩, -, hdecl⟩ := (Schema.forall₂_exists (mapM_ok_iff.1 hm)).2 module hmodule
  exact Schema.declarations_sound (isTitleName_elementName index) hdecl hmem hr.1

/-- The text of recoverable declarations has a shape. -/
theorem firstShape_of_recoverable (hb : style.BannerIsComment)
    (hm : rule.modules style = .ok modules) {module : Declarations} (hmodule : module ∈ modules)
    (hr : ∀ declaration ∈ module, declaration.Recoverable style) :
    ∃ shape, firstShape (Declarations.render style module) = .ok shape := by
  have hread := Declarations.ofSource_faithful hb fun declaration hmem =>
    ⟨sound_of_recoverable hm hmodule hmem (hr declaration hmem), (hr declaration hmem).2⟩
  obtain ⟨⟨element, index⟩, -, hdecl⟩ := (Schema.forall₂_exists (mapM_ok_iff.1 hm)).2 module hmodule
  have hne : module ≠ [] := Schema.declarations_ne_nil hdecl
  obtain ⟨first, others, rfl⟩ := List.exists_cons_of_ne_nil hne
  exact ⟨_, by rw [firstShape, hread]; rfl⟩

/-- The only error of a rule whose schemas all have declarations is that the text of the first
schema is not readable. -/
theorem unparseable_of_source_error (hm : rule.modules style = .ok modules) {error : Error}
    (h : rule.source .standard style name = .error error) :
    ∃ module ∈ modules.head?, ∃ problem, error = .unparseableSource problem ∧
      firstShape (Declarations.render style module) = .error error := by
  have hd := declareElements_eq hm
  cases modules with
  | nil =>
    rw [source_nil name hd] at h
    cases h
  | cons module modules =>
    cases hs : firstShape (Declarations.render style module) with
    | ok shape =>
      rw [source_cons name hd hs] at h
      cases h
    | error error' =>
      rw [source_error hd hs] at h
      cases h
      exact ⟨module, rfl, (firstShape_error hs).imp fun _ hproblem => ⟨hproblem, hs⟩⟩

/-- A rule whose schemas all have declarations has a text if those of the first schema can be
recovered from theirs, whatever the others are. The only error there can be is that the text of the
first schema is not readable. -/
theorem source_of_modules (hb : style.BannerIsComment) (hm : rule.modules style = .ok modules) :
    ((∀ module ∈ modules.head?, ∀ declaration ∈ module, declaration.Recoverable style) →
      ∃ text, rule.source .standard style name = .ok text) ∧
      ∀ error, rule.source .standard style name = .error error →
        ∃ module ∈ modules.head?, ∃ problem, error = .unparseableSource problem ∧
          firstShape (Declarations.render style module) = .error error := by
  refine ⟨fun hr => ?_, fun _ => unparseable_of_source_error hm⟩
  cases hsource : rule.source .standard style name with
  | ok text => exact ⟨text, rfl⟩
  | error error =>
    obtain ⟨module, hmodule, -, -, hs⟩ := unparseable_of_source_error hm hsource
    obtain ⟨shape, hshape⟩ :=
      firstShape_of_recoverable hb hm (List.mem_of_mem_head? hmodule) (hr module hmodule)
    rw [hs] at hshape
    cases hshape

/-- The options of a callback, which is written as text that is no type here. -/
def callbackSchema : Json := .object [("tsType", .string "(a: string) => void")]

/-- A rule that begins with such a text cannot be judged, although its schema has a declaration. -/
theorem source_callback :
    (∃ modules, (Rule.mk (.single callbackSchema)).modules {} = .ok modules) ∧
      isIdentifier "Test" = true ∧ ({} : Style).bannerComment = "" ∧
      ∃ problem, (Rule.mk (.single callbackSchema)).source .standard {} "Test" =
        .error (.unparseableSource problem) := by
  have hmodules : (Rule.mk (.single callbackSchema)).modules {} =
      .ok [[.ofType "Schema0" (Schema.writtenType "(a: string) => void") none]] := rfl
  have hfails : ((Rule.mk (.single callbackSchema)).source .standard {} "Test").isOk = false := by
    decide +kernel
  refine ⟨⟨_, hmodules⟩, by decide, rfl, ?_⟩
  cases hsource : (Rule.mk (.single callbackSchema)).source .standard {} "Test" with
  | ok text =>
    rw [hsource] at hfails
    cases hfails
  | error error =>
    obtain ⟨-, -, problem, rfl, -⟩ := unparseable_of_source_error hmodules hsource
    exact ⟨problem, rfl⟩

/-- A union inside a union, which is written as text that is a type. -/
def nestedModesSchema : Json := .object [("tsType", .string "('a' | 'b') | 'c'")]

/-- Behind another schema the text of a callback does no harm. A union directly inside a union does
none either as long as it stays on its line. -/
theorem source_of_modules_callback :
    ∃ text, (Rule.mk (.sequence [nestedModesSchema, callbackSchema])).source .standard {} "Test" =
      .ok text := by
  have hwritten : Schema.writtenType "('a' | 'b') | 'c'" = .union
      [.union [.literal (.string "a"), .literal (.string "b")], .literal (.string "c")] := by
    decide +kernel
  have hmodules : (Rule.mk (.sequence [nestedModesSchema, callbackSchema])).modules {} = .ok
      [[.ofType "Schema0" (Schema.writtenType "('a' | 'b') | 'c'") none],
        [.ofType "Schema1" (Schema.writtenType "(a: string) => void") none]] := rfl
  rw [hwritten] at hmodules
  refine (source_of_modules (Style.bannerIsComment_of_empty rfl) hmodules).1 ?_
  rintro _ ⟨⟩ declaration hmem
  cases List.mem_singleton.1 hmem
  refine ⟨by decide, .bars rfl ?_ ?_⟩
  · refine List.forall_mem_cons.2 ⟨.bars rfl ?_ ?_, List.forall_mem_singleton.2 (.literal _)⟩
    · exact List.forall_mem_cons.2 ⟨.literal _, List.forall_mem_singleton.2 (.literal _)⟩
    · exact List.forall_mem_cons.2 ⟨id, List.forall_mem_singleton.2 id⟩
  · refine List.forall_mem_cons.2 ⟨?_, List.forall_mem_singleton.2 id⟩
    rintro ⟨-, hfit⟩
    exact absurd hfit (by decide +kernel)

end Rule

end LintTypes
