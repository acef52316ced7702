import LintTypes.Proofs.HoistedNodes
import LintTypes.Proofs.SchemaForms
import LintTypes.Proofs.TypeReading
import LintTypes.Types.Layout

/-!
# Types of schemas are normal

What is declared for a document needs no tidying: unions and intersections are as flat as they can
be, numbers are those that are read as such, names are identifiers and not the words for keyword
types, and nothing is passed on as text. The property is one of the parts of a type, so it is enough
that every way to put types together keeps it (`kept_normal`); that the types of schemas inside
schemas have it is the induction along a run that is done once for all properties (`WorkedOut.has`).
The name of the document may be any identifier that is no such word, and so may be one that no title
is turned into, or one that is read as something else where a type is due: `true` and `false` are
not ruled out.
-/

namespace LintTypes

open Source Source.Parser

/-! ## Normal types -/

/-- What is asked of a type in normal form, the types inside aside. -/
def TypeExpr.PartNormal : TypeExpr → Prop
  | .literal (.number text) => IsNumber text.toList
  | .reference name _ =>
    isIdentifier name = true ∧ ∀ word, reservedType? name ≠ some (.keyword word)
  | .object members => ∀ member ∈ members, ∀ param type, member.key = .index param type →
    ∀ style, (type.oneLine? style).isSome
  | .union members => 2 ≤ members.length ∧ ∀ type ∈ members, type.isUnion = false
  | .intersection members => 2 ≤ members.length ∧ ∀ type ∈ members, type.isIntersection = false
  | .verbatim _ => False
  | _ => True

/-- A type in normal form, at every depth. -/
def TypeExpr.Normal (type : TypeExpr) : Prop := ∀ part ∈ type.parts, part.PartNormal

/-- A declaration of a type in normal form that extends nothing. -/
def Declaration.Normal : Declaration → Prop
  | .typeAlias _ type _ => type.Normal
  | .interface _ parents members _ => parents = [] ∧ (TypeExpr.object members).Normal

theorem ne_keyword_of_reservedType? {name : String} (h : ∀ word : Keyword, name ≠ word.text)
    (word : Keyword) : reservedType? name ≠ some (.keyword word) := by
  intro hreserved
  unfold reservedType? at hreserved
  split at hreserved
  · cases hreserved
  split at hreserved
  · cases hreserved
  obtain ⟨word', hfound, -⟩ := Option.map_eq_some_iff.1 hreserved
  have htext : word'.text = name := by simpa using List.find?_some hfound
  exact h word' htext.symm

theorem TypeExpr.normal_named {name : String} (hname : isIdentifier name = true)
    (h : ∀ word, reservedType? name ≠ some (.keyword word)) : (TypeExpr.named name).Normal :=
  forall_parts_reference.2 ⟨⟨hname, h⟩, by simp⟩

theorem Declaration.normal_ofType {type : TypeExpr} (h : type.Normal) (name : String)
    (comment : Option String) : (Declaration.ofType name type comment).Normal := by
  unfold Declaration.ofType
  split
  · exact ⟨rfl, h⟩
  · exact h

end LintTypes

namespace LintTypes.Schema

open Source

/-! ## Making types -/

theorem normal_unionOf {types : List TypeExpr} (h : ∀ type ∈ types, type.Normal) :
    (TypeExpr.unionOf types).Normal :=
  forall_parts_unionOf True trivial
    (fun _ => and_congr_right' ⟨fun hne _ => hne, fun hne => hne trivial⟩) h

theorem normal_intersectionOf {types : List TypeExpr} (h : ∀ type ∈ types, type.Normal) :
    (TypeExpr.intersectionOf types).Normal :=
  forall_parts_intersectionOf True trivial
    (fun _ => and_congr_right' ⟨fun hne _ => hne, fun hne => hne trivial⟩) h

theorem kept_normal : Kept TypeExpr.Normal where
  keyword _ := forall_parts_keyword.2 trivial
  string _ := forall_parts_literal.2 trivial
  number number := forall_parts_literal.2 (isNumber_text number)
  bool _ := forall_parts_literal.2 trivial
  named h := by
    refine TypeExpr.normal_named h.isIdentifier fun word => ?_
    rw [reservedType?_eq_none h.not_reserved]
    exact nofun
  array h := forall_parts_array.2 ⟨trivial, h⟩
  tuple h := forall_parts_tuple.2 ⟨trivial, h⟩
  object := by
    intro members hkeys htypes
    have hindex : ∀ member ∈ members, ∀ param type, member.key = .index param type →
        type = .string := by
      intro member hmem param type hkey
      rcases hkeys member hmem with ⟨name, hnamed⟩ | hany
      · rw [hnamed] at hkey
        cases hkey
      · rw [hany] at hkey
        cases hkey
        rfl
    refine forall_parts_object.2
      ⟨fun member hmem param type hkey style => ?_, fun member hmem => ?_⟩
    · rw [hindex member hmem param type hkey]
      rfl
    · refine forall_parts_member.2 ⟨htypes member hmem, fun param type hkey => ?_⟩
      rw [hindex member hmem param type hkey]
      exact forall_parts_keyword.2 trivial
  unionOf := normal_unionOf
  intersectionOf := normal_intersectionOf

theorem forall_of_forall₂_left {α β : Type} {p : α → Prop} {R : α → β → Prop} {xs : List α}
    {ys : List β} (h : List.Forall₂ R xs ys) (hr : ∀ x y, R x y → p x) : ∀ x ∈ xs, p x := by
  intro x hx
  obtain ⟨y, -, hxy⟩ := (forall₂_exists h).1 x hx
  exact hr x y hxy

variable {good : TypeExpr → Prop}

/-- What each way to put types together keeps is a relation of one type that is respected. -/
theorem Kept.congruent (hk : Kept good) :
    Congruent (fun type _ => good type) fun _ _ => True where
  keyword word _ _ := hk.keyword word
  literal h := hk.literal h
  array h := hk.array h
  tuple h := by
    refine hk.tuple (forall_of_forall₂_left h fun slot slot' hpair => ?_)
    cases hpair with
    | required h => exact h
    | rest h => exact hk.array h
  object h := by
    refine hk.object (forall_of_forall₂_left h fun member member' hpair => ?_)
      (forall_of_forall₂_left h fun member member' hpair => ?_)
    · cases hpair with
      | property h hc => exact .inl ⟨_, rfl⟩
      | anyKey h => exact .inr rfl
    · cases hpair with
      | property h hc => exact h
      | anyKey h => exact h
  unionOf h := hk.unionOf (forall_of_forall₂_left h fun _ _ hgood => hgood)
  intersectionOf _ h := hk.intersectionOf (forall_of_forall₂_left h fun _ _ hgood => hgood)
  unknown := hk.keyword .unknown

/-! ## Declarations -/

section Declared

variable {document : Json} {name : String} {style : Style} {declarations : Declarations}
  (hd : document.Distinct) (hw : NoWrittenTypes ⟨document, name, style⟩)
  (hname : good (.named name)) (h : Schema.declarations document name style = .ok declarations)
include hd hw hname h

/-- Whatever is respected by all that is done to make types holds of the type of each declaration of
a document without written types, if it holds of names and of unconstrained values, and also of
`unknown` if some schema is the intersection of none. -/
theorem Respected.declared (hc : Respected (fun type _ => good type) fun _ _ => True)
    (hempty : ∀ node, Reaches ⟨document, name, style⟩ (.root document) node →
      EmptyIntersection node → good .unknown)
    (hunknown : good (Context.unknown ⟨document, name, style⟩))
    (hnamed : ∀ name, Names.IsTitleName name → good (.named name)) :
    ∀ declaration ∈ declarations, ∃ name type comment, good type ∧
      declaration = .ofType name type comment := by
  obtain ⟨type, last, hdone, rfl⟩ := declarations_ok h
  have hrun : DocumentRun ⟨document, name, style⟩ type last := ⟨⟨_, hdone⟩⟩
  have hdeclares := declaresDocument_of_done (closed_inDocument hd) (Node.root_inDocument document)
    hdone
  have hnames : ∀ path name, nameAt last path = some name → good (.named name) :=
    fun path name hgiven => hnamed name (hdeclares.declared path name hgiven).1
  have hgood : ∀ {node type}, WorkedOut ⟨document, name, style⟩ last node type →
      Reaches ⟨document, name, style⟩ (.root document) node → good type :=
    fun hworked hreach => hworked.has hc hempty hunknown hname hw hnames hreach
  intro declaration hmem
  rcases List.mem_cons.1 hmem with rfl | hmem
  · exact ⟨name, type, _, hgood hrun.workedOut .refl, rfl⟩
  · obtain ⟨node, type, hreach, hworked, heq⟩ := hrun.exists_workedOut hd hmem
    exact ⟨declaration.name, type, _, hgood hworked hreach, heq⟩

/-- Whatever each way to put types together keeps holds of the type of each declaration of a
document without written types, if it holds of the name of the document. -/
theorem Kept.declared (hk : Kept good) :
    ∀ declaration ∈ declarations, ∃ name type comment, good type ∧
      declaration = .ofType name type comment :=
  hk.congruent.toRespected.declared hd hw hname h (fun _ _ _ => hk.keyword .unknown)
    (hk.unknown _) fun _ hnamed => hk.named hnamed

end Declared

/-- All that is declared for a document without written types is in normal form, whichever
identifier that is no keyword the document is declared by. -/
theorem declarations_normal {document : Json} {name : String} {style : Style}
    (hd : document.Distinct) (hw : NoWrittenTypes ⟨document, name, style⟩)
    (hname : isIdentifier name = true) (hword : ∀ word : Keyword, name ≠ word.text)
    {declarations : Declarations}
    (h : Schema.declarations document name style = .ok declarations) :
    ∀ declaration ∈ declarations, declaration.Normal := by
  have hnamed : (TypeExpr.named name).Normal :=
    TypeExpr.normal_named hname (ne_keyword_of_reservedType? hword)
  intro declaration hmem
  obtain ⟨name, type, comment, hnormal, rfl⟩ := kept_normal.declared hd hw hnamed h declaration hmem
  exact Declaration.normal_ofType hnormal name comment

/-- A choice whose first member is a choice, then the document itself and a titled map. -/
def nestedChoices : Json :=
  .object
    [("anyOf", .array
      [.object [("anyOf", .array
          [.object [("type", .string "string")],
            .object [("enum", .array [.number (.integer ⟨-2, by decide, by decide⟩), .null])]])],
        .object [("$ref", .string "#")],
        .object
          [("title", .string "limits"), ("type", .string "object"),
            ("additionalProperties", .object [("type", .string "number")])]])]

/-- The choices become one union, also under a name that no title would give. -/
theorem declarations_normal_nestedChoices :
    nestedChoices.Distinct ∧ NoWrittenTypes ⟨nestedChoices, "setting", {}⟩ ∧
      isIdentifier "setting" = true ∧ (∀ word : Keyword, "setting" ≠ word.text) ∧
      ∃ limits, Schema.declarations nestedChoices "setting" {} =
          .ok [.typeAlias "setting" (.union [.string, .literal (.number "-2"), .null,
            .named "setting", .named "Limits"]) none, limits] ∧
        limits.Normal := by
  have hd : nestedChoices.Distinct := by simp [nestedChoices]
  have hw : NoWrittenTypes ⟨nestedChoices, "setting", {}⟩ :=
    noWrittenTypes_of_lacks hd (by simp [nestedChoices])
  have hname : isIdentifier "setting" = true := by decide
  have hword : ∀ word : Keyword, "setting" ≠ word.text := by
    intro word
    cases word <;> decide
  have hrun : Schema.declarations nestedChoices "setting" {} = .ok [_, _] := rfl
  have hnormal := declarations_normal hd hw hname hword hrun
  exact ⟨hd, hw, hname, hword, _, rfl, hnormal _ (by simp)⟩

end LintTypes.Schema
