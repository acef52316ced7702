import LintTypes.Proofs.Membership
import LintTypes.Proofs.RelatedTypes
import LintTypes.Proofs.SchemaForms

/-!
# Unfolding references

What a type says once the references in it are replaced by the types that they stand for.
`TypeExpr.unfolded` replaces them, and those in what they are replaced by, to a depth;
`TypeExpr.flat` drops comments and takes directly nested unions and intersections, and those of one
member, for what they say. A type unfolds to another one if from some depth on the two are the same
up to that, and no reference is left. All ways to put types of schemas together respect this, since
unions and intersections are spliced when they are put together and again when they are flattened.
-/

namespace LintTypes

/-! ## Types rebuilt -/

/-- What is put in the place of references, unions, intersections and comments. -/
structure Rebuilding where
  reference : String → List TypeExpr → TypeExpr := .reference
  union : List TypeExpr → TypeExpr := .union
  intersection : List TypeExpr → TypeExpr := .intersection
  comment : Option String → Option String := id

mutual

/-- The type with its parts put in place from the inside out. -/
def TypeExpr.rebuild (r : Rebuilding) : TypeExpr → TypeExpr
  | .keyword word => .keyword word
  | .literal value => .literal value
  | .reference name args => r.reference name (rebuildTypes r args)
  | .array element => .array (element.rebuild r)
  | .tuple slots => .tuple (rebuildSlots r slots)
  | .object members => .object (rebuildMembers r members)
  | .union members => r.union (rebuildTypes r members)
  | .intersection members => r.intersection (rebuildTypes r members)
  | .verbatim text => .verbatim text

/-- Several types rebuilt. -/
def rebuildTypes (r : Rebuilding) : List TypeExpr → List TypeExpr
  | [] => []
  | type :: types => type.rebuild r :: rebuildTypes r types

/-- A slot rebuilt. -/
def Slot.rebuild (r : Rebuilding) : Slot → Slot
  | ⟨type, isOptional, isRest⟩ => ⟨type.rebuild r, isOptional, isRest⟩

/-- Several slots rebuilt. -/
def rebuildSlots (r : Rebuilding) : List Slot → List Slot
  | [] => []
  | slot :: slots => slot.rebuild r :: rebuildSlots r slots

/-- The key of a member rebuilt. -/
def MemberKey.rebuild (r : Rebuilding) : MemberKey → MemberKey
  | .named name => .named name
  | .index param type => .index param (type.rebuild r)

/-- A member rebuilt. -/
def Member.rebuild (r : Rebuilding) : Member → Member
  | ⟨key, type, isOptional, isReadonly, comment⟩ =>
    ⟨key.rebuild r, type.rebuild r, isOptional, isReadonly, r.comment comment⟩

/-- Several members rebuilt. -/
def rebuildMembers (r : Rebuilding) : List Member → List Member
  | [] => []
  | member :: members => member.rebuild r :: rebuildMembers r members

end

@[simp]
theorem rebuildTypes_eq (r : Rebuilding) (types : List TypeExpr) :
    rebuildTypes r types = types.map (TypeExpr.rebuild r) := by
  induction types with
  | nil => rfl
  | cons type types ih => rw [rebuildTypes, ih, List.map_cons]

@[simp]
theorem rebuildSlots_eq (r : Rebuilding) (slots : List Slot) :
    rebuildSlots r slots = slots.map (Slot.rebuild r) := by
  induction slots with
  | nil => rfl
  | cons slot slots ih => rw [rebuildSlots, ih, List.map_cons]

@[simp]
theorem rebuildMembers_eq (r : Rebuilding) (members : List Member) :
    rebuildMembers r members = members.map (Member.rebuild r) := by
  induction members with
  | nil => rfl
  | cons member members ih => rw [rebuildMembers, ih, List.map_cons]

theorem Slot.rebuild_eq (r : Rebuilding) (slot : Slot) :
    slot.rebuild r = { slot with type := slot.type.rebuild r } := by
  obtain ⟨type, _, _⟩ := slot
  rfl

/-- If nothing is put in another place, nothing changes. -/
theorem TypeExpr.rebuild_self (type : TypeExpr) : type.rebuild {} = type := by
  induction type using TypeExpr.ind with
  | keyword _ | literal _ | verbatim _ => rfl
  | reference name args ih =>
    simp only [rebuild, rebuildTypes_eq]
    rw [List.map_congr_left ih, List.map_id']
  | array element ih =>
    simp only [rebuild]
    rw [ih]
  | tuple slots ih =>
    simp only [rebuild, rebuildSlots_eq]
    rw [List.map_congr_left (g := id), List.map_id]
    rintro ⟨type, _, _⟩ hslot
    rw [Slot.rebuild, ih _ hslot]
    rfl
  | object members ih =>
    simp only [rebuild, rebuildMembers_eq]
    rw [List.map_congr_left (g := id), List.map_id]
    intro member hmember
    obtain ⟨htype, hkey⟩ := ih member hmember
    obtain ⟨key, type, _, _, _⟩ := member
    have hkey : key.rebuild {} = key := by
      cases key with
      | named name => rfl
      | index param type => rw [MemberKey.rebuild, hkey param type rfl]
    rw [Member.rebuild, htype, hkey]
    rfl
  | union members ih | intersection members ih =>
    simp only [rebuild, rebuildTypes_eq]
    rw [List.map_congr_left ih, List.map_id']

namespace TypeExpr

/-- The type without comments, where unions directly inside unions are spliced in, a union of one
type is that type, and likewise intersections. -/
def flat : TypeExpr → TypeExpr :=
  rebuild { union := unionOf, intersection := intersectionOf, comment := fun _ => none }

/-- The type with the references to declarations replaced by their types, to a depth. -/
def unfolded (declarations : Declarations) : Nat → TypeExpr → TypeExpr
  | 0 => id
  | depth + 1 =>
    rebuild
      { reference := fun name args =>
          match declarations.find? name with
          | some declaration => declaration.type.unfolded declarations depth
          | none => .reference name args }

/-- Unfolding is a way of rebuilding a type that only exchanges references. -/
theorem unfolded_eq (declarations : Declarations) (depth : Nat) :
    ∃ reference, unfolded declarations depth = rebuild { reference := reference } := by
  cases depth with
  | zero => exact ⟨_, funext fun type => (rebuild_self type).symm⟩
  | succ depth => exact ⟨_, rfl⟩

/-! ## Splicing -/

/-- The list as one type: nothing, the only type, or all of them. -/
def combine (empty : TypeExpr) (wrap : List TypeExpr → TypeExpr) : List TypeExpr → TypeExpr
  | [] => empty
  | [type] => type
  | types => wrap types

/-- A union combines the members of its members. -/
theorem unionOf_eq (types : List TypeExpr) :
    unionOf types = combine never .union (types.flatMap unionMembers) := by
  unfold unionOf
  cases types.flatMap unionMembers with
  | nil => rfl
  | cons type types =>
    cases types with
    | nil => rfl
    | cons => rfl

theorem intersectionOf_eq (types : List TypeExpr) :
    intersectionOf types = combine unknown .intersection (types.flatMap intersectionMembers) := by
  unfold intersectionOf
  cases types.flatMap intersectionMembers with
  | nil => rfl
  | cons type types =>
    cases types with
    | nil => rfl
    | cons => rfl

/-- The types are wrapped by an operator, and `members` are those that a type is taken over. -/
structure IsOperator (members : TypeExpr → List TypeExpr) (empty : TypeExpr)
    (wrap : List TypeExpr → TypeExpr) : Prop where
  members_wrap (types : List TypeExpr) : members (wrap types) = types
  members_empty : members empty = [empty]
  cases (type : TypeExpr) : members type = [type] ∨ type = wrap (members type)

theorem isOperator_union : IsOperator unionMembers never .union where
  members_wrap _ := rfl
  members_empty := rfl
  cases type := by
    cases type with
    | union members => exact .inr rfl
    | _ => exact .inl rfl

theorem isOperator_intersection : IsOperator intersectionMembers unknown .intersection where
  members_wrap _ := rfl
  members_empty := rfl
  cases type := by
    cases type with
    | intersection members => exact .inr rfl
    | _ => exact .inl rfl

/-- The type is what its members combine to, and none of these is to be spliced. -/
structure SplicedBy (members : TypeExpr → List TypeExpr) (empty : TypeExpr)
    (wrap : List TypeExpr → TypeExpr) (type : TypeExpr) : Prop where
  filled : members type ≠ []
  atoms : ∀ member ∈ members type, members member = [member]
  whole : combine empty wrap (members type) = type

section Operators

variable {members : TypeExpr → List TypeExpr} {empty : TypeExpr}
  {wrap : List TypeExpr → TypeExpr} {f : TypeExpr → TypeExpr} {types : List TypeExpr}

theorem splicedBy_of_members {type : TypeExpr} (h : members type = [type]) :
    SplicedBy members empty wrap type := by
  refine ⟨by simp [h], fun member hmember => ?_, by rw [h]; rfl⟩
  rw [h] at hmember
  rwa [List.mem_singleton.1 hmember]

/-- The members of what was combined are those that were combined. -/
theorem members_combine (ho : IsOperator members empty wrap) (hne : types ≠ [])
    (ha : ∀ type ∈ types, members type = [type]) : members (combine empty wrap types) = types := by
  match types with
  | [] => exact absurd rfl hne
  | [type] => exact ha type (List.mem_singleton_self _)
  | _ :: _ :: _ => exact ho.members_wrap _

/-- What was combined from types that are not spliced in need not be spliced again. -/
theorem splicedBy_combine (ho : IsOperator members empty wrap)
    (ha : ∀ type ∈ types, members type = [type]) :
    SplicedBy members empty wrap (combine empty wrap types) := by
  by_cases hne : types = []
  · subst hne
    exact splicedBy_of_members ho.members_empty
  · have hmembers := members_combine ho hne ha
    exact ⟨by rwa [hmembers], by rwa [hmembers], by rw [hmembers]⟩

/-- A function that splices what it makes of wrapped types splices what it makes of combined ones.
The members of what it makes of a type are those of what it makes of the members. -/
theorem map_combine (ho : IsOperator members empty wrap) (hempty : f empty = empty)
    (hwrap : ∀ types, f (wrap types) = combine empty wrap ((types.map f).flatMap members))
    (hf : ∀ type, SplicedBy members empty wrap (f type))
    (ht : ∀ type ∈ types, SplicedBy members empty wrap type) :
    f (combine empty wrap (types.flatMap members)) =
      combine empty wrap ((types.map f).flatMap members) := by
  have hmembers : ∀ type, SplicedBy members empty wrap type →
      members (f type) = (members type).flatMap fun member => members (f member) := by
    intro type hs
    rcases ho.cases type with hone | hwrapped
    · rw [hone]
      simp
    · have hatoms : ∀ member ∈ ((members type).map f).flatMap members,
          members member = [member] := by
        intro member hmember
        obtain ⟨outer, houter, hinner⟩ := List.mem_flatMap.1 hmember
        obtain ⟨inner, -, rfl⟩ := List.mem_map.1 houter
        exact (hf inner).atoms member hinner
      have hne : ((members type).map f).flatMap members ≠ [] := by
        obtain ⟨member, hmember⟩ := List.exists_mem_of_ne_nil _ hs.filled
        obtain ⟨inner, hinner⟩ := List.exists_mem_of_ne_nil _ (hf member).filled
        exact List.ne_nil_of_mem
          (List.mem_flatMap.2 ⟨f member, List.mem_map_of_mem hmember, hinner⟩)
      calc members (f type)
          = members (f (wrap (members type))) := by rw [← hwrapped]
        _ = ((members type).map f).flatMap members := by
            rw [hwrap, members_combine ho hne hatoms]
        _ = _ := List.flatMap_map ..
  have hall : (types.map f).flatMap members =
      (types.flatMap members).flatMap fun member => members (f member) := by
    rw [List.flatMap_map, List.flatMap_assoc]
    exact List.flatMap_congr fun type htype => hmembers type (ht type htype)
  rw [hall]
  match types.flatMap members with
  | [] => exact hempty
  | [type] => simpa [combine] using (hf type).whole.symm
  | first :: second :: rest =>
    have hmany := hwrap (first :: second :: rest)
    rwa [List.flatMap_map] at hmany

/-- What combines to a single type is that type. -/
theorem combine_induction {P : TypeExpr → Prop} (hempty : P empty) (hwrap : ∀ types, P (wrap types))
    (ht : ∀ type ∈ types, SplicedBy members empty wrap type ∧ P type) :
    P (combine empty wrap (types.flatMap members)) := by
  match hmembers : types.flatMap members with
  | [] => exact hempty
  | _ :: _ :: _ => exact hwrap _
  | [member] =>
    have hmem : member ∈ types.flatMap members := by rw [hmembers]; exact List.mem_singleton_self _
    obtain ⟨type, htype, hin⟩ := List.mem_flatMap.1 hmem
    obtain ⟨hs, hp⟩ := ht type htype
    have hsingle : members type = [member] := by
      obtain ⟨before, after, rfl⟩ := List.append_of_mem htype
      have hlength := congrArg List.length hmembers
      have hpos := List.length_pos_of_mem hin
      rw [List.flatMap_append, List.flatMap_cons, List.length_append, List.length_append,
        List.length_singleton] at hlength
      obtain ⟨only, honly⟩ := List.length_eq_one_iff.1 (show (members type).length = 1 by omega)
      rw [honly] at hin ⊢
      rw [List.mem_singleton.1 hin]
    have hwhole := hs.whole
    rw [hsingle] at hwhole
    show P member
    rwa [show member = type from hwhole]

end Operators

/-- Nothing is to be spliced directly inside the type. -/
structure Spliced (type : TypeExpr) : Prop where
  union : SplicedBy unionMembers never .union type
  intersection : SplicedBy intersectionMembers unknown .intersection type

theorem Spliced.of_plain {type : TypeExpr} (h : type.hasOperator = false) : type.Spliced := by
  cases type <;>
    first
    | exact ⟨splicedBy_of_members rfl, splicedBy_of_members rfl⟩
    | cases h

/-- A union of spliced types is spliced, -/
theorem Spliced.unionOf {types : List TypeExpr} (h : ∀ type ∈ types, type.Spliced) :
    (TypeExpr.unionOf types).Spliced := by
  rw [unionOf_eq]
  refine ⟨splicedBy_combine isOperator_union fun member hmember => ?_, ?_⟩
  · obtain ⟨type, htype, hin⟩ := List.mem_flatMap.1 hmember
    exact (h type htype).union.atoms member hin
  · exact combine_induction (splicedBy_of_members rfl) (fun _ => splicedBy_of_members rfl)
      fun type htype => ⟨(h type htype).union, (h type htype).intersection⟩

/-- and so is an intersection of them. -/
theorem Spliced.intersectionOf {types : List TypeExpr} (h : ∀ type ∈ types, type.Spliced) :
    (TypeExpr.intersectionOf types).Spliced := by
  rw [intersectionOf_eq]
  refine ⟨?_, splicedBy_combine isOperator_intersection fun member hmember => ?_⟩
  · exact combine_induction (splicedBy_of_members rfl) (fun _ => splicedBy_of_members rfl)
      fun type htype => ⟨(h type htype).intersection, (h type htype).union⟩
  · obtain ⟨type, htype, hin⟩ := List.mem_flatMap.1 hmember
    exact (h type htype).intersection.atoms member hin

/-- A flat type is spliced at every depth. -/
theorem spliced_flat (type : TypeExpr) : type.flat.Spliced := by
  induction type using TypeExpr.ind with
  | union members ih =>
    simp only [flat, rebuild, rebuildTypes_eq]
    exact .unionOf (List.forall_mem_map.2 ih)
  | intersection members ih =>
    simp only [flat, rebuild, rebuildTypes_eq]
    exact .intersectionOf (List.forall_mem_map.2 ih)
  | _ => exact .of_plain rfl

/-! ## Functions that splice -/

/-- The function goes through a type from the inside out, drops comments, and splices. -/
structure Splices (f : TypeExpr → TypeExpr) : Prop where
  keyword (word : Keyword) : f (.keyword word) = .keyword word
  literal (value : Literal) : f (.literal value) = .literal value
  array (element : TypeExpr) : f (.array element) = .array (f element)
  tuple (slots : List Slot) :
    f (.tuple slots) = .tuple (slots.map fun slot => { slot with type := f slot.type })
  object : ∃ g : Member → Member, (∀ members, f (.object members) = .object (members.map g)) ∧
    (∀ name type isOptional comment, g (.property name type isOptional comment) =
      .property name (f type) isOptional none) ∧
    ∀ type, g (.anyKey type) = .anyKey (f type)
  union (members : List TypeExpr) : f (.union members) = unionOf (members.map f)
  intersection (members : List TypeExpr) :
    f (.intersection members) = intersectionOf (members.map f)
  spliced (type : TypeExpr) : (f type).Spliced

/-- What splices may be done before or after a union is taken, -/
theorem Splices.unionOf {f : TypeExpr → TypeExpr} (hf : Splices f) {types : List TypeExpr}
    (ht : ∀ type ∈ types, type.Spliced) :
    f (TypeExpr.unionOf types) = TypeExpr.unionOf (types.map f) := by
  rw [unionOf_eq, unionOf_eq]
  refine map_combine isOperator_union (hf.keyword .never) (fun types => ?_)
    (fun type => (hf.spliced type).union) fun type htype => (ht type htype).union
  rw [hf.union, unionOf_eq]

/-- and before or after an intersection. -/
theorem Splices.intersectionOf {f : TypeExpr → TypeExpr} (hf : Splices f) {types : List TypeExpr}
    (ht : ∀ type ∈ types, type.Spliced) :
    f (TypeExpr.intersectionOf types) = TypeExpr.intersectionOf (types.map f) := by
  rw [intersectionOf_eq, intersectionOf_eq]
  refine map_combine isOperator_intersection (hf.keyword .unknown) (fun types => ?_)
    (fun type => (hf.spliced type).intersection) fun type htype => (ht type htype).intersection
  rw [hf.intersection, intersectionOf_eq]

/-- Unfolding splices, if the outcome is made flat. -/
theorem splices_flat_unfolded (declarations : Declarations) (depth : Nat) :
    Splices fun type => (type.unfolded declarations depth).flat := by
  obtain ⟨reference, heq⟩ := unfolded_eq declarations depth
  rw [heq]
  refine ⟨fun _ => rfl, fun _ => rfl, fun _ => rfl, fun slots => ?_, ?_, fun members => ?_,
    fun members => ?_, fun type => spliced_flat _⟩
  · simp [flat, rebuild, Slot.rebuild_eq, Function.comp_def]
  · refine ⟨fun member => (member.rebuild { reference := reference }).rebuild _,
      fun members => ?_, fun _ _ _ _ => rfl, fun _ => rfl⟩
    simp [flat, rebuild, Function.comp_def]
  · simp [flat, rebuild, Function.comp_def]
  · simp [flat, rebuild, Function.comp_def]

/-- No reference is left in the type. -/
def NoReferences (type : TypeExpr) : Prop :=
  ∀ part ∈ type.parts, ∀ name args, part ≠ .reference name args

end TypeExpr

/-! ## What types unfold to -/

namespace Schema

open TypeExpr

/-- A property of references holds of all parts of an unfolded type if it does of all parts of those
that the type is put together of. -/
theorem congruent_parts {P : TypeExpr → Prop}
    (hP : ∀ type, (∀ name args, type ≠ .reference name args) → P type)
    (declarations : Declarations) (depth : Nat) :
    Congruent (fun type _ => ∀ part ∈ (type.unfolded declarations depth).parts, P part)
      fun _ _ => True := by
  obtain ⟨reference, heq⟩ := unfolded_eq declarations depth
  rw [heq]
  let kept (type : TypeExpr) : Prop := ∀ part ∈ (type.rebuild { reference := reference }).parts,
    P part
  have hleft : ∀ {types types' : List TypeExpr},
      List.Forall₂ (fun type _ => kept type) types types' → ∀ type ∈ types, kept type := by
    intro types types' h type htype
    obtain ⟨_, -, hkept⟩ := (forall₂_exists h).1 type htype
    exact hkept
  have harray : ∀ {type : TypeExpr}, (∀ part ∈ type.parts, P part) →
      ∀ part ∈ (TypeExpr.array type).parts, P part :=
    fun h => forall_parts_array.2 ⟨hP _ (by simp), h⟩
  have hkeyword : ∀ word, ∀ part ∈ (TypeExpr.keyword word).parts, P part := by
    intro word
    simpa [TypeExpr.parts] using hP (.keyword word) (by simp)
  refine ⟨⟨fun word _ _ => hkeyword word, fun {_ value} _ => ?_, harray, fun h => ?_, fun h => ?_,
    fun h => ?_, fun _ h => ?_⟩, hkeyword .unknown⟩
  · simpa [TypeExpr.rebuild, TypeExpr.parts] using hP (.literal value) (by simp)
  · simp only [rebuild, rebuildSlots_eq]
    refine forall_parts_tuple.2 ⟨hP _ (by simp), List.forall_mem_map.2 fun slot hslot => ?_⟩
    obtain ⟨_, -, hpair⟩ := (forall₂_exists h).1 slot hslot
    cases hpair with
    | required h => exact h
    | rest h => exact harray h
  · simp only [rebuild, rebuildMembers_eq]
    refine forall_parts_object.2 ⟨hP _ (by simp), List.forall_mem_map.2 fun member hmember => ?_⟩
    obtain ⟨_, -, hpair⟩ := (forall₂_exists h).1 member hmember
    cases hpair with
    | property h => exact h
    | anyKey h => exact List.forall_mem_cons.2 ⟨hP .string (by simp), h⟩
  · show kept (.unionOf _)
    refine unionOf_cases (Q := kept) (hkeyword .never) (fun _ h => h)
      (fun members _ hmembers => ?_) fun type htype => ?_
    · simp only [kept, rebuild, rebuildTypes_eq]
      exact forall_parts_union.2 ⟨hP _ (by simp), List.forall_mem_map.2 hmembers⟩
    · have hparts : kept type := hleft h type htype
      cases type with
      | union members =>
        simp only [kept, rebuild, rebuildTypes_eq] at hparts
        exact fun member hmember =>
          (forall_parts_union.1 hparts).2 _ (List.mem_map_of_mem hmember)
      | _ => exact List.forall_mem_singleton.2 hparts
  · show kept (.intersectionOf _)
    refine intersectionOf_cases (Q := kept) (hkeyword .unknown) (fun _ h => h)
      (fun members _ hmembers => ?_) fun type htype => ?_
    · simp only [kept, rebuild, rebuildTypes_eq]
      exact forall_parts_intersection.2 ⟨hP _ (by simp), List.forall_mem_map.2 hmembers⟩
    · have hparts : kept type := hleft h type htype
      cases type with
      | intersection members =>
        simp only [kept, rebuild, rebuildTypes_eq] at hparts
        exact fun member hmember =>
          (forall_parts_intersection.1 hparts).2 _ (List.mem_map_of_mem hmember)
      | _ => exact List.forall_mem_singleton.2 hparts

theorem spliced_of_forall₂ {types types' : List TypeExpr}
    (h : List.Forall₂ (fun type type' => type.Spliced ∧ type'.Spliced) types types') :
    (∀ type ∈ types, type.Spliced) ∧ ∀ type ∈ types', type.Spliced := by
  constructor
  · intro type htype
    obtain ⟨_, -, hs, -⟩ := (forall₂_exists h).1 type htype
    exact hs
  · intro type htype
    obtain ⟨_, -, -, hs⟩ := (forall₂_exists h).2 type htype
    exact hs

/-- Two functions that splice make the same of types that are put together in the same way. -/
theorem congruent_splices {f g : TypeExpr → TypeExpr} (hf : Splices f) (hg : Splices g) :
    Congruent (fun type type' => type.Spliced ∧ type'.Spliced ∧ f type = g type')
      fun _ _ => True where
  keyword word _ _ := ⟨.of_plain rfl, .of_plain rfl, by rw [hf.keyword, hg.keyword]⟩
  literal _ := ⟨.of_plain rfl, .of_plain rfl, by rw [hf.literal, hg.literal]⟩
  array h := ⟨.of_plain rfl, .of_plain rfl, by rw [hf.array, hg.array, h.2.2]⟩
  tuple h := by
    refine ⟨.of_plain rfl, .of_plain rfl, ?_⟩
    rw [hf.tuple, hg.tuple, map_eq_of_forall₂ h fun slot slot' hpair => ?_]
    cases hpair with
    | required h => simp only [Slot.required, h.2.2]
    | rest h => simp only [Slot.rest, hf.array, hg.array, h.2.2]
  object h := by
    refine ⟨.of_plain rfl, .of_plain rfl, ?_⟩
    obtain ⟨ofMember, hmembers, hproperty, hanyKey⟩ := hf.object
    obtain ⟨ofMember', hmembers', hproperty', hanyKey'⟩ := hg.object
    rw [hmembers, hmembers', map_eq_of_forall₂ h fun member member' hpair => ?_]
    cases hpair with
    | property h => rw [hproperty, hproperty', h.2.2]
    | anyKey h => rw [hanyKey, hanyKey', h.2.2]
  unionOf h := by
    obtain ⟨hspliced, hspliced'⟩ := spliced_of_forall₂ (h.imp fun _ _ h => ⟨h.1, h.2.1⟩)
    refine ⟨.unionOf hspliced, .unionOf hspliced', ?_⟩
    rw [hf.unionOf hspliced, hg.unionOf hspliced', map_eq_of_forall₂ h fun _ _ h => h.2.2]
  intersectionOf _ h := by
    obtain ⟨hspliced, hspliced'⟩ := spliced_of_forall₂ (h.imp fun _ _ h => ⟨h.1, h.2.1⟩)
    refine ⟨.intersectionOf hspliced, .intersectionOf hspliced', ?_⟩
    rw [hf.intersectionOf hspliced, hg.intersectionOf hspliced',
      map_eq_of_forall₂ h fun _ _ h => h.2.2]
  unknown := ⟨.of_plain rfl, .of_plain rfl, by rw [hf.keyword, hg.keyword]⟩

/-- From some depth on the first type, with its references replaced, says the same as the second
one, and no reference is left. -/
def UnfoldsTo (declarations : Declarations) (type type' : TypeExpr) : Prop :=
  ∃ depth, ∀ deeper ≥ depth, (type.unfolded declarations deeper).NoReferences ∧
    type.Spliced ∧ type'.Spliced ∧ (type.unfolded declarations deeper).flat = type'.flat

/-- To unfold to the same type is a congruence. -/
theorem congruent_unfoldsTo (declarations : Declarations) :
    Congruent (UnfoldsTo declarations) fun _ _ => True :=
  congruent_eventually fun depth =>
    (congruent_parts (fun _ h => h) declarations depth).and
      (congruent_splices (splices_flat_unfolded declarations depth) (splices_flat_unfolded [] 0))

/-- The name of a declaration unfolds to what its type unfolds to. -/
theorem unfoldsTo_named {declarations : Declarations} {name : String} {declaration : Declaration}
    {type' : TypeExpr} (hf : declarations.find? name = some declaration)
    (h : UnfoldsTo declarations declaration.type type') :
    UnfoldsTo declarations (.named name) type' := by
  obtain ⟨depth, h⟩ := h
  refine ⟨depth + 1, fun deeper hdeeper => ?_⟩
  obtain ⟨deeper, rfl⟩ : ∃ previous, deeper = previous + 1 :=
    Nat.exists_eq_succ_of_ne_zero (by omega)
  have hnamed : (named name).unfolded declarations (deeper + 1) =
      declaration.type.unfolded declarations deeper := by
    simp only [named, unfolded, rebuild, hf]
  obtain ⟨hplain, -, hspliced, hflat⟩ := h deeper (Nat.le_of_succ_le_succ hdeeper)
  rw [hnamed]
  exact ⟨hplain, .of_plain rfl, hspliced, hflat⟩

end Schema

end LintTypes
