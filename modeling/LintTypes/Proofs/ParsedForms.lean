import LintTypes.Proofs.LexicalReading
import LintTypes.Proofs.TypeParts
import LintTypes.Source.Grammar
import Mathlib.Data.List.TakeWhile

/-!
# Types that are read

The types that come out of a text are nearly those that can be written: names are names, numbers
are numbers, operators join at least two types, and there are no comments. What a text may still
hold is a union in parentheses directly inside a union, or an object type as the key of an index
signature.
-/

namespace LintTypes

open Source

/-! ## Readable types -/

/-- What the text of a type cannot give, the types inside aside: there are no comments on members,
and no type is a text itself. -/
def TypeExpr.PartBare : TypeExpr → Prop
  | .object members => ∀ member ∈ members, member.comment = none
  | .verbatim _ => False
  | _ => True

/-- A type as it may come out of a text, the types inside aside. -/
def TypeExpr.PartReadable (type : TypeExpr) : Prop := type.PartSpelled ∧ type.PartBare

/-- A type as it may come out of a text. -/
def TypeExpr.Readable (type : TypeExpr) : Prop := ∀ part ∈ type.parts, part.PartReadable

/-- A member as it may come out of a text. -/
def Member.Readable (member : Member) : Prop :=
  (member.key.Spelled ∧ member.comment = none) ∧ ∀ part ∈ member.parts, part.PartReadable

/-- The type of a member that was read was read itself. -/
theorem Member.Readable.type {member : Member} (h : member.Readable) : member.type.Readable :=
  (forall_parts_member.1 h.2).1

theorem Member.Readable.index {member : Member} {param : String} {type : TypeExpr}
    (h : member.Readable) (hk : member.key = .index param type) : type.Readable :=
  (forall_parts_member.1 h.2).2 param type hk

/-- A declaration as it may come out of a text. -/
def Declaration.Readable : Declaration → Prop
  | .typeAlias name type comment =>
    isIdentifier name = true ∧ type.Readable ∧ comment = none
  | .interface name parents members comment =>
    isIdentifier name = true ∧ (∀ type ∈ parents, type.Readable) ∧
      (∀ member ∈ members, member.Readable) ∧ comment = none

theorem TypeExpr.Readable.spelled {type : TypeExpr} (h : type.Readable) : type.Spelled :=
  fun part hp => (h part hp).1

theorem TypeExpr.PartReadable.sound {type : TypeExpr} (h : type.PartReadable) :
    type.PartSpelled ∧ type.isVerbatim = false := by
  refine ⟨h.1, ?_⟩
  cases type with
  | verbatim text => exact h.2.elim
  | _ => rfl

/-- A type that was read is spelled as it should be, and no part of it is passed on as text. -/
theorem TypeExpr.Readable.sound {type : TypeExpr} (h : type.Readable) : type.Sound :=
  fun part hp => (h part hp).sound

/-- An object type was read if its members were. -/
theorem TypeExpr.readable_object {members : List Member} :
    (object members).Readable ↔ ∀ member ∈ members, member.Readable :=
  forall_parts_object.trans
    ⟨fun h member hm => ⟨⟨h.1.1 member hm, h.1.2 member hm⟩, h.2 member hm⟩,
      fun h => ⟨⟨fun member hm => (h member hm).1.1, fun member hm => (h member hm).1.2⟩,
        fun member hm => (h member hm).2⟩⟩

/-! ## Values of parsers -/

namespace Source.Parser

/-- Every value that the parser reads has the property. -/
def Gives {α : Type} (p : Parser α) (P : α → Prop) : Prop :=
  ∀ bound text value rest, p bound text = .done value rest → P value

section Rules

variable {α β : Type} {p : Parser α} {f : α → Parser β} {P : α → Prop} {Q : β → Prop}

theorem gives_true (p : Parser α) : Gives p fun _ => True := fun _ _ _ _ _ => trivial

/-- What is returned without reading has the property if it is there at once. -/
theorem Gives.pure {value : α} (h : P value) : Gives (Pure.pure value) P := by
  rintro _ _ _ _ ⟨⟩
  exact h

/-- What a second parser gives may depend on what the first one gave. -/
theorem Gives.bind (hp : Gives p P) (hf : ∀ value, P value → Gives (f value) Q) :
    Gives (p >>= f) Q := by
  intro bound text value rest hr
  replace hr : Parser.bind p f bound text = .done value rest := hr
  unfold Parser.bind at hr
  split at hr
  · rename_i hdone
    exact hf _ (hp _ _ _ _ hdone) _ _ _ _ hr
  · cases hr
  · cases hr

/-- Nothing has to be known of the first value. -/
theorem Gives.andThen (hf : ∀ value, Gives (f value) Q) : Gives (p >>= f) Q :=
  (gives_true p).bind fun value _ => hf value

theorem Gives.commit (h : Gives p P) : Gives (commit p) P := by
  intro bound text value rest hr
  unfold Parser.commit at hr
  split at hr
  · cases hr
  · exact h _ _ _ _ hr

theorem Gives.within {construct : String} (h : Gives p P) : Gives (within construct p) P := by
  intro bound text value rest hr
  unfold Parser.within at hr
  split at hr
  · rename_i hdone
    cases hr
    exact h _ _ _ _ hdone
  · cases hr
  · cases hr

theorem Gives.lexeme (h : Gives p P) : Gives (lexeme p) P :=
  fun bound text => h bound (skipBlanks text)

/-- If nothing is found there is nothing to say. -/
theorem Gives.optional (h : Gives p P) :
    Gives (optional p) fun found => ∀ value ∈ found, P value := by
  intro bound text found rest hr
  unfold Parser.optional at hr
  split at hr
  · rename_i hdone
    cases hr
    rintro value ⟨⟩
    exact h _ _ _ _ hdone
  · cases hr
    simp
  · cases hr

/-- Whichever of several parsers succeeds, its value has the property that all of them give. -/
theorem Gives.firstOf {last : Parser α} {ps : List (Parser α)}
    (h : ∀ p ∈ last :: ps, Gives p P) : Gives (firstOf last ps) P := by
  induction ps with
  | nil =>
    intro bound text value rest hr
    unfold Parser.firstOf at hr
    split at hr
    · cases hr
    · exact h last (List.mem_cons_self ..) _ _ _ _ hr
  | cons p ps ih =>
    intro bound text value rest hr
    unfold Parser.firstOf at hr
    split at hr
    · refine ih (fun q hq => h q ?_) _ _ _ _ hr
      rcases List.mem_cons.1 hq with rfl | hq
      · exact List.mem_cons_self ..
      · exact List.mem_cons_of_mem _ (List.mem_cons_of_mem _ hq)
    · exact h p (List.mem_cons_of_mem _ (List.mem_cons_self ..)) _ _ _ _ hr

/-- Of values that are read one after the other all have the property. The induction is on the
number that is allowed. -/
theorem Gives.upTo (h : Gives p P) (count : Nat) :
    Gives (upTo count p) fun values => ∀ value ∈ values, P value := by
  induction count with
  | zero =>
    rintro _ _ _ _ ⟨⟩
    simp
  | succ count ih =>
    intro bound text values rest hr
    unfold Parser.upTo at hr
    split at hr
    · cases hr
      simp
    · cases hr
    · rename_i hdone
      split at hr
      · rename_i hmore
        cases hr
        exact List.forall_mem_cons.2 ⟨h _ _ _ _ hdone, ih _ _ _ _ hmore⟩
      · cases hr
      · cases hr

theorem Gives.many (h : Gives p P) : Gives (many p) fun values => ∀ value ∈ values, P value :=
  fun bound text values rest hr => h.upTo bound bound text values rest hr

/-- There is a value at least, and all have the property. -/
theorem Gives.sepBy1 {separator : Parser β} (h : Gives p P) :
    Gives (sepBy1 p separator) fun values => values ≠ [] ∧ ∀ value ∈ values, P value :=
  h.bind fun _ hfirst => (Gives.andThen fun _ => h).many.bind fun _ hothers =>
    .pure ⟨by simp, List.forall_mem_cons.2 ⟨hfirst, hothers⟩⟩

theorem Gives.sepBy {separator : Parser β} (h : Gives p P) :
    Gives (sepBy p separator) fun values => ∀ value ∈ values, P value := by
  refine h.sepBy1.optional.bind fun found hfound => .pure ?_
  cases found with
  | none => simp
  | some values => exact (hfound values rfl).2

/-- What is read as a whole is read by the parser. -/
theorem Gives.readAll (h : Gives p P) {source : String}
    {value : α} (hr : readAll p source = .ok value) : P value := by
  unfold Parser.readAll at hr
  split at hr
  · rename_i hdone
    cases hr
    exact h _ _ _ _ hdone
  · cases hr
  · cases hr

end Rules

/-! ## Tokens -/

/-- Characters of a name make a name. -/
theorem gives_nameChars : Gives nameChars fun name => isIdentifierChars name = true := by
  intro bound text name rest hr
  unfold nameChars at hr
  split at hr
  · split at hr
    · rename_i hstart
      cases hr
      exact isIdentifierChars_iff.2 ⟨_, _, rfl, hstart, fun d hd => List.mem_takeWhile_imp hd⟩
    · cases hr
  · cases hr

theorem gives_identifier : Gives identifier fun name => isIdentifier name = true := by
  refine Gives.lexeme (gives_nameChars.bind fun name hname => .pure ?_)
  rwa [isIdentifier, String.toList_ofList]

/-- Identifiers with dots in between are a dotted name. -/
theorem dottedName_intercalate {parts : List (List Char)} (hne : parts ≠ [])
    (h : ∀ part ∈ parts, isIdentifierChars part = true) :
    DottedName (['.'].intercalate parts) := by
  induction parts with
  | nil => exact absurd rfl hne
  | cons part parts ih =>
    obtain ⟨hpart, hparts⟩ := List.forall_mem_cons.1 h
    cases parts with
    | nil => simpa using DottedName.identifier hpart
    | cons next parts =>
      have hrest := DottedName.dotted hpart (ih (by simp) hparts)
      simpa [List.intercalate, List.intersperse] using hrest

/-- A dotted name is made of identifiers. -/
theorem gives_dottedName : Gives dottedName fun name => DottedName name.toList := by
  refine Gives.lexeme (gives_nameChars.sepBy1.bind fun parts hparts => .pure ?_)
  rw [String.toList_ofList]
  exact dottedName_intercalate hparts.1 hparts.2

/-- A fraction is nothing, or a point and digits. -/
theorem splitFraction_spec (text : List Char) :
    ∃ digits, (∀ c ∈ digits, c.isDigit = true) ∧
      (splitFraction text).1 = if digits = [] then [] else '.' :: digits := by
  unfold splitFraction
  split
  · split
    · exact ⟨[], by simp, rfl⟩
    · rename_i digits after hne hsplit
      exact ⟨digits, (splitDigits_spec hsplit).1, by rw [if_neg hne]⟩
  · exact ⟨[], by simp, rfl⟩

/-- An exponent is nothing, or a mark, possibly a sign, and digits. -/
theorem splitExponent_fst (text : List Char) :
    ∃ exponent : Option ExponentParts, (∀ e ∈ exponent, e.WellFormed) ∧
      (splitExponent text).1 = (exponent.map ExponentParts.text).getD [] := by
  rcases splitExponent_spec text with hnone | ⟨e, rest, hwf, -, hsplit⟩
  · exact ⟨none, by simp, by rw [hnone]; rfl⟩
  · exact ⟨some e, by simpa using hwf, by rw [hsplit]; rfl⟩

/-- A number is put together of its sign, its digits, a fraction and an exponent, in this order. -/
theorem isNumber_append {sign digits fraction : List Char} {exponent : Option ExponentParts}
    (hs : sign = [] ∨ sign = ['-']) (hne : digits ≠ []) (hd : ∀ c ∈ digits, c.isDigit = true)
    (hf : ∀ c ∈ fraction, c.isDigit = true) (he : ∀ e ∈ exponent, e.WellFormed) :
    IsNumber (sign ++ digits ++ (if fraction = [] then [] else '.' :: fraction) ++
      (exponent.map ExponentParts.text).getD []) := by
  rcases hs with rfl | rfl
  · exact ⟨⟨false, digits, fraction, exponent⟩, ⟨hne, hd, hf, he⟩, rfl⟩
  · exact ⟨⟨true, digits, fraction, exponent⟩, ⟨hne, hd, hf, he⟩, rfl⟩

/-- The text of a number is kept as it was, and is one by the grammar. -/
theorem gives_numberLiteral : Gives numberLiteral fun text => IsNumber text.toList := by
  refine Gives.lexeme ?_
  intro bound text value rest hr
  dsimp only at hr
  split at hr
  · cases hr
  · rename_i digits after hne hsplit
    cases hr
    obtain ⟨fraction, hfraction, hpoint⟩ := splitFraction_spec after
    obtain ⟨exponent, hexponent, hmark⟩ := splitExponent_fst (splitFraction after).2
    rw [String.toList_ofList, hpoint, hmark]
    refine isNumber_append ?_ hne (splitDigits_spec hsplit).1 hfraction hexponent
    split <;> simp

end Source.Parser

/-! ## Spelled parts -/

namespace TypeExpr

/-- A reference is spelled rightly if its name is dotted and not reserved, and its arguments are. -/
theorem spelled_reference {name : String} {args : List TypeExpr} :
    (reference name args).Spelled ↔
      (DottedName name.toList ∧ name ∉ reservedNames) ∧ ∀ type ∈ args, type.Spelled :=
  forall_parts_reference

theorem spelled_array {element : TypeExpr} : (array element).Spelled ↔ element.Spelled :=
  forall_parts_array.trans (iff_of_eq (true_and _))

theorem spelled_tuple {slots : List Slot} :
    (tuple slots).Spelled ↔ ∀ slot ∈ slots, slot.type.Spelled :=
  forall_parts_tuple.trans (iff_of_eq (true_and _))

theorem spelled_object {members : List Member} :
    (object members).Spelled ↔ ∀ member ∈ members, member.Spelled :=
  forall_parts_object.trans
    ⟨fun h member hm => ⟨h.1 member hm, h.2 member hm⟩,
      fun h => ⟨fun member hm => (h member hm).1, fun member hm => (h member hm).2⟩⟩

theorem spelled_keyword (word : Keyword) : (keyword word).Spelled := by
  simp [Spelled, parts, PartSpelled]

theorem spelled_string (text : String) : (literal (.string text)).Spelled := by
  simp [Spelled, parts, PartSpelled]

theorem spelled_bool (value : Bool) : (literal (.bool value)).Spelled := by
  simp [Spelled, parts, PartSpelled]

theorem spelled_number {text : String} (h : IsNumber text.toList) :
    (literal (.number text)).Spelled := by
  simpa [Spelled, parts, PartSpelled] using h

end TypeExpr

/-! ## Types -/

namespace Source.Parser

/-- A word that stands for no keyword type and no truth value is not reserved. -/
theorem not_reserved_of_reservedType? {name : String} (h : reservedType? name = none) :
    name ∉ reservedNames := by
  intro hmem
  have hsome : ∀ name ∈ reservedNames, (reservedType? name).isSome = true := by decide
  have := hsome name hmem
  rw [h] at this
  cases this

section Nested

variable {nested : Parser TypeExpr} (hn : Gives nested TypeExpr.Readable)
include hn

theorem gives_typeArguments :
    Gives (typeArguments nested) fun args => ∀ type ∈ args, type.Readable :=
  Gives.andThen fun _ => hn.sepBy1.commit.bind fun _ hargs => Gives.andThen fun _ => .pure hargs.2

/-- A name that is read as a reference is none of the reserved words, since these are tried
first. -/
theorem gives_wordOrReference : Gives (wordOrReference nested) TypeExpr.Readable := by
  refine gives_dottedName.bind fun name hname => ?_
  split
  · rename_i type htype
    refine .pure ?_
    unfold reservedType? at htype
    split at htype
    · cases htype
      exact forall_parts_literal.2 ⟨trivial, trivial⟩
    · split at htype
      · cases htype
        exact forall_parts_literal.2 ⟨trivial, trivial⟩
      · obtain ⟨word, -, rfl⟩ := Option.map_eq_some_iff.1 htype
        exact forall_parts_keyword.2 ⟨trivial, trivial⟩
  · rename_i hnone
    refine (gives_typeArguments hn).optional.bind fun args hargs => .pure ?_
    refine forall_parts_reference.2 ⟨⟨⟨hname, not_reserved_of_reservedType? hnone⟩, trivial⟩, ?_⟩
    cases args with
    | none => simp
    | some args => exact hargs args rfl

theorem gives_tupleType : Gives (tupleType nested) TypeExpr.Readable := by
  have hslot : Gives (slot nested) fun slot => slot.type.Readable :=
    Gives.andThen fun _ => hn.bind fun _ htype => Gives.andThen fun _ => .pure htype
  exact Gives.andThen fun _ => hslot.sepBy.bind fun _ hslots => Gives.andThen fun _ =>
    Gives.andThen fun _ => .pure (forall_parts_tuple.2 ⟨⟨trivial, trivial⟩, hslots⟩)

/-- The key of a member, and the parts of its type. -/
def KeyReadable (key : MemberKey) : Prop := key.Spelled ∧ ∀ part ∈ key.parts, part.PartReadable

omit hn in
theorem gives_namedKey (p : Parser String) :
    Gives (do return .named (← p)) KeyReadable :=
  Gives.andThen fun _ => .pure ⟨trivial, by simp [MemberKey.parts]⟩

/-- A key is an identifier, a string, or a parameter with the type of its keys. -/
theorem gives_memberKey : Gives (memberKey nested) KeyReadable := by
  have hindex : Gives (indexSignature nested) KeyReadable :=
    Gives.andThen fun _ => gives_identifier.bind fun _ hparam => Gives.andThen fun _ =>
      hn.commit.bind fun _ htype => Gives.andThen fun _ => .pure ⟨hparam, htype⟩
  refine Gives.firstOf ?_
  simp only [List.forall_mem_cons, List.not_mem_nil, false_implies, implies_true, and_true]
  exact ⟨gives_namedKey _, hindex, gives_namedKey _, gives_namedKey _⟩

/-- All members between the braces were read. -/
theorem gives_memberBlock :
    Gives (memberBlock nested) fun members => ∀ member ∈ members, member.Readable := by
  have hmember : Gives (member nested) Member.Readable :=
    Gives.andThen fun _ => (gives_memberKey hn).bind fun _ hkey => Gives.andThen fun _ =>
      Gives.andThen fun _ => hn.commit.bind fun _ htype => .pure
        ⟨⟨hkey.1, rfl⟩, List.forall_mem_append.2 ⟨hkey.2, htype⟩⟩
  exact Gives.andThen fun _ => (hmember.bind fun _ hm => Gives.andThen fun _ => .pure hm).many.bind
    fun _ hmembers => Gives.andThen fun _ => .pure hmembers

/-- A type without operators was read if what is inside was. -/
theorem gives_primaryType : Gives (primaryType nested) TypeExpr.Readable := by
  refine Gives.within (Gives.firstOf ?_)
  simp only [List.forall_mem_cons, List.not_mem_nil, false_implies, implies_true, and_true]
  refine ⟨gives_wordOrReference hn, ?_, gives_tupleType hn, ?_, ?_, ?_⟩
  · exact Gives.andThen fun _ => hn.commit.bind fun _ htype => Gives.andThen fun _ => .pure htype
  · exact (gives_memberBlock hn).bind fun _ hm => .pure (TypeExpr.readable_object.2 hm)
  · exact Gives.andThen fun _ => .pure (forall_parts_literal.2 ⟨trivial, trivial⟩)
  · exact gives_numberLiteral.bind fun _ ht => .pure (forall_parts_literal.2 ⟨ht, trivial⟩)

theorem gives_arrayType : Gives (arrayType nested) TypeExpr.Readable := by
  refine (gives_primaryType hn).bind fun type htype => Gives.andThen fun brackets => .pure ?_
  induction brackets generalizing type with
  | nil => exact htype
  | cons _ brackets ih => exact ih (.array type) (forall_parts_array.2 ⟨⟨trivial, trivial⟩, htype⟩)

/-- A single member stands for itself, and several are an intersection. -/
theorem gives_intersectionType : Gives (intersectionType nested) TypeExpr.Readable := by
  refine Gives.andThen fun _ => (gives_arrayType hn).bind fun first hfirst =>
    (Gives.andThen fun _ => (gives_arrayType hn).commit).many.bind fun others hothers => .pure ?_
  cases others with
  | nil => exact hfirst
  | cons second others =>
    exact forall_parts_intersection.2
      ⟨⟨by simp [TypeExpr.PartSpelled], trivial⟩, List.forall_mem_cons.2 ⟨hfirst, hothers⟩⟩

/-- A single member stands for itself, and several are a union. -/
theorem gives_unionType : Gives (unionType nested) TypeExpr.Readable := by
  refine Gives.andThen fun _ => (gives_intersectionType hn).bind fun first hfirst =>
    (Gives.andThen fun _ => (gives_intersectionType hn).commit).many.bind
      fun others hothers => .pure ?_
  cases others with
  | nil => exact hfirst
  | cons second others =>
    exact forall_parts_union.2
      ⟨⟨by simp [TypeExpr.PartSpelled], trivial⟩, List.forall_mem_cons.2 ⟨hfirst, hothers⟩⟩

end Nested

/-- Types are readable at every bound, since those inside are read with the bound below. -/
theorem gives_typeExpr : Gives typeExpr TypeExpr.Readable := by
  intro bound
  induction bound with
  | zero => rintro _ _ _ ⟨⟩
  | succ bound ih =>
    have hnested : Gives (fun _ inner => typeExpr bound inner) TypeExpr.Readable :=
      fun _ text type rest hr => ih text type rest hr
    exact gives_unionType hnested (bound + 1)

/-! ## Declarations -/

theorem gives_typeAlias : Gives typeAlias Declaration.Readable :=
  Gives.andThen fun _ => gives_identifier.within.commit.bind fun _ hname => Gives.andThen fun _ =>
    Gives.andThen fun _ => gives_typeExpr.within.commit.bind fun _ htype =>
      .pure ⟨hname, htype, rfl⟩

theorem gives_parents : Gives parents fun types => ∀ type ∈ types, type.Readable := by
  refine Gives.andThen fun _ => Gives.commit ?_
  have htypes : Gives (sepBy1 (arrayType typeExpr) (symbol ",")) _ :=
    (gives_arrayType gives_typeExpr).sepBy1
  exact fun bound text types rest hr => (htypes bound text types rest hr).2

/-- What an interface extends was read, and so were its members. -/
theorem gives_interface : Gives interface Declaration.Readable := by
  refine Gives.andThen fun _ => gives_identifier.within.commit.bind fun _ hname =>
    Gives.andThen fun _ => gives_parents.optional.bind fun found hfound =>
      (gives_memberBlock gives_typeExpr).within.commit.bind fun _ hmembers =>
        .pure ⟨hname, ?_, hmembers, rfl⟩
  cases found with
  | none => simp
  | some types => exact hfound types rfl

/-- A declaration that is read has types that were read. -/
theorem gives_declaration : Gives declaration Declaration.Readable := by
  refine Gives.andThen fun _ => Gives.andThen fun _ => ?_
  have hkinds : Gives (firstOf interface [typeAlias]) Declaration.Readable :=
    Gives.firstOf (by simpa using ⟨gives_interface, gives_typeAlias⟩)
  exact hkinds.bind fun _ hdeclaration => Gives.andThen fun _ => .pure hdeclaration

end Source.Parser

/-- A type that is read from a text is readable. -/
theorem TypeExpr.readable_ofSource {source : String} {type : TypeExpr}
    (h : TypeExpr.ofSource source = .ok type) : type.Readable := by
  have hwhole : Parser.Gives Parser.wholeType TypeExpr.Readable :=
    Parser.gives_typeExpr.bind fun _ htype => Parser.Gives.andThen fun _ => .pure htype
  exact hwhole.readAll h

/-- The declarations that are read from a text are readable. -/
theorem Declarations.readable_ofSource {source : String} {declarations : Declarations}
    (h : Declarations.ofSource source = .ok declarations) :
    ∀ declaration ∈ declarations, declaration.Readable := by
  have hwhole : Parser.Gives Parser.declarations fun declarations : Declarations =>
      ∀ declaration ∈ declarations, declaration.Readable :=
    Parser.gives_declaration.many.bind fun _ hread => Parser.Gives.andThen fun _ => .pure hread
  exact hwhole.readAll h

end LintTypes
