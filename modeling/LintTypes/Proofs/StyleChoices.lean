import LintTypes.Schema.Types

/-!
# Choices that types depend on

Three choices of a style are about types. The others are about the text: styles that differ only in
these make the same declarations.
-/

namespace LintTypes

/-- The styles agree on what types are. -/
structure Style.SameTypes (style style' : Style) : Prop where
  additionalProperties : style.additionalProperties = style'.additionalProperties
  unknownAny : style.unknownAny = style'.unknownAny
  ignoreMinAndMaxItems : style.ignoreMinAndMaxItems = style'.ignoreMinAndMaxItems

namespace Schema

variable {context context' : Context}

/-- The contexts are of one document, and their styles agree on what types are. -/
structure Context.SameTypes (context context' : Context) : Prop where
  document : context.document = context'.document
  name : context.name = context'.name
  style : context.style.SameTypes context'.style

variable (h : context.SameTypes context')
include h

theorem unknown_congr : context.unknown = context'.unknown := by
  rw [Context.unknown, Context.unknown, h.style.unknownAny]

/-- Whether lengths count is the only thing that bounds take from the style. -/
theorem boundsOf_congr : boundsOf context.style = boundsOf context'.style := by
  funext schema
  rw [boundsOf, boundsOf, h.style.ignoreMinAndMaxItems]

variable (typeOf : Node → Hoisting TypeExpr)

theorem typeOfObject_congr : typeOfObject context typeOf = typeOfObject context' typeOf := by
  funext node
  simp only [typeOfObject, indexMembers, unknown_congr h, h.style.additionalProperties]

theorem typeOfArray_congr : typeOfArray context typeOf = typeOfArray context' typeOf := by
  funext node
  simp only [typeOfArray, restType, unknown_congr h, boundsOf_congr h]

theorem typeNamed_congr : typeNamed context typeOf = typeNamed context' typeOf := by
  funext name node
  simp only [typeNamed, unknown_congr h, typeOfObject_congr h, typeOfArray_congr h]

/-- The type of a schema depends on the choices that the contexts share, if references are followed
alike. -/
theorem typeOfSchema_congr (follow : String → Hoisting TypeExpr) :
    typeOfSchema context typeOf follow = typeOfSchema context' typeOf follow := by
  funext node
  simp only [typeOfSchema, typeByKeywords, typeByKind, typeNamed_congr h, typeOfObject_congr h,
    typeOfArray_congr h, unknown_congr h]

theorem referredType_congr (typeAt : List String → Node → Hoisting TypeExpr) :
    referredType context typeAt = referredType context' typeAt := by
  funext active reference
  simp only [referredType, target, h.document, h.name]

/-- At each depth the types are the same. The induction is on the depth, since the schemas inside
are worked out with less of it. -/
theorem typeAt_congr (depth : Nat) : typeAt context depth = typeAt context' depth := by
  induction depth with
  | zero => rfl
  | succ depth ih =>
    funext active node
    simp only [typeAt, ih, typeOfSchema_congr h, referredType_congr h]

omit h in
/-- The declarations of a document do not depend on how text is laid out. -/
theorem declarations_congr {style style' : Style} (h : style.SameTypes style') (document : Json)
    (name : String) :
    Schema.declarations document name style = Schema.declarations document name style' := by
  have hcontext : Context.SameTypes ⟨document, name, style⟩ ⟨document, name, style'⟩ :=
    ⟨rfl, rfl, h⟩
  simp only [Schema.declarations, typeOfDocument, typeAt_congr hcontext,
    typeOfSchema_congr hcontext, referredType_congr hcontext]

end Schema

end LintTypes
