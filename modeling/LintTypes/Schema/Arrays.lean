import LintTypes.Types.Basic

/-!
# Array types with bounds

Bounds on the length of an array are declared by tuples: one tuple for each accepted length, or, if
there is no greatest length, one for each length up to the number of item types, with a rest slot in
the longest. Bounds that would need too many slots are dropped.
-/

namespace LintTypes.ArrayType

/-- The greatest number of slots that are added for the sake of a bound. -/
def maxExpansion : Nat := 16

/-- The bounds on the length of an array. -/
structure Bounds where
  /-- The least length. -/
  least : Nat
  /-- The greatest length, if there is one. -/
  greatest : Option Nat
deriving DecidableEq, Repr

/-- A tuple of required slots, and a rest slot if there is a type for it. -/
def ofSlots (types : List TypeExpr) (rest : Option TypeExpr) : TypeExpr :=
  .tuple (types.map Slot.required ++ (rest.map Slot.rest).toList)

/-- Item types and a rest type such that every accepted length is covered. Where the bounds ask for
more items than there are types, the type is `filler`. -/
def complete (filler : TypeExpr) (types : List TypeExpr) (bounds : Bounds)
    (rest : Option TypeExpr) : List TypeExpr × Option TypeExpr :=
  match rest, bounds.greatest with
  | some rest, _ => (types, some rest)
  | none, none => (types, if types.length < bounds.least then some filler else none)
  | none, some greatest =>
    if types.length < greatest then
      if greatest - types.length ≤ maxExpansion then
        (types ++ List.replicate (greatest - types.length) filler, none)
      else (types, some filler)
    else (types, none)

/-- The tuples over `types`, one for each length from the least one on. Only the longest has the
rest slot. -/
def ofItems (filler : TypeExpr) (types : List TypeExpr) (bounds : Bounds)
    (rest : Option TypeExpr) : TypeExpr :=
  let (types, rest) := complete filler types bounds rest
  if types.length ≤ bounds.least then ofSlots types rest
  else
    let shorter := (List.range' bounds.least (types.length - bounds.least)).map fun length =>
      ofSlots (types.take length) none
    TypeExpr.unionOf (shorter ++ [ofSlots types rest])

/-- The arrays of items that all have the type `item`. -/
def uniform (filler item : TypeExpr) (bounds : Bounds) : TypeExpr :=
  let count := match bounds.greatest with
    | some greatest => if 0 < greatest then greatest else bounds.least
    | none => bounds.least
  if (bounds.least = 0 ∧ bounds.greatest = none) ∨ maxExpansion < count then .array item
  else
    ofItems filler (List.replicate count item) bounds
      (if bounds.greatest.isNone then some item else none)

end LintTypes.ArrayType
