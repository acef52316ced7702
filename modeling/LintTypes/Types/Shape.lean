import LintTypes.Types.Basic

/-!
# Shapes of declarations

A rule's options are an argument list, and a schema may describe the whole list or one argument. A
schema that offers several argument lists is declared as a union of tuples; such a declaration is
complete as it is, while all others have to be put into a tuple.
-/

namespace LintTypes

/-- What a declaration offers to a rule. -/
inductive DeclarationShape where
  /-- An interface. -/
  | interface
  /-- An alias of a union that has only tuples as members. -/
  | unionOfTuples
  /-- Any other alias. -/
  | other
deriving DecidableEq, Repr

namespace DeclarationShape

/-- The name of the shape. -/
def label : DeclarationShape → String
  | interface => "Interface"
  | unionOfTuples => "UnionOfTuples"
  | other => "Other"

end DeclarationShape

/-- The shape of a declaration. -/
def Declaration.shape : Declaration → DeclarationShape
  | .interface .. => .interface
  | .typeAlias _ (.union members) _ =>
    if members.all TypeExpr.isTuple then .unionOfTuples else .other
  | .typeAlias .. => .other

end LintTypes
