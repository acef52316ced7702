import LintTypes.Json.Pointer
import LintTypes.Names
import LintTypes.Schema.Problem
import LintTypes.Types.Basic

/-!
# Hoisting

A schema with a title is declared by a name of its own, once, and all its uses refer to that name.
While the types of a document are worked out, `Hoisted` keeps what has been declared so far and
which name each titled schema has. The name is given before the declaration is complete, so that a
schema may refer to itself.

`Hoisting` is the kind of computation that adds to it. Besides a value or a problem it has a third
outcome, for a computation whose depth is bounded: that the depth did not suffice.
-/

namespace LintTypes

/-- What has been declared on the way. -/
structure Hoisted where
  /-- The declarations of titled schemas, in the order in which they were completed. -/
  declarations : Declarations := []
  /-- The declared names, those of declarations in progress among them. -/
  taken : List String
  /-- The name of each titled schema, by its place in the document. -/
  names : List (List Step × String) := []

/-- The outcome of working out a type. -/
inductive Hoisting.Outcome (α : Type) where
  /-- A value, and what has been declared by now. -/
  | done (value : α) (hoisted : Hoisted)
  /-- The schema is at fault. -/
  | failed (problem : SchemaProblem)
  /-- The depth did not suffice. -/
  | tooDeep

/-- A computation that may add declarations. -/
def Hoisting (α : Type) : Type := Hoisted → Hoisting.Outcome α

namespace Hoisting

variable {α β : Type}

/-- Yields `value` and declares nothing. -/
protected def pure (value : α) : Hoisting α := fun hoisted => .done value hoisted

/-- Goes on with what `f` makes of the value. -/
protected def bind (x : Hoisting α) (f : α → Hoisting β) : Hoisting β := fun hoisted =>
  match x hoisted with
  | .done value hoisted => f value hoisted
  | .failed problem => .failed problem
  | .tooDeep => .tooDeep

instance : Monad Hoisting where
  pure := Hoisting.pure
  bind := Hoisting.bind

/-- Fails. -/
def fail (problem : SchemaProblem) : Hoisting α := fun _ => .failed problem

/-- The depth does not suffice. -/
def tooDeep : Hoisting α := fun _ => .tooDeep

/-- The name of a titled schema, if it has one by now. -/
def nameOf? (path : List Step) : Hoisting (Option String) := fun hoisted =>
  .done (hoisted.names.lookup path) hoisted

/-- Gives a titled schema a name that is not taken. -/
def giveName (path : List Step) (title : String) : Hoisting String := fun hoisted =>
  let name := Names.unusedName hoisted.taken (Names.titleIdentifier title)
  .done name
    { hoisted with taken := name :: hoisted.taken, names := (path, name) :: hoisted.names }

/-- Adds a declaration. -/
def declare (declaration : Declaration) : Hoisting Unit := fun hoisted =>
  .done () { hoisted with declarations := hoisted.declarations ++ [declaration] }

end Hoisting

end LintTypes
