import LetPoly.Ty.Basic

/-!
# Kind errors

What may be wrong with the kinds of a type or of a group of datatypes.
-/

namespace LetPoly

/-- What is wrong with the kinds of types. -/
inductive KindError where
  /-- A type constructor that nothing declares. -/
  | unboundType (name : String)
  /-- A type constructor applied to arguments that its kind does not allow. -/
  | arityMismatch (constructor : String) (expected found : Kind)
  /-- A type of another kind than its context demands. -/
  | kindMismatch (expected found : Kind) (context : String)
  /-- A kind that would have to contain itself. -/
  | infiniteKind (var : KindVar) (kind : Kind)
  /-- A kind to be recorded where one has been recorded before. -/
  | alreadyAssigned (name : String) (kind : Kind)
  /-- A type whose kind has not been recorded. -/
  | unassigned (name : String)
  /-- A type that cannot stand at the head of a datatype declaration. -/
  | invalidHead (ty : Ty)
  /-- A variable in a datatype that is none of its parameters. -/
  | unboundVariable (name : String)
  /-- A type applied to more arguments than its recorded kind takes. -/
  | overApplied (ty : Ty)

/-- The wording of an error. -/
def KindError.message : KindError → String
  | .unboundType name => "unbound type '" ++ name ++ "'"
  | .arityMismatch constructor expected found =>
    "type constructor '" ++ constructor ++ "' has kind " ++ expected.render ++
      " but is used as " ++ found.render
  | .kindMismatch expected found context =>
    "kind mismatch in " ++ context ++ ": expected " ++ expected.render ++ ", found " ++
      found.render
  | .infiniteKind var kind =>
    "cannot construct infinite kind " ++ var.render ++ " = " ++ kind.render
  | .alreadyAssigned name kind =>
    "kind of '" ++ name ++ "' is already assigned (" ++ kind.render ++ ")"
  | .unassigned name => "kind of '" ++ name ++ "' has not been inferred"
  | .invalidHead ty => "'" ++ ty.render ++ "' cannot head a datatype declaration"
  | .unboundVariable name =>
    "type variable '" ++ name ++ "' is not a parameter of its datatype"
  | .overApplied ty => "type '" ++ ty.render ++ "' is applied to too many arguments"

end LetPoly
