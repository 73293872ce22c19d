import LetPoly.Kinding.Error
import LetPoly.Ty.Quantify
import LetPoly.Unification.Equation
import LetPoly.Unification.Store

/-!
# Type errors

What may be wrong with an expression or a declaration, and the origins of type equations.
-/

namespace LetPoly

/-- The construct that a type equation comes from. -/
inductive TypeOrigin where
  | application
  /-- The condition of a guard. -/
  | condition
  /-- The result of a branch or an arm. -/
  | branch
  /-- A literal as a pattern. -/
  | literal
  /-- A constructor as a pattern. -/
  | constructor (name : String)
  /-- The binding of a value to a name. -/
  | binding (name : String)

/-- The wording of an origin. -/
def TypeOrigin.describe : TypeOrigin → String
  | .application => "function application"
  | .condition => "guard condition"
  | .branch => "branch result"
  | .literal => "literal pattern"
  | .constructor name => "pattern '" ++ name ++ "'"
  | .binding name => "binding '" ++ name ++ "'"

/-- What is wrong with a program. -/
inductive TypeError where
  | unboundVariable (name : String)
  | unknownInternal (name : String)
  | unknownConstructor (name : String)
  /-- A pattern that captures more or fewer fields than its constructor has. -/
  | patternArity (constructor : String) (expected found : Nat)
  /-- Two types that cannot be made equal. -/
  | mismatch (expected found : Ty) (context : String)
  /-- A variable of an ascription that turns up in the type of something in scope. -/
  | rigidEscape (var binding : String)
  /-- A type that would have to contain itself. -/
  | occursCheck (var : String) (ty : Ty) (context : String)
  | quantify (error : QuantifyError)
  | kind (error : KindError)

/-- The wording of an error. -/
def TypeError.message : TypeError → String
  | .unboundVariable name => "unbound variable '" ++ name ++ "'"
  | .unknownInternal name => "unknown internal value '" ++ name ++ "'"
  | .unknownConstructor name => "unknown data constructor '" ++ name ++ "'"
  | .patternArity constructor expected found =>
    "pattern '" ++ constructor ++ "' expects " ++ toString expected ++ " captures, found " ++
      toString found
  | .mismatch expected found context =>
    "type mismatch in " ++ context ++ ": expected " ++ expected.render ++ ", found " ++
      found.render
  | .rigidEscape var binding =>
    "type variable '" ++ var ++ "' of the annotation on '" ++ binding ++ "' escapes its scope"
  | .occursCheck var ty context =>
    "cannot construct infinite type " ++ var ++ " = " ++ ty.render ++ " (in " ++ context ++ ")"
  | .quantify error => error.message
  | .kind error => error.message

/-- The error that a failure to solve type equations amounts to. -/
def explainTypes : Unsolved Ty String TypeOrigin → TypeError
  | ⟨origin, .mismatch left right⟩ => .mismatch left right origin.describe
  | ⟨origin, .occursCheck var ty⟩ => .occursCheck var ty origin.describe

/-- Why a run of inference ends early: the program has an error, or a handle was read after its
release. -/
inductive Fault (ε : Type) where
  | error (e : ε)
  | released (h : Handle)

/-- Change the error of a fault. -/
def Fault.map {ε ε' : Type} (f : ε → ε') : Fault ε → Fault ε'
  | .error e => .error (f e)
  | .released h => .released h

end LetPoly
