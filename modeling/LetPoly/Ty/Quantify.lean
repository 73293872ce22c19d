import LetPoly.Ty.Scheme

/-!
# Closing types

`quantify` turns a type into a scheme over its free variables, and `generalize` does so for an
inferred type, with letters for the variables. Both refuse a type with a scheme inside that binds a
variable its body does not mention, and a scheme that leaves variables free.
-/

namespace LetPoly

/-- The items of a list as running text: commas between them, and a word before the last. -/
def enumerate : List String → String
  | [] => ""
  | [item] => item
  | [item, last] => item ++ " and " ++ last
  | item :: items => item ++ ", " ++ enumerate items

/-- The names in a list, as the subject of a sentence about type variables. -/
def describeVars (vars : List String) : String :=
  let quoted := vars.map fun name => "'" ++ name ++ "'"
  match quoted with
  | [] => "no type variables are"
  | [name] => "type variable " ++ name ++ " is"
  | names => "type variables " ++ enumerate names ++ " are"

/-- Why a type cannot be closed. -/
inductive QuantifyError where
  /-- A scheme binds variables that its body does not mention. -/
  | unusedQuantified (vars : List String)
  /-- A scheme leaves variables free. -/
  | notQuantified (vars : List String)

/-- The wording of an error. -/
def QuantifyError.message : QuantifyError → String
  | .unusedQuantified vars => describeVars vars ++ " unused"
  | .notQuantified vars => describeVars vars ++ " not quantified"

namespace Ty

mutual
/-- The idle variables of the first scheme that binds variables its body does not mention. Inner
schemes come before outer ones, and otherwise those to the left come first. -/
def idleVars? : Ty → Option (List String)
  | .con _ _ => none
  | .var _ _ _ => none
  | .app head args =>
    match head.idleVars? with
    | some vars => some vars
    | none => idleVarsList? args
  | .scheme vars body =>
    match body.idleVars? with
    | some vars => some vars
    | none =>
      match vars.names.filter (· ∉ body.freeVars) with
      | [] => none
      | idle => some idle

/-- The idle variables of the first such scheme in a list of types. -/
def idleVarsList? : List Ty → Option (List String)
  | [] => none
  | a :: args =>
    match a.idleVars? with
    | some vars => some vars
    | none => idleVarsList? args
end

/-- The free variables of a type all of whose schemes use what they bind. -/
def checkedFreeVars (t : Ty) : Except QuantifyError NameSet :=
  match t.idleVars? with
  | some vars => .error (.unusedQuantified vars)
  | none => .ok t.freeVars

/-- Close a type over its free variables other than `fixed`. A type without any stays as it is,
and a scheme must not have any. -/
def quantifyExcept (t : Ty) (fixed : List String) : Except QuantifyError Ty := do
  let free := (← t.checkedFreeVars).filter (· ∉ fixed)
  if free.isEmpty then return t
  else if t.isScheme then throw (.notQuantified free.names)
  else return .scheme free t

/-- Close a type over its free variables. -/
def quantify (t : Ty) : Except QuantifyError Ty := t.quantifyExcept []

/-- Close an inferred type over its free variables other than `fixed` and give the quantified ones
canonical names. -/
def generalize (t : Ty) (fixed : List String) : Except QuantifyError Ty := do
  match ← t.quantifyExcept fixed with
  | .scheme vars body => return (Scheme.canonical ⟨vars, body⟩).toTy
  | t => return t

end Ty

end LetPoly
