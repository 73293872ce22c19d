import LetPoly.Typing.Stage

/-!
# Declarations

A group of datatypes brings in the kinds of its type constructors and the types of its constructors;
a value brings in its type, closed over the variables that are free in no other value in scope.
-/

namespace LetPoly

open Inference Session Stage

variable {σ : Type} [Stage σ]

/-- The type of a constructor as a function from its fields to the head of its datatype. -/
def Datatype.constructorTy (d : Datatype) (c : Constructor) : Ty := .function c.fields d.head

/-- Bring constructors of a datatype into scope, each with its type closed over the parameters. -/
def registerEach (d : Datatype) : List Constructor → RunM (SessionOn σ) Unit
  | [] => return ()
  | c :: constructors => do
    let ty ← stepIn (quantify (d.constructorTy c))
    let h ← stepIn (track ty)
    stepIn (modifyValues (·.insert c.name h))
    registerEach d constructors

/-- Bring the constructors of a datatype into scope. -/
def registerConstructors (d : Datatype) : RunM (SessionOn σ) Unit := registerEach d d.constructors

/-- Bring the constructors of each datatype of a list into scope. -/
def registerAll : List Datatype → RunM (SessionOn σ) Unit
  | [] => return ()
  | d :: ds => do
    registerConstructors d
    registerAll ds

/-- Bring the type constructors of a group of datatypes into scope. Gives their kinds, and the
datatypes with all kinds recorded. -/
def declareTypes (group : List Datatype) :
    EStateM (Sited KindError) Session (Table Kind × List Datatype) := do
  let s ← get
  match recordGroup s.env.kinds group (.range group.length) with
  | (_, .error e) => throw e
  | (group, .ok found) =>
    set { s with
      inference := { s.inference with recorded := s.inference.recorded ++ found.recorded }
      env := { s.env with kinds := s.env.kinds.insertAll found.declared } : Session }
    return (found.declared, group)

/-- Bring a group of datatypes into scope, type constructors and constructors. -/
def declareDatatypes (group : List Datatype) : RunM (SessionOn σ) Unit := do
  let (_, group) ← stepIn ((declareTypes group).adaptExcept fun e => .error (.kind e.item))
  registerAll group

/-- The type that an ascription gives a value, closed over its variables. -/
def ascribedTy (kinds : Scope Kind) : Option Ty → InferM (Option Ty)
  | some ty => do
    let ty ← ascribe kinds ty
    let ty ← quantify ty
    return some ty
  | none => return none

/-- The type that a value has in scope while its own type is inferred. -/
def provisionalTy : Option Ty → InferM Ty
  | some ty => return ty
  | none => fresh

/-- The type that the inferred type of a value has to equal: the ascribed one with its variables
held rigid, or the provisional one. Each variable comes with the rigid one that stands for it. -/
def demandedTy (h : Handle) : Option Ty → InferM (Ty × List (String × String))
  | some (.scheme vars body) => skolemize ⟨vars, body⟩
  | _ => do
    let ty ← current h
    return (ty, [])

/-- Refuse an ascription if a rigid variable that stands for one of its own is free in the type of
another value in scope. -/
def refuseEscape (values : Scope Handle) (name : String) : List (String × String) → InferM Unit
  | [] => return ()
  | rigid => do
    let fixed ← envVars values name
    match rigid.find? (·.2 ∈ fixed) with
    | some (var, _) => fail (.rigidEscape var name)
    | none => return ()

/-- Close the type of a value without ascription over the variables that are free in no other value
in scope. -/
def closeTy (values : Scope Handle) (name : String) (h : Handle) : Option Ty → InferM Unit
  | some _ => return ()
  | none => do
    let fixed ← envVars values name
    let general ← generalize (← current h) fixed
    replace h general

/-- Settle the type of a value that is in scope under the handle `h`, once its own type is found. -/
def settleTy (values : Scope Handle) (name : String) (ascribed : Option Ty) (h : Handle)
    (found : Ty) : RunM σ Unit := do
  let (demanded, rigid) ← step values (demandedTy h ascribed)
  step values (equate demanded found (.binding name))
  step values Inference.solve
  step values (refuseEscape values name rigid)
  step values (closeTy values name h ascribed)

/-- Bring a value into scope, given how its type is inferred from the names in scope. The value is
in scope for itself. -/
def bindValueWith (config : Config) (name : String) (ascription : Option Ty)
    (inferValue : Env → RunM σ Ty) : RunM (SessionOn σ) Unit := do
  let env ← stepIn scopes
  let ascribed ← stepIn (ascribedTy env.kinds ascription)
  let provisional ← stepIn (provisionalTy ascribed)
  let h ← stepIn (track provisional)
  stepIn (modifyValues (config.bind name h))
  let env ← stepIn scopes
  let found ← inferValue env
  (settleTy env.values name ascribed h found : RunM σ Unit)

end LetPoly
