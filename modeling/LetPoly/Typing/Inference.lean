import LetPoly.Kinding.Group
import LetPoly.Prelude
import LetPoly.Typing.Error
import LetPoly.Ty.Unify
import LetPoly.Unification.Unifier

/-!
# Steps of type inference

An `Inference` holds the unifier of a run of type inference and the number of the next variable.
Values in scope are handles, so that a scope always sees the current solution of the types it
holds; types that are kept while an expression is walked are tracked for the same reason.

Inference goes on from where an error left it: nothing done before the error is undone.
-/

namespace LetPoly

/-- What a run of inference has come to. -/
structure Inference where
  unifier : Unifier Ty String TypeOrigin
  /-- The number of the next solvable or rigid variable. -/
  next : Nat
  /-- The kinds recorded in the program so far, in the order in which inference came to their
  places. -/
  recorded : List Kind
  /-- The handles that were taken after their release. -/
  stray : List Handle

/-- The names in scope. -/
structure Env where
  values : Scope Handle
  kinds : Scope Kind

/-- The scopes inside those of an environment. -/
def Env.child (env : Env) : Env := ⟨env.values.child, env.kinds.child⟩

/-- Actions of inference. What was reached before an error is kept. -/
abbrev InferM := EStateM (Fault TypeError) Inference

namespace Inference

/-- The start of a run. -/
def initial : Inference := ⟨.empty, 0, [], []⟩

/-- Fail with an error of the program. -/
def fail {α : Type} (error : TypeError) : InferM α := throw (.error error)

/-- The number for a new variable. -/
def nextId : InferM Nat := do
  let s ← get
  set { s with next := s.next + 1 }
  return s.next

/-- A new solvable variable. -/
def fresh : InferM Ty := return .fresh (← nextId)

/-- As many new solvable variables. -/
def freshList : Nat → InferM (List Ty)
  | 0 => return []
  | n + 1 => do
    let ty ← fresh
    let types ← freshList n
    return ty :: types

/-- Track a type, so that solutions reach it. -/
def track (ty : Ty) : InferM Handle := do
  let s ← get
  let (unifier, h) := s.unifier.track ty
  set { s with unifier }
  return h

/-- The current solution of a tracked type. -/
def current (h : Handle) : InferM Ty := do
  match (← get).unifier.term? h with
  | some ty => return ty
  | none => throw (.released h)

/-- Put another type in the place of a tracked one. -/
def replace (h : Handle) (ty : Ty) : InferM Unit :=
  modify fun s => { s with unifier := s.unifier.replace h ty }

/-- Stop tracking a type. -/
def release (h : Handle) : InferM Unit :=
  modify fun s => { s with unifier := (s.unifier.release h).1 }

/-- Read a tracked type for the last time and stop tracking it. A type that is not tracked any more
counts as unknown. -/
def take (h : Handle) : InferM Ty := do
  let s ← get
  match s.unifier.release h with
  | (unifier, some ty) =>
    set { s with unifier }
    return ty
  | (_, none) =>
    set { s with stray := h :: s.stray }
    fresh

/-- Ask the type found to be the one expected. -/
def equate (expected found : Ty) (origin : TypeOrigin) : InferM Unit :=
  modify fun s => { s with unifier := s.unifier.equate expected found origin }

/-- Solve the equations that wait. -/
def solve : InferM Unit := do
  let s ← get
  let (unifier, failure) := s.unifier.solve
  set { s with unifier }
  match failure with
  | some unsolved => fail (explainTypes unsolved)
  | none => return ()

/-- Give every variable that is left the default type. -/
def giveDefaults (config : Config) : InferM Unit :=
  modify fun s => { s with unifier := s.unifier.defaultUnresolved fun _ => config.defaultTy }

/-- The body of a scheme with new solvable variables for the quantified ones. Other types stay as
they are. -/
def instantiate : Ty → InferM Ty
  | .scheme vars body => do
    let s ← get
    let (ty, next) := (Scheme.mk vars body).freshInstance s.next
    set { s with next }
    return ty
  | ty => return ty

/-- For each name of a list, a new rigid variable that stands for it. -/
def skolems : List String → InferM (List String)
  | [] => return []
  | name :: names => do
    let id ← nextId
    let rest ← skolems names
    return Ty.skolemName name id :: rest

/-- The body of a scheme with new rigid variables for the quantified ones, and each quantified name
with that of the variable that stands for it. -/
def skolemize (s : Scheme) : InferM (Ty × List (String × String)) := do
  let names ← skolems s.vars.names
  return (s.instantiate (names.map Ty.rigid), s.vars.names.zip names)

/-- Take note of kinds to be recorded in the program. -/
def record (kinds : List Kind) : InferM Unit :=
  modify fun s => { s with recorded := s.recorded ++ kinds }

/-- Check the kinds of an ascription and give it with its kinds recorded. -/
def ascribe (kinds : Scope Kind) (ty : Ty) : InferM Ty :=
  match checkAscription kinds ty with
  | (_, .error error) => fail (.kind error)
  | (ty, .ok found) => do
    record found
    return ty

/-- Close a type over its free variables. -/
def quantify (ty : Ty) : InferM Ty :=
  match ty.quantify with
  | .ok ty => return ty
  | .error error => fail (.quantify error)

/-- Close an inferred type over its free variables other than `fixed`. -/
def generalize (ty : Ty) (fixed : List String) : InferM Ty :=
  match ty.generalize fixed with
  | .ok ty => return ty
  | .error error => fail (.quantify error)

/-- The variables free in the types of a list of handles. -/
def freeVarsOf : List Handle → InferM (List String)
  | [] => return []
  | h :: hs => do
    let ty ← current h
    let names ← freeVarsOf hs
    return ty.freeVars.names ++ names

/-- The variables free in the types of the values in scope, those of the innermost value of the
name `skip` apart. -/
def envVars (values : Scope Handle) (skip : String) : InferM (List String) :=
  let innermost := values.innermost.entries.filter (·.1 != skip)
  freeVarsOf (innermost.map Prod.snd ++ values.enclosing.flatMap (·.values))

end Inference

end LetPoly
