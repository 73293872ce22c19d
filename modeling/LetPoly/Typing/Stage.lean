import LetPoly.Typing.Inference

/-!
# Runs step by step

A run of inference goes in steps, each of them an action in the scope that is in use just then. What
a step leaves behind is up to the stage that the run is on. On the plain stage it is the state that
the action leads to; another stage may keep what the run has passed through as well.

A `Session` is a run of inference together with the names in scope, to which declarations add.
-/

namespace LetPoly

/-- Actions on a stage. What was reached before an error is kept. -/
abbrev RunM (σ : Type) := EStateM (Fault TypeError) σ

/-- A run on a stage and the names in scope. -/
structure SessionOn (σ : Type) where
  inference : σ
  env : Env

/-- A run of inference and the names in scope. -/
abbrev Session := SessionOn Inference

/-- Actions that may add to what is in scope. -/
abbrev DeclM := RunM Session

/-- Where runs of inference take place. -/
class Stage (σ : Type) where
  /-- An action as one step, in the given scope. -/
  step {α : Type} : Scope Handle → InferM α → RunM σ α
  /-- An action that may add to what is in scope as one step. -/
  stepIn {α : Type} : DeclM α → RunM (SessionOn σ) α

/-- The plain stage: a step is its action. -/
instance : Stage Inference where
  step _ x := x
  stepIn x := x

variable {σ : Type}

instance : MonadLift (RunM σ) (RunM (SessionOn σ)) where
  monadLift x := fun s =>
    match x s.inference with
    | .ok a inference => .ok a { s with inference }
    | .error e inference => .error e { s with inference }

namespace Session

/-- Run an action from the given environment and give the environment that it leads to. -/
def within (env : Env) (x : RunM (SessionOn σ) Unit) : RunM σ Env := fun inference =>
  match x ⟨inference, env⟩ with
  | .ok _ s => .ok s.env s.inference
  | .error e s => .error e s.inference

/-- The names in scope. -/
def scopes : DeclM Env := return (← get).env

/-- Change the values in scope. -/
def modifyValues (f : Scope Handle → Scope Handle) : DeclM Unit :=
  modify fun s => { s with env := { s.env with values := f s.env.values } }

end Session

open Stage Inference

variable [Stage σ]

/-- Stop tracking the types of a list of handles. -/
def releaseAll (values : Scope Handle) : List Handle → RunM σ Unit
  | [] => return ()
  | h :: hs => do
    step values (release h)
    releaseAll values hs

/-- Read the types of a list of handles for the last time and stop tracking them. -/
def takeAll (values : Scope Handle) : List Handle → RunM σ (List Ty)
  | [] => return []
  | h :: hs => do
    let ty ← step values (take h)
    let types ← takeAll values hs
    return ty :: types

end LetPoly
