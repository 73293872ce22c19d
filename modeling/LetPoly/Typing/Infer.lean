import LetPoly.Typing.Declare

/-!
# Type inference

`Expr.infer` walks an expression and gives its type, which may hold unknowns as yet. The rules are:

* a literal has its own type, and a name a fresh instance of the type it is bound to;
* a function applied to an argument has a type from that of the argument to that of the whole;
* a function has a type from those of its parameters to that of its body;
* conditions are truth values, and all branches have the type of the whole;
* the patterns of a match fit its scrutinee, and all arms have the type of the whole;
* the declarations of a `let` are in scope in its body.

Equations are solved whenever a value is bound, and its type is closed then.
-/

namespace LetPoly

open Inference Session Stage

variable {σ : Type} [Stage σ]

/-- The type of a parameter: its ascription, or a new variable. -/
def paramTy (kinds : Scope Kind) (p : Param) : InferM Ty :=
  match p.ascription with
  | some ty => ascribe kinds ty
  | none => fresh

/-- Bring parameters into scope and track their types. -/
def bindParams (config : Config) (kinds : Scope Kind) :
    List Param → Scope Handle → RunM σ (Scope Handle × List Handle)
  | [], scope => step scope (return (scope, []))
  | p :: params, scope => do
    let ty ← step scope (paramTy kinds p)
    let h ← step scope (track ty)
    let (scope, handles) ← bindParams config kinds params (config.bind p.name h scope)
    return (scope, h :: handles)

/-- An instance of the type of a constructor in a pattern. -/
def constructorInstance (scope : Scope Handle) (name : String) : InferM Ty :=
  match scope.lookup name with
  | some h => do instantiate (← current h)
  | none => fail (.unknownConstructor name)

/-- Track the types of fields and bring them into scope under the names that capture them. -/
def bindCaptures (config : Config) : List (String × Ty) → Scope Handle → RunM σ (Scope Handle)
  | [], scope => step scope (return scope)
  | (name, ty) :: captures, scope => do
    let h ← step scope (track ty)
    bindCaptures config captures (config.bind name h scope)

/-- Ask the scrutinee to fit a pattern and bring what the pattern captures into scope. -/
def bindPattern (config : Config) (scrutinee : Handle) (scope : Scope Handle) :
    Pattern → RunM σ (Scope Handle)
  | .capture name =>
    step (config.bind name scrutinee scope) (return config.bind name scrutinee scope)
  | .literal value => do
    let expected ← step scope (current scrutinee)
    step scope (equate expected value.ty .literal)
    return scope
  | .constructor name => do
    let found ← step scope (constructorInstance scope name)
    let expected ← step scope (current scrutinee)
    step scope (equate expected found (.constructor name))
    return scope
  | .data name captures => do
    let found ← step scope (constructorInstance scope name)
    if found.arity ≠ captures.length then
      step scope (fail (.patternArity name found.arity captures.length))
    let fields ← step scope (freshList captures.length)
    let expected ← step scope (current scrutinee)
    step scope (equate (.function fields expected) found (.constructor name))
    bindCaptures config (captures.zip fields) scope

mutual
/-- Infer the type of an expression. The scope of a function, a match arm or a `let` is in use up to
the last time something is looked up in it: what it held is let go in the scope around it. -/
def Expr.infer (config : Config) (env : Env) : Expr → RunM σ Ty
  | .literal value => step env.values (return value.ty)
  | .ident name =>
    match env.values.lookup name with
    | some h => do
      let ty ← step env.values (current h)
      step env.values (instantiate ty)
    | none => step env.values (fail (.unboundVariable name))
  | .internal name =>
    match config.prelude.internals.find? name with
    | some ty => step env.values (instantiate ty)
    | none => step env.values (fail (.unknownInternal name))
  | .app func arg => do
    let func ← func.infer config env
    let h ← step env.values (track func)
    let arg ← arg.infer config env
    let result ← step env.values fresh
    let func ← step env.values (take h)
    step env.values (equate func (.arrow arg result) .application)
    return result
  | .function params body => do
    let (scope, handles) ← bindParams config env.kinds params env.values.child
    let result ← body.infer config { env with values := scope }
    let params ← takeAll env.values handles
    return .function params result
  | .guards branches otherwise => do
    let result ← step env.values fresh
    let h ← step env.values (track result)
    Expr.inferBranches config env h branches
    let otherwise ← otherwise.infer config env
    let result ← step env.values (current h)
    step env.values (equate result otherwise .branch)
    step env.values (take h)
  | .cases scrutinee arms => do
    let scrutinee ← scrutinee.infer config env
    let h ← step env.values (track scrutinee)
    let result ← step env.values fresh
    let h' ← step env.values (track result)
    Expr.inferArms config env h h' arms
    step env.values (release h)
    step env.values (take h')
  | .letIn decls body => do
    let inner ← within env.child do
      declareDatatypes (Decl.datatypes decls)
      Decl.bindAll config decls
    let result ← body.infer config inner
    releaseAll env.values inner.values.innermost.values
    return result

/-- Infer the types of guarded branches. -/
def Expr.inferBranches (config : Config) (env : Env) (result : Handle) :
    List (Expr × Expr) → RunM σ Unit
  | [] => return ()
  | (condition, branch) :: branches => do
    let condition ← condition.infer config env
    step env.values (equate .bool condition .condition)
    let branch ← branch.infer config env
    let expected ← step env.values (current result)
    step env.values (equate expected branch .branch)
    Expr.inferBranches config env result branches

/-- Infer the types of match arms. What an arm captured is let go at its end, the scrutinee
apart. -/
def Expr.inferArms (config : Config) (env : Env) (scrutinee result : Handle) :
    List (Pattern × Expr) → RunM σ Unit
  | [] => return ()
  | (pattern, body) :: arms => do
    let scope ← bindPattern config scrutinee env.values.child pattern
    let body ← body.infer config { env with values := scope }
    let expected ← step env.values (current result)
    step env.values (equate expected body .branch)
    releaseAll env.values (scope.innermost.values.filter (· ≠ scrutinee))
    Expr.inferArms config env scrutinee result arms

/-- Bring the values of a list of declarations into scope, one after the other. -/
def Decl.bindAll (config : Config) : List Decl → RunM (SessionOn σ) Unit
  | [] => return ()
  | .value name ascription value _ :: decls => do
    bindValueWith config name ascription fun env => value.infer config env
    Decl.bindAll config decls
  | .datatype _ :: decls => Decl.bindAll config decls
  | .fixity _ :: decls => Decl.bindAll config decls
end

/-- Infer the type of an expression and solve, so that its type has no solved variable left. -/
def Expr.inferSolved (config : Config) (env : Env) (e : Expr) : RunM σ Ty := do
  let ty ← e.infer config env
  let h ← step env.values (track ty)
  step env.values Inference.solve
  step env.values (take h)

/-- Bring a value into scope. -/
def bindValue (config : Config) (name : String) (ascription : Option Ty) (value : Expr) :
    RunM (SessionOn σ) Unit :=
  bindValueWith config name ascription fun env => value.infer config env

/-- Bring declarations into scope: first the datatypes as one group, then the values in order. -/
def declare (config : Config) (decls : List Decl) : RunM (SessionOn σ) Unit := do
  declareDatatypes (Decl.datatypes decls)
  Decl.bindAll config decls

/-- Solve the equations that wait and give every variable that is left the default type. -/
def finish (config : Config) : RunM (SessionOn σ) Unit := do
  stepIn Inference.solve
  stepIn (giveDefaults config)

end LetPoly
