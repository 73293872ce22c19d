import LetPoly.Kind.Unify
import LetPoly.Kinding.Error
import LetPoly.Scope
import LetPoly.Ty.Place

/-!
# Kind constraints

`Ty.kindConstraints` walks a type and collects the equations that its kinds have to satisfy,
together with the nodes whose kinds are still to be recorded, each with its place. `Kinding.settle`
solves the equations and says which kind each of the collected kinds turns out to be.

The rules are:

* in a function type, both sides have kind `*`, and so has the whole;
* in an application, the kind of the head is the function kind from the kinds of the arguments
  to that of the whole;
* in a quantified type, the body has kind `*`, and so has the whole;
* a node whose kind has been recorded has that kind.

Kinds that the equations leave open become `*`.
-/

namespace LetPoly

/-- The construct that a kind equation comes from. -/
inductive KindOrigin where
  /-- The head of a datatype or a field of its constructors. -/
  | declaration (datatype : String)
  /-- An application, with the kind of the head and the kind that the arguments ask for. -/
  | application (constructor : String) (head applied : Kind)
  /-- A side of a function type. -/
  | arrow
  /-- The body of a quantified type. -/
  | scheme
  /-- A type that the user gave a value. -/
  | ascription
  /-- A node whose kind has been recorded before. -/
  | assigned (name : String)

/-- The wording of an origin. -/
def KindOrigin.describe : KindOrigin → String
  | .declaration datatype => "datatype '" ++ datatype ++ "'"
  | .application constructor _ _ => "application of '" ++ constructor ++ "'"
  | .arrow => "function type"
  | .scheme => "quantified type"
  | .ascription => "type annotation"
  | .assigned name => "'" ++ name ++ "'"

/-- Something that belongs to a datatype of a group, given by its position there, or to none. -/
structure Sited (α : Type) where
  site : Option Nat
  item : α

/-- What is done about a variable that is not in scope. -/
inductive Unscoped where
  /-- It counts as quantified and is brought into scope. -/
  | introduce
  /-- It is an error. -/
  | refuse

/-- What the walk over a type is given. -/
structure KindContext where
  /-- The kinds of the type constructors declared before. -/
  base : Scope Kind
  unscoped : Unscoped
  /-- The datatype that the type belongs to. -/
  site : Option Nat

/-- A node whose slot the walk found empty, with the kind to be recorded in it. -/
structure Leaf where
  place : Place
  name : String
  kind : Kind

/-- Replace the kind of a leaf by what it turns out to be. -/
def Leaf.map (settled : Kind → Kind) (leaf : Leaf) : Leaf := { leaf with kind := settled leaf.kind }

/-- What the walk over types has come to. -/
structure Kinding where
  /-- The number of the next kind variable. -/
  next : Nat
  /-- The kinds of the constructors being declared and of the variables in scope. -/
  scope : Scope Kind
  /-- The equations to be solved. -/
  equations : List (Equation Kind (Sited KindOrigin))
  /-- The nodes with empty slots, in the order in which the walk came to them. -/
  leaves : List Leaf

/-- Actions of the walk. What was reached before an error is kept. -/
abbrev KindM := EStateM (Sited KindError) Kinding

namespace Kinding

/-- The start of a walk. -/
def initial : Kinding := ⟨0, .empty, [], []⟩

/-- A new kind variable. -/
def fresh : KindM Kind := do
  let s ← get
  set { s with next := s.next + 1 }
  return .var ⟨s.next⟩

/-- Give a name a kind in the innermost scope. -/
def bring (name : String) (kind : Kind) : KindM Unit :=
  modify fun s => { s with scope := s.scope.insert name kind }

/-- Give each name of a list a new kind variable. -/
def bringAll : List String → KindM Unit
  | [] => return ()
  | name :: names => do
    bring name (← fresh)
    bringAll names

/-- Ask two kinds to be equal. -/
def equate (ctx : KindContext) (left right : Kind) (origin : KindOrigin) : KindM Unit :=
  modify fun s => { s with equations := s.equations ++ [⟨left, right, ⟨ctx.site, origin⟩⟩] }

/-- Fail. -/
def fail {α : Type} (ctx : KindContext) (error : KindError) : KindM α := throw ⟨ctx.site, error⟩

/-- Take note of a node: its kind has to be recorded or, if it has been, to be the one found. -/
def note (ctx : KindContext) (place : Place) (name : String) (slot : KindSlot) (kind : Kind) :
    KindM Unit :=
  match slot with
  | some assigned => equate ctx kind assigned (.assigned name)
  | none => modify fun s => { s with leaves := s.leaves ++ [⟨place, name, kind⟩] }

/-- Run an action in a scope inside the current one, which is in force again afterwards. -/
def inChild {α : Type} (x : KindM α) : KindM α := fun s =>
  match x { s with scope := s.scope.child } with
  | .ok a s' => .ok a { s' with scope := s.scope }
  | .error e s' => .error e { s' with scope := s.scope }

/-- The kind of a type constructor: what is in scope hides what was declared before. -/
def constructorKind (ctx : KindContext) (name : String) : KindM Kind := do
  match (← get).scope.lookup name with
  | some kind => return kind
  | none =>
    match ctx.base.lookup name with
    | some kind => return kind
    | none => fail ctx (.unboundType name)

/-- The kind of a type variable. -/
def variableKind (ctx : KindContext) (name : String) : KindM Kind := do
  match (← get).scope.lookup name with
  | some kind => return kind
  | none =>
    match ctx.unscoped with
    | .refuse => fail ctx (.unboundVariable name)
    | .introduce =>
      let kind ← fresh
      bring name kind
      return kind

end Kinding

namespace Ty

open Kinding

mutual
/-- Collect the equations for a type, whose root is at `place`, and give its kind, which may be
unknown as yet. -/
def kindConstraints (ctx : KindContext) (place : Place) : Ty → KindM Kind
  | .con name slot => do
    let kind ← constructorKind ctx name
    note ctx place name slot kind
    return kind
  | .var name _ slot => do
    let kind ← variableKind ctx name
    note ctx place name slot kind
    return kind
  | .app head args => do
    let headKind ← kindConstraints ctx (place ++ [0]) head
    if head.isArrowConstructor && args.length == 2 then
      operandConstraints ctx place 1 args
      return .atomic
    else
      let argKinds ← kindConstraintsList ctx place 1 args
      let result ← Kinding.fresh
      let applied := Kind.function (argKinds ++ [result])
      equate ctx headKind applied (.application head.render headKind applied)
      return result
  | .scheme vars body => inChild do
    bringAll vars.names
    let kind ← kindConstraints ctx (place ++ [0]) body
    equate ctx kind .atomic .scheme
    return .atomic

/-- Collect the equations for each type of a list and give their kinds. The types are children of
the node at `place`, the first of them number `i`. -/
def kindConstraintsList (ctx : KindContext) (place : Place) (i : Nat) : List Ty → KindM (List Kind)
  | [] => return []
  | a :: args => do
    let kind ← kindConstraints ctx (place ++ [i]) a
    let kinds ← kindConstraintsList ctx place (i + 1) args
    return kind :: kinds

/-- Collect the equations for the two sides of a function type. -/
def operandConstraints (ctx : KindContext) (place : Place) (i : Nat) : List Ty → KindM Unit
  | [] => return ()
  | a :: args => do
    let kind ← kindConstraints ctx (place ++ [i]) a
    equate ctx kind .atomic .arrow
    operandConstraints ctx place (i + 1) args
end

end Ty

/-- The error that a failure to solve kind equations amounts to, after the given bindings. -/
def explainKinds (bindings : List (KindVar × Kind)) :
    Unsolved Kind KindVar (Sited KindOrigin) → Sited KindError
  | ⟨⟨site, _⟩, .occursCheck var kind⟩ => ⟨site, .infiniteKind var kind⟩
  | ⟨⟨site, .application constructor head applied⟩, .mismatch _ _⟩ =>
    ⟨site, .arityMismatch constructor (applyBindings bindings head)
      (applyBindings bindings applied)⟩
  | ⟨⟨site, origin⟩, .mismatch left right⟩ =>
    ⟨site, .kindMismatch right left origin.describe⟩

/-- Solve the equations collected. The outcome says what each kind of the walk turns out to be. -/
def Kinding.settle (s : Kinding) : Except (Sited KindError) (Kind → Kind) :=
  let solution := solve s.equations
  match solution.failure with
  | some unsolved => .error (explainKinds solution.bindings unsolved)
  | none => .ok fun kind => (applyBindings solution.bindings kind).close

end LetPoly
