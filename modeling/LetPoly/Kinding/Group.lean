import LetPoly.Kinding.Record

/-!
# Kinds of ascriptions and of groups of datatypes

`checkAscription` makes sure that a type has kind `*`, and `recordGroup` finds the kinds of the type
constructors that a group of datatypes declares. All heads of a group are in scope in all of its
bodies, so the datatypes may refer to each other in any order.

Both come in two steps: a walk that finds the kinds (`inferAscription`, `inferGroup`), and after it
the kinds of the nodes whose slots are empty are recorded there.
-/

namespace LetPoly

open Kinding

/-- Make sure that an ascription has kind `*`, and give its nodes with empty slots. Variables count
as quantified. -/
def inferAscription (constructors : Scope Kind) (ty : Ty) : Except KindError (List Leaf) :=
  let ctx : KindContext := ⟨constructors, .introduce, none⟩
  let walk : KindM Unit := do
    let kind ← ty.kindConstraints ctx []
    equate ctx kind .atomic .ascription
  match walk .initial with
  | .error e _ => .error e.item
  | .ok _ s =>
    match s.settle with
    | .error e => .error e.item
    | .ok settled => .ok (s.leaves.map (.map settled))

/-- Make sure that an ascription has kind `*`, and record the kinds of its nodes in it. Gives the
kinds recorded, from left to right. -/
def checkAscription (constructors : Scope Kind) (ty : Ty) : Ty × Except KindError (List Kind) :=
  match inferAscription constructors ty with
  | .error e => (ty, .error e)
  | .ok leaves =>
    let (ty, outcome) := recordLeaves leaves ty
    (ty, outcome.map fun _ => leaves.map Leaf.kind)

/-- The name of the type constructor at the head of a datatype: the head is that constructor, or its
application. -/
def Datatype.declaredName? (d : Datatype) : Option String :=
  match d.head with
  | .con name _ => some name
  | .app (.con name _) _ => some name
  | _ => none

/-- The names of the parameters that are variables. -/
def Datatype.paramNames (d : Datatype) : List String :=
  d.params.filterMap fun
    | .var name _ _ => some name
    | _ => none

/-- Bring the heads of a group into scope, the first datatype being number `site`, and give their
names with their kinds. -/
def declareHeads : List Datatype → Nat → KindM (List (String × Kind))
  | [], _ => return []
  | d :: ds, site =>
    match d.declaredName? with
    | none => throw ⟨some site, .invalidHead d.head⟩
    | some name => do
      let kind ← fresh
      bring name kind
      let heads ← declareHeads ds (site + 1)
      return (name, kind) :: heads

/-- Collect the equations for types that have to have kind `*`. They are children of the node at
`place`, the first of them number `i`. -/
def demandAtomic (ctx : KindContext) (origin : KindOrigin) (place : Place) (i : Nat) :
    List Ty → KindM Unit
  | [] => return ()
  | ty :: types => do
    let kind ← ty.kindConstraints ctx (place ++ [i])
    equate ctx kind .atomic origin
    demandAtomic ctx origin place (i + 1) types

/-- Collect the equations for a datatype and give its nodes with empty slots. -/
def Datatype.kindConstraints (ctx : KindContext) (d : Datatype) : KindM (List Leaf) := do
  modify fun s => { s with leaves := [] }
  inChild do
    bringAll d.paramNames
    demandAtomic ctx (.declaration (d.name?.getD "")) [] 0 d.types
  return (← get).leaves

/-- Collect the equations for each datatype of a group, the first being number `site`. -/
def groupConstraints (base : Scope Kind) : List Datatype → Nat → KindM (List (List Leaf))
  | [], _ => return []
  | d :: ds, site => do
    let leaves ← d.kindConstraints ⟨base, .refuse, some site⟩
    let more ← groupConstraints base ds (site + 1)
    return leaves :: more

/-- What is found out about a group of datatypes. -/
structure GroupKinds where
  /-- The kinds of the constructors declared. -/
  declared : Table Kind
  /-- For each datatype, its nodes with empty slots. -/
  leaves : List (List Leaf)

namespace GroupKinds

/-- The kinds to be recorded in the datatypes of a group, from left to right. -/
def recorded (g : GroupKinds) : List Kind := g.leaves.flatten.map Leaf.kind

/-- The nodes with empty slots as nodes of a pool that has the datatypes at the given positions. -/
def placed (g : GroupKinds) (positions : List Nat) : List Leaf :=
  (positions.zip g.leaves).flatMap fun (i, leaves) => leaves.map (·.under i)

end GroupKinds

/-- Infer the kinds of a group of datatypes. -/
def inferGroup (base : Scope Kind) (group : List Datatype) :
    Except (Sited KindError) GroupKinds :=
  let walk : KindM (List (String × Kind) × List (List Leaf)) := do
    let heads ← declareHeads group 0
    let leaves ← groupConstraints base group 0
    return (heads, leaves)
  match walk .initial with
  | .error e _ => .error e
  | .ok (heads, leaves) s => do
    let settled ← s.settle
    return ⟨.ofList (heads.map fun (name, kind) => (name, settled kind)),
      leaves.map (·.map (.map settled))⟩

/-- Infer the kinds of the group whose members are the datatypes of a pool at the given positions,
and record them in the pool. A datatype that is listed again and has kinds to be recorded is
refused. -/
def recordGroup (base : Scope Kind) (pool : List Datatype) (members : List Nat) :
    List Datatype × Except (Sited KindError) GroupKinds :=
  match inferGroup base (members.filterMap (pool[·]?)) with
  | .error e => (pool, .error e)
  | .ok found =>
    match recordLeaves (found.placed (members.filter (· < pool.length))) pool with
    | (pool, .error e) => (pool, .error ⟨none, e⟩)
    | (pool, .ok ()) => (pool, .ok found)

/-- Infer the kinds of the group whose members are the datatypes of a pool at the given positions,
and record them in the pool. Gives the kinds of the constructors declared. -/
def inferKinds (base : Scope Kind) (pool : List Datatype) (members : List Nat) :
    List Datatype × Except KindError (Table Kind) :=
  match recordGroup base pool members with
  | (pool, .error e) => (pool, .error e.item)
  | (pool, .ok found) => (pool, .ok found.declared)

end LetPoly
