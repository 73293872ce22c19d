import LetPoly.Kind.Basic
import LetPoly.Names

/-!
# Types

Types are built from named constructors and variables by application and quantification. Each
constructor and each variable carries a `KindSlot`, empty at first, in which kind inference records
its kind; equality of types (`==`) does not look at the slots.

`Ty.apply` builds normal applications, which have arguments and whose head is no application
itself. Every operation below is also defined on the others.
-/

namespace LetPoly

/-- The place for the kind of a constructor or variable, filled at most once. -/
abbrev KindSlot := Option Kind

namespace KindSlot

/-- Record a kind. A slot that is filled keeps its kind and hands the new one back. -/
def assign (slot : KindSlot) (kind : Kind) : KindSlot × Option Kind :=
  match slot with
  | none => (some kind, none)
  | some old => (some old, some kind)

end KindSlot

/-- Whether a type variable may be solved. -/
inductive VarSort where
  /-- Written by the user, or standing for such a variable: equal to itself only. -/
  | rigid
  /-- Introduced by inference, to be solved by unification. -/
  | solvable
  deriving DecidableEq

/-- Types. -/
inductive Ty where
  | con (name : String) (kind : KindSlot)
  | var (name : String) (sort : VarSort) (kind : KindSlot)
  | app (head : Ty) (args : List Ty)
  | scheme (vars : NameSet) (body : Ty)

namespace Ty

/-- The name of the function type constructor. -/
def arrowName : String := "->"

/-- A constructor whose kind is known. -/
def builtin (name : String) (kind : Kind) : Ty := .con name (some kind)

/-- The type of integers. -/
def int : Ty := builtin "Int" .atomic

/-- The type of floating-point numbers. -/
def float : Ty := builtin "Float" .atomic

/-- The type of texts. -/
def string : Ty := builtin "String" .atomic

/-- The type of the one value without content. -/
def unit : Ty := builtin "Unit" .atomic

/-- The type of truth values. -/
def bool : Ty := builtin "Bool" .atomic

/-- The name of the solvable variable of number `id`. The apostrophe in front sets it apart from the
letter names. -/
def freshName (id : Nat) : String := "'t" ++ toString id

/-- The solvable variable of number `id`. -/
def fresh (id : Nat) : Ty := .var (freshName id) .solvable none

/-- The name of the rigid variable that stands for `name` in the annotation of number `id`. -/
def skolemName (name : String) (id : Nat) : String := name ++ "'" ++ toString id

/-- The rigid variable that stands for `name` in the annotation of number `id`. -/
def skolem (name : String) (id : Nat) : Ty := .var (skolemName name id) .rigid none

/-- A rigid variable of unknown kind. -/
def rigid (name : String) : Ty := .var name .rigid none

/-- Apply a type to arguments. Without arguments it stays as it is, and an application takes the
new arguments after its own. -/
def apply (head : Ty) (args : List Ty) : Ty :=
  match args, head with
  | [], head => head
  | args, .app head first => .app head (first ++ args)
  | args, head => .app head args

/-- The type of functions from `a` to `b`. -/
def arrow (a b : Ty) : Ty := .app (builtin arrowName (.ofArity 2)) [a, b]

/-- The type of functions of several parameters, curried. -/
def function (params : List Ty) (result : Ty) : Ty := params.foldr arrow result

/-- Quantify a type over the names of a list. -/
def quantified (names : List String) (body : Ty) : Ty := .scheme (.ofList names) body

/-- Whether the type is the function type constructor. -/
def isArrowConstructor : Ty → Bool
  | .con name _ => name == arrowName
  | _ => false

/-- Whether the type is a quantified one. -/
def isScheme : Ty → Bool
  | .scheme _ _ => true
  | _ => false

/-- The domain and codomain of a function type. -/
def arrow? : Ty → Option (Ty × Ty)
  | .app head [a, b] => if head.isArrowConstructor then some (a, b) else none
  | _ => none

/-- The name of a constructor or variable, or of the head of an application. -/
def headName? : Ty → Option String
  | .con name _ => some name
  | .var name _ _ => some name
  | .app head _ => head.headName?
  | .scheme _ _ => none

/-- The kind slot of a constructor or variable. -/
def slot : Ty → KindSlot
  | .con _ kind => kind
  | .var _ _ kind => kind
  | .app _ _ | .scheme _ _ => none

/-- The number of arguments that a function type takes one after the other. -/
def arity : Ty → Nat
  | .app head [_, b] => if head.isArrowConstructor then b.arity + 1 else 0
  | _ => 0

mutual
/-- Equality of types but for their kind slots. The order in which a scheme lists its variables
does not count either. -/
def same : Ty → Ty → Bool
  | .con a _, .con b _ => a == b
  | .var a s _, .var b t _ => a == b && s == t
  | .app f as, .app g bs => same f g && sameList as bs
  | .scheme vs a, .scheme ws b => vs.same ws && same a b
  | _, _ => false

/-- Equality of lists of types but for their kind slots. -/
def sameList : List Ty → List Ty → Bool
  | [], [] => true
  | a :: as, b :: bs => same a b && sameList as bs
  | _, _ => false
end

instance : BEq Ty := ⟨same⟩

mutual
/-- The free variables in order of occurrence, with repetitions. -/
def occurrences : Ty → List String
  | .con _ _ => []
  | .var name _ _ => [name]
  | .app head args => head.occurrences ++ occurrencesList args
  | .scheme vars body => body.occurrences.filter (· ∉ vars)

/-- The free variables of a list of types in order of occurrence, with repetitions. -/
def occurrencesList : List Ty → List String
  | [] => []
  | a :: args => a.occurrences ++ occurrencesList args
end

/-- The free variables in order of first occurrence. -/
def freeVars (t : Ty) : NameSet := .ofList t.occurrences

mutual
/-- The free solvable variables in order of occurrence, with repetitions. -/
def unknowns : Ty → List String
  | .con _ _ => []
  | .var name .solvable _ => [name]
  | .var _ .rigid _ => []
  | .app head args => head.unknowns ++ unknownsList args
  | .scheme vars body => body.unknowns.filter (· ∉ vars)

/-- The free solvable variables of a list of types in order of occurrence, with repetitions. -/
def unknownsList : List Ty → List String
  | [] => []
  | a :: args => a.unknowns ++ unknownsList args
end

mutual
/-- Put types for free variables, solvable or rigid, all at once. Names that a scheme binds stay;
a free name of a type put under a scheme may be caught by it. -/
def substAll (σ : String → Option Ty) : Ty → Ty
  | .con name kind => .con name kind
  | .var name sort kind => (σ name).getD (.var name sort kind)
  | .app head args => apply (substAll σ head) (substAllList σ args)
  | .scheme vars body => .scheme vars (substAll (fun x => if x ∈ vars then none else σ x) body)

/-- Put types for free variables in each type of a list. -/
def substAllList (σ : String → Option Ty) : List Ty → List Ty
  | [] => []
  | a :: args => substAll σ a :: substAllList σ args
end

mutual
/-- Put `t` for the free occurrences of the solvable variable `v`. -/
def subst (v : String) (t : Ty) : Ty → Ty
  | .con name kind => .con name kind
  | .var name .solvable kind => if name = v then t else .var name .solvable kind
  | .var name .rigid kind => .var name .rigid kind
  | .app head args => apply (subst v t head) (substList v t args)
  | .scheme vars body => if v ∈ vars then .scheme vars body else .scheme vars (subst v t body)

/-- Put `t` for the free occurrences of the solvable variable `v` in each type of a list. -/
def substList (v : String) (t : Ty) : List Ty → List Ty
  | [] => []
  | a :: args => subst v t a :: substList v t args
end

mutual
/-- Record kinds in the empty slots, from left to right, as long as there are kinds. Gives the
kinds that are left over as well. -/
def fill : Ty → List Kind → Ty × List Kind
  | .con name none, k :: ks => (.con name (some k), ks)
  | .con name kind, ks => (.con name kind, ks)
  | .var name sort none, k :: ks => (.var name sort (some k), ks)
  | .var name sort kind, ks => (.var name sort kind, ks)
  | .app head args, ks =>
    let (head, ks) := head.fill ks
    let (args, ks) := fillList args ks
    (.app head args, ks)
  | .scheme vars body, ks =>
    let (body, ks) := body.fill ks
    (.scheme vars body, ks)

/-- Record kinds in the empty slots of a list of types, from left to right. -/
def fillList : List Ty → List Kind → List Ty × List Kind
  | [], ks => ([], ks)
  | a :: args, ks =>
    let (a, ks) := a.fill ks
    let (args, ks) := fillList args ks
    (a :: args, ks)
end

/-- The written form of an application from those of its head and its arguments. -/
def renderApp (head : String) (args : List String) : String :=
  head ++ "(" ++ ", ".intercalate args ++ ")"

mutual
/-- The written form of a type. Arrows stand between domain and codomain, the domain in parentheses
if it is a function type or a quantified one and the codomain if it is a quantified one; the
arguments of other applications follow their head in parentheses. -/
def render : Ty → String
  | .con name _ => name
  | .var name _ _ => name
  | .app head args =>
    match args with
    | [a, b] =>
      if head.isArrowConstructor then
        Kind.parenthesize (a.arrow?.isSome || a.isScheme) a.render ++ " -> " ++
          Kind.parenthesize b.isScheme b.render
      else renderApp head.render [a.render, b.render]
    | args => renderApp head.render (renderList args)
  | .scheme vars body =>
    if vars.isEmpty then body.render
    else "forall" ++ String.join (vars.names.map (" " ++ ·)) ++ ". " ++ body.render

/-- The written forms of a list of types. -/
def renderList : List Ty → List String
  | [] => []
  | a :: args => a.render :: renderList args
end

instance : ToString Ty := ⟨render⟩

end Ty

end LetPoly
