/-!
# Kinds

Kinds classify type constructors: `*` is the kind of the types that have values, and
`k₁ -> ... -> kₙ -> r` the kind of a constructor that takes `n` arguments to a type of kind
`r`. A function kind is kept flat, as the chain of its arguments followed by its result.

`Kind.function` builds normal chains: the result is not itself a chain, and a chain has at
least two links. Every operation below is also defined on the chains that are not normal.
-/

namespace LetPoly

/-- A variable that stands for an unknown kind. -/
structure KindVar where
  id : Nat
  deriving DecidableEq

/-- Kinds: `*`, an unknown, or a chain of arguments with the result at its end. -/
inductive Kind where
  | atomic
  | var (v : KindVar)
  | chain (links : List Kind)

namespace Kind

mutual
/-- Decides whether two kinds are written alike. -/
def decEq : (a b : Kind) → Decidable (a = b)
  | .atomic, .atomic => .isTrue rfl
  | .var v, .var w =>
    if h : v = w then .isTrue (h ▸ rfl) else .isFalse fun e => h (Kind.var.inj e)
  | .chain as, .chain bs =>
    match decEqList as bs with
    | .isTrue h => .isTrue (h ▸ rfl)
    | .isFalse h => .isFalse fun e => h (Kind.chain.inj e)
  | .atomic, .var _ | .atomic, .chain _ | .var _, .atomic | .var _, .chain _
  | .chain _, .atomic | .chain _, .var _ => .isFalse nofun

/-- Decides whether two lists of kinds are written alike. -/
def decEqList : (as bs : List Kind) → Decidable (as = bs)
  | [], [] => .isTrue rfl
  | a :: as, b :: bs =>
    match decEq a b, decEqList as bs with
    | .isTrue h, .isTrue hs => .isTrue (h ▸ hs ▸ rfl)
    | .isFalse h, _ => .isFalse fun e => h (List.cons.inj e).1
    | _, .isFalse hs => .isFalse fun e => hs (List.cons.inj e).2
  | [], _ :: _ | _ :: _, [] => .isFalse nofun
end

instance : DecidableEq Kind := decEq

/-- Whether the kind is a chain. -/
def isChain : Kind → Bool
  | .chain _ => true
  | _ => false

/-- Replace a chain at the end of `links` by its own links, one level deep. -/
def unnest : List Kind → List Kind
  | [] => []
  | [.chain tail] => tail
  | k :: links => k :: unnest links

/-- The kind with the given arguments and, at the end, the given result. A result that is a
chain lends its links to the new one, a single link stands for itself, and no link at all
is `*`. -/
def function (links : List Kind) : Kind :=
  match unnest links with
  | [] => .atomic
  | [k] => k
  | links => .chain links

/-- The kind of a constructor from `a` to `b`. -/
def arrow (a b : Kind) : Kind := function [a, b]

/-- The kind of a constructor of `n` arguments, all of them and the result of kind `*`. -/
def ofArity (n : Nat) : Kind := function (List.replicate (n + 1) .atomic)

/-- The first argument of a function kind. -/
def left? : Kind → Option Kind
  | .chain (k :: _) => some k
  | _ => none

/-- What is left of a function kind once its first argument is supplied. -/
def right? : Kind → Option Kind
  | .chain (_ :: k :: links) => some (function (k :: links))
  | _ => none

mutual
/-- The variables of a kind in order of occurrence, with repetitions. -/
def vars : Kind → List KindVar
  | .atomic => []
  | .var v => [v]
  | .chain links => varsList links

/-- The variables of a list of kinds in order of occurrence, with repetitions. -/
def varsList : List Kind → List KindVar
  | [] => []
  | k :: links => k.vars ++ varsList links
end

mutual
/-- Put `t` for the variable `v`. Chains are built up again by `function`. -/
def subst (v : KindVar) (t : Kind) : Kind → Kind
  | .atomic => .atomic
  | .var w => if w = v then t else .var w
  | .chain links => function (substList v t links)

/-- Put `t` for the variable `v` in each kind of a list. -/
def substList (v : KindVar) (t : Kind) : List Kind → List Kind
  | [] => []
  | k :: links => subst v t k :: substList v t links
end

/-- The equations between parts that two kinds of one shape give rise to: first arguments
and what follows them. None if the shapes differ. -/
def decompose : Kind → Kind → Option (List (Kind × Kind))
  | .atomic, .atomic => some []
  | .chain as, .chain bs => do
    let left ← (chain as).left?
    let left' ← (chain bs).left?
    let right ← (chain as).right?
    let right' ← (chain bs).right?
    return [(left, left'), (right, right')]
  | _, _ => none

/-- Put `text` in parentheses if `wrapped`. -/
def parenthesize (wrapped : Bool) (text : String) : String :=
  if wrapped then "(" ++ text ++ ")" else text

mutual
/-- The written form of a kind: `*`, `?k` with the number of a variable, or the links of a
chain with arrows between them, those that are chains in parentheses. -/
def render : Kind → String
  | .atomic => "*"
  | .var v => "?k" ++ toString v.id
  | .chain links => " -> ".intercalate (renderLinks links)

/-- The written forms of the links of a chain. -/
def renderLinks : List Kind → List String
  | [] => []
  | k :: links => parenthesize k.isChain k.render :: renderLinks links
end

end Kind

/-- The written form of a kind variable. -/
def KindVar.render (v : KindVar) : String := (Kind.var v).render

instance : ToString Kind := ⟨Kind.render⟩

instance : ToString KindVar := ⟨KindVar.render⟩

end LetPoly
