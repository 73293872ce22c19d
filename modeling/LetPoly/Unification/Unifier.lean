import LetPoly.Unification.Solve
import LetPoly.Unification.Store

/-!
# Unifiers

A `Unifier` holds live terms and a queue of equations. Solving carries every binding out in the
live terms, so that reading a handle always gives the current solution of its term.
-/

namespace LetPoly

open Term

/-- Live terms, equations to be solved, and the bindings made so far, in order. -/
structure Unifier (T V O : Type) where
  live : Store T
  queue : List (Equation T O)
  solved : List (V × T)

namespace Unifier

variable {T V O : Type}

/-- The unifier without terms and equations. -/
def empty : Unifier T V O := ⟨.empty, [], []⟩

/-- Keep a term live, so that solutions reach it. -/
def track (u : Unifier T V O) (term : T) : Unifier T V O × Handle :=
  let (live, h) := u.live.insert term
  ({ u with live }, h)

/-- The number of live terms. -/
def tracked (u : Unifier T V O) : Nat := u.live.size

/-- The current value of a live term; none once it is released. -/
def term? (u : Unifier T V O) (h : Handle) : Option T := u.live.get? h

/-- Put another term in the place of a live one. -/
def replace (u : Unifier T V O) (h : Handle) (term : T) : Unifier T V O :=
  { u with live := u.live.replace h term }

/-- Let a live term go and give its current value. -/
def release (u : Unifier T V O) (h : Handle) : Unifier T V O × Option T :=
  let (live, term) := u.live.release h
  ({ u with live }, term)

/-- Put an equation at the end of the queue. -/
def equate (u : Unifier T V O) (left right : T) (origin : O) : Unifier T V O :=
  { u with queue := u.queue ++ [⟨left, right, origin⟩] }

variable [Term T V] [DecidableEq V]

/-- Work off the queue and carry its bindings out in the live terms. After a failure, the
bindings made before it stay and what is left of the queue is dropped. -/
def solve [BEq T] [LawfulTerm T V] (u : Unifier T V O) :
    Unifier T V O × Option (Unsolved T V O) :=
  let solution := LetPoly.solve u.queue
  ({ live := u.live.map (applyBindings solution.bindings)
     queue := []
     solved := u.solved ++ solution.bindings }, solution.failure)

/-- The variables that are free in live terms, in order of first occurrence. -/
def unresolved (u : Unifier T V O) : List V := (u.live.terms.flatMap vars).eraseDups

/-- Put `t` for `v` in the live terms and the queue. -/
def resolve (u : Unifier T V O) (v : V) (t : T) : Unifier T V O where
  live := u.live.map (assign v t)
  queue := assignQueue v t u.queue
  solved := u.solved ++ [(v, t)]

/-- Give every variable that is unresolved now its default, one after the other. -/
def defaultUnresolved (u : Unifier T V O) (default : V → T) : Unifier T V O :=
  u.unresolved.foldl (fun u v => u.resolve v (default v)) u

end Unifier

end LetPoly
