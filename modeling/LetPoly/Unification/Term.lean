/-!
# Term algebras

Kinds and types are solved by one unification procedure. `Term T V` gives what it needs to know
of terms `T` with solvable variables `V`; `LawfulTerm` states the laws that make it stop.

Equality of terms is the relation `==` of the algebra. It may be coarser than identity: two types
are equal when they differ in recorded kinds only.
-/

namespace LetPoly

/-- An algebra of terms `T` over solvable variables `V`. -/
class Term (T : Type) (V : outParam Type) where
  /-- The variable that the term consists of, if it is one. -/
  var? : T → Option V
  /-- The free variables in order of occurrence, with repetitions. -/
  vars : T → List V
  /-- `subst v t s` puts `t` for the free occurrences of `v` in `s`. -/
  subst : V → T → T → T
  /-- The equations between parts that two terms of one shape amount to; none if their shapes
  differ. -/
  decompose : T → T → Option (List (T × T))
  /-- The weight of a term, which decomposition lowers. -/
  weight : T → Nat

/-- The weight of both terms of all pairs. -/
def Term.pairsWeight {T V : Type} [Term T V] : List (T × T) → Nat
  | [] => 0
  | (a, b) :: pairs => weight a + weight b + pairsWeight pairs

/-- The laws on which the unification of terms rests. -/
class LawfulTerm (T : Type) (V : outParam Type) [Term T V] : Prop where
  /-- A term that is a variable has that variable free. -/
  mem_vars_of_var? {t : T} {v : V} : Term.var? t = some v → v ∈ Term.vars t
  /-- A substitution removes its variable and brings in those of the term put in its place. -/
  mem_vars_subst {v w : V} {t s : T} : w ∈ Term.vars (Term.subst v t s) →
    (w ∈ Term.vars s ∧ w ≠ v) ∨ w ∈ Term.vars t
  /-- Parts have no variables of their own. -/
  vars_decompose {a b : T} {pairs : List (T × T)} : Term.decompose a b = some pairs →
    ∀ p ∈ pairs, Term.vars p.1 ⊆ Term.vars a ∧ Term.vars p.2 ⊆ Term.vars b
  /-- All parts together weigh less than the two terms. -/
  weight_decompose {a b : T} {pairs : List (T × T)} : Term.decompose a b = some pairs →
    Term.pairsWeight pairs < Term.weight a + Term.weight b
  /-- No term is weightless. -/
  weight_pos (t : T) : 0 < Term.weight t

namespace Term

variable {T V : Type} [Term T V] [DecidableEq V]

/-- Whether `v` is free in a term. -/
def occurs (v : V) (t : T) : Bool := v ∈ vars t

/-- Put `t` for `v` in a term. A term without `v` is left as it stands. -/
def assign (v : V) (t s : T) : T := if occurs v s then subst v t s else s

theorem mem_vars_assign [LawfulTerm T V] {v w : V} {t s : T} (h : w ∈ vars (assign v t s)) :
    (w ∈ vars s ∧ w ≠ v) ∨ w ∈ vars t := by
  unfold assign at h
  split at h
  · exact LawfulTerm.mem_vars_subst h
  · rename_i hs
    exact .inl ⟨h, fun e => hs (by simpa [occurs] using e ▸ h)⟩

end Term

end LetPoly
