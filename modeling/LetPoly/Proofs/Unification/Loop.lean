import LetPoly.Kind.Unify
import LetPoly.Ty.Unify
import LetPoly.Proofs.Unification.Store
import LetPoly.Unification.Unifier
import Mathlib.Logic.Relation
import Mathlib.Order.WellFounded

/-!
# The driving loop

A unifier is solved in rounds (`Unifier.Round`). A round takes the first equation off the queue: it
drops the equation, carries a binding out in the live terms and in the equations that wait, or puts
the parts of the equation in its place. The loop ends at an empty queue or at an equation that has
no solution (`Unifier.Ends`).

A round leaves a smaller queue, by the number of its variables first and by its weight then. This
asks nothing of the terms: chains of kinds may be empty, single or nested, applications may be
without arguments or headed by applications, and quantifiers may bind the names of solvable
variables. So no run of the loop goes on forever, and all runs end with the outcome of
`Unifier.solve` (`Unifier.solve_halts`).
-/

namespace LetPoly

open Term

namespace Unifier

variable {T V O : Type} [Term T V] [BEq T] [DecidableEq V]

/-- One round of the loop: the first equation is taken off the queue, and what it asks for is
done. -/
inductive Round : Unifier T V O → Unifier T V O → Prop
  | drop {live : Store T} {e : Equation T O} {rest : List (Equation T O)} {solved : List (V × T)} :
    e.step = .ok .drop → Round ⟨live, e :: rest, solved⟩ ⟨live, rest, solved⟩
  | bind {live : Store T} {e : Equation T O} {rest : List (Equation T O)} {solved : List (V × T)}
    {v : V} {t : T} :
    e.step = .ok (.bind v t) → Round ⟨live, e :: rest, solved⟩ (resolve ⟨live, rest, solved⟩ v t)
  | split {live : Store T} {e : Equation T O} {rest : List (Equation T O)} {solved : List (V × T)}
    {pairs : List (T × T)} :
    e.step = .ok (.split pairs) →
      Round ⟨live, e :: rest, solved⟩ ⟨live, pairs.map e.part ++ rest, solved⟩

/-- The loop has come to its end, with success at an empty queue or with a failure at the first
equation. A failure drops what is left of the queue. -/
inductive Ends : Unifier T V O → Unifier T V O × Option (Unsolved T V O) → Prop
  | solved {live : Store T} {solved : List (V × T)} :
    Ends ⟨live, [], solved⟩ (⟨live, [], solved⟩, none)
  | failed {live : Store T} {e : Equation T O} {rest : List (Equation T O)} {solved : List (V × T)}
    {error : UnifyError T V} :
    e.step = .error error →
      Ends ⟨live, e :: rest, solved⟩ (⟨live, [], solved⟩, some ⟨e.origin, error⟩)

/-- What makes a queue smaller: fewer variables, or no more of them and less weight. -/
def queueSize (u : Unifier T V O) : Nat × Nat := (distinct (queueVars u.queue), queueWeight u.queue)

variable [LawfulTerm T V] {u u' last : Unifier T V O}

/-- Every round leaves a smaller queue. -/
lemma Round.descends (h : Round u u') :
    Prod.Lex (· < ·) (· < ·) u'.queueSize u.queueSize := by
  cases h with
  | drop _ => exact drop_descends
  | bind hstep => exact bind_descends hstep
  | split hstep => exact split_descends hstep

/-- The rounds of any runs are well founded. -/
lemma wellFounded_round : WellFounded fun u' u : Unifier T V O => Round u u' :=
  Subrelation.wf Round.descends
    (InvImage.wf queueSize (Prod.lex ⟨_, wellFounded_lt⟩ ⟨_, wellFounded_lt⟩).wf)

/-- A round does not change what the unifier is solved to. -/
lemma Round.solve_eq (h : Round u u') : u'.solve = u.solve := by
  cases h with
  | drop hstep => simp only [solve, solve_cons, hstep]
  | split hstep => simp only [solve, solve_cons, hstep]
  | bind hstep =>
    simp only [solve, solve_cons, hstep, resolve, Solution.after, Store.map_map, List.append_assoc]
    rfl

/-- Where no round is possible, the loop has come to the outcome of solving. -/
lemma exists_round_or_ends (u : Unifier T V O) : (∃ u', Round u u') ∨ Ends u u.solve := by
  have hid : applyBindings ([] : List (V × T)) = id := rfl
  obtain ⟨live, queue, solved⟩ := u
  cases queue with
  | nil =>
    have hsolve : solve (⟨live, [], solved⟩ : Unifier T V O) = (⟨live, [], solved⟩, none) := by
      simp [solve, LetPoly.solve, hid, Store.map_id]
    exact .inr (hsolve ▸ .solved)
  | cons e rest =>
    cases hstep : e.step with
    | ok step =>
      cases step with
      | drop => exact .inl ⟨_, .drop hstep⟩
      | bind v t => exact .inl ⟨_, .bind hstep⟩
      | split pairs => exact .inl ⟨_, .split hstep⟩
    | error error =>
      have hsolve : solve (⟨live, e :: rest, solved⟩ : Unifier T V O) =
          (⟨live, [], solved⟩, some ⟨e.origin, error⟩) := by
        simp [solve, solve_cons, hstep, hid, Store.map_id]
      exact .inr (hsolve ▸ .failed hstep)

/-- Along a run of the loop the outcome of solving stays the same. -/
lemma solve_eq_of_rounds (h : Relation.ReflTransGen Round u last) : last.solve = u.solve := by
  induction h with
  | refl => rfl
  | tail _ hround ih => rw [hround.solve_eq, ih]

/-- The loop comes to an end: no run of it goes on forever, some run ends with the outcome of
solving, and a run that has not come to this end can go on. -/
structure Halts (u : Unifier T V O) : Prop where
  finite : ¬ ∃ states : Nat → Unifier T V O,
    states 0 = u ∧ ∀ n, Round (states n) (states (n + 1))
  ends : ∃ last, Relation.ReflTransGen Round u last ∧ Ends last u.solve
  progress {last : Unifier T V O} : Relation.ReflTransGen Round u last →
    (∃ next, Round last next) ∨ Ends last u.solve

lemma exists_ends (u : Unifier T V O) :
    ∃ last, Relation.ReflTransGen Round u last ∧ Ends last u.solve := by
  refine wellFounded_round.induction (C := fun u : Unifier T V O =>
    ∃ last, Relation.ReflTransGen Round u last ∧ Ends last u.solve) u fun u ih => ?_
  rcases u.exists_round_or_ends with ⟨u', hround⟩ | hends
  · obtain ⟨last, hrun, hends⟩ := ih u' hround
    exact ⟨last, .head hround hrun, hround.solve_eq ▸ hends⟩
  · exact ⟨u, .refl, hends⟩

lemma halts (u : Unifier T V O) : Halts u where
  finite := by
    rintro ⟨states, -, hround⟩
    obtain ⟨n, hn⟩ :=
      @WellFounded.not_rel_apply_succ _ _ ⟨wellFounded_round (T := T) (V := V) (O := O)⟩ states
    exact hn (hround n)
  ends := u.exists_ends
  progress := by
    intro last hrun
    rw [← solve_eq_of_rounds hrun]
    exact last.exists_round_or_ends

/-- Solving comes to an end on all unifiers, over kinds and over types of any shape. -/
theorem solve_halts :
    (∀ (O : Type) (u : Unifier Kind KindVar O), u.Halts) ∧
      ∀ (O : Type) (u : Unifier Ty String O), u.Halts :=
  ⟨fun _ u => u.halts, fun _ u => u.halts⟩

end Unifier

end LetPoly
