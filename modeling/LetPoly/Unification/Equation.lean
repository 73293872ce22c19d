import LetPoly.Unification.Term

/-!
# Equations between terms

An `Equation` asks two terms to become equal and remembers its origin, the construct that gave
rise to it. `Equation.step` says what has to be done about one equation: nothing, bind a variable,
go on to the parts, or fail with a `UnifyError`.
-/

namespace LetPoly

open Term

/-- The demand that two terms become equal, with what gave rise to it. -/
structure Equation (T O : Type) where
  left : T
  right : T
  origin : O

/-- Why an equation has no solution. -/
inductive UnifyError (T V : Type) where
  /-- The two terms are of different shapes. -/
  | mismatch (left right : T)
  /-- The variable stands inside the term that it would have to equal. -/
  | occursCheck (var : V) (term : T)

/-- The wording of a unification error. -/
def UnifyError.message {T V : Type} [ToString T] [ToString V] : UnifyError T V → String
  | .mismatch left right => "cannot unify " ++ toString left ++ " with " ++ toString right
  | .occursCheck var term =>
    "occurs check: cannot construct infinite term " ++ toString var ++ " = " ++ toString term

/-- An equation that could not be solved: its origin and the reason. -/
structure Unsolved (T V O : Type) where
  origin : O
  error : UnifyError T V

/-- What an equation asks for. -/
inductive Step (T V : Type) where
  /-- The two sides are equal. -/
  | drop
  /-- A variable has to take a term as its value. -/
  | bind (var : V) (term : T)
  /-- The parts of the two sides have to be equal. -/
  | split (pairs : List (T × T))

variable {T V O : Type} [Term T V]

/-- Bind a variable to a term that does not contain it. -/
def Step.bind? [DecidableEq V] (v : V) (t : T) : Except (UnifyError T V) (Step T V) :=
  if occurs v t then .error (.occursCheck v t) else .ok (.bind v t)

namespace Equation

/-- What the equation asks for. Of two variables the left one is bound. -/
def step [BEq T] [DecidableEq V] (e : Equation T O) : Except (UnifyError T V) (Step T V) :=
  if e.left == e.right then .ok .drop
  else
    match var? e.left, var? e.right with
    | some v, _ => Step.bind? v e.right
    | none, some v => Step.bind? v e.left
    | none, none =>
      match decompose e.left e.right with
      | some pairs => .ok (.split pairs)
      | none => .error (.mismatch e.left e.right)

/-- The equation between two parts, of the same origin as the whole. -/
def part (e : Equation T O) (p : T × T) : Equation T O := ⟨p.1, p.2, e.origin⟩

/-- Put `t` for `v` on both sides. -/
def assign [DecidableEq V] (v : V) (t : T) (e : Equation T O) : Equation T O :=
  { e with left := Term.assign v t e.left, right := Term.assign v t e.right }

/-- The variables of both sides. -/
def vars (e : Equation T O) : List V := Term.vars e.left ++ Term.vars e.right

/-- The weight of both sides. -/
def weight (e : Equation T O) : Nat := Term.weight e.left + Term.weight e.right

section Laws

variable [BEq T] [DecidableEq V] [LawfulTerm T V] {e : Equation T O}

/-- A variable that is bound stands in the equation and not in its value, and the value is made
of the equation's variables. -/
theorem step_bind {v : V} {t : T} (h : e.step = .ok (.bind v t)) :
    v ∈ e.vars ∧ v ∉ Term.vars t ∧ Term.vars t ⊆ e.vars := by
  unfold step at h
  split at h
  · cases h
  · split at h
    · rename_i w hw
      simp only [Step.bind?, occurs, decide_eq_true_eq] at h
      split at h <;> cases h
      exact ⟨List.mem_append_left _ (LawfulTerm.mem_vars_of_var? hw), ‹_›,
        List.subset_append_right _ _⟩
    · rename_i w _ hw
      simp only [Step.bind?, occurs, decide_eq_true_eq] at h
      split at h <;> cases h
      exact ⟨List.mem_append_right _ (LawfulTerm.mem_vars_of_var? hw), ‹_›,
        List.subset_append_left _ _⟩
    · split at h <;> cases h

omit [LawfulTerm T V] in
theorem decompose_of_step_split {pairs : List (T × T)} (h : e.step = .ok (.split pairs)) :
    decompose e.left e.right = some pairs := by
  unfold step at h
  split at h
  · cases h
  · split at h
    · unfold Step.bind? at h; split at h <;> cases h
    · unfold Step.bind? at h; split at h <;> cases h
    · split at h <;> cases h
      assumption

omit [BEq T] in
/-- After an assignment the variable is gone and no foreign one has come in. -/
theorem mem_vars_assign {v w : V} {t : T} (h : w ∈ (e.assign v t).vars) :
    (w ∈ e.vars ∧ w ≠ v) ∨ w ∈ Term.vars t := by
  rcases List.mem_append.1 h with h | h
  · exact (Term.mem_vars_assign h).imp_left fun h => ⟨List.mem_append_left _ h.1, h.2⟩
  · exact (Term.mem_vars_assign h).imp_left fun h => ⟨List.mem_append_right _ h.1, h.2⟩

omit [BEq T] [DecidableEq V] in
theorem weight_pos (e : Equation T O) : 0 < e.weight :=
  Nat.add_pos_left (LawfulTerm.weight_pos e.left) _

end Laws

end Equation

end LetPoly
