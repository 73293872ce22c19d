import LetPoly.Ty.Basic
import Mathlib.Tactic.Lemma

/-!
# Quantified types inside a type

`Ty.allSchemes p` says that all quantified types inside a type satisfy `p`, at any depth.
-/

namespace LetPoly

namespace Ty

mutual
/-- Whether every quantified type inside a type satisfies `p`. -/
def allSchemes (p : NameSet → Ty → Bool) : Ty → Bool
  | .con _ _ => true
  | .var _ _ _ => true
  | .app head args => head.allSchemes p && allSchemesList p args
  | .scheme vars body => p vars body && body.allSchemes p

/-- Whether every quantified type inside the types of a list satisfies `p`. -/
def allSchemesList (p : NameSet → Ty → Bool) : List Ty → Bool
  | [] => true
  | a :: args => a.allSchemes p && allSchemesList p args
end

/-- Whether a quantified type has no free variable. -/
def closedScheme (vars : NameSet) (body : Ty) : Bool := body.occurrences.all (· ∈ vars)

variable {p : NameSet → Ty → Bool}

lemma allSchemes_app {head : Ty} {args : List Ty} :
    (Ty.app head args).allSchemes p ↔ head.allSchemes p ∧ allSchemesList p args := by
  rw [allSchemes, Bool.and_eq_true]

lemma allSchemes_scheme {vars : NameSet} {body : Ty} :
    (Ty.scheme vars body).allSchemes p ↔ p vars body ∧ body.allSchemes p := by
  rw [allSchemes, Bool.and_eq_true]

lemma allSchemesList_cons {a : Ty} {args : List Ty} :
    allSchemesList p (a :: args) ↔ a.allSchemes p ∧ allSchemesList p args := by
  rw [allSchemesList, Bool.and_eq_true]

mutual
lemma allSchemes_imp {q : NameSet → Ty → Bool} (hpq : ∀ vars body, p vars body → q vars body) :
    (t : Ty) → t.allSchemes p → t.allSchemes q
  | .con _ _, _ => rfl
  | .var _ _ _, _ => rfl
  | .app head args, h => allSchemes_app.2
    ⟨allSchemes_imp hpq head (allSchemes_app.1 h).1, allSchemesList_imp hpq args (allSchemes_app.1 h).2⟩
  | .scheme vars body, h => allSchemes_scheme.2
    ⟨hpq vars body (allSchemes_scheme.1 h).1, allSchemes_imp hpq body (allSchemes_scheme.1 h).2⟩

lemma allSchemesList_imp {q : NameSet → Ty → Bool} (hpq : ∀ vars body, p vars body → q vars body) :
    (args : List Ty) → allSchemesList p args → allSchemesList q args
  | [], _ => rfl
  | a :: args, h => allSchemesList_cons.2
    ⟨allSchemes_imp hpq a (allSchemesList_cons.1 h).1,
      allSchemesList_imp hpq args (allSchemesList_cons.1 h).2⟩
end

mutual
lemma allSchemes_of_forall (hp : ∀ vars body, p vars body) : (t : Ty) → t.allSchemes p
  | .con _ _ => rfl
  | .var _ _ _ => rfl
  | .app head args =>
    allSchemes_app.2 ⟨allSchemes_of_forall hp head, allSchemesList_of_forall hp args⟩
  | .scheme vars body => allSchemes_scheme.2 ⟨hp vars body, allSchemes_of_forall hp body⟩

lemma allSchemesList_of_forall (hp : ∀ vars body, p vars body) :
    (args : List Ty) → allSchemesList p args
  | [] => rfl
  | a :: args =>
    allSchemesList_cons.2 ⟨allSchemes_of_forall hp a, allSchemesList_of_forall hp args⟩
end

lemma closedScheme_iff {vars : NameSet} {body : Ty} :
    closedScheme vars body ↔ ∀ x ∈ body.occurrences, x ∈ vars := by
  simp [closedScheme]

end Ty

end LetPoly
