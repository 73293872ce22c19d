import Mathlib.Tactic.Lemma

/-!
# Runs of actions

What it means for an action with state and errors to succeed, put together from its parts.
-/

namespace LetPoly

variable {ε σ α β : Type}

lemma bind_eq_ok {x : EStateM ε σ α} {f : α → EStateM ε σ β} {s s'' : σ} {b : β} :
    (x >>= f) s = .ok b s'' ↔ ∃ a s', x s = .ok a s' ∧ f a s' = .ok b s'' := by
  show (match x s with | .ok a s => f a s | .error e s => .error e s) = _ ↔ _
  cases hx : x s with
  | ok a s' => exact ⟨fun h => ⟨a, s', rfl, h⟩, by rintro ⟨_, _, h, h'⟩; cases h; exact h'⟩
  | error e s' => exact ⟨fun h => (by cases h), by rintro ⟨_, _, h, _⟩; cases h⟩

lemma bind_of_ok {x : EStateM ε σ α} {f : α → EStateM ε σ β} {s s' : σ} {a : α}
    (hx : x s = .ok a s') : (x >>= f) s = f a s' := by
  show (match x s with | .ok a s => f a s | .error e s => .error e s) = _
  rw [hx]

lemma bind_of_error {x : EStateM ε σ α} {f : α → EStateM ε σ β} {s s' : σ} {e : ε}
    (hx : x s = .error e s') : (x >>= f) s = .error e s' := by
  show (match x s with | .ok a s => f a s | .error e s => .error e s) = _
  rw [hx]

lemma bind_get (f : σ → EStateM ε σ β) (s : σ) : ((get : EStateM ε σ σ) >>= f) s = f s s := rfl

lemma pure_eq_ok {a b : α} {s s' : σ} :
    (pure a : EStateM ε σ α) s = .ok b s' ↔ a = b ∧ s = s' := by
  show EStateM.Result.ok a s = _ ↔ _
  constructor
  · intro h
    cases h
    exact ⟨rfl, rfl⟩
  · rintro ⟨rfl, rfl⟩
    rfl

lemma adaptExcept_eq_ok {ε' : Type} {x : EStateM ε σ α} {f : ε → ε'} {s s' : σ} {a : α} :
    (x.adaptExcept f) s = .ok a s' ↔ x s = .ok a s' := by
  rw [EStateM.adaptExcept]
  cases x s with
  | ok _ _ => exact ⟨fun h => (by cases h; rfl), fun h => (by cases h; rfl)⟩
  | error _ _ => exact ⟨fun h => (by cases h), fun h => (by cases h)⟩

lemma adaptExcept_of_error {ε' : Type} {x : EStateM ε σ α} {f : ε → ε'} {s s' : σ} {e : ε}
    (hx : x s = .error e s') : x.adaptExcept f s = .error (f e) s' := by
  rw [EStateM.adaptExcept, hx]

end LetPoly
