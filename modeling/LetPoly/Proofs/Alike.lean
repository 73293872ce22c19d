import LetPoly.Proofs.Run

/-!
# Runs side by side

Two runs are alike if both succeed or both fail and what they come to is related: their results and
final states, or their errors and the states that they are left in. The relations say how.
-/

namespace LetPoly

variable {ε ε' σ σ' α α' β β' : Type}

/-- Both runs succeed, with outcomes as `Q` says, or both fail, with outcomes as `E` says. -/
def Alike (E : ε → σ → ε' → σ' → Prop) (Q : α → σ → α' → σ' → Prop) :
    EStateM.Result ε σ α → EStateM.Result ε' σ' α' → Prop
  | .ok a s, .ok a' s' => Q a s a' s'
  | .error e s, .error e' s' => E e s e' s'
  | _, _ => False

namespace Alike

variable {E E' : ε → σ → ε' → σ' → Prop} {Q Q' : α → σ → α' → σ' → Prop}
variable {x : EStateM ε σ α} {x' : EStateM ε' σ' α'} {s : σ} {s' : σ'}

lemma of_ok {a : α} {a' : α'} {t : σ} {t' : σ'} (hx : x s = .ok a t) (hx' : x' s' = .ok a' t')
    (h : Q a t a' t') : Alike E Q (x s) (x' s') := by
  rw [hx, hx']
  exact h

lemma of_error {e : ε} {e' : ε'} {t : σ} {t' : σ'} (hx : x s = .error e t)
    (hx' : x' s' = .error e' t') (h : E e t e' t') : Alike E Q (x s) (x' s') := by
  rw [hx, hx']
  exact h

lemma cases_run (h : Alike E Q (x s) (x' s')) :
    (∃ a t a' t', x s = .ok a t ∧ x' s' = .ok a' t' ∧ Q a t a' t') ∨
      ∃ e t e' t', x s = .error e t ∧ x' s' = .error e' t' ∧ E e t e' t' := by
  cases hx : x s with
  | ok a t =>
    cases hx' : x' s' with
    | ok a' t' =>
      rw [hx, hx'] at h
      exact .inl ⟨a, t, a', t', rfl, rfl, h⟩
    | error e' t' =>
      rw [hx, hx'] at h
      exact h.elim
  | error e t =>
    cases hx' : x' s' with
    | ok a' t' =>
      rw [hx, hx'] at h
      exact h.elim
    | error e' t' =>
      rw [hx, hx'] at h
      exact .inr ⟨e, t, e', t', rfl, rfl, h⟩

/-- If the first run succeeds, so does the second. -/
lemma ok_right (h : Alike E Q (x s) (x' s')) {a : α} {t : σ} (hx : x s = .ok a t) :
    ∃ a' t', x' s' = .ok a' t' ∧ Q a t a' t' := by
  obtain ⟨b, u, a', t', hrun, hrun', hQ⟩ | ⟨e, u, _, _, hrun, _⟩ := h.cases_run
  · cases hx.symm.trans hrun
    exact ⟨a', t', hrun', hQ⟩
  · cases hx.symm.trans hrun

/-- If the second run succeeds, so does the first. -/
lemma ok_left (h : Alike E Q (x s) (x' s')) {a' : α'} {t' : σ'} (hx' : x' s' = .ok a' t') :
    ∃ a t, x s = .ok a t ∧ Q a t a' t' := by
  obtain ⟨a, t, b', u', hrun, hrun', hQ⟩ | ⟨_, _, e', u', _, hrun', _⟩ := h.cases_run
  · cases hx'.symm.trans hrun'
    exact ⟨a, t, hrun, hQ⟩
  · cases hx'.symm.trans hrun'

lemma imp (h : Alike E Q (x s) (x' s')) (hE : ∀ e s e' s', E e s e' s' → E' e s e' s')
    (hQ : ∀ a s a' s', Q a s a' s' → Q' a s a' s') : Alike E' Q' (x s) (x' s') := by
  obtain ⟨_, _, _, _, hrun, hrun', h⟩ | ⟨_, _, _, _, hrun, hrun', h⟩ := h.cases_run
  · exact of_ok hrun hrun' (hQ _ _ _ _ h)
  · exact of_error hrun hrun' (hE _ _ _ _ h)

lemma bind {R : β → σ → β' → σ' → Prop} {f : α → EStateM ε σ β} {f' : α' → EStateM ε' σ' β'}
    (hx : Alike E Q (x s) (x' s'))
    (hf : ∀ a t a' t', Q a t a' t' → Alike E R (f a t) (f' a' t')) :
    Alike E R ((x >>= f) s) ((x' >>= f') s') := by
  obtain ⟨a, t, a', t', hrun, hrun', h⟩ | ⟨_, _, _, _, hrun, hrun', h⟩ := hx.cases_run
  · rw [bind_of_ok hrun, bind_of_ok hrun']
    exact hf a t a' t' h
  · exact of_error (bind_of_error hrun) (bind_of_error hrun') h

lemma adaptExcept {ε₁ ε₁' : Type} {F : ε₁ → σ → ε₁' → σ' → Prop} {f : ε → ε₁} {f' : ε' → ε₁'}
    (hx : Alike E Q (x s) (x' s')) (hE : ∀ e t e' t', E e t e' t' → F (f e) t (f' e') t') :
    Alike F Q (x.adaptExcept f s) (x'.adaptExcept f' s') := by
  rw [EStateM.adaptExcept, EStateM.adaptExcept]
  obtain ⟨a, t, a', t', hrun, hrun', h⟩ | ⟨_, _, _, _, hrun, hrun', h⟩ := hx.cases_run
  · rw [hrun, hrun']
    exact h
  · rw [hrun, hrun']
    exact hE _ _ _ _ h

end Alike

end LetPoly
