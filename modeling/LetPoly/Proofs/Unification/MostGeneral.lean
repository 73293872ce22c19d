import LetPoly.Proofs.Unification.Acts

/-!
# Unifiers decide unifiability

For a unifier whose live terms and equations are flat, solving succeeds iff some substitution of
flat terms makes the two sides of every equation equal, and then the live terms have undergone a
most general such substitution (`Unifier.solve_mostGeneral`). Both algebras are covered: kinds, and
types with their rigid variables held fixed.
-/

namespace LetPoly

open Curried

/-! ### The outcome of solving -/

namespace Unifier

variable {T V C X O : Type} [Term T V] [BEq T] [DecidableEq V] [LawfulTerm T V]

/-- Solving succeeds iff the queue has a unifier, and then it carries a most general one out in
the live terms. Substitutions are of flat terms and are carried out by `act`. -/
structure SolvesMostGenerally (flat : T → Bool) (act : (V → T) → T → T) (u : Unifier T V O) :
    Prop where
  ok_iff : u.solve.2 = none ↔ ∃ s : V → T, (∀ v, flat (s v)) ∧ Unifies act s u.queue
  mostGeneral : u.solve.2 = none → ∃ s : V → T, (∀ v, flat (s v)) ∧
    (∀ h t, u.term? h = some t → ∃ t', u.solve.1.term? h = some t' ∧ (t' == act s t) = true) ∧
    (∀ h, u.term? h = none → u.solve.1.term? h = none) ∧ Unifies act s u.queue ∧
    ∀ w : V → T, (∀ v, flat (w v)) → Unifies act w u.queue →
      ∀ t, flat t → (act w (act s t) == act w t) = true

lemma term?_solve (u : Unifier T V O) (h : Handle) :
    u.solve.1.term? h = (u.term? h).map (applyBindings (LetPoly.solve u.queue).bindings) := by
  simp [Unifier.solve, Unifier.term?]

variable [DecidableEq X] [Curried T V C X]

lemma solvesMostGenerally {flat : T → Bool} {act : (V → T) → T → T} {var : V → T}
    {lift : (V → T) → X → Tree C X} (hacts : Acts flat act var lift) {u : Unifier T V O}
    (hlive : ∀ h t, u.term? h = some t → Flat t) (hqueue : ∀ e ∈ u.queue, e.Flat) :
    SolvesMostGenerally flat act u where
  ok_iff := (hacts.unifiable_iff hqueue).symm
  mostGeneral hok := by
    -- The substitution that the bindings of the run amount to.
    have hbindings := solve_flat hqueue
    have hmgu := hacts.flat_applyBindings hbindings
    have hlift := hacts.lift_applyBindings hbindings
    refine ⟨_, fun v => (hacts.flat_iff _).2 (hmgu v), fun h t ht => ?_, fun h hh => ?_,
      hacts.unifies_solve hqueue hok, fun w hw hunifies t ht => ?_⟩
    · refine ⟨applyBindings (LetPoly.solve u.queue).bindings t, ?_, ?_⟩
      · rw [term?_solve, ht]
        rfl
      · have hflat := hlive h t ht
        rw [hacts.act_beq_iff hmgu hflat (flat_applyBindings hbindings hflat), hlift,
          read_applyBindings hbindings hflat]
    · rw [term?_solve, hh]
      rfl
    · have hw' : ∀ v, Flat (w v) := fun v => (hacts.flat_iff _).1 (hw v)
      have ht' : Flat t := (hacts.flat_iff t).1 ht
      obtain ⟨hflat, hread⟩ := hacts.spec hmgu ht'
      rw [hacts.act_beq_iff hw' ht' (hacts.spec hw' hflat).1, (hacts.spec hw' hflat).2, hread,
        hlift, Tree.bind_bind]
      refine Tree.bind_congr fun x _ => ?_
      exact solve_absorbed hqueue ((hacts.unifies_iff hw' hqueue).1 hunifies) x

/-- Solving decides unifiability and carries out a most general unifier, over kinds and over
types. -/
theorem solve_mostGeneral :
    (∀ (O : Type) (u : Unifier Kind KindVar O), (∀ h k, u.term? h = some k → k.isFlat) →
      (∀ e ∈ u.queue, e.left.isFlat ∧ e.right.isFlat) →
      SolvesMostGenerally Kind.isFlat Kind.bindAll u) ∧
    (∀ (O : Type) (u : Unifier Ty String O), (∀ h t, u.term? h = some t → t.isFlat) →
      (∀ e ∈ u.queue, e.left.isFlat ∧ e.right.isFlat) →
      SolvesMostGenerally Ty.isFlat Ty.bindAll u) := by
  constructor
  · intro O u hlive hqueue
    exact solvesMostGenerally Kind.acts hlive hqueue
  · intro O u hlive hqueue
    exact solvesMostGenerally Ty.acts hlive hqueue

/-- `x` live under `f(x) ≐ Either(Int, y)`, and `K` live under `K ≐ * -> L`. -/
theorem solve_mostGeneral_either :
    SolvesMostGenerally Ty.isFlat Ty.bindAll
      ⟨⟨[.live 0 (.var "x" .solvable none)], 1⟩,
        [⟨.app (.var "f" .solvable none) [.var "x" .solvable none],
          .app (.con "Either" none) [.con "Int" none, .var "y" .solvable none], ()⟩], []⟩ ∧
    SolvesMostGenerally Kind.isFlat Kind.bindAll
      ⟨⟨[.live 0 (.var ⟨0⟩)], 1⟩, [⟨.var ⟨0⟩, .chain [.atomic, .var ⟨1⟩], ()⟩], []⟩ := by
  constructor
  · refine solve_mostGeneral.2 Unit _ (fun h t ht => ?_)
      (by simp [Ty.isFlat, Ty.isFlatList, Ty.isAtom])
    obtain ⟨place, stamp⟩ := h
    cases place with
    | zero =>
      simp only [Unifier.term?, Store.get?, Cell.stamped?, List.getElem?_cons_zero,
        Option.bind_some, Option.ite_none_right_eq_some, Option.some.injEq] at ht
      rw [← ht.2, Ty.isFlat]
    | succ place => simp [Unifier.term?, Store.get?] at ht
  · refine solve_mostGeneral.1 Unit _ (fun h k hk => ?_) (by decide)
    obtain ⟨place, stamp⟩ := h
    cases place with
    | zero =>
      simp only [Unifier.term?, Store.get?, Cell.stamped?, List.getElem?_cons_zero,
        Option.bind_some, Option.ite_none_right_eq_some, Option.some.injEq] at hk
      rw [← hk.2, Kind.isFlat]
    | succ place => simp [Unifier.term?, Store.get?] at hk

end Unifier

end LetPoly
