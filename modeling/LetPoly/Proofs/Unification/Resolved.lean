import LetPoly.Unification.Unifier
import Mathlib.Tactic.Lemma

/-!
# What solving does to terms of any shape

A variable that solving has bound is in none of the terms in which the bindings have been carried
out (`mem_vars_applyBindings_solve`). A condition on terms that assignment and taking to pieces
preserve goes from the equations to the bindings (`solve_all`). Both hold whether solving succeeds
or not.
-/

namespace LetPoly

open Term

variable {T V O : Type} [BEq T] [Term T V] [DecidableEq V] [LawfulTerm T V]

section Steps

variable {e : Equation T O} {rest : List (Equation T O)} {w : V}

omit [BEq T] [DecidableEq V] [LawfulTerm T V] in
lemma mem_queueVars_cons (h : w ∈ queueVars rest) : w ∈ queueVars (e :: rest) := by
  obtain ⟨e', he', hw⟩ := mem_queueVars.1 h
  exact mem_queueVars.2 ⟨e', List.mem_cons_of_mem _ he', hw⟩

omit [BEq T] in
lemma mem_queueVars_assignQueue {v : V} {t : T} (hw : w ∈ queueVars (assignQueue v t rest)) :
    (w ∈ queueVars rest ∧ w ≠ v) ∨ w ∈ Term.vars t := by
  obtain ⟨e', he', hw⟩ := mem_queueVars.1 hw
  obtain ⟨e'', he'', rfl⟩ := List.mem_map.1 he'
  exact (Equation.mem_vars_assign hw).imp_left fun h => ⟨mem_queueVars.2 ⟨e'', he'', h.1⟩, h.2⟩

/-- What is bound is gone from the rest of the queue. -/
lemma mem_queueVars_bind {v : V} {t : T} (h : e.step = .ok (.bind v t))
    (hw : w ∈ queueVars (assignQueue v t rest)) : w ∈ queueVars (e :: rest) ∧ w ≠ v := by
  obtain ⟨_, hv, hsub⟩ := Equation.step_bind h
  rcases mem_queueVars_assignQueue hw with ⟨hw, hne⟩ | hw
  · exact ⟨mem_queueVars_cons hw, hne⟩
  · exact ⟨mem_queueVars.2 ⟨e, List.mem_cons_self, hsub hw⟩, fun heq => hv (heq ▸ hw)⟩

lemma mem_queueVars_split {pairs : List (T × T)} (h : e.step = .ok (.split pairs))
    (hw : w ∈ queueVars (pairs.map e.part ++ rest)) : w ∈ queueVars (e :: rest) := by
  obtain ⟨e', he', hw⟩ := mem_queueVars.1 hw
  rcases List.mem_append.1 he' with he' | he'
  · obtain ⟨p, hp, rfl⟩ := List.mem_map.1 he'
    obtain ⟨hleft, hright⟩ :=
      LawfulTerm.vars_decompose (Equation.decompose_of_step_split h) p hp
    refine mem_queueVars.2 ⟨e, List.mem_cons_self, ?_⟩
    exact (List.mem_append.1 hw).elim (fun hw => List.mem_append_left _ (hleft hw))
      fun hw => List.mem_append_right _ (hright hw)
  · exact mem_queueVars_cons (mem_queueVars.2 ⟨e', he', hw⟩)

end Steps

/-- Only variables of the queue are bound. -/
lemma mem_queueVars_of_mem_solve (queue : List (Equation T O)) :
    ∀ b ∈ (solve queue).bindings, b.1 ∈ queueVars queue := by
  fun_induction solve queue with
  | case1 => simp
  | case2 e rest h ih => exact fun b hb => mem_queueVars_cons (ih b hb)
  | case3 e rest v t h ih =>
    intro b hb
    rcases List.mem_cons.1 hb with rfl | hb
    · exact mem_queueVars.2 ⟨e, List.mem_cons_self, (Equation.step_bind h).1⟩
    · exact (mem_queueVars_bind h (ih b hb)).1
  | case4 e rest pairs h ih => exact fun b hb => mem_queueVars_split h (ih b hb)
  | case5 e rest error h => simp

/-- A variable that is bound is free in no term in which the bindings have been carried out. -/
lemma mem_vars_applyBindings_solve {queue : List (Equation T O)} {s : T} {w : V}
    (hw : w ∈ vars (applyBindings (solve queue).bindings s)) :
    w ∉ (solve queue).bindings.map Prod.fst ∧ (w ∈ vars s ∨ w ∈ queueVars queue) := by
  fun_induction solve queue generalizing s with
  | case1 => exact ⟨by simp, .inl hw⟩
  | case2 e rest h ih =>
    obtain ⟨hkey, hvars⟩ := ih hw
    exact ⟨hkey, hvars.imp_right mem_queueVars_cons⟩
  | case3 e rest v t h ih =>
    obtain ⟨hkey, hvars⟩ := ih (s := assign v t s) hw
    have hvar : (w ∈ vars s ∨ w ∈ queueVars (e :: rest)) ∧ w ≠ v := by
      obtain ⟨_, hv, hsub⟩ := Equation.step_bind h
      rcases hvars with hvars | hvars
      · rcases mem_vars_assign hvars with ⟨hs, hne⟩ | ht
        · exact ⟨.inl hs, hne⟩
        · exact ⟨.inr (mem_queueVars.2 ⟨e, List.mem_cons_self, hsub ht⟩), fun heq => hv (heq ▸ ht)⟩
      · obtain ⟨hqueue, hne⟩ := mem_queueVars_bind h hvars
        exact ⟨.inr hqueue, hne⟩
    refine ⟨fun hmem => ?_, hvar.1⟩
    rcases List.mem_cons.1 hmem with heq | hmem
    · exact hvar.2 heq
    · exact hkey hmem
  | case4 e rest pairs h ih =>
    obtain ⟨hkey, hvars⟩ := ih hw
    exact ⟨hkey, hvars.imp_right (mem_queueVars_split h)⟩
  | case5 e rest error h => exact ⟨by simp, .inl hw⟩

/-- A condition that assignment and taking to pieces preserve. -/
structure KeptBySolving (P : T → Prop) : Prop where
  assign {v : V} {t s : T} : P t → P s → P (assign v t s)
  decompose {a b : T} {pairs : List (T × T)} : decompose a b = some pairs → P a → P b →
    ∀ e ∈ pairs, P e.1 ∧ P e.2

omit [LawfulTerm T V] in
/-- An equation is dropped if its sides are equal. -/
lemma Equation.same_of_step_drop {e : Equation T O}
    (h : e.step = (.ok .drop : Except (UnifyError T V) (Step T V))) : e.left == e.right := by
  unfold step at h
  split at h
  · assumption
  · split at h
    · unfold Step.bind? at h; split at h <;> cases h
    · unfold Step.bind? at h; split at h <;> cases h
    · split at h <;> cases h

omit [LawfulTerm T V] in
/-- A variable that is bound is one side of the equation, and its value the other. -/
lemma Equation.sides_of_step_bind {e : Equation T O} {v : V} {t : T}
    (h : e.step = .ok (.bind v t)) :
    (var? e.left = some v ∧ t = e.right) ∨ (var? e.right = some v ∧ t = e.left) := by
  unfold step at h
  split at h
  · cases h
  · split at h
    · rename_i w hw
      unfold Step.bind? at h
      split at h <;> cases h
      exact .inl ⟨hw, rfl⟩
    · rename_i w _ hw
      unfold Step.bind? at h
      split at h <;> cases h
      exact .inr ⟨hw, rfl⟩
    · split at h <;> cases h

/-- What holds of both sides of all equations holds of all values that are bound. -/
lemma solve_all {P : T → Prop} (hP : KeptBySolving P) {queue : List (Equation T O)}
    (hqueue : ∀ e ∈ queue, P e.left ∧ P e.right) : ∀ b ∈ (solve queue).bindings, P b.2 := by
  fun_induction solve queue with
  | case1 => simp
  | case2 e rest h ih => exact ih fun e' he' => hqueue e' (List.mem_cons_of_mem _ he')
  | case3 e rest v t h ih =>
    rw [List.forall_mem_cons] at hqueue
    have ht : P t := by
      rcases Equation.sides_of_step_bind h with ⟨_, rfl⟩ | ⟨_, rfl⟩
      · exact hqueue.1.2
      · exact hqueue.1.1
    refine List.forall_mem_cons.2 ⟨ht, ih fun e' he' => ?_⟩
    obtain ⟨e'', he'', rfl⟩ := List.mem_map.1 he'
    exact ⟨hP.assign ht (hqueue.2 e'' he'').1, hP.assign ht (hqueue.2 e'' he'').2⟩
  | case4 e rest pairs h ih =>
    rw [List.forall_mem_cons] at hqueue
    refine ih fun e' he' => ?_
    rcases List.mem_append.1 he' with he' | he'
    · obtain ⟨q, hq, rfl⟩ := List.mem_map.1 he'
      exact hP.decompose (Equation.decompose_of_step_split h) hqueue.1.1 hqueue.1.2 q hq
    · exact hqueue.2 e' he'
  | case5 => simp

omit [BEq T] [LawfulTerm T V] in
/-- What assignment preserves, carrying out bindings preserves. -/
lemma applyBindings_of {Q : T → Prop} {bindings : List (V × T)}
    (hQ : ∀ b ∈ bindings, ∀ s, Q s → Q (assign b.1 b.2 s)) {s : T} (hs : Q s) :
    Q (applyBindings bindings s) := by
  induction bindings generalizing s with
  | nil => exact hs
  | cons b bindings ih =>
    rw [List.forall_mem_cons] at hQ
    exact ih hQ.2 (hQ.1 s hs)

omit [BEq T] [LawfulTerm T V] in
/-- A term without variables stays as it is. -/
lemma applyBindings_eq_self {bindings : List (V × T)} {s : T} (hs : vars s = []) :
    applyBindings bindings s = s := by
  induction bindings with
  | nil => rfl
  | cons b bindings ih =>
    have hassign : assign b.1 b.2 s = s := by simp [assign, occurs, hs]
    rw [applyBindings, List.foldl_cons, hassign]
    exact ih

end LetPoly
