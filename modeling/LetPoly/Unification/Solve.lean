import LetPoly.Names
import LetPoly.Unification.Equation

/-!
# Solving equations

`solve` works a queue of equations off from the front. The parts of an equation take its place at
the front, a binding is carried out in all equations that still wait, and the first equation
without a solution ends the run. The outcome is the list of bindings made, in order, and the
failure, if there was one.

It stops on every queue: binding a variable leaves fewer variables in the queue, and every other
step leaves no more of them and a lighter queue.
-/

namespace LetPoly

open Term

variable {T V O : Type}

/-- The outcome of solving: the bindings in the order in which they were made, and the equation
at which the run ended, if it failed. -/
structure Solution (T V O : Type) where
  bindings : List (V × T)
  failure : Option (Unsolved T V O)

/-- Put one binding in front of those made later. -/
def Solution.after (s : Solution T V O) (v : V) (t : T) : Solution T V O :=
  { s with bindings := (v, t) :: s.bindings }

/-- Carry out bindings in a term, one after the other. -/
def applyBindings [Term T V] [DecidableEq V] (bindings : List (V × T)) (t : T) : T :=
  bindings.foldl (fun t b => assign b.1 b.2 t) t

/-- The number of different elements of a list. -/
def distinct [BEq V] (l : List V) : Nat := l.eraseDups.length

section Measure

variable [BEq V] [LawfulBEq V] {l l' : List V}

theorem distinct_le_of_subset (h : l ⊆ l') : distinct l ≤ distinct l' :=
  (nodup_eraseDups l).length_le_of_subset fun _ ha =>
    List.mem_eraseDups.2 (h (List.mem_eraseDups.1 ha))

theorem distinct_lt_of_subset {v : V} (h : l ⊆ l') (hv : v ∈ l') (hl : v ∉ l) :
    distinct l < distinct l' := by
  have : (v :: l.eraseDups).Nodup :=
    List.nodup_cons.2 ⟨fun h => hl (List.mem_eraseDups.1 h), nodup_eraseDups l⟩
  refine this.length_le_of_subset fun a ha => List.mem_eraseDups.2 ?_
  rcases List.mem_cons.1 ha with rfl | ha
  · exact hv
  · exact h (List.mem_eraseDups.1 ha)

end Measure

/-- Put `t` for `v` in every equation of a queue. -/
def assignQueue [Term T V] [DecidableEq V] (v : V) (t : T) (queue : List (Equation T O)) :
    List (Equation T O) :=
  queue.map (·.assign v t)

/-- The variables of a queue. -/
def queueVars [Term T V] (queue : List (Equation T O)) : List V := queue.flatMap (·.vars)

/-- The weight of a queue. -/
def queueWeight [Term T V] : List (Equation T O) → Nat
  | [] => 0
  | e :: queue => e.weight + queueWeight queue

/-- Parts put in front of a queue add their weight to it. -/
theorem queueWeight_parts [Term T V] (e : Equation T O) (pairs : List (T × T))
    (rest : List (Equation T O)) :
    queueWeight (pairs.map e.part ++ rest) = pairsWeight pairs + queueWeight rest := by
  induction pairs with
  | nil => simp [pairsWeight]
  | cons p pairs ih =>
    simp only [List.map_cons, List.cons_append, queueWeight, pairsWeight, ih, Equation.weight,
      Equation.part]
    omega

section Descent

variable [Term T V] [DecidableEq V] [LawfulTerm T V] {e : Equation T O}
  {rest : List (Equation T O)}

omit [DecidableEq V] [LawfulTerm T V] in
theorem mem_queueVars {queue : List (Equation T O)} {w : V} :
    w ∈ queueVars queue ↔ ∃ e ∈ queue, w ∈ e.vars := by
  simp [queueVars]

/-- Dropping an equation keeps the variables in bounds and lightens the queue. -/
theorem drop_descends : Prod.Lex (· < ·) (· < ·)
    (distinct (queueVars rest), queueWeight rest)
    (distinct (queueVars (e :: rest)), queueWeight (e :: rest)) := by
  apply Prod.Lex.right'
  · exact distinct_le_of_subset fun _ h =>
      let ⟨e', he', hw⟩ := mem_queueVars.1 h
      mem_queueVars.2 ⟨e', List.mem_cons_of_mem _ he', hw⟩
  · have := e.weight_pos
    simp only [queueWeight]
    omega

/-- Binding a variable removes it from the queue. -/
theorem bind_descends [BEq T] {v : V} {t : T} (h : e.step = .ok (.bind v t)) :
    Prod.Lex (· < ·) (· < ·)
      (distinct (queueVars (assignQueue v t rest)), queueWeight (assignQueue v t rest))
      (distinct (queueVars (e :: rest)), queueWeight (e :: rest)) := by
  obtain ⟨hv, ht, hsub⟩ := Equation.step_bind h
  apply Prod.Lex.left
  have key : ∀ w ∈ queueVars (assignQueue v t rest),
      (w ∈ queueVars rest ∧ w ≠ v) ∨ w ∈ Term.vars t := by
    intro w hw
    obtain ⟨e', he', hw⟩ := mem_queueVars.1 hw
    obtain ⟨e'', he'', rfl⟩ := List.mem_map.1 he'
    exact (Equation.mem_vars_assign hw).imp_left fun h => ⟨mem_queueVars.2 ⟨e'', he'', h.1⟩, h.2⟩
  refine distinct_lt_of_subset (v := v) ?_ (mem_queueVars.2 ⟨e, List.mem_cons_self, hv⟩) ?_
  · intro w hw
    rcases key w hw with ⟨hw, -⟩ | hw
    · obtain ⟨e', he', hw⟩ := mem_queueVars.1 hw
      exact mem_queueVars.2 ⟨e', List.mem_cons_of_mem _ he', hw⟩
    · exact mem_queueVars.2 ⟨e, List.mem_cons_self, hsub hw⟩
  · intro hw
    rcases key v hw with ⟨-, hne⟩ | hw
    · exact hne rfl
    · exact ht hw

/-- Taking an equation to pieces brings no variable in and lightens the queue. -/
theorem split_descends [BEq T] {pairs : List (T × T)} (h : e.step = .ok (.split pairs)) :
    Prod.Lex (· < ·) (· < ·)
      (distinct (queueVars (pairs.map e.part ++ rest)), queueWeight (pairs.map e.part ++ rest))
      (distinct (queueVars (e :: rest)), queueWeight (e :: rest)) := by
  have hd := Equation.decompose_of_step_split h
  apply Prod.Lex.right'
  · refine distinct_le_of_subset fun w hw => ?_
    obtain ⟨e', he', hw⟩ := mem_queueVars.1 hw
    rcases List.mem_append.1 he' with he' | he'
    · obtain ⟨p, hp, rfl⟩ := List.mem_map.1 he'
      have ⟨h₁, h₂⟩ := LawfulTerm.vars_decompose hd p hp
      refine mem_queueVars.2 ⟨e, List.mem_cons_self, ?_⟩
      exact (List.mem_append.1 hw).elim (fun hw => List.mem_append_left _ (h₁ hw))
        fun hw => List.mem_append_right _ (h₂ hw)
    · exact mem_queueVars.2 ⟨e', List.mem_cons_of_mem _ he', hw⟩
  · have := LawfulTerm.weight_decompose hd
    rw [queueWeight_parts, queueWeight]
    exact Nat.add_lt_add_right this _

end Descent

/-- Work off a queue of equations. -/
def solve [BEq T] [Term T V] [DecidableEq V] [LawfulTerm T V] :
    List (Equation T O) → Solution T V O
  | [] => ⟨[], none⟩
  | e :: rest =>
    match _h : e.step with
    | .ok .drop => solve rest
    | .ok (.bind v t) => (solve (assignQueue v t rest)).after v t
    | .ok (.split pairs) => solve (pairs.map e.part ++ rest)
    | .error error => ⟨[], some ⟨e.origin, error⟩⟩
termination_by queue => (distinct (queueVars queue), queueWeight queue)
decreasing_by
  · exact drop_descends
  · exact bind_descends ‹_›
  · exact split_descends ‹_›

/-- Working off a queue by what its first equation asks for. -/
theorem solve_cons [BEq T] [Term T V] [DecidableEq V] [LawfulTerm T V] (e : Equation T O)
    (rest : List (Equation T O)) : solve (e :: rest) =
      match e.step with
      | .ok .drop => solve rest
      | .ok (.bind v t) => (solve (assignQueue v t rest)).after v t
      | .ok (.split pairs) => solve (pairs.map e.part ++ rest)
      | .error error => ⟨[], some ⟨e.origin, error⟩⟩ := by
  rw [solve]
  split <;> simp only [*]

end LetPoly
