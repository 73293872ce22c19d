import LetPoly.Proofs.Tree
import LetPoly.Unification.Solve

/-!
# Most general unifiers

`solve` is compared with the substitutions that make all equations of a queue equal. The algebra
may be any whose flat terms are read as curried trees (`Curried`); the reading turns equality of
the algebra into equality of trees, and one step of the solver into a step of first-order
unification.

The bindings of a run amount to one substitution (`bindingSubst`). If the run succeeds it solves the
queue, every solution of the queue absorbs it, and a queue with a solution makes the run succeed.
-/

namespace LetPoly

open Term

/-- An algebra whose flat terms are read as curried trees. The variables of the trees are those
of the algebra and, beside them, rigid ones that solving does not touch. -/
class Curried (T : Type) (V C X : outParam Type) [Term T V] [BEq T] [DecidableEq X] where
  Flat : T → Prop
  read : T → Tree C X
  unknown : V → X
  unknown_injective : Function.Injective unknown
  beq_iff {a b : T} : Flat a → Flat b → ((a == b) = true ↔ read a = read b)
  var?_eq_some {t : T} {v : V} : Flat t → (var? t = some v ↔ read t = .var (unknown v))
  mem_vars {t : T} {v : V} : Flat t → (v ∈ vars t ↔ unknown v ∈ (read t).vars)
  flat_subst {v : V} {t s : T} : Flat t → Flat s → Flat (subst v t s)
  read_subst {v : V} {t s : T} : Flat t → Flat s →
    read (subst v t s) = (read s).bind (Tree.single (unknown v) (read t))
  not_node_of_decompose {a b : T} : Flat a → Flat b → decompose a b = none →
    ¬ ((read a).isNode ∧ (read b).isNode)
  flat_decompose {a b : T} {pairs : List (T × T)} : Flat a → Flat b →
    decompose a b = some pairs → ∀ p ∈ pairs, Flat p.1 ∧ Flat p.2
  bind_decompose {a b : T} {pairs : List (T × T)} : Flat a → Flat b →
    decompose a b = some pairs → ∀ {Y : Type} (θ : X → Tree C Y),
      (read a).bind θ = (read b).bind θ ↔ ∀ p ∈ pairs, (read p.1).bind θ = (read p.2).bind θ
  read_decompose_subset {a b : T} {pairs : List (T × T)} : Flat a → Flat b →
    decompose a b = some pairs →
      ∀ p ∈ pairs, (read p.1).vars ⊆ (read a).vars ∧ (read p.2).vars ⊆ (read b).vars

open Curried

variable {T V C X Y O : Type} [Term T V] [BEq T] [DecidableEq X] [Curried T V C X]

/-! ### Solutions -/

/-- Both sides of the equation are flat. -/
def Equation.Flat (e : Equation T O) : Prop := Curried.Flat e.left ∧ Curried.Flat e.right

/-- The substitution makes both sides of the equation equal. -/
def Equation.Solved (θ : X → Tree C Y) (e : Equation T O) : Prop :=
  (read e.left).bind θ = (read e.right).bind θ

/-- The substitution makes both sides of every equation equal. -/
def Solves (θ : X → Tree C Y) (queue : List (Equation T O)) : Prop := ∀ e ∈ queue, e.Solved θ

lemma solves_nil (θ : X → Tree C Y) : Solves θ ([] : List (Equation T O)) := by
  intro e he
  cases he

@[simp] lemma solves_cons {θ : X → Tree C Y} {e : Equation T O} {queue : List (Equation T O)} :
    Solves θ (e :: queue) ↔ e.Solved θ ∧ Solves θ queue := by
  simp [Solves]

@[simp] lemma solves_append {θ : X → Tree C Y} {queue queue' : List (Equation T O)} :
    Solves θ (queue ++ queue') ↔ Solves θ queue ∧ Solves θ queue' := by
  simp [Solves, or_imp, forall_and]

/-- The variables of both sides, as trees. -/
def Equation.treeVars (e : Equation T O) : List X := (read e.left).vars ++ (read e.right).vars

lemma Equation.mem_treeVars {e : Equation T O} {x : X} :
    x ∈ e.treeVars ↔ x ∈ (read e.left).vars ∨ x ∈ (read e.right).vars :=
  List.mem_append

variable (T) in
/-- A variable that solving does not touch. -/
def IsRigid (x : X) : Prop := ∀ v : V, x ≠ unknown T v

variable (T) in
/-- A substitution that takes the rigid variables of a set to variables, different ones to
different ones. -/
structure Faithful (θ : X → Tree C Y) (S : X → Prop) : Prop where
  var {x : X} : S x → IsRigid T x → ∃ y, θ x = .var y
  inj {x x' : X} : S x → S x' → IsRigid T x → IsRigid T x' → θ x = θ x' → x = x'

/-! ### One step -/

section Step

variable [DecidableEq V] {e : Equation T O}

omit [BEq T] in
lemma Step.bind?_eq_ok {v w : V} {s t : T} (h : Step.bind? v t = .ok (.bind w s)) :
    v = w ∧ s = t ∧ v ∉ Term.vars t := by
  unfold Step.bind? at h
  split at h
  · cases h
  · rename_i hocc
    cases h
    exact ⟨rfl, rfl, by simpa [occurs] using hocc⟩

/-- What the solver does about an equation, in terms of its sides. -/
lemma Equation.step_eq_bind {v : V} {t : T} (h : e.step = .ok (.bind v t)) :
    v ∉ Term.vars t ∧ ((var? e.left = some v ∧ t = e.right) ∨ (var? e.right = some v ∧ t = e.left)) := by
  unfold Equation.step at h
  split at h
  · cases h
  · split at h
    · rename_i w hw
      obtain ⟨rfl, rfl, hv⟩ := Step.bind?_eq_ok h
      exact ⟨hv, Or.inl ⟨hw, rfl⟩⟩
    · rename_i w _ hw
      obtain ⟨rfl, rfl, hv⟩ := Step.bind?_eq_ok h
      exact ⟨hv, Or.inr ⟨hw, rfl⟩⟩
    · split at h <;> cases h

lemma Equation.beq_of_step_drop (h : e.step = .ok .drop) : (e.left == e.right) = true := by
  unfold Equation.step at h
  split at h
  · assumption
  · split at h
    · unfold Step.bind? at h
      split at h <;> cases h
    · unfold Step.bind? at h
      split at h <;> cases h
    · split at h <;> cases h

lemma Equation.step_eq_error {error : UnifyError T V} (h : e.step = .error error) :
    ¬ (e.left == e.right) = true ∧
      ((∃ v, var? e.left = some v ∧ v ∈ Term.vars e.right) ∨
        (∃ v, var? e.right = some v ∧ v ∈ Term.vars e.left) ∨
        (var? e.left = none ∧ var? e.right = none ∧ decompose e.left e.right = none)) := by
  unfold Equation.step at h
  split at h
  · cases h
  · rename_i hne
    refine ⟨hne, ?_⟩
    split at h
    · rename_i v hv
      unfold Step.bind? at h
      split at h
      · rename_i hocc
        exact Or.inl ⟨v, hv, by simpa [occurs] using hocc⟩
      · cases h
    · rename_i v _ hv
      unfold Step.bind? at h
      split at h
      · rename_i hocc
        exact Or.inr (Or.inl ⟨v, hv, by simpa [occurs] using hocc⟩)
      · cases h
    · rename_i hl hr
      split at h
      · cases h
      · rename_i hd
        exact Or.inr (Or.inr ⟨hl, hr, hd⟩)

/-- A binding is solved by the substitutions that give the variable the value of its term. -/
lemma Equation.solved_of_step_bind (he : e.Flat) {v : V} {t : T} (h : e.step = .ok (.bind v t)) :
    Curried.Flat t ∧ unknown T v ∉ (read t).vars ∧ (unknown T v ∈ e.treeVars) ∧
      (read t).vars ⊆ e.treeVars ∧
      ∀ {Y : Type} (θ : X → Tree C Y), e.Solved θ ↔ θ (unknown T v) = (read t).bind θ := by
  obtain ⟨hv, ⟨hl, rfl⟩ | ⟨hr, rfl⟩⟩ := Equation.step_eq_bind h
  · have hread := (var?_eq_some he.1).1 hl
    refine ⟨he.2, fun hm => hv ((mem_vars he.2).2 hm), ?_, ?_, fun θ => ?_⟩
    · exact Equation.mem_treeVars.2 (Or.inl (by simp [hread]))
    · exact fun x hx => Equation.mem_treeVars.2 (Or.inr hx)
    · rw [Equation.Solved, hread, Tree.bind_var]
  · have hread := (var?_eq_some he.2).1 hr
    refine ⟨he.1, fun hm => hv ((mem_vars he.1).2 hm), ?_, ?_, fun θ => ?_⟩
    · exact Equation.mem_treeVars.2 (Or.inr (by simp [hread]))
    · exact fun x hx => Equation.mem_treeVars.2 (Or.inl hx)
    · rw [Equation.Solved, hread, Tree.bind_var, eq_comm]

lemma Equation.solved_of_step_drop (he : e.Flat) (h : e.step = .ok .drop) (θ : X → Tree C Y) :
    e.Solved θ := by
  rw [Equation.Solved, (beq_iff he.1 he.2).1 (Equation.beq_of_step_drop h)]

lemma Equation.solved_of_step_split (he : e.Flat) {pairs : List (T × T)}
    (h : e.step = .ok (.split pairs)) (θ : X → Tree C Y) :
    e.Solved θ ↔ Solves θ (pairs.map e.part) := by
  rw [Equation.Solved, bind_decompose he.1 he.2 (Equation.decompose_of_step_split h) θ, Solves,
    List.forall_mem_map]
  rfl

omit [DecidableEq V] in
/-- Two different trees that are neither both applications nor solvable variables stay different
under a faithful substitution. -/
lemma Tree.bind_ne_bind_of_clash {a b : Tree C X} {θ : X → Tree C Y} (hne : a ≠ b)
    (ha : ∀ v : V, a ≠ .var (unknown T v)) (hb : ∀ v : V, b ≠ .var (unknown T v))
    (hnode : ¬ (a.isNode ∧ b.isNode)) (hθ : Faithful T θ fun x => x ∈ a.vars ∨ x ∈ b.vars) :
    a.bind θ ≠ b.bind θ := by
  have rigid {x : X} (h : ∀ v : V, (Tree.var x : Tree C X) ≠ .var (unknown T v)) :
      IsRigid T x := fun v e => h v (e ▸ rfl)
  intro h
  cases a with
  | leaf c =>
    cases b with
    | leaf d =>
      rw [Tree.bind_leaf, Tree.bind_leaf, Tree.leaf.injEq] at h
      exact hne (h ▸ rfl)
    | var y =>
      obtain ⟨z, hz⟩ := hθ.var (Or.inr (by simp)) (rigid hb)
      rw [Tree.bind_var, hz] at h
      cases h
    | node l r => cases h
  | var x =>
    obtain ⟨z, hz⟩ := hθ.var (Or.inl (by simp)) (rigid ha)
    cases b with
    | leaf d =>
      rw [Tree.bind_var, hz] at h
      cases h
    | var y =>
      exact hne (hθ.inj (Or.inl (by simp)) (Or.inr (by simp)) (rigid ha) (rigid hb) h ▸ rfl)
    | node l r =>
      rw [Tree.bind_var, hz] at h
      cases h
  | node l r =>
    cases b with
    | leaf d => cases h
    | var y =>
      obtain ⟨z, hz⟩ := hθ.var (Or.inr (by simp)) (rigid hb)
      rw [Tree.bind_var, hz] at h
      cases h
    | node l' r' => exact hnode ⟨rfl, rfl⟩

/-- An equation at which the solver gives up has no solution. -/
lemma Equation.not_solved_of_step_error (he : e.Flat) {error : UnifyError T V}
    (h : e.step = .error error) {θ : X → Tree C Y} (hθ : Faithful T θ (· ∈ e.treeVars)) :
    ¬ e.Solved θ := by
  obtain ⟨hbeq, ⟨v, hv, hmem⟩ | ⟨v, hv, hmem⟩ | ⟨hl, hr, hd⟩⟩ := Equation.step_eq_error h
  · -- The left side is a variable that stands inside the right one.
    have hread := (var?_eq_some he.1).1 hv
    rw [Equation.Solved, hread, Tree.bind_var]
    refine Tree.bind_ne_of_mem_vars ((mem_vars he.2).1 hmem) (fun heq => hbeq ?_) θ
    rw [beq_iff he.1 he.2, hread, heq]
  · have hread := (var?_eq_some he.2).1 hv
    rw [Equation.Solved, hread, Tree.bind_var]
    refine Ne.symm (Tree.bind_ne_of_mem_vars ((mem_vars he.1).1 hmem) (fun heq => hbeq ?_) θ)
    rw [beq_iff he.1 he.2, hread, heq]
  · refine Tree.bind_ne_bind_of_clash (T := T) ?_ ?_ ?_ (not_node_of_decompose he.1 he.2 hd) ?_
    · exact fun heq => hbeq ((beq_iff he.1 he.2).2 heq)
    · intro v heq
      rw [(var?_eq_some he.1).2 heq] at hl
      cases hl
    · intro v heq
      rw [(var?_eq_some he.2).2 heq] at hr
      cases hr
    · exact ⟨fun hx => hθ.var (Equation.mem_treeVars.2 hx),
        fun hx hx' => hθ.inj (Equation.mem_treeVars.2 hx) (Equation.mem_treeVars.2 hx')⟩

end Step

/-! ### Bindings as a substitution -/

section Bindings

variable [DecidableEq V]

lemma flat_assign {v : V} {t s : T} (ht : Flat t) (hs : Flat s) : Flat (assign v t s) := by
  unfold assign
  split
  · exact flat_subst ht hs
  · exact hs

lemma read_assign {v : V} {t s : T} (ht : Flat t) (hs : Flat s) :
    read (assign v t s) = (read s).bind (Tree.single (unknown T v) (read t)) := by
  unfold assign
  split
  · exact read_subst ht hs
  · rename_i hocc
    refine (Tree.bind_single_of_not_mem (fun hm => hocc ?_) _).symm
    simpa [occurs] using (mem_vars hs).2 hm

lemma Equation.flat_assign {v : V} {t : T} {e : Equation T O} (ht : Curried.Flat t) (he : e.Flat) :
    (e.assign v t).Flat :=
  ⟨LetPoly.flat_assign ht he.1, LetPoly.flat_assign ht he.2⟩

/-- Solving an equation after an assignment is solving it by a substitution that makes the
assignment first. -/
lemma Equation.solved_assign {v : V} {t : T} {e : Equation T O} (ht : Curried.Flat t) (he : e.Flat)
    (θ : X → Tree C Y) :
    (e.assign v t).Solved θ ↔
      e.Solved fun x => (Tree.single (unknown T v) (read t) x).bind θ := by
  unfold Equation.Solved Equation.assign
  rw [read_assign ht he.1, read_assign ht he.2, Tree.bind_bind, Tree.bind_bind]

lemma Equation.mem_treeVars_assign {v : V} {t : T} {e : Equation T O} (ht : Curried.Flat t)
    (he : e.Flat) {x : X} (hx : x ∈ (e.assign v t).treeVars) :
    x ∈ e.treeVars ∨ x ∈ (read t).vars := by
  have key {s : T} (hs : Curried.Flat s) (h : x ∈ (read (Term.assign v t s)).vars) :
      x ∈ (read s).vars ∨ x ∈ (read t).vars := by
    rw [read_assign ht hs, Tree.mem_vars_bind] at h
    obtain ⟨y, hy, hx⟩ := h
    rcases Tree.mem_vars_single hx with rfl | hx
    · exact Or.inl hy
    · exact Or.inr hx
  rcases Equation.mem_treeVars.1 hx with hx | hx
  · exact (key he.1 hx).imp_left fun h => Equation.mem_treeVars.2 (Or.inl h)
  · exact (key he.2 hx).imp_left fun h => Equation.mem_treeVars.2 (Or.inr h)

/-- The substitution that bindings, carried out one after the other, amount to. -/
def bindingSubst : List (V × T) → X → Tree C X
  | [], x => .var x
  | (v, t) :: bindings, x =>
    (Tree.single (unknown T v) (read t) x).bind (bindingSubst bindings)

omit [BEq T] in
lemma applyBindings_cons (v : V) (t : T) (bindings : List (V × T)) (s : T) :
    applyBindings ((v, t) :: bindings) s = applyBindings bindings (assign v t s) := rfl

lemma flat_applyBindings {bindings : List (V × T)} (hb : ∀ b ∈ bindings, Flat b.2) {s : T}
    (hs : Flat s) : Flat (applyBindings bindings s) := by
  induction bindings generalizing s with
  | nil => exact hs
  | cons b bindings ih =>
    rw [applyBindings_cons]
    exact ih (fun b' hb' => hb b' (List.mem_cons_of_mem _ hb'))
      (flat_assign (hb b List.mem_cons_self) hs)

lemma read_applyBindings {bindings : List (V × T)} (hb : ∀ b ∈ bindings, Flat b.2) {s : T}
    (hs : Flat s) : read (applyBindings bindings s) = (read s).bind (bindingSubst bindings) := by
  induction bindings generalizing s with
  | nil => exact (Tree.bind_self _).symm
  | cons b bindings ih =>
    obtain ⟨v, t⟩ := b
    have ht : Flat t := hb (v, t) List.mem_cons_self
    rw [applyBindings_cons, ih (fun b' hb' => hb b' (List.mem_cons_of_mem _ hb'))
      (flat_assign ht hs), read_assign ht hs, Tree.bind_bind]
    rfl

omit [DecidableEq V] in
/-- A variable that no binding is for stays. -/
lemma bindingSubst_eq_var {bindings : List (V × T)} {x : X}
    (h : ∀ b ∈ bindings, x ≠ unknown T b.1) : bindingSubst bindings x = .var x := by
  induction bindings with
  | nil => rfl
  | cons b bindings ih =>
    obtain ⟨v, t⟩ := b
    rw [bindingSubst, Tree.single_of_ne (h (v, t) List.mem_cons_self), Tree.bind_var]
    exact ih fun b hb => h b (List.mem_cons_of_mem _ hb)

omit [DecidableEq V] in
lemma mem_vars_bindingSubst {bindings : List (V × T)} {x y : X}
    (h : y ∈ (bindingSubst bindings x).vars) : y = x ∨ ∃ b ∈ bindings, y ∈ (read b.2).vars := by
  induction bindings generalizing x with
  | nil => exact Or.inl (List.mem_singleton.1 h)
  | cons b bindings ih =>
    obtain ⟨v, t⟩ := b
    rw [bindingSubst, Tree.mem_vars_bind] at h
    obtain ⟨z, hz, hy⟩ := h
    rcases ih hy with rfl | ⟨b, hb, hy⟩
    · exact (Tree.mem_vars_single hz).imp_right fun hz => ⟨(v, t), List.mem_cons_self, hz⟩
    · exact Or.inr ⟨b, List.mem_cons_of_mem _ hb, hy⟩

end Bindings

/-! ### Runs of the solver -/

section Run

variable [DecidableEq V]

/-- What the recursive calls of a run are made on is flat again. -/
lemma flat_parts {e : Equation T O} (he : e.Flat) {pairs : List (T × T)}
    (h : e.step = .ok (.split pairs)) {rest : List (Equation T O)} (hrest : ∀ e ∈ rest, e.Flat) :
    ∀ e' ∈ pairs.map e.part ++ rest, e'.Flat := by
  intro e' he'
  rcases List.mem_append.1 he' with he' | he'
  · obtain ⟨p, hp, rfl⟩ := List.mem_map.1 he'
    exact flat_decompose he.1 he.2 (Equation.decompose_of_step_split h) p hp
  · exact hrest e' he'

lemma flat_assignQueue {v : V} {t : T} (ht : Flat t) {rest : List (Equation T O)}
    (hrest : ∀ e ∈ rest, e.Flat) : ∀ e ∈ assignQueue v t rest, e.Flat := by
  intro e he
  obtain ⟨e', he', rfl⟩ := List.mem_map.1 he
  exact Equation.flat_assign ht (hrest e' he')

lemma solves_assignQueue {v : V} {t : T} (ht : Flat t) {rest : List (Equation T O)}
    (hrest : ∀ e ∈ rest, e.Flat) (θ : X → Tree C Y) :
    Solves θ (assignQueue v t rest) ↔
      Solves (fun x => (Tree.single (unknown T v) (read t) x).bind θ) rest := by
  unfold Solves assignQueue
  rw [List.forall_mem_map]
  exact forall₂_congr fun e he => Equation.solved_assign ht (hrest e he) θ

/-- A solution stays one when a variable is eliminated by a binding that it solves. -/
lemma solves_assignQueue_of_solves {v : V} {t : T} (ht : Flat t) {rest : List (Equation T O)}
    (hrest : ∀ e ∈ rest, e.Flat) {θ : X → Tree C Y} (hv : θ (unknown T v) = (read t).bind θ)
    (hθ : Solves θ rest) : Solves θ (assignQueue v t rest) := by
  have hsame : (fun x => (Tree.single (unknown T v) (read t) x).bind θ) = θ :=
    funext fun y => Tree.single_bind hv y
  rwa [solves_assignQueue ht hrest, hsame]

/-- An equation and what it is split into have the same solutions. -/
lemma solves_parts {e : Equation T O} (he : e.Flat) {pairs : List (T × T)}
    (h : e.step = .ok (.split pairs)) {rest : List (Equation T O)} {θ : X → Tree C Y} :
    Solves θ (pairs.map e.part ++ rest) ↔ Solves θ (e :: rest) := by
  rw [solves_append, solves_cons, Equation.solved_of_step_split he h]

/-- Variables of a set stay in it along a run. -/
lemma treeVars_assignQueue {v : V} {t : T} (ht : Flat t) {rest : List (Equation T O)}
    (hrest : ∀ e ∈ rest, e.Flat) {S : X → Prop} (hS : ∀ e ∈ rest, ∀ x ∈ e.treeVars, S x)
    (hSt : ∀ x ∈ (read t).vars, S x) : ∀ e ∈ assignQueue v t rest, ∀ x ∈ e.treeVars, S x := by
  intro e he x hx
  obtain ⟨e', he', rfl⟩ := List.mem_map.1 he
  rcases Equation.mem_treeVars_assign ht (hrest e' he') hx with hx | hx
  · exact hS e' he' x hx
  · exact hSt x hx

lemma treeVars_parts {e : Equation T O} (he : e.Flat) {pairs : List (T × T)}
    (h : e.step = .ok (.split pairs)) {rest : List (Equation T O)} {S : X → Prop}
    (hSe : ∀ x ∈ e.treeVars, S x) (hS : ∀ e ∈ rest, ∀ x ∈ e.treeVars, S x) :
    ∀ e' ∈ pairs.map e.part ++ rest, ∀ x ∈ e'.treeVars, S x := by
  intro e' he' x hx
  rcases List.mem_append.1 he' with he' | he'
  · obtain ⟨p, hp, rfl⟩ := List.mem_map.1 he'
    have ⟨hl, hr⟩ := read_decompose_subset he.1 he.2 (Equation.decompose_of_step_split h) p hp
    refine hSe x (Equation.mem_treeVars.2 ?_)
    exact (Equation.mem_treeVars.1 hx).imp (fun hx => hl hx) fun hx => hr hx
  · exact hS e' he' x hx

variable [LawfulTerm T V]

/-- Every binding of a run has a flat term. -/
theorem solve_flat {queue : List (Equation T O)} (hq : ∀ e ∈ queue, e.Flat) :
    ∀ b ∈ (solve queue).bindings, Flat b.2 := by
  fun_induction solve queue with
  | case1 => simp
  | case2 e rest h ih => exact ih (fun e' he' => hq e' (List.mem_cons_of_mem _ he'))
  | case3 e rest v t h ih =>
    have ht := (Equation.solved_of_step_bind (hq e List.mem_cons_self) h).1
    intro b hb
    rcases List.mem_cons.1 hb with rfl | hb
    · exact ht
    · exact ih (flat_assignQueue ht fun e' he' => hq e' (List.mem_cons_of_mem _ he')) b hb
  | case4 e rest pairs h ih =>
    exact ih (flat_parts (hq e List.mem_cons_self) h
      fun e' he' => hq e' (List.mem_cons_of_mem _ he'))
  | case5 => simp

/-- A run binds variables of the queue to terms of such variables. -/
theorem solve_vars {queue : List (Equation T O)} (hq : ∀ e ∈ queue, e.Flat) {S : X → Prop}
    (hS : ∀ e ∈ queue, ∀ x ∈ e.treeVars, S x) :
    ∀ b ∈ (solve queue).bindings, S (unknown T b.1) ∧ ∀ x ∈ (read b.2).vars, S x := by
  fun_induction solve queue with
  | case1 => simp
  | case2 e rest h ih =>
    exact ih (fun e' he' => hq e' (List.mem_cons_of_mem _ he'))
      (fun e' he' => hS e' (List.mem_cons_of_mem _ he'))
  | case3 e rest v t h ih =>
    obtain ⟨ht, -, hv, hvars, -⟩ := Equation.solved_of_step_bind (hq e List.mem_cons_self) h
    have hrest : ∀ e' ∈ rest, e'.Flat := fun e' he' => hq e' (List.mem_cons_of_mem _ he')
    intro b hb
    rcases List.mem_cons.1 hb with rfl | hb
    · exact ⟨hS e List.mem_cons_self _ hv, fun x hx => hS e List.mem_cons_self x (hvars hx)⟩
    · exact ih (flat_assignQueue ht hrest) (treeVars_assignQueue ht hrest
        (fun e' he' => hS e' (List.mem_cons_of_mem _ he'))
        fun x hx => hS e List.mem_cons_self x (hvars hx)) b hb
  | case4 e rest pairs h ih =>
    have he : e.Flat := hq e List.mem_cons_self
    exact ih (flat_parts he h fun e' he' => hq e' (List.mem_cons_of_mem _ he'))
      (treeVars_parts he h (hS e List.mem_cons_self)
        fun e' he' => hS e' (List.mem_cons_of_mem _ he'))
  | case5 => simp

/-- Every solution of the queue absorbs the bindings of the run, also of one that fails. -/
theorem solve_absorbed {queue : List (Equation T O)} (hq : ∀ e ∈ queue, e.Flat)
    {θ : X → Tree C Y} (hθ : Solves θ queue) (x : X) :
    (bindingSubst (solve queue).bindings x).bind θ = θ x := by
  fun_induction solve queue generalizing x with
  | case1 => rfl
  | case2 e rest h ih =>
    exact ih (fun e' he' => hq e' (List.mem_cons_of_mem _ he')) (solves_cons.1 hθ).2 x
  | case3 e rest v t h ih =>
    obtain ⟨ht, -, -, -, hsolved⟩ := Equation.solved_of_step_bind (hq e List.mem_cons_self) h
    have hrest : ∀ e' ∈ rest, e'.Flat := fun e' he' => hq e' (List.mem_cons_of_mem _ he')
    have hv : θ (unknown T v) = (read t).bind θ := (hsolved θ).1 (solves_cons.1 hθ).1
    have hθ' : Solves θ (assignQueue v t rest) :=
      solves_assignQueue_of_solves ht hrest hv (solves_cons.1 hθ).2
    calc (bindingSubst ((v, t) :: (solve (assignQueue v t rest)).bindings) x).bind θ
        = (Tree.single (unknown T v) (read t) x).bind fun y =>
            (bindingSubst (solve (assignQueue v t rest)).bindings y).bind θ := by
          rw [bindingSubst, Tree.bind_bind]
      _ = (Tree.single (unknown T v) (read t) x).bind θ :=
          Tree.bind_congr fun y _ => ih (flat_assignQueue ht hrest) hθ' y
      _ = θ x := Tree.single_bind hv x
  | case4 e rest pairs h ih =>
    have he : e.Flat := hq e List.mem_cons_self
    exact ih (flat_parts he h fun e' he' => hq e' (List.mem_cons_of_mem _ he'))
      ((solves_parts he h).2 hθ) x
  | case5 => rfl

/-- The bindings of a run that succeeds solve the queue. -/
theorem solve_solves {queue : List (Equation T O)} (hq : ∀ e ∈ queue, e.Flat)
    (hok : (solve queue).failure = none) : Solves (bindingSubst (solve queue).bindings) queue := by
  fun_induction solve queue with
  | case1 => exact solves_nil _
  | case2 e rest h ih =>
    rw [solves_cons]
    exact ⟨Equation.solved_of_step_drop (hq e List.mem_cons_self) h _,
      ih (fun e' he' => hq e' (List.mem_cons_of_mem _ he')) hok⟩
  | case3 e rest v t h ih =>
    obtain ⟨ht, hv, -, -, hsolved⟩ := Equation.solved_of_step_bind (hq e List.mem_cons_self) h
    have hrest : ∀ e' ∈ rest, e'.Flat := fun e' he' => hq e' (List.mem_cons_of_mem _ he')
    rw [solves_cons, hsolved]
    constructor
    · -- The term of the binding does not contain its variable, so it is not touched by it.
      show (Tree.single (unknown T v) (read t) (unknown T v)).bind _ = (read t).bind _
      rw [Tree.single_self]
      refine Tree.bind_congr fun x hx => ?_
      show _ = (Tree.single (unknown T v) (read t) x).bind _
      rw [Tree.single_of_ne (ne_of_mem_of_not_mem hx hv), Tree.bind_var]
    · exact (solves_assignQueue ht hrest _).1 (ih (flat_assignQueue ht hrest) hok)
  | case4 e rest pairs h ih =>
    have he : e.Flat := hq e List.mem_cons_self
    exact (solves_parts he h).1
      (ih (flat_parts he h fun e' he' => hq e' (List.mem_cons_of_mem _ he')) hok)
  | case5 => cases hok

/-- A queue with a faithful solution makes the run succeed. -/
theorem solve_succeeds {queue : List (Equation T O)} (hq : ∀ e ∈ queue, e.Flat) {S : X → Prop}
    (hS : ∀ e ∈ queue, ∀ x ∈ e.treeVars, S x) {θ : X → Tree C Y} (hθ : Solves θ queue)
    (hfaithful : Faithful T θ S) : (solve queue).failure = none := by
  fun_induction solve queue with
  | case1 => rfl
  | case2 e rest h ih =>
    exact ih (fun e' he' => hq e' (List.mem_cons_of_mem _ he'))
      (fun e' he' => hS e' (List.mem_cons_of_mem _ he')) (solves_cons.1 hθ).2
  | case3 e rest v t h ih =>
    obtain ⟨ht, -, -, hvars, hsolved⟩ := Equation.solved_of_step_bind (hq e List.mem_cons_self) h
    have hrest : ∀ e' ∈ rest, e'.Flat := fun e' he' => hq e' (List.mem_cons_of_mem _ he')
    have hv : θ (unknown T v) = (read t).bind θ := (hsolved θ).1 (solves_cons.1 hθ).1
    refine ih (flat_assignQueue ht hrest) ?_ ?_
    · exact treeVars_assignQueue ht hrest (fun e' he' => hS e' (List.mem_cons_of_mem _ he'))
        fun x hx => hS e List.mem_cons_self x (hvars hx)
    · exact solves_assignQueue_of_solves ht hrest hv (solves_cons.1 hθ).2
  | case4 e rest pairs h ih =>
    have he : e.Flat := hq e List.mem_cons_self
    refine ih (flat_parts he h fun e' he' => hq e' (List.mem_cons_of_mem _ he')) ?_ ?_
    · exact treeVars_parts he h (hS e List.mem_cons_self)
        fun e' he' => hS e' (List.mem_cons_of_mem _ he')
    · exact (solves_parts he h).2 hθ
  | case5 e rest error h =>
    refine absurd (solves_cons.1 hθ).1 ?_
    refine Equation.not_solved_of_step_error (hq e List.mem_cons_self) h ⟨?_, ?_⟩
    · exact fun hx => hfaithful.var (hS e List.mem_cons_self _ hx)
    · exact fun hx hx' => hfaithful.inj (hS e List.mem_cons_self _ hx)
        (hS e List.mem_cons_self _ hx')

end Run

end LetPoly
