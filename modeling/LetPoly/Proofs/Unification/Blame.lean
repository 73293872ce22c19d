import LetPoly.Proofs.Unification.MostGeneral
import LetPoly.Proofs.Unification.Store
import Mathlib.Data.List.Induction
import Mathlib.Data.List.Permutation
import Mathlib.Order.Bounds.Defs

/-!
# The equation that is blamed

Working off a queue goes by its prefixes: once the equations of a prefix are solved, the run goes on
with the others after the bindings made so far (`solve_append_of_ok`), and a prefix that fails ends
the run (`solve_append_of_failure`). So a run fails at the first equation that has no solution in
common with those before it, and its origin is the one reported. What the run has bound by then is
an instance of every most general unifier of the equations before (`Unifier.solve_blames_first`).
-/

namespace LetPoly

open Curried Term

variable {T V C X O : Type} [Term T V] [BEq T] [DecidableEq V]

/-! ### Runs along an append -/

/-- Carry bindings out on both sides of an equation. -/
def Equation.settled (bindings : List (V × T)) (e : Equation T O) : Equation T O :=
  { e with left := applyBindings bindings e.left, right := applyBindings bindings e.right }

omit [BEq T] in
lemma map_settled_cons (v : V) (t : T) (bindings : List (V × T)) (queue : List (Equation T O)) :
    (assignQueue v t queue).map (Equation.settled bindings) =
      queue.map (Equation.settled ((v, t) :: bindings)) := by
  rw [assignQueue, List.map_map]
  rfl

omit [BEq T] in
lemma assignQueue_append (v : V) (t : T) (queue queue' : List (Equation T O)) :
    assignQueue v t (queue ++ queue') = assignQueue v t queue ++ assignQueue v t queue' :=
  List.map_append

variable [LawfulTerm T V]

/-- A run that fails does not come to what is further back in the queue. -/
lemma solve_append_of_failure {queue : List (Equation T O)} {failure : Unsolved T V O}
    (h : (solve queue).failure = some failure) (queue' : List (Equation T O)) :
    solve (queue ++ queue') = solve queue := by
  fun_induction solve queue generalizing queue' with
  | case1 => cases h
  | case2 e rest hstep ih =>
    rw [List.cons_append, solve_cons, hstep]
    exact ih h queue'
  | case3 e rest v t hstep ih =>
    rw [List.cons_append, solve_cons, hstep]
    simp only [assignQueue_append]
    rw [ih h]
  | case4 e rest pairs hstep ih =>
    rw [List.cons_append, solve_cons, hstep]
    simp only [← List.append_assoc]
    exact ih h queue'
  | case5 e rest error hstep => rw [List.cons_append, solve_cons, hstep]

/-- A run that succeeds goes on with what is further back, after its bindings. -/
lemma solve_append_of_ok {queue : List (Equation T O)} (h : (solve queue).failure = none)
    (queue' : List (Equation T O)) : solve (queue ++ queue') =
      ⟨(solve queue).bindings ++
          (solve (queue'.map (Equation.settled (solve queue).bindings))).bindings,
        (solve (queue'.map (Equation.settled (solve queue).bindings))).failure⟩ := by
  fun_induction solve queue generalizing queue' with
  | case1 =>
    have hid : queue'.map (Equation.settled ([] : List (V × T))) = queue' := List.map_id queue'
    rw [hid]
    rfl
  | case2 e rest hstep ih =>
    rw [List.cons_append, solve_cons, hstep]
    exact ih h queue'
  | case3 e rest v t hstep ih =>
    rw [List.cons_append, solve_cons, hstep]
    simp only [assignQueue_append]
    rw [ih h, map_settled_cons]
    rfl
  | case4 e rest pairs hstep ih =>
    rw [List.cons_append, solve_cons, hstep]
    simp only [← List.append_assoc]
    exact ih h queue'
  | case5 => cases h

/-- A failure has the origin of an equation of the queue: parts have the origin of the whole. -/
lemma origin_of_failure {queue : List (Equation T O)} {failure : Unsolved T V O}
    (h : (solve queue).failure = some failure) : ∃ e ∈ queue, failure.origin = e.origin := by
  fun_induction solve queue with
  | case1 => cases h
  | case2 e rest hstep ih =>
    obtain ⟨e', he', horigin⟩ := ih h
    exact ⟨e', List.mem_cons_of_mem _ he', horigin⟩
  | case3 e rest v t hstep ih =>
    obtain ⟨e', he', horigin⟩ := ih h
    obtain ⟨e'', he'', rfl⟩ := List.mem_map.1 he'
    exact ⟨e'', List.mem_cons_of_mem _ he'', horigin⟩
  | case4 e rest pairs hstep ih =>
    obtain ⟨e', he', horigin⟩ := ih h
    rcases List.mem_append.1 he' with he' | he'
    · obtain ⟨p, _, rfl⟩ := List.mem_map.1 he'
      exact ⟨e, List.mem_cons_self, horigin⟩
    · exact ⟨e', List.mem_cons_of_mem _ he', horigin⟩
  | case5 e rest error hstep =>
    cases h
    exact ⟨e, List.mem_cons_self, rfl⟩

/-- A run that fails succeeds on the equations before the one with the origin reported, and fails
with this one already. -/
lemma exists_blamed {queue : List (Equation T O)} {failure : Unsolved T V O}
    (h : (solve queue).failure = some failure) :
    ∃ k e, queue[k]? = some e ∧ failure.origin = e.origin ∧
      (solve (queue.take k)).failure = none ∧ solve (queue.take (k + 1)) = solve queue := by
  induction queue using List.reverseRecOn with
  | nil => simp [solve] at h
  | append_singleton queue e ih =>
    cases hqueue : (solve queue).failure with
    | some failure' =>
      have hsolve := solve_append_of_failure hqueue [e]
      rw [hsolve, hqueue, Option.some.injEq] at h
      obtain ⟨k, e', hk, horigin, hok, hfail⟩ := ih (h ▸ hqueue)
      have hlt : k < queue.length := (List.getElem?_eq_some_iff.1 hk).1
      refine ⟨k, e', ?_, horigin, ?_, ?_⟩
      · rw [List.getElem?_append_left hlt, hk]
      · rwa [List.take_append_of_le_length (Nat.le_of_lt hlt)]
      · rw [List.take_append_of_le_length hlt, hfail, hsolve]
    | none =>
      rw [solve_append_of_ok hqueue] at h
      obtain ⟨e', he', horigin⟩ := origin_of_failure h
      obtain rfl : e' = e.settled (solve queue).bindings := List.mem_singleton.1 he'
      refine ⟨queue.length, e, ?_, horigin, ?_, ?_⟩
      · rw [List.getElem?_append_right (Nat.le_refl _), Nat.sub_self]
        rfl
      · rwa [List.take_left]
      · rw [List.take_of_length_le (by simp)]

/-! ### Most general unifiers of a prefix -/

/-- A unifier of which every other one is an instance. -/
structure Unifier.IsMostGeneral (flat : T → Bool) (act : (V → T) → T → T) (s : V → T)
    (queue : List (Equation T O)) : Prop where
  isFlat : ∀ v, flat (s v)
  unifies : Unifies act s queue
  instance_of {w : V → T} : (∀ v, flat (w v)) → Unifies act w queue →
    ∃ r : V → T, (∀ v, flat (r v)) ∧ ∀ v, (w v == act r (s v)) = true

variable [DecidableEq X] [Curried T V C X] {flat : T → Bool} {act : (V → T) → T → T} {var : V → T}
  {lift : (V → T) → X → Tree C X} {queue : List (Equation T O)}

omit [DecidableEq V] [LawfulTerm T V] in
lemma bindingSubst_append (bindings bindings' : List (V × T)) (x : X) :
    bindingSubst (bindings ++ bindings') x =
      (bindingSubst bindings x).bind (bindingSubst bindings') := by
  induction bindings generalizing x with
  | nil => rfl
  | cons b bindings ih =>
    obtain ⟨v, t⟩ := b
    rw [List.cons_append, bindingSubst, bindingSubst, Tree.bind_bind]
    exact Tree.bind_congr fun y _ => ih y

omit [DecidableEq V] [LawfulTerm T V] in
/-- Solutions stay solutions under further substitutions. -/
lemma Solves.comp {Y Z : Type} {θ : X → Tree C Y} (h : Solves θ queue) (η : Y → Tree C Z) :
    Solves (fun x => (θ x).bind η) queue := by
  intro e he
  have hsolved := congrArg (Tree.bind η) (h e he)
  rwa [Tree.bind_bind, Tree.bind_bind] at hsolved

/-- The error reported is that of a step, on an equation that the run has come to. -/
lemma step_of_failure {failure : Unsolved T V O} (hqueue : ∀ e ∈ queue, e.Flat)
    (h : (solve queue).failure = some failure) :
    ∃ e : Equation T O, e.Flat ∧ e.step = .error failure.error := by
  fun_induction solve queue with
  | case1 => cases h
  | case2 e rest hstep ih => exact ih (fun e' he' => hqueue e' (List.mem_cons_of_mem _ he')) h
  | case3 e rest v t hstep ih =>
    have ht := (Equation.solved_of_step_bind (hqueue e List.mem_cons_self) hstep).1
    exact ih (flat_assignQueue ht fun e' he' => hqueue e' (List.mem_cons_of_mem _ he')) h
  | case4 e rest pairs hstep ih =>
    exact ih (flat_parts (hqueue e List.mem_cons_self) hstep
      fun e' he' => hqueue e' (List.mem_cons_of_mem _ he')) h
  | case5 e rest error hstep =>
    cases h
    exact ⟨e, hqueue e List.mem_cons_self, hstep⟩

/-- The equation with the origin reported has no solution after the bindings of the run. -/
lemma not_solved_of_failure {failure : Unsolved T V O} (hqueue : ∀ e ∈ queue, e.Flat)
    (h : (solve queue).failure = some failure) :
    ∃ e ∈ queue, failure.origin = e.origin ∧ ∀ {Y : Type} (θ : X → Tree C Y),
      Faithful T θ (fun _ => True) →
        ¬ e.Solved fun x => (bindingSubst (solve queue).bindings x).bind θ := by
  fun_induction solve queue with
  | case1 => cases h
  | case2 e rest hstep ih =>
    obtain ⟨e', he', hrest⟩ := ih (fun e' he' => hqueue e' (List.mem_cons_of_mem _ he')) h
    exact ⟨e', List.mem_cons_of_mem _ he', hrest⟩
  | case3 e rest v t hstep ih =>
    have ht := (Equation.solved_of_step_bind (hqueue e List.mem_cons_self) hstep).1
    have hflat : ∀ e' ∈ rest, e'.Flat := fun e' he' => hqueue e' (List.mem_cons_of_mem _ he')
    obtain ⟨_, hmem, horigin, hunsolved⟩ := ih (flat_assignQueue ht hflat) h
    obtain ⟨e', he', rfl⟩ := List.mem_map.1 hmem
    refine ⟨e', List.mem_cons_of_mem _ he', horigin, fun θ hθ hsolved => hunsolved θ hθ ?_⟩
    rw [Equation.solved_assign ht (hflat e' he')]
    simpa only [Solution.after, bindingSubst, Tree.bind_bind] using hsolved
  | case4 e rest pairs hstep ih =>
    have he : e.Flat := hqueue e List.mem_cons_self
    obtain ⟨e', he', horigin, hunsolved⟩ := ih (flat_parts he hstep
      fun e' he' => hqueue e' (List.mem_cons_of_mem _ he')) h
    rcases List.mem_append.1 he' with hpart | he'
    -- a solution of the whole is one of its parts
    · refine ⟨e, List.mem_cons_self, ?_, fun θ hθ hsolved => hunsolved θ hθ ?_⟩
      · obtain ⟨p, -, rfl⟩ := List.mem_map.1 hpart
        exact horigin
      · exact (Equation.solved_of_step_split he hstep _).1 hsolved e' hpart
    · exact ⟨e', List.mem_cons_of_mem _ he', horigin, hunsolved⟩
  | case5 e rest error hstep =>
    cases h
    refine ⟨e, List.mem_cons_self, rfl, fun θ hθ => ?_⟩
    refine Equation.not_solved_of_step_error (hqueue e List.mem_cons_self) hstep ?_
    exact ⟨fun _ => hθ.var trivial, fun _ _ => hθ.inj trivial trivial⟩

namespace Acts

lemma isMostGeneral (h : Acts flat act var lift) (hqueue : ∀ e ∈ queue, e.Flat)
    (hok : (solve queue).failure = none) :
    Unifier.IsMostGeneral flat act (fun v => applyBindings (solve queue).bindings (var v)) queue where
  isFlat v := (h.flat_iff _).2 (h.flat_applyBindings (solve_flat hqueue) v)
  unifies := h.unifies_solve hqueue hok
  instance_of {w} hw hunifies := by
    have hw' : ∀ v, Flat (w v) := fun v => (h.flat_iff _).1 (hw v)
    refine ⟨w, hw, fun v => ?_⟩
    rw [h.act_beq_iff hw' (h.flat_applyBindings (solve_flat hqueue) v) (hw' v),
      read_applyBindings (solve_flat hqueue) (h.var v).1, (h.var v).2, Tree.bind_var,
      solve_absorbed hqueue ((h.unifies_iff hw' hqueue).1 hunifies), h.unknown]

/-- The bindings of a run that goes on after a prefix is solved unify the prefix. -/
lemma unifies_take (h : Acts flat act var lift) (hqueue : ∀ e ∈ queue, e.Flat) {k : Nat}
    (hok : (solve (queue.take k)).failure = none) :
    Unifier.Unifies act (fun v => applyBindings (solve queue).bindings (var v)) (queue.take k) := by
  have htake : ∀ e ∈ queue.take k, e.Flat := fun e he => hqueue e (List.mem_of_mem_take he)
  have hsolve := solve_append_of_ok hok (queue.drop k)
  rw [List.take_append_drop] at hsolve
  rw [h.unifies_iff (h.flat_applyBindings (solve_flat hqueue)) htake,
    h.lift_applyBindings (solve_flat hqueue), hsolve, funext (bindingSubst_append _ _)]
  exact (solve_solves htake hok).comp _

/-- What a run makes of flat terms is an instance of what a most general unifier of a prefix makes of
them. -/
lemma exists_instance (h : Acts flat act var lift) (hqueue : ∀ e ∈ queue, e.Flat) {k : Nat}
    (hok : (solve (queue.take k)).failure = none) {s : V → T}
    (hs : Unifier.IsMostGeneral flat act s (queue.take k)) :
    ∃ r : V → T, (∀ v, flat (r v)) ∧ ∀ t, Flat t →
      (applyBindings (solve queue).bindings t == act r (act s t)) = true := by
  have hflat := h.flat_applyBindings (solve_flat hqueue)
  obtain ⟨r, hr, hrs⟩ := hs.instance_of (fun v => (h.flat_iff _).2 (hflat v))
    (h.unifies_take hqueue hok)
  have hs' : ∀ v, Flat (s v) := fun v => (h.flat_iff _).1 (hs.isFlat v)
  have hr' : ∀ v, Flat (r v) := fun v => (h.flat_iff _).1 (hr v)
  refine ⟨r, hr, fun t ht => ?_⟩
  rw [h.act_beq_iff hr' (h.spec hs' ht).1 (LetPoly.flat_applyBindings (solve_flat hqueue) ht),
    (h.spec hs' ht).2, read_applyBindings (solve_flat hqueue) ht, Tree.bind_bind,
    ← h.lift_applyBindings (solve_flat hqueue)]
  refine Tree.bind_congr fun x _ => ?_
  by_cases hx : ∃ v, x = Curried.unknown T v
  · obtain ⟨v, rfl⟩ := hx
    rw [h.unknown, h.unknown]
    exact (h.act_beq_iff hr' (hs' v) (hflat v)).1 (hrs v)
  · have hrigid : IsRigid T x := fun v hv => hx ⟨v, hv⟩
    rw [h.rigid _ hrigid, h.rigid _ hrigid, Tree.bind_var, h.rigid _ hrigid]

end Acts

/-! ### The failure of a unifier -/

namespace Unifier

/-- The failure is put down to equation number `k`, counted from 0: it is the first that has no
unifier in common with those before it. The queue is empty afterwards, the same handles are live,
and one substitution makes all live terms out of what a most general unifier of the equations
before makes of their old values. -/
structure Blames (flat : T → Bool) (act : (V → T) → T → T) (u : Unifier T V O)
    (failure : Unsolved T V O) (k : Nat) : Prop where
  origin : ∃ e, u.queue[k]? = some e ∧ failure.origin = e.origin
  first : IsLeast {n | ¬ Unifiable flat act (u.queue.take n)} (k + 1)
  queue : u.solve.1.queue = []
  live (h : Handle) : (u.solve.1.term? h).isSome = (u.term? h).isSome
  exists_mostGeneral : ∃ s, IsMostGeneral flat act s (u.queue.take k)
  instances {s : V → T} : IsMostGeneral flat act s (u.queue.take k) →
    ∃ r : V → T, (∀ v, flat (r v)) ∧ ∀ h t, u.term? h = some t →
      ∃ t', u.solve.1.term? h = some t' ∧ (t' == act r (act s t)) = true

lemma exists_blames (hacts : Acts flat act var lift) {u : Unifier T V O}
    (hlive : ∀ h t, u.term? h = some t → Flat t) (hqueue : ∀ e ∈ u.queue, e.Flat)
    {failure : Unsolved T V O} (hfailure : u.solve.2 = some failure) :
    ∃ k, u.Blames flat act failure k := by
  obtain ⟨k, e, he, horigin, hok, hfail⟩ := exists_blamed hfailure
  have htake (n : Nat) : ∀ e ∈ u.queue.take n, e.Flat := fun e he =>
    hqueue e (List.mem_of_mem_take he)
  refine ⟨k, ⟨e, he, horigin⟩, ⟨?_, fun n hn => ?_⟩, rfl, fun h => ?_, ?_, fun {s} hs => ?_⟩
  · show ¬ Unifiable flat act (u.queue.take (k + 1))
    rw [hacts.unifiable_iff (htake (k + 1)), hfail]
    exact fun hnone => by cases hnone.symm.trans hfailure
  · -- A prefix of the equations before has the unifiers of all of them.
    by_contra hlt
    refine hn (((hacts.unifiable_iff (htake k)).2 hok).of_subset ?_)
    exact (List.take_prefix_take_left (by omega)).subset
  · rw [term?_solve, Option.isSome_map]
  · exact ⟨_, hacts.isMostGeneral (htake k) hok⟩
  · obtain ⟨r, hr, hinstance⟩ := hacts.exists_instance hqueue hok hs
    refine ⟨r, hr, fun h t ht => ⟨_, ?_, hinstance t (hlive h t ht)⟩⟩
    rw [term?_solve, ht]
    rfl

/-- A failure is put down to the first equation that has no unifier in common with those before it,
over kinds and over types. -/
theorem solve_blames_first :
    (∀ (O : Type) (u : Unifier Kind KindVar O), (∀ h k, u.term? h = some k → k.isFlat) →
      (∀ e ∈ u.queue, e.left.isFlat ∧ e.right.isFlat) → ∀ failure, u.solve.2 = some failure →
        ∃ k, u.Blames Kind.isFlat Kind.bindAll failure k) ∧
    (∀ (O : Type) (u : Unifier Ty String O), (∀ h t, u.term? h = some t → t.isFlat) →
      (∀ e ∈ u.queue, e.left.isFlat ∧ e.right.isFlat) → ∀ failure, u.solve.2 = some failure →
        ∃ k, u.Blames Ty.isFlat Ty.bindAll failure k) :=
  ⟨fun _ _ hlive hqueue _ => exists_blames Kind.acts hlive hqueue,
    fun _ _ hlive hqueue _ => exists_blames Ty.acts hlive hqueue⟩

/-- `f(y)` live under `x ≐ Int`, `f(x) ≐ List(Bool)` and `y ≐ Int`: the second equation is the one
that cannot be solved. -/
def clashingTypes : Unifier Ty String Nat :=
  ⟨⟨[.live 0 (.app (.var "f" .solvable none) [.var "y" .solvable none])], 1⟩,
    [⟨.var "x" .solvable none, .con "Int" none, 0⟩,
      ⟨.app (.var "f" .solvable none) [.var "x" .solvable none],
        .app (.con "List" none) [.con "Bool" none], 1⟩,
      ⟨.var "y" .solvable none, .con "Int" none, 2⟩], []⟩

/-- `K` live under `K ≐ * -> L` and `K ≐ *`. -/
def clashingKinds : Unifier Kind KindVar Nat :=
  ⟨⟨[.live 0 (.var ⟨0⟩)], 1⟩,
    [⟨.var ⟨0⟩, .chain [.atomic, .var ⟨1⟩], 0⟩, ⟨.var ⟨0⟩, .atomic, 1⟩], []⟩

theorem solve_blames_first_clashes :
    (clashingTypes.solve.2 = some ⟨1, .mismatch (.con "Int" none) (.con "Bool" none)⟩ ∧
      ∃ k, clashingTypes.Blames Ty.isFlat Ty.bindAll
        ⟨1, .mismatch (.con "Int" none) (.con "Bool" none)⟩ k) ∧
    clashingKinds.solve.2 = some ⟨1, .mismatch (.chain [.atomic, .var ⟨1⟩]) .atomic⟩ ∧
      ∃ k, clashingKinds.Blames Kind.isFlat Kind.bindAll
        ⟨1, .mismatch (.chain [.atomic, .var ⟨1⟩]) .atomic⟩ k := by
  have htypes : clashingTypes.solve.2 =
      some ⟨1, .mismatch (.con "Int" none) (.con "Bool" none)⟩ := by cbv
  have hkinds : clashingKinds.solve.2 =
      some ⟨1, .mismatch (.chain [.atomic, .var ⟨1⟩]) .atomic⟩ := by cbv
  refine ⟨⟨htypes, solve_blames_first.2 Nat _ (fun h t ht => ?_) (by decide) _ htypes⟩,
    hkinds, solve_blames_first.1 Nat _ (fun h k hk => ?_) (by decide) _ hkinds⟩
  · obtain rfl := List.mem_singleton.1 (Store.mem_terms_of_get? ht)
    decide
  · obtain rfl := List.mem_singleton.1 (Store.mem_terms_of_get? hk)
    decide

end Unifier

end LetPoly
