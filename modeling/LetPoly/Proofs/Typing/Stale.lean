import Mathlib
import LetPoly.Proofs.Ty.Free
import LetPoly.Proofs.Ty.Slots
import LetPoly.Proofs.Typing.Traced
import LetPoly.Proofs.Unification.Resolved

/-!
# No stale solutions

Once a variable is solved, by an equation or by the default type, it never turns up again: not in a
live type, not in a waiting equation, and not in a type that is handed out
(`Operation.solved_not_free`). This holds along every sequence of operations and at every step
inside them, in any scopes and also after errors, as long as no type that is brought in from outside
has a solvable variable free.

The invariant is `Moment.Current`: every variable in use was given out and has not been solved. Over
a whole run it makes the states that a film keeps `Orderly`.
-/

namespace LetPoly

open Inference Session Stage Watched

/-! ### Variables in use -/

namespace Inference

/-- The variables that have been solved. -/
def solvedVars (s : Inference) : List String := s.unifier.solved.map Prod.fst

/-- Variables that were given out and have not been solved. -/
def Unsolved (s : Inference) (v : String) : Prop :=
  (∃ i < s.next, v = Ty.freshName i) ∧ v ∉ s.solvedVars

/-- Only unsolved variables are free in the type. -/
def Uses (s : Inference) (t : Ty) : Prop := ∀ v ∈ t.unknowns, s.Unsolved v

/-- Every variable in use is unsolved, and what was solved had been given out. -/
structure Current (s : Inference) : Prop where
  live {h : Handle} {t : Ty} : s.term? h = some t → s.Uses t
  queue : ∀ e ∈ s.unifier.queue, s.Uses e.left ∧ s.Uses e.right
  solved : ∀ v ∈ s.solvedVars, ∃ i < s.next, v = Ty.freshName i

/-- The variable is free in no live type and in no waiting equation. -/
structure Lacks (s : Inference) (v : String) : Prop where
  live {h : Handle} {t : Ty} : s.term? h = some t → v ∉ t.unknowns
  queue : ∀ e ∈ s.unifier.queue, v ∉ e.left.unknowns ∧ v ∉ e.right.unknowns

variable {s : Inference}

lemma Current.lacks (hs : s.Current) {v : String} (hv : v ∈ s.solvedVars) : s.Lacks v where
  live ht hmem := (hs.live ht v hmem).2 hv
  queue e he := ⟨fun hmem => ((hs.queue e he).1 v hmem).2 hv,
    fun hmem => ((hs.queue e he).2 v hmem).2 hv⟩

lemma uses_of_eq_nil {t : Ty} (h : t.unknowns = []) : s.Uses t := by
  simp [Uses, h]

lemma Uses.arrow {a b : Ty} (ha : s.Uses a) (hb : s.Uses b) : s.Uses (.arrow a b) := by
  intro v hv
  have hv : v ∈ a.unknowns ∨ v ∈ b.unknowns := by
    simpa [Ty.arrow, Ty.builtin, Ty.unknowns, Ty.unknownsList] using hv
  exact hv.elim (ha v) (hb v)

lemma Unsolved.bump {v : String} (h : s.Unsolved v) (count : Nat) : (s.bump count).Unsolved v := by
  obtain ⟨⟨i, hi, rfl⟩, hv⟩ := h
  exact ⟨⟨i, Nat.lt_of_lt_of_le hi (Nat.le_add_right _ _), rfl⟩, hv⟩

lemma Uses.bump {t : Ty} (h : s.Uses t) (count : Nat) : (s.bump count).Uses t :=
  fun v hv => (h v hv).bump count

/-- What is given out next has not been solved. -/
lemma Current.unsolved_fresh (hs : s.Current) {count i : Nat} (hle : s.next ≤ i)
    (hlt : i < s.next + count) : (s.bump count).Unsolved (Ty.freshName i) := by
  refine ⟨⟨i, hlt, rfl⟩, fun hmem => ?_⟩
  obtain ⟨j, hj, heq⟩ := hs.solved _ hmem
  have := Ty.freshName_injective heq
  omega

lemma Current.bump (hs : s.Current) (count : Nat) : (s.bump count).Current where
  live ht := (hs.live ht).bump count
  queue e he := ⟨(hs.queue e he).1.bump count, (hs.queue e he).2.bump count⟩
  solved v hv := by
    obtain ⟨i, hi, rfl⟩ := hs.solved v hv
    exact ⟨i, Nat.lt_of_lt_of_le hi (Nat.le_add_right _ _), rfl⟩

lemma Current.tracked (hs : s.Current) {t : Ty} (ht : s.Uses t) : (s.tracked t).Current where
  live := by
    intro h t' ht'
    rw [term?_tracked] at ht'
    split at ht'
    · cases ht'
      exact ht
    · exact hs.live ht'
  queue := hs.queue
  solved := hs.solved

lemma Current.released (hs : s.Current) (h : Handle) : (s.released h).Current where
  live := by
    intro h' t ht
    rw [term?_released] at ht
    split at ht
    · cases ht
    · exact hs.live ht
  queue := hs.queue
  solved := hs.solved

lemma Current.equated (hs : s.Current) {a b : Ty} (ha : s.Uses a) (hb : s.Uses b)
    (origin : TypeOrigin) : (s.equated a b origin).Current where
  live := hs.live
  queue := by
    intro e he
    rcases List.mem_append.1 he with he | he
    · exact hs.queue e he
    · obtain rfl := List.mem_singleton.1 he
      exact ⟨ha, hb⟩
  solved := hs.solved

lemma Current.replaced (hs : s.Current) {h : Handle} {old t : Ty} (hold : s.term? h = some old)
    (ht : s.Uses t) : (s.replaced h t).Current where
  live := by
    intro h' t' ht'
    rw [term?_replaced hold] at ht'
    split at ht'
    · cases ht'
      exact ht
    · exact hs.live ht'
  queue := hs.queue
  solved := hs.solved

lemma solvedVars_settled (s : Inference) : s.settled.solvedVars =
    s.solvedVars ++ (LetPoly.solve s.unifier.queue).bindings.map Prod.fst := by
  simp [solvedVars, settled, Unifier.solve]

lemma solvedVars_subset_settled (s : Inference) : s.solvedVars ⊆ s.settled.solvedVars := by
  rw [solvedVars_settled]
  exact List.subset_append_left _ _

lemma Current.unsolved_of_mem_queueVars (hs : s.Current) {v : String}
    (hv : v ∈ queueVars s.unifier.queue) : s.Unsolved v := by
  obtain ⟨e, he, hv⟩ := mem_queueVars.1 hv
  exact (List.mem_append.1 hv).elim ((hs.queue e he).1 v) ((hs.queue e he).2 v)

/-- Solving leaves none of the variables that it binds, also if it fails. -/
lemma Current.settled (hs : s.Current) : s.settled.Current where
  live := by
    intro h t' ht'
    have hmap : s.settled.term? h = (s.term? h).map _ := Unifier.term?_solve s.unifier h
    rw [hmap] at ht'
    obtain ⟨t, ht, rfl⟩ := Option.map_eq_some_iff.1 ht'
    intro v hv
    obtain ⟨hkey, hvars⟩ := mem_vars_applyBindings_solve (T := Ty) (s := t) hv
    have hold : s.Unsolved v := hvars.elim (hs.live ht v) hs.unsolved_of_mem_queueVars
    refine ⟨hold.1, ?_⟩
    rw [solvedVars_settled, List.mem_append]
    exact fun h => h.elim hold.2 hkey
  queue e he := by cases he
  solved := by
    intro v hv
    rw [solvedVars_settled, List.mem_append] at hv
    rcases hv with hv | hv
    · exact hs.solved v hv
    · obtain ⟨b, hb, rfl⟩ := List.mem_map.1 hv
      exact (hs.unsolved_of_mem_queueVars (mem_queueVars_of_mem_solve _ b hb)).1

end Inference

/-! ### Moves -/

/-- The types that have no solvable variable free. -/
def Sources.solid : Sources where
  plain t := t.unknowns = []
  general t := t.unknowns = []
  kinds _ := True

/-- Every variable in use is unsolved. -/
structure Moment.Current (m : Moment) : Prop where
  state : m.state.Current
  held : ∀ t ∈ m.held, m.state.Uses t

lemma Inference.Current.start {s : Inference} (hs : s.Current) : (Moment.start s).Current :=
  ⟨hs, fun t ht => (by cases ht)⟩

lemma Moment.Current.built {m : Moment} (hm : m.Current) {t : Ty} (ht : Built .solid m.held t) :
    m.state.Uses t := by
  induction ht with
  | held h => exact hm.held _ h
  | plain h => exact uses_of_eq_nil h
  | arrow _ _ iha ihb => exact iha.arrow ihb

lemma Moment.Current.gain {m : Moment} (hm : m.Current) {count : Nat} {t : Ty}
    (ht : (m.state.bump count).Uses t) : (m.gain count t).Current :=
  ⟨hm.state.bump count, List.forall_mem_cons.2 ⟨ht, fun t' ht' => (hm.held t' ht').bump count⟩⟩

/-- New variables are put for those that a type quantifies over. -/
lemma Inference.Current.uses_instanceAt {s : Inference} (hs : s.Current) {t : Ty} (ht : s.Uses t) :
    (s.bump t.boundCount).Uses (t.instanceAt s.next) := by
  cases t with
  | scheme vars body =>
    intro v hv
    rcases Scheme.mem_unknowns_instantiate (by simp) hv with hv | ⟨u, hu, hv⟩
    · exact (ht v hv).bump _
    · obtain ⟨i, hi, rfl⟩ := List.mem_map.1 hu
      obtain rfl := List.mem_singleton.1 hv
      have hi := List.mem_range'_1.1 hi
      exact hs.unsolved_fresh hi.1 hi.2
  | con _ _ => exact ht.bump _
  | var _ _ _ => exact ht.bump _
  | app _ _ => exact ht.bump _

lemma Inference.uses_rigidInstance {s : Inference} {sc : Scheme} (h : sc.toTy.unknowns = []) :
    s.Uses (rigidInstance sc s.next) := by
  intro v hv
  rcases Scheme.mem_unknowns_instantiate (by rw [List.length_map, length_skolemNames]) hv with
    hv | ⟨u, hu, hv⟩
  · rw [h] at hv
    cases hv
  · obtain ⟨y, _, rfl⟩ := List.mem_map.1 hu
    cases hv

lemma Moves.current {m m' : Moment} (hmove : Moves .solid m m') (hm : m.Current) : m'.Current := by
  cases hmove with
  | fresh =>
    refine hm.gain fun v hv => ?_
    obtain rfl := List.mem_singleton.1 hv
    exact hm.state.unsolved_fresh (Nat.le_refl _) (Nat.lt_succ_self _)
  | liveInstance ht => exact hm.gain (hm.state.uses_instanceAt (hm.state.live ht))
  | sourceInstance ht => exact hm.gain (hm.state.uses_instanceAt (uses_of_eq_nil ht))
  | rigidInstance hsc => exact hm.gain ((uses_rigidInstance hsc).bump _)
  | read _ ht => exact hm.gain (hm.state.live ht)
  | track ht => exact ⟨hm.state.tracked (hm.built ht), hm.held⟩
  | enter ht => exact ⟨hm.state.tracked (uses_of_eq_nil ht), hm.held⟩
  | release h => exact ⟨hm.state.released h, hm.held⟩
  | stray h => exact ⟨⟨hm.state.live, hm.state.queue, hm.state.solved⟩, hm.held⟩
  | equate origin ha hb => exact ⟨hm.state.equated (hm.built ha) (hm.built hb) origin, hm.held⟩
  | solve _ => exact ⟨hm.state.settled, fun t ht => (by cases ht)⟩
  | close _ ht hg =>
    have hold := hm.state.live ht
    exact ⟨hm.state.replaced ht fun v hv => hold v (Ty.mem_unknowns_generalize hg hv), hm.held⟩
  | note kinds => exact ⟨⟨hm.state.live, hm.state.queue, hm.state.solved⟩, hm.held⟩

/-- What is solved stays so. -/
lemma Moves.solvedVars_subset {S : Sources} {m m' : Moment} (hmove : Moves S m m') :
    m.state.solvedVars ⊆ m'.state.solvedVars := by
  cases hmove with
  | solve _ => exact solvedVars_subset_settled m.state
  | _ => exact List.Subset.refl _

/-! ### Defaults -/

namespace Inference

variable {s : Inference}

lemma solvedVars_resolved (s : Inference) (v : String) (t : Ty) :
    (s.resolved v t).solvedVars = s.solvedVars ++ [v] := by
  simp [solvedVars, resolved, Unifier.resolve]

/-- A type without solvable variables is put for a variable. -/
lemma Uses.resolved {t d : Ty} (ht : s.Uses t) (v : String) (hd : d.unknowns = []) :
    (s.resolved v d).Uses (Term.assign v d t) := by
  intro w hw
  rcases Term.mem_vars_assign (T := Ty) hw with ⟨hw, hne⟩ | hw
  · refine ⟨(ht w hw).1, ?_⟩
    rw [solvedVars_resolved, List.mem_append, List.mem_singleton]
    exact fun h => h.elim (ht w hw).2 hne
  · rw [show Term.vars d = [] from hd] at hw
    cases hw

lemma Current.resolved (hs : s.Current) {v : String} {d : Ty}
    (hv : ∃ i < s.next, v = Ty.freshName i) (hd : d.unknowns = []) : (s.resolved v d).Current where
  live := by
    intro h t' ht'
    rw [term?_resolved] at ht'
    obtain ⟨t, ht, rfl⟩ := Option.map_eq_some_iff.1 ht'
    exact (hs.live ht).resolved v hd
  queue := by
    intro e' he'
    obtain ⟨e, he, rfl⟩ := List.mem_map.1 he'
    exact ⟨(hs.queue e he).1.resolved v hd, (hs.queue e he).2.resolved v hd⟩
  solved := by
    intro w hw
    rw [solvedVars_resolved, List.mem_append, List.mem_singleton] at hw
    rcases hw with hw | rfl
    · exact hs.solved w hw
    · exact hv

lemma Current.defaulted (hs : s.Current) {d : Ty} (hd : d.unknowns = []) :
    (s.defaulted d).Current := by
  have hgiven : ∀ v ∈ s.unifier.unresolved, ∃ i < s.next, v = Ty.freshName i := by
    intro v hv
    obtain ⟨t, ht, hv⟩ := List.mem_flatMap.1 (List.mem_eraseDups.1 hv)
    obtain ⟨h, ht⟩ := Store.exists_get?_of_mem_terms ht
    exact (hs.live ht v hv).1
  rw [defaulted_eq]
  generalize s.unifier.unresolved = vs at hgiven
  induction vs generalizing s with
  | nil => exact hs
  | cons v vs ih =>
    rw [List.forall_mem_cons] at hgiven
    exact ih (hs.resolved hgiven.1 hd) hgiven.2

lemma solvedVars_subset_defaulted (s : Inference) (d : Ty) :
    s.solvedVars ⊆ (s.defaulted d).solvedVars := by
  rw [defaulted_eq]
  generalize s.unifier.unresolved = vs
  induction vs generalizing s with
  | nil => exact List.Subset.refl _
  | cons v vs ih =>
    refine List.Subset.trans ?_ (ih (s.resolved v d))
    rw [solvedVars_resolved]
    exact List.subset_append_left _ _

end Inference

/-! ### Histories -/

/-- States that a run has passed through, the latest first: in each of them every variable in use is
unsolved, and what is solved in one is so in the later ones. -/
structure Orderly (states : List Inference) : Prop where
  current : ∀ s ∈ states, s.Current
  solved : states.Pairwise fun later earlier => earlier.solvedVars ⊆ later.solvedVars

/-- The run has got on to a later state. -/
lemma Orderly.advance {s s' : Inference} {states : List Inference} (h : Orderly (s :: states))
    (hs' : s'.Current) (hsub : s.solvedVars ⊆ s'.solvedVars) : Orderly (s' :: states) := by
  have hcurrent := List.forall_mem_cons.1 h.current
  have hsolved := List.pairwise_cons.1 h.solved
  refine ⟨List.forall_mem_cons.2 ⟨hs', hcurrent.2⟩, List.pairwise_cons.2 ⟨?_, hsolved.2⟩⟩
  exact fun t ht => List.Subset.trans (hsolved.1 t ht) hsub

lemma Orderly.sublist {states states' : List Inference} (h : Orderly states')
    (hsub : states.Sublist states') : Orderly states :=
  ⟨fun s hs => h.current s (hsub.subset hs), h.solved.sublist hsub⟩

/-- The latest state is kept. -/
lemma Orderly.keep {s : Inference} {states : List Inference} (h : Orderly (s :: states)) :
    Orderly (s :: s :: states) := by
  refine ⟨List.forall_mem_cons.2 ⟨h.current s List.mem_cons_self, h.current⟩, ?_⟩
  refine List.pairwise_cons.2 ⟨List.forall_mem_cons.2 ⟨List.Subset.refl _, ?_⟩, h.solved⟩
  exact (List.pairwise_cons.1 h.solved).1

/-- What is solved in a state is so in the later ones, and it is out of use there. -/
lemma Orderly.lacks {later earlier : List Inference} {s s' : Inference} {v : String}
    (h : Orderly (later ++ s :: earlier)) (hs' : s' ∈ later ++ [s]) (hv : v ∈ s.solvedVars) :
    v ∈ s'.solvedVars ∧ s'.Lacks v := by
  have hv' : v ∈ s'.solvedVars := by
    rcases List.mem_append.1 hs' with hs' | hs'
    · exact (List.pairwise_append.1 h.solved).2.2 s' hs' s List.mem_cons_self hv
    · exact List.mem_singleton.1 hs' ▸ hv
  have hmem : s' ∈ later ++ s :: earlier := List.append_cons later s earlier ▸
    List.mem_append_left earlier hs'
  exact ⟨hv', (h.current s' hmem).lacks hv'⟩

section Histories

variable {m m' : Moment} {s : Inference} {states past : List Inference}

lemma Reel.orderly (h : Reel .solid m states m') (hm : m.Current)
    (hpast : Orderly (m.state :: past)) : m'.Current ∧ Orderly (m'.state :: (states ++ past)) := by
  induction h with
  | start => exact ⟨hm, hpast⟩
  | move _ hmove ih =>
    have hcurrent := hmove.current ih.1
    exact ⟨hcurrent, ih.2.advance hcurrent.state hmove.solvedVars_subset⟩
  | keep _ ih => exact ⟨ih.1, ih.2.keep⟩

lemma HaltsPast.orderly (h : HaltsPast .solid m states s) (hm : m.Current)
    (hpast : Orderly (m.state :: past)) : Orderly (s :: (states ++ past)) := by
  obtain ⟨m', before, hreel, hs, hstates⟩ := h
  obtain ⟨hm', horderly⟩ := hreel.orderly hm hpast
  have hlast : Orderly (s :: (before ++ past)) := by
    rcases hs with rfl | rfl
    · exact horderly
    · exact horderly.advance hm'.state.settled (solvedVars_subset_settled _)
  rcases hstates with rfl | rfl
  · exact hlast
  · exact hlast.keep

end Histories

/-- The states that a film has come through, with the present one, are orderly. -/
def Film.Orderly (f : Film) : Prop := LetPoly.Orderly (f.state :: f.states)

/-! ### Operations -/

/-- An operation of inference from outside, in the scopes that it is given. -/
inductive Operation where
  | declare (env : Env) (decls : List Decl)
  | bindValue (env : Env) (name : String) (ascription : Option Ty) (value : Expr)
  | registerConstructors (env : Env) (d : Datatype)
  | inferExpr (env : Env) (e : Expr)
  | track (t : Ty)
  | solve
  | finish

/-- Where an operation leads to, also after an error, and the type handed out. -/
structure Outcome (σ : Type) where
  state : σ
  returned : Option Ty

/-- An outcome without its film. -/
def Outcome.plain (o : Outcome Film) : Outcome Inference := ⟨o.state.state, o.returned⟩

namespace Operation

variable {σ : Type} [Stage σ]

/-- What an operation does. Gives the type that it hands out. -/
def act (config : Config) : Operation → RunM σ (Option Ty)
  | .declare env decls => do
    let _ ← within env (LetPoly.declare config decls)
    return none
  | .bindValue env name ascription value => do
    let _ ← within env (LetPoly.bindValue config name ascription value)
    return none
  | .registerConstructors env d => do
    let _ ← within env (LetPoly.registerConstructors d)
    return none
  | .inferExpr env e => do
    let ty ← e.inferSolved config env
    return some ty
  | .track ty => do
    let _ ← step .empty (Inference.track ty)
    return none
  | .solve => do
    step .empty Inference.solve
    return none
  | .finish => do
    let _ ← within ⟨.empty, .empty⟩ (LetPoly.finish config)
    return none

/-- Carry out an operation. -/
def run (config : Config) (s : σ) (op : Operation) : Outcome σ :=
  match op.act config s with
  | .ok ty s' => ⟨s', ty⟩
  | .error _ s' => ⟨s', none⟩

/-- Carry out operations one after the other. -/
def perform (config : Config) (ops : List Operation) (o : Outcome σ) : Outcome σ :=
  ops.foldl (fun o op => op.run config o.state) o

/-- Carry out operations one after the other, from the start of a run. -/
def runAll (config : Config) (ops : List Operation) : Outcome Inference :=
  perform config ops ⟨.initial, none⟩

/-- Carry out operations one after the other, from the start of a run, with a film. -/
def filmAll (config : Config) (ops : List Operation) : Outcome Film :=
  perform config ops ⟨⟨.initial, [], []⟩, none⟩

lemma films_act (config : Config) (op : Operation) : Films (op.act config) (op.act config) := by
  cases op with
  | declare env decls => exact (Shows.within env (films_declare config decls)).bind fun _ => .pure _
  | bindValue env name ascription value =>
    have hvalue := films_bindValueWith config name ascription
      fun env => value.films_infer config env
    exact (Shows.within env hvalue).bind fun _ => .pure _
  | registerConstructors env d =>
    exact (Shows.within env (films_registerEach d d.constructors)).bind fun _ => .pure _
  | inferExpr env e => exact (e.films_inferSolved config env).bind fun _ => .pure _
  | track ty => exact (Shows.step _ _).bind fun _ => .pure _
  | solve => exact (Shows.step _ _).bind fun _ => .pure _
  | finish =>
    have hfinish : FilmsIn (LetPoly.finish config) (LetPoly.finish config) :=
      (Shows.stepIn _).bind fun _ => .stepIn _
    exact (Shows.within _ hfinish).bind fun _ => .pure _

lemma plain_run (config : Config) (f : Film) (op : Operation) :
    (op.run config f).plain = op.run config f.state := by
  rw [run, run, ← films_act config op f]
  cases op.act config f <;> rfl

/-- The film is one of the run. -/
lemma plain_perform (config : Config) (ops : List Operation) (o : Outcome Film) :
    (perform config ops o).plain = perform config ops o.plain := by
  induction ops generalizing o with
  | nil => rfl
  | cons op ops ih =>
    rw [perform, perform, List.foldl_cons, List.foldl_cons]
    exact (ih _).trans (congrArg (perform config ops) (plain_run config o.state op))

/-- Types without solvable variables. -/
def solidTypes : TypeTest where
  param t := t.unknowns = []
  binding t := t.unknowns = []
  group ds := ∀ d ∈ ds, d.All fun t => t.unknowns = []

/-- Whether no type that an operation brings in has a solvable variable free. -/
def Solid : Operation → Prop
  | .declare _ decls => solidTypes.group (Decl.datatypes decls) ∧ Decl.Meets solidTypes decls
  | .bindValue _ _ ascription value =>
    (∀ t, ascription = some t → t.unknowns = []) ∧ value.Meets solidTypes
  | .registerConstructors _ d => d.All fun t => t.unknowns = []
  | .inferExpr _ e => e.Meets solidTypes
  | .track t => t.unknowns = []
  | .solve => True
  | .finish => True

end Operation

/-- Whether no type that comes from the configuration has a solvable variable free. -/
structure Config.Solid (config : Config) : Prop where
  internal : ∀ t ∈ config.prelude.internals.values, t.unknowns = []
  default : config.defaultTy.unknowns = []

lemma Config.Solid.serves {config : Config} (h : config.Solid) : Sources.solid.Serves config where
  literal value := by cases value <;> rfl
  bool := rfl
  internal hfind := h.internal _ (List.mem_map_of_mem (f := Prod.snd) (Table.mem_of_lookup hfind))
  child _ := trivial

lemma Ty.unknowns_function {params : List Ty} {result : Ty} {v : String}
    (h : v ∈ (Ty.function params result).unknowns) :
    (∃ t ∈ params, v ∈ t.unknowns) ∨ v ∈ result.unknowns := by
  induction params with
  | nil => exact .inr h
  | cons t params ih =>
    have h : v ∈ t.unknowns ∨ v ∈ (Ty.function params result).unknowns := by
      simpa [Ty.function, Ty.arrow, Ty.builtin, Ty.unknowns, Ty.unknownsList] using h
    rcases h with h | h
    · exact .inl ⟨t, List.mem_cons_self, h⟩
    · refine (ih h).imp_left ?_
      rintro ⟨t', ht', h⟩
      exact ⟨t', List.mem_cons_of_mem _ ht', h⟩

lemma Datatype.All.registers {d : Datatype} (hd : d.All fun t => t.unknowns = []) :
    Sources.solid.Registers d := by
  intro c hc q hq
  refine List.eq_nil_iff_forall_not_mem.2 fun v hv => ?_
  rcases Ty.unknowns_function (Ty.mem_unknowns_quantify hq hv) with ⟨t, ht, hv⟩ | hv
  · rw [hd.field hc t ht] at hv
    cases hv
  · rw [hd.head] at hv
    cases hv

lemma Operation.solidTypes_le : solidTypes.Le Sources.solid.test where
  param ht _ _ found _ := (Ty.unknowns_fill _ found).trans ht
  binding := by
    intro t ht _ _ found _ q hq
    have hnil : q.unknowns = [] := by
      refine List.eq_nil_iff_forall_not_mem.2 fun v hv => ?_
      have hv := Ty.mem_unknowns_quantify hq hv
      rw [Ty.unknowns_fill, ht] at hv
      cases hv
    split <;> exact hnil
  group := by
    intro ds hds _ _ found _
    refine ⟨trivial, fun d' hd' => ?_⟩
    obtain ⟨d, hd, own, rfl⟩ := mem_fillDatatypes hd'
    exact ((hds d hd).fill (fun t kinds ht => (Ty.unknowns_fill t kinds).trans ht) own).registers

/-- Inferring and then solving hands a current type out. -/
lemma follows_inferSolved {S : Sources} {config : Config} {σ : Type} [Watched σ]
    (hserves : S.Serves config) {e : Expr} (he : e.Meets S.test) (m : Moment) (env : Env)
    (hkinds : S.kinds env.kinds) :
    Follows S m (e.inferSolved config env : RunM σ Ty) fun t m' => Built S m'.held t := by
  refine (e.infer_follows hserves he m env hkinds).bind fun t m₁ h₁ => ?_
  refine ((follows_track h₁.1).step env.values).bind fun h m₂ h₂ => ?_
  refine (follows_solve.step env.values).bind ?_
  rintro _ _ ⟨rfl, _⟩
  exact ((follows_take (m := m₂.solve) h₂.1).step env.values).imp fun t m' h' => h'.1

/-- How a film goes on: it stays orderly, and what was solved stays so. -/
structure Film.Continues (f f' : Film) : Prop where
  orderly : f'.Orderly
  solved : f.state.solvedVars ⊆ f'.state.solvedVars

lemma Film.Continues.trans {f f' f'' : Film} (h : f.Continues f') (h' : f'.Continues f'') :
    f.Continues f'' :=
  ⟨h'.orderly, List.Subset.trans h.solved h'.solved⟩

lemma Film.Orderly.continues_shoot {f : Film} (hf : f.Orderly) {s : Inference} (hs : s.Current)
    (hsub : f.state.solvedVars ⊆ s.solvedVars) (values : Scope Handle) :
    f.Continues (f.shoot values s) :=
  ⟨(hf.advance hs hsub).keep, hsub⟩

lemma Film.continues_of_passes {f f' : Film} {states : List Inference}
    (hpasses : Passes f states f')
    (horderly : LetPoly.Orderly (f'.state :: (states ++ f.state :: f.states))) :
    f.Continues f' where
  orderly := by
    rw [Film.Orderly, show f'.states = states ++ f.states from hpasses]
    exact horderly.sublist (.cons_cons _ (.append_left (List.sublist_cons_self _ _) states))
  solved := (List.pairwise_cons.1 horderly.solved).1 _ (by simp)

namespace Operation

variable {config : Config} {f : Film}

/-- What an operation makes of a film. The variables in the type handed out are unsolved. -/
structure Continues (o : Outcome Film) (f : Film) : Prop where
  film : f.Continues o.state
  returned {t : Ty} : o.returned = some t → o.state.state.Uses t

/-- The type that is handed out, if any, is current. -/
def HandsOut (ty : Option Ty) (m : Moment) : Prop := ∀ t, ty = some t → Built .solid m.held t

lemma follows_silent {α : Type} {m : Moment} {x : RunM Film α} {Q : α → Moment → Prop}
    (hx : Follows .solid m x Q) : Follows .solid m (x >>= fun _ => pure none) HandsOut :=
  hx.bind fun _ _ _ => .pure fun _ h => (by cases h)

lemma continues_of_follows {op : Operation} (hf : f.Orderly)
    (hop : Follows .solid (.start f.state) (op.act config : RunM Film _) HandsOut) :
    Continues (op.run config f) f := by
  have hstart := (hf.current _ List.mem_cons_self).start
  have hrun := hop f rfl
  rw [run]
  cases hact : op.act config f with
  | ok ty f' =>
    rw [hact] at hrun
    obtain ⟨m', states, hreel, hstate, hpasses, hbuilt⟩ := hrun
    obtain ⟨hm', horderly⟩ := hreel.orderly hstart hf.keep
    have hstate : m'.state = f'.state := hstate
    rw [hstate] at horderly
    exact ⟨Film.continues_of_passes hpasses horderly,
      fun {t} ht => hstate ▸ hm'.built (hbuilt t ht)⟩
  | error e f' =>
    rw [hact] at hrun
    obtain ⟨states, hhalts, hpasses⟩ := hrun
    exact ⟨Film.continues_of_passes hpasses (hhalts.orderly hstart hf.keep),
      fun ht => (by cases ht)⟩

/-- Defaults are no moves. They are given once all equations are solved. -/
lemma continues_finish (hconfig : config.Solid) (hf : f.Orderly) :
    Continues ((Operation.finish).run config f) f := by
  have hs := (hf.current _ List.mem_cons_self).settled
  have hsettled : f.Continues (f.shoot .empty f.state.settled) :=
    hf.continues_shoot hs (solvedVars_subset_settled _) .empty
  cases hfailure : (LetPoly.solve f.state.unifier.queue).failure with
  | none =>
    have hsolve := Film.stepIn_of_ok (f := ⟨f, ⟨.empty, .empty⟩⟩)
      (liftM_of_ok (solve_run (s := f.state) hfailure))
    have hfinish : LetPoly.finish config ⟨f, ⟨.empty, .empty⟩⟩ =
        .ok () ⟨(f.shoot .empty f.state.settled).shoot .empty
          (f.state.settled.defaulted config.defaultTy), ⟨.empty, .empty⟩⟩ := by
      rw [LetPoly.finish, bind_of_ok hsolve]
      rfl
    rw [run, act, bind_of_ok (within_eq_ok.2 hfinish)]
    exact ⟨hsettled.trans (hsettled.orderly.continues_shoot (hs.defaulted hconfig.default)
      (solvedVars_subset_defaulted _ _) .empty), fun ht => (by cases ht)⟩
  | some unsolved =>
    have hsolve := Film.stepIn_of_error (f := ⟨f, ⟨.empty, .empty⟩⟩)
      (liftM_of_error (solve_of_failure (s := f.state) hfailure))
    have hfinish : LetPoly.finish config ⟨f, ⟨.empty, .empty⟩⟩ =
        .error (.error (explainTypes unsolved)) ⟨f.shoot .empty f.state.settled,
          ⟨.empty, .empty⟩⟩ := bind_of_error hsolve
    rw [run, act, bind_of_error (within_of_error hfinish)]
    exact ⟨hsettled, fun ht => (by cases ht)⟩

lemma run_continues (hconfig : config.Solid) (hf : f.Orderly) {op : Operation} (hop : op.Solid) :
    Continues (op.run config f) f := by
  have hserves := hconfig.serves
  cases op with
  | declare env decls =>
    exact continues_of_follows hf (follows_silent (.within (follows_declare hserves
      (solidTypes_le.group hop.1) (Decl.Meets.imp solidTypes_le decls hop.2) trivial)))
  | bindValue env name ascription value =>
    exact continues_of_follows hf (follows_silent (.within (follows_bindValueWith trivial
      (fun t ht => solidTypes_le.binding (hop.1 t ht)) fun m env _ =>
        value.infer_follows hserves (Expr.Meets.imp solidTypes_le value hop.2) m env trivial)))
  | registerConstructors env d =>
    exact continues_of_follows hf (follows_silent (.within
      (follows_registerEach (I := fun _ _ => True) trivial
        fun c hc q hq => ⟨Datatype.All.registers hop c hc q hq, fun _ _ h => h⟩)))
  | inferExpr env e =>
    refine continues_of_follows hf ?_
    refine (follows_inferSolved hserves (Expr.Meets.imp solidTypes_le e hop) _ env trivial).bind ?_
    rintro t m' ht
    refine .pure ?_
    rintro _ ⟨⟩
    exact ht
  | track t => exact continues_of_follows hf (follows_silent ((follows_enter hop).step _))
  | solve => exact continues_of_follows hf (follows_silent (follows_solve.step _))
  | finish => exact continues_finish hconfig hf

/-- What operations make of a film, in any order. -/
lemma perform_continues (hconfig : config.Solid) {ops : List Operation}
    (hops : ∀ op ∈ ops, op.Solid) {o : Outcome Film} (ho : o.state.Orderly)
    (hreturned : ∀ t, o.returned = some t → o.state.state.Uses t) :
    Continues (perform config ops o) o.state := by
  induction ops generalizing o with
  | nil => exact ⟨⟨ho, List.Subset.refl _⟩, fun {t} ht => hreturned t ht⟩
  | cons op ops ih =>
    rw [List.forall_mem_cons] at hops
    have hop := run_continues hconfig ho hops.1
    have hrest := ih hops.2 hop.film.orderly fun t ht => hop.returned ht
    exact ⟨hop.film.trans hrest.film, fun {t} ht => hrest.returned ht⟩

lemma orderly_start : Film.Orderly ⟨.initial, [], []⟩ where
  current := List.forall_mem_cons.2
    ⟨⟨fun ht => (by cases ht), fun e he => (by cases he), fun v hv => (by cases hv)⟩,
      fun s hs => (by cases hs)⟩
  solved := List.pairwise_singleton _ _

lemma plain_filmAll (config : Config) (ops : List Operation) :
    (filmAll config ops).plain = runAll config ops :=
  plain_perform config ops _

lemma filmAll_continues (hconfig : config.Solid) {before after : List Operation}
    (hops : ∀ op ∈ before ++ after, op.Solid) :
    Continues (filmAll config (before ++ after)) (filmAll config before).state := by
  rw [List.forall_mem_append] at hops
  have hbefore := perform_continues hconfig hops.1 (o := ⟨⟨.initial, [], []⟩, none⟩) orderly_start
    fun t ht => by cases ht
  have hafter := perform_continues hconfig hops.2 hbefore.film.orderly
    fun t ht => hbefore.returned ht
  rw [filmAll, perform, List.foldl_append]
  exact hafter

/-- Once a variable is solved, it is free in no live type, in no waiting equation and in no type
handed out: not after the operation that it was solved by and after any further ones, and not at any
step inside them. -/
theorem solved_not_free (config : Config) (before after : List Operation) (hconfig : config.Solid)
    (hops : ∀ op ∈ before ++ after, op.Solid) :
    (∀ v ∈ (runAll config before).state.solvedVars,
      (runAll config (before ++ after)).state.Lacks v ∧
      ∀ t, (runAll config (before ++ after)).returned = some t → v ∉ t.unknowns) ∧
    (filmAll config (before ++ after)).plain = runAll config (before ++ after) ∧
    ∀ later frame earlier,
      (filmAll config (before ++ after)).state.frames = later ++ frame :: earlier →
      ∀ v ∈ frame.state.solvedVars, (∀ frame' ∈ later ++ [frame], frame'.state.Lacks v) ∧
        ∀ t, (runAll config (before ++ after)).returned = some t → v ∉ t.unknowns := by
  have hfilm := filmAll_continues hconfig hops
  rw [← plain_filmAll config (before ++ after), ← plain_filmAll config before]
  generalize filmAll config (before ++ after) = o at hfilm ⊢
  have hreturned {v : String} (hv : v ∈ o.state.state.solvedVars) (t : Ty)
      (ht : o.returned = some t) : v ∉ t.unknowns :=
    fun hmem => (hfilm.returned ht v hmem).2 hv
  refine ⟨fun v hv => ?_, rfl, fun later frame earlier hframes v hv => ?_⟩
  · have hv := hfilm.film.solved hv
    exact ⟨(hfilm.film.orderly.current _ List.mem_cons_self).lacks hv, hreturned hv⟩
  · -- The present state comes after those of all frames.
    have horderly : Orderly ((o.state.state :: later.map Frame.state) ++
        frame.state :: earlier.map Frame.state) := by
      have h := hfilm.film.orderly
      rwa [Film.Orderly, Film.states, hframes, List.map_append, List.map_cons] at h
    refine ⟨fun frame' hframe' => (horderly.lacks (List.mem_cons_of_mem _ ?_) hv).2,
      hreturned (horderly.lacks List.mem_cons_self hv).1⟩
    have hmem := List.mem_map_of_mem (f := Frame.state) hframe'
    rwa [List.map_append] at hmem

/-- The type of a parameter is found in the middle of its function, where a `let` binds a value; one
expression is refused, and the run goes on. -/
def parameterAtOne : List Operation :=
  [.inferExpr ⟨.empty, Prelude.standard.kindScope⟩ (.lambda ["f"]
      (.letIn [.value "y" none (.app (.ident "f") (.literal (.int 1))) {}] (.ident "y"))),
    .inferExpr ⟨.empty, Prelude.standard.kindScope⟩ (.ident "y"),
    .track (.var "a" .rigid none)]

/-- The variable of the parameter is solved while the parameter is in scope, and it is never seen
again. -/
theorem solved_not_free_parameterAtOne :
    "'t0" ∈ (runAll {} parameterAtOne).state.solvedVars ∧
    (runAll {} (parameterAtOne ++ [.finish])).state.Lacks "'t0" ∧
    (filmAll {} (parameterAtOne ++ [.finish])).plain = runAll {} (parameterAtOne ++ [.finish]) ∧
    ∃ later frame earlier,
      (filmAll {} (parameterAtOne ++ [.finish])).state.frames = later ++ frame :: earlier ∧
      frame.handles ≠ [] ∧ "'t0" ∈ frame.state.solvedVars ∧
      ∀ frame' ∈ later ++ [frame], frame'.state.Lacks "'t0" := by
  have hv : "'t0" ∈ (runAll {} parameterAtOne).state.solvedVars := by
    have hsolved : (runAll {} parameterAtOne).state.solvedVars = ["'t0", "'t1"] := by cbv
    simp [hsolved]
  have hframe : ((filmAll {} (parameterAtOne ++ [.finish])).state.frames.any fun frame =>
      frame.handles ≠ [] ∧ "'t0" ∈ frame.state.solvedVars) = true := by cbv
  obtain ⟨frame, hmem, hframe⟩ := List.any_eq_true.1 hframe
  obtain ⟨hhandles, hsolved⟩ := of_decide_eq_true hframe
  obtain ⟨later, earlier, hframes⟩ := List.append_of_mem hmem
  have hops : ∀ op ∈ parameterAtOne ++ [.finish], op.Solid := by
    simp [parameterAtOne, Solid, solidTypes, Expr.lambda, Expr.Meets, Decl.Meets, Decl.datatypes,
      Ty.unknowns]
  obtain ⟨hfinal, hplain, hfilm⟩ :=
    solved_not_free {} parameterAtOne [.finish] ⟨by decide, rfl⟩ hops
  exact ⟨hv, (hfinal _ hv).1, hplain, later, frame, earlier, hframes, hhandles, hsolved,
    (hfilm later frame earlier hframes _ hsolved).1⟩

end Operation

end LetPoly
