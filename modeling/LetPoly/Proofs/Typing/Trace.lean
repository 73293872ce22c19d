import LetPoly.Proofs.Typing.Film
import Mathlib.Logic.Relation

/-!
# Traces of inference

What inference can do to its state, one move at a time. A `Moment` is a state together with the
types in hand, which are current until equations are solved, and the handles whose types are used as
they stand; of the others only instances are used. `Moves` lists the moves, and `Follows` says that
an action makes nothing but such moves, whether it ends well or not. What every move preserves then
holds after every run (`Trace.invariant`).

A run passes through states between its moves. The ones that a watched stage keeps come with the
moves in a `Reel`.
-/

namespace LetPoly

open Inference Session Stage Watched

/-! ### Handles that were given out -/

/-- Handles that were given out before now. -/
def Inference.Issued (s : Inference) (h : Handle) : Prop := h.stamp < s.unifier.live.clock

namespace Inference

variable {s : Inference} {h : Handle}

lemma Issued.mono {s' : Inference} (hh : s.Issued h)
    (hle : s.unifier.live.clock ≤ s'.unifier.live.clock) : s'.Issued h :=
  Nat.lt_of_lt_of_le hh hle

lemma not_issued_newHandle (s : Inference) (t : Ty) : ¬ s.Issued (s.newHandle t) := by
  rw [Issued, show (s.newHandle t).stamp = s.unifier.live.clock from s.unifier.live.stamp_insert t]
  exact Nat.lt_irrefl _

lemma clock_tracked (s : Inference) (t : Ty) :
    (s.tracked t).unifier.live.clock = s.unifier.live.clock + 1 :=
  s.unifier.live.clock_insert t

lemma Issued.tracked (hh : s.Issued h) (t : Ty) : (s.tracked t).Issued h :=
  hh.mono (by rw [clock_tracked]; exact Nat.le_succ _)

lemma issued_newHandle (s : Inference) (t : Ty) : (s.tracked t).Issued (s.newHandle t) := by
  rw [Issued, clock_tracked,
    show (s.newHandle t).stamp = s.unifier.live.clock from s.unifier.live.stamp_insert t]
  exact Nat.lt_succ_self _

lemma Issued.released (hh : s.Issued h) (h' : Handle) : (s.released h').Issued h :=
  hh.mono (s.unifier.live.clock_le_release h')

lemma Issued.replaced (hh : s.Issued h) (h' : Handle) (t : Ty) : (s.replaced h' t).Issued h :=
  hh.mono (Nat.le_of_eq (s.unifier.live.clock_replace h' t).symm)

/-- The state after a handle that was released has been taken. -/
def strayed (s : Inference) (h : Handle) : Inference := { s with stray := h :: s.stray }

/-- A handle that is not live is as good as a new variable. -/
lemma take_of_dead (hdead : s.term? h = none) : take h s = fresh (s.strayed h) := by
  have hsnd : (s.unifier.release h).2 = none := (Store.release_snd _ h).trans hdead
  have hpair : s.unifier.release h = ((s.unifier.release h).1, none) := by rw [← hsnd]
  rw [take, bind_get, hpair]
  rfl

end Inference

/-! ### Moments -/

/-- The types that inference starts from, and the kinds that it checks them in. -/
structure Sources where
  /-- Types that are used as they stand. -/
  plain : Ty → Prop
  /-- Types of which only instances are used. -/
  general : Ty → Prop
  /-- Kinds that may be in scope. -/
  kinds : Scope Kind → Prop

/-- Types put together from those in hand and from sources. -/
inductive Built (S : Sources) (held : List Ty) : Ty → Prop
  | held {t : Ty} : t ∈ held → Built S held t
  | plain {t : Ty} : S.plain t → Built S held t
  | arrow {a b : Ty} : Built S held a → Built S held b → Built S held (.arrow a b)

/-- A state of inference, the types in hand, and the handles whose types are used as they stand. -/
structure Moment where
  state : Inference
  held : List Ty
  own : Handle → Prop
  issued {h : Handle} : own h → state.Issued h

namespace Moment

/-- A type is in hand, taken with `count` new variables. -/
def gain (m : Moment) (count : Nat) (t : Ty) : Moment :=
  ⟨m.state.bump count, t :: m.held, m.own, m.issued⟩

/-- A type is tracked, to be used as it stands. -/
def track (m : Moment) (t : Ty) : Moment :=
  ⟨m.state.tracked t, m.held, fun h => m.own h ∨ h = m.state.newHandle t, fun hh =>
    hh.elim (fun hh => (m.issued hh).tracked t) fun hh => hh ▸ m.state.issued_newHandle t⟩

/-- A type is tracked, for its instances. -/
def enter (m : Moment) (t : Ty) : Moment :=
  ⟨m.state.tracked t, m.held, m.own, fun hh => (m.issued hh).tracked t⟩

/-- A handle is released. -/
def release (m : Moment) (h : Handle) : Moment :=
  ⟨m.state.released h, m.held, m.own, fun hh => (m.issued hh).released h⟩

/-- A handle turns out to have been released. -/
def stray (m : Moment) (h : Handle) : Moment := ⟨m.state.strayed h, m.held, m.own, m.issued⟩

/-- An equation is added. -/
def equate (m : Moment) (a b : Ty) (origin : TypeOrigin) : Moment :=
  ⟨m.state.equated a b origin, m.held, m.own, m.issued⟩

/-- The equations are solved. What was in hand is no longer current. -/
def solve (m : Moment) : Moment := ⟨m.state.settled, [], m.own, m.issued⟩

/-- The type of a handle is replaced by its closure, to be used for its instances from now on. -/
def close (m : Moment) (h : Handle) (g : Ty) : Moment :=
  ⟨m.state.replaced h g, m.held, fun h' => m.own h' ∧ h' ≠ h,
    fun hh => (m.issued hh.1).replaced h g⟩

/-- Kinds are taken note of. -/
def note (m : Moment) (kinds : List Kind) : Moment := ⟨m.state.noted kinds, m.held, m.own, m.issued⟩

/-- The start of an operation, with nothing in hand. -/
def start (s : Inference) : Moment := ⟨s, [], fun _ => False, fun h => h.elim⟩

end Moment

/-- The moves of inference. -/
inductive Moves (S : Sources) : Moment → Moment → Prop
  | fresh (m : Moment) : Moves S m (m.gain 1 (.fresh m.state.next))
  | liveInstance {m : Moment} {h : Handle} {t : Ty} : m.state.term? h = some t →
      Moves S m (m.gain t.boundCount (t.instanceAt m.state.next))
  | sourceInstance {m : Moment} {t : Ty} : S.general t →
      Moves S m (m.gain t.boundCount (t.instanceAt m.state.next))
  | rigidInstance {m : Moment} {sc : Scheme} : S.general sc.toTy →
      Moves S m (m.gain sc.vars.names.length (rigidInstance sc m.state.next))
  | read {m : Moment} {h : Handle} {t : Ty} : m.own h → m.state.term? h = some t →
      Moves S m (m.gain 0 t)
  | track {m : Moment} {t : Ty} : Built S m.held t → Moves S m (m.track t)
  | enter {m : Moment} {t : Ty} : S.general t → Moves S m (m.enter t)
  | release (m : Moment) (h : Handle) : Moves S m (m.release h)
  | stray (m : Moment) (h : Handle) : Moves S m (m.stray h)
  | equate {m : Moment} {a b : Ty} (origin : TypeOrigin) : Built S m.held a → Built S m.held b →
      Moves S m (m.equate a b origin)
  | solve {m : Moment} : m.state.Solvable → Moves S m m.solve
  | close {m : Moment} {h : Handle} {t g : Ty} {fixed : List String} : m.own h →
      m.state.term? h = some t → t.generalize fixed = .ok g → Moves S m (m.close h g)
  | note (m : Moment) (kinds : List Kind) : Moves S m (m.note kinds)

/-- Any number of moves. -/
def Trace (S : Sources) : Moment → Moment → Prop := Relation.ReflTransGen (Moves S)

variable {S : Sources} {m m' m'' : Moment}

namespace Trace

lemma refl (m : Moment) : Trace S m m := Relation.ReflTransGen.refl

lemma trans (h : Trace S m m') (h' : Trace S m' m'') : Trace S m m'' :=
  Relation.ReflTransGen.trans h h'

lemma of_move (h : Moves S m m') : Trace S m m' := Relation.ReflTransGen.single h

/-- What every move preserves holds after all of them. -/
lemma invariant {I : Moment → Prop} (hmove : ∀ {m m'}, Moves S m m' → I m → I m')
    (h : Trace S m m') (hm : I m) : I m' := by
  induction h with
  | refl => exact hm
  | tail _ h ih => exact hmove h ih

end Trace

/-- Moves from the one moment to the other, and the states kept on the way, the latest first. -/
inductive Reel (S : Sources) (m : Moment) : List Inference → Moment → Prop
  | start : Reel S m [] m
  | move {states : List Inference} {m' m'' : Moment} : Reel S m states m' → Moves S m' m'' →
      Reel S m states m''
  | keep {states : List Inference} {m' : Moment} : Reel S m states m' →
      Reel S m (m'.state :: states) m'

namespace Reel

variable {states states' : List Inference}

lemma trace (h : Reel S m states m') : Trace S m m' := by
  induction h with
  | start => exact .refl m
  | move _ hmove ih => exact ih.trans (.of_move hmove)
  | keep _ ih => exact ih

lemma of_trace (h : Trace S m m') : Reel S m [] m' := by
  induction h with
  | refl => exact .start
  | tail _ hmove ih => exact ih.move hmove

lemma append (h : Reel S m states m') (h' : Reel S m' states' m'') :
    Reel S m (states' ++ states) m'' := by
  induction h' with
  | start => exact h
  | move _ hmove ih => exact ih.move hmove
  | keep _ ih => exact ih.keep

end Reel

/-- The states that a run may be left in by an error: any on its way, or one in which solving has
failed. -/
def Halts (S : Sources) (m : Moment) (s : Inference) : Prop :=
  ∃ m', Trace S m m' ∧ (s = m'.state ∨ s = m'.state.settled)

lemma Halts.here (m : Moment) : Halts S m m.state := ⟨m, .refl m, .inl rfl⟩

/-- The run may be left in the state by an error, with the given states kept on the way. The last of
them may be the state itself. -/
def HaltsPast (S : Sources) (m : Moment) (states : List Inference) (s : Inference) : Prop :=
  ∃ m' before, Reel S m before m' ∧ (s = m'.state ∨ s = m'.state.settled) ∧
    (states = before ∨ states = s :: before)

lemma HaltsPast.halts {states : List Inference} {s : Inference} (h : HaltsPast S m states s) :
    Halts S m s := by
  obtain ⟨m', _, hreel, hs, _⟩ := h
  exact ⟨m', hreel.trace, hs⟩

lemma Halts.past {s : Inference} (h : Halts S m s) : HaltsPast S m [s] s := by
  obtain ⟨m', htrace, hs⟩ := h
  exact ⟨m', [], .of_trace htrace, hs, .inr rfl⟩

lemma HaltsPast.after {states states' : List Inference} {s : Inference} (h : Reel S m states m')
    (h' : HaltsPast S m' states' s) : HaltsPast S m (states' ++ states) s := by
  obtain ⟨m'', before, hreel, hs, rfl | rfl⟩ := h'
  · exact ⟨m'', _, h.append hreel, hs, .inl rfl⟩
  · exact ⟨m'', _, h.append hreel, hs, .inr rfl⟩

/-! ### What a moment keeps of an earlier one -/

/-- Handles whose types are used as they stand remain so. -/
def Moment.Keeps (m m' : Moment) : Prop := ∀ ⦃h⦄, m.own h → m'.own h

/-- Nothing has been solved in between either. -/
structure Moment.Grows (m m' : Moment) : Prop where
  keeps : m.Keeps m'
  held : m.held ⊆ m'.held

lemma Moment.Keeps.refl (m : Moment) : m.Keeps m := fun _ h => h

lemma Moment.Keeps.trans (h : m.Keeps m') (h' : m'.Keeps m'') : m.Keeps m'' :=
  fun _ hh => h' (h hh)

lemma Moment.Grows.refl (m : Moment) : m.Grows m := ⟨.refl m, fun _ h => h⟩

lemma Moment.Grows.trans (h : m.Grows m') (h' : m'.Grows m'') : m.Grows m'' :=
  ⟨h.keeps.trans h'.keeps, List.Subset.trans h.held h'.held⟩

lemma Moment.keeps_track (m : Moment) (t : Ty) : m.Keeps (m.track t) := fun _ h => .inl h

lemma Moment.grows_gain (m : Moment) (count : Nat) (t : Ty) : m.Grows (m.gain count t) :=
  ⟨fun _ h => h, List.subset_cons_self _ _⟩

lemma Built.mono {held held' : List Ty} {t : Ty} (h : Built S held t) (hsub : held ⊆ held') :
    Built S held' t := by
  induction h with
  | held h => exact .held (hsub h)
  | plain h => exact .plain h
  | arrow _ _ iha ihb => exact .arrow iha ihb

lemma Built.grows {t : Ty} (h : Built S m.held t) (hgrows : m.Grows m') : Built S m'.held t :=
  h.mono hgrows.held

lemma Built.function {held : List Ty} {params : List Ty} {result : Ty}
    (hparams : ∀ t ∈ params, Built S held t) (hresult : Built S held result) :
    Built S held (.function params result) := by
  induction params with
  | nil => exact hresult
  | cons t params ih =>
    rw [List.forall_mem_cons] at hparams
    exact .arrow hparams.1 (ih hparams.2)

/-! ### Actions that make moves only -/

section Actions

variable {α β σ : Type} [Watched σ] {Q : α → Moment → Prop} {P : α → Moment → Env → Prop}
  {env : Env}

/-- The action makes moves only, and if it ends well the outcome is as stated. -/
def Follows (S : Sources) (m : Moment) (x : RunM σ α) (Q : α → Moment → Prop) : Prop :=
  ∀ s, state s = m.state → match x s with
    | .ok a s' => ∃ m' states, Reel S m states m' ∧ m'.state = state s' ∧ Passes s states s' ∧
        Q a m'
    | .error _ s' => ∃ states, HaltsPast S m states (state s') ∧ Passes s states s'

/-- The same of an action that may change what is in scope. -/
def FollowsIn (S : Sources) (m : Moment) (env : Env) (y : RunM (SessionOn σ) α)
    (P : α → Moment → Env → Prop) : Prop :=
  ∀ s, state s = m.state → match y ⟨s, env⟩ with
    | .ok a s' => ∃ m' states, Reel S m states m' ∧ m'.state = state s'.inference ∧
        Passes s states s'.inference ∧ P a m' s'.env
    | .error _ s' => ∃ states, HaltsPast S m states (state s'.inference) ∧
        Passes s states s'.inference

section Plain

variable {x : InferM α} {y : DeclM α}

lemma Follows.of_ok {s : Inference} {a : α} (hx : x m.state = .ok a s) (htrace : Trace S m m')
    (hs : m'.state = s) (hQ : Q a m') : Follows S m x Q := by
  rintro _ rfl
  rw [hx]
  exact ⟨m', [], .of_trace htrace, hs, trivial, hQ⟩

lemma Follows.of_error {s : Inference} {e : Fault TypeError} (hx : x m.state = .error e s)
    (h : Halts S m s) : Follows S m x Q := by
  rintro _ rfl
  rw [hx]
  exact ⟨[s], h.past, trivial⟩

lemma Follows.trace {s : Inference} {a : α} (h : Follows S m x Q) (hx : x m.state = .ok a s) :
    ∃ m', Trace S m m' ∧ m'.state = s ∧ Q a m' := by
  have h := h m.state rfl
  rw [hx] at h
  obtain ⟨m', _, hreel, hs, _, hQ⟩ := h
  exact ⟨m', hreel.trace, hs, hQ⟩

lemma Follows.halts {s : Inference} {e : Fault TypeError} (h : Follows S m x Q)
    (hx : x m.state = .error e s) : Halts S m s := by
  have h := h m.state rfl
  rw [hx] at h
  obtain ⟨_, hhalts, _⟩ := h
  exact hhalts.halts

lemma FollowsIn.of_ok {s : Session} {a : α} (hy : y ⟨m.state, env⟩ = .ok a s)
    (htrace : Trace S m m') (hs : m'.state = s.inference) (hP : P a m' s.env) :
    FollowsIn S m env y P := by
  rintro _ rfl
  rw [hy]
  exact ⟨m', [], .of_trace htrace, hs, trivial, hP⟩

lemma FollowsIn.of_error {s : Session} {e : Fault TypeError} (hy : y ⟨m.state, env⟩ = .error e s)
    (h : Halts S m s.inference) : FollowsIn S m env y P := by
  rintro _ rfl
  rw [hy]
  exact ⟨[s.inference], h.past, trivial⟩

lemma FollowsIn.trace {s : Session} {a : α} (h : FollowsIn S m env y P)
    (hy : y ⟨m.state, env⟩ = .ok a s) :
    ∃ m', Trace S m m' ∧ m'.state = s.inference ∧ P a m' s.env := by
  have h := h m.state rfl
  rw [hy] at h
  obtain ⟨m', _, hreel, hs, _, hP⟩ := h
  exact ⟨m', hreel.trace, hs, hP⟩

lemma FollowsIn.halts {s : Session} {e : Fault TypeError} (h : FollowsIn S m env y P)
    (hy : y ⟨m.state, env⟩ = .error e s) : Halts S m s.inference := by
  have h := h m.state rfl
  rw [hy] at h
  obtain ⟨_, hhalts, _⟩ := h
  exact hhalts.halts

lemma Follows.fail {error : TypeError} : Follows S m (Inference.fail error : InferM α) Q :=
  .of_error (by rfl) (.here m)

lemma FollowsIn.scopes : FollowsIn S m env scopes fun e m' env' => env = e ∧ m = m' ∧ env = env' :=
  .of_ok (scopes_run _ _) (.refl m) rfl ⟨rfl, rfl, rfl⟩

lemma FollowsIn.modifyValues (f : Scope Handle → Scope Handle) :
    FollowsIn S m env (modifyValues f) fun _ m' env' =>
      m = m' ∧ ({ env with values := f env.values } : Env) = env' :=
  .of_ok (modifyValues_run _ _ _) (.refl m) rfl ⟨rfl, rfl⟩

/-- What an action does, it does as one step, after which the state is kept. -/
lemma Follows.step (hx : Follows S m x Q) (values : Scope Handle) :
    Follows S m (step values x : RunM σ α) Q := by
  intro s hs
  cases hrun : x m.state with
  | ok a t =>
    obtain ⟨m', htrace, rfl, hQ⟩ := hx.trace hrun
    obtain ⟨s', hstep, hs', hpasses⟩ := Watched.step_of_ok (s := s) values (hs ▸ hrun)
    rw [hstep]
    exact ⟨m', _, (Reel.of_trace htrace).keep, hs'.symm, hpasses, hQ⟩
  | error e t =>
    obtain ⟨s', hstep, hs', hpasses⟩ := Watched.step_of_error (s := s) values (hs ▸ hrun)
    rw [hstep]
    exact ⟨_, hs' ▸ (hx.halts hrun).past, hpasses⟩

lemma FollowsIn.step (hy : FollowsIn S m env y P) :
    FollowsIn S m env (stepIn y : RunM (SessionOn σ) α) P := by
  intro s hs
  cases hrun : y ⟨m.state, env⟩ with
  | ok a t =>
    obtain ⟨m', htrace, hm', hP⟩ := hy.trace hrun
    obtain ⟨s', hstep, hs', hpasses⟩ := Watched.stepIn_of_ok (s := s) (hs ▸ hrun)
    rw [hstep]
    rw [← hm'] at hs' hpasses
    exact ⟨m', _, (Reel.of_trace htrace).keep, hs'.symm, hpasses, hP⟩
  | error e t =>
    obtain ⟨s', hstep, hs', hpasses⟩ := Watched.stepIn_of_error (s := s) (hs ▸ hrun)
    rw [hstep]
    exact ⟨_, hs' ▸ (hy.halts hrun).past, hpasses⟩

end Plain

variable {x : RunM σ α} {y : RunM (SessionOn σ) α}

lemma Follows.pure {a : α} (h : Q a m) : Follows S m (Pure.pure a : RunM σ α) Q :=
  fun s hs => ⟨m, [], .start, hs.symm, passes_nil s, h⟩

lemma Follows.bind {f : α → RunM σ β} {R : β → Moment → Prop} (hx : Follows S m x Q)
    (hf : ∀ a m', Q a m' → Follows S m' (f a) R) : Follows S m (x >>= f) R := by
  intro s hs
  have hx := hx s hs
  cases hrun : x s with
  | ok a s' =>
    rw [hrun] at hx
    obtain ⟨m', states, hreel, hm', hpasses, hQ⟩ := hx
    have hf := hf a m' hQ s' hm'.symm
    rw [bind_of_ok hrun]
    cases hrun' : f a s' with
    | ok b s'' =>
      rw [hrun'] at hf
      obtain ⟨m'', states', hreel', hm'', hpasses', hR⟩ := hf
      exact ⟨m'', _, hreel.append hreel', hm'', passes_append hpasses hpasses', hR⟩
    | error e s'' =>
      rw [hrun'] at hf
      obtain ⟨states', hhalts, hpasses'⟩ := hf
      exact ⟨_, .after hreel hhalts, passes_append hpasses hpasses'⟩
  | error e s' =>
    rw [hrun] at hx
    rw [bind_of_error hrun]
    exact hx

lemma Follows.imp {R : α → Moment → Prop} (hx : Follows S m x Q)
    (himp : ∀ a m', Q a m' → R a m') : Follows S m x R := by
  intro s hs
  have hx := hx s hs
  cases hrun : x s with
  | ok a s' =>
    rw [hrun] at hx
    obtain ⟨m', states, hreel, hm', hpasses, hQ⟩ := hx
    exact ⟨m', states, hreel, hm', hpasses, himp a m' hQ⟩
  | error e s' => rwa [hrun] at hx

lemma FollowsIn.pure {a : α} (h : P a m env) :
    FollowsIn S m env (Pure.pure a : RunM (SessionOn σ) α) P :=
  fun s hs => ⟨m, [], .start, hs.symm, passes_nil s, h⟩

lemma FollowsIn.bind {f : α → RunM (SessionOn σ) β} {R : β → Moment → Env → Prop}
    (hy : FollowsIn S m env y P) (hf : ∀ a m' env', P a m' env' → FollowsIn S m' env' (f a) R) :
    FollowsIn S m env (y >>= f) R := by
  intro s hs
  have hy := hy s hs
  cases hrun : y ⟨s, env⟩ with
  | ok a s' =>
    rw [hrun] at hy
    obtain ⟨m', states, hreel, hm', hpasses, hP⟩ := hy
    have hf := hf a m' s'.env hP s'.inference hm'.symm
    rw [bind_of_ok hrun]
    cases hrun' : f a s' with
    | ok b s'' =>
      rw [hrun'] at hf
      obtain ⟨m'', states', hreel', hm'', hpasses', hR⟩ := hf
      exact ⟨m'', _, hreel.append hreel', hm'', passes_append hpasses hpasses', hR⟩
    | error e s'' =>
      rw [hrun'] at hf
      obtain ⟨states', hhalts, hpasses'⟩ := hf
      exact ⟨_, .after hreel hhalts, passes_append hpasses hpasses'⟩
  | error e s' =>
    rw [hrun] at hy
    rw [bind_of_error hrun]
    exact hy

lemma FollowsIn.imp {R : α → Moment → Env → Prop} (hy : FollowsIn S m env y P)
    (himp : ∀ a m' env', P a m' env' → R a m' env') : FollowsIn S m env y R := by
  intro s hs
  have hy := hy s hs
  cases hrun : y ⟨s, env⟩ with
  | ok a s' =>
    rw [hrun] at hy
    obtain ⟨m', states, hreel, hm', hpasses, hP⟩ := hy
    exact ⟨m', states, hreel, hm', hpasses, himp a m' s'.env hP⟩
  | error e s' => rwa [hrun] at hy

lemma FollowsIn.lift (hx : Follows S m x Q) :
    FollowsIn S m env (liftM x : RunM (SessionOn σ) α) fun a m' env' => Q a m' ∧ env = env' := by
  intro s hs
  have hx := hx s hs
  simp only [liftM, monadLift, MonadLift.monadLift]
  cases hrun : x s with
  | ok a s' =>
    rw [hrun] at hx
    obtain ⟨m', states, hreel, hm', hpasses, hQ⟩ := hx
    exact ⟨m', states, hreel, hm', hpasses, hQ, rfl⟩
  | error e s' =>
    rw [hrun] at hx
    exact hx

lemma Follows.within {z : RunM (SessionOn σ) Unit} {P : Unit → Moment → Env → Prop}
    (hz : FollowsIn S m env z P) : Follows S m (within env z) fun env' m' => P () m' env' := by
  intro s hs
  have hz := hz s hs
  rw [Session.within]
  cases hrun : z ⟨s, env⟩ with
  | ok a s' =>
    rw [hrun] at hz
    exact hz
  | error e s' =>
    rw [hrun] at hz
    exact hz

end Actions

end LetPoly
