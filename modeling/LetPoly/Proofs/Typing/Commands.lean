import LetPoly.Proofs.Typing.Handles

/-!
# Any use of inference

What can be asked of a run of inference over a chain of value scopes, in any order: scopes are
opened and closed as on a stack, and a command that fails leaves what it has done so far. Through
all of it the handles in the scopes of the chain stay live (`Command.handles_stay_live`).
-/

namespace LetPoly

open Inference Session Stage

variable {α β σ : Type}

/-- The scope that is `depth` scopes further out, or the outermost one. -/
def Scope.outward (s : Scope α) : Nat → Scope α
  | 0 => s
  | depth + 1 => (s.parent?.getD s).outward depth

/-- What can be asked of a run of inference. -/
inductive Command
  | openScope
  | closeScope
  | declare (kinds : Scope Kind) (decls : List Decl)
  | bindValue (kinds : Scope Kind) (name : String) (ascription : Option Ty) (value : Expr)
  | registerConstructors (d : Datatype)
  /-- Infer the type of an expression in the scope that is `depth` scopes further out. -/
  | inferExpr (kinds : Scope Kind) (depth : Nat) (e : Expr)
  /-- Track a type and enter its handle under a name. -/
  | bring (name : String) (ty : Ty)
  | solve
  | finish

/-- Look names of types up in the given kinds from now on. -/
def useKinds (kinds : Scope Kind) : DeclM Unit :=
  modify fun s => { s with env := { s.env with kinds } }

/-- Stages that know of scopes in use out of sight of a run. -/
class WideStage (σ : Type) extends Stage σ where
  /-- Run an action while the scopes of some more handles stay in use. -/
  beside {α : Type} : List Handle → RunM σ α → RunM σ α

instance : WideStage Inference where
  beside _ x := x

instance : WideStage Film where
  beside handles x := fun f =>
    match x { f with aside := handles ++ f.aside } with
    | .ok a f' => .ok a { f' with aside := f.aside }
    | .error e f' => .error e { f' with aside := f.aside }

open WideStage

namespace Command

/-- What a command does to a session. -/
def act [WideStage σ] (config : Config) : Command → RunM (SessionOn σ) Unit
  | .openScope => stepIn (modifyValues Scope.child)
  | .closeScope => stepIn (modifyValues (·.outward 1))
  | .declare kinds decls => do
    stepIn (useKinds kinds)
    LetPoly.declare config decls
  | .bindValue kinds name ascription value => do
    stepIn (useKinds kinds)
    LetPoly.bindValue config name ascription value
  | .registerConstructors d => LetPoly.registerConstructors d
  | .inferExpr kinds depth e => do
    let env ← stepIn scopes
    -- the scopes further in stay in use meanwhile
    let _ ← (beside env.values.values
      (e.inferSolved config ⟨env.values.outward depth, kinds⟩) : RunM σ Ty)
  | .bring name ty => do
    let h ← stepIn (track ty)
    stepIn (modifyValues (·.insert name h))
  | .solve => stepIn Inference.solve
  | .finish => LetPoly.finish config

/-- Carry commands out one after the other, whether they fail or not. Gives what they lead to and
the errors. -/
def perform [WideStage σ] (config : Config) :
    List Command → SessionOn σ → SessionOn σ × List (Fault TypeError)
  | [], s => (s, [])
  | c :: commands, s =>
    match c.act config s with
    | .ok _ s' => perform config commands s'
    | .error e s' => ((perform config commands s').1, e :: (perform config commands s').2)

/-- Carry commands out from the start. -/
def runAll (config : Config) (commands : List Command) : Session × List (Fault TypeError) :=
  perform config commands ⟨.initial, ⟨.empty, .empty⟩⟩

/-- Carry commands out from the start, with a film. -/
def filmAll (config : Config) (commands : List Command) :
    SessionOn Film × List (Fault TypeError) :=
  perform config commands ⟨⟨.initial, [], []⟩, ⟨.empty, .empty⟩⟩

end Command

lemma films_beside (handles : List Handle) {x : RunM Film α} {y : InferM α} (hx : Films x y) :
    Films (beside handles x) (beside handles y) := by
  intro f
  refine Eq.trans ?_ (hx { f with aside := handles ++ f.aside })
  simp only [beside]
  cases x { f with aside := handles ++ f.aside } <;> rfl

lemma Command.films_act (config : Config) (c : Command) :
    FilmsIn (c.act config) (c.act config) := by
  cases c with
  | openScope => exact .stepIn (modifyValues Scope.child)
  | closeScope => exact .stepIn (modifyValues (·.outward 1))
  | declare kinds decls => exact (Shows.stepIn _).bind fun _ => films_declare config decls
  | bindValue kinds name ascription value =>
    exact (Shows.stepIn _).bind fun _ => films_bindValueWith config name ascription
      fun env => value.films_infer config env
  | registerConstructors d => exact films_registerEach d d.constructors
  | inferExpr kinds depth e =>
    refine (Shows.stepIn _).bind fun env => ?_
    exact (Shows.lift (films_beside _ (e.films_inferSolved config _))).bind fun _ => .pure ()
  | bring name ty => exact (Shows.stepIn _).bind fun h => .stepIn _
  | solve => exact .stepIn _
  | finish => exact (Shows.stepIn _).bind fun _ => .stepIn _

/-- The film is one of the run. -/
lemma Command.films_perform (config : Config) (commands : List Command) (f : SessionOn Film) :
    (perform config commands f).1.plain = (perform config commands f.plain).1 ∧
      (perform config commands f).2 = (perform config commands f.plain).2 := by
  induction commands generalizing f with
  | nil => exact ⟨rfl, rfl⟩
  | cons c commands ih =>
    have hc := c.films_act config f
    rw [perform, perform, ← hc]
    cases c.act config f with
    | ok a f' => exact ih f'
    | error e f' => exact ⟨(ih f').1, congrArg (e :: ·) (ih f').2⟩

/-! ### Safety -/

/-- All handles in scope are live, and all frames are sound. -/
abbrev SessionOn.Sound : SessionOn Film → Prop := SessionOn.Holds [] fun _ => False

lemma Scope.values_parent_subset (s : Scope α) : (s.parent?.getD s).values ⊆ s.values := by
  rw [parent?]
  split
  · exact List.Subset.refl _
  · rename_i t ts h
    rw [values, values, h]
    exact List.subset_append_right _ _

lemma Scope.values_outward_subset (s : Scope α) (depth : Nat) :
    (s.outward depth).values ⊆ s.values := by
  induction depth generalizing s with
  | zero => exact List.Subset.refl _
  | succ depth ih => exact List.Subset.trans (ih _) s.values_parent_subset

lemma safe_beside {handles aside : List Handle} {K : Handle → Prop} {x : RunM Film α} {f : Film}
    (hhandles : ∀ h ∈ handles, K h)
    (hx : ∀ f' : Film, f'.Holds (handles ++ aside) K →
      Safe (Film.Holds (handles ++ aside) K) f' x fun _ _ => True) (hf : f.Holds aside K) :
    Safe (Film.Holds aside K) f (beside handles x) fun _ _ => True := by
  have hx := hx { f with aside := handles ++ f.aside }
    ⟨congrArg (handles ++ ·) hf.aside_eq, List.forall_mem_append.2 ⟨hhandles, hf.aside_le⟩,
      hf.guards, hf.sound⟩
  have hback {f' : Film} (hf' : f'.Holds (handles ++ aside) K) :
      Film.Holds aside K { f' with aside := f.aside } :=
    ⟨hf.aside_eq, hf.aside_le, hf'.guards, hf'.sound⟩
  rw [Safe] at hx
  simp only [Safe, beside]
  cases hrun : x { f with aside := handles ++ f.aside } with
  | ok a f' =>
    rw [hrun] at hx
    exact ⟨hback hx.1, trivial⟩
  | error e f' =>
    rw [hrun] at hx
    exact ⟨hback hx.1, hx.2⟩

lemma safe_inferSolved (config : Config) (env : Env) (e : Expr) {aside : List Handle}
    {K : Handle → Prop} {f : Film} (hf : f.Holds aside K) (henv : ∀ h ∈ env.values.values, K h) :
    Safe (Film.Holds aside K) f (e.inferSolved config env) fun _ _ => True := by
  refine (e.safe_infer config env hf henv).bind fun t f₁ hf₁ _ => ?_
  refine (safe_step hf₁ henv (safe_track hf₁.guards t)).bind fun h f₂ hf₂ hh => ?_
  have hadd : f₂.Holds aside (Along K [h]) := hf₂.along (by simpa using hh.1)
  refine ((safe_step hadd (fun h' hh' => .inr (henv h' hh')) (safe_solve hadd.guards)).drop
    hf₂).bind ?_
  rintro _ f₃ hf₃ ⟨hadd₃, _⟩
  exact safe_step hf₃ henv
    (safe_take hf₃.guards (hadd₃.guards.live (.inl List.mem_cons_self)) hh.2)

lemma safe_declare (config : Config) (decls : List Decl) {aside : List Handle}
    {K : Handle → Prop} {f : SessionOn Film} (hf : f.Holds aside K) :
    Safe (SessionOn.Holds aside K) f (declare config decls) fun _ _ => True :=
  (safe_datatypes _ hf).bind fun _ _ hf' _ => (Decl.safe_bindAll config decls hf').true

lemma safe_useKinds {f : SessionOn Film} (hf : f.Sound) (kinds : Scope Kind) :
    Safe SessionOn.Sound f (stepIn (useKinds kinds)) fun _ _ => True := by
  have hrun : stepIn (useKinds kinds) f =
    .ok () (f.shoot ⟨f.inference.state, { f.env with kinds }⟩) := rfl
  exact .of_ok hrun ⟨hf.film.shoot hf.film.guards hf.live, hf.live, hf.apart⟩ trivial

namespace Command

variable {config : Config} {f : SessionOn Film}

lemma safe_act (c : Command) (hf : f.Sound) :
    Safe SessionOn.Sound f (c.act config) fun _ _ => True := by
  have hscope := hf.film.guards.along hf.live
  cases c with
  | openScope =>
    exact (safe_modifyValues (g := Scope.child) hf hf.live fun h hh => by cases hh).true
  | closeScope =>
    refine (safe_modifyValues (g := (·.outward 1)) hf (fun h hh => ?_) fun _ _ => id).true
    exact hf.live h (Scope.values_outward_subset _ 1 hh)
  | declare kinds decls =>
    exact (safe_useKinds hf kinds).bind fun _ f' hf' _ => safe_declare config decls hf'
  | bindValue kinds name ascription value =>
    refine (safe_useKinds hf kinds).bind fun _ f' hf' _ => ?_
    exact (safe_valueWith config name ascription
      (fun env hfilm henv => value.safe_infer config env hfilm henv) hf').true
  | registerConstructors d => exact safe_registerEach d d.constructors hf
  | inferExpr kinds depth e =>
    refine (safe_scopes hf).bind ?_
    rintro env f₁ hf₁ ⟨rfl, henv, _⟩
    rw [← henv]
    refine (safe_lift hf₁ (fun h hh => hh) (safe_beside (fun h hh => .inl hh) (fun f' hf' => ?_)
      (hf₁.film.along hf₁.live))).bind fun _ f₂ hf₂ _ => .pure hf₂ trivial
    exact safe_inferSolved config _ e hf'
      fun h hh => .inl (Scope.values_outward_subset _ depth hh)
  | bring name ty =>
    exact (safe_trackIn hf ty).bind fun h f' hf' hh => safe_enter_insert hf' hh.2 name
  | solve => exact (safe_stepIn hf (safe_solve hscope)).true
  | finish =>
    refine (safe_stepIn hf (safe_solve hscope)).bind fun _ f' hf' _ => ?_
    exact (safe_stepIn hf' (safe_default (hf'.film.guards.along hf'.live) _)).true

/-- Commands lead from sound sessions to sound ones, through sound frames, and fail with errors of
the program only. -/
lemma perform_sound (commands : List Command) (hf : f.Sound) :
    (perform config commands f).1.Sound ∧
      ∀ fault ∈ (perform config commands f).2, ∃ error, fault = .error error := by
  induction commands generalizing f with
  | nil => exact ⟨hf, by simp [perform]⟩
  | cons c commands ih =>
    have hc : Safe SessionOn.Sound f (c.act config) fun _ _ => True := c.safe_act hf
    rw [Safe] at hc
    rw [perform]
    cases hrun : c.act config f with
    | ok a f' =>
      rw [hrun] at hc
      exact ih hc.1
    | error e f' =>
      rw [hrun] at hc
      exact ⟨(ih hc.1).1, List.forall_mem_cons.2 ⟨hc.2, (ih hc.1).2⟩⟩

/-- Whatever commands are carried out, every handle in a scope in use is live after each of them and
at every step inside them, no handle is read after its release, and none is taken then. -/
theorem handles_stay_live (config : Config) (commands : List Command) :
    (filmAll config commands).1.plain = (runAll config commands).1 ∧
    (filmAll config commands).2 = (runAll config commands).2 ∧
    (∀ frame ∈ (filmAll config commands).1.inference.frames, frame.Sound) ∧
    (∀ h ∈ (runAll config commands).1.env.values.values,
      (runAll config commands).1.inference.Live h) ∧
    (runAll config commands).1.inference.stray = [] ∧
    ∀ fault ∈ (runAll config commands).2, ∀ h, fault ≠ .released h := by
  have hstart : SessionOn.Sound ⟨⟨.initial, [], []⟩, ⟨.empty, .empty⟩⟩ := by
    refine ⟨⟨rfl, by simp, ⟨False.elim, rfl⟩, by simp⟩, fun h hh => ?_, fun _ _ => id⟩
    cases hh
  obtain ⟨hsession, hfaults⟩ : (filmAll config commands).1.plain = (runAll config commands).1 ∧
      (filmAll config commands).2 = (runAll config commands).2 := films_perform config commands _
  obtain ⟨hsound, herrors⟩ : (filmAll config commands).1.Sound ∧
      ∀ fault ∈ (filmAll config commands).2, ∃ error, fault = .error error :=
    perform_sound commands hstart
  rw [← hsession, ← hfaults]
  refine ⟨rfl, rfl, hsound.film.sound, hsound.live, hsound.film.guards.stray, ?_⟩
  rintro fault hfault h rfl
  obtain ⟨error, herror⟩ := herrors _ hfault
  cases herror

end Command

end LetPoly
