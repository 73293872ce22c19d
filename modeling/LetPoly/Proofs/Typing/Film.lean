import LetPoly.Proofs.Typing.Settle

/-!
# Filmed runs

A stage that keeps a film of the run: each step leaves a `Frame`, which holds the state after the
step and the handles in all scopes that are in use there. The scope of a function, a match arm or a
`let` is in use up to the last time something is looked up in it, so the handles that are let go
after that are let go in the scopes around it. Between two frames at most one handle is given out,
let go or given another type.

Without its film, a filmed run is the plain one (`Expr.films_infer`, `films_declare`).
-/

namespace LetPoly

open Inference Session Stage

/-! ### Frames -/

/-- A state of inference and the handles in the scopes in use there. -/
structure Frame where
  state : Inference
  handles : List Handle

/-- What a run has come to, with its frames, the latest first. -/
structure Film where
  state : Inference
  /-- The handles of scopes that stay in use but are out of sight of the run. -/
  aside : List Handle
  frames : List Frame

variable {α β : Type}

/-- A step has led to the given state, in the given scope. -/
def Film.shoot (f : Film) (values : Scope Handle) (s : Inference) : Film :=
  { f with state := s, frames := ⟨s, values.values ++ f.aside⟩ :: f.frames }

/-- The session that a filmed one has come to. -/
def SessionOn.plain (f : SessionOn Film) : Session := ⟨f.inference.state, f.env⟩

/-- A step has led to the given session. -/
def SessionOn.shoot (f : SessionOn Film) (s : Session) : SessionOn Film :=
  ⟨f.inference.shoot s.env.values s.inference, s.env⟩

instance : Stage Film where
  step values x := fun f =>
    match x f.state with
    | .ok a s => .ok a (f.shoot values s)
    | .error e s => .error e (f.shoot values s)
  stepIn x := fun f =>
    match x f.plain with
    | .ok a s => .ok a (f.shoot s)
    | .error e s => .error e (f.shoot s)

section Steps

variable {a : α} {e : Fault TypeError}

lemma Film.step_of_ok {f : Film} {values : Scope Handle} {x : InferM α} {s : Inference}
    (hx : x f.state = .ok a s) : step values x f = .ok a (f.shoot values s) := by
  simp only [step, hx]

lemma Film.step_of_error {f : Film} {values : Scope Handle} {x : InferM α} {s : Inference}
    (hx : x f.state = .error e s) : step values x f = .error e (f.shoot values s) := by
  simp only [step, hx]

lemma Film.stepIn_of_ok {f : SessionOn Film} {x : DeclM α} {s : Session}
    (hx : x f.plain = .ok a s) : stepIn x f = .ok a (f.shoot s) := by
  simp only [stepIn, hx]

lemma Film.stepIn_of_error {f : SessionOn Film} {x : DeclM α} {s : Session}
    (hx : x f.plain = .error e s) : stepIn x f = .error e (f.shoot s) := by
  simp only [stepIn, hx]

end Steps

/-! ### Watched stages -/

/-- Stages on which a run is seen: its state, and the states that it passes through. -/
class Watched (σ : Type) extends Stage σ where
  state : σ → Inference
  /-- From the one to the other the run passes through the given states, the latest first. -/
  Passes : σ → List Inference → σ → Prop
  passes_nil (s : σ) : Passes s [] s
  passes_append {s s' s'' : σ} {states states' : List Inference} :
    Passes s states s' → Passes s' states' s'' → Passes s (states' ++ states) s''
  step_of_ok {α : Type} {x : InferM α} {s : σ} {a : α} {t : Inference} (values : Scope Handle) :
    x (state s) = .ok a t → ∃ s', step values x s = .ok a s' ∧ state s' = t ∧ Passes s [t] s'
  step_of_error {α : Type} {x : InferM α} {s : σ} {e : Fault TypeError} {t : Inference}
    (values : Scope Handle) : x (state s) = .error e t →
    ∃ s', step values x s = .error e s' ∧ state s' = t ∧ Passes s [t] s'
  stepIn_of_ok {α : Type} {x : DeclM α} {s : σ} {env : Env} {a : α} {t : Session} :
    x ⟨state s, env⟩ = .ok a t → ∃ s', stepIn x ⟨s, env⟩ = .ok a ⟨s', t.env⟩ ∧
      state s' = t.inference ∧ Passes s [t.inference] s'
  stepIn_of_error {α : Type} {x : DeclM α} {s : σ} {env : Env} {e : Fault TypeError} {t : Session} :
    x ⟨state s, env⟩ = .error e t → ∃ s', stepIn x ⟨s, env⟩ = .error e ⟨s', t.env⟩ ∧
      state s' = t.inference ∧ Passes s [t.inference] s'

/-- On the plain stage nothing is kept of what a run passes through. -/
instance : Watched Inference where
  state s := s
  Passes _ _ _ := True
  passes_nil _ := trivial
  passes_append _ _ := trivial
  step_of_ok _ hx := ⟨_, hx, rfl, trivial⟩
  step_of_error _ hx := ⟨_, hx, rfl, trivial⟩
  stepIn_of_ok hx := ⟨_, hx, rfl, trivial⟩
  stepIn_of_error hx := ⟨_, hx, rfl, trivial⟩

/-- The states in the frames of a film, the latest first. -/
def Film.states (f : Film) : List Inference := f.frames.map Frame.state

instance : Watched Film where
  state := Film.state
  Passes f states f' := f'.states = states ++ f.states
  passes_nil _ := rfl
  passes_append h h' := by rw [h', h, List.append_assoc]
  step_of_ok _ hx := ⟨_, Film.step_of_ok hx, rfl, rfl⟩
  step_of_error _ hx := ⟨_, Film.step_of_error hx, rfl, rfl⟩
  stepIn_of_ok hx := ⟨_, Film.stepIn_of_ok hx, rfl, rfl⟩
  stepIn_of_error hx := ⟨_, Film.stepIn_of_error hx, rfl, rfl⟩

/-! ### Forgetting the film -/

section Forgetting

variable {σ τ : Type} {view : σ → τ}

/-- What is seen of an outcome. -/
def viewed (view : σ → τ) : EStateM.Result (Fault TypeError) σ α →
    EStateM.Result (Fault TypeError) τ α
  | .ok a s => .ok a (view s)
  | .error e s => .error e (view s)

/-- What the one action does is, as far as it is seen, what the other does. -/
def Shows (view : σ → τ) (x : RunM σ α) (y : RunM τ α) : Prop :=
  ∀ s, viewed view (x s) = y (view s)

lemma Shows.pure (a : α) : Shows view (Pure.pure a) (Pure.pure a) := fun _ => rfl

lemma Shows.bind {x : RunM σ α} {y : RunM τ α} {g : α → RunM σ β} {k : α → RunM τ β}
    (hx : Shows view x y) (hg : ∀ a, Shows view (g a) (k a)) :
    Shows view (x >>= g) (y >>= k) := by
  intro s
  have hx := hx s
  cases hrun : x s with
  | ok a s' =>
    rw [hrun] at hx
    rw [bind_of_ok hrun, bind_of_ok hx.symm]
    exact hg a s'
  | error e s' =>
    rw [hrun] at hx
    rw [bind_of_error hrun, bind_of_error hx.symm]
    rfl

end Forgetting

/-- Without its film, the one action is the other. -/
abbrev Films (x : RunM Film α) (y : InferM α) : Prop := Shows Film.state x y

/-- The same of actions that may add to what is in scope. -/
abbrev FilmsIn (x : RunM (SessionOn Film) α) (y : DeclM α) : Prop := Shows SessionOn.plain x y

section Combinators

lemma Shows.step (values : Scope Handle) (y : InferM α) : Films (step values y) y := by
  intro f
  cases hy : y f.state with
  | ok a s => rw [Film.step_of_ok hy]; rfl
  | error e s => rw [Film.step_of_error hy]; rfl

lemma Shows.stepIn (w : DeclM α) : FilmsIn (stepIn w) w := by
  intro f
  cases hw : w f.plain with
  | ok a s => rw [Film.stepIn_of_ok hw]; rfl
  | error e s => rw [Film.stepIn_of_error hw]; rfl

lemma Shows.lift {x : RunM Film α} {y : InferM α} (hx : Films x y) :
    FilmsIn (liftM x) (liftM y) := by
  intro f
  have hx := hx f.inference
  simp only [liftM, monadLift, MonadLift.monadLift, SessionOn.plain]
  rw [← hx]
  cases x f.inference <;> rfl

lemma Shows.within (env : Env) {z : RunM (SessionOn Film) Unit} {w : DeclM Unit}
    (hz : FilmsIn z w) : Films (within env z) (within env w) := by
  intro f
  have hz := hz ⟨f, env⟩
  rw [Session.within, Session.within]
  rw [SessionOn.plain] at hz
  rw [← hz]
  cases z ⟨f, env⟩ <;> rfl

end Combinators

lemma films_releaseAll (values : Scope Handle) (hs : List Handle) :
    Films (releaseAll values hs) (releaseAll values hs) := by
  induction hs with
  | nil => exact .pure ()
  | cons h hs ih => exact (Shows.step values _).bind fun _ => ih

lemma films_takeAll (values : Scope Handle) (hs : List Handle) :
    Films (takeAll values hs) (takeAll values hs) := by
  induction hs with
  | nil => exact .pure []
  | cons h hs ih => exact (Shows.step values _).bind fun ty => ih.bind fun types => .pure _

lemma films_registerEach (d : Datatype) (constructors : List Constructor) :
    FilmsIn (registerEach d constructors) (registerEach d constructors) := by
  induction constructors with
  | nil => exact .pure ()
  | cons c constructors ih =>
    exact (Shows.stepIn _).bind fun ty => (Shows.stepIn _).bind fun h =>
      (Shows.stepIn _).bind fun _ => ih

lemma films_registerAll (ds : List Datatype) : FilmsIn (registerAll ds) (registerAll ds) := by
  induction ds with
  | nil => exact .pure ()
  | cons d ds ih => exact (films_registerEach d d.constructors).bind fun _ => ih

lemma films_declareDatatypes (group : List Datatype) :
    FilmsIn (declareDatatypes group) (declareDatatypes group) :=
  (Shows.stepIn _).bind fun found => films_registerAll found.2

lemma films_settleTy (values : Scope Handle) (name : String) (ascribed : Option Ty) (h : Handle)
    (found : Ty) :
    Films (settleTy values name ascribed h found) (settleTy values name ascribed h found) :=
  (Shows.step values _).bind fun _ => (Shows.step values _).bind fun _ =>
    (Shows.step values _).bind fun _ => (Shows.step values _).bind fun _ => .step values _

lemma films_bindValueWith (config : Config) (name : String) (ascription : Option Ty)
    {filmValue : Env → RunM Film Ty} {inferValue : Env → InferM Ty}
    (hvalue : ∀ env, Films (filmValue env) (inferValue env)) :
    FilmsIn (bindValueWith config name ascription filmValue)
      (bindValueWith config name ascription inferValue) :=
  (Shows.stepIn _).bind fun _ => (Shows.stepIn _).bind fun _ => (Shows.stepIn _).bind fun _ =>
    (Shows.stepIn _).bind fun _ => (Shows.stepIn _).bind fun _ => (Shows.stepIn _).bind fun env =>
      (Shows.lift (hvalue env)).bind fun _ => .lift (films_settleTy _ _ _ _ _)

lemma films_bindParams (config : Config) (kinds : Scope Kind) (params : List Param)
    (scope : Scope Handle) :
    Films (bindParams config kinds params scope) (bindParams config kinds params scope) := by
  induction params generalizing scope with
  | nil => exact .step scope _
  | cons p params ih =>
    rw [bindParams]
    refine (Shows.step scope _).bind fun ty => (Shows.step scope _).bind fun h => ?_
    exact (ih _).bind fun _ => .pure _

lemma films_bindCaptures (config : Config) (captures : List (String × Ty)) (scope : Scope Handle) :
    Films (bindCaptures config captures scope) (bindCaptures config captures scope) := by
  induction captures generalizing scope with
  | nil => exact .step scope _
  | cons c captures ih => exact (Shows.step scope _).bind fun h => ih _

lemma films_bindPattern (config : Config) (scrutinee : Handle) (scope : Scope Handle)
    (pattern : Pattern) :
    Films (bindPattern config scrutinee scope pattern)
      (bindPattern config scrutinee scope pattern) := by
  cases pattern with
  | capture name => exact .step _ (pure (config.bind name scrutinee scope))
  | literal value =>
    exact (Shows.step scope _).bind fun _ => (Shows.step scope _).bind fun _ => .pure _
  | constructor name =>
    exact (Shows.step scope _).bind fun _ => (Shows.step scope _).bind fun _ =>
      (Shows.step scope _).bind fun _ => .pure _
  | data name captures =>
    refine (Shows.step scope _).bind fun found => ?_
    dsimp only
    split
    · refine (Shows.step scope _).bind fun _ => (Shows.step scope _).bind fun _ => ?_
      exact (Shows.step scope _).bind fun _ => (Shows.step scope _).bind fun _ =>
        films_bindCaptures _ _ _
    · refine (Shows.step scope _).bind fun _ => (Shows.step scope _).bind fun _ => ?_
      exact (Shows.step scope _).bind fun _ => films_bindCaptures _ _ _

mutual
lemma Expr.films_infer (config : Config) (env : Env) :
    ∀ e : Expr, Films (e.infer config env) (e.infer config env)
  | .literal _ => .step _ _
  | .ident name => by
    rw [Expr.infer, Expr.infer]
    cases env.values.lookup name with
    | some h => exact (Shows.step _ _).bind fun _ => .step _ _
    | none => exact .step _ _
  | .internal name => by
    rw [Expr.infer, Expr.infer]
    cases config.prelude.internals.find? name with
    | some ty => exact .step _ _
    | none => exact .step _ _
  | .app func arg => by
    rw [Expr.infer, Expr.infer]
    refine (func.films_infer config env).bind fun _ => (Shows.step _ _).bind fun _ => ?_
    refine (arg.films_infer config env).bind fun _ => (Shows.step _ _).bind fun _ => ?_
    exact (Shows.step _ _).bind fun _ => (Shows.step _ _).bind fun _ => .pure _
  | .function params body => by
    rw [Expr.infer, Expr.infer]
    refine (films_bindParams _ _ _ _).bind fun _ => (body.films_infer config _).bind fun _ => ?_
    exact (films_takeAll _ _).bind fun _ => .pure _
  | .guards branches otherwise => by
    rw [Expr.infer, Expr.infer]
    refine (Shows.step _ _).bind fun _ => (Shows.step _ _).bind fun _ => ?_
    refine (Expr.films_inferBranches config env _ branches).bind fun _ => ?_
    refine (otherwise.films_infer config env).bind fun _ => (Shows.step _ _).bind fun _ => ?_
    exact (Shows.step _ _).bind fun _ => .step _ _
  | .cases scrutinee arms => by
    rw [Expr.infer, Expr.infer]
    refine (scrutinee.films_infer config env).bind fun _ => (Shows.step _ _).bind fun _ => ?_
    refine (Shows.step _ _).bind fun _ => (Shows.step _ _).bind fun _ => ?_
    refine (Expr.films_inferArms config env _ _ arms).bind fun _ => ?_
    exact (Shows.step _ _).bind fun _ => .step _ _
  | .letIn decls body => by
    rw [Expr.infer, Expr.infer]
    refine (Shows.within _ ?_).bind fun _ => (body.films_infer config _).bind fun _ => ?_
    · exact (films_declareDatatypes _).bind fun _ => Decl.films_bindAll config decls
    · exact (films_releaseAll _ _).bind fun _ => .pure _

lemma Expr.films_inferBranches (config : Config) (env : Env) (result : Handle) :
    ∀ branches, Films (Expr.inferBranches config env result branches)
      (Expr.inferBranches config env result branches)
  | [] => .pure ()
  | (condition, branch) :: branches => by
    rw [Expr.inferBranches, Expr.inferBranches]
    refine (condition.films_infer config env).bind fun _ => (Shows.step _ _).bind fun _ => ?_
    refine (branch.films_infer config env).bind fun _ => (Shows.step _ _).bind fun _ => ?_
    exact (Shows.step _ _).bind fun _ => Expr.films_inferBranches config env result branches

lemma Expr.films_inferArms (config : Config) (env : Env) (scrutinee result : Handle) :
    ∀ arms, Films (Expr.inferArms config env scrutinee result arms)
      (Expr.inferArms config env scrutinee result arms)
  | [] => .pure ()
  | (pattern, body) :: arms => by
    rw [Expr.inferArms, Expr.inferArms]
    refine (films_bindPattern _ _ _ _).bind fun _ => (body.films_infer config _).bind fun _ => ?_
    refine (Shows.step _ _).bind fun _ => (Shows.step _ _).bind fun _ => ?_
    refine (films_releaseAll _ _).bind fun _ => ?_
    exact Expr.films_inferArms config env scrutinee result arms

lemma Decl.films_bindAll (config : Config) :
    ∀ decls, FilmsIn (Decl.bindAll config decls) (Decl.bindAll config decls)
  | [] => .pure ()
  | .value name ascription value _ :: decls => by
    rw [Decl.bindAll, Decl.bindAll]
    refine (films_bindValueWith config name ascription fun env => ?_).bind fun _ => ?_
    · exact value.films_infer config env
    · exact Decl.films_bindAll config decls
  | .datatype _ :: decls => by
    rw [Decl.bindAll, Decl.bindAll]
    exact Decl.films_bindAll config decls
  | .fixity _ :: decls => by
    rw [Decl.bindAll, Decl.bindAll]
    exact Decl.films_bindAll config decls
end

lemma Expr.films_inferSolved (config : Config) (env : Env) (e : Expr) :
    Films (e.inferSolved config env) (e.inferSolved config env) :=
  (e.films_infer config env).bind fun _ => (Shows.step _ _).bind fun _ =>
    (Shows.step _ _).bind fun _ => .step _ _

lemma films_declare (config : Config) (decls : List Decl) :
    FilmsIn (declare config decls) (declare config decls) :=
  (films_declareDatatypes _).bind fun _ => Decl.films_bindAll config decls

end LetPoly
