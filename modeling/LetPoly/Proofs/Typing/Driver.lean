import LetPoly.Proofs.Typing.Agreement
import LetPoly.Proofs.Typing.Ready

/-!
# Programs and `let`

Checking a program and inferring the type of a `let` with the same declarations take different
ways: the one enters the kinds of the datatypes in the outermost scope, before the prelude is
brought in, and lays errors to declarations; the other enters them in a scope of its own and lets
its values go at the end. They come to the same (`checkProgram_eq_inferLet`), because inference
depends on kinds only through what is found under a name, and because nothing can fail any more once
the last value is bound.
-/

namespace LetPoly

open Inference Session

variable {α : Type}

/-! ### The end of a `let` -/

lemma Expr.infer_letIn (config : Config) (env : Env) (decls : List Decl) (body : Expr) :
    (Expr.letIn decls body).infer config env = (do
      let inner ← within env.child (declare config decls)
      let result ← body.infer config inner
      releaseAll env.values inner.values.innermost.values
      return result : InferM Ty) := by
  rw [Expr.infer]
  rfl

lemma SessionOn.Ready.of_agrees {s s' : Session} (hs : s'.Ready) (h : s.Agrees s') : s.Ready where
  live := by
    rw [h.inference, h.env.values]
    exact hs.live
  stray := h.inference ▸ hs.stray
  idle := h.inference ▸ hs.idle

/-- A `let` whose body is the unit value has the unit type once its declarations are in scope. -/
lemma SessionOn.Ready.inferUnit {s : Session} (hs : s.Ready) {config : Config} {env : Env}
    {decls : List Decl} {s₀ : Inference}
    (hinner : within env.child (declare config decls) s₀ = .ok s.env s.inference) :
    ∃ s', (Expr.letIn decls (.literal .unit)).inferSolved config env s₀ = .ok .unit s' := by
  have hinfer : (Expr.letIn decls (.literal .unit)).infer config env s₀ =
      .ok .unit (s.inference.releasedAll s.env.values.innermost.values) := by
    have hunit : (pure Literal.unit.ty : InferM Ty) s.inference = .ok .unit s.inference := rfl
    rw [Expr.infer_letIn, bind_of_ok hinner, Expr.infer, step_of_ok hunit,
      bind_of_ok (releaseAll_run _ _)]
    rfl
  let s₁ := s.inference.releasedAll s.env.values.innermost.values
  have hidle : (s₁.tracked .unit).Idle := (queue_releasedAll _ _).trans hs.idle
  have hunit : (s₁.tracked .unit).settled.term? (s₁.newHandle .unit) = some .unit :=
    (hidle.term?_settled _).trans (s₁.term?_newHandle .unit)
  refine ⟨(s₁.tracked .unit).settled.released (s₁.newHandle .unit), ?_⟩
  rw [Expr.inferSolved, bind_of_ok hinfer, step_of_ok (track_run s₁ .unit),
    step_of_ok (solve_run hidle.solvable), step_plain, take_run hunit]

/-- The type of a `let` with the given declarations and the unit value as its body, in a scope that
holds just the prelude. -/
def inferLet (config : Config) (decls : List Decl) : Except (Fault TypeError) Ty :=
  let run : DeclM Ty := do
    bringValues config.prelude.values.entries
    ((Expr.letIn decls (.literal .unit)).inferSolved config (← scopes) : InferM Ty)
  match run (.start config) with
  | .ok ty _ => .ok ty
  | .error e _ => .error e

/-! ### Errors laid to declarations -/

/-- The same error, laid to a declaration, in sessions that agree. -/
def Laid (e : Fault CheckError) (s : Session) (e' : Fault TypeError) (s' : Session) : Prop :=
  e.map CheckError.error = e' ∧ s.Agrees s'

lemma Alike.blame {x x' : DeclM α} {s s' : Session} (h : Alike Same Same (x s) (x' s'))
    (declaration : Option String) (span : Span) :
    Alike Laid Same (LetPoly.blame declaration span x s) (x' s') := by
  rw [LetPoly.blame, EStateM.adaptExcept]
  cases hrun : x s with
  | ok a t =>
    rw [hrun] at h
    cases hrun' : x' s' with
    | ok a' t' => rwa [hrun'] at h
    | error e' t' => rwa [hrun'] at h
  | error e t =>
    rw [hrun] at h
    cases hrun' : x' s' with
    | ok a' t' => rwa [hrun'] at h
    | error e' t' =>
      rw [hrun'] at h
      obtain ⟨rfl, ht⟩ := h
      cases e with
      | error e => exact ⟨rfl, ht⟩
      | released h => exact ⟨rfl, ht⟩

lemma alike_checkConstructors (ds : List Datatype) {s s' : Session} (h : s.Agrees s') :
    Alike Laid Same (checkConstructors ds s) (registerAll ds s') := by
  induction ds generalizing s s' with
  | nil => exact ⟨rfl, h⟩
  | cons d ds ih =>
    exact ((alike_registerEach d d.constructors h).blame _ _).bind fun _ _ _ _ h' => ih h'.2

lemma alike_checkValues (config : Config) (decls : List Decl) {s s' : Session} (h : s.Agrees s') :
    Alike Laid Same (checkValues config decls s) (Decl.bindAll config decls s') := by
  induction decls generalizing s s' with
  | nil =>
    rw [Decl.bindAll]
    exact ⟨rfl, h⟩
  | cons d decls ih =>
    cases d with
    | value name ascription value position =>
      rw [Decl.bindAll]
      refine ((alike_bindValueWith config name ascription (fun henv => ?_) h).blame _ _).bind
        fun _ _ _ _ h' => ih h'.2
      exact value.infer_congr config henv
    | datatype d =>
      rw [Decl.bindAll]
      exact ih h
    | fixity f =>
      rw [Decl.bindAll]
      exact ih h

lemma blameGroup_error (group : List Datatype) (e : Sited KindError) :
    (blameGroup group e).error = .kind e.item := by
  rw [blameGroup]
  cases culprit? group e.site with
  | none => rfl
  | some d => rfl

/-- Kinds may be noted before values are brought into scope or after it. -/
lemma bringValues_noted {entries : List (String × Ty)} {s s' : Session}
    (hrun : bringValues entries s = .ok () s') (recorded : List Kind) (kinds : Scope Kind) :
    bringValues entries ⟨s.inference.noted recorded, { s.env with kinds }⟩ =
      .ok () ⟨s'.inference.noted recorded, { s'.env with kinds }⟩ := by
  induction entries generalizing s with
  | nil =>
    cases hrun
    rfl
  | cons e entries ih => exact ih hrun

/-! ### Both ways -/

section BothWays

variable {config : Config} {decls : List Decl} {e : Sited KindError} {found : GroupKinds}

/-- How a check goes on once the kinds of the datatypes are found. -/
lemma checkDecls_of_ok {s : Session}
    (hfound : inferGroup config.prelude.kindScope (Decl.datatypes decls) = .ok found)
    (hbring : bringValues config.prelude.values.entries (.start config) = .ok () s) :
    checkDecls config decls (.start config) = (do
      checkConstructors (fillDatatypes (Decl.datatypes decls) found.recorded).1
      checkValues config decls
      closeProgram config found.declared : CheckM Typed) ⟨s.inference.noted found.recorded,
        ⟨s.env.values.child, config.prelude.kindScope.insertAll found.declared⟩⟩ := by
  have hdeclare : declareTypes (Decl.datatypes decls) (.start config) = _ :=
    declareTypes_eq_ok.2 ⟨found, hfound, rfl, rfl⟩
  have hopen : (do
      bringValues config.prelude.values.entries
      modifyValues Scope.child : DeclM Unit) ⟨Inference.initial.noted found.recorded,
        ⟨.empty, config.prelude.kindScope.insertAll found.declared⟩⟩ =
      .ok () ⟨s.inference.noted found.recorded,
        ⟨s.env.values.child, config.prelude.kindScope.insertAll found.declared⟩⟩ :=
    bind_of_ok (bringValues_noted hbring found.recorded _)
  rw [checkDecls, bind_of_ok (adaptExcept_eq_ok.2 hdeclare)]
  dsimp only
  rw [bind_of_ok (blame_eq_ok.2 hopen)]
  rfl

/-- How the declarations of a `let` go on once the kinds of its datatypes are found. -/
lemma declare_of_ok {s : Session}
    (hfound : inferGroup s.env.kinds (Decl.datatypes decls) = .ok found) :
    declare config decls s = (do
      registerAll (fillDatatypes (Decl.datatypes decls) found.recorded).1
      Decl.bindAll config decls : DeclM Unit) ⟨s.inference.noted found.recorded,
        { s.env with kinds := s.env.kinds.insertAll found.declared }⟩ := by
  have hdeclare : declareTypes (Decl.datatypes decls) s = _ :=
    declareTypes_eq_ok.2 ⟨found, hfound, rfl, rfl⟩
  rw [declare, declareDatatypes]
  simp only [bind_assoc]
  rw [stepIn_of_ok (adaptExcept_eq_ok.2 hdeclare)]

lemma inferSolved_letIn_of_error {env : Env} {s : Inference} {S : Session} {fault : Fault TypeError}
    {body : Expr} (hdeclare : declare config decls ⟨s, env.child⟩ = .error fault S) :
    (Expr.letIn decls body).inferSolved config env s = .error fault S.inference := by
  have hinfer : (Expr.letIn decls body).infer config env s = .error fault S.inference := by
    rw [Expr.infer_letIn, bind_of_error (within_of_error hdeclare)]
  rw [Expr.inferSolved, bind_of_error hinfer]

lemma inferLet_of_ok {s : Session} {s' : Inference} {t : Ty}
    (hbring : bringValues config.prelude.values.entries (.start config) = .ok () s)
    (hrun : (Expr.letIn decls (.literal .unit)).inferSolved config s.env s.inference = .ok t s') :
    inferLet config decls = .ok t := by
  have hlet : (do
      bringValues config.prelude.values.entries
      ((Expr.letIn decls (.literal .unit)).inferSolved config (← scopes) : InferM Ty) : DeclM Ty)
        (.start config) =
      .ok t ⟨s', s.env⟩ := by
    rw [bind_of_ok hbring, bind_of_ok (scopes_run _ _)]
    exact liftM_of_ok hrun
  simp only [inferLet, hlet]

lemma inferLet_of_error {s : Session} {s' : Inference} {fault : Fault TypeError}
    (hbring : bringValues config.prelude.values.entries (.start config) = .ok () s)
    (hrun : (Expr.letIn decls (.literal .unit)).inferSolved config s.env s.inference =
      .error fault s') : inferLet config decls = .error fault := by
  have hlet : (do
      bringValues config.prelude.values.entries
      ((Expr.letIn decls (.literal .unit)).inferSolved config (← scopes) : InferM Ty) : DeclM Ty)
        (.start config) =
      .error fault ⟨s', s.env⟩ := by
    rw [bind_of_ok hbring, bind_of_ok (scopes_run _ _)]
    exact liftM_of_error hrun
  simp only [inferLet, hlet]

/-- A program is accepted exactly if a `let` with its declarations is, which then has the unit type,
and otherwise both are refused with the same error. -/
theorem checkProgram_eq_inferLet (config : Config) (decls : List Decl) :
    inferLet config decls = ((checkProgram config decls).2.map fun _ => Ty.unit).mapError
      (Fault.map CheckError.error) := by
  obtain ⟨S, hbring, hS, hkinds⟩ := (ready_start config).bringValues config.prelude.values.entries
  have hlookup (c : String) : S.env.child.kinds.lookup c = config.prelude.kindScope.lookup c := by
    rw [Env.child, Scope.lookup_child, hkinds]
    rfl
  have hgroup := inferGroup_congr hlookup (Decl.datatypes decls)
  cases hfound : inferGroup config.prelude.kindScope (Decl.datatypes decls) with
  | error e =>
    have hcheck : checkDecls config decls (.start config) =
        .error (.error (blameGroup (Decl.datatypes decls) e)) (.start config) := by
      rw [checkDecls, bind_of_error]
      exact adaptExcept_of_error (declareTypes_of_error hfound)
    have hdeclare : declare config decls ⟨S.inference, S.env.child⟩ =
        .error (.error (.kind e.item)) ⟨S.inference, S.env.child⟩ := by
      rw [declare, declareDatatypes, bind_assoc, bind_of_error]
      exact adaptExcept_of_error (declareTypes_of_error (hgroup.trans hfound))
    rw [checkProgram_of_error hcheck,
      inferLet_of_error hbring (inferSolved_letIn_of_error hdeclare)]
    show Except.error (Fault.error (TypeError.kind e.item)) =
      .error (.error (blameGroup (Decl.datatypes decls) e).error)
    rw [blameGroup_error]
  | ok found =>
    let group := (fillDatatypes (Decl.datatypes decls) found.recorded).1
    let s₁ : Session := ⟨S.inference.noted found.recorded,
      ⟨S.env.values.child, config.prelude.kindScope.insertAll found.declared⟩⟩
    let s₂ : Session := ⟨S.inference.noted found.recorded,
      { S.env.child with kinds := S.env.child.kinds.insertAll found.declared }⟩
    have hagrees : s₁.Agrees s₂ :=
      ⟨rfl, rfl, fun c => by simp only [s₁, s₂, Scope.lookup_insertAll, hlookup]⟩
    have hs₂ : s₂.Ready := ⟨hS.live, hS.stray, hS.idle⟩
    have halike : Alike Laid Same
        ((do checkConstructors group; checkValues config decls : CheckM Unit) s₁)
        ((do registerAll group; Decl.bindAll config decls : DeclM Unit) s₂) :=
      (alike_checkConstructors group hagrees).bind fun _ _ _ _ h => alike_checkValues config decls h.2
    have hcheck := checkDecls_of_ok hfound hbring
    rw [← bind_assoc] at hcheck
    have hdeclare : declare config decls ⟨S.inference, S.env.child⟩ = _ :=
      declare_of_ok (hgroup.trans hfound)
    cases hleft : (do checkConstructors group; checkValues config decls : CheckM Unit) s₁ with
    | error fault t =>
      cases hright : (do registerAll group; Decl.bindAll config decls : DeclM Unit) s₂ with
      | error fault' t' =>
        rw [hleft, hright] at halike
        obtain ⟨rfl, _⟩ := halike
        rw [checkProgram_of_error (hcheck.trans (bind_of_error hleft)),
          inferLet_of_error hbring (inferSolved_letIn_of_error (hdeclare.trans hright))]
        rfl
      | ok u t' =>
        rw [hleft, hright] at halike
        exact halike.elim
    | ok u t =>
      cases hright : (do registerAll group; Decl.bindAll config decls : DeclM Unit) s₂ with
      | error fault' t' =>
        rw [hleft, hright] at halike
        exact halike.elim
      | ok u' t' =>
        rw [hleft, hright] at halike
        obtain ⟨_, t₁, hregister, hbind⟩ := bind_eq_ok.1 hright
        have ht' : t'.Ready := ((hs₂.registerAll hregister).bindAll config decls).of_run hbind
        obtain ⟨values, t₂, hclose, _⟩ :=
          (ht'.of_agrees halike.2).closeProgram config found.declared
        obtain ⟨t₃, hunit⟩ := ht'.inferUnit (within_eq_ok.2 (hdeclare.trans hright))
        rw [checkProgram_of_ok (hcheck.trans ((bind_of_ok hleft).trans hclose)),
          inferLet_of_ok hbring hunit]
        rfl

end BothWays

end LetPoly
