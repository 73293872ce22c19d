import LetPoly.Proofs.Typing.Repeats
import LetPoly.Proofs.Typing.Traced

/-!
# Checking programs again

A check records kinds in the program. Checked again as the first check left it, the program has the
same types, or the same error, and there is nothing left to record (`checkProgram_again`). What a
check records it reads again only in ascriptions and groups of datatypes, and both repeat themselves;
the rest of the run follows.
-/

namespace LetPoly

open Inference Session

variable {config : Config} {env : Env}

/-- Tests the types written in a program: no kind recorded in them has unknowns. -/
def groundSlots : TypeTest where
  param := Ty.Grounded
  binding := Ty.Grounded
  group ds := ∀ d ∈ ds, ∀ t ∈ d.types, t.Grounded

instance (ds : List Datatype) : Decidable (groundSlots.group ds) :=
  inferInstanceAs (Decidable (∀ d ∈ ds, ∀ t ∈ d.types, t.Grounded))

/-! ### Ascriptions -/

lemma noted_nil (s : Inference) : s.noted [] = s := by rw [Inference.noted, List.append_nil]

lemma repeats_ascribe {t : Ty} (henv : env.GroundKinds) (ht : t.Grounded) :
    Repeats (ascribe env.kinds t) t.fill (ascribe env.kinds) fun _ => True where
  keeps _ _ := ⟨trivial, trivial⟩
  of_ok {s s' a} _ hrun := by
    obtain ⟨found, hfound, rfl, rfl⟩ := ascribe_eq_ok hrun
    obtain ⟨t', hfill, hagain⟩ := checkAscription_again henv ht hfound
    have ht' : (t.fill found).1 = t' := by
      have hfound' := hfill []
      rw [List.append_nil] at hfound'
      rw [hfound']
    refine ⟨found, t', rfl, hfill, fun kinds => ?_⟩
    rw [ascribe_run hagain, Ty.fill_nil, ht', noted_nil]
    rfl
  of_error {s s' e} _ hrun := by
    cases hcheck : (checkAscription env.kinds t).2 with
    | ok found =>
      rw [ascribe_run hcheck] at hrun
      cases hrun
    | error e' =>
      rw [ascribe_of_error hcheck] at hrun
      cases hrun
      refine ⟨[], (List.append_nil _).symm, fun kinds => ?_⟩
      rw [Ty.fill_nil, ascribe_of_error hcheck]
      rfl

lemma repeats_ascribedTy {ascription : Option Ty} (henv : env.GroundKinds)
    (ht : ∀ t, ascription = some t → t.Grounded) :
    Repeats (ascribedTy env.kinds ascription) (fillAscription ascription) (ascribedTy env.kinds)
      fun _ => True := by
  cases ascription with
  | none => exact (Steady.pure none).repeats (fun _ => rfl) rfl
  | some t =>
    exact .map some (fun _ => rfl) (fun _ => rfl)
      ((repeats_ascribe henv (ht t rfl)).bind_steady fun t' =>
        (steady_quantify t').bind fun _ => .pure _)

lemma repeats_paramTy {p : Param} (henv : env.GroundKinds)
    (hp : ∀ t, p.ascription = some t → t.Grounded) :
    Repeats (paramTy env.kinds p) (fillAscription p.ascription)
      (fun ascription => paramTy env.kinds ⟨p.name, ascription⟩) fun _ => True := by
  obtain ⟨name, ascription⟩ := p
  cases ascription with
  | none => exact steady_fresh.repeats (fun _ => rfl) rfl
  | some t => exact .map some (fun _ => rfl) (fun _ => rfl) (repeats_ascribe henv (hp t rfl))

lemma repeats_bindParams {params : List Param} (henv : env.GroundKinds)
    (hparams : ∀ p ∈ params, ∀ t, p.ascription = some t → t.Grounded) (scope : Scope Handle) :
    Repeats (bindParams config env.kinds params scope : InferM (Scope Handle × List Handle))
      (fillParams params)
      (fun params => bindParams config env.kinds params scope) fun _ => True := by
  induction params generalizing scope with
  | nil => exact (Steady.pure _).repeats (fun _ => rfl) rfl
  | cons p params ih =>
    rw [List.forall_mem_cons] at hparams
    rw [bindParams]
    refine .map (fun q => ⟨p.name, q.1⟩ :: q.2) (fun _ => rfl) (fun _ => rfl)
      ((repeats_paramTy henv hparams.1).bind fun ty _ _ => (steady_track ty).bind_repeats fun h =>
        (ih hparams.2 _).bind_steady ?_)
    exact fun _ => .pure _

/-! ### Groups of datatypes -/

lemma repeats_declareTypes {group : List Datatype} (hgroup : groundSlots.group group) :
    Repeats (declareTypes group) (fillDatatypes group) declareTypes fun _ => True where
  keeps {s s' a} hs hrun := by
    obtain ⟨s, env⟩ := s
    obtain ⟨found, hfound, -, rfl⟩ := declareTypes_eq_ok.1 hrun
    refine ⟨fun c k hk => ?_, trivial⟩
    rw [Scope.lookup_insertAll] at hk
    rcases Option.or_eq_some_iff.1 hk with hk | ⟨-, hk⟩
    · exact isGround_of_inferGroup hs hgroup hfound hk
    · exact hs c k hk
  of_ok {s s' a} hs hrun := by
    obtain ⟨s, env⟩ := s
    obtain ⟨found, hfound, rfl, rfl⟩ := declareTypes_eq_ok.1 hrun
    obtain ⟨group', found', hfill, hagain, hdeclared, hrecorded⟩ :=
      inferGroup_again hs hgroup hfound
    have hgroup' : (fillDatatypes group found.recorded).1 = group' := by
      have hfound' := hfill []
      rw [List.append_nil] at hfound'
      rw [hfound']
    refine ⟨found.recorded, group', rfl, hfill, fun kinds => declareTypes_eq_ok.2 ?_⟩
    refine ⟨found', hagain, ?_, ?_⟩
    · rw [hdeclared, hrecorded, fillDatatypes_nil, hgroup']
    · rw [hdeclared, hrecorded, noted_nil]
      rfl
  of_error {s s' e} hs hrun := by
    cases hfound : inferGroup s.env.kinds group with
    | ok found =>
      rw [declareTypes_eq_ok.2 ⟨found, hfound, rfl, rfl⟩] at hrun
      cases hrun
    | error e' =>
      rw [declareTypes_of_error hfound] at hrun
      cases hrun
      refine ⟨[], (List.append_nil _).symm, fun kinds => ?_⟩
      rw [fillDatatypes_nil]
      exact declareTypes_of_error hfound

lemma repeats_declareDatatypes {group : List Datatype} (hgroup : groundSlots.group group) :
    Repeats (declareDatatypes group : DeclM Unit) (fillDatatypes group) declareDatatypes
      fun _ => True :=
  ((repeats_declareTypes hgroup).adaptExcept fun _ _ => rfl).bind_steady fun p =>
    steady_registerAll p.2

/-! ### Expressions -/

lemma repeats_scopes :
    Repeats scopes (fun kinds => ((), kinds)) (fun _ => scopes) Env.GroundKinds where
  keeps hs hrun := by
    cases hrun
    exact ⟨hs, hs⟩
  of_ok {s s' a} hs hrun := by
    cases hrun
    exact ⟨[], (), (List.append_nil _).symm, fun _ => rfl, fun _ => rfl⟩
  of_error hs hrun := by cases hrun

lemma repeats_scopes_bind {α β : Type} {f : Env → DeclM α} {fill : List Kind → β × List Kind}
    {again : Env → β → DeclM α} {Q : α → Prop}
    (hf : ∀ env : Env, env.GroundKinds → Repeats (f env) fill (again env) Q) :
    Repeats (scopes >>= f) fill (fun b => scopes >>= fun env => again env b) Q :=
  .map Prod.snd (fun _ => rfl) (fun _ => rfl) (repeats_scopes.bind fun env henv _ => hf env henv)

lemma repeats_bindValueWith {β : Type} {name : String} {ascription : Option Ty}
    {inferValue : Env → InferM Ty} {fill : List Kind → β × List Kind} (again : β → Env → InferM Ty)
    (ht : ∀ t, ascription = some t → t.Grounded)
    (hvalue : ∀ env : Env, env.GroundKinds →
      Repeats (inferValue env) fill (fun b => again b env) fun _ => True) :
    Repeats (bindValueWith config name ascription inferValue)
      (fillThen (fillAscription ascription) fun _ => fill)
      (fun p => bindValueWith config name p.1 (again p.2)) fun _ => True :=
  repeats_scopes_bind fun _ henv => (repeats_ascribedTy henv ht).lift.bind fun ascribed _ _ =>
    (steady_provisionalTy ascribed).lift.bind_repeats fun ty =>
    (steady_track ty).lift.bind_repeats fun h => (steady_modifyValues _).bind_repeats fun _ =>
    repeats_scopes_bind fun env henv => (hvalue env henv).lift.bind_steady fun found =>
    (steady_settleTy env.values name ascribed h found).lift

lemma Decl.fillValues_fixity (f : Fixity) (decls : List Decl) (ds : List Datatype)
    (kinds : List Kind) : Decl.fillValues (.fixity f :: decls) ds kinds =
      (.fixity f :: (Decl.fillValues decls ds kinds).1, (Decl.fillValues decls ds kinds).2) := by
  cases ds <;> rfl

lemma Decl.datatypes_fillValues (decls : List Decl) (ds : List Datatype) (kinds : List Kind)
    (hds : ds.length = (Decl.datatypes decls).length) :
    Decl.datatypes (Decl.fillValues decls ds kinds).1 = ds := by
  induction decls generalizing ds kinds with
  | nil => exact (List.length_eq_zero_iff.1 hds).symm
  | cons d decls ih =>
    cases d with
    | value name ascription value position => exact ih ds _ hds
    | datatype d =>
      cases ds with
      | nil => cases hds
      | cons d' ds => exact congrArg (d' :: ·) (ih ds kinds (Nat.succ.inj hds))
    | fixity f =>
      rw [Decl.fillValues_fixity]
      exact ih ds kinds hds

/-- Record kinds in the types of a list of declarations, and give those that are left over. -/
def Decl.fillDecls (decls : List Decl) (kinds : List Kind) : List Decl × List Kind :=
  let (p, kinds) := fillThen (fillDatatypes (Decl.datatypes decls)) (Decl.fillValues decls) kinds
  (p.2, kinds)

lemma Decl.datatypes_fillThen (decls : List Decl) (kinds : List Kind) :
    Decl.datatypes (fillThen (fillDatatypes (Decl.datatypes decls)) (Decl.fillValues decls)
      kinds).1.2 = (fillThen (fillDatatypes (Decl.datatypes decls)) (Decl.fillValues decls)
        kinds).1.1 :=
  Decl.datatypes_fillValues _ _ _ (length_fillDatatypes _ _)

mutual
/-- Inferring the type of an expression again gives the same. -/
lemma Expr.repeats (env : Env) (henv : env.GroundKinds) : (e : Expr) → e.Meets groundSlots →
    Repeats (e.infer config env : InferM Ty) e.fill (fun e => e.infer config env) fun _ => True
  | .literal value, _ => (Steady.pure _).repeats (fun _ => rfl) rfl
  | .ident name, _ => by
    refine Steady.repeats ?_ (fun _ => rfl) rfl
    rw [Expr.infer]
    split
    · exact steady_instance _
    · exact steady_fail _
  | .internal name, _ => by
    refine Steady.repeats ?_ (fun _ => rfl) rfl
    rw [Expr.infer]
    split
    · exact steady_instantiate _
    · exact steady_fail _
  | .app func arg, h => by
    rw [Expr.infer]
    exact .map (fun p => .app p.1 p.2) (fun _ => rfl) (fun _ => rfl)
      ((Expr.repeats env henv func h.1).bind fun ty _ _ => (steady_track ty).bind_repeats fun f =>
        (Expr.repeats env henv arg h.2).bind_steady fun arg => steady_fresh.bind fun result =>
          (steady_take f).bind fun ty => (steady_equate _ _ _).bind fun _ => .pure _)
  | .function params body, h => by
    rw [Expr.infer]
    exact .map (fun p => .function p.1 p.2) (fun _ => rfl) (fun _ => rfl)
      ((repeats_bindParams henv h.1 _).bind fun p _ _ =>
        (Expr.repeats { env with values := p.1 } henv body h.2).bind_steady fun result =>
          (steady_takeAll _ p.2).bind fun _ => .pure _)
  | .guards branches otherwise, h => by
    rw [Expr.infer]
    exact .map (fun p => .guards p.1 p.2) (fun _ => rfl) (fun _ => rfl)
      (steady_fresh.bind_repeats fun ty => (steady_track ty).bind_repeats fun result =>
        (Expr.repeatsBranches env henv result branches h.1).bind fun _ _ _ =>
          (Expr.repeats env henv otherwise h.2).bind_steady fun otherwise =>
            (steady_current result).bind fun ty => (steady_equate _ _ _).bind fun _ =>
              steady_take result)
  | .cases scrutinee arms, h => by
    rw [Expr.infer]
    exact .map (fun p => .cases p.1 p.2) (fun _ => rfl) (fun _ => rfl)
      ((Expr.repeats env henv scrutinee h.1).bind fun ty _ _ =>
        (steady_track ty).bind_repeats fun scrutinee => steady_fresh.bind_repeats fun ty =>
          (steady_track ty).bind_repeats fun result =>
            (Expr.repeatsArms env henv scrutinee result arms h.2).bind_steady fun _ =>
              (steady_release scrutinee).bind fun _ => steady_take result)
  | .letIn decls body, h => by
    rw [Expr.infer]
    have hinner : Repeats (within env.child (declare config decls) : InferM Env)
        (Decl.fillDecls decls)
        (fun decls => within env.child (declare config decls)) Env.GroundKinds :=
      .within (fun c k hk => henv c k (by rwa [← Scope.lookup_child])) <|
        .map Prod.snd (fun _ => rfl) (fun kinds => by rw [declare, Decl.datatypes_fillThen])
          ((repeats_declareDatatypes h.1).bind fun _ _ ds => Decl.repeats_bindAll decls h.2.1 ds)
    exact .map (fun p => .letIn p.1 p.2) (fun _ => rfl) (fun _ => rfl)
      (hinner.bind fun inner hinner _ =>
        (Expr.repeats inner hinner body h.2.2).bind_steady fun result =>
          (steady_releaseAll _ _).bind fun _ => .pure result)

lemma Expr.repeatsBranches (env : Env) (henv : env.GroundKinds) (result : Handle) :
    (branches : List (Expr × Expr)) → Expr.MeetsBranches groundSlots branches →
    Repeats (Expr.inferBranches config env result branches : InferM Unit)
      (Expr.fillBranches branches)
      (Expr.inferBranches config env result) fun _ => True
  | [], _ => (Steady.pure _).repeats (fun _ => rfl) rfl
  | (condition, branch) :: branches, h => by
    rw [Expr.inferBranches]
    exact .map (fun p => (p.1, p.2.1) :: p.2.2) (fun _ => rfl) (fun _ => rfl)
      ((Expr.repeats env henv condition h.1).bind fun ty _ _ =>
        (steady_equate _ _ _).bind_repeats fun _ =>
          (Expr.repeats env henv branch h.2.1).bind fun ty _ _ =>
            (steady_current result).bind_repeats fun expected =>
              (steady_equate _ _ _).bind_repeats fun _ =>
                Expr.repeatsBranches env henv result branches h.2.2)

lemma Expr.repeatsArms (env : Env) (henv : env.GroundKinds) (scrutinee result : Handle) :
    (arms : List (Pattern × Expr)) → Expr.MeetsArms groundSlots arms →
    Repeats (Expr.inferArms config env scrutinee result arms : InferM Unit) (Expr.fillArms arms)
      (Expr.inferArms config env scrutinee result) fun _ => True
  | [], _ => (Steady.pure _).repeats (fun _ => rfl) rfl
  | (pattern, body) :: arms, h => by
    rw [Expr.inferArms]
    exact .map (fun p => (pattern, p.1) :: p.2) (fun _ => rfl) (fun _ => rfl)
      ((steady_bindPattern config scrutinee env.values.child pattern).bind_repeats fun scope =>
        (Expr.repeats { env with values := scope } henv body h.1).bind fun ty _ _ =>
          (steady_current result).bind_repeats fun expected =>
            (steady_equate _ _ _).bind_repeats fun _ => (steady_releaseAll _ _).bind_repeats fun _ =>
              Expr.repeatsArms env henv scrutinee result arms h.2)

lemma Decl.repeats_bindAll : (decls : List Decl) → Decl.Meets groundSlots decls →
    (ds : List Datatype) → Repeats (Decl.bindAll config decls : DeclM Unit)
      (Decl.fillValues decls ds)
      (Decl.bindAll config) fun _ => True
  | [], _, _ => (Steady.pure _).repeats (fun _ => rfl) rfl
  | .value name ascription value position :: decls, h, ds => by
    rw [Decl.bindAll]
    exact .map (fun p => .value name p.1.1 p.1.2 position :: p.2) (fun _ => rfl) (fun _ => rfl)
      ((repeats_bindValueWith (fun value env => Expr.infer config env value) h.1
        fun env henv => Expr.repeats env henv value h.2.1).bind fun _ _ _ =>
          Decl.repeats_bindAll decls h.2.2 ds)
  | .datatype d :: decls, h, [] =>
    .map (.datatype d :: ·) (fun _ => rfl) (fun _ => rfl) (Decl.repeats_bindAll decls h [])
  | .datatype _ :: decls, h, d :: ds =>
    .map (.datatype d :: ·) (fun _ => rfl) (fun _ => rfl) (Decl.repeats_bindAll decls h ds)
  | .fixity f :: decls, h, ds =>
    .map (.fixity f :: ·) (Decl.fillValues_fixity f decls ds) (fun _ => rfl)
      (Decl.repeats_bindAll decls h ds)
end

/-! ### Programs -/

lemma repeats_bindValue {name : String} {ascription : Option Ty} {value : Expr}
    (ht : ∀ t, ascription = some t → t.Grounded) (hvalue : value.Meets groundSlots) :
    Repeats (bindValue config name ascription value : DeclM Unit)
      (fillThen (fillAscription ascription) fun _ => value.fill)
      (fun p => bindValue config name p.1 p.2) fun _ => True :=
  repeats_bindValueWith (fun value env => Expr.infer config env value) ht
    fun env henv => Expr.repeats env henv value hvalue

lemma Repeats.blame {α β : Type} {x : DeclM α} {fill : List Kind → β × List Kind}
    {again : β → DeclM α} {Q : α → Prop} {declaration : Option String} {span : Span}
    (hx : Repeats x fill again Q) : Repeats (LetPoly.blame declaration span x) fill
      (fun b => LetPoly.blame declaration span (again b)) Q :=
  hx.adaptExcept fun _ _ => rfl

lemma repeats_checkValues (decls : List Decl) (h : Decl.Meets groundSlots decls)
    (ds : List Datatype) : Repeats (checkValues config decls) (Decl.fillValues decls ds)
      (checkValues config) fun _ => True := by
  induction decls generalizing ds with
  | nil => exact (Steady.pure _).repeats (fun _ => rfl) rfl
  | cons d decls ih =>
    cases d with
    | value name ascription value position =>
      rw [checkValues]
      exact .map (fun p => .value name p.1.1 p.1.2 position :: p.2) (fun _ => rfl) (fun _ => rfl)
        ((repeats_bindValue h.1 h.2.1).blame.bind fun _ _ _ => ih h.2.2 ds)
    | datatype d =>
      cases ds with
      | nil => exact .map (.datatype d :: ·) (fun _ => rfl) (fun _ => rfl) (ih h [])
      | cons d' ds => exact .map (.datatype d' :: ·) (fun _ => rfl) (fun _ => rfl) (ih h ds)
    | fixity f =>
      exact .map (.fixity f :: ·) (Decl.fillValues_fixity f decls ds) (fun _ => rfl) (ih h ds)

/-- What is known of the datatype that is to blame, if it is known of all of them. -/
lemma map_culprit? {γ : Type} (f : Datatype → γ) (group : List Datatype) (site : Option Nat) :
    (culprit? group site).map f = (site.bind ((group.map f)[·]?)).or (group.map f).head? := by
  rw [culprit?, List.head?_map]
  cases site with
  | none => rfl
  | some i =>
    rw [Option.bind_some, Option.bind_some, List.getElem?_map]
    cases group[i]? <;> rfl

lemma blameGroup_fillDatatypes (group : List Datatype) (kinds : List Kind) (e : Sited KindError) :
    blameGroup (fillDatatypes group kinds).1 e = blameGroup group e := by
  have hblame (ds : List Datatype) : blameGroup ds e =
      ((culprit? ds e.site).map fun d => (d.name?, d.position)).elim ⟨none, {}, .kind e.item⟩
        fun p => ⟨p.1, p.2, .kind e.item⟩ := by
    rw [blameGroup]
    cases culprit? ds e.site <;> rfl
  rw [hblame, hblame, map_culprit?, map_culprit?, map_fillDatatypes fun d own => ?_]
  rw [Datatype.name?_fill]
  rfl

lemma steady_scopes : Steady scopes where
  same _ _ := rfl
  keeps hs hrun := by
    cases hrun
    exact hs

lemma steady_closeProgram (kinds : Table Kind) : Steady (closeProgram config kinds) := by
  have hfinish : Steady (finish config : DeclM Unit) :=
    steady_solve.lift.bind fun _ => (steady_giveDefaults config).lift
  refine (hfinish.bind fun _ => steady_scopes.bind fun env => ?_).adaptExcept _
  exact (steady_readValues _).lift.bind fun values => .pure _

lemma repeats_openProgram {group : List Datatype} (hgroup : groundSlots.group group) :
    Repeats (openProgram config group) (fillDatatypes group) (openProgram config) fun _ => True := by
  have hdeclare : Repeats ((declareTypes group).adaptExcept fun e => Fault.error (blameGroup group e))
      (fillDatatypes group)
      (fun group => (declareTypes group).adaptExcept fun e => .error (blameGroup group e))
      fun _ => True :=
    (repeats_declareTypes hgroup).adaptExcept fun kinds e => by rw [blameGroup_fillDatatypes]
  exact hdeclare.bind_steady fun p =>
    (((steady_bringValues _).bind fun _ => steady_modifyValues _).adaptExcept _).bind
      fun _ => (steady_checkConstructors p.2).bind fun _ => .pure _

lemma repeats_checkDecls {decls : List Decl} (hgroup : groundSlots.group (Decl.datatypes decls))
    (hdecls : Decl.Meets groundSlots decls) :
    Repeats (checkDecls config decls) (Decl.fillDecls decls) (checkDecls config) fun _ => True := by
  rw [checkDecls_eq]
  refine .map Prod.snd (fun _ => rfl) ?_ ((repeats_openProgram hgroup).bind fun kinds _ ds =>
    (repeats_checkValues decls hdecls ds).bind_steady fun _ => steady_closeProgram kinds)
  intro kinds
  rw [checkDecls_eq, Decl.datatypes_fillThen]

/-! ### Nothing to record -/

lemma fillAscription_nil (ascription : Option Ty) :
    fillAscription ascription [] = (ascription, []) := by
  cases ascription with
  | none => rfl
  | some t => simp only [fillAscription, Ty.fill_nil]

lemma fillParams_nil (params : List Param) : fillParams params [] = (params, []) := by
  induction params with
  | nil => rfl
  | cons p params ih => simp only [fillParams, fillAscription_nil, ih]

mutual
lemma Expr.fill_nil : (e : Expr) → e.fill [] = (e, [])
  | .literal _ => rfl
  | .ident _ => rfl
  | .internal _ => rfl
  | .app func arg => by simp only [Expr.fill, Expr.fill_nil func, Expr.fill_nil arg]
  | .function params body => by simp only [Expr.fill, fillParams_nil, Expr.fill_nil body]
  | .guards branches otherwise => by
    simp only [Expr.fill, Expr.fillBranches_nil branches, Expr.fill_nil otherwise]
  | .cases scrutinee arms => by
    simp only [Expr.fill, Expr.fill_nil scrutinee, Expr.fillArms_nil arms]
  | .letIn decls body => by
    simp only [Expr.fill, fillDatatypes_nil, Decl.fillValues_nil decls, Expr.fill_nil body]

lemma Expr.fillBranches_nil : (branches : List (Expr × Expr)) →
    Expr.fillBranches branches [] = (branches, [])
  | [] => rfl
  | (condition, branch) :: branches => by
    simp only [Expr.fillBranches, Expr.fill_nil condition, Expr.fill_nil branch,
      Expr.fillBranches_nil branches]

lemma Expr.fillArms_nil : (arms : List (Pattern × Expr)) → Expr.fillArms arms [] = (arms, [])
  | [] => rfl
  | (pattern, body) :: arms => by
    simp only [Expr.fillArms, Expr.fill_nil body, Expr.fillArms_nil arms]

lemma Decl.fillValues_nil : (decls : List Decl) →
    Decl.fillValues decls (Decl.datatypes decls) [] = (decls, [])
  | [] => rfl
  | .value name ascription value position :: decls => by
    simp only [Decl.fillValues, fillAscription_nil, Expr.fill_nil value]
    exact congrArg (fun p => (Decl.value name ascription value position :: p.1, p.2))
      (Decl.fillValues_nil decls)
  | .datatype d :: decls =>
    congrArg (fun p => (Decl.datatype d :: p.1, p.2)) (Decl.fillValues_nil decls)
  | .fixity f :: decls =>
    (Decl.fillValues_fixity f decls _ []).trans
      (congrArg (fun p => (Decl.fixity f :: p.1, p.2)) (Decl.fillValues_nil decls))
end

lemma Decl.fillAll_nil (decls : List Decl) : Decl.fillAll decls [] = decls := by
  rw [Decl.fillAll, fillDatatypes_nil]
  exact congrArg Prod.fst (Decl.fillValues_nil decls)

/-- Checked again with the kinds that the first check recorded, a program has the same types or the
same error, and no kind is recorded any more. -/
theorem checkProgram_again (config : Config) (decls : List Decl)
    (hprelude : ∀ k ∈ config.prelude.kinds.values, k.IsGround)
    (hgroup : groundSlots.group (Decl.datatypes decls)) (hdecls : Decl.Meets groundSlots decls) :
    checkProgram config (checkProgram config decls).1 = checkProgram config decls := by
  have hrepeats : Repeats (checkDecls config decls) (Decl.fillDecls decls) (checkDecls config)
    fun _ => True := repeats_checkDecls hgroup hdecls
  have hscope : (Session.start config).env.GroundKinds := by
    intro c k hk
    have hmem : k ∈ config.prelude.kindScope.values := Scope.mem_of_lookup hk
    exact hprelude k (by simpa [Scope.values, Prelude.kindScope, Scope.ofTable] using hmem)
  have hnil (s : Session) : (Recording.rerecord [] s).inference.recorded = [] := rfl
  cases hrun : checkDecls config decls (.start config) with
  | ok typed s =>
    obtain ⟨new, decls', hnew, hfill, hagain⟩ := hrepeats.of_ok (s := .start config) hscope hrun
    have hdecls' : Decl.fillAll decls s.inference.recorded = decls' := by
      rw [show s.inference.recorded = new ++ [] from hnew.trans (List.append_nil new).symm]
      exact congrArg Prod.fst (hfill [])
    have hrun' : checkDecls config decls' (.start config) = .ok typed (Recording.rerecord [] s) :=
      hagain []
    rw [checkProgram_of_ok hrun, hdecls', checkProgram_of_ok hrun', hnil, Decl.fillAll_nil]
  | error e s =>
    obtain ⟨new, hnew, hagain⟩ := hrepeats.of_error (s := .start config) hscope hrun
    have hdecls' : Decl.fillAll decls s.inference.recorded = (Decl.fillDecls decls new).1 :=
      congrArg (Decl.fillAll decls) hnew
    have hrun' : checkDecls config (Decl.fillDecls decls new).1 (.start config) =
      .error e (Recording.rerecord [] s) := hagain []
    rw [checkProgram_of_error hrun, hdecls', checkProgram_of_error hrun', hnil, Decl.fillAll_nil]

/-- A datatype with a parameter of kind `* -> *`, a value with a datatype of its own, and a value with
an ascription in which a kind is recorded from the start. -/
def boxes (record : Kind → KindSlot) : List Decl :=
  let box := Ty.con "Box" (record (.arrow (.ofArity 1) (.ofArity 1)))
  let maker := Ty.var "f" .rigid (record (.ofArity 1))
  let elem := Ty.var "a" .rigid (record .atomic)
  let one := Ty.con "One" (record .atomic)
  let arrow := Ty.con Ty.arrowName (record (.ofArity 2))
  [.datatype ⟨.app box [maker, elem], [⟨"MkBox", [.app maker [elem]]⟩], {}⟩,
    .value "number" none (.letIn
      [.datatype ⟨one, [⟨"MkOne", []⟩], {}⟩, .value "x" (some one) (.ident "MkOne") {}]
      (.app (.function [⟨"y", some (.con "Int" (record .atomic))⟩] (.ident "y"))
        (.literal (.int 1)))) {},
    .value "identity" (some (.app arrow [elem, .var "a" .rigid (some .atomic)]))
      (.lambda ["x"] (.ident "x")) {}]

/-- The same, and a value that fails before a kind is recorded in the last one. -/
def boxesAndMisfit (record : Kind → KindSlot) : List Decl :=
  boxes record ++ [.value "wrong" (some (.con "Int" (record .atomic))) (.ident "identity") {},
    .value "last" (some (.con "Int" none)) (.ident "number") {}]

theorem checkProgram_again_boxes :
    ((checkProgram {} (boxes fun _ => none)).1 = boxes some ∧
      (∃ typed, (checkProgram {} (boxes fun _ => none)).2 = .ok typed) ∧
      checkProgram {} (boxes some) = checkProgram {} (boxes fun _ => none)) ∧
    (checkProgram {} (boxesAndMisfit fun _ => none)).1 = boxesAndMisfit some ∧
    (∃ fault, (checkProgram {} (boxesAndMisfit fun _ => none)).2 = .error fault) ∧
    checkProgram {} (boxesAndMisfit some) = checkProgram {} (boxesAndMisfit fun _ => none) := by
  have hprelude : ∀ k ∈ ({} : Config).prelude.kinds.values, k.IsGround := by decide
  have hboxes : (checkProgram {} (boxes fun _ => none)).1 = boxes some := by cbv
  have hmisfit : (checkProgram {} (boxesAndMisfit fun _ => none)).1 = boxesAndMisfit some := by cbv
  refine ⟨⟨hboxes, ⟨_, by cbv⟩, hboxes ▸ checkProgram_again {} _ hprelude (by decide) ?_⟩,
    hmisfit, ⟨_, by cbv⟩, hmisfit ▸ checkProgram_again {} _ hprelude (by decide) ?_⟩
  · simp [boxes, Decl.Meets, Expr.Meets, Expr.lambda, groundSlots, Decl.datatypes]
    decide
  · simp [boxesAndMisfit, boxes, Decl.Meets, Expr.Meets, Expr.lambda, groundSlots, Decl.datatypes]
    decide

end LetPoly
