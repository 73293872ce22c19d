import LetPoly.Proofs.Alike
import LetPoly.Proofs.Kinding.Checked
import LetPoly.Proofs.Typing.SoundDecls

/-!
# How inference depends on kinds

Inference asks the kinds in scope for nothing but what is found under a name: in environments with
the same values and the same kinds under all names it does the same (`Expr.infer_congr`), however
the kinds are laid out in scopes. Declarations then lead to sessions that agree in the same way
(`Decl.alike_bindAll`).
-/

namespace LetPoly

open Inference Session

variable {α : Type}

/-! ### Kinds in scope -/

/-- The same values, and the same kinds under all names. -/
structure Env.Agrees (env env' : Env) : Prop where
  values : env.values = env'.values
  kinds : ∀ c, env.kinds.lookup c = env'.kinds.lookup c

/-- The same state in environments that agree. -/
structure SessionOn.Agrees (s s' : Session) : Prop where
  inference : s.inference = s'.inference
  env : s.env.Agrees s'.env

/-- The same outcome in sessions that agree. -/
def Same (a : α) (s : Session) (a' : α) (s' : Session) : Prop := a = a' ∧ s.Agrees s'

section Congruence

variable {env env' : Env} {kinds kinds' : Scope Kind} {s s' : Session}

lemma Env.Agrees.child (h : env.Agrees env') : env.child.Agrees env'.child :=
  ⟨congrArg Scope.child h.values, h.kinds⟩

lemma Env.Agrees.withValues (h : env.Agrees env') (scope : Scope Handle) :
    Env.Agrees { env with values := scope } { env' with values := scope } :=
  ⟨rfl, h.kinds⟩

lemma ascribe_congr (h : ∀ c, kinds.lookup c = kinds'.lookup c) (t : Ty) :
    ascribe kinds t = ascribe kinds' t := by
  rw [ascribe, ascribe, checkAscription_congr h]

lemma ascribedTy_congr (h : ∀ c, kinds.lookup c = kinds'.lookup c) (ascription : Option Ty) :
    ascribedTy kinds ascription = ascribedTy kinds' ascription := by
  cases ascription with
  | none => rfl
  | some t => rw [ascribedTy, ascribedTy, ascribe_congr h]

lemma bindParams_congr (h : ∀ c, kinds.lookup c = kinds'.lookup c) (config : Config)
    (params : List Param) (scope : Scope Handle) :
    (bindParams config kinds params scope : InferM (Scope Handle × List Handle)) =
      bindParams config kinds' params scope := by
  induction params generalizing scope with
  | nil => rfl
  | cons p params ih =>
    have hty : paramTy kinds p = paramTy kinds' p := by
      rw [paramTy, paramTy]
      cases p.ascription with
      | none => rfl
      | some t => exact ascribe_congr h t
    simp only [bindParams, hty, ih]

lemma alike_lift (x : InferM α) (h : s.Agrees s') :
    Alike Same Same ((liftM x : DeclM α) s) ((liftM x : DeclM α) s') := by
  obtain ⟨inference, env⟩ := s
  obtain ⟨inference', env'⟩ := s'
  obtain ⟨rfl, henv⟩ := h
  simp only [liftM, monadLift, MonadLift.monadLift]
  cases x inference with
  | ok a t => exact ⟨rfl, rfl, henv⟩
  | error e t => exact ⟨rfl, rfl, henv⟩

lemma alike_scopes (h : s.Agrees s') :
    Alike Same (fun env t env' t' => env.Agrees env' ∧ t.Agrees t') (scopes s) (scopes s') :=
  ⟨h.env, h⟩

lemma alike_modifyValues (f : Scope Handle → Scope Handle) (h : s.Agrees s') :
    Alike Same Same (modifyValues f s) (modifyValues f s') :=
  ⟨rfl, h.inference, congrArg f h.env.values, h.env.kinds⟩

lemma alike_registerEach (d : Datatype) (constructors : List Constructor) (h : s.Agrees s') :
    Alike Same Same (registerEach d constructors s) (registerEach d constructors s') := by
  induction constructors generalizing s s' with
  | nil => exact ⟨rfl, h⟩
  | cons c constructors ih =>
    refine (alike_lift _ h).bind ?_
    rintro ty s₁ _ s₁' ⟨rfl, h₁⟩
    refine (alike_lift _ h₁).bind ?_
    rintro h' s₂ _ s₂' ⟨rfl, h₂⟩
    exact (alike_modifyValues _ h₂).bind fun _ _ _ _ h₃ => ih h₃.2

lemma alike_registerAll (ds : List Datatype) (h : s.Agrees s') :
    Alike Same Same (registerAll ds s) (registerAll ds s') := by
  induction ds generalizing s s' with
  | nil => exact ⟨rfl, h⟩
  | cons d ds ih =>
    exact (alike_registerEach d d.constructors h).bind fun _ _ _ _ h₁ => ih h₁.2

lemma alike_declareTypes (group : List Datatype) (h : s.Agrees s') :
    Alike Same Same (declareTypes group s) (declareTypes group s') := by
  have hcongr : inferGroup s.env.kinds group = inferGroup s'.env.kinds group :=
    inferGroup_congr h.env.kinds group
  cases hfound : inferGroup s'.env.kinds group with
  | error e =>
    rw [declareTypes_of_error hfound, declareTypes_of_error (hcongr.trans hfound)]
    exact ⟨rfl, h⟩
  | ok found =>
    rw [declareTypes_of_ok hfound, declareTypes_of_ok (hcongr.trans hfound)]
    refine ⟨rfl, by rw [h.inference], h.env.values, fun c => ?_⟩
    simp only [Scope.lookup_insertAll, h.env.kinds]

lemma alike_declareDatatypes (group : List Datatype) (h : s.Agrees s') :
    Alike Same Same (declareDatatypes group s) (declareDatatypes group s') := by
  refine ((alike_declareTypes group h).adaptExcept (F := Same) ?_).bind ?_
  · rintro e t _ t' ⟨rfl, ht⟩
    exact ⟨rfl, ht⟩
  · rintro found t _ t' ⟨rfl, ht⟩
    exact alike_registerAll found.2 ht

lemma alike_bindValueWith (config : Config) (name : String) (ascription : Option Ty)
    {inferValue : Env → InferM Ty}
    (hvalue : ∀ {env env' : Env}, env.Agrees env' → inferValue env = inferValue env')
    (h : s.Agrees s') :
    Alike Same Same (bindValueWith config name ascription inferValue s)
      (bindValueWith config name ascription inferValue s') := by
  refine (alike_scopes h).bind ?_
  rintro env s₁ env' s₁' ⟨henv, h₁⟩
  rw [ascribedTy_congr henv.kinds]
  refine (alike_lift _ h₁).bind ?_
  rintro ascribed s₂ _ s₂' ⟨rfl, h₂⟩
  refine (alike_lift _ h₂).bind ?_
  rintro provisional s₃ _ s₃' ⟨rfl, h₃⟩
  refine (alike_lift _ h₃).bind ?_
  rintro h' s₄ _ s₄' ⟨rfl, h₄⟩
  refine (alike_modifyValues _ h₄).bind ?_
  rintro _ s₅ _ s₅' ⟨_, h₅⟩
  refine (alike_scopes h₅).bind ?_
  rintro env s₆ env' s₆' ⟨henv, h₆⟩
  rw [hvalue henv, henv.values]
  refine (alike_lift _ h₆).bind ?_
  rintro found s₇ _ s₇' ⟨rfl, h₇⟩
  exact alike_lift _ h₇

/-- What follows on an action in a scope of its own, if it depends on kinds only through names. -/
lemma within_bind_congr {x : DeclM Unit} {k : Env → InferM α} (henv : env.Agrees env')
    (hx : ∀ {s s' : Session}, s.Agrees s' → Alike Same Same (x s) (x s'))
    (hk : ∀ {inner inner' : Env}, inner.Agrees inner' → k inner = k inner') :
    (within env x >>= k) = (within env' x >>= k) := by
  funext s
  have hx : Alike Same Same (x ⟨s, env⟩) (x ⟨s, env'⟩) := hx ⟨rfl, henv⟩
  cases hrun : x ⟨s, env⟩ with
  | ok a t =>
    cases hrun' : x ⟨s, env'⟩ with
    | ok a' t' =>
      rw [hrun, hrun'] at hx
      rw [bind_of_ok (within_eq_ok.2 hrun), bind_of_ok (within_eq_ok.2 hrun'), hk hx.2.env,
        hx.2.inference]
    | error e' t' =>
      rw [hrun, hrun'] at hx
      exact hx.elim
  | error e t =>
    cases hrun' : x ⟨s, env'⟩ with
    | ok a' t' =>
      rw [hrun, hrun'] at hx
      exact hx.elim
    | error e' t' =>
      rw [hrun, hrun'] at hx
      rw [bind_of_error (within_of_error hrun), bind_of_error (within_of_error hrun'), hx.1,
        hx.2.inference]

end Congruence

mutual
/-- Inference asks for nothing but the values and the kinds under the names in scope. -/
lemma Expr.infer_congr (config : Config) {env env' : Env} (h : env.Agrees env') :
    ∀ e : Expr, (e.infer config env : InferM Ty) = e.infer config env'
  | .literal _ => by rw [Expr.infer, Expr.infer, h.values]
  | .ident name => by rw [Expr.infer, Expr.infer, h.values]
  | .internal name => by rw [Expr.infer, Expr.infer, h.values]
  | .app func arg => by
    simp only [Expr.infer, h.values, func.infer_congr config h, arg.infer_congr config h]
  | .function params body => by
    have hbody (scope : Scope Handle) := body.infer_congr config (h.withValues scope)
    simp only [Expr.infer, bindParams_congr h.kinds, h.values, hbody]
  | .guards branches otherwise => by
    simp only [Expr.infer, h.values, Expr.inferBranches_congr config h _ branches,
      otherwise.infer_congr config h]
  | .cases scrutinee arms => by
    simp only [Expr.infer, h.values, scrutinee.infer_congr config h,
      Expr.inferArms_congr config h _ _ arms]
  | .letIn decls body => by
    rw [Expr.infer, Expr.infer, h.values]
    refine within_bind_congr h.child (fun hs => ?_) fun hinner => ?_
    · exact (alike_declareDatatypes _ hs).bind fun _ _ _ _ hs' =>
        Decl.alike_bindAll config decls hs'.2
    · rw [body.infer_congr config hinner, hinner.values]

lemma Expr.inferBranches_congr (config : Config) {env env' : Env} (h : env.Agrees env')
    (result : Handle) : ∀ branches, (Expr.inferBranches config env result branches : InferM Unit) =
      Expr.inferBranches config env' result branches
  | [] => by rw [Expr.inferBranches, Expr.inferBranches]
  | (condition, branch) :: branches => by
    simp only [Expr.inferBranches, h.values, condition.infer_congr config h,
      branch.infer_congr config h, Expr.inferBranches_congr config h result branches]

lemma Expr.inferArms_congr (config : Config) {env env' : Env} (h : env.Agrees env')
    (scrutinee result : Handle) :
    ∀ arms, (Expr.inferArms config env scrutinee result arms : InferM Unit) =
      Expr.inferArms config env' scrutinee result arms
  | [] => by rw [Expr.inferArms, Expr.inferArms]
  | (pattern, body) :: arms => by
    have hbody (scope : Scope Handle) := body.infer_congr config (h.withValues scope)
    simp only [Expr.inferArms, h.values, hbody,
      Expr.inferArms_congr config h scrutinee result arms]

lemma Decl.alike_bindAll (config : Config) : ∀ (decls : List Decl) {s s' : Session},
    s.Agrees s' → Alike Same Same (Decl.bindAll config decls s) (Decl.bindAll config decls s')
  | [], _, _, h => ⟨rfl, h⟩
  | .value name ascription value _ :: decls, _, _, h => by
    rw [Decl.bindAll]
    refine (alike_bindValueWith config name ascription (fun henv => ?_) h).bind ?_
    · exact value.infer_congr config henv
    · exact fun _ _ _ _ h' => Decl.alike_bindAll config decls h'.2
  | .datatype _ :: decls, _, _, h => by
    rw [Decl.bindAll]
    exact Decl.alike_bindAll config decls h
  | .fixity _ :: decls, _, _, h => by
    rw [Decl.bindAll]
    exact Decl.alike_bindAll config decls h
end

end LetPoly
