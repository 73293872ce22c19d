import LetPoly.Proofs.Typing.Driver
import LetPoly.Proofs.Typing.Later
import LetPoly.Proofs.Typing.RespelledDecls

/-!
# The spelling of variables in ascriptions

A program and its respelling by `r`, which renames the variables in all ascriptions of values and of
parameters, are checked side by side. The two runs stay in tandem (`Decl.tandem_bindAll`), so that
both programs are accepted or neither is, and what they declare has α-equivalent types
(`checkProgram_respell`).

The variables that the ascription of a value leaves free or quantifies over outermost may be renamed
in any way, as inference puts made-up names for them. All others inference meets as they are
written, among the letters that it gives to quantified variables itself and the names that are bound
inside of the types of constructors. A variable that is spelled like one of these may be caught by
its quantifier, and types that are quantified inside are compared by name
(`checkProgram_spelling_matters`). So these variables stay, or are kept apart from both.
-/

namespace LetPoly

open Inference Session

variable {α : Type} {r ρ : String → String} {met held : List String} {K : Handle → Prop}

/-! ### Expressions -/

section Expressions

variable {s s' : Inference}

/-- Declarations in a scope of their own lead to the same names in scope. -/
lemma tandem_within {env : Env} {x x' : DeclM Unit}
    (hx : InTandemIn ρ K x x' (fun _ _ => True) ⟨s, env⟩ ⟨s', env⟩) :
    InTandem ρ K (within env x) (within env x') (fun inner inner' => inner' = inner) s s' := by
  obtain ⟨_, _, _, _, hrun, hrun', henv, _, hs⟩ | ⟨_, _, _, _, hrun, hrun', _⟩ := hx.cases_run
  · exact .of_ok (within_eq_ok.2 hrun) (within_eq_ok.2 hrun') ⟨henv, hs⟩
  · exact .of_error (within_of_error hrun) (within_of_error hrun') trivial

/-- Parameters get the same handles, for types that correspond in all names. -/
lemma alike_bindParams (hρ : Respells r met held ρ) (config : Config)
    (kinds : Scope Kind) {params : List Param}
    (hparams : ∀ p ∈ params, ∀ t, p.ascription = some t → (spellingTest r met held).param t)
    (scope : Scope Handle) (hs : s.Respelled ρ K s') :
    Alike (fun _ _ _ _ => True) (fun a t a' t' => a' = a ∧ t.Respelled ρ (Along K a.2) t')
      (bindParams config kinds params scope s)
      (bindParams config kinds (params.map (Param.respell r)) scope s') := by
  induction params generalizing K scope s s' with
  | nil => exact ⟨rfl, hs.mono fun _ hh => hh.resolve_left (by simp)⟩
  | cons p params ih =>
    rw [List.forall_mem_cons] at hparams
    rw [List.map_cons, bindParams, bindParams]
    refine (tandem_paramTy hρ hs hparams.1 kinds).bind ?_
    rintro t s₁ _ s₁' ⟨rfl, hs₁⟩
    refine (alike_track_own hs₁ t).bind ?_
    rintro h s₂ _ s₂' ⟨rfl, hs₂⟩
    refine (ih hparams.2 _ hs₂).bind ?_
    rintro ⟨scope', handles⟩ s₃ _ s₃' ⟨rfl, hs₃⟩
    refine ⟨rfl, hs₃.mono ?_⟩
    rintro h' (hh | hh)
    · rcases List.mem_cons.1 hh with rfl | hh
      · exact .inr (.inl (List.mem_singleton_self _))
      · exact .inl hh
    · exact .inr (.inr hh)

lemma tandem_constructorInstance (hρ : Respells r met held ρ) (hs : s.Respelled ρ K s')
    (scope : Scope Handle) (name : String) : InTandem ρ K (constructorInstance scope name)
      (constructorInstance scope name) (Renames ρ) s s' := by
  rw [InTandem, constructorInstance]
  cases scope.lookup name with
  | some h => exact tandem_instance hρ hs h
  | none => exact tandem_fail

lemma tandem_bindCaptures (hs : s.Respelled ρ K s') (config : Config)
    (captures : List (String × Ty)) (scope : Scope Handle) :
    InTandem ρ K (bindCaptures config captures scope)
      (bindCaptures config (captures.map (Prod.map id (Ty.rename ρ))) scope) (fun a a' => a' = a)
      s s' := by
  induction captures generalizing scope s s' with
  | nil => exact tandem_pure hs rfl
  | cons capture captures ih =>
    refine (tandem_track hs (.inl rfl)).bind ?_
    rintro h s₁ _ s₁' ⟨rfl, hs₁⟩
    exact ih hs₁ _

lemma tandem_bindPattern (hρ : Respells r met held ρ) (hs : s.Respelled ρ K s') (config : Config)
    {scrutinee : Handle} (hscrutinee : K scrutinee) (scope : Scope Handle) (pattern : Pattern) :
    InTandem ρ K (bindPattern config scrutinee scope pattern)
      (bindPattern config scrutinee scope pattern) (fun a a' => a' = a) s s' := by
  cases pattern with
  | capture name => exact tandem_pure hs rfl
  | literal value =>
    refine (tandem_current hs hscrutinee).bind ?_
    rintro t s₁ _ s₁' ⟨rfl, hs₁⟩
    have hliteral : value.ty.rename ρ = value.ty := by cases value <;> rfl
    have hequate := tandem_equate hs₁ t value.ty .literal
    rw [hliteral] at hequate
    exact hequate.bind fun _ _ _ _ h₂ => tandem_pure h₂.2 rfl
  | constructor name =>
    refine (tandem_constructorInstance hρ hs scope name).bind ?_
    rintro found s₁ _ s₁' ⟨rfl, hs₁⟩
    refine (tandem_current hs₁ hscrutinee).bind ?_
    rintro t s₂ _ s₂' ⟨rfl, hs₂⟩
    exact (tandem_equate hs₂ t found _).bind fun _ _ _ _ h₃ => tandem_pure h₃.2 rfl
  | data name captures =>
    refine (tandem_constructorInstance hρ hs scope name).bind ?_
    rintro found s₁ _ s₁' ⟨rfl, hs₁⟩
    rw [Ty.arity_rename]
    by_cases harity : found.arity ≠ captures.length
    · simp only [if_pos harity]
      exact tandem_fail
    simp only [if_neg harity]
    refine (tandem_freshList hρ hs₁ captures.length).bind ?_
    rintro fields s₂ _ s₂' ⟨rfl, hs₂⟩
    refine (tandem_current hs₂ hscrutinee).bind ?_
    rintro t s₃ _ s₃' ⟨rfl, hs₃⟩
    rw [← Ty.rename_function]
    refine (tandem_equate hs₃ _ found _).bind fun _ s₄ _ s₄' h₄ => ?_
    have hzip : captures.zip (fields.map (Ty.rename ρ)) =
        (captures.zip fields).map (Prod.map id (Ty.rename ρ)) := by
      rw [← List.zip_map, List.map_id]
    rw [hzip]
    exact tandem_bindCaptures h₄.2 config _ scope

end Expressions

/-- The types that a program starts from are the same in both spellings. -/
structure Config.Stays (ρ : String → String) (config : Config) : Prop where
  value : ∀ e ∈ config.prelude.values.entries, e.2.Respelled ρ e.2
  internal {name : String} {t : Ty} : config.prelude.internals.find? name = some t → t.Respelled ρ t

section Walk

variable {config : Config}

mutual
/-- Inference comes to corresponding types in both spellings. -/
lemma Expr.tandem_infer (hρ : Respells r met held ρ) (hconfig : config.Stays ρ) : (e : Expr) →
    e.Meets (spellingTest r met held) → (K : Handle → Prop) → (env : Env) → {s s' : Inference} →
    s.Respelled ρ K s' →
    InTandem ρ K (e.infer config env) ((e.respell r).infer config env) (Renames ρ) s s'
  | .literal value, _, _, _, _, _, hs => by
    rw [Expr.respell, Expr.infer]
    refine tandem_pure hs ?_
    cases value <;> rfl
  | .ident name, _, _, env, _, _, hs => by
    rw [Expr.respell, Expr.infer]
    cases env.values.lookup name with
    | some h => exact tandem_instance hρ hs h
    | none => exact tandem_fail
  | .internal name, _, _, _, _, _, hs => by
    rw [Expr.respell, Expr.infer]
    cases hfind : config.prelude.internals.find? name with
    | some t => exact tandem_instantiate hρ hs (hconfig.internal hfind)
    | none => exact tandem_fail
  | .app func arg, he, K, env, _, _, hs => by
    rw [Expr.respell, Expr.infer, Expr.infer]
    refine (func.tandem_infer hρ hconfig he.1 K env hs).bind ?_
    rintro t s₁ _ s₁' ⟨rfl, hs₁⟩
    refine (alike_track_own hs₁ t).bind ?_
    rintro _ s₂ h s₂' ⟨rfl, hs₂⟩
    refine (arg.tandem_infer hρ hconfig he.2 _ env hs₂).bind ?_
    rintro a s₃ _ s₃' ⟨rfl, hs₃⟩
    refine (tandem_fresh hρ hs₃).bind ?_
    rintro result s₄ _ s₄' ⟨rfl, hs₄⟩
    refine (tandem_take hρ hs₄ (.inl (List.mem_singleton_self _))).bind ?_
    rintro f s₅ _ s₅' ⟨rfl, hs₅⟩
    refine (tandem_equate hs₅ f (.arrow a result) .application).bind fun _ _ _ _ h₆ => ?_
    exact tandem_pure (h₆.2.mono fun _ => .inr) rfl
  | .function params body, he, K, env, _, _, hs => by
    rw [Expr.respell, Expr.infer, Expr.infer]
    refine (alike_bindParams hρ config env.kinds he.1 _ hs).bind ?_
    rintro ⟨scope, handles⟩ s₁ _ s₁' ⟨rfl, hs₁⟩
    refine (body.tandem_infer hρ hconfig he.2 _ _ hs₁).bind ?_
    rintro result s₂ _ s₂' ⟨rfl, hs₂⟩
    refine (tandem_takeAll hρ hs₂ fun h hh => .inl hh).bind ?_
    rintro types s₃ _ s₃' ⟨rfl, hs₃⟩
    exact tandem_pure (hs₃.mono fun _ => .inr) (Ty.rename_function ρ types result).symm
  | .guards branches otherwise, he, K, env, _, _, hs => by
    rw [Expr.respell, Expr.infer, Expr.infer]
    refine (tandem_fresh hρ hs).bind ?_
    rintro t s₁ _ s₁' ⟨rfl, hs₁⟩
    refine (alike_track_own hs₁ t).bind ?_
    rintro _ s₂ h s₂' ⟨rfl, hs₂⟩
    have hh : Along K [h] h := .inl (List.mem_singleton_self _)
    refine (Expr.tandem_inferBranches hρ hconfig branches he.1 _ env hh hs₂).bind ?_
    rintro _ s₃ _ s₃' ⟨_, hs₃⟩
    refine (otherwise.tandem_infer hρ hconfig he.2 _ env hs₃).bind ?_
    rintro last s₄ _ s₄' ⟨rfl, hs₄⟩
    refine (tandem_current hs₄ hh).bind ?_
    rintro result s₅ _ s₅' ⟨rfl, hs₅⟩
    refine (tandem_equate hs₅ result last .branch).bind fun _ _ _ _ h₆ => ?_
    exact InTandem.mono (tandem_take hρ h₆.2 hh) fun _ => .inr
  | .cases scrutinee arms, he, K, env, _, _, hs => by
    rw [Expr.respell, Expr.infer, Expr.infer]
    refine (scrutinee.tandem_infer hρ hconfig he.1 K env hs).bind ?_
    rintro t s₁ _ s₁' ⟨rfl, hs₁⟩
    refine (alike_track_own hs₁ t).bind ?_
    rintro _ s₂ h s₂' ⟨rfl, hs₂⟩
    refine (tandem_fresh hρ hs₂).bind ?_
    rintro u s₃ _ s₃' ⟨rfl, hs₃⟩
    refine (alike_track_own hs₃ u).bind ?_
    rintro _ s₄ k s₄' ⟨rfl, hs₄⟩
    have hk : Along (Along K [h]) [k] k := .inl (List.mem_singleton_self _)
    have hh : Along (Along K [h]) [k] h := .inr (.inl (List.mem_singleton_self _))
    refine (Expr.tandem_inferArms hρ hconfig arms he.2 _ env hh hk hs₄).bind ?_
    rintro _ s₅ _ s₅' ⟨_, hs₅⟩
    refine (tandem_release hs₅ h).bind fun _ _ _ _ h₆ => ?_
    exact InTandem.mono (tandem_take hρ h₆.2 hk) fun _ hK => .inr (.inr hK)
  | .letIn decls body, he, K, env, s, s', hs => by
    rw [Expr.respell, Expr.infer, Expr.infer, Decl.datatypes_respellAll]
    have hdecls : InTandemIn ρ K
        (do declareDatatypes (Decl.datatypes decls); Decl.bindAll config decls)
        (do declareDatatypes (Decl.datatypes decls); Decl.bindAll config (Decl.respellAll r decls))
        (fun _ _ => True) ⟨s, env.child⟩ ⟨s', env.child⟩ := by
      refine Alike.bind (tandem_declareDatatypes hρ he.1 hs rfl) fun _ _ _ _ h₁ => ?_
      exact Decl.tandem_bindAll hρ hconfig decls he.2.1 K h₁.2.2 h₁.1
    refine (tandem_within hdecls).bind ?_
    rintro _ s₁ inner s₁' ⟨rfl, hs₁⟩
    refine (body.tandem_infer hρ hconfig he.2.2 K inner hs₁).bind ?_
    rintro result s₂ _ s₂' ⟨rfl, hs₂⟩
    exact (tandem_releaseAll hs₂ _).bind fun _ _ _ _ h₃ => tandem_pure h₃.2 rfl

lemma Expr.tandem_inferBranches (hρ : Respells r met held ρ) (hconfig : config.Stays ρ) :
    (branches : List (Expr × Expr)) → Expr.MeetsBranches (spellingTest r met held) branches →
    (K : Handle → Prop) → (env : Env) → {result : Handle} → K result → {s s' : Inference} →
    s.Respelled ρ K s' → InTandem ρ K (Expr.inferBranches config env result branches)
      (Expr.inferBranches config env result (Expr.respellBranches r branches)) (fun _ _ => True) s s'
  | [], _, _, _, _, _, _, _, hs => by
    rw [Expr.respellBranches, Expr.inferBranches]
    exact tandem_pure hs trivial
  | (condition, branch) :: branches, he, K, env, result, hresult, _, _, hs => by
    rw [Expr.respellBranches, Expr.inferBranches, Expr.inferBranches]
    refine (condition.tandem_infer hρ hconfig he.1 K env hs).bind ?_
    rintro t s₁ _ s₁' ⟨rfl, hs₁⟩
    refine (tandem_equate hs₁ .bool t .condition).bind fun _ s₂ _ s₂' h₂ => ?_
    refine (branch.tandem_infer hρ hconfig he.2.1 K env h₂.2).bind ?_
    rintro u s₃ _ s₃' ⟨rfl, hs₃⟩
    refine (tandem_current hs₃ hresult).bind ?_
    rintro v s₄ _ s₄' ⟨rfl, hs₄⟩
    refine (tandem_equate hs₄ v u .branch).bind fun _ s₅ _ s₅' h₅ => ?_
    exact Expr.tandem_inferBranches hρ hconfig branches he.2.2 K env hresult h₅.2

lemma Expr.tandem_inferArms (hρ : Respells r met held ρ) (hconfig : config.Stays ρ) :
    (arms : List (Pattern × Expr)) → Expr.MeetsArms (spellingTest r met held) arms →
    (K : Handle → Prop) → (env : Env) → {scrutinee result : Handle} → K scrutinee → K result →
    {s s' : Inference} → s.Respelled ρ K s' →
    InTandem ρ K (Expr.inferArms config env scrutinee result arms)
      (Expr.inferArms config env scrutinee result (Expr.respellArms r arms)) (fun _ _ => True) s s'
  | [], _, _, _, _, _, _, _, _, _, hs => by
    rw [Expr.respellArms, Expr.inferArms]
    exact tandem_pure hs trivial
  | (pattern, body) :: arms, he, K, env, scrutinee, result, hscrutinee, hresult, _, _, hs => by
    rw [Expr.respellArms, Expr.inferArms, Expr.inferArms]
    refine (tandem_bindPattern hρ hs config hscrutinee _ pattern).bind ?_
    rintro scope s₁ _ s₁' ⟨rfl, hs₁⟩
    refine (body.tandem_infer hρ hconfig he.1 K _ hs₁).bind ?_
    rintro u s₂ _ s₂' ⟨rfl, hs₂⟩
    refine (tandem_current hs₂ hresult).bind ?_
    rintro v s₃ _ s₃' ⟨rfl, hs₃⟩
    refine (tandem_equate hs₃ v u .branch).bind fun _ s₄ _ s₄' h₄ => ?_
    refine (tandem_releaseAll h₄.2 _).bind fun _ s₅ _ s₅' h₅ => ?_
    exact Expr.tandem_inferArms hρ hconfig arms he.2 K env hscrutinee hresult h₅.2

lemma Decl.tandem_bindAll (hρ : Respells r met held ρ) (hconfig : config.Stays ρ) :
    (decls : List Decl) → Decl.Meets (spellingTest r met held) decls → (K : Handle → Prop) →
    {s s' : Session} → s.inference.Respelled ρ K s'.inference → s'.env = s.env →
    InTandemIn ρ K (Decl.bindAll config decls) (Decl.bindAll config (Decl.respellAll r decls))
      (fun _ _ => True) s s'
  | [], _, _, _, _, hs, henv => by
    rw [Decl.respellAll, Decl.bindAll]
    exact ⟨henv, trivial, hs⟩
  | .value name ascription value position :: decls, he, K, _, _, hs, henv => by
    rw [Decl.respellAll, Decl.bindAll, Decl.bindAll]
    refine (tandem_bindValueWith hρ config name he.1 (fun K env _ _ hs => ?_) hs henv).bind ?_
    · exact value.tandem_infer hρ hconfig he.2.1 K env hs
    · exact fun _ _ _ _ h₁ => Decl.tandem_bindAll hρ hconfig decls he.2.2 K h₁.2.2 h₁.1
  | .datatype d :: decls, he, K, _, _, hs, henv => by
    rw [Decl.respellAll, Decl.bindAll, Decl.bindAll]
    exact Decl.tandem_bindAll hρ hconfig decls he K hs henv
  | .fixity f :: decls, he, K, _, _, hs, henv => by
    rw [Decl.respellAll, Decl.bindAll, Decl.bindAll]
    exact Decl.tandem_bindAll hρ hconfig decls he K hs henv
end

end Walk

/-! ### Programs -/

section Programs

variable {config : Config} {decls : List Decl}

lemma tandem_bringValues {entries : List (String × Ty)} (hentries : ∀ e ∈ entries, e.2.Respelled ρ e.2)
    {s s' : Session} (hs : s.inference.Respelled ρ K s'.inference) (henv : s'.env = s.env) :
    InTandemIn ρ K (bringValues entries) (bringValues entries) (fun _ _ => True) s s' := by
  induction entries generalizing s s' with
  | nil => exact ⟨henv, trivial, hs⟩
  | cons e entries ih =>
    rw [List.forall_mem_cons] at hentries
    refine (tandem_lift (tandem_track hs hentries.1) henv).bind ?_
    rintro h s₁ _ s₁' ⟨henv₁, rfl, hs₁⟩
    refine (tandem_modifyValues hs₁ henv₁ _).bind fun _ _ _ _ h₂ => ?_
    exact ih hentries.2 h₂.2.2 h₂.1

/-- A run that is in tandem with itself leads to a state that corresponds to itself. -/
lemma InTandemIn.self {x : DeclM α} {Q : α → α → Prop} {s t : Session} {a : α}
    (hx : InTandemIn ρ K x x Q s s) (hrun : x s = .ok a t) :
    t.inference.Respelled ρ K t.inference := by
  obtain ⟨a', t', hrun', _, _, ht⟩ := hx.ok_right hrun
  cases hrun.symm.trans hrun'
  exact ht

/-- What is in scope before the first value is the same in both spellings. -/
lemma Respells.openProgram (hρ : Respells r met held ρ) (hconfig : config.Stays ρ)
    {group : List Datatype}
    (hgroup : ∀ d ∈ group, d.All fun t => t.binders ⊆ held) {kinds : Table Kind} {s : Session}
    (hrun : LetPoly.openProgram config group (.start config) = .ok kinds s) :
    s.inference.Respelled ρ (fun _ => False) s.inference := by
  rw [LetPoly.openProgram] at hrun
  obtain ⟨_, _, hdeclare, hrest⟩ := bind_eq_ok.1 hrun
  obtain ⟨found, _, rfl, rfl⟩ := declareTypes_eq_ok.1 (adaptExcept_eq_ok.1 hdeclare)
  obtain ⟨_, s₁, hbring, hrest⟩ := bind_eq_ok.1 hrest
  obtain ⟨_, s₂, hregister, hpure⟩ := bind_eq_ok.1 hrest
  obtain ⟨_, rfl⟩ := pure_eq_ok.1 hpure
  have hstart : (Inference.initial.noted found.recorded).Respelled ρ (fun _ => False)
      (Inference.initial.noted found.recorded) :=
    ⟨rfl, rfl, .empty, False.elim, False.elim⟩
  have hs₁ : s₁.inference.Respelled ρ (fun _ => False) s₁.inference := by
    refine InTandemIn.self (Q := fun _ _ => True) ?_ (blame_eq_ok.1 hbring)
    exact Alike.bind (tandem_bringValues hconfig.value hstart rfl) fun _ _ _ _ h =>
      tandem_modifyValues h.2.2 h.1 _
  exact InTandemIn.self (tandem_registerAll (hρ.respelled_constructor hgroup) hs₁ rfl)
    (checkConstructors_eq_ok.1 hregister)

/-- The types of all that a program declares are closed once its values are bound. -/
lemma closed_of_bindAll (hprelude : ∀ e ∈ config.prelude.values.entries, e.2.occurrences = [])
    {found : GroupKinds} {s₁ s₂ : Session}
    (hfound : inferGroup config.prelude.kindScope (Decl.datatypes decls) = .ok found)
    (hopen : LetPoly.openProgram config (Decl.datatypes decls) (.start config) =
      .ok found.declared s₁)
    (hdecls : Decl.bindAll config decls s₁ = .ok () s₂) {h : Handle}
    (hh : h ∈ s₂.env.values.innermost.values) {t : Ty} (ht : s₂.inference.term? h = some t) :
    t.occurrences = [] := by
  obtain ⟨m, hm⟩ := leads_bindAll hprelude hfound hopen hdecls
  rw [← hm.state] at ht
  exact ((hm.seals.innermost h hh).term ht).1

/-- Both programs are accepted, and what they declare has the same kinds and α-equivalent types. -/
def ReportAlike (config : Config) (decls decls' : List Decl) : Prop :=
  ∃ kinds values values', (checkProgram config decls).2 = .ok ⟨kinds, values⟩ ∧
    (checkProgram config decls').2 = .ok ⟨kinds, values'⟩ ∧
    ∀ name, Option.Rel (fun t t' => t.alphaEq t') (values.find? name) (values'.find? name)

/-- Values that are bound in both spellings are reported with α-equivalent types. -/
lemma reportAlike_of_bindAll (hρ : Function.Injective ρ)
    (hprelude : ∀ e ∈ config.prelude.values.entries, e.2.occurrences = [])
    {decls' : List Decl} (hgroup : Decl.datatypes decls' = Decl.datatypes decls)
    {found : GroupKinds} {s s₁ s₂ : Session}
    (hfound : inferGroup config.prelude.kindScope (Decl.datatypes decls) = .ok found)
    (hopen : LetPoly.openProgram config (Decl.datatypes decls) (.start config) =
      .ok found.declared s)
    (hdecls : Decl.bindAll config decls s = .ok () s₁)
    (hdecls' : Decl.bindAll config decls' s = .ok () s₂) (henv : s₂.env = s₁.env)
    (hs : s₁.inference.Respelled ρ K s₂.inference) :
    ReportAlike config decls decls' := by
  obtain ⟨values, hok, hfind⟩ := checkProgram_of_values hopen hdecls
  obtain ⟨values', hok', hfind'⟩ := checkProgram_of_values (hgroup ▸ hopen) hdecls'
  have hready := ((ready_openProgram hopen).bindAll config decls).of_run hdecls
  have hready' := ((ready_openProgram hopen).bindAll config decls').of_run hdecls'
  refine ⟨found.declared, values, values', hok, hok', fun name => ?_⟩
  rw [hfind, hfind', henv]
  cases hname : s₁.env.values.innermost.find? name with
  | none => exact .none
  | some h =>
    have hmem : h ∈ s₁.env.values.innermost.values :=
      List.mem_map_of_mem (f := Prod.snd) (Table.mem_of_lookup hname)
    obtain ⟨t, ht⟩ := hready.live h (List.mem_append_left _ hmem)
    obtain ⟨t', ht', hrespelled⟩ := hs.live.get?_some ht
    have hclosed := closed_of_bindAll hprelude hfound hopen hdecls hmem ht
    have hclosed' : t'.occurrences = [] := by rw [hrespelled.occurrences hρ, hclosed, List.map_nil]
    rw [Option.bind_some, Option.bind_some, hready.reported ht (Ty.unknowns_of_occurrences hclosed),
      hready'.reported ht' (Ty.unknowns_of_occurrences hclosed')]
    exact .some (hrespelled.alphaEq hρ hclosed)

end Programs

/-- The spelling of the variables in ascriptions makes no difference, as long as a variable that
inference meets as it is written stays, or neither is nor becomes a letter name or one that is bound
inside of a type that stays: a program is accepted in both spellings or in neither, and what it
declares has the same kinds and α-equivalent types. -/
theorem checkProgram_respell (config : Config) (decls : List Decl) {r : String → String}
    {met held : List String} (hr : Respelling r met held)
    (hprelude : ∀ e ∈ config.prelude.values.entries ++ config.prelude.internals.entries,
      e.2.occurrences = [] ∧ e.2.innerBinders ⊆ held)
    (hgroup : (spellingTest r met held).group (Decl.datatypes decls))
    (hdecls : Decl.Meets (spellingTest r met held) decls) :
    ((∃ typed, (checkProgram config decls).2 = .ok typed) ↔
      ∃ typed, (checkProgram config (Decl.respellAll r decls)).2 = .ok typed) ∧
    ∀ typed typed', (checkProgram config decls).2 = .ok typed →
      (checkProgram config (Decl.respellAll r decls)).2 = .ok typed' →
      typed'.kinds = typed.kinds ∧
      ∀ name, Option.Rel (fun t t' => t.alphaEq t') (typed.values.find? name)
        (typed'.values.find? name) := by
  obtain ⟨ρ, hρ⟩ := hr.exists_respells
  have hdatatypes := Decl.datatypes_respellAll r decls
  have hconfig : config.Stays ρ := by
    have hself {e : String × Ty} (he : e ∈ config.prelude.values.entries ++
        config.prelude.internals.entries) : e.2.Respelled ρ e.2 :=
      hρ.respelled_self (hprelude e he).1 (hprelude e he).2
    exact ⟨fun e he => hself (List.mem_append_left _ he),
      fun hfind => hself (List.mem_append_right _ (Table.mem_of_lookup hfind))⟩
  have hvalues {kinds : Table Kind} {s : Session} (hopen : openProgram config (Decl.datatypes decls)
      (.start config) = .ok kinds s) := Decl.tandem_bindAll hρ hconfig decls hdecls (fun _ => False)
    (hρ.openProgram hconfig hgroup hopen) rfl
  have hclosed (e) (he : e ∈ config.prelude.values.entries) : e.2.occurrences = [] :=
    (hprelude e (List.mem_append_left _ he)).1
  -- Whichever of the two programs is accepted, the other one is as well.
  have hright {typed : Typed} (hok : (checkProgram config decls).2 = .ok typed) :
      ReportAlike config decls (Decl.respellAll r decls) := by
    obtain ⟨found, s, s₁, _, hfound, hopen, hrun, _⟩ := checkProgram_eq_ok hok
    obtain ⟨_, s₂, hrun', henv, _, hs⟩ := (hvalues hopen).ok_right hrun
    exact reportAlike_of_bindAll hρ.injective hclosed hdatatypes hfound hopen hrun hrun' henv hs
  have hleft {typed : Typed} (hok : (checkProgram config (Decl.respellAll r decls)).2 = .ok typed) :
      ReportAlike config decls (Decl.respellAll r decls) := by
    obtain ⟨found, s, s₂, _, hfound, hopen, hrun', _⟩ := checkProgram_eq_ok hok
    rw [hdatatypes] at hfound hopen
    obtain ⟨_, s₁, hrun, henv, _, hs⟩ := (hvalues hopen).ok_left hrun'
    exact reportAlike_of_bindAll hρ.injective hclosed hdatatypes hfound hopen hrun hrun' henv hs
  refine ⟨⟨?_, ?_⟩, fun typed typed' hok hok' => ?_⟩
  · rintro ⟨typed, hok⟩
    obtain ⟨_, _, _, _, hok', _⟩ := hright hok
    exact ⟨_, hok'⟩
  · rintro ⟨typed, hok⟩
    obtain ⟨_, _, _, hok', _, _⟩ := hleft hok
    exact ⟨_, hok'⟩
  · obtain ⟨kinds, values, values', hreport, hreport', hsame⟩ := hright hok
    obtain rfl := Except.ok.inj (hok.symm.trans hreport)
    obtain rfl := Except.ok.inj (hok'.symm.trans hreport')
    exact ⟨rfl, hsame⟩

/-! ### Spellings that matter and spellings that do not -/

/-- Swap two names. -/
def swapNames (a b x : String) : String := if x = a then b else if x = b then a else x

lemma swapNames_injective (a b : String) : Function.Injective (swapNames a b) := by
  have hinvolutive : Function.Involutive (swapNames a b) := by
    intro x
    simp only [swapNames]
    split_ifs <;> simp_all
  exact hinvolutive.injective

lemma plainName_swapNames {a b : String} (ha : PlainName a) (hb : PlainName b) {x : String}
    (hx : PlainName x) : PlainName (swapNames a b x) := by
  rw [swapNames]
  split_ifs
  · exact hb
  · exact ha
  · exact hx

/-- A function with an ascription of its own, and one with an ascription of its parameter. -/
def keepFirst : List Decl :=
  [.datatype ⟨.app (.con "Box" none) [.rigid "a"], [⟨"MkBox", [.rigid "a"]⟩], {}⟩,
    .value "first" (some (.function [.rigid "a", .rigid "b"] (.rigid "a")))
      (.lambda ["x", "y"] (.ident "x")) {},
    .value "box" none (.function [⟨"x", some (.rigid "elem")⟩] (.letIn
      [.value "keep" none (.lambda ["y"] (.call "first" [.ident "x", .ident "y"])) {}]
      (.app (.ident "MkBox") (.app (.ident "keep") (.literal (.int 1)))))) {}]

/-- The names that are swapped in ascriptions of values may be letter names. -/
def keepFirstNames : String → String := swapNames "a" "b" ∘ swapNames "elem" "item"

lemma respelling_keepFirstNames : Respelling keepFirstNames ["elem"] [] where
  injective := (swapNames_injective _ _).comp (swapNames_injective _ _)
  plain x hx := plainName_swapNames (by decide) (by decide)
    (plainName_swapNames (by decide) (by decide) hx)
  met_plain := by decide
  held_plain := by simp
  apart := by decide

/-- The functions have α-equivalent types in the other spelling. -/
theorem checkProgram_respell_keepFirst :
    ∃ typed typed', (checkProgram {} keepFirst).2 = .ok typed ∧
      (checkProgram {} (Decl.respellAll keepFirstNames keepFirst)).2 = .ok typed' ∧
      typed'.kinds = typed.kinds ∧
      ∀ name, Option.Rel (fun t t' => t.alphaEq t') (typed.values.find? name)
        (typed'.values.find? name) := by
  have hok : (checkProgram {} keepFirst).2.isOk := by cbv
  have hgroup : (spellingTest keepFirstNames ["elem"] []).group (Decl.datatypes keepFirst) := by
    show ∀ d ∈ Decl.datatypes keepFirst, d.All fun t => t.binders ⊆ []
    decide
  have hascription : (spellingTest keepFirstNames ["elem"] []).binding
      (.function [.rigid "a", .rigid "b"] (.rigid "a")) :=
    ⟨⟨by decide, by decide⟩, by decide⟩
  have hparam : (spellingTest keepFirstNames ["elem"] []).param (.rigid "elem") :=
    ⟨⟨by decide, by decide⟩, by decide⟩
  have hempty : (spellingTest keepFirstNames ["elem"] []).group [] := List.forall_mem_nil _
  have hdecls : Decl.Meets (spellingTest keepFirstNames ["elem"] []) keepFirst := by
    simp [keepFirst, Decl.Meets, Expr.Meets, Expr.lambda, Expr.call, Expr.apply, Decl.datatypes,
      hascription, hparam, hempty]
  obtain ⟨haccepted, htypes⟩ :=
    checkProgram_respell {} keepFirst respelling_keepFirstNames (by decide) hgroup hdecls
  cases hrun : (checkProgram {} keepFirst).2 with
  | error fault => rw [hrun] at hok; cases hok
  | ok typed =>
    obtain ⟨typed', hrun'⟩ := haccepted.1 ⟨typed, hrun⟩
    exact ⟨typed, typed', rfl, hrun', htypes typed typed' hrun hrun'⟩

/-- A value whose type is found after it came under a quantifier. -/
def lateVariable : List Decl :=
  [.value "g" none (.lambda ["z"] (.letIn
    [.value "f" none (.lambda ["y"] (.ident "z")) {},
      .value "_" none (.function [⟨"x", some (.rigid "a")⟩]
        (.guards [(.literal (.bool true), .ident "x")] (.ident "z"))) {}] (.ident "f"))) {}]

/-- A constructor with a quantified field, and an ascription that quantifies over another name. -/
def quantifiedArgument : List Decl :=
  [.datatype ⟨.con "T" none, [⟨"MkT", [.quantified ["x"] (.arrow (.rigid "x") (.rigid "x"))]⟩], {}⟩,
    .value "h" (some (.arrow (.quantified ["a"] (.arrow (.rigid "a") (.rigid "a"))) (.con "T" none)))
      (.ident "MkT") {}]

/-- A variable that is spelled like a letter is caught by a quantifier, and types that are quantified
inside are not the same in another spelling. -/
theorem checkProgram_spelling_matters :
    (Function.Injective (swapNames "a" "v") ∧ ∃ typed typed' t t',
      (checkProgram {} lateVariable).2 = .ok typed ∧
      (checkProgram {} (Decl.respellAll (swapNames "a" "v") lateVariable)).2 = .ok typed' ∧
      typed.values.find? "g" = some t ∧ typed'.values.find? "g" = some t' ∧ t.alphaEq t' = false) ∧
    Function.Injective (swapNames "a" "x") ∧
      (checkProgram {} quantifiedArgument).2.isOk = false ∧
      (checkProgram {} (Decl.respellAll (swapNames "a" "x") quantifiedArgument)).2.isOk = true := by
  let a := Ty.rigid "a"
  let b := Ty.rigid "b"
  have hcaught : (checkProgram {} lateVariable).2 =
      .ok ⟨.empty, .ofList [("g", .quantified ["a", "b"] (.function [a, b] b))]⟩ := by cbv
  have hfree : (checkProgram {} (Decl.respellAll (swapNames "a" "v") lateVariable)).2 =
      .ok ⟨.empty, .ofList [("g", .quantified ["a", "b"] (.function [a, b] a))]⟩ := by cbv
  refine ⟨⟨swapNames_injective _ _, _, _, _, _, hcaught, hfree, rfl, rfl, ?_⟩,
    swapNames_injective _ _, by cbv, by cbv⟩
  cbv

end LetPoly
