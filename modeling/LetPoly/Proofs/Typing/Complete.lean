import LetPoly.Proofs.Typing.Admissible
import LetPoly.Proofs.Typing.Advance
import LetPoly.Proofs.Typing.Sound

/-!
# Completeness of inference

Whatever is derivable is found: if an expression has a type in an environment that is no more general
than what the handles in scope stand for, then inference succeeds, and some solution of the state
that it leads to takes the type found to the given one. Each form of expression has a lemma of its
own that supposes the same of its parts.
-/

namespace LetPoly

open Inference

/-- Where inference of an expression can start: the state has a solution, under which what is in
scope is at least as general as the environment, and the outline fits. -/
structure Ready (config : Config) (o : Outline) (env : Env) (Γ : Scope Poly) (s : Inference)
    (θ : String → Mono) : Prop where
  proper : s.Proper
  sol : s.Sol θ
  softQueue : s.SoftQueue
  inScope : Scoped config s env.values
  soft {h : Handle} : h ∈ env.values.values → s.SoftAt h
  below : Γ.Rel (fun p h => p.Below (s.polyAt θ h)) env.values
  fits : o.arities.Rel (fun a h => ∀ n, a = some n → s.ArityAt n h) env.values
  kinds : o.kinds = env.kinds

/-- Inference of an expression succeeds and advances to a solution under which the type found is the
given one. -/
structure Succeeds (config : Config) (env : Env) (e : Expr) (s : Inference) (θ : String → Mono)
    (τ : Mono) (t : Ty) (s' : Inference) (θ' : String → Mono) : Prop
    extends s.Advances θ s' θ' where
  run : e.infer config env s = .ok t s'
  simple : t.Simple s'.next
  soft : t.Soft
  type : t.mono.bind θ' = τ

/-- All types of the expression are found. -/
def Expr.Complete (config : Config) (e : Expr) : Prop :=
  ∀ ⦃o : Outline⦄ ⦃env : Env⦄ ⦃Γ : Scope Poly⦄ ⦃s : Inference⦄ ⦃θ : String → Mono⦄ ⦃τ : Mono⦄,
    Ready config o env Γ s θ → e.isAdmissible config o → HasType config Γ e τ →
    ∃ t s' θ', Succeeds config env e s θ τ t s' θ'

/-- All common types of guarded branches are found, given a handle for the type. -/
def Expr.CompleteBranches (config : Config) (branches : List (Expr × Expr)) : Prop :=
  ∀ ⦃o : Outline⦄ ⦃env : Env⦄ ⦃Γ : Scope Poly⦄ ⦃s : Inference⦄ ⦃θ : String → Mono⦄ ⦃τ : Mono⦄
    ⦃result : Handle⦄, Ready config o env Γ s θ → Expr.areAdmissible config o branches →
    HasBranches config Γ branches τ → s.Holds θ result τ →
    ∃ s' θ', Expr.inferBranches config env result branches s = .ok () s' ∧ s.Advances θ s' θ'

/-- All types of match arms are found, given handles for the types of scrutinee and result. -/
def Expr.CompleteArms (config : Config) (arms : List (Pattern × Expr)) : Prop :=
  ∀ ⦃o : Outline⦄ ⦃env : Env⦄ ⦃Γ : Scope Poly⦄ ⦃s : Inference⦄ ⦃θ : String → Mono⦄ ⦃σ τ : Mono⦄
    ⦃scrutinee result : Handle⦄, Ready config o env Γ s θ → Expr.areAdmissibleArms config o arms →
    HasArms config Γ arms σ τ → s.Holds θ scrutinee σ → s.Holds θ result τ →
    ∃ s' θ', Expr.inferArms config env scrutinee result arms s = .ok () s' ∧ s.Advances θ s' θ'

namespace Ready

variable {config : Config} {o : Outline} {env : Env} {Γ : Scope Poly} {s s' : Inference}
  {θ θ' : String → Mono}

lemma start (h : Ready config o env Γ s θ) : s.Advances θ s θ :=
  .refl h.proper h.sol h.softQueue

lemma advance (h : Ready config o env Γ s θ) (ha : s.Advances θ s' θ') :
    Ready config o env Γ s' θ' where
  proper := ha.proper
  sol := ha.sol
  softQueue := ha.softQueue
  inScope := h.inScope.mono ha.toExtends
  soft hh := ha.keepsSoft (h.inScope.live hh) (h.soft hh)
  below := h.below.imp fun p h' hh' hp => by
    rw [ha.keeps (h.inScope.live hh')]
    exact hp
  fits := h.fits.imp fun a h' _ ha' n hn => ha.toExtends.arityAt (ha' n hn)
  kinds := h.kinds

lemma inner (h : Ready config o env Γ s θ) :
    Ready config o.inner { env with values := env.values.child } Γ.child s θ :=
  ⟨h.proper, h.sol, h.softQueue, h.inScope.child, fun hh => h.soft hh, h.below.child, h.fits.child,
    h.kinds⟩

/-- Bring a name into scope that is no constructor. -/
lemma bind (h : Ready config o env Γ s θ) (name : String) {h' : Handle} {p : Poly}
    (hlive : s.Live h') (hsoft : s.SoftAt h') (hp : p.Below (s.polyAt θ h')) :
    Ready config (o.hide config [name]) (env.bindValue config name h') (config.bind name p Γ) s θ where
  proper := h.proper
  sol := h.sol
  softQueue := h.softQueue
  inScope := h.inScope.bind name hlive
  soft hh := by
    rcases Config.mem_values_bind hh with rfl | hh
    · exact hsoft
    · exact h.soft hh
  below := h.below.bind config name hp
  fits := h.fits.bind config name fun n hn => by cases hn
  kinds := h.kinds

lemma bindMono (h : Ready config o env Γ s θ) (name : String) {h' : Handle} {τ : Mono}
    (hh : s.Holds θ h' τ) : Ready config (o.hide config [name]) (env.bindValue config name h')
      (config.bind name (.ofMono τ) Γ) s θ :=
  h.bind name hh.live hh.softAt (hh.polyAt ▸ .refl _)

end Ready

lemma Literal.soft_ty (value : Literal) : value.ty.Soft := by
  rw [Ty.soft_iff (value.simple_ty 0).1]
  cases value <;> exact fun x hx => by cases hx

namespace Expr

variable {config : Config}

lemma complete_literal (value : Literal) : (Expr.literal value).Complete config := by
  intro o env Γ s θ τ hready _ htyped
  cases htyped
  exact ⟨value.ty, s, θ, hready.start, rfl, value.simple_ty _, value.soft_ty,
    value.bind_mono_ty θ⟩

/-- Reading a name and taking an instance of its type. -/
lemma instance_succeeds {t : Ty} {s₀ s : Inference} {θ₀ θ : String → Mono}
    (hstart : s₀.Advances θ₀ s θ) (ht : t.Proper s.next) (hsoft : t.Soft) {τ : Mono}
    (hτ : (t.poly.subst θ).Instance τ) :
    ∃ t' s' θ', instantiate t s = .ok t' s' ∧ s₀.Advances θ₀ s' θ' ∧ t'.Simple s'.next ∧ t'.Soft ∧
      t'.mono.bind θ' = τ := by
  obtain ⟨θ', ha, _, hτ'⟩ := hstart.instantiated ht hτ
  exact ⟨_, _, θ', instantiate_run t s, ha, ht.simple_instanceAt,
    ht.soft_instanceAt hsoft _ ht.simple_instanceAt.1, hτ'⟩

/-- A name in scope has a live type, and that can be instantiated. -/
lemma lookup_succeeds {o : Outline} {env : Env} {Γ : Scope Poly} {s : Inference}
    {θ : String → Mono} (hready : Ready config o env Γ s θ) {name : String} {p : Poly}
    (hlookup : Γ.lookup name = some p) {τ : Mono} (hinst : p.Instance τ) :
    ∃ h t, env.values.lookup name = some h ∧ s.term? h = some t ∧
      ∃ t' s' θ', instantiate t s = .ok t' s' ∧ s.Advances θ s' θ' ∧ t'.Simple s'.next ∧ t'.Soft ∧
        t'.mono.bind θ' = τ := by
  obtain ⟨h, hh, hbelow⟩ := hready.below.lookup hlookup
  have hmem := Scope.mem_of_lookup hh
  obtain ⟨t, ht⟩ := hready.inScope.live hmem
  have hτ := hbelow τ hinst
  rw [polyAt_eq ht] at hτ
  exact ⟨h, t, hh, ht,
    instance_succeeds hready.start (hready.proper.live ht) (hready.soft hmem t ht) hτ⟩

lemma complete_ident (name : String) : (Expr.ident name).Complete config := by
  intro o env Γ s θ τ hready _ htyped
  cases htyped with
  | ident hlookup hinst =>
    obtain ⟨h, t, hh, ht, t', s', θ', hrun, ha, hsimple, hsoft, htype⟩ :=
      lookup_succeeds hready hlookup hinst
    refine ⟨t', s', θ', ha, ?_, hsimple, hsoft, htype⟩
    rw [infer, hh]
    dsimp only
    rw [step_of_ok (current_run ht), step_plain, hrun]

lemma complete_internal (hprelude : config.prelude.isRankOne) (name : String) :
    (Expr.internal name).Complete config := by
  intro o env Γ s θ τ hready _ htyped
  cases htyped with
  | internal hfind hinst =>
    obtain ⟨hprenex, hclosed⟩ :=
      Ty.isSentence_iff.1 (Prelude.isSentence_of_internal hprelude hfind)
    rw [← hclosed.subst θ] at hinst
    obtain ⟨t', s', θ', hrun, ha, hsimple, hsoft, htype⟩ := instance_succeeds hready.start
      (Ty.proper_of_closed hprenex hclosed _) (Ty.soft_of_closed hclosed) hinst
    refine ⟨t', s', θ', ha, ?_, hsimple, hsoft, htype⟩
    rw [infer, hfind]
    exact hrun

lemma complete_app {func arg : Expr} (hfunc : func.Complete config) (harg : arg.Complete config) :
    (Expr.app func arg).Complete config := by
  intro o env Γ s θ τ hready hadmissible htyped
  rw [isAdmissible, Bool.and_eq_true] at hadmissible
  cases htyped with
  | @app _ _ _ σ _ hf ha =>
    obtain ⟨tf, s₁, θ₁, hF⟩ := hfunc hready hadmissible.1 hf
    have ha₁ := hF.toAdvances.tracked hF.simple.proper
    have hdead : ¬ s.Live (s₁.newHandle tf) := fun h => s₁.not_live_newHandle tf (hF.live h)
    obtain ⟨ta, s₂, θ₂, hA⟩ := harg (hready.advance ha₁) hadmissible.2 ha
    obtain ⟨θ₃, ha₃, hagree, hfresh⟩ := (ha₁.trans hA.toAdvances).fresh τ
    -- The function is read again, after what its argument has added.
    obtain ⟨tf', htf', hsimple, hsoft, htype⟩ :=
      hA.toAdvances.holds (.tracked hF.simple hF.soft hF.type)
    have hfreshS : (Ty.fresh s₂.next).Simple (s₂.next + 1) := Ty.simple_fresh (Nat.lt_succ_self _)
    have heq : tf'.mono.bind θ₃ = (Ty.arrow ta (Ty.fresh s₂.next)).mono.bind θ₃ := by
      rw [hsimple.bind_congr hagree, htype, Ty.mono_arrow, Mono.bind_arrow, hfresh,
        hA.simple.bind_congr hagree, hA.type]
    refine ⟨Ty.fresh s₂.next, _, θ₃, (ha₃.released hdead).equated (hsimple.mono_le (Nat.le_succ _))
      (Ty.simple_arrow (hA.simple.mono_le (Nat.le_succ _)) hfreshS) hsoft
      (Ty.soft_arrow hA.simple.1 rfl hA.soft (Ty.soft_fresh _)) heq .application,
      ?_, hfreshS, Ty.soft_fresh _, hfresh⟩
    rw [infer, bind_of_ok hF.run, step_of_ok (track_run s₁ tf), bind_of_ok hA.run,
      step_of_ok (fresh_run s₂), step_of_ok (take_run (s := s₂.bump 1) htf'),
      step_of_ok (equate_run _ _ _ _)]
    rfl

/-! ### Functions and guards -/

lemma checkAscription_of_hasKind {kinds : Scope Kind} {t : Ty} (h : t.hasKind kinds) :
    ∃ found, (checkAscription kinds t).2 = .ok found := by
  rw [Ty.hasKind] at h
  cases hcheck : (checkAscription kinds t).2 with
  | ok found => exact ⟨found, rfl⟩
  | error e =>
    rw [hcheck] at h
    cases h

lemma paramTy_succeeds {kinds : Scope Kind} {p : Param} (hrank : p.isRankOne)
    (hkind : p.ascription.all (Ty.hasKind kinds)) {s : Inference} {θ : String → Mono}
    (hstart : s.Advances θ s θ) {τ : Mono} (hτ : p.Accepts τ) :
    ∃ t s' θ', paramTy kinds p s = .ok t s' ∧ s.Advances θ s' θ' ∧ t.Simple s'.next ∧ t.Soft ∧
      t.mono.bind θ' = τ := by
  rw [paramTy]
  cases hasc : p.ascription with
  | none =>
    obtain ⟨θ', ha, _, hfresh⟩ := hstart.fresh τ
    exact ⟨_, _, θ', fresh_run s, ha, Ty.simple_fresh (Nat.lt_succ_self _), Ty.soft_fresh _,
      hfresh⟩
  | some t =>
    rw [hasc] at hkind
    obtain ⟨found, hfound⟩ := checkAscription_of_hasKind hkind
    obtain ⟨hflat, hclosed⟩ := Param.isRankOne_iff.1 hrank t hasc
    have hflat' : (t.fill found).1.isFlat := (Ty.isFlat_fill t found).trans hflat
    have hclosed' : (t.fill found).1.poly.Closed := by
      rwa [Ty.poly_of_isFlat hflat', Ty.mono_fill, ← Ty.poly_of_isFlat hflat]
    refine ⟨_, _, θ, ascribe_run hfound s, hstart.noted found,
      Ty.simple_of_closed hflat' hclosed' _, Ty.soft_of_closed hclosed', ?_⟩
    have hsubst := hclosed'.subst θ
    rw [Ty.poly_of_isFlat hflat', Poly.subst_ofMono] at hsubst
    rw [Poly.ofMono_injective hsubst, Ty.mono_fill, hτ t hasc]

lemma bindParams_succeeds {params : List Param} {types : List Mono} {o : Outline} {env : Env}
    {Γ : Scope Poly} {s : Inference} {θ : String → Mono} (hrank : ∀ p ∈ params, p.isRankOne)
    (hkind : params.all fun p => p.ascription.all (Ty.hasKind o.kinds))
    (htypes : List.Forall₂ Param.Accepts params types) (hready : Ready config o env Γ s θ) :
    ∃ scope handles s' θ',
      bindParams config env.kinds params env.values s = .ok (scope, handles) s' ∧
      s.Advances θ s' θ' ∧ Ready config (o.hide config (params.map Param.name))
        { env with values := scope } (bindMonos config ((params.map Param.name).zip types) Γ) s' θ' ∧
      List.Forall₂ (s'.Holds θ') handles types := by
  induction htypes generalizing o env Γ s θ with
  | nil => exact ⟨env.values, [], s, θ, rfl, hready.start, hready, .nil⟩
  | @cons p τ params types hτ _ ih =>
    rw [List.all_cons, Bool.and_eq_true] at hkind
    rw [hready.kinds] at hkind
    obtain ⟨t, s₁, θ₁, hty, ha, hsimple, hsoft, htype⟩ :=
      paramTy_succeeds (hrank p List.mem_cons_self) hkind.1 hready.start hτ
    have ha₁ := ha.tracked hsimple.proper
    have hholds : (s₁.tracked t).Holds θ₁ (s₁.newHandle t) τ := .tracked hsimple hsoft htype
    obtain ⟨scope, handles, s₂, θ₂, hrun, ha₂, hready₂, hhandles⟩ :=
      ih (fun q hq => hrank q (List.mem_cons_of_mem _ hq)) (hready.kinds ▸ hkind.2)
        ((hready.advance ha₁).bindMono p.name hholds)
    refine ⟨scope, s₁.newHandle t :: handles, s₂, θ₂, ?_, ha₁.trans ha₂, hready₂,
      .cons (ha₂.holds hholds) hhandles⟩
    rw [bindParams, step_of_ok hty, step_of_ok (track_run s₁ t)]
    exact (bind_of_ok hrun).trans rfl

/-- The types of handles that stand for given types. -/
lemma types_of_holds {s : Inference} {θ : String → Mono} {handles : List Handle}
    {monos : List Mono} (h : List.Forall₂ (s.Holds θ) handles monos) :
    ∃ types : List Ty, handles.map s.term? = types.map some ∧
      (∀ t ∈ types, t.Simple s.next ∧ t.Soft) ∧ types.map (fun t => t.mono.bind θ) = monos := by
  induction h with
  | nil => exact ⟨[], rfl, by simp, rfl⟩
  | @cons h τ handles monos hh _ ih =>
    obtain ⟨t, ht, hsimple, hsoft, hτ⟩ := hh
    obtain ⟨types, hterms, htypes, hmonos⟩ := ih
    exact ⟨t :: types, congrArg₂ List.cons ht hterms, List.forall_mem_cons.2 ⟨⟨hsimple, hsoft⟩, htypes⟩,
      congrArg₂ List.cons hτ hmonos⟩

lemma complete_function {params : List Param} {body : Expr} (hrank : ∀ p ∈ params, p.isRankOne)
    (hbody : body.Complete config) : (Expr.function params body).Complete config := by
  intro o env Γ s θ τ hready hadmissible htyped
  rw [isAdmissible, Bool.and_eq_true] at hadmissible
  cases htyped with
  | @function _ _ _ types τ haccepts hb =>
    obtain ⟨scope, handles, s₁, θ₁, hparams, ha₁, hready₁, hholds⟩ :=
      bindParams_succeeds (o := o.inner) hrank hadmissible.1 haccepts hready.inner
    obtain ⟨_, _, _, hnodup, hnew, _⟩ :=
      bindParams_eq_ok hready.proper hready.inScope.child hrank hparams
    obtain ⟨tb, s₂, θ₂, hB⟩ := hbody hready₁ hadmissible.2 hb
    have hdead : ∀ h ∈ handles, ¬ s.Live h := fun h hh => (hnew h hh).1
    obtain ⟨types', hterms, htypes, hmonos⟩ := types_of_holds (hholds.imp fun _ _ => hB.holds)
    refine ⟨.function types' tb, _, θ₂, (ha₁.trans hB.toAdvances).releasedAll hdead, ?_, ?_,
      Ty.soft_function (fun t ht => ⟨(htypes t ht).1.1, (htypes t ht).2⟩) hB.simple.1 hB.soft, ?_⟩
    · rw [infer, bind_of_ok hparams]
      dsimp only
      rw [bind_of_ok hB.run, bind_of_ok (takeAll_run hnodup hterms)]
      rfl
    · rw [next_releasedAll]
      exact Ty.simple_function (fun t ht => (htypes t ht).1) hB.simple
    · rw [Ty.mono_function, Mono.bind_function, List.map_map, hB.type]
      exact congrArg (Mono.function · τ) hmonos

lemma complete_branches_nil : CompleteBranches config [] := by
  intro o env Γ s θ τ result hready _ _ _
  exact ⟨s, θ, rfl, hready.start⟩

lemma complete_branches_cons {condition branch : Expr} {branches : List (Expr × Expr)}
    (hcondition : condition.Complete config) (hbranch : branch.Complete config)
    (hbranches : CompleteBranches config branches) :
    CompleteBranches config ((condition, branch) :: branches) := by
  intro o env Γ s θ τ result hready hadmissible htyped hresult
  rw [areAdmissible, Bool.and_eq_true, Bool.and_eq_true] at hadmissible
  cases htyped with
  | cons hc hb hbs =>
    obtain ⟨tc, s₁, θ₁, hC⟩ := hcondition hready hadmissible.1.1 hc
    have ha₁ := hC.toAdvances.equated ((Literal.bool true).simple_ty _) hC.simple
      (Literal.bool true).soft_ty hC.soft
      (((Literal.bool true).bind_mono_ty θ₁).trans hC.type.symm) .condition
    obtain ⟨tb, s₂, θ₂, hB⟩ := hbranch (hready.advance ha₁) hadmissible.1.2 hb
    have ha₂ := ha₁.trans hB.toAdvances
    obtain ⟨tr, htr, hsimple, hsoft, htype⟩ := ha₂.holds hresult
    have ha₃ := ha₂.equated hsimple hB.simple hsoft hB.soft (htype.trans hB.type.symm) .branch
    obtain ⟨s', θ', hrun, ha'⟩ :=
      hbranches (hready.advance ha₃) hadmissible.2 hbs (ha₃.holds hresult)
    refine ⟨s', θ', ?_, ha₃.trans ha'⟩
    rw [inferBranches, bind_of_ok hC.run, step_of_ok (equate_run _ _ _ _)]
    refine (bind_of_ok hB.run).trans ?_
    rw [step_of_ok (current_run htr), step_of_ok (equate_run _ _ _ _), hrun]

/-- A new handle for the common type of branches or arms. -/
lemma result_holds {s : Inference} {θ : String → Mono} (hstart : s.Advances θ s θ) (τ : Mono) :
    ∃ θ', s.Advances θ ((s.bump 1).tracked (.fresh s.next)) θ' ∧
      ((s.bump 1).tracked (.fresh s.next)).Holds θ' ((s.bump 1).newHandle (.fresh s.next)) τ := by
  obtain ⟨θ', ha, _, hfresh⟩ := hstart.fresh τ
  have hsimple : (Ty.fresh s.next).Simple (s.bump 1).next := Ty.simple_fresh (Nat.lt_succ_self _)
  exact ⟨θ', ha.tracked hsimple.proper, .tracked hsimple (Ty.soft_fresh _) hfresh⟩

lemma complete_guards {branches : List (Expr × Expr)} {otherwise : Expr}
    (hbranches : CompleteBranches config branches) (hotherwise : otherwise.Complete config) :
    (Expr.guards branches otherwise).Complete config := by
  intro o env Γ s θ τ hready hadmissible htyped
  rw [isAdmissible, Bool.and_eq_true] at hadmissible
  cases htyped with
  | guards hbs ho =>
    obtain ⟨θ₀, ha₀, hresult⟩ := result_holds hready.start τ
    have hdead : ¬ s.Live ((s.bump 1).newHandle (.fresh s.next)) := (s.bump 1).not_live_newHandle _
    obtain ⟨s₁, θ₁, hrun, ha₁⟩ := hbranches (hready.advance ha₀) hadmissible.1 hbs hresult
    have ha₁' := ha₀.trans ha₁
    obtain ⟨tw, s₂, θ₂, hO⟩ := hotherwise (hready.advance ha₁') hadmissible.2 ho
    have ha₂ := ha₁'.trans hO.toAdvances
    obtain ⟨tr, htr, hsimple, hsoft, htype⟩ := hO.holds (ha₁.holds hresult)
    have ha₃ := ha₂.equated hsimple hO.simple hsoft hO.soft (htype.trans hO.type.symm) .branch
    refine ⟨tr, _, θ₂, ha₃.released hdead, ?_, hsimple, hsoft, htype⟩
    rw [infer, step_of_ok (fresh_run s), step_of_ok (track_run _ _), bind_of_ok hrun,
      bind_of_ok hO.run, step_of_ok (current_run htr), step_of_ok (equate_run _ _ _ _),
      step_plain, take_run (s := s₂.equated tr tw .branch) htr]

/-! ### Patterns and matches -/

lemma constructorInstance_succeeds {o : Outline} {env : Env} {Γ : Scope Poly} {s : Inference}
    {θ : String → Mono} (hready : Ready config o env Γ s θ) {name : String} {p : Poly}
    (hlookup : Γ.lookup name = some p) {τ : Mono} (hinst : p.Instance τ) :
    ∃ t s' θ', constructorInstance env.values name s = .ok t s' ∧ s.Advances θ s' θ' ∧
      t.Simple s'.next ∧ t.Soft ∧ t.mono.bind θ' = τ := by
  obtain ⟨h, t, hh, ht, t', s', θ', hrun, hrest⟩ := lookup_succeeds hready hlookup hinst
  refine ⟨t', s', θ', ?_, hrest⟩
  rw [constructorInstance, hh]
  exact (bind_of_ok (current_run ht)).trans hrun

/-- The instance of a constructor takes as many values as the outline says. -/
lemma arity_of_fits {o : Outline} {env : Env} {Γ : Scope Poly} {s s' : Inference}
    {θ : String → Mono} (hready : Ready config o env Γ s θ) {name : String} {n : Nat}
    (hfits : o.arities.lookup name = some (some n)) {t : Ty}
    (hrun : constructorInstance env.values name s = .ok t s') : t.arity = n := by
  obtain ⟨h, hh, harity⟩ := hready.fits.lookup hfits
  obtain ⟨u, hu, harity⟩ := harity n rfl
  have hproper := hready.proper.live hu
  rw [constructorInstance, hh] at hrun
  dsimp only at hrun
  rw [bind_of_ok (current_run hu), instantiate_run, EStateM.Result.ok.injEq] at hrun
  obtain ⟨rfl, _⟩ := hrun
  rw [Ty.arity_eq hproper.simple_instanceAt.1, Ty.mono_instanceAt hproper.isPrenex, harity.2]

lemma bindCaptures_succeeds {captures : List String} {fields : List Ty} {o : Outline} {env : Env}
    {Γ : Scope Poly} {s : Inference} {θ : String → Mono} (hready : Ready config o env Γ s θ)
    (hlen : fields.length = captures.length) (hfields : ∀ t ∈ fields, t.Simple s.next ∧ t.Soft) :
    ∃ scope s', bindCaptures config (captures.zip fields) env.values s = .ok scope s' ∧
      s.Advances θ s' θ ∧ Ready config (o.hide config captures) { env with values := scope }
        (bindMonos config (captures.zip (fields.map fun t => t.mono.bind θ)) Γ) s' θ := by
  induction captures generalizing fields o env Γ s with
  | nil => exact ⟨env.values, s, rfl, hready.start, hready⟩
  | cons name captures ih =>
    obtain _ | ⟨t, fields⟩ := fields
    · cases hlen
    obtain ⟨ht, hfields⟩ := List.forall_mem_cons.1 hfields
    have ha := hready.start.tracked ht.1.proper
    obtain ⟨scope, s', hrun, ha', hready'⟩ :=
      ih ((hready.advance ha).bindMono name (.tracked ht.1 ht.2 rfl)) (Nat.succ.inj hlen) hfields
    exact ⟨scope, s', hrun, ha.trans ha', hready'⟩

/-- A pattern that fits is accepted, and what it captures is brought into scope. -/
lemma bindPattern_succeeds {pattern : Pattern} {o : Outline} {env : Env} {Γ Γ' : Scope Poly}
    {s : Inference} {θ : String → Mono} {σ : Mono} {scrutinee : Handle}
    (hready : Ready config o env Γ s θ) (hfits : pattern.fits o.arities)
    (hpattern : HasPattern config Γ pattern σ Γ') (hscrutinee : s.Holds θ scrutinee σ) :
    ∃ scope s' θ', bindPattern config scrutinee env.values pattern s = .ok scope s' ∧
      s.Advances θ s' θ' ∧
      Ready config (o.hide config pattern.captured) { env with values := scope } Γ' s' θ' := by
  cases hpattern with
  | capture name =>
    exact ⟨_, s, θ, rfl, hready.start, hready.bindMono name hscrutinee⟩
  | literal value =>
    obtain ⟨t, ht, hsimple, hsoft, htype⟩ := hscrutinee
    have ha := hready.start.equated hsimple (value.simple_ty _) hsoft value.soft_ty
      (htype.trans (value.bind_mono_ty θ).symm) .literal
    refine ⟨env.values, _, θ, ?_, ha, hready.advance ha⟩
    rw [bindPattern, step_of_ok (current_run ht), step_of_ok (equate_run _ _ _ _)]
    rfl
  | @constructor name p _ hlookup hinst =>
    obtain ⟨t, s₁, θ₁, hrun, ha₁, hsimple, hsoft, htype⟩ :=
      constructorInstance_succeeds hready hlookup hinst
    obtain ⟨ts, hts, hsimple', hsoft', htype'⟩ := ha₁.holds hscrutinee
    have ha := ha₁.equated hsimple' hsimple hsoft' hsoft (htype'.trans htype.symm)
      (.constructor name)
    refine ⟨env.values, _, θ₁, ?_, ha, hready.advance ha⟩
    rw [bindPattern, step_of_ok hrun, step_of_ok (current_run hts), step_of_ok (equate_run _ _ _ _)]
    rfl
  | @data name captures p fields _ hlookup hlen hinst =>
    obtain ⟨t, s₁, θ₁, hrun, ha₁, hsimple, hsoft, htype⟩ :=
      constructorInstance_succeeds hready hlookup hinst
    have harity : t.arity = captures.length := arity_of_fits hready (eq_of_beq hfits) hrun
    obtain ⟨θ₂, ha₂, hagree, hfields⟩ := ha₁.freshList fields
    obtain ⟨ts, hts, hsimple', hsoft', htype'⟩ := ha₂.holds hscrutinee
    have hnew : ∀ f ∈ (List.range' s₁.next fields.length).map Ty.fresh,
        f.Simple (s₁.bump fields.length).next ∧ f.Soft := by
      intro f hf
      obtain ⟨k, hk, rfl⟩ := List.mem_map.1 hf
      exact ⟨Ty.simple_fresh (List.mem_range'_1.1 hk).2, Ty.soft_fresh k⟩
    have hnewlen : ((List.range' s₁.next fields.length).map Ty.fresh).length = captures.length := by
      simpa using hlen
    have heq : (Ty.function ((List.range' s₁.next fields.length).map Ty.fresh) ts).mono.bind θ₂ =
        t.mono.bind θ₂ := by
      rw [Ty.mono_function, Mono.bind_function, List.map_map, htype', hsimple.bind_congr hagree, htype]
      exact congrArg (Mono.function · σ) hfields
    have ha := ha₂.equated (Ty.simple_function (fun f hf => (hnew f hf).1) hsimple')
      (hsimple.mono_le (Nat.le_add_right _ _))
      (Ty.soft_function (fun f hf => ⟨(hnew f hf).1.1, (hnew f hf).2⟩) hsimple'.1 hsoft') hsoft heq
      (.constructor name)
    obtain ⟨scope, s', hcaptures, ha', hready'⟩ :=
      bindCaptures_succeeds (hready.advance ha) hnewlen hnew
    rw [hfields] at hready'
    refine ⟨scope, s', θ₂, ?_, ha.trans ha', hready'⟩
    rw [bindPattern, step_of_ok hrun, if_neg (by simpa using harity), ← hlen]
    refine (step_of_ok (freshList_run _ _)).trans ?_
    rw [step_of_ok (current_run hts), step_of_ok (equate_run _ _ _ _), hcaptures]

lemma complete_arms_nil : CompleteArms config [] := by
  intro o env Γ s θ σ τ scrutinee result hready _ _ _ _
  exact ⟨s, θ, rfl, hready.start⟩

lemma complete_arms_cons {pattern : Pattern} {body : Expr} {arms : List (Pattern × Expr)}
    (hbody : body.Complete config) (harms : CompleteArms config arms) :
    CompleteArms config ((pattern, body) :: arms) := by
  intro o env Γ s θ σ τ scrutinee result hready hadmissible htyped hscrutinee hresult
  rw [areAdmissibleArms, Bool.and_eq_true, Bool.and_eq_true] at hadmissible
  cases htyped with
  | cons hpattern hb has =>
    obtain ⟨scope, s₁, θ₁, hrun₁, ha₁, hready₁⟩ :=
      bindPattern_succeeds (o := o.inner) hready.inner hadmissible.1.1 hpattern hscrutinee
    have hP := bindPattern_eq_ok hready.proper hready.inScope.child hscrutinee.flatAt hrun₁
    obtain ⟨tb, s₂, θ₂, hB⟩ := hbody hready₁ hadmissible.1.2 hb
    have ha₂ := ha₁.trans hB.toAdvances
    obtain ⟨tr, htr, hsimple, hsoft, htype⟩ := ha₂.holds hresult
    have ha₃ := ha₂.equated hsimple hB.simple hsoft hB.soft (htype.trans hB.type.symm) .branch
    have ha₄ := ha₃.releasedAll hP.dead
    obtain ⟨s', θ', hrun, ha'⟩ := harms (hready.advance ha₄) hadmissible.2 has
      (ha₄.holds hscrutinee) (ha₄.holds hresult)
    refine ⟨s', θ', ?_, ha₄.trans ha'⟩
    rw [inferArms, bind_of_ok hrun₁, bind_of_ok hB.run, step_of_ok (current_run htr),
      step_of_ok (equate_run _ _ _ _), bind_of_ok (releaseAll_run _ _), hrun]

lemma complete_cases {scrutinee : Expr} {arms : List (Pattern × Expr)}
    (hscrutinee : scrutinee.Complete config) (harms : CompleteArms config arms) :
    (Expr.cases scrutinee arms).Complete config := by
  intro o env Γ s θ τ hready hadmissible htyped
  rw [isAdmissible, Bool.and_eq_true] at hadmissible
  cases htyped with
  | cases hs has =>
    obtain ⟨ts, s₁, θ₁, hS⟩ := hscrutinee hready hadmissible.1 hs
    have ha₁ := hS.toAdvances.tracked hS.simple.proper
    have hheld : (s₁.tracked ts).Holds θ₁ (s₁.newHandle ts) _ := .tracked hS.simple hS.soft hS.type
    obtain ⟨θ₂, ha₂, hresult⟩ := result_holds (hready.advance ha₁).start τ
    have ha₂' := ha₁.trans ha₂
    have hnew₁ : ¬ s.Live (s₁.newHandle ts) := fun h => s₁.not_live_newHandle ts (hS.live h)
    have hnew₂ : ¬ (s₁.tracked ts).Live
        (((s₁.tracked ts).bump 1).newHandle (.fresh (s₁.tracked ts).next)) :=
      ((s₁.tracked ts).bump 1).not_live_newHandle _
    have hne : ((s₁.tracked ts).bump 1).newHandle (.fresh (s₁.tracked ts).next) ≠
        s₁.newHandle ts := fun heq => hnew₂ (heq ▸ hheld.live)
    obtain ⟨s₃, θ₃, hrun, ha₃⟩ :=
      harms (hready.advance ha₂') hadmissible.2 has (ha₂.holds hheld) hresult
    obtain ⟨tr, htr, hsimple, hsoft, htype⟩ := ha₃.holds hresult
    refine ⟨tr, _, θ₃, ((ha₂'.trans ha₃).released hnew₁).released fun h => hnew₂ (ha₁.live h), ?_,
      hsimple, hsoft, htype⟩
    rw [infer, bind_of_ok hS.run, step_of_ok (track_run _ _), step_of_ok (fresh_run _),
      step_of_ok (track_run _ _), bind_of_ok hrun, step_of_ok (release_run _ _),
      step_plain, take_run ((term?_released_of_ne hne).trans htr)]

end Expr

end LetPoly
