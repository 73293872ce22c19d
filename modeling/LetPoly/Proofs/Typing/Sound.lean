import LetPoly.Proofs.Typing.Constructors

/-!
# Soundness of inference

Whatever `Expr.infer` finds is derivable: under every solution of the state that it leads to, the
type it returns is a type of the expression in the environment that the handles in scope stand for.
Each form of expression has a lemma of its own that supposes the same of its parts; a value that is
bound goes through the fresh names that its quantified or rigid variables stand for.
-/

namespace LetPoly

open Inference

/-- The run led to a proper state, and the type found is derivable under all of its solutions. -/
structure Infers (config : Config) (env : Env) (e : Expr) (s : Inference) (t : Ty)
    (s' : Inference) : Prop where
  reaches : s.Reaches s'
  simple : t.Simple s'.next
  typed {θ : String → Mono} : s'.Sol θ →
    HasType config (s'.envAt θ env.values) e (t.mono.bind θ)

/-- All that the run of an expression can find is derivable. -/
def Expr.Sound (config : Config) (e : Expr) : Prop :=
  ∀ ⦃env : Env⦄ ⦃s s' : Inference⦄ ⦃t : Ty⦄, s.Proper → Scoped config s env.values →
    e.infer config env s = .ok t s' → Infers config env e s t s'

lemma Literal.simple_ty (value : Literal) (n : Nat) : value.ty.Simple n := by
  cases value <;> exact ⟨rfl, fun v hv => by cases hv⟩

lemma Literal.bind_mono_ty (value : Literal) (θ : String → Mono) :
    value.ty.mono.bind θ = value.ty.mono := by
  cases value <;> rfl

lemma Ty.Proper.instance_instanceAt {n : Nat} {t : Ty} (ht : t.Proper n) (m : Nat)
    (θ : String → Mono) : (t.poly.subst θ).Instance ((t.instanceAt m).mono.bind θ) := by
  rw [Ty.mono_instanceAt ht.isPrenex, Poly.bind_inst]
  exact ⟨_, rfl⟩

/-- The same for guarded branches, whose results go to a handle. -/
structure InfersBranches (config : Config) (env : Env) (result : Handle)
    (branches : List (Expr × Expr)) (s s' : Inference) : Prop where
  reaches : s.Reaches s'
  typed {θ : String → Mono} {τ : Mono} : s'.Sol θ → s'.polyAt θ result = .ofMono τ →
    HasBranches config (s'.envAt θ env.values) branches τ

/-- All that the run of guarded branches can find is derivable. -/
def Expr.SoundBranches (config : Config) (branches : List (Expr × Expr)) : Prop :=
  ∀ ⦃env : Env⦄ ⦃result : Handle⦄ ⦃s s' : Inference⦄ ⦃u : Unit⦄, s.Proper →
    Scoped config s env.values → s.FlatAt result →
    Expr.inferBranches config env result branches s = .ok u s' →
    InfersBranches config env result branches s s'

/-- The same for match arms, whose scrutinee and results are handles. -/
structure InfersArms (config : Config) (env : Env) (scrutinee result : Handle)
    (arms : List (Pattern × Expr)) (s s' : Inference) : Prop where
  reaches : s.Reaches s'
  typed {θ : String → Mono} {σ τ : Mono} : s'.Sol θ → s'.polyAt θ scrutinee = .ofMono σ →
    s'.polyAt θ result = .ofMono τ → HasArms config (s'.envAt θ env.values) arms σ τ

/-- All that the run of match arms can find is derivable. -/
def Expr.SoundArms (config : Config) (arms : List (Pattern × Expr)) : Prop :=
  ∀ ⦃env : Env⦄ ⦃scrutinee result : Handle⦄ ⦃s s' : Inference⦄ ⦃u : Unit⦄, s.Proper →
    Scoped config s env.values → s.FlatAt scrutinee → s.FlatAt result →
    Expr.inferArms config env scrutinee result arms s = .ok u s' →
    InfersArms config env scrutinee result arms s s'

namespace Expr

variable {config : Config}

lemma sound_literal (value : Literal) : (Expr.literal value).Sound config := by
  intro env s s' t hp hscope hrun
  rw [infer] at hrun
  obtain ⟨rfl, rfl⟩ := pure_eq_ok.1 hrun
  refine ⟨.refl hp, value.simple_ty _, fun {θ} _ => ?_⟩
  rw [value.bind_mono_ty]
  exact .literal _ _

lemma sound_ident (name : String) : (Expr.ident name).Sound config := by
  intro env s s' t hp hscope hrun
  rw [infer] at hrun
  cases hlookup : env.values.lookup name with
  | none =>
    rw [hlookup] at hrun
    cases hrun
  | some h =>
    rw [hlookup] at hrun
    obtain ⟨u, hu⟩ := hscope.live (Scope.mem_of_lookup hlookup)
    dsimp only at hrun
    rw [step_of_ok (current_run hu), step_plain, instantiate_run] at hrun
    cases hrun
    refine ⟨(Reaches.refl hp).bump _, (hp.live hu).simple_instanceAt, fun {θ} _ => ?_⟩
    refine .ident (p := s.polyAt θ h) ?_ ?_
    · rw [envAt, Scope.lookup_map, hlookup]
      rfl
    · rw [polyAt_eq hu]
      exact (hp.live hu).instance_instanceAt _ θ

lemma sound_internal (hprelude : config.prelude.isRankOne) (name : String) :
    (Expr.internal name).Sound config := by
  intro env s s' t hp hscope hrun
  rw [infer] at hrun
  cases hfind : config.prelude.internals.find? name with
  | none =>
    rw [hfind] at hrun
    cases hrun
  | some u =>
    obtain ⟨hprenex, hclosed⟩ :=
      Ty.isSentence_iff.1 (Prelude.isSentence_of_internal hprelude hfind)
    have hproper : u.Proper s.next := Ty.proper_of_closed hprenex hclosed _
    rw [hfind] at hrun
    dsimp only at hrun
    rw [step_plain, instantiate_run] at hrun
    cases hrun
    refine ⟨(Reaches.refl hp).bump _, hproper.simple_instanceAt, fun {θ} _ => .internal hfind ?_⟩
    rw [← hclosed.subst θ]
    exact hproper.instance_instanceAt _ θ

/-- The function is tracked while its argument is inferred, so a solution of the end gives one of
the state in between. -/
lemma sound_app {func arg : Expr} (hfunc : func.Sound config) (harg : arg.Sound config) :
    (Expr.app func arg).Sound config := by
  intro env s s' t hp hscope hrun
  rw [infer] at hrun
  obtain ⟨tf, s₁, hf, hrun⟩ := bind_eq_ok.1 hrun
  rw [step_of_ok (track_run s₁ tf)] at hrun
  obtain ⟨ta, s₂, ha, hrun⟩ := bind_eq_ok.1 hrun
  have hF := hfunc hp hscope hf
  have hr₁ := hF.reaches.tracked hF.simple.proper
  have hA := harg hr₁.proper (hscope.mono hr₁.toExtends) ha
  obtain ⟨tf', htf', hflat, _⟩ := hA.reaches.keep (s₁.term?_newHandle tf)
  rw [step_of_ok (fresh_run s₂), step_of_ok (take_run (s := s₂.bump 1) htf'),
    step_of_ok (equate_run _ _ _ _)] at hrun
  obtain ⟨rfl, rfl⟩ := pure_eq_ok.1 hrun
  have hdead : ¬ s.Live (s₁.newHandle tf) :=
    fun h => s₁.not_live_newHandle tf (hF.reaches.live h)
  have hflat' : tf'.isFlat := hflat hF.simple.1
  have hr₂ := (hr₁.trans hA.reaches).bump 1
  have hr₃ := hr₂.released hdead
  have hfresh : (Ty.fresh s₂.next).Simple (s₂.next + 1) := Ty.simple_fresh (Nat.lt_succ_self _)
  refine ⟨hr₃.equated ((hr₂.proper.live htf').simple hflat')
    (Ty.simple_arrow (hA.simple.mono_le (Nat.le_succ _)) hfresh) _, hfresh, fun {θ} hθ => ?_⟩
  obtain ⟨hθ, heq⟩ := sol_equated.1 hθ
  obtain ⟨θ₁, hθ₁, hsame⟩ := hA.reaches.back hθ
  have hfound : tf.mono.bind θ₁ =
      Mono.arrow (ta.mono.bind θ) ((Ty.fresh s₂.next).mono.bind θ) := by
    rw [← bind_mono_eq (s₁.term?_newHandle tf) hF.simple.1 htf' hflat'
      (hsame _ ⟨tf, s₁.term?_newHandle tf⟩), heq, Ty.mono_arrow, Mono.bind_arrow]
  show HasType config (((s₂.bump 1).released _).envAt θ env.values) _ _
  rw [envAt_released hscope hdead]
  refine .app (σ := ta.mono.bind θ) ?_ (hA.typed hθ)
  show HasType config (s₂.envAt θ env.values) _ _
  rw [← hfound, envAt_back (hscope.mono hr₁.toExtends) hsame,
    envAt_tracked (hscope.mono hF.reaches.toExtends)]
  exact hF.typed hθ₁

/-! ### Functions and guards -/

lemma sound_function {params : List Param} {body : Expr} (hrank : ∀ p ∈ params, p.isRankOne)
    (hbody : body.Sound config) : (Expr.function params body).Sound config := by
  intro env s s' t hp hscope hrun
  rw [infer] at hrun
  obtain ⟨⟨scope, handles⟩, s₁, hparams, hrun⟩ := bind_eq_ok.1 hrun
  obtain ⟨tb, s₂, hb, hrun⟩ := bind_eq_ok.1 hrun
  obtain ⟨hquiet, hp₁, hscope₁, hnodup, hhandles, htypes⟩ :=
    bindParams_eq_ok hp hscope.child hrank hparams
  have hr₁ : s.Reaches s₁ := ⟨hquiet.toExtends, hp₁⟩
  have hB := hbody hp₁ hscope₁ hb
  have hr₂ := hr₁.trans hB.reaches
  have hdead : ∀ h ∈ handles, ¬ s.Live h := fun h hh => (hhandles h hh).1
  obtain ⟨types, hterms, hflat, hpolys⟩ :=
    types_of_flatAt fun h hh => hB.reaches.flatAt (hhandles h hh).2
  rw [bind_of_ok (takeAll_run hnodup hterms)] at hrun
  obtain ⟨rfl, rfl⟩ := pure_eq_ok.1 hrun
  have hr₃ := hr₂.releasedAll hdead
  refine ⟨hr₃, ?_, fun {θ} hθ => ?_⟩
  · rw [next_releasedAll]
    refine Ty.simple_function (fun t ht => ?_) hB.simple
    have hmem : some t ∈ handles.map s₂.term? := hterms ▸ List.mem_map_of_mem ht
    obtain ⟨h, _, hh⟩ := List.mem_map.1 hmem
    exact (hr₂.proper.live hh).simple (hflat t ht)
  · obtain ⟨θ₁, _, hsame⟩ := hB.reaches.back (sol_releasedAll.1 hθ)
    obtain ⟨monos, haccepts, hmonos, henv⟩ := htypes θ₁
    have htypes : types.map (fun t => t.mono.bind θ) = monos := by
      refine List.map_injective_iff.2 (fun _ _ => Poly.ofMono_injective) ?_
      rw [← hpolys θ, ← hmonos]
      exact List.map_congr_left fun h hh => hsame h (hhandles h hh).2.live
    rw [Ty.mono_function, Mono.bind_function, List.map_map]
    show HasType config _ _ (Mono.function (types.map fun t => t.mono.bind θ) _)
    rw [htypes, envAt_releasedAll hscope handles hdead]
    refine .function haccepts ?_
    rw [envAt_back (hscope.mono hquiet.toExtends) hsame, hquiet.envAt_eq hscope]
    have hB' := hB.typed (sol_releasedAll.1 hθ)
    rw [envAt_back hscope₁ hsame, henv] at hB'
    exact hB'

lemma sound_branches_nil : SoundBranches config [] := by
  intro env result s s' u hp hscope hresult hrun
  rw [inferBranches] at hrun
  obtain ⟨rfl, rfl⟩ := pure_eq_ok.1 hrun
  exact ⟨.refl hp, fun _ _ => .nil _ _⟩

lemma sound_branches_cons {condition branch : Expr} {branches : List (Expr × Expr)}
    (hcondition : condition.Sound config) (hbranch : branch.Sound config)
    (hbranches : SoundBranches config branches) :
    SoundBranches config ((condition, branch) :: branches) := by
  intro env result s s' u hp hscope hresult hrun
  rw [inferBranches] at hrun
  obtain ⟨tc, s₁, hc, hrun⟩ := bind_eq_ok.1 hrun
  rw [step_of_ok (equate_run _ _ _ _)] at hrun
  obtain ⟨tb, s₂, hb, hrun⟩ := bind_eq_ok.1 hrun
  have hC := hcondition hp hscope hc
  have hbool : Ty.bool.Simple s₁.next := (Literal.bool true).simple_ty _
  have hr₁ := hC.reaches.equated hbool hC.simple .condition
  have hB := hbranch hr₁.proper (hscope.mono hr₁.toExtends) hb
  have hr₂ := hr₁.trans hB.reaches
  obtain ⟨tr, htr, hflat⟩ := hr₂.flatAt hresult
  rw [step_of_ok (current_run htr), step_of_ok (equate_run _ _ _ _)] at hrun
  have hr₃ := hr₂.equated ((hr₂.proper.live htr).simple hflat) hB.simple .branch
  have hR := hbranches hr₃.proper (hscope.mono hr₃.toExtends) (hr₃.flatAt hresult) hrun
  refine ⟨hr₃.trans hR.reaches, fun {θ τ} hθ hτ => ?_⟩
  -- From the end back to the states after the branch and after the condition.
  obtain ⟨θ₂, hθ₂, hsame₂⟩ := hR.reaches.back hθ
  obtain ⟨hθ₂, hresult₂⟩ := sol_equated.1 hθ₂
  obtain ⟨θ₁, hθ₁, hsame₁⟩ := hB.reaches.back hθ₂
  obtain ⟨hθ₁, hbool₁⟩ := sol_equated.1 hθ₁
  have henv₂ : s'.envAt θ env.values = s₂.envAt θ₂ env.values :=
    envAt_back (s := s₂.equated tr tb .branch) (hscope.mono hr₃.toExtends) hsame₂
  have henv₁ : s₂.envAt θ₂ env.values = s₁.envAt θ₁ env.values :=
    envAt_back (s := s₁.equated .bool tc .condition) (hscope.mono hr₁.toExtends) hsame₁
  have hτ₂ : tb.mono.bind θ₂ = τ := by
    rw [← hresult₂]
    refine bind_mono_of_polyAt htr hflat ?_
    rw [← hτ, hsame₂ _ (hr₃.flatAt hresult).live]
    rfl
  refine .cons ?_ ?_ (hR.typed hθ hτ)
  · rw [henv₂, henv₁]
    have hC' := hC.typed hθ₁
    rwa [← hbool₁] at hC'
  · rw [henv₂, ← hτ₂]
    exact hB.typed hθ₂

lemma sound_guards {branches : List (Expr × Expr)} {otherwise : Expr}
    (hbranches : SoundBranches config branches) (hotherwise : otherwise.Sound config) :
    (Expr.guards branches otherwise).Sound config := by
  intro env s s' t hp hscope hrun
  rw [infer, step_of_ok (fresh_run s), step_of_ok (track_run _ _)] at hrun
  obtain ⟨_, s₁, hbs, hrun⟩ := bind_eq_ok.1 hrun
  obtain ⟨tw, s₂, ho, hrun⟩ := bind_eq_ok.1 hrun
  have hfresh : (Ty.fresh s.next).Simple (s.bump 1).next := Ty.simple_fresh (Nat.lt_succ_self _)
  have hr₀ := ((Reaches.refl hp).bump 1).tracked hfresh.proper
  have hresult : ((s.bump 1).tracked (.fresh s.next)).FlatAt
      ((s.bump 1).newHandle (.fresh s.next)) := ⟨_, term?_newHandle _ _, rfl⟩
  have hdead : ¬ s.Live ((s.bump 1).newHandle (.fresh s.next)) := (s.bump 1).not_live_newHandle _
  have hB := hbranches hr₀.proper (hscope.mono hr₀.toExtends) hresult hbs
  have hr₁ := hr₀.trans hB.reaches
  have hO := hotherwise hr₁.proper (hscope.mono hr₁.toExtends) ho
  have hr₂ := hr₁.trans hO.reaches
  obtain ⟨tr, htr, hflat⟩ := hO.reaches.flatAt (hB.reaches.flatAt hresult)
  have hsimple : tr.Simple s₂.next := (hr₂.proper.live htr).simple hflat
  rw [step_of_ok (current_run htr), step_of_ok (equate_run _ _ _ _),
    step_plain, take_run (s := s₂.equated tr tw .branch) htr, EStateM.Result.ok.injEq] at hrun
  obtain ⟨rfl, rfl⟩ := hrun
  refine ⟨(hr₂.equated hsimple hO.simple .branch).released hdead, hsimple, fun {θ} hθ => ?_⟩
  obtain ⟨hθ, heq⟩ := sol_equated.1 (show (s₂.equated tr tw .branch).Sol θ from hθ)
  obtain ⟨θ₁, hθ₁, hsame⟩ := hO.reaches.back hθ
  rw [envAt_released hscope hdead]
  refine .guards ?_ ?_
  · show HasBranches config (s₂.envAt θ env.values) _ _
    rw [envAt_back (hscope.mono hr₁.toExtends) hsame]
    refine hB.typed hθ₁ ?_
    rw [← hsame _ (hB.reaches.flatAt hresult).live, polyAt_of_isFlat htr hflat]
  · rw [heq]
    exact hO.typed hθ

/-! ### Patterns and matches -/

/-- The scrutinee fits the pattern, and what the pattern captures is brought into scope. -/
structure BindsPattern (config : Config) (scrutinee : Handle) (scope : Scope Handle)
    (pattern : Pattern) (s : Inference) (scope' : Scope Handle) (s' : Inference) : Prop where
  reaches : s.Reaches s'
  inScope : Scoped config s' scope'
  new : ∀ h ∈ scope'.innermost.values,
    h = scrutinee ∨ h ∈ scope.innermost.values ∨ ¬ s.Live h
  typed {θ : String → Mono} {σ : Mono} : s'.Sol θ → s'.polyAt θ scrutinee = .ofMono σ →
    HasPattern config (s'.envAt θ scope) pattern σ (s'.envAt θ scope')

/-- What a pattern captures in a new scope is new, the scrutinee apart. -/
lemma BindsPattern.dead {scrutinee : Handle} {values scope : Scope Handle} {pattern : Pattern}
    {s s' : Inference} (hP : BindsPattern config scrutinee values.child pattern s scope s') :
    ∀ h ∈ scope.innermost.values.filter (· ≠ scrutinee), ¬ s.Live h := by
  intro h hh
  obtain ⟨hh, hne⟩ := List.mem_filter.1 hh
  rcases hP.new h hh with rfl | hh | hdead
  · simp at hne
  · cases hh
  · exact hdead

lemma constructorInstance_eq_ok {scope : Scope Handle} {name : String} {s s' : Inference} {t : Ty}
    (hp : s.Proper) (hscope : Scoped config s scope)
    (hrun : constructorInstance scope name s = .ok t s') :
    ∃ h u, scope.lookup name = some h ∧ s.term? h = some u ∧ s' = s.bump u.boundCount ∧
      t.Simple s'.next ∧ ∀ θ, (s.polyAt θ h).Instance (t.mono.bind θ) := by
  rw [constructorInstance] at hrun
  cases hlookup : scope.lookup name with
  | none =>
    rw [hlookup] at hrun
    cases hrun
  | some h =>
    obtain ⟨u, hu⟩ := hscope.live (Scope.mem_of_lookup hlookup)
    rw [hlookup] at hrun
    dsimp only at hrun
    rw [bind_of_ok (current_run hu), instantiate_run, EStateM.Result.ok.injEq] at hrun
    obtain ⟨rfl, rfl⟩ := hrun
    refine ⟨h, u, rfl, hu, rfl, (hp.live hu).simple_instanceAt, fun θ => ?_⟩
    rw [polyAt_eq hu]
    exact (hp.live hu).instance_instanceAt _ θ

lemma bindPattern_capture (name : String) {scrutinee : Handle} {scope scope' : Scope Handle}
    {s s' : Inference} (hp : s.Proper) (hscope : Scoped config s scope)
    (hscrutinee : s.FlatAt scrutinee)
    (hrun : bindPattern config scrutinee scope (.capture name) s = .ok scope' s') :
    BindsPattern config scrutinee scope (.capture name) s scope' s' := by
  rw [bindPattern] at hrun
  obtain ⟨rfl, rfl⟩ := pure_eq_ok.1 hrun
  refine ⟨.refl hp, hscope.bind name hscrutinee.live, fun h hh => ?_, fun {θ σ} _ hσ => ?_⟩
  · obtain ⟨e, he, rfl⟩ := List.mem_map.1 hh
    rcases Config.mem_innermost_bind he with ⟨rfl, _⟩ | he
    · exact Or.inl rfl
    · exact Or.inr (Or.inl (List.mem_map_of_mem he))
  · rw [envAt, envAt, Config.map_bind, hσ]
    exact .capture name σ

lemma bindPattern_literal (value : Literal) {scrutinee : Handle} {scope scope' : Scope Handle}
    {s s' : Inference} (hp : s.Proper) (hscope : Scoped config s scope)
    (hscrutinee : s.FlatAt scrutinee)
    (hrun : bindPattern config scrutinee scope (.literal value) s = .ok scope' s') :
    BindsPattern config scrutinee scope (.literal value) s scope' s' := by
  obtain ⟨t, ht, hflat⟩ := hscrutinee
  rw [bindPattern, step_of_ok (current_run ht), step_of_ok (equate_run _ _ _ _)] at hrun
  obtain ⟨rfl, rfl⟩ := pure_eq_ok.1 hrun
  have hr := (Reaches.refl hp).equated ((hp.live ht).simple hflat) (value.simple_ty _) .literal
  refine ⟨hr, hscope.mono hr.toExtends, fun h hh => Or.inr (Or.inl hh), fun {θ σ} hθ hσ => ?_⟩
  have hval : σ = value.ty.mono := by
    rw [← value.bind_mono_ty θ, ← (sol_equated.1 hθ).2, bind_mono_of_polyAt ht hflat hσ]
  rw [hval]
  exact .literal value

lemma bindPattern_constructor (name : String) {scrutinee : Handle} {scope scope' : Scope Handle}
    {s s' : Inference} (hp : s.Proper) (hscope : Scoped config s scope)
    (hscrutinee : s.FlatAt scrutinee)
    (hrun : bindPattern config scrutinee scope (.constructor name) s = .ok scope' s') :
    BindsPattern config scrutinee scope (.constructor name) s scope' s' := by
  obtain ⟨t, ht, hflat⟩ := hscrutinee
  rw [bindPattern] at hrun
  obtain ⟨found, s₁, hfound, hrun⟩ := bind_eq_ok.1 hrun
  obtain ⟨h, u, hlookup, hu, rfl, hsimple, hinst⟩ := constructorInstance_eq_ok hp hscope hfound
  rw [step_of_ok (current_run (s := s.bump _) ht), step_of_ok (equate_run _ _ _ _)] at hrun
  obtain ⟨rfl, rfl⟩ := pure_eq_ok.1 hrun
  have hr₁ := (Reaches.refl hp).bump u.boundCount
  have hr := hr₁.equated ((hr₁.proper.live ht).simple hflat) hsimple (.constructor name)
  refine ⟨hr, hscope.mono hr.toExtends, fun h hh => Or.inr (Or.inl hh), fun {θ σ} hθ hσ => ?_⟩
  have hval : σ = found.mono.bind θ := by
    rw [← (sol_equated.1 hθ).2, bind_mono_of_polyAt ht hflat hσ]
  rw [hval]
  refine .constructor (p := s.polyAt θ h) ?_ (hinst θ)
  rw [envAt, Scope.lookup_map, hlookup]
  rfl

lemma bindPattern_data (name : String) (captures : List String) {scrutinee : Handle}
    {scope scope' : Scope Handle} {s s' : Inference} (hp : s.Proper)
    (hscope : Scoped config s scope) (hscrutinee : s.FlatAt scrutinee)
    (hrun : bindPattern config scrutinee scope (.data name captures) s = .ok scope' s') :
    BindsPattern config scrutinee scope (.data name captures) s scope' s' := by
  obtain ⟨t, ht, hflat⟩ := hscrutinee
  rw [bindPattern] at hrun
  obtain ⟨found, s₁, hfound, hrun⟩ := bind_eq_ok.1 hrun
  obtain ⟨h, u, hlookup, hu, rfl, hsimple, hinst⟩ := constructorInstance_eq_ok hp hscope hfound
  split at hrun
  · cases hrun
  · beta_reduce at hrun
    rw [step_of_ok (freshList_run _ _), step_of_ok (current_run (s := (s.bump _).bump _) ht),
      step_of_ok (equate_run _ _ _ _)] at hrun
    have hr₁ := ((Reaches.refl hp).bump u.boundCount).bump captures.length
    have hfields : ∀ f ∈ (List.range' (s.bump u.boundCount).next captures.length).map Ty.fresh,
        f.Simple ((s.bump u.boundCount).bump captures.length).next := by
      intro f hf
      obtain ⟨k, hk, rfl⟩ := List.mem_map.1 hf
      exact Ty.simple_fresh (List.mem_range'_1.1 hk).2
    have hlen : ((List.range' (s.bump u.boundCount).next captures.length).map Ty.fresh).length =
        captures.length := by simp
    generalize (List.range' (s.bump u.boundCount).next captures.length).map Ty.fresh = fields
      at hrun hfields hlen
    have hr := hr₁.equated (Ty.simple_function hfields ((hr₁.proper.live ht).simple hflat))
      (hsimple.mono_le (Nat.le_add_right _ _)) (.constructor name)
    obtain ⟨scope₂, s₂, hrun₂, hquiet, hp₂, hscope₂, _, hnew, henv⟩ := bindCaptures_run hr.proper
      (hscope.mono hr.toExtends) fun c hc => hfields c.2 (List.of_mem_zip hc).2
    rw [hrun₂, EStateM.Result.ok.injEq] at hrun
    obtain ⟨rfl, rfl⟩ := hrun
    refine ⟨⟨hr.toExtends.trans hquiet.toExtends, hp₂⟩, hscope₂, fun h hh => ?_,
      fun {θ σ} hθ hσ => ?_⟩
    · exact Or.inr ((hnew h hh).imp_right fun hdead hlive => hdead (hr.live hlive))
    · have hθ₁ := sol_equated.1 (hquiet.sol_iff.1 hθ)
      have hσ₁ : t.mono.bind θ = σ := by
        refine bind_mono_of_polyAt (s := s) ht hflat ?_
        rw [← hσ, hquiet.polyAt_eq (hr.live ⟨t, ht⟩)]
        rfl
      rw [henv, hquiet.envAt_eq (hscope.mono hr.toExtends)]
      have hzip : (captures.zip fields).map (fun c => (c.1, c.2.mono.bind θ)) =
          captures.zip (fields.map fun f => f.mono.bind θ) := by
        rw [List.zip_map_right]
        rfl
      rw [hzip]
      refine .data (p := s.polyAt θ h) ?_ (by rw [List.length_map, hlen]) ?_
      · show (s.envAt θ scope).lookup name = _
        rw [envAt, Scope.lookup_map, hlookup]
        rfl
      · have hfound := hinst θ
        rw [← hθ₁.2, Ty.mono_function, Mono.bind_function, List.map_map, hσ₁] at hfound
        exact hfound

lemma bindPattern_eq_ok {pattern : Pattern} {scrutinee : Handle} {scope scope' : Scope Handle}
    {s s' : Inference} (hp : s.Proper) (hscope : Scoped config s scope)
    (hscrutinee : s.FlatAt scrutinee)
    (hrun : bindPattern config scrutinee scope pattern s = .ok scope' s') :
    BindsPattern config scrutinee scope pattern s scope' s' := by
  cases pattern with
  | capture name => exact bindPattern_capture name hp hscope hscrutinee hrun
  | literal value => exact bindPattern_literal value hp hscope hscrutinee hrun
  | constructor name => exact bindPattern_constructor name hp hscope hscrutinee hrun
  | data name captures => exact bindPattern_data name captures hp hscope hscrutinee hrun

lemma sound_arms_nil : SoundArms config [] := by
  intro env scrutinee result s s' u hp hscope hscrutinee hresult hrun
  rw [inferArms] at hrun
  obtain ⟨rfl, rfl⟩ := pure_eq_ok.1 hrun
  exact ⟨.refl hp, fun _ _ _ => .nil _ _ _⟩

lemma sound_arms_cons {pattern : Pattern} {body : Expr} {arms : List (Pattern × Expr)}
    (hbody : body.Sound config) (harms : SoundArms config arms) :
    SoundArms config ((pattern, body) :: arms) := by
  intro env scrutinee result s s' u hp hscope hscrutinee hresult hrun
  rw [inferArms] at hrun
  obtain ⟨scope, s₁, hpattern, hrun⟩ := bind_eq_ok.1 hrun
  obtain ⟨tb, s₂, hb, hrun⟩ := bind_eq_ok.1 hrun
  have hP := bindPattern_eq_ok hp hscope.child hscrutinee hpattern
  have hB := hbody hP.reaches.proper hP.inScope hb
  have hr₂ := hP.reaches.trans hB.reaches
  obtain ⟨tr, htr, hflat⟩ := hr₂.flatAt hresult
  rw [step_of_ok (current_run htr), step_of_ok (equate_run _ _ _ _),
    bind_of_ok (releaseAll_run _ _)] at hrun
  have hr₃ := hr₂.equated ((hr₂.proper.live htr).simple hflat) hB.simple .branch
  have hdead := hP.dead
  have hr₄ := hr₃.releasedAll hdead
  have hR := harms hr₄.proper (hscope.mono hr₄.toExtends) (hr₄.flatAt hscrutinee)
    (hr₄.flatAt hresult) hrun
  refine ⟨hr₄.trans hR.reaches, fun {θ σ τ} hθ hσ hτ => ?_⟩
  -- From the end back to the states after the body and after the pattern.
  obtain ⟨θ₂, hθ₂, hsame₂⟩ := hR.reaches.back hθ
  obtain ⟨hθ₂, hresult₂⟩ := sol_equated.1 (sol_releasedAll.1 hθ₂)
  obtain ⟨θ₁, hθ₁, hsame₁⟩ := hB.reaches.back hθ₂
  have hkeep : ∀ h, s.Live h → s'.polyAt θ h = s₂.polyAt θ₂ h := fun h hlive => by
    rw [hsame₂ h (hr₄.live hlive), polyAt_releasedAll fun hmem => hdead h hmem hlive]
    rfl
  have henv₂ : s'.envAt θ env.values = s₂.envAt θ₂ env.values :=
    envAt_congr fun h hh => hkeep h (hscope.live hh)
  have henv₁ : s₂.envAt θ₂ env.values = s₁.envAt θ₁ env.values :=
    envAt_back (hscope.mono hP.reaches.toExtends) hsame₁
  have hσ₁ : s₁.polyAt θ₁ scrutinee = .ofMono σ := by
    rw [← hsame₁ _ (hP.reaches.live hscrutinee.live), ← hkeep _ hscrutinee.live, hσ]
  have hτ₂ : tb.mono.bind θ₂ = τ := by
    rw [← hresult₂]
    exact bind_mono_of_polyAt htr hflat ((hkeep _ hresult.live).symm.trans hτ)
  have hpattern : HasPattern config (s'.envAt θ env.values).child pattern σ (s₁.envAt θ₁ scope) := by
    rw [henv₂, henv₁]
    exact hP.typed hθ₁ hσ₁
  refine .cons hpattern ?_ (hR.typed hθ hσ hτ)
  rw [← hτ₂, ← envAt_back hP.inScope hsame₁]
  exact hB.typed hθ₂

lemma sound_cases {scrutinee : Expr} {arms : List (Pattern × Expr)}
    (hscrutinee : scrutinee.Sound config) (harms : SoundArms config arms) :
    (Expr.cases scrutinee arms).Sound config := by
  intro env s s' t hp hscope hrun
  rw [infer] at hrun
  obtain ⟨ts, s₁, hs, hrun⟩ := bind_eq_ok.1 hrun
  rw [step_of_ok (track_run _ _), step_of_ok (fresh_run _), step_of_ok (track_run _ _)] at hrun
  obtain ⟨_, s₂, ha, hrun⟩ := bind_eq_ok.1 hrun
  have hS := hscrutinee hp hscope hs
  have hr₁ := (hS.reaches.tracked hS.simple.proper).bump 1
  have hfresh : (Ty.fresh (s₁.tracked ts).next).Simple ((s₁.tracked ts).bump 1).next :=
    Ty.simple_fresh (Nat.lt_succ_self _)
  have hr₂ := hr₁.tracked hfresh.proper
  have hquiet : s₁.Quiet (((s₁.tracked ts).bump 1).tracked (.fresh (s₁.tracked ts).next)) :=
    (Quiet.tracked s₁ ts).trans ((Quiet.bump _ 1).trans (Quiet.tracked _ _))
  -- The handles of the scrutinee and of the result are new and differ.
  have hscr : (((s₁.tracked ts).bump 1).tracked (.fresh (s₁.tracked ts).next)).term?
      (s₁.newHandle ts) = some ts :=
    (term?_tracked_of_live ⟨ts, s₁.term?_newHandle ts⟩ _).trans (s₁.term?_newHandle ts)
  have hres := ((s₁.tracked ts).bump 1).term?_newHandle (.fresh (s₁.tracked ts).next)
  have hnew₁ : ¬ s.Live (s₁.newHandle ts) :=
    fun h => s₁.not_live_newHandle ts (hS.reaches.live h)
  have hnew₂ : ¬ s.Live (((s₁.tracked ts).bump 1).newHandle (.fresh (s₁.tracked ts).next)) :=
    fun h => not_live_newHandle _ _ (hr₁.live h)
  have hne : ((s₁.tracked ts).bump 1).newHandle (.fresh (s₁.tracked ts).next) ≠
      s₁.newHandle ts := by
    intro heq
    refine ((s₁.tracked ts).bump 1).not_live_newHandle (.fresh (s₁.tracked ts).next) ?_
    rw [heq]
    exact ⟨ts, s₁.term?_newHandle ts⟩
  have hA := harms hr₂.proper (hscope.mono hr₂.toExtends) ⟨ts, hscr, hS.simple.1⟩
    ⟨_, hres, rfl⟩ ha
  have hr₃ := hr₂.trans hA.reaches
  obtain ⟨tr, htr, hflat, _⟩ := hA.reaches.keep hres
  rw [step_of_ok (release_run _ _), step_plain, take_run ((term?_released_of_ne hne).trans htr),
    EStateM.Result.ok.injEq] at hrun
  obtain ⟨rfl, rfl⟩ := hrun
  refine ⟨(hr₃.released hnew₁).released hnew₂, (hr₃.proper.live htr).simple (hflat rfl),
    fun {θ} hθ => ?_⟩
  obtain ⟨θ₁, hθ₁, hsame⟩ := hA.reaches.back (show s₂.Sol θ from hθ)
  rw [envAt_released hscope hnew₂, envAt_released hscope hnew₁]
  refine .cases (σ := ts.mono.bind θ₁) ?_ ?_
  · rw [envAt_back (hscope.mono hr₂.toExtends) hsame,
      hquiet.envAt_eq (hscope.mono hS.reaches.toExtends)]
    exact hS.typed (hquiet.sol_iff.1 hθ₁)
  · refine hA.typed hθ ?_ (polyAt_of_isFlat htr (hflat rfl) θ)
    rw [hsame _ ⟨ts, hscr⟩, polyAt_of_isFlat hscr hS.simple.1]

end Expr

end LetPoly
