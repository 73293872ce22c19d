import LetPoly.Proofs.Typing.Complete
import LetPoly.Proofs.Typing.SoundDecls

/-!
# Completeness of declarations

Values that are derivable are brought into scope, each with a type that is at least as general as
the derived one: what its type is not quantified over is free in the environment. With an
ascription, the rigid variables stand for the names that the derivation puts for the quantified
ones; these are not free in the environment, so no rigid variable escapes.
-/

namespace LetPoly

open Inference Session

variable {config : Config}

/-- What is free beside a name stands for types that have no other free variables than the
environment. -/
lemma Ready.free_of_freeBeside {o : Outline} {env : Env} {Γ : Scope Poly} {s : Inference}
    {θ : String → Mono} (hready : Ready config o env Γ s θ) {name x y : String}
    (hx : s.FreeBeside env.values name x) (hy : y ∈ (θ x).vars) (p : Poly) :
    (config.bind name p Γ).Free y := by
  obtain ⟨h, hh, t, ht, hfree⟩ := hx
  obtain ⟨q, hq, hbelow⟩ := hready.below.exists_others hh
  refine ⟨q, Scope.others_subset _ name ?_, hbelow.free ?_⟩
  · rwa [Config.others_bind]
  · rw [polyAt_eq ht]
    exact Poly.free_subst.2 ⟨x, hfree, hy⟩

/-- A value is brought into scope with a type at least as general as any that is derivable. -/
lemma complete_bindValue_infer {value : Expr} (hvalue : value.Complete config) {name : String}
    {o : Outline} {env : Env} {Γ : Scope Poly} {s : Inference} {θ : String → Mono} {τ : Mono}
    (hready : Ready config o env Γ s θ)
    (hadmissible : value.isAdmissible config (o.hide config [name]))
    (htyped : HasType config (config.bind name (.ofMono τ) Γ) value τ) :
    ∃ h s' θ', bindValueWith config name none (fun env => value.infer config env) ⟨s, env⟩ =
        .ok () ⟨s', env.bindValue config name h⟩ ∧ s.Advances θ s' θ' ∧ s'.Live h ∧ s'.SoftAt h ∧
      ∀ names, (∀ x ∈ names, ¬ (config.bind name (.close names τ) Γ).Free x) →
        (Poly.close names τ).Below (s'.polyAt θ' h) := by
  obtain ⟨θ₀, ha₀, hholds⟩ := Expr.result_holds hready.start τ
  obtain ⟨found, s₁, θ₁, hV⟩ :=
    hvalue ((hready.advance ha₀).bindMono name hholds) hadmissible htyped
  have hdead : ¬ s.Live ((s.bump 1).newHandle (.fresh s.next)) := (s.bump 1).not_live_newHandle _
  obtain ⟨t, ht, hsimple, hsoft, htype⟩ := hV.holds hholds
  obtain ⟨hok, ha₁⟩ := (hV.toAdvances.equated hsimple hV.simple hsoft hV.soft
    (htype.trans hV.type.symm) (.binding name)).settled
  have ha := ha₀.trans ha₁
  obtain ⟨t', names', g, ht', _, _, hnames, hproper, hpoly, hrun⟩ := settleTy_infer_run
    (ha₀.trans hV.toAdvances).proper (hready.inScope.mono (ha₀.trans hV.toAdvances).toExtends) ht
    hsimple.1 hV.simple hok
  obtain ⟨t'', ht'', hsimple', hsoft', htype'⟩ := ha₁.holds hholds
  rw [ht'] at ht''
  cases ht''
  have hnew := (term?_replaced ht' g _).trans (if_pos rfl)
  refine ⟨_, _, θ₁, bindValueWith_infer_eq_ok.2 ⟨found, s₁, _, hV.run, hrun, rfl⟩,
    ha.replaced ht' hproper hdead, ⟨g, hnew⟩, fun u hu => ?_, fun names hfree => ?_⟩
  · rw [hnew] at hu
    cases hu
    intro x hx
    rw [hpoly, Poly.free_close] at hx
    exact (Ty.soft_iff hsimple'.1).1 hsoft' x hx.1
  · rw [polyAt_eq hnew, hpoly, ← htype']
    refine Poly.close_below fun x hx hmem y hy hy' => ?_
    have hbeside := not_not.1 fun hbeside => hmem ((hnames x).2 ⟨hx, hbeside⟩)
    exact hfree y hy' ((hready.advance ha).free_of_freeBeside hbeside hy _)

/-! ### Values with an ascription -/

/-- The type found for a value and the type that its ascription demands of it, with rigid variables
for what the ascription quantifies over. -/
structure Demands (s : Inference) (p : Poly) (vars : List String) (demanded found : Ty) : Prop where
  closed : p.Closed
  bound {i : Nat} : .inl i ∈ p.vars → i < vars.length
  simpleDemanded : demanded.Simple (s.bump vars.length).next
  mono : demanded.mono = p.instNames (skolemNames s.next vars)
  simpleFound : found.Simple s.next
  softFound : found.Soft

namespace Demands

variable {s₀ s : Inference} {p : Poly} {vars names : List String} {demanded found : Ty}
  {origin : TypeOrigin} {θ₀ θ : String → Mono}

lemma reaches (hd : Demands s p vars demanded found) (hr : s₀.Reaches s) :
    s₀.Reaches ((s.bump vars.length).equated demanded found origin) :=
  (hr.bump vars.length).equated hd.simpleDemanded (hd.simpleFound.mono_le (Nat.le_add_right _ _)) origin

/-- All rigid variables of the equations are those of the ascription. -/
lemma mem_skolemNames (hd : Demands s p vars demanded found) (hp : s.Proper) (hsoft : s.SoftQueue)
    {v : TyVar} (hv : ∃ e ∈ ((s.bump vars.length).equated demanded found origin).unifier.queue,
      v ∈ e.treeVars) (hrigid : v.sort = .rigid) : v.name ∈ skolemNames s.next vars := by
  obtain ⟨e, he, hv⟩ := hv
  rcases List.mem_append.1 he with he | he
  · rw [hsoft.sort hp he hv] at hrigid
    cases hrigid
  · obtain rfl := List.mem_singleton.1 he
    rcases Equation.mem_treeVars.1 hv with hv | hv
    · have hmem : v.name ∈ demanded.mono.vars := Ty.mem_vars_mono.2 ⟨v, hv, rfl⟩
      rw [hd.mono] at hmem
      exact Poly.mem_of_vars_instNames hd.closed
        (fun i hi => (length_skolemNames _ _).symm ▸ hd.bound hi) hmem
    · rw [hd.simpleFound.sort_of_soft hd.softFound hv] at hrigid
      cases hrigid

lemma agreeBelow (n : Nat) (vars names : List String) (θ : String → Mono) :
    AgreeBelow n θ (renamed (skolemNames n vars) names θ) := by
  intro v hv
  refine renamed_of_not_mem fun hmem => ?_
  obtain ⟨x, k, hk, hle, _⟩ := LetPoly.Inference.mem_skolemNames hmem
  have := hv.lt_of_skolem hk
  omega

/-- The equations have the solution that puts the names of a derivation for the rigid variables. -/
lemma sol (hd : Demands s p vars demanded found) (ha : s₀.Advances θ₀ s θ)
    (hlen : names.length = vars.length) (htype : found.mono.bind θ = p.instNames names) :
    ((s.bump vars.length).equated demanded found origin).Sol
      (renamed (skolemNames s.next vars) names θ) := by
  have hagree := agreeBelow s.next vars names θ
  refine sol_equated.2 ⟨ha.proper.sol_of_agree hagree ha.sol, ?_⟩
  rw [hd.simpleFound.bind_congr hagree, htype, hd.mono]
  refine Poly.bind_instNames hd.closed ((length_skolemNames _ _).trans hlen.symm)
    (fun i hi => (length_skolemNames _ _).symm ▸ hd.bound hi) fun x y => ?_
  exact renamed_of_mem_zip (nodup_skolemNames _ _)

lemma solvable (hd : Demands s p vars demanded found) (ha : s₀.Advances θ₀ s θ)
    (hnodup : names.Nodup) (hlen : names.length = vars.length)
    (htype : found.mono.bind θ = p.instNames names) :
    ((s.bump vars.length).equated demanded found origin).Solvable := by
  have hlen' : names.length = (skolemNames s.next vars).length :=
    hlen.trans (length_skolemNames _ _).symm
  refine (hd.reaches ha.toReaches).proper.solvable (hd.sol ha hlen htype)
    (fun e he v hv hrigid => ?_) fun v w hrv hrw hv hw heq => ?_
  · obtain ⟨y, _, hy⟩ :=
      exists_renamed hlen' θ (hd.mem_skolemNames ha.proper ha.softQueue ⟨e, he, hv⟩ hrigid)
    exact ⟨y, hy⟩
  · have hname := renamed_injective hlen' hnodup
      (hd.mem_skolemNames ha.proper ha.softQueue hv hrv)
      (hd.mem_skolemNames ha.proper ha.softQueue hw hrw) heq
    obtain ⟨_, _⟩ := v
    obtain ⟨_, _⟩ := w
    cases hrv
    cases hrw
    cases hname
    rfl

/-- Under that solution the handles of the start stand for what they stood for. -/
lemma keeps (hd : Demands s p vars demanded found) (ha : s₀.Advances θ₀ s θ)
    (hlen : names.length = vars.length) (htype : found.mono.bind θ = p.instNames names) {h : Handle}
    (hlive : s₀.Live h) :
    ((s.bump vars.length).equated demanded found origin).settled.polyAt
      (renamed (skolemNames s.next vars) names θ) h = s₀.polyAt θ₀ h := by
  have hproper : ((s.bump vars.length).equated demanded found origin).Proper :=
    (hd.reaches ha.toReaches).proper
  rw [hproper.polyAt_settled, funext (hproper.absorbed (hd.sol ha hlen htype)), ← ha.keeps hlive]
  exact ha.proper.polyAt_of_agree (agreeBelow _ _ _ _) h

end Demands

/-- The substitution that puts a constant for the names of a list. -/
def forget (names : List String) (x : String) : Mono :=
  if x ∈ names then .leaf .quantified else .var x

lemma not_mem_vars_forget {names : List String} {x : String} (hx : x ∈ names) (τ : Mono) :
    x ∉ (τ.bind (forget names)).vars := by
  intro hmem
  obtain ⟨y, _, hy⟩ := Tree.mem_vars_bind.1 hmem
  rw [forget] at hy
  split at hy
  · cases hy
  · obtain rfl := List.mem_singleton.1 hy
    contradiction

/-- Once a name is bound, whatever is not free in the environment may be changed in a solution. -/
lemma Ready.bind_subst {o : Outline} {env : Env} {Γ : Scope Poly} {s : Inference}
    {θ η : String → Mono} (hready : Ready config o env Γ s θ) {name : String} {h : Handle} {p : Poly}
    (hlive : s.Live h) (hsoft : s.SoftAt h) (hp : p.Below (s.polyAt (fun x => (θ x).bind η) h))
    (hη : ∀ x, (config.bind name p Γ).Free x → η x = .var x) :
    Ready config (o.hide config [name]) (env.bindValue config name h) (config.bind name p Γ) s
      fun x => (θ x).bind η := by
  have hothers : ∀ h' ∈ env.values.others name,
      s.polyAt (fun x => (θ x).bind η) h' = s.polyAt θ h' := by
    intro h' hh'
    obtain ⟨t, ht⟩ := hready.inScope.live (env.values.others_subset name hh')
    rw [polyAt_eq ht, polyAt_eq ht]
    refine Poly.subst_congr fun x hx => ?_
    rw [Tree.bind_congr fun y hy => hη y (hready.free_of_freeBeside ⟨h', hh', t, ht, hx⟩ hy p),
      Tree.bind_self]
  refine ⟨hready.proper, fun e he => ?_, hready.softQueue, hready.inScope.bind name hlive,
    fun hh => ?_, ?_, hready.fits.bind config name fun n hn => (by cases hn), hready.kinds⟩
  · rw [← Tree.bind_bind, ← Tree.bind_bind, hready.sol e he]
  · rcases Config.mem_values_bind hh with rfl | hh
    · exact hsoft
    · exact hready.soft hh
  · rw [Env.bindValue, Config.bind, Config.bind]
    by_cases hignored : config.isIgnored name
    · rw [if_pos hignored, if_pos hignored]
      refine hready.below.imp fun q h' hh' hq => ?_
      rcases hready.inScope.mem_others_or_closedAt hignored hh' with hh' | ⟨t, ht, hclosed⟩
      · rwa [hothers h' hh']
      · rw [polyAt_eq ht, hclosed.subst] at hq ⊢
        exact hq
    · rw [if_neg hignored, if_neg hignored]
      refine hready.below.insert_of hp fun q h' hh' hq => ?_
      rwa [hothers h' hh']

/-- Soft types stay soft if the names of the derivation occur in nothing that they stand for. -/
lemma Demands.keepsSoft {s₀ s : Inference} {p : Poly} {vars names : List String}
    {demanded found : Ty} {origin : TypeOrigin} {θ₀ θ : String → Mono}
    (hd : Demands s p vars demanded found) (ha : s₀.Advances θ₀ s θ)
    (hlen : names.length = vars.length) (htype : found.mono.bind θ = p.instNames names) {h : Handle}
    (hlive : s₀.Live h) (hsoft : s₀.SoftAt h) (hnames : ∀ x ∈ names, ¬ (s₀.polyAt θ₀ h).Free x) :
    ((s.bump vars.length).equated demanded found origin).settled.SoftAt h := by
  have hproper : ((s.bump vars.length).equated demanded found origin).Proper :=
    (hd.reaches ha.toReaches).proper
  obtain ⟨t, ht⟩ := ha.live hlive
  obtain ⟨t', ht', _, hpoly, _⟩ := hproper.term?_settled (h := h) ht
  intro u hu x hx
  rw [ht'] at hu
  cases hu
  have hx' := hx
  rw [hpoly, Poly.free_subst] at hx'
  obtain ⟨y, hy, hxy⟩ := hx'
  rcases hproper.mem_vars_solution hxy with rfl | ⟨e, he, v, hv, rfl⟩
  · exact ha.keepsSoft hlive hsoft t ht x hy
  · obtain ⟨name, sort⟩ := v
    have hissued := hproper.treeVars e he _ hv
    cases sort with
    | solvable =>
      obtain ⟨k, _, hk⟩ := hissued
      exact ⟨k, hk⟩
    | rigid =>
      -- A rigid variable stands for a name of the derivation.
      have hmem := hd.mem_skolemNames ha.proper ha.softQueue ⟨e, he, hv⟩ rfl
      obtain ⟨z, hz, heq⟩ := exists_renamed (hlen.trans (length_skolemNames s.next vars).symm) θ hmem
      refine absurd ?_ (hnames z hz)
      rw [← hd.keeps ha hlen htype hlive, polyAt_eq ht', Poly.free_subst]
      exact ⟨name, hx, heq ▸ List.mem_singleton_self z⟩

lemma Ty.isSignature_iff {kinds : Scope Kind} {t : Ty} : t.isSignature kinds ↔
    (∃ found, (checkAscription kinds t).2 = .ok found) ∧ ∃ q, t.quantify = .ok q := by
  have hok {ε α : Type} {x : Except ε α} : x.isOk ↔ ∃ a, x = .ok a := by
    cases x with
    | error e => simp [Except.isOk, Except.toBool]
    | ok a => simp [Except.isOk, Except.toBool]
  rw [isSignature, hasKind, Bool.and_eq_true, hok, hok]

/-- A value that has its ascribed type is brought into scope with it. -/
lemma complete_bindValue_check {value : Expr} (hvalue : value.Complete config) {name : String}
    {t : Ty} (hprenex : t.isPrenex) {o : Outline} {env : Env} {Γ : Scope Poly} {s : Inference}
    {θ : String → Mono} {names : List String} (hready : Ready config o env Γ s θ)
    (hsignature : t.isSignature o.kinds)
    (hadmissible : value.isAdmissible config (o.hide config [name])) (hnodup : names.Nodup)
    (hlen : names.length = t.toScheme.vars.names.length)
    (hfree : ∀ x ∈ names, ¬ (config.bind name t.signature Γ).Free x)
    (htyped : HasType config (config.bind name t.signature Γ) value
      (t.signature.instNames names)) :
    ∃ h s' θ', bindValueWith config name (some t) (fun env => value.infer config env) ⟨s, env⟩ =
        .ok () ⟨s', env.bindValue config name h⟩ ∧ s.Advances θ s' θ' ∧ s'.Live h ∧ s'.SoftAt h ∧
      s'.polyAt θ' h = t.signature := by
  rw [hready.kinds] at hsignature
  obtain ⟨⟨kinds, hkinds⟩, q₀, hq₀⟩ := Ty.isSignature_iff.1 hsignature
  obtain ⟨q, hq⟩ := Ty.quantify_fill hprenex hq₀ kinds
  have hprenex' : (t.fill kinds).1.isPrenex := (Ty.isPrenex_fill t kinds).trans hprenex
  obtain ⟨hqprenex, hqpoly, hclosed, _⟩ := Ty.quantify_eq_ok hprenex' hq
  rw [Ty.signature_fill hprenex] at hqpoly hclosed
  have hqclosed : q.poly.Closed := hqpoly ▸ hclosed
  have ha₀ := (hready.start.noted kinds).tracked (Ty.proper_of_closed hqprenex hqclosed _)
  have hready₀ := hready.advance ha₀
  have hterm := (s.noted kinds).term?_newHandle q
  have hsoft₀ : ((s.noted kinds).tracked q).SoftAt ((s.noted kinds).newHandle q) := by
    intro u hu
    rw [hterm] at hu
    cases hu
    exact Ty.soft_of_closed hqclosed
  -- The value is inferred along the given solution, and along one that forgets the names.
  have hrun {η : String → Mono} (hη : ∀ x, (config.bind name t.signature Γ).Free x → η x = .var x) :
      ∃ found s₁ θ₁, Succeeds config (env.bindValue config name ((s.noted kinds).newHandle q)) value
        ((s.noted kinds).tracked q) (fun x => (θ x).bind η) (t.signature.instNames names)
        found s₁ θ₁ := by
    refine hvalue (hready₀.bind_subst ⟨q, hterm⟩ hsoft₀ ?_ hη) hadmissible htyped
    rw [polyAt_eq hterm, hqclosed.subst, hqpoly]
    exact .refl _
  obtain ⟨found, s₁, θ₁, hV⟩ := hrun (η := .var) fun _ _ => rfl
  obtain ⟨found', s₁', θ₁', hV'⟩ := hrun (η := forget names) fun x hx =>
    if_neg fun hmem => hfree x hmem hx
  have heq := hV.run.symm.trans hV'.run
  cases heq
  rw [show (fun x => (θ x).bind .var) = θ from funext fun x => Tree.bind_self _] at hV
  obtain ⟨q', hq', hflat, hpoly⟩ := hV.keep hterm
  obtain ⟨d, hsimple, hmono, hiff⟩ := settleTy_check_eq_ok hprenex' hq hV.proper
    (hready₀.inScope.mono hV.toExtends) hq' (hpoly hqclosed) hflat hV.simple name
  rw [Ty.signature_fill hprenex] at hmono
  rw [Ty.toScheme_vars_fill hprenex] at hsimple hmono hiff
  have hd : Demands s₁ t.signature t.toScheme.vars.names d found :=
    ⟨hclosed, Poly.lt_of_bound_close, hsimple, hmono, hV.simple, hV.soft⟩
  have hok : ((s₁.bump t.toScheme.vars.names.length).equated d found (.binding name)).Solvable :=
    hd.solvable hV.toAdvances hnodup hlen hV.type
  have ha : ((s.noted kinds).tracked q).Advances θ
      ((s₁.bump t.toScheme.vars.names.length).equated d found (.binding name)).settled
      (renamed (skolemNames s₁.next t.toScheme.vars.names) names θ₁) := by
    refine ⟨(hd.reaches hV.toReaches).settled hok, fun e he => (by cases he),
      fun e he => (by cases he), hd.keeps hV.toAdvances hlen hV.type, fun {h} hlive hsoft =>
        hd.keepsSoft hV'.toAdvances hlen hV'.type hlive hsoft fun x hx hfree' => ?_⟩
    obtain ⟨u, hu⟩ := hlive
    rw [polyAt_eq hu, Poly.free_subst] at hfree'
    obtain ⟨y, _, hy⟩ := hfree'
    exact not_mem_vars_forget hx _ hy
  refine ⟨_, _, _, bindValueWith_check_eq_ok.2 ⟨kinds, q, hkinds, hq, found, s₁, _, hV.run,
    (hiff _ _).2 ⟨hok, fun x hx hbeside => ?_, rfl⟩, rfl⟩, ha₀.trans ha, ha.live ⟨q, hterm⟩,
    ha.keepsSoft ⟨q, hterm⟩ hsoft₀, ?_⟩
  · -- The rigid variable stands for a name that is not free in the environment.
    obtain ⟨y, hy, heq⟩ := exists_renamed (hlen.trans (length_skolemNames _ _).symm) θ₁ hx
    refine hfree y hy ((hready₀.advance ha).free_of_freeBeside hbeside ?_ _)
    exact heq ▸ List.mem_singleton_self y
  · rw [ha.keeps ⟨q, hterm⟩, polyAt_eq hterm, hqclosed.subst, hqpoly]

/-! ### Lists of declarations -/

lemma Ready.child {o : Outline} {env : Env} {Γ : Scope Poly} {s : Inference} {θ : String → Mono}
    (h : Ready config o env Γ s θ) : Ready config o.child env.child Γ.child s θ :=
  ⟨h.proper, h.sol, h.softQueue, h.inScope.child, fun hh => h.soft hh, h.below.child, h.fits.child,
    congrArg Scope.child h.kinds⟩

/-- Datatypes that have kinds are brought into scope. -/
lemma Ready.declareDatatypes {group : List Datatype} (hrank : ∀ d ∈ group, d.isRankOne)
    {o : Outline} {env : Env} {Γ : Scope Poly} {s : Inference} {θ : String → Mono}
    (hready : Ready config o env Γ s θ) {found : GroupKinds}
    (hfound : inferGroup o.kinds group = .ok found) :
    ∃ s' env', declareDatatypes group ⟨s, env⟩ = .ok () ⟨s', env'⟩ ∧ s.Advances θ s' θ ∧
      NewSince s env.values env'.values ∧
      Ready config (o.enter group found) env' (enterDatatypes group Γ) s' θ := by
  rw [hready.kinds] at hfound
  obtain ⟨s', values', hrun, hquiet, hproper, hscope, _, hnew, henv⟩ :=
    declareDatatypes_run hrank env hready.proper hready.inScope hfound
  have ha := hready.start.quiet hproper hquiet
  refine ⟨s', _, hrun, ha, hnew, ha.proper, ha.sol, ha.softQueue, hscope, fun {h} hh u hu x hx => ?_,
    ?_, ?_, congrArg (Scope.insertAll · found.declared) hready.kinds⟩
  · -- Constructors are closed, so what is free in scope was so before.
    have hfree : (s'.envAt .var values').Free x := by
      refine ⟨_, Scope.values_map _ values' ▸ List.mem_map_of_mem hh, ?_⟩
      rwa [polyAt_eq hu, Poly.subst_var]
    rw [henv] at hfree
    obtain ⟨q, hq, hfree⟩ := free_enterDatatypes hrank hfree
    rw [envAt, Scope.values_map] at hq
    obtain ⟨h', hh', rfl⟩ := List.mem_map.1 hq
    obtain ⟨u', hu'⟩ := hready.inScope.live hh'
    rw [polyAt_eq hu', Poly.subst_var] at hfree
    exact hready.soft hh' u' hu' x hfree
  · refine (Scope.Rel.map_right (R := Poly.Below)).1 ?_
    rw [show values'.map (s'.polyAt θ) = _ from henv θ, enterDatatypes_eq, enterDatatypes_eq]
    exact (Scope.Rel.map_right.2 hready.below).enterWith fun e _ => .refl _
  · have hbefore := hready.fits.imp fun a h hh ha n hn =>
      (arityAt_iff (hready.inScope.live hh)).1 (ha n hn)
    exact Outline.rel_enter hrank (Scope.Rel.map_right.2 hbefore) (fun h hh => hscope.live hh)
      (henv .var) found

/-- Declarations that are derivable are brought into scope. -/
def Decl.Complete (config : Config) (decls : List Decl) : Prop :=
  ∀ ⦃o : Outline⦄ ⦃env : Env⦄ ⦃Γ Γ' : Scope Poly⦄ ⦃s : Inference⦄ ⦃θ : String → Mono⦄,
    Ready config o env Γ s θ → Decl.areAdmissible config o decls → HasDecls config Γ decls Γ' →
    ∃ env' s' θ', Decl.bindAll config decls ⟨s, env⟩ = .ok () ⟨s', env'⟩ ∧ s.Advances θ s' θ' ∧
      Ready config (o.hide config (Decl.valueNames decls)) env' Γ' s' θ'

namespace Decl

lemma complete_nil : Decl.Complete config [] := by
  intro o env Γ Γ' s θ hready _ htyped
  cases htyped
  exact ⟨env, s, θ, rfl, hready.start, hready⟩

lemma complete_value {name : String} {ascription : Option Ty} {value : Expr} {position : Span}
    {decls : List Decl} (hrank : ∀ t, ascription = some t → t.isPrenex)
    (hvalue : value.Complete config) (hdecls : Decl.Complete config decls) :
    Decl.Complete config (.value name ascription value position :: decls) := by
  intro o env Γ Γ' s θ hready hadmissible htyped
  rw [areAdmissible, Bool.and_eq_true, Bool.and_eq_true] at hadmissible
  obtain ⟨⟨hsignature, hadmissible⟩, hrest⟩ := hadmissible
  cases htyped with
  | infer hτ hnames hΓ' =>
    obtain ⟨h, s₁, θ₁, hrun, ha, hlive, hsoft, hbelow⟩ :=
      complete_bindValue_infer hvalue hready hadmissible hτ
    obtain ⟨env', s', θ', hrun', ha', hready'⟩ :=
      hdecls ((hready.advance ha).bind name hlive hsoft (hbelow _ hnames)) hrest hΓ'
    refine ⟨env', s', θ', ?_, ha.trans ha', hready'⟩
    rw [bindAll, bind_of_ok hrun, hrun']
  | check hnodup hlen hnames hτ hΓ' =>
    obtain ⟨h, s₁, θ₁, hrun, ha, hlive, hsoft, hpoly⟩ := complete_bindValue_check hvalue
      (hrank _ rfl) hready hsignature hadmissible hnodup hlen hnames hτ
    obtain ⟨env', s', θ', hrun', ha', hready'⟩ :=
      hdecls ((hready.advance ha).bind name hlive hsoft (hpoly ▸ .refl _)) hrest hΓ'
    refine ⟨env', s', θ', ?_, ha.trans ha', hready'⟩
    rw [bindAll, bind_of_ok hrun, hrun']

lemma complete_datatype {d : Datatype} {decls : List Decl} (hdecls : Decl.Complete config decls) :
    Decl.Complete config (.datatype d :: decls) := by
  intro o env Γ Γ' s θ hready hadmissible htyped
  cases htyped with
  | datatype hΓ' => exact hdecls hready hadmissible hΓ'

lemma complete_fixity {f : Fixity} {decls : List Decl} (hdecls : Decl.Complete config decls) :
    Decl.Complete config (.fixity f :: decls) := by
  intro o env Γ Γ' s θ hready hadmissible htyped
  cases htyped with
  | fixity hΓ' => exact hdecls hready hadmissible hΓ'

end Decl

namespace Expr

lemma complete_letIn {decls : List Decl} {body : Expr}
    (hrank : ∀ d ∈ Decl.datatypes decls, d.isRankOne) (hsound : Decl.Sound config decls)
    (hdecls : Decl.Complete config decls) (hbody : body.Complete config) :
    (Expr.letIn decls body).Complete config := by
  intro o env Γ s θ τ hready hadmissible htyped
  rw [isAdmissible] at hadmissible
  cases hfound : inferGroup o.kinds.child (Decl.datatypes decls) with
  | error e =>
    rw [hfound] at hadmissible
    cases hadmissible
  | ok found =>
    rw [hfound, Bool.and_eq_true] at hadmissible
    cases htyped with
    | letIn hΓ' hb =>
      obtain ⟨s₁, env₁, hrun₁, ha₁, hnew₁, hready₁⟩ :=
        hready.child.declareDatatypes hrank hfound
      obtain ⟨env₂, s₂, θ₂, hrun₂, ha₂, hready₂⟩ := hdecls hready₁ hadmissible.1 hΓ'
      obtain ⟨values₂, _, heq, hD⟩ := hsound hready₁.proper hready₁.inScope hrun₂
      cases heq
      obtain ⟨tb, s₃, θ₃, hB⟩ := hbody hready₂ hadmissible.2 hb
      have hdead : ∀ h ∈ values₂.innermost.values, ¬ s.Live h := by
        intro h hh
        exact ((hnew₁.trans ha₁.toExtends hD.new) h hh).resolve_left fun hmem => by cases hmem
      refine ⟨tb, _, θ₃, ((ha₁.trans ha₂).trans hB.toAdvances).releasedAll hdead, ?_, ?_, hB.soft,
        hB.type⟩
      · rw [infer, bind_of_ok (within_eq_ok.2 ((bind_of_ok hrun₁).trans hrun₂)), bind_of_ok hB.run,
          bind_of_ok (releaseAll_run _ _)]
        rfl
      · rw [next_releasedAll]
        exact hB.simple

end Expr

/-! ### All expressions -/

mutual
/-- Whatever is derivable of an expression is found by inference. -/
lemma Expr.complete (hprelude : config.prelude.isRankOne) (e : Expr) (hrank : e.isRankOne) :
    e.Complete config := by
  cases e with
  | literal value => exact Expr.complete_literal value
  | ident name => exact Expr.complete_ident name
  | internal name => exact Expr.complete_internal hprelude name
  | app func arg =>
    rw [Expr.isRankOne, Bool.and_eq_true] at hrank
    exact Expr.complete_app (func.complete hprelude hrank.1) (arg.complete hprelude hrank.2)
  | function params body =>
    rw [Expr.isRankOne, Bool.and_eq_true, List.all_eq_true] at hrank
    exact Expr.complete_function hrank.1 (body.complete hprelude hrank.2)
  | guards branches otherwise =>
    rw [Expr.isRankOne, Bool.and_eq_true] at hrank
    exact Expr.complete_guards (Expr.completeBranches hprelude branches hrank.1)
      (otherwise.complete hprelude hrank.2)
  | cases scrutinee arms =>
    rw [Expr.isRankOne, Bool.and_eq_true] at hrank
    exact Expr.complete_cases (scrutinee.complete hprelude hrank.1)
      (Expr.completeArms hprelude arms hrank.2)
  | letIn decls body =>
    rw [Expr.isRankOne, Bool.and_eq_true] at hrank
    exact Expr.complete_letIn (Decl.isRankOne_of_mem_datatypes hrank.1)
      (Decl.sound hprelude decls hrank.1) (Decl.complete hprelude decls hrank.1)
      (body.complete hprelude hrank.2)

lemma Expr.completeBranches (hprelude : config.prelude.isRankOne) (branches : List (Expr × Expr))
    (hrank : Expr.isRankOneBranches branches) : Expr.CompleteBranches config branches := by
  match branches with
  | [] => exact Expr.complete_branches_nil
  | (condition, branch) :: branches =>
    rw [Expr.isRankOneBranches, Bool.and_eq_true, Bool.and_eq_true] at hrank
    exact Expr.complete_branches_cons (condition.complete hprelude hrank.1.1)
      (branch.complete hprelude hrank.1.2) (Expr.completeBranches hprelude branches hrank.2)

lemma Expr.completeArms (hprelude : config.prelude.isRankOne) (arms : List (Pattern × Expr))
    (hrank : Expr.isRankOneArms arms) : Expr.CompleteArms config arms := by
  match arms with
  | [] => exact Expr.complete_arms_nil
  | (pattern, body) :: arms =>
    rw [Expr.isRankOneArms, Bool.and_eq_true] at hrank
    exact Expr.complete_arms_cons (body.complete hprelude hrank.1)
      (Expr.completeArms hprelude arms hrank.2)

lemma Decl.complete (hprelude : config.prelude.isRankOne) (decls : List Decl)
    (hrank : Decl.isRankOneList decls) : Decl.Complete config decls := by
  match decls with
  | [] => exact Decl.complete_nil
  | .value name ascription value position :: decls =>
    rw [Decl.isRankOneList, Bool.and_eq_true, Bool.and_eq_true] at hrank
    refine Decl.complete_value (fun t ht => ?_) (value.complete hprelude hrank.1.2)
      (Decl.complete hprelude decls hrank.2)
    subst ht
    exact hrank.1.1
  | .datatype d :: decls =>
    rw [Decl.isRankOneList, Bool.and_eq_true] at hrank
    exact Decl.complete_datatype (Decl.complete hprelude decls hrank.2)
  | .fixity f :: decls =>
    rw [Decl.isRankOneList] at hrank
    exact Decl.complete_fixity (Decl.complete hprelude decls hrank)
end

end LetPoly
