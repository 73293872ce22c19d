import LetPoly.Proofs.Typing.Constructors

/-!
# Settling the type of a value

Once the type of a value is found, the waiting equations are solved. Without an ascription the type
is then quantified over the variables that are free nowhere else in scope; with one, the rigid
variables that stand for the ascribed ones must not be free elsewhere in scope. In both cases a
valuation may put other names for these variables and leave the rest of the environment alone.
-/

namespace LetPoly

open Inference Session

/-! ### What is free beside a name -/

lemma Scope.mem_others_or {α : Type} {values : Scope α} {name : String} {v : α}
    (h : v ∈ values.values) : v ∈ values.others name ∨ (name, v) ∈ values.innermost.entries := by
  rcases List.mem_append.1 h with h | h
  · obtain ⟨⟨x, v⟩, he, rfl⟩ := List.mem_map.1 h
    by_cases hname : x = name
    · exact Or.inr (hname ▸ he)
    · refine Or.inl (List.mem_append_left _ (List.mem_map_of_mem (f := Prod.snd) ?_))
      exact List.mem_filter.2 ⟨he, by simpa using hname⟩
  · exact Or.inl (List.mem_append_right _ h)

lemma Config.others_bind {α : Type} (config : Config) (name : String) (v : α) (values : Scope α) :
    (config.bind name v values).others name = values.others name := by
  rw [bind]
  split
  · rfl
  · exact values.others_insert name v

/-- What is free in scope apart from the innermost value of a name. -/
def Inference.FreeBeside (s : Inference) (values : Scope Handle) (name x : String) : Prop :=
  ∃ h ∈ values.others name, ∃ t, s.term? h = some t ∧ t.poly.Free x

/-- Nothing is free in what stands under a name that is not to be remembered. -/
lemma Scoped.mem_others_or_closedAt {config : Config} {s : Inference} {values : Scope Handle}
    (hscope : Scoped config s values) {name : String} (hignored : config.isIgnored name)
    {h : Handle} (hh : h ∈ values.values) : h ∈ values.others name ∨ s.ClosedAt h := by
  obtain rfl : name = config.ignoreName := by simpa [Config.isIgnored] using hignored
  exact (Scope.mem_others_or hh).imp_right hscope.ignored

/-- Valuations that agree on what is free beside a name give the same environment once that name is
bound anew. -/
lemma bind_envAt_congr {config : Config} {s : Inference} {values : Scope Handle}
    (hscope : Scoped config s values) {name : String} (p : Poly) {θ η : String → Mono}
    (hagree : ∀ x, s.FreeBeside values name x → θ x = η x) :
    config.bind name p (s.envAt θ values) = config.bind name p (s.envAt η values) := by
  have hothers : ∀ h ∈ values.others name, s.polyAt θ h = s.polyAt η h := by
    intro h hh
    obtain ⟨t, ht⟩ := hscope.live (values.others_subset name hh)
    rw [polyAt_eq ht, polyAt_eq ht]
    exact Poly.subst_congr fun x hx => hagree x ⟨h, hh, t, ht, hx⟩
  rw [Config.bind, Config.bind]
  by_cases hignored : config.isIgnored name
  · rw [if_pos hignored, if_pos hignored]
    refine envAt_congr fun h hh => ?_
    rcases hscope.mem_others_or_closedAt hignored hh with hh | ⟨t, ht, hclosed⟩
    · exact hothers h hh
    · rw [polyAt_eq ht, polyAt_eq ht, hclosed.subst, hclosed.subst]
  · rw [if_neg hignored, if_neg hignored]
    exact Scope.insert_congr p hothers

lemma Inference.Proper.envVars_bind_run {config : Config} {s : Inference} (hp : s.Proper)
    {values : Scope Handle} (hscope : Scoped config s values) (name : String) {h : Handle}
    (hh : s.Live h) : ∃ fixed, envVars (config.bind name h values) name s = .ok fixed s ∧
      ∀ x, x ∈ fixed ↔ s.FreeBeside values name x := by
  obtain ⟨fixed, hrun, hfixed⟩ :=
    hp.envVars_run (fun _ hh' => (hscope.bind name hh).live hh') name
  rw [Config.others_bind] at hfixed
  exact ⟨fixed, hrun, hfixed⟩

/-! ### Values without ascription -/

lemma Ty.Simple.proper_of_generalize {n : Nat} {t g : Ty} (ht : t.Simple n)
    (hg : g = t ∨ ∃ vars body, g = .scheme vars body ∧ body.isFlat ∧ (∀ x ∈ vars, PlainName x) ∧
      ∀ v ∈ body.tree.vars, v.name ∈ vars ∨ v ∈ t.tree.vars) : g.Proper n := by
  rcases hg with rfl | ⟨vars, body, rfl, hbody, hplain, hvars⟩
  · exact ht.proper
  · exact ⟨hbody, fun v hv => (hvars v hv).imp_right (ht.2 v), Or.inr hplain⟩

lemma demandedTy_infer_run {s : Inference} {h : Handle} {t : Ty} (ht : s.term? h = some t) :
    demandedTy h none s = .ok (t, []) s := by
  show (do let ty ← current h; return (ty, []) : InferM (Ty × List (String × String))) s = _
  rw [bind_of_ok (current_run ht)]
  rfl

/-- The type found is closed over the variables that are free nowhere else in scope. -/
lemma settleTy_infer_run {config : Config} {s : Inference} (hp : s.Proper) {values : Scope Handle}
    (hscope : Scoped config s values) {name : String} {h : Handle} {t found : Ty}
    (ht : s.term? h = some t) (hflat : t.isFlat) (hfound : found.Simple s.next)
    (hok : (s.equated t found (.binding name)).Solvable) : ∃ t' names g,
      (s.equated t found (.binding name)).settled.term? h = some t' ∧
      t'.mono = t.mono.bind (s.equated t found (.binding name)).solution ∧ names.Nodup ∧
      (∀ x, x ∈ names ↔ x ∈ t'.mono.vars ∧
        ¬ (s.equated t found (.binding name)).settled.FreeBeside values name x) ∧
      g.Proper s.next ∧ g.poly = .close names t'.mono ∧
      settleTy (config.bind name h values) name none h found s =
        .ok () ((s.equated t found (.binding name)).settled.replaced h g) := by
  have hr := (Reaches.refl hp).equated ((hp.live ht).simple hflat) hfound (.binding name)
  have hr' := hr.settled hok
  obtain ⟨t', ht', hproper, hpoly, hflat'⟩ := hr.proper.term?_settled (h := h) ht
  have hmono : t'.mono = t.mono.bind (s.equated t found (.binding name)).solution := by
    rw [Ty.poly_of_isFlat (hflat' hflat), Ty.poly_of_isFlat hflat, Poly.subst_ofMono] at hpoly
    exact Poly.ofMono_injective hpoly
  obtain ⟨fixed, hfixed, hmem⟩ :=
    hr'.proper.envVars_bind_run (hscope.mono hr'.toExtends) name ⟨t', ht'⟩
  obtain ⟨g, hg, hclose, hshape⟩ := Ty.generalize_of_isFlat (hflat' hflat) fixed
  refine ⟨t', _, g, ht', hmono, t'.freeVars.nodup.filter _, fun x => ?_,
    (hproper.simple (hflat' hflat)).proper_of_generalize hshape, hclose, ?_⟩
  · rw [List.mem_filter, decide_eq_true_eq, hmem, NameSet.mem_names, Ty.mem_freeVars_iff (hflat' hflat)]
  · have hgeneralize (r : Inference) : Inference.generalize t' fixed r = .ok g r := by
      rw [Inference.generalize, hg]
      rfl
    have hescape (r : Inference) :
        refuseEscape (config.bind name h values) name [] r = .ok () r := rfl
    rw [settleTy, step_of_ok (demandedTy_infer_run ht)]
    dsimp only
    rw [step_of_ok (equate_run _ _ _ _), step_of_ok (solve_run hok), step_of_ok (hescape _),
      step_plain, closeTy, bind_of_ok hfixed, bind_of_ok (current_run ht'), bind_of_ok (hgeneralize _),
      replace_run]

lemma solvable_of_settleTy_infer {values : Scope Handle} {name : String} {h : Handle}
    {t found : Ty} {s s' : Inference} {u : Unit} (ht : s.term? h = some t)
    (hrun : settleTy values name none h found s = .ok u s') :
    (s.equated t found (.binding name)).Solvable := by
  rw [settleTy, step_of_ok (demandedTy_infer_run ht)] at hrun
  dsimp only at hrun
  rw [step_of_ok (equate_run _ _ _ _)] at hrun
  obtain ⟨_, _, hsolve, _⟩ := bind_eq_ok.1 hrun
  exact (solve_eq_ok hsolve).1

/-! ### Values with an ascription -/

lemma refuseEscape_eq_ok {config : Config} {s s' : Inference} (hp : s.Proper)
    {values : Scope Handle} (hscope : Scoped config s values) {name : String} {h : Handle}
    (hh : s.Live h) (rigid : List (String × String)) {u : Unit} :
    refuseEscape (config.bind name h values) name rigid s = .ok u s' ↔
      (∀ r ∈ rigid, ¬ s.FreeBeside values name r.2) ∧ s = s' := by
  cases rigid with
  | nil =>
    rw [refuseEscape, pure_eq_ok]
    simp
  | cons r rigid =>
    obtain ⟨fixed, hfixed, hmem⟩ := hp.envVars_bind_run hscope name hh
    rw [refuseEscape, bind_of_ok hfixed]
    · cases hfind : (r :: rigid).find? (·.2 ∈ fixed) with
      | none =>
        rw [pure_eq_ok]
        refine ⟨fun heq => ⟨fun r' hr' hfree => ?_, heq.2⟩, fun heq => ⟨rfl, heq.2⟩⟩
        have := List.find?_eq_none.1 hfind r' hr'
        rw [decide_eq_true_eq, hmem] at this
        exact this hfree
      | some r' =>
        refine ⟨fun heq => (by cases heq), fun ⟨hfree, _⟩ => ?_⟩
        have hr' : r'.2 ∈ fixed := by simpa using List.find?_some hfind
        exact absurd ((hmem _).1 hr') (hfree r' (List.mem_of_find?_eq_some hfind))
    · simp

/-- An ascribed type is demanded with rigid variables for the quantified ones. -/
lemma demandedTy_check_run {t q q' : Ty} (hprenex : t.isPrenex) (hq : t.quantify = .ok q)
    {s : Inference} {h : Handle} (hq' : s.term? h = some q') (hpoly : q'.poly = q.poly)
    (hflat : q.isFlat → q'.isFlat) : ∃ d rigid,
      demandedTy h (some q) s = .ok (d, rigid) (s.bump t.toScheme.vars.names.length) ∧
      d.Simple (s.next + t.toScheme.vars.names.length) ∧
      d.mono = t.signature.instNames (skolemNames s.next t.toScheme.vars.names) ∧
      rigid.map Prod.snd = skolemNames s.next t.toScheme.vars.names := by
  obtain ⟨hqprenex, hqpoly, hclosed, hcase⟩ := Ty.quantify_eq_ok hprenex hq
  rcases hcase with rfl | ⟨hqflat, hnil⟩
  · refine ⟨_, _, skolemize_run t.toScheme s,
      simple_rigidInstance (Ty.proper_of_closed hqprenex hclosed _), mono_rigidInstance _ _, ?_⟩
    exact List.map_snd_zip (by rw [length_skolemNames])
  · rw [hnil]
    have hdemand : demandedTy h (some q) s = .ok (q', []) s := by
      have hcurrent : demandedTy h (some q) =
          (do let ty ← current h; return (ty, []) : InferM (Ty × List (String × String))) := by
        cases q with
        | scheme _ _ => simp [Ty.isFlat] at hqflat
        | con _ _ => rfl
        | var _ _ _ => rfl
        | app _ _ => rfl
      rw [hcurrent, bind_of_ok (current_run hq')]
      rfl
    have hclosed' : q'.poly.Closed := by
      rw [hpoly, hqpoly]
      exact hclosed
    refine ⟨q', [], hdemand, Ty.simple_of_closed (hflat hqflat) hclosed' _, ?_, rfl⟩
    rw [← hqpoly, ← hpoly, Ty.poly_of_isFlat (hflat hqflat), Poly.instNames, Poly.inst_ofMono]

/-- A value has its ascribed type if the type found can be equated with the demanded one and no
rigid variable escapes. -/
lemma settleTy_check_eq_ok {config : Config} {t q q' found : Ty} (hprenex : t.isPrenex)
    (hq : t.quantify = .ok q) {s : Inference} (hp : s.Proper) {values : Scope Handle}
    (hscope : Scoped config s values) {h : Handle} (hq' : s.term? h = some q')
    (hpoly : q'.poly = q.poly) (hflat : q.isFlat → q'.isFlat) (hfound : found.Simple s.next)
    (name : String) : ∃ d : Ty, d.Simple (s.bump t.toScheme.vars.names.length).next ∧
      d.mono = t.signature.instNames (skolemNames s.next t.toScheme.vars.names) ∧
      ∀ u s', settleTy (config.bind name h values) name (some q) h found s = .ok u s' ↔
        ((s.bump t.toScheme.vars.names.length).equated d found (.binding name)).Solvable ∧
        (∀ x ∈ skolemNames s.next t.toScheme.vars.names,
          ¬ ((s.bump t.toScheme.vars.names.length).equated d found
            (.binding name)).settled.FreeBeside values name x) ∧
        s' = ((s.bump t.toScheme.vars.names.length).equated d found (.binding name)).settled := by
  obtain ⟨d, rigid, hdemand, hsimple, hmono, hrigid⟩ :=
    demandedTy_check_run hprenex hq hq' hpoly hflat
  refine ⟨d, hsimple, hmono, fun u s' => ?_⟩
  have hr := ((Reaches.refl hp).bump t.toScheme.vars.names.length).equated hsimple
    (hfound.mono_le (Nat.le_add_right _ _)) (.binding name)
  have hescape (hok : ((s.bump t.toScheme.vars.names.length).equated d found
      (.binding name)).Solvable) (u : Unit) (s' : Inference) :
      refuseEscape (config.bind name h values) name rigid ((s.bump _).equated d found _).settled =
        .ok u s' ↔ _ :=
    refuseEscape_eq_ok (hr.settled hok).proper (hscope.mono (hr.settled hok).toExtends)
      ((hr.settled hok).live ⟨q', hq'⟩) rigid
  rw [settleTy, step_of_ok hdemand]
  dsimp only
  rw [step_of_ok (equate_run _ _ _ _), ← hrigid, List.forall_mem_map]
  constructor
  · intro hrun
    obtain ⟨_, s₁, hsolve, hrun⟩ := bind_eq_ok.1 hrun
    obtain ⟨hok, rfl⟩ := solve_eq_ok hsolve
    obtain ⟨_, s₂, hrefuse, hrun⟩ := bind_eq_ok.1 hrun
    obtain ⟨hfree, rfl⟩ := (hescape hok _ _).1 hrefuse
    obtain ⟨_, rfl⟩ := pure_eq_ok.1 hrun
    exact ⟨hok, hfree, rfl⟩
  · rintro ⟨hok, hfree, rfl⟩
    rw [step_of_ok (solve_run hok), step_of_ok ((hescape hok () _).2 ⟨hfree, rfl⟩)]
    rfl

/-! ### Bringing a value into scope -/

/-- The environment with one more value. -/
def Env.bindValue (config : Config) (env : Env) (name : String) (h : Handle) : Env :=
  { env with values := config.bind name h env.values }

section BindValue

variable {config : Config} {name : String} {inferValue : Env → InferM Ty} {s : Inference}
  {env : Env} {u : Unit} {S : Session}

lemma scopes_run (s : Inference) (env : Env) : scopes ⟨s, env⟩ = .ok env ⟨s, env⟩ := rfl

/-- What is left to do once the provisional type of a value is tracked. -/
lemma inferAndSettle_eq_ok {name : String} {ascribed : Option Ty} {h : Handle} :
    ((do
      let found ← liftM (inferValue env)
      liftM (settleTy env.values name ascribed h found : InferM Unit)) : DeclM Unit) ⟨s, env⟩ = .ok u S ↔
      ∃ found s₁ s₂, inferValue env s = .ok found s₁ ∧
        settleTy env.values name ascribed h found s₁ = .ok u s₂ ∧ S = ⟨s₂, env⟩ := by
  constructor
  · intro hrun
    obtain ⟨found, S₁, hvalue, hrun⟩ := bind_eq_ok.1 hrun
    obtain ⟨s₁, hfound, rfl⟩ := liftM_eq_ok hvalue
    obtain ⟨s₂, hsettle, rfl⟩ := liftM_eq_ok hrun
    exact ⟨found, s₁, s₂, hfound, hsettle, rfl⟩
  · rintro ⟨found, s₁, s₂, hfound, hsettle, rfl⟩
    rw [bind_of_ok (liftM_of_ok hfound)]
    exact liftM_of_ok hsettle

lemma bindValueWith_infer_eq_ok :
    bindValueWith config name none inferValue ⟨s, env⟩ = .ok u S ↔ ∃ found s₁ s₂,
      inferValue (env.bindValue config name ((s.bump 1).newHandle (.fresh s.next)))
        ((s.bump 1).tracked (.fresh s.next)) = .ok found s₁ ∧
      settleTy (config.bind name ((s.bump 1).newHandle (.fresh s.next)) env.values) name none
        ((s.bump 1).newHandle (.fresh s.next)) found s₁ = .ok u s₂ ∧
      S = ⟨s₂, env.bindValue config name ((s.bump 1).newHandle (.fresh s.next))⟩ := by
  have hascribed : ascribedTy env.kinds none s = .ok none s := rfl
  have hprovisional : provisionalTy none s = .ok (.fresh s.next) (s.bump 1) := rfl
  rw [bindValueWith, stepIn_of_ok (scopes_run s env), stepIn_of_ok (liftM_of_ok hascribed),
    stepIn_of_ok (liftM_of_ok hprovisional), stepIn_of_ok (liftM_of_ok (track_run _ _)),
    stepIn_of_ok (modifyValues_run _ _ _), stepIn_of_ok (scopes_run _ _)]
  exact inferAndSettle_eq_ok

lemma bindValueWith_check_eq_ok {t : Ty} :
    bindValueWith config name (some t) inferValue ⟨s, env⟩ = .ok u S ↔ ∃ kinds q,
      (checkAscription env.kinds t).2 = .ok kinds ∧ (t.fill kinds).1.quantify = .ok q ∧
      ∃ found s₁ s₂, inferValue (env.bindValue config name ((s.noted kinds).newHandle q))
        ((s.noted kinds).tracked q) = .ok found s₁ ∧
      settleTy (config.bind name ((s.noted kinds).newHandle q) env.values) name (some q)
        ((s.noted kinds).newHandle q) found s₁ = .ok u s₂ ∧
      S = ⟨s₂, env.bindValue config name ((s.noted kinds).newHandle q)⟩ := by
  rw [bindValueWith, stepIn_of_ok (scopes_run s env)]
  have hrest (kinds : List Kind) (q : Ty) (hkinds : (checkAscription env.kinds t).2 = .ok kinds)
      (hq : (t.fill kinds).1.quantify = .ok q) :
      ascribedTy env.kinds (some t) s = .ok (some q) (s.noted kinds) := by
    rw [ascribedTy, bind_of_ok (ascribe_run hkinds s), bind_of_ok (quantify_run hq _)]
    rfl
  have hprovisional (q : Ty) (r : Inference) : provisionalTy (some q) r = .ok q r := rfl
  constructor
  · intro hrun
    obtain ⟨ascribed, S₁, hlift, hrun⟩ := bind_eq_ok.1 hrun
    obtain ⟨s₁, hascribed, rfl⟩ := liftM_eq_ok hlift
    rw [ascribedTy] at hascribed
    obtain ⟨t', s₂, ht', hquantified⟩ := bind_eq_ok.1 hascribed
    obtain ⟨kinds, hkinds, rfl, rfl⟩ := ascribe_eq_ok ht'
    obtain ⟨q, s₃, hquantify, hpure⟩ := bind_eq_ok.1 hquantified
    obtain ⟨hq, rfl⟩ := Inference.quantify_eq_ok hquantify
    obtain ⟨rfl, rfl⟩ := pure_eq_ok.1 hpure
    rw [stepIn_of_ok (liftM_of_ok (hprovisional q _)), stepIn_of_ok (liftM_of_ok (track_run _ _)),
      stepIn_of_ok (modifyValues_run _ _ _), stepIn_of_ok (scopes_run _ _)] at hrun
    exact ⟨kinds, q, hkinds, hq, inferAndSettle_eq_ok.1 hrun⟩
  · rintro ⟨kinds, q, hkinds, hq, hrun⟩
    rw [stepIn_of_ok (liftM_of_ok (hrest kinds q hkinds hq)),
      stepIn_of_ok (liftM_of_ok (hprovisional q _)), stepIn_of_ok (liftM_of_ok (track_run _ _)),
      stepIn_of_ok (modifyValues_run _ _ _), stepIn_of_ok (scopes_run _ _)]
    exact inferAndSettle_eq_ok.2 hrun

end BindValue

end LetPoly
