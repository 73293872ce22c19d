import LetPoly.Proofs.Typing.Settle
import LetPoly.Proofs.Typing.Sound

/-!
# Soundness of declarations

The types that declarations bring into scope are derivable. A value is quantified over variables
that are free nowhere else in scope, so a solution may put new names for them and keep the rest of
the environment as it is; the same holds of the rigid variables of an ascription, which must not
escape. With this the soundness of `let` closes the induction over expressions.
-/

namespace LetPoly

open Inference Session

variable {config : Config}

/-- New names stand for the variables that the type of a value is quantified over. -/
lemma sound_bindValue_infer {value : Expr} (hvalue : value.Sound config) {name : String}
    {env : Env} {s : Inference} {S : Session} {u : Unit} (hp : s.Proper)
    (hscope : Scoped config s env.values)
    (hrun : bindValueWith config name none (fun env => value.infer config env) ⟨s, env⟩ = .ok u S) :
    ∃ h s', S = ⟨s', env.bindValue config name h⟩ ∧ ¬ s.Live h ∧ s.Reaches s' ∧
      s'.unifier.queue = [] ∧ s'.Live h ∧
      ((∀ h' ∈ env.values.values, s.ClosedAt h') → s'.ClosedAt h) ∧ ∀ θ, ∃ names τ,
        HasType config (config.bind name (.ofMono τ) (s'.envAt θ env.values)) value τ ∧
        (∀ x ∈ names, ¬ (config.bind name (.close names τ) (s'.envAt θ env.values)).Free x) ∧
        s'.polyAt θ h = .close names τ := by
  obtain ⟨found, s₁, s₂, hfound, hsettle, rfl⟩ := bindValueWith_infer_eq_ok.1 hrun
  have hfresh : (Ty.fresh s.next).Simple (s.bump 1).next := Ty.simple_fresh (Nat.lt_succ_self _)
  have hr₀ := ((Reaches.refl hp).bump 1).tracked hfresh.proper
  have hterm := (s.bump 1).term?_newHandle (.fresh s.next)
  have hdead : ¬ s.Live ((s.bump 1).newHandle (.fresh s.next)) := (s.bump 1).not_live_newHandle _
  generalize (s.bump 1).newHandle (.fresh s.next) = h at *
  have hV := hvalue hr₀.proper ((hscope.mono hr₀.toExtends).bind name ⟨_, hterm⟩) hfound
  obtain ⟨t, ht, hflat, _⟩ := hV.reaches.keep hterm
  have hr₁ := hr₀.trans hV.reaches
  have hok := solvable_of_settleTy_infer ht hsettle
  have hr := hr₁.equated ((hr₁.proper.live ht).simple (hflat rfl)) hV.simple (.binding name)
  obtain ⟨t', names, g, ht', hmono, hnodup, hnames, hproper, hpoly, hrun'⟩ :=
    settleTy_infer_run hr₁.proper (hscope.mono hr₁.toExtends) ht (hflat rfl) hV.simple hok
  rw [hrun', EStateM.Result.ok.injEq] at hsettle
  obtain ⟨_, rfl⟩ := hsettle
  have hr₂ := hr.settled hok
  refine ⟨h, _, rfl, hdead, hr₂.replaced ht' hproper hdead, rfl,
    ⟨g, by rw [term?_replaced ht', if_pos rfl]⟩, fun hclosed => ?_, fun θ => ?_⟩
  · -- Nothing is free in scope, so the type is quantified over all of its variables.
    refine ⟨g, by rw [term?_replaced ht', if_pos rfl], fun x hx => ?_⟩
    rw [hpoly, Poly.free_close, hnames] at hx
    refine hx.2 ⟨hx.1, ?_⟩
    rintro ⟨h', hh', u, hu, hfree⟩
    obtain ⟨u', hu', hclosed'⟩ := hr₂.closedAt (hclosed h' (env.values.others_subset name hh'))
    rw [hu] at hu'
    cases hu'
    exact hclosed' x hfree
  have henv : ((s₁.equated t found (.binding name)).settled.replaced h g).envAt θ env.values =
      (s₁.equated t found (.binding name)).settled.envAt θ env.values := by
    refine envAt_congr fun h' hh' => polyAt_congr ?_ θ
    rw [term?_replaced ht', if_neg]
    rintro rfl
    exact hdead (hscope.live hh')
  rw [henv]
  obtain ⟨names', hlen, hnodup', hfresh'⟩ :=
    ((s₁.equated t found (.binding name)).settled.envAt θ env.values).exists_fresh_names
      names.length (t'.mono.vars.flatMap fun x => (θ x).vars)
  have hclose : Poly.close names' (t'.mono.bind (renamed names names' θ)) =
      Poly.subst θ (.close names t'.mono) := by
    refine Poly.subst_close hlen.symm hnodup' (fun x y => renamed_of_mem_zip hnodup)
      fun x hx hmem => ⟨renamed_of_not_mem hmem, fun y hy hy' => ?_⟩
    exact (hfresh' y hy').2 (List.mem_flatMap.2 ⟨x, hx, hy⟩)
  refine ⟨names', t'.mono.bind (renamed names names' θ), ?_, fun x hx hfree => ?_, ?_⟩
  · -- The solution of the equations before they were settled.
    have hθ₁ := hr.proper.sol_solution hok (renamed names names' θ)
    obtain ⟨hθ₁, heq⟩ := sol_equated.1 hθ₁
    have henv₁ : (s₁.equated t found (.binding name)).settled.envAt (renamed names names' θ)
        env.values = s₁.envAt (fun x => ((s₁.equated t found (.binding name)).solution x).bind
          (renamed names names' θ)) env.values :=
      envAt_congr fun h' _ => hr.proper.polyAt_settled (renamed names names' θ) h'
    have hτ : t.mono.bind (fun x => ((s₁.equated t found (.binding name)).solution x).bind
        (renamed names names' θ)) = t'.mono.bind (renamed names names' θ) := by
      rw [hmono, Tree.bind_bind]
    have htyped := hV.typed hθ₁
    rw [← heq, hτ, Env.bindValue, envAt, Config.map_bind, polyAt_of_isFlat ht (hflat rfl), hτ,
      ← envAt, ← henv₁] at htyped
    rw [← bind_envAt_congr (hscope.mono hr₂.toExtends) (θ := renamed names names' θ)]
    · exact htyped
    · intro x hx
      exact renamed_of_not_mem fun hmem => ((hnames x).1 hmem).2 hx
  · rcases Config.free_bind hfree with hfree | hfree
    · exact (Poly.free_close.1 hfree).2 hx
    · exact (hfresh' x hx).1 hfree
  · rw [polyAt_eq (t := g) (by rw [term?_replaced ht', if_pos rfl]), hpoly, hclose]

/-- New names stand for the rigid variables of an ascription. -/
lemma sound_bindValue_check {value : Expr} (hvalue : value.Sound config) {name : String} {t : Ty}
    (hprenex : t.isPrenex) {env : Env} {s : Inference} {S : Session} {u : Unit} (hp : s.Proper)
    (hscope : Scoped config s env.values)
    (hrun : bindValueWith config name (some t) (fun env => value.infer config env) ⟨s, env⟩ =
      .ok u S) :
    ∃ h s', S = ⟨s', env.bindValue config name h⟩ ∧ ¬ s.Live h ∧ s.Reaches s' ∧
      s'.unifier.queue = [] ∧ s'.ClosedAt h ∧
      ∀ θ, s'.polyAt θ h = t.signature ∧ ∃ names : List String, names.Nodup ∧
        names.length = t.toScheme.vars.names.length ∧
        (∀ x ∈ names, ¬ (config.bind name t.signature (s'.envAt θ env.values)).Free x) ∧
        HasType config (config.bind name t.signature (s'.envAt θ env.values)) value
          (t.signature.instNames names) := by
  obtain ⟨kinds, q, _, hq, found, s₁, s₂, hfound, hsettle, rfl⟩ := bindValueWith_check_eq_ok.1 hrun
  have hprenex' : (t.fill kinds).1.isPrenex := (Ty.isPrenex_fill t kinds).trans hprenex
  obtain ⟨hqprenex, hqpoly, hclosed, _⟩ := Ty.quantify_eq_ok hprenex' hq
  rw [Ty.signature_fill hprenex] at hqpoly hclosed
  rw [← hqpoly] at hclosed
  have hr₀ := ((Reaches.refl hp).noted kinds).tracked (Ty.proper_of_closed hqprenex hclosed _)
  have hterm := (s.noted kinds).term?_newHandle q
  have hdead : ¬ s.Live ((s.noted kinds).newHandle q) := (s.noted kinds).not_live_newHandle q
  generalize (s.noted kinds).newHandle q = h at *
  have hV := hvalue hr₀.proper ((hscope.mono hr₀.toExtends).bind name ⟨_, hterm⟩) hfound
  have hr₁ := hr₀.trans hV.reaches
  obtain ⟨q', hq', hflat, hpoly⟩ := hV.reaches.keep hterm
  obtain ⟨d, hd, hmono, hiff⟩ := settleTy_check_eq_ok hprenex' hq hr₁.proper
    (hscope.mono hr₁.toExtends) hq' (hpoly hclosed) hflat hV.simple name
  obtain ⟨hok, hescape, rfl⟩ := (hiff _ _).1 hsettle
  rw [Ty.signature_fill hprenex] at hmono
  rw [Ty.toScheme_vars_fill hprenex] at hd hok hescape hmono ⊢
  have hr := (hV.reaches.bump t.toScheme.vars.names.length).equated hd
    (hV.simple.mono_le (Nat.le_add_right _ _)) (.binding name)
  have hr₂ := hr₀.trans (hr.settled hok)
  -- The ascribed type is closed, so it stays as it is.
  have hkeep : ∃ q'', ((s₁.bump t.toScheme.vars.names.length).equated d found
      (.binding name)).settled.term? h = some q'' ∧ q''.poly = t.signature := by
    obtain ⟨q'', hq'', _, hpoly''⟩ := (hr.settled hok).keep hterm
    exact ⟨q'', hq'', (hpoly'' hclosed).trans hqpoly⟩
  generalize hr' : (s₁.bump t.toScheme.vars.names.length).equated d found (.binding name) = r at *
  obtain ⟨q'', hq'', hpoly''⟩ := hkeep
  rw [hqpoly] at hclosed
  refine ⟨h, _, rfl, hdead, hr₂, rfl, ⟨q'', hq'', hpoly'' ▸ hclosed⟩, fun θ => ⟨?_, ?_⟩⟩
  · rw [polyAt_eq hq'', hpoly'', hclosed.subst]
  obtain ⟨names, hlen, hnodup, hfresh⟩ :=
    (r.settled.envAt θ env.values).exists_fresh_names t.toScheme.vars.names.length []
  refine ⟨names, hnodup, hlen, fun x hx hfree => ?_, ?_⟩
  · rcases Config.free_bind hfree with hfree | hfree
    · exact hclosed x hfree
    · exact (hfresh x hx).1 hfree
  · have hrigid := nodup_skolemNames s₁.next t.toScheme.vars.names
    have hlen' := length_skolemNames s₁.next t.toScheme.vars.names
    have hform : ∀ x ∈ skolemNames s₁.next t.toScheme.vars.names, r.solution x = .var x := by
      intro x hx
      obtain ⟨x', k, rfl, _⟩ := mem_skolemNames hx
      exact hr.proper.solution_skolem x' k
    generalize skolemNames s₁.next t.toScheme.vars.names = rigid at *
    have hsol := hr.proper.sol_solution hok (renamed rigid names θ)
    have henv₁ : r.settled.envAt (renamed rigid names θ) env.values =
        s₁.envAt (fun x => (r.solution x).bind (renamed rigid names θ)) env.values := by
      refine envAt_congr fun h' _ => (hr.proper.polyAt_settled _ h').trans ?_
      rw [← hr']
      rfl
    have hinst : (t.signature.instNames rigid).bind
        (fun x => (r.solution x).bind (renamed rigid names θ)) = t.signature.instNames names := by
      refine Poly.bind_instNames hclosed (hlen'.trans hlen.symm) (fun i hi => ?_) fun x y hxy => ?_
      · rw [hlen']
        exact Poly.lt_of_bound_close hi
      · rw [hform x (List.of_mem_zip hxy).1]
        exact renamed_of_mem_zip hrigid hxy
    rw [← hr'] at hsol
    obtain ⟨hsol, heq⟩ := sol_equated.1 hsol
    rw [hr'] at hsol heq
    have htyped := hV.typed (θ := fun x => (r.solution x).bind (renamed rigid names θ)) hsol
    rw [← heq, hmono, hinst, Env.bindValue, envAt, Config.map_bind, polyAt_eq hq',
      hpoly (hqpoly ▸ hclosed), hqpoly, hclosed.subst, ← envAt, ← henv₁] at htyped
    rw [← bind_envAt_congr (hscope.mono hr₂.toExtends) (θ := renamed rigid names θ)]
    · exact htyped
    · intro x hx
      exact renamed_of_not_mem fun hmem => hescape x hmem hx

/-! ### Lists of declarations -/

/-- The values that declarations bring into scope have derivable types. -/
structure BindsDecls (config : Config) (decls : List Decl) (values : Scope Handle) (s : Inference)
    (values' : Scope Handle) (s' : Inference) : Prop where
  reaches : s.Reaches s'
  settled : s.unifier.queue = [] → s'.unifier.queue = []
  inScope : Scoped config s' values'
  new : NewSince s values values'
  closed : (∀ h ∈ values.values, s.ClosedAt h) → ∀ h ∈ values'.values, s'.ClosedAt h
  typed {θ : String → Mono} : s'.Sol θ →
    HasDecls config (s'.envAt θ values) decls (s'.envAt θ values')

/-- All that the run of a list of declarations brings into scope is derivable. -/
def Decl.Sound (config : Config) (decls : List Decl) : Prop :=
  ∀ ⦃env : Env⦄ ⦃s : Inference⦄ ⦃S : Session⦄ ⦃u : Unit⦄, s.Proper →
    Scoped config s env.values → Decl.bindAll config decls ⟨s, env⟩ = .ok u S →
    ∃ values' s', S = ⟨s', { env with values := values' }⟩ ∧
      BindsDecls config decls env.values s values' s'

/-- Once a value is brought into scope, the other declarations follow. -/
lemma BindsDecls.value {decls : List Decl} {d : Decl} {name : String} {h : Handle}
    {s s₁ s' : Inference} {values values' : Scope Handle} (hscope : Scoped config s values)
    (hdead : ¬ s.Live h) (hr : s.Reaches s₁) (hqueue : s₁.unifier.queue = [])
    (hrest : BindsDecls config decls (config.bind name h values) s₁ values' s')
    (hcons : ∀ {θ Γ'}, HasDecls config (config.bind name (s₁.polyAt θ h) (s₁.envAt θ values)) decls Γ' →
      HasDecls config (s₁.envAt θ values) (d :: decls) Γ') (hlive : s₁.Live h)
    (hclosed : (∀ h' ∈ values.values, s.ClosedAt h') → s₁.ClosedAt h) :
    BindsDecls config (d :: decls) values s values' s' where
  reaches := hr.trans hrest.reaches
  settled _ := hrest.settled hqueue
  inScope := hrest.inScope
  new := (NewSince.bind config s values name hdead).trans hr.toExtends hrest.new
  closed hvalues := hrest.closed fun h' hh' => by
    rcases Config.mem_values_bind hh' with rfl | hh'
    · exact hclosed hvalues
    · exact hr.closedAt (hvalues h' hh')
  typed {θ} hθ := by
    obtain ⟨θ₁, _, hsame⟩ := hrest.reaches.back hθ
    have htyped := hrest.typed hθ
    have hscope₁ := hscope.mono hr.toExtends
    rw [envAt, Config.map_bind, hsame h hlive, ← envAt, envAt_back hscope₁ hsame] at htyped
    rw [envAt_back hscope₁ hsame]
    exact hcons htyped

namespace Decl

lemma sound_nil : Decl.Sound config [] := by
  intro env s S u hp hscope hrun
  rw [bindAll] at hrun
  obtain ⟨_, rfl⟩ := pure_eq_ok.1 hrun
  exact ⟨env.values, s, rfl, .refl hp, id, hscope, .refl s _, id, fun _ => .nil _⟩

lemma sound_value {name : String} {ascription : Option Ty} {value : Expr} {position : Span}
    {decls : List Decl} (hrank : ∀ t, ascription = some t → t.isPrenex)
    (hvalue : value.Sound config) (hdecls : Decl.Sound config decls) :
    Decl.Sound config (.value name ascription value position :: decls) := by
  intro env s S u hp hscope hrun
  rw [bindAll] at hrun
  obtain ⟨_, S₁, hbind, hrun⟩ := bind_eq_ok.1 hrun
  cases ascription with
  | none =>
    obtain ⟨h, s₁, rfl, hdead, hr, hqueue, hlive, hclosed, htyped⟩ :=
      sound_bindValue_infer hvalue hp hscope hbind
    obtain ⟨values', s', rfl, hrest⟩ :=
      hdecls hr.proper ((hscope.mono hr.toExtends).bind name hlive) hrun
    refine ⟨values', s', rfl,
      hrest.value hscope hdead hr hqueue (fun {θ Γ'} hΓ' => ?_) hlive hclosed⟩
    obtain ⟨names, τ, hτ, hnames, hpoly⟩ := htyped θ
    rw [hpoly] at hΓ'
    exact .infer hτ hnames hΓ'
  | some t =>
    obtain ⟨h, s₁, rfl, hdead, hr, hqueue, hclosed, htyped⟩ :=
      sound_bindValue_check hvalue (hrank t rfl) hp hscope hbind
    have hlive : s₁.Live h := hclosed.imp fun _ ht => ht.1
    obtain ⟨values', s', rfl, hrest⟩ :=
      hdecls hr.proper ((hscope.mono hr.toExtends).bind name hlive) hrun
    refine ⟨values', s', rfl, hrest.value hscope hdead hr hqueue (fun {θ Γ'} hΓ' => ?_) hlive
      fun _ => hclosed⟩
    obtain ⟨hpoly, names, hnodup, hlen, hnames, hτ⟩ := htyped θ
    rw [hpoly] at hΓ'
    exact .check hnodup hlen hnames hτ hΓ'

lemma sound_datatype {d : Datatype} {decls : List Decl} (hdecls : Decl.Sound config decls) :
    Decl.Sound config (.datatype d :: decls) := by
  intro env s S u hp hscope hrun
  obtain ⟨values', s', rfl, h⟩ := hdecls hp hscope hrun
  exact ⟨values', s', rfl, h.reaches, h.settled, h.inScope, h.new, h.closed, fun hθ => .datatype (h.typed hθ)⟩

lemma sound_fixity {f : Fixity} {decls : List Decl} (hdecls : Decl.Sound config decls) :
    Decl.Sound config (.fixity f :: decls) := by
  intro env s S u hp hscope hrun
  obtain ⟨values', s', rfl, h⟩ := hdecls hp hscope hrun
  exact ⟨values', s', rfl, h.reaches, h.settled, h.inScope, h.new, h.closed, fun hθ => .fixity (h.typed hθ)⟩

end Decl

lemma Decl.isRankOne_of_mem_datatypes {decls : List Decl} (hrank : Decl.isRankOneList decls) :
    ∀ d ∈ Decl.datatypes decls, d.isRankOne := by
  induction decls with
  | nil => exact fun d hd => (by cases hd)
  | cons decl decls ih =>
    cases decl with
    | value name ascription value position =>
      rw [Decl.isRankOneList, Bool.and_eq_true] at hrank
      exact ih hrank.2
    | fixity f => exact ih hrank
    | datatype d =>
      rw [Decl.isRankOneList, Bool.and_eq_true] at hrank
      exact List.forall_mem_cons.2 ⟨hrank.1, ih hrank.2⟩

namespace Expr

/-- What the declarations bring into scope is new, so letting it go at the end does no harm. -/
lemma sound_letIn {decls : List Decl} {body : Expr} (hrank : ∀ d ∈ Decl.datatypes decls, d.isRankOne)
    (hdecls : Decl.Sound config decls) (hbody : body.Sound config) :
    (Expr.letIn decls body).Sound config := by
  intro env s s' t hp hscope hrun
  rw [infer] at hrun
  obtain ⟨inner, s₂, hinner, hrun⟩ := bind_eq_ok.1 hrun
  obtain ⟨_, S₁, hdatatypes, hvalues⟩ := bind_eq_ok.1 (within_eq_ok.1 hinner)
  obtain ⟨found, hfound⟩ := inferGroup_of_declareDatatypes hdatatypes
  obtain ⟨s₁, values₁, hrun₁, hquiet, hp₁, hscope₁, _, hnew₁, henv₁⟩ :=
    declareDatatypes_run hrank env.child hp hscope.child hfound
  rw [hrun₁, EStateM.Result.ok.injEq] at hdatatypes
  obtain ⟨_, rfl⟩ := hdatatypes
  obtain ⟨values₂, s₂', heq, hD⟩ := hdecls hp₁ hscope₁ hvalues
  cases heq
  obtain ⟨tb, s₃, hb, hrun⟩ := bind_eq_ok.1 hrun
  rw [bind_of_ok (releaseAll_run _ _)] at hrun
  obtain ⟨rfl, rfl⟩ := pure_eq_ok.1 hrun
  have hB := hbody hD.reaches.proper hD.inScope hb
  have hr₁ : s.Reaches s₁ := ⟨hquiet.toExtends, hp₁⟩
  have hr₂ := hr₁.trans hD.reaches
  have hdead : ∀ h ∈ values₂.innermost.values, ¬ s.Live h := by
    intro h hh
    exact ((hnew₁.trans hquiet.toExtends hD.new) h hh).resolve_left fun hmem => by cases hmem
  refine ⟨(hr₂.trans hB.reaches).releasedAll hdead, ?_, fun {θ} hθ => ?_⟩
  · rw [next_releasedAll]
    exact hB.simple
  -- From the end back to the states after the values and after the datatypes.
  have hθ := sol_releasedAll.1 hθ
  obtain ⟨θ₂, hθ₂, hsame₂⟩ := hB.reaches.back hθ
  obtain ⟨θ₁, _, hsame₁⟩ := hD.reaches.back hθ₂
  have hD' := hD.typed hθ₂
  rw [envAt_back hscope₁ hsame₁, henv₁] at hD'
  have hB' := hB.typed hθ
  rw [envAt_back hD.inScope hsame₂] at hB'
  rw [envAt_releasedAll hscope _ hdead, envAt_back (hscope.mono hr₂.toExtends) hsame₂,
    envAt_back (hscope.mono hr₁.toExtends) hsame₁, hquiet.envAt_eq hscope]
  exact .letIn hD' hB'

end Expr

/-! ### All expressions -/

mutual
/-- Whatever inference finds of an expression is derivable. -/
lemma Expr.sound (hprelude : config.prelude.isRankOne) (e : Expr) (hrank : e.isRankOne) :
    e.Sound config := by
  cases e with
  | literal value => exact Expr.sound_literal value
  | ident name => exact Expr.sound_ident name
  | internal name => exact Expr.sound_internal hprelude name
  | app func arg =>
    rw [Expr.isRankOne, Bool.and_eq_true] at hrank
    exact Expr.sound_app (func.sound hprelude hrank.1) (arg.sound hprelude hrank.2)
  | function params body =>
    rw [Expr.isRankOne, Bool.and_eq_true, List.all_eq_true] at hrank
    exact Expr.sound_function hrank.1 (body.sound hprelude hrank.2)
  | guards branches otherwise =>
    rw [Expr.isRankOne, Bool.and_eq_true] at hrank
    exact Expr.sound_guards (Expr.soundBranches hprelude branches hrank.1)
      (otherwise.sound hprelude hrank.2)
  | cases scrutinee arms =>
    rw [Expr.isRankOne, Bool.and_eq_true] at hrank
    exact Expr.sound_cases (scrutinee.sound hprelude hrank.1) (Expr.soundArms hprelude arms hrank.2)
  | letIn decls body =>
    rw [Expr.isRankOne, Bool.and_eq_true] at hrank
    exact Expr.sound_letIn (Decl.isRankOne_of_mem_datatypes hrank.1) (Decl.sound hprelude decls hrank.1)
      (body.sound hprelude hrank.2)

lemma Expr.soundBranches (hprelude : config.prelude.isRankOne) (branches : List (Expr × Expr))
    (hrank : Expr.isRankOneBranches branches) : Expr.SoundBranches config branches := by
  match branches with
  | [] => exact Expr.sound_branches_nil
  | (condition, branch) :: branches =>
    rw [Expr.isRankOneBranches, Bool.and_eq_true, Bool.and_eq_true] at hrank
    exact Expr.sound_branches_cons (condition.sound hprelude hrank.1.1) (branch.sound hprelude hrank.1.2)
      (Expr.soundBranches hprelude branches hrank.2)

lemma Expr.soundArms (hprelude : config.prelude.isRankOne) (arms : List (Pattern × Expr))
    (hrank : Expr.isRankOneArms arms) : Expr.SoundArms config arms := by
  match arms with
  | [] => exact Expr.sound_arms_nil
  | (pattern, body) :: arms =>
    rw [Expr.isRankOneArms, Bool.and_eq_true] at hrank
    exact Expr.sound_arms_cons (body.sound hprelude hrank.1) (Expr.soundArms hprelude arms hrank.2)

lemma Decl.sound (hprelude : config.prelude.isRankOne) (decls : List Decl)
    (hrank : Decl.isRankOneList decls) : Decl.Sound config decls := by
  match decls with
  | [] => exact Decl.sound_nil
  | .value name ascription value position :: decls =>
    rw [Decl.isRankOneList, Bool.and_eq_true, Bool.and_eq_true] at hrank
    refine Decl.sound_value (fun t ht => ?_) (value.sound hprelude hrank.1.2)
      (Decl.sound hprelude decls hrank.2)
    subst ht
    exact hrank.1.1
  | .datatype d :: decls =>
    rw [Decl.isRankOneList, Bool.and_eq_true] at hrank
    exact Decl.sound_datatype (Decl.sound hprelude decls hrank.2)
  | .fixity f :: decls =>
    rw [Decl.isRankOneList] at hrank
    exact Decl.sound_fixity (Decl.sound hprelude decls hrank)
end

end LetPoly
