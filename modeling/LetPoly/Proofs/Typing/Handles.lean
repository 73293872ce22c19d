import LetPoly.Proofs.Typing.Film

/-!
# No dangling handles

Inference lets go of no handle but those that it gave out itself, and of these only once nothing
refers to them any more. So every handle in a scope in use is live at each step of every run,
whether the run fails or not: no handle is read after its release (`Command.handles_stay_live`).

The proof is about filmed inference and guards a set of handles `K`: it holds the handles of all
scopes in use and what the walk has in hand, and new handles are never in it.
-/

namespace LetPoly

open Inference Session Stage

variable {α β σ : Type}

/-! ### Safe actions -/

/-- The action keeps the invariant, also when it fails, and fails with errors of the program only.
If it succeeds the outcome is as stated. -/
def Safe (I : σ → Prop) (s : σ) (x : EStateM (Fault TypeError) σ α) (Q : α → σ → Prop) : Prop :=
  match x s with
  | .ok a s' => I s' ∧ Q a s'
  | .error e s' => I s' ∧ ∃ error, e = .error error

namespace Safe

variable {I J : σ → Prop} {s s' : σ} {x : EStateM (Fault TypeError) σ α} {Q R : α → σ → Prop}

lemma of_ok {a : α} (hrun : x s = .ok a s') (hI : I s') (hQ : Q a s') : Safe I s x Q := by
  rw [Safe, hrun]
  exact ⟨hI, hQ⟩

lemma of_error {e : TypeError} (hrun : x s = .error (.error e) s') (hI : I s') : Safe I s x Q := by
  rw [Safe, hrun]
  exact ⟨hI, e, rfl⟩

lemma pure {a : α} (hI : I s) (hQ : Q a s) : Safe I s (Pure.pure a) Q := of_ok rfl hI hQ

lemma bind {f : α → EStateM (Fault TypeError) σ β} {T : β → σ → Prop} (hx : Safe I s x Q)
    (hf : ∀ a s', I s' → Q a s' → Safe I s' (f a) T) : Safe I s (x >>= f) T := by
  rw [Safe] at hx
  cases hrun : x s with
  | ok a s' =>
    rw [hrun] at hx
    rw [Safe, bind_of_ok hrun]
    exact hf a s' hx.1 hx.2
  | error e s' =>
    rw [hrun] at hx
    rw [Safe, bind_of_error hrun]
    exact hx

lemma imp (hx : Safe I s x Q) (hI : ∀ s', I s' → J s') (hQ : ∀ a s', I s' → Q a s' → R a s') :
    Safe J s x R := by
  rw [Safe] at hx ⊢
  cases hrun : x s with
  | ok a s' =>
    rw [hrun] at hx
    exact ⟨hI s' hx.1, hQ a s' hx.1 hx.2⟩
  | error e s' =>
    rw [hrun] at hx
    exact ⟨hI s' hx.1, hx.2⟩

lemma of_run (hx : Safe I s x Q) {a : α} (hrun : x s = .ok a s') : Q a s' := by
  rw [Safe, hrun] at hx
  exact hx.2

lemma error_of_run (hx : Safe I s x Q) {e : Fault TypeError} (hrun : x s = .error e s') :
    ∃ error, e = .error error := by
  rw [Safe, hrun] at hx
  exact hx.2

lemma true (hx : Safe I s x Q) : Safe I s x fun _ _ => True :=
  hx.imp (fun _ h => h) fun _ _ _ _ => trivial

end Safe

/-! ### Single actions -/

/-- The handles of a set are live, and none was taken after its release. -/
structure Guards (K : Handle → Prop) (s : Inference) : Prop where
  live {h : Handle} : K h → s.Live h
  stray : s.stray = []

/-- A set of handles with those of a list. -/
def Along (K : Handle → Prop) (handles : List Handle) (h : Handle) : Prop := h ∈ handles ∨ K h

section Actions

variable {K : Handle → Prop} {s : Inference} {h : Handle}

namespace Guards

lemma congr (hs : Guards K s) {s' : Inference} (hterm : ∀ h, K h → s'.term? h = s.term? h)
    (hstray : s'.stray = s.stray) : Guards K s' where
  live hh := by
    rw [Live, hterm _ hh]
    exact hs.live hh
  stray := hstray.trans hs.stray

lemma mono {K' : Handle → Prop} (hs : Guards K' s) (hsub : ∀ h, K h → K' h) : Guards K s :=
  ⟨fun hh => hs.live (hsub _ hh), hs.stray⟩

lemma along (hs : Guards K s) {handles : List Handle} (hlive : ∀ h ∈ handles, s.Live h) :
    Guards (Along K handles) s where
  live hh := hh.elim (hlive _) fun hK => hs.live hK
  stray := hs.stray

lemma settled (hs : Guards K s) : Guards K s.settled where
  live {h} hh := by
    obtain ⟨t, ht⟩ := hs.live hh
    have hsolve := Unifier.term?_solve s.unifier h
    rw [show s.unifier.term? h = some t from ht] at hsolve
    exact ⟨_, hsolve⟩
  stray := hs.stray

lemma replaced (hs : Guards K s) (hh : s.Live h) (t : Ty) : Guards K (s.replaced h t) where
  live {h'} hK := by
    obtain ⟨old, hold⟩ := hh
    rw [Live, term?_replaced hold]
    split
    · exact ⟨t, rfl⟩
    · exact hs.live hK
  stray := hs.stray

lemma defaulted (hs : Guards K s) (d : Ty) : Guards K (s.defaulted d) where
  live hh := Option.isSome_iff_exists.1
    ((term?_defaulted s d _).trans (Option.isSome_iff_exists.2 (hs.live hh)))
  stray := hs.stray

end Guards

lemma safe_fail {Q : α → Inference → Prop} (hs : Guards K s) (e : TypeError) :
    Safe (Guards K) s (fail e) Q :=
  .of_error rfl hs

lemma safe_fresh (hs : Guards K s) : Safe (Guards K) s fresh fun _ _ => True :=
  .of_ok (fresh_run s) (hs.congr (fun _ _ => rfl) rfl) trivial

lemma safe_instantiate (hs : Guards K s) (t : Ty) :
    Safe (Guards K) s (instantiate t) fun _ _ => True :=
  .of_ok (instantiate_run t s) (hs.congr (fun _ _ => rfl) rfl) trivial

lemma safe_freshList (hs : Guards K s) (count : Nat) :
    Safe (Guards K) s (freshList count) fun _ _ => True :=
  .of_ok (freshList_run count s) (hs.congr (fun _ _ => rfl) rfl) trivial

/-- A handle that is given out is not guarded. -/
lemma safe_track (hs : Guards K s) (t : Ty) :
    Safe (Guards K) s (track t) fun h s' => s'.Live h ∧ ¬ K h := by
  refine .of_ok (track_run s t) ?_ ⟨⟨t, s.term?_newHandle t⟩, fun hK => ?_⟩
  · exact hs.congr (fun h hK => term?_tracked_of_live (hs.live hK) t) rfl
  · exact s.not_live_newHandle t (hs.live hK)

lemma safe_equate (hs : Guards K s) (a b : Ty) (origin : TypeOrigin) :
    Safe (Guards K) s (equate a b origin) fun _ _ => True :=
  .of_ok (equate_run s a b origin) (hs.congr (fun _ _ => rfl) rfl) trivial

lemma safe_current (hs : Guards K s) (hh : s.Live h) :
    Safe (Guards K) s (current h) fun _ s' => s' = s := by
  obtain ⟨t, ht⟩ := hh
  exact .of_ok (current_run ht) hs rfl

lemma Guards.released (hs : Guards K s) (hh : ¬ K h) : Guards K (s.released h) :=
  hs.congr (fun _ hK => term?_released_of_ne fun heq => hh (heq ▸ hK)) rfl

lemma safe_release (hs : Guards K s) (hh : ¬ K h) :
    Safe (Guards K) s (release h) fun _ _ => True :=
  .of_ok (release_run s h) (hs.released hh) trivial

lemma safe_take (hs : Guards K s) (hlive : s.Live h) (hh : ¬ K h) :
    Safe (Guards K) s (take h) fun _ _ => True := by
  obtain ⟨t, ht⟩ := hlive
  exact .of_ok (take_run ht) (hs.released hh) trivial

/-- No equation waits any more. -/
def Inference.Idle (s : Inference) : Prop := s.unifier.queue = []

lemma safe_solve (hs : Guards K s) : Safe (Guards K) s Inference.solve fun _ s' => s'.Idle := by
  rw [Safe, Inference.solve, bind_get]
  dsimp only [Unifier.solve]
  cases (LetPoly.solve s.unifier.queue).failure with
  | none => exact ⟨hs.settled, rfl⟩
  | some unsolved => exact ⟨hs.settled, _, rfl⟩

lemma safe_default (hs : Guards K s) (d : Ty) :
    Safe (Guards K) s (modify fun s => s.defaulted d) fun _ _ => True :=
  .of_ok rfl (hs.defaulted d) trivial

lemma safe_ascribe (hs : Guards K s) (kinds : Scope Kind) (t : Ty) :
    Safe (Guards K) s (ascribe kinds t) fun _ _ => True := by
  cases hcheck : (checkAscription kinds t).2 with
  | error e =>
    rw [ascribe_of_error hcheck]
    exact safe_fail hs _
  | ok found => exact .of_ok (ascribe_run hcheck s) (hs.congr (fun _ _ => rfl) rfl) trivial

lemma safe_quantify (hs : Guards K s) (t : Ty) :
    Safe (Guards K) s (quantify t) fun _ s' => s' = s := by
  rw [quantify]
  cases t.quantify with
  | error e => exact safe_fail hs _
  | ok t => exact .pure hs rfl

lemma safe_generalize (hs : Guards K s) (t : Ty) (fixed : List String) :
    Safe (Guards K) s (generalize t fixed) fun _ s' => s' = s := by
  rw [generalize]
  cases t.generalize fixed with
  | error e => exact safe_fail hs _
  | ok t => exact .pure hs rfl

lemma safe_paramTy (hs : Guards K s) (kinds : Scope Kind) (p : Param) :
    Safe (Guards K) s (paramTy kinds p) fun _ _ => True := by
  rw [paramTy]
  cases p.ascription with
  | none => exact safe_fresh hs
  | some t => exact safe_ascribe hs kinds t

lemma safe_ascribedTy (hs : Guards K s) (kinds : Scope Kind) (ascription : Option Ty) :
    Safe (Guards K) s (ascribedTy kinds ascription) fun _ _ => True := by
  cases ascription with
  | none => exact .pure hs trivial
  | some t =>
    refine (safe_ascribe hs kinds t).bind fun t s' hs' _ => ?_
    exact (safe_quantify hs' t).bind fun t s'' hs'' _ => .pure hs'' trivial

lemma safe_provisionalTy (hs : Guards K s) (ascribed : Option Ty) :
    Safe (Guards K) s (provisionalTy ascribed) fun _ _ => True := by
  cases ascribed with
  | none => exact safe_fresh hs
  | some t => exact .pure hs trivial

lemma safe_freeVarsOf (hs : Guards K s) {handles : List Handle} (hlive : ∀ h ∈ handles, s.Live h) :
    Safe (Guards K) s (freeVarsOf handles) fun _ s' => s' = s := by
  induction handles with
  | nil => exact .pure hs rfl
  | cons h handles ih =>
    rw [List.forall_mem_cons] at hlive
    refine (safe_current hs hlive.1).bind ?_
    rintro t _ _ rfl
    exact (ih hlive.2).bind fun names s' hs' heq => .pure hs' heq

lemma safe_envVars (hs : Guards K s) {values : Scope Handle} (hvalues : ∀ h ∈ values.values, K h)
    (skip : String) : Safe (Guards K) s (envVars values skip) fun _ s' => s' = s :=
  safe_freeVarsOf hs fun h hh => hs.live (hvalues h (values.others_subset skip hh))

lemma safe_demandedTy (hs : Guards K s) (hh : s.Live h) (ascribed : Option Ty) :
    Safe (Guards K) s (demandedTy h ascribed) fun _ _ => True := by
  have hcurrent : Safe (Guards K) s (do let ty ← current h; return (ty, []) :
      InferM (Ty × List (String × String))) fun _ _ => True :=
    (safe_current hs hh).bind fun t s' hs' _ => .pure hs' trivial
  match ascribed with
  | some (.scheme vars body) =>
    exact .of_ok (skolemize_run ⟨vars, body⟩ s) (hs.congr (fun _ _ => rfl) rfl) trivial
  | none => exact hcurrent
  | some (.con _ _) => exact hcurrent
  | some (.var _ _ _) => exact hcurrent
  | some (.app _ _) => exact hcurrent

lemma safe_refuseEscape (hs : Guards K s) {values : Scope Handle}
    (hvalues : ∀ h ∈ values.values, K h) (name : String) (rigid : List (String × String)) :
    Safe (Guards K) s (refuseEscape values name rigid) fun _ s' => s' = s := by
  cases rigid with
  | nil => exact .pure hs rfl
  | cons entry rigid =>
    refine (safe_envVars hs hvalues name).bind ?_
    rintro fixed _ _ rfl
    cases (entry :: rigid).find? (·.2 ∈ fixed) with
    | none => exact .pure hs rfl
    | some _ => exact safe_fail hs _

lemma safe_closeTy (hs : Guards K s) {values : Scope Handle} (hvalues : ∀ h ∈ values.values, K h)
    (name : String) (hh : s.Live h) (ascribed : Option Ty) :
    Safe (Guards K) s (closeTy values name h ascribed) fun _ s' =>
      s'.unifier.queue = s.unifier.queue := by
  cases ascribed with
  | some t => exact .pure hs rfl
  | none =>
    refine (safe_envVars hs hvalues name).bind ?_
    rintro fixed _ _ rfl
    refine (safe_current hs hh).bind ?_
    rintro t _ _ rfl
    refine (safe_generalize hs t fixed).bind ?_
    rintro general _ _ rfl
    exact .of_ok (replace_run _ h general) (hs.replaced hh general) rfl

lemma safe_constructorInstance (hs : Guards K s) {values : Scope Handle}
    (hvalues : ∀ h ∈ values.values, K h) (name : String) :
    Safe (Guards K) s (constructorInstance values name) fun _ _ => True := by
  rw [constructorInstance]
  cases hlookup : values.lookup name with
  | none => exact safe_fail hs _
  | some h =>
    have hh := hs.live (hvalues h (Scope.mem_of_lookup hlookup))
    exact (safe_current hs hh).bind fun t s' hs' _ => safe_instantiate hs' t

end Actions

/-! ### Safe films -/

/-- Every handle in use is live, and none was taken after its release. -/
structure Frame.Sound (frame : Frame) : Prop where
  live : ∀ h ∈ frame.handles, frame.state.Live h
  stray : frame.state.stray = []

/-- The handles of a set are guarded, those aside among them, and all frames are sound. -/
structure Film.Holds (aside : List Handle) (K : Handle → Prop) (f : Film) : Prop where
  aside_eq : f.aside = aside
  aside_le : ∀ h ∈ aside, K h
  guards : Guards K f.state
  sound : ∀ frame ∈ f.frames, frame.Sound

variable {aside : List Handle} {K : Handle → Prop}

namespace Film.Holds

variable {f : Film}

lemma along (hf : f.Holds aside K) {handles : List Handle}
    (hlive : ∀ h ∈ handles, f.state.Live h) : f.Holds aside (Along K handles) :=
  ⟨hf.aside_eq, fun h hh => .inr (hf.aside_le h hh), hf.guards.along hlive, hf.sound⟩

lemma mono {K' : Handle → Prop} (hf : f.Holds aside K') (hsub : ∀ h, K h → K' h)
    (haside : ∀ h ∈ aside, K h) : f.Holds aside K :=
  ⟨hf.aside_eq, haside, hf.guards.mono hsub, hf.sound⟩

lemma shoot (hf : f.Holds aside K) {values : Scope Handle} {s : Inference} (hs : Guards K s)
    (hvalues : ∀ h ∈ values.values, s.Live h) : (f.shoot values s).Holds aside K where
  aside_eq := hf.aside_eq
  aside_le := hf.aside_le
  guards := hs
  sound := List.forall_mem_cons.2 ⟨⟨fun h hh => (List.mem_append.1 hh).elim (hvalues h) fun hh =>
    hs.live (hf.aside_le h (hf.aside_eq ▸ hh)), hs.stray⟩, hf.sound⟩

end Film.Holds

section Walk

variable {f : Film} {values : Scope Handle} {Q : α → Inference → Prop}

lemma safe_step {x : InferM α} (hf : f.Holds aside K) (hvalues : ∀ h ∈ values.values, K h)
    (hx : Safe (Guards K) f.state x Q) :
    Safe (Film.Holds aside K) f (step values x) fun a f' => Q a f'.state := by
  cases hrun : x f.state with
  | ok a s =>
    rw [Safe, hrun] at hx
    rw [Safe, Film.step_of_ok hrun]
    exact ⟨hf.shoot hx.1 fun h hh => hx.1.live (hvalues h hh), hx.2⟩
  | error e s =>
    rw [Safe, hrun] at hx
    rw [Safe, Film.step_of_error hrun]
    exact ⟨hf.shoot hx.1 fun h hh => hx.1.live (hvalues h hh), hx.2⟩

/-- What is safe with more handles guarded is safe without them. -/
lemma Safe.drop {x : RunM Film α} {handles : List Handle} {Q : α → Film → Prop}
    (hx : Safe (Film.Holds aside (Along K handles)) f x Q) (hf : f.Holds aside K) :
    Safe (Film.Holds aside K) f x fun a f' => f'.Holds aside (Along K handles) ∧ Q a f' :=
  hx.imp (fun _ h => h.mono (fun _ => .inr) hf.aside_le) fun _ _ h hQ => ⟨h, hQ⟩

lemma safe_releaseAll {handles : List Handle} (hf : f.Holds aside K)
    (hvalues : ∀ h ∈ values.values, K h) (hnew : ∀ h ∈ handles, ¬ K h) :
    Safe (Film.Holds aside K) f (releaseAll values handles) fun _ _ => True := by
  induction handles generalizing f with
  | nil => exact .pure hf trivial
  | cons h handles ih =>
    rw [List.forall_mem_cons] at hnew
    refine (safe_step hf hvalues (safe_release hf.guards hnew.1)).bind fun _ f' hf' _ => ?_
    exact ih hf' hnew.2

lemma safe_takeAll {handles : List Handle} (hf : f.Holds aside K)
    (hvalues : ∀ h ∈ values.values, K h) (hnodup : handles.Nodup)
    (hlive : ∀ h ∈ handles, f.state.Live h) (hnew : ∀ h ∈ handles, ¬ K h) :
    Safe (Film.Holds aside K) f (takeAll values handles) fun _ _ => True := by
  induction handles generalizing f with
  | nil => exact .pure hf trivial
  | cons h handles ih =>
    rw [List.forall_mem_cons] at hlive hnew
    rw [List.nodup_cons] at hnodup
    -- the handles still to be taken are guarded while the first one is
    have hrest := hf.along hlive.2
    have htake := safe_take hrest.guards hlive.1 fun hh => hh.elim hnodup.1 hnew.1
    refine ((safe_step hrest (fun h hh => .inr (hvalues h hh)) htake).drop hf).bind ?_
    rintro t f' hf' ⟨hrest', _⟩
    refine (ih hf' hnodup.2 (fun h hh => hrest'.guards.live (.inl hh)) hnew.2).bind ?_
    exact fun types f'' hf'' _ => .pure hf'' trivial

/-- Parameters come into scope under new handles, no two of them the same. -/
lemma safe_params (config : Config) (kinds : Scope Kind) (params : List Param)
    (scope : Scope Handle) (hf : f.Holds aside K) (hscope : ∀ h ∈ scope.values, K h) :
    Safe (Film.Holds aside K) f (bindParams config kinds params scope) fun r f' => r.2.Nodup ∧
      (∀ h ∈ r.2, f'.state.Live h) ∧ (∀ h ∈ r.2, ¬ K h) ∧
      ∀ h ∈ r.1.values, Along K r.2 h := by
  induction params generalizing f K scope with
  | nil =>
    refine (safe_step hf hscope (.pure (Q := fun r _ => r = (scope, [])) hf.guards rfl)).imp
      (fun _ h => h) ?_
    rintro _ f' _ rfl
    exact ⟨List.nodup_nil, by simp, by simp, fun h hh => .inr (hscope h hh)⟩
  | cons p params ih =>
    refine (safe_step hf hscope (safe_paramTy hf.guards kinds p)).bind fun t f₁ hf₁ _ => ?_
    refine (safe_step hf₁ hscope (safe_track hf₁.guards t)).bind fun h f₂ hf₂ hh => ?_
    have hscope' : ∀ h' ∈ (config.bind p.name h scope).values, Along K [h] h' := fun h' hh' =>
      (Config.mem_values_bind hh').imp List.mem_singleton.2 (hscope h')
    have hadd : f₂.Holds aside (Along K [h]) := hf₂.along (by simpa using hh.1)
    refine ((ih _ hadd hscope').drop hf₂).bind ?_
    rintro ⟨scope', handles⟩ f₃ hf₃ ⟨hadd₃, hnodup, hlive, hnew, hvalues⟩
    refine .pure hf₃ ⟨List.nodup_cons.2 ⟨fun hmem => hnew h hmem (.inl List.mem_cons_self),
      hnodup⟩, ?_, ?_, fun h' hh' => ?_⟩
    · exact List.forall_mem_cons.2 ⟨hadd₃.guards.live (.inl List.mem_cons_self), hlive⟩
    · exact List.forall_mem_cons.2 ⟨hh.2, fun h' hh' hK => hnew h' hh' (.inr hK)⟩
    · rcases hvalues h' hh' with hh' | hh' | hh'
      · exact .inl (List.mem_cons_of_mem _ hh')
      · exact .inl (List.mem_singleton.1 hh' ▸ List.mem_cons_self)
      · exact .inr hh'

lemma mem_innermost_bind {config : Config} {name : String} {h h' : Handle} {scope : Scope Handle}
    (hh : h' ∈ (config.bind name h scope).innermost.values) :
    h' = h ∨ h' ∈ scope.innermost.values := by
  obtain ⟨entry, hentry, rfl⟩ := List.mem_map.1 hh
  rcases Config.mem_innermost_bind hentry with ⟨rfl, _⟩ | hentry
  · exact .inl rfl
  · exact .inr (List.mem_map_of_mem hentry)

/-- A scope whose handles are live, those of its innermost table being new or the given ones. -/
structure Opens (K : Handle → Prop) (old : List Handle) (scope : Scope Handle) (s : Inference) :
    Prop where
  live : ∀ h ∈ scope.values, s.Live h
  innermost : ∀ h ∈ scope.innermost.values, h ∈ old ∨ ¬ K h

lemma safe_captures (config : Config) (captures : List (String × Ty)) (scope : Scope Handle)
    (hf : f.Holds aside K) (hscope : ∀ h ∈ scope.values, K h) :
    Safe (Film.Holds aside K) f (bindCaptures config captures scope) fun scope' f' =>
      Opens K scope.innermost.values scope' f'.state := by
  induction captures generalizing f K scope with
  | nil =>
    refine (safe_step hf hscope (.pure (Q := fun r _ => r = scope) hf.guards rfl)).imp
      (fun _ h => h) ?_
    rintro _ f' hf' rfl
    exact ⟨fun h hh => hf'.guards.live (hscope h hh), fun h hh => .inl hh⟩
  | cons c captures ih =>
    refine (safe_step hf hscope (safe_track hf.guards c.2)).bind fun h f₁ hf₁ hh => ?_
    have hscope' : ∀ h' ∈ (config.bind c.1 h scope).values, Along K [h] h' := fun h' hh' =>
      (Config.mem_values_bind hh').imp List.mem_singleton.2 (hscope h')
    have hadd : f₁.Holds aside (Along K [h]) := hf₁.along (by simpa using hh.1)
    refine ((ih _ hadd hscope').drop hf₁).imp (fun _ h => h) ?_
    rintro scope' f' _ ⟨_, hopens⟩
    refine ⟨hopens.live, fun h' hh' => ?_⟩
    rcases hopens.innermost h' hh' with hh' | hh'
    · rcases mem_innermost_bind hh' with rfl | hh'
      · exact .inr hh.2
      · exact .inl hh'
    · exact .inr fun hK => hh' (.inr hK)

/-- What a pattern brings into scope has new handles, but for a name for the scrutinee. -/
lemma safe_pattern (config : Config) (pattern : Pattern) {scrutinee : Handle}
    (hf : f.Holds aside K) (hvalues : ∀ h ∈ values.values, K h) (hscrutinee : K scrutinee) :
    Safe (Film.Holds aside K) f (bindPattern config scrutinee values.child pattern)
      fun scope f' => Opens K [scrutinee] scope f'.state := by
  have hopens {f' : Film} (hf' : f'.Holds aside K) :
      Opens K [scrutinee] values.child f'.state :=
    ⟨fun h hh => hf'.guards.live (hvalues h hh), fun h hh => (by cases hh)⟩
  have hcurrent {f' : Film} (hf' : f'.Holds aside K) : Safe (Film.Holds aside K) f'
      (step values.child (current scrutinee)) fun _ _ => True :=
    (safe_step hf' hvalues (safe_current hf'.guards (hf'.guards.live hscrutinee))).true
  cases pattern with
  | capture name =>
    have hbind : ∀ h ∈ (config.bind name scrutinee values.child).values, K h := fun h hh =>
      (Config.mem_values_bind hh).elim (fun heq => heq ▸ hscrutinee) (hvalues h)
    refine (safe_step hf hbind (.pure (Q := fun r _ => r = config.bind name scrutinee values.child)
      hf.guards rfl)).imp (fun _ h => h) ?_
    rintro _ f' hf' rfl
    refine ⟨fun h hh => hf'.guards.live (hbind h hh), fun h hh => ?_⟩
    exact (mem_innermost_bind hh).imp List.mem_singleton.2 fun hh => by cases hh
  | literal value =>
    refine (hcurrent hf).bind fun t f₁ hf₁ _ => ?_
    refine (safe_step hf₁ hvalues (safe_equate hf₁.guards _ _ _)).bind fun _ f₂ hf₂ _ => ?_
    exact .pure hf₂ (hopens hf₂)
  | constructor name =>
    refine (safe_step hf hvalues (safe_constructorInstance hf.guards hvalues name)).bind
      fun found f₁ hf₁ _ => (hcurrent hf₁).bind fun t f₂ hf₂ _ => ?_
    refine (safe_step hf₂ hvalues (safe_equate hf₂.guards _ _ _)).bind fun _ f₃ hf₃ _ => ?_
    exact .pure hf₃ (hopens hf₃)
  | data name captures =>
    refine (safe_step hf hvalues (safe_constructorInstance hf.guards hvalues name)).bind
      fun found f₁ hf₁ _ => ?_
    have hrest {f₁ : Film} (hf₁ : f₁.Holds aside K) : Safe (Film.Holds aside K) f₁ (do
        let fields ← step values.child (freshList captures.length)
        let expected ← step values.child (current scrutinee)
        step values.child (equate (.function fields expected) found (.constructor name))
        bindCaptures config (captures.zip fields) values.child)
          fun scope f' => Opens K [scrutinee] scope f'.state := by
      refine (safe_step hf₁ hvalues (safe_freshList hf₁.guards _)).bind fun fields f₂ hf₂ _ => ?_
      refine (hcurrent hf₂).bind fun t f₃ hf₃ _ => ?_
      refine (safe_step hf₃ hvalues (safe_equate hf₃.guards _ _ _)).bind fun _ f₄ hf₄ _ => ?_
      refine (safe_captures config _ values.child hf₄ hvalues).imp (fun _ h => h)
        fun scope f₅ _ h => ?_
      exact ⟨h.live, fun h' hh' => (h.innermost h' hh').imp_left fun hh' => by cases hh'⟩
    dsimp only
    split
    · exact (safe_step hf₁ hvalues (safe_fail (Q := fun _ _ => True) hf₁.guards _)).bind
        fun _ f₂ hf₂ _ => hrest hf₂
    · exact hrest hf₁

/-- The type of a value that is in scope is settled in its place, and nothing is left to solve. -/
lemma safe_settle (name : String) (ascribed : Option Ty) {h : Handle} (found : Ty)
    (hf : f.Holds aside K) (hvalues : ∀ h ∈ values.values, K h) (hh : K h) :
    Safe (Film.Holds aside K) f (settleTy values name ascribed h found) fun _ f' =>
      f'.state.Idle := by
  refine (safe_step hf hvalues
    (safe_demandedTy hf.guards (hf.guards.live hh) ascribed)).bind fun demanded f₁ hf₁ _ => ?_
  refine (safe_step hf₁ hvalues (safe_equate hf₁.guards _ _ _)).bind fun _ f₂ hf₂ _ => ?_
  refine (safe_step hf₂ hvalues (safe_solve hf₂.guards)).bind fun _ f₃ hf₃ hidle => ?_
  refine (safe_step hf₃ hvalues (safe_refuseEscape hf₃.guards hvalues name _)).bind
    fun _ f₄ hf₄ hstate => ?_
  refine (safe_step hf₄ hvalues
    (safe_closeTy hf₄.guards hvalues name (hf₄.guards.live hh) ascribed)).imp (fun _ h => h) ?_
  exact fun _ f₅ _ hqueue => hqueue.trans (hstate ▸ hidle)

end Walk

/-! ### Declarations -/

/-- The handles of a set are guarded, those in scope are live, and those of the innermost table are
not among the former. -/
structure SessionOn.Holds (aside : List Handle) (K : Handle → Prop) (f : SessionOn Film) : Prop where
  film : f.inference.Holds aside K
  live : ∀ h ∈ f.env.values.values, f.inference.state.Live h
  apart : ∀ h ∈ f.env.values.innermost.values, ¬ K h

section Declarations

variable {f : SessionOn Film}

/-- A step that leaves the scope alone guards what is in it. -/
lemma safe_stepIn {x : InferM α} {Q : α → Inference → Prop} (hf : f.Holds aside K)
    (hx : Safe (Guards (Along K f.env.values.values)) f.inference.state x Q) :
    Safe (SessionOn.Holds aside K) f (stepIn (liftM x)) fun a f' =>
      f'.env = f.env ∧ Q a f'.inference.state := by
  have hshoot {s : Inference} (hs : Guards (Along K f.env.values.values) s) :
      (f.shoot ⟨s, f.env⟩).Holds aside K :=
    ⟨hf.film.shoot (hs.mono fun _ => .inr) fun h hh => hs.live (.inl hh),
      fun h hh => hs.live (.inl hh), hf.apart⟩
  cases hrun : x f.inference.state with
  | ok a s =>
    rw [Safe, hrun] at hx
    rw [Safe, Film.stepIn_of_ok (liftM_of_ok hrun)]
    exact ⟨hshoot hx.1, rfl, hx.2⟩
  | error e s =>
    rw [Safe, hrun] at hx
    rw [Safe, Film.stepIn_of_error (liftM_of_error hrun)]
    exact ⟨hshoot hx.1, hx.2⟩

lemma safe_modifyValues (hf : f.Holds aside K) {g : Scope Handle → Scope Handle}
    (hlive : ∀ h ∈ (g f.env.values).values, f.inference.state.Live h)
    (hapart : ∀ h ∈ (g f.env.values).innermost.values, ¬ K h) :
    Safe (SessionOn.Holds aside K) f (stepIn (modifyValues g)) fun _ f' =>
      f'.env.values = g f.env.values ∧ f'.inference.state = f.inference.state := by
  have hrun : stepIn (modifyValues g) f =
    .ok () (f.shoot ⟨f.inference.state, { f.env with values := g f.env.values }⟩) := rfl
  exact .of_ok hrun ⟨hf.film.shoot hf.film.guards hlive, hlive, hapart⟩ ⟨rfl, rfl⟩

lemma safe_scopes (hf : f.Holds aside K) :
    Safe (SessionOn.Holds aside K) f (stepIn scopes) fun env f' =>
      env = f.env ∧ f'.env = f.env ∧ f'.inference.state = f.inference.state := by
  have hrun : stepIn scopes f = .ok f.env (f.shoot f.plain) := rfl
  exact .of_ok hrun ⟨hf.film.shoot hf.film.guards hf.live, hf.live, hf.apart⟩ ⟨rfl, rfl, rfl⟩

/-- What a filmed action keeps while it guards the scope and some more handles. -/
lemma safe_lift {x : RunM Film α} {handles : List Handle} {Q : α → Film → Prop} (hf : f.Holds aside K)
    (hscope : ∀ h ∈ f.env.values.values, h ∈ handles)
    (hx : Safe (Film.Holds aside (Along K handles)) f.inference x Q) :
    Safe (SessionOn.Holds aside K) f (liftM x) fun a f' =>
      f'.env = f.env ∧ f'.inference.Holds aside (Along K handles) ∧ Q a f'.inference := by
  have hholds {film : Film} (hfilm : film.Holds aside (Along K handles)) :
      SessionOn.Holds aside K { f with inference := film } :=
    ⟨hfilm.mono (fun _ => .inr) hf.film.aside_le,
      fun h hh => hfilm.guards.live (.inl (hscope h hh)), hf.apart⟩
  rw [Safe] at hx
  rw [Safe]
  simp only [liftM, monadLift, MonadLift.monadLift]
  cases hrun : x f.inference with
  | ok a film =>
    rw [hrun] at hx
    exact ⟨hholds hx.1, rfl, hx⟩
  | error e film =>
    rw [hrun] at hx
    exact ⟨hholds hx.1, hx.2⟩

lemma safe_within {film : Film} {env : Env} {x : RunM (SessionOn Film) Unit}
    (hx : Safe (SessionOn.Holds aside K) ⟨film, env⟩ x fun _ _ => True) :
    Safe (Film.Holds aside K) film (within env x) fun env' film' =>
      SessionOn.Holds aside K ⟨film', env'⟩ := by
  rw [Safe] at hx
  rw [Safe, within]
  cases hrun : x ⟨film, env⟩ with
  | ok a f =>
    rw [hrun] at hx
    exact ⟨hx.1.film, hx.1⟩
  | error e f =>
    rw [hrun] at hx
    exact ⟨hx.1.film, hx.2⟩

/-- A live handle that is not guarded is brought into scope. -/
lemma safe_enter (hf : f.Holds aside K) {h : Handle} {g : Scope Handle → Scope Handle}
    (hh : f.inference.state.Live h ∧ ¬ K h)
    (hvalues : ∀ h' ∈ (g f.env.values).values, h' = h ∨ h' ∈ f.env.values.values)
    (hinnermost : ∀ h' ∈ (g f.env.values).innermost.values,
      h' = h ∨ h' ∈ f.env.values.innermost.values) :
    Safe (SessionOn.Holds aside K) f (stepIn (modifyValues g)) fun _ f' =>
      f'.env.values = g f.env.values ∧ f'.inference.state = f.inference.state := by
  refine safe_modifyValues hf (fun h' hh' => ?_) fun h' hh' => ?_
  · exact (hvalues h' hh').elim (fun heq => heq ▸ hh.1) (hf.live h')
  · exact (hinnermost h' hh').elim (fun heq => heq ▸ hh.2) (hf.apart h')

lemma safe_enter_insert (hf : f.Holds aside K) {h : Handle} (hh : f.inference.state.Live h ∧ ¬ K h)
    (name : String) :
    Safe (SessionOn.Holds aside K) f (stepIn (modifyValues (·.insert name h))) fun _ _ => True := by
  refine (safe_enter hf hh (fun h' hh' => Scope.mem_values_insert hh') fun h' hh' => ?_).true
  obtain ⟨entry, hentry, rfl⟩ := List.mem_map.1 hh'
  rcases Table.mem_enter hentry with rfl | hentry
  · exact .inl rfl
  · exact .inr (List.mem_map_of_mem hentry)

/-- A type is tracked, which gives a new handle. -/
lemma safe_trackIn (hf : f.Holds aside K) (t : Ty) :
    Safe (SessionOn.Holds aside K) f (stepIn (track t)) fun h f' =>
      f'.env = f.env ∧ f'.inference.state.Live h ∧ ¬ K h :=
  (safe_stepIn hf (safe_track (hf.film.guards.along hf.live) t)).imp (fun _ h => h)
    fun _ _ _ h => ⟨h.1, h.2.1, fun hK => h.2.2 (.inr hK)⟩

lemma safe_registerEach (d : Datatype) (constructors : List Constructor) (hf : f.Holds aside K) :
    Safe (SessionOn.Holds aside K) f (registerEach d constructors) fun _ _ => True := by
  induction constructors generalizing f with
  | nil => exact .pure hf trivial
  | cons c constructors ih =>
    refine (safe_stepIn hf (safe_quantify (hf.film.guards.along hf.live) _)).bind
      fun t f₁ hf₁ _ => (safe_trackIn hf₁ t).bind fun h f₂ hf₂ hh => ?_
    exact (safe_enter_insert hf₂ hh.2 c.name).bind fun _ f₃ hf₃ _ => ih hf₃

lemma safe_registerAll (ds : List Datatype) (hf : f.Holds aside K) :
    Safe (SessionOn.Holds aside K) f (registerAll ds) fun _ _ => True := by
  induction ds generalizing f with
  | nil => exact .pure hf trivial
  | cons d ds ih =>
    exact (safe_registerEach d d.constructors hf).bind fun _ f' hf' _ => ih hf'

lemma safe_datatypes (group : List Datatype) (hf : f.Holds aside K) :
    Safe (SessionOn.Holds aside K) f (declareDatatypes group) fun _ _ => True := by
  have htypes : Safe (SessionOn.Holds aside K) f
      (stepIn ((declareTypes group).adaptExcept fun e => .error (.kind e.item)))
      fun _ _ => True := by
    cases hfound : inferGroup f.plain.env.kinds group with
    | error e =>
      rw [Safe, Film.stepIn_of_error (adaptExcept_of_error (declareTypes_of_error hfound))]
      exact ⟨⟨hf.film.shoot hf.film.guards hf.live, hf.live, hf.apart⟩, _, rfl⟩
    | ok found =>
      rw [Safe, Film.stepIn_of_ok (adaptExcept_eq_ok.2 (declareTypes_of_ok hfound))]
      have hguards : Guards K (f.inference.state.noted found.recorded) :=
        hf.film.guards.congr (fun _ _ => rfl) rfl
      exact ⟨⟨hf.film.shoot hguards hf.live, hf.live, hf.apart⟩, trivial⟩
  exact htypes.bind fun found f' hf' _ => safe_registerAll found.2 hf'

/-- A value is in scope under a new handle while its own type is found. -/
lemma safe_valueWith (config : Config) (name : String) (ascription : Option Ty)
    {filmValue : Env → RunM Film Ty}
    (hvalue : ∀ {K : Handle → Prop} {film : Film} (env : Env), film.Holds aside K →
      (∀ h ∈ env.values.values, K h) →
      Safe (Film.Holds aside K) film (filmValue env) fun _ _ => True) (hf : f.Holds aside K) :
    Safe (SessionOn.Holds aside K) f (bindValueWith config name ascription filmValue)
      fun _ f' => f'.inference.state.Idle := by
  refine (safe_scopes hf).bind fun env f₁ hf₁ _ => ?_
  refine (safe_stepIn hf₁ (safe_ascribedTy (hf₁.film.guards.along hf₁.live) _ _)).bind
    fun ascribed f₂ hf₂ _ => ?_
  refine (safe_stepIn hf₂ (safe_provisionalTy (hf₂.film.guards.along hf₂.live) _)).bind
    fun provisional f₃ hf₃ _ => (safe_trackIn hf₃ provisional).bind fun h f₄ hf₄ hh => ?_
  refine (safe_enter hf₄ hh.2 (fun h' hh' => Config.mem_values_bind hh')
    fun h' hh' => mem_innermost_bind hh').bind fun _ f₅ hf₅ h₅ => ?_
  refine (safe_scopes hf₅).bind ?_
  rintro env f₆ hf₆ ⟨rfl, henv₆, hstate₆⟩
  -- the handle is guarded even if its name binds nothing
  have hguard : f₆.inference.Holds aside (Along K (h :: f₅.env.values.values)) := by
    refine hf₆.film.along (List.forall_mem_cons.2 ⟨?_, fun h' hh' => ?_⟩)
    · rw [hstate₆, h₅.2]
      exact hh.2.1
    · exact hf₆.live h' (henv₆ ▸ hh')
  have hvalues : ∀ h' ∈ f₅.env.values.values, Along K (h :: f₅.env.values.values) h' :=
    fun h' hh' => .inl (List.mem_cons_of_mem _ hh')
  have hscope {f' : SessionOn Film} (henv : f'.env = f₅.env) :
      ∀ h' ∈ f'.env.values.values, h' ∈ h :: f₅.env.values.values :=
    fun h' hh' => List.mem_cons_of_mem _ (henv ▸ hh')
  refine (safe_lift hf₆ (hscope henv₆) (hvalue f₅.env hguard hvalues)).bind ?_
  rintro found f₇ hf₇ ⟨henv₇, hguard₇, _⟩
  refine (safe_lift hf₇ (hscope (henv₇.trans henv₆))
    (safe_settle name ascribed found hguard₇ hvalues (.inl List.mem_cons_self))).imp
    (fun _ h => h) ?_
  exact fun _ f₈ _ h₈ => h₈.2.2

end Declarations

/-! ### The walk -/

mutual
lemma Expr.safe_infer (config : Config) (env : Env) :
    ∀ (e : Expr) {K : Handle → Prop} {f : Film}, f.Holds aside K →
      (∀ h ∈ env.values.values, K h) →
      Safe (Film.Holds aside K) f (e.infer config env) fun _ _ => True
  | .literal value, K, f, hf, henv => by
    rw [Expr.infer]
    exact safe_step hf henv (.pure (Q := fun _ _ => True) hf.guards trivial)
  | .ident name, K, f, hf, henv => by
    rw [Expr.infer]
    cases hlookup : env.values.lookup name with
    | none => exact safe_step hf henv (safe_fail (Q := fun _ _ => True) hf.guards _)
    | some h =>
      have hh := hf.guards.live (henv h (Scope.mem_of_lookup hlookup))
      refine (safe_step hf henv (safe_current hf.guards hh)).bind fun t f₁ hf₁ _ => ?_
      exact safe_step hf₁ henv (safe_instantiate hf₁.guards t)
  | .internal name, K, f, hf, henv => by
    rw [Expr.infer]
    cases config.prelude.internals.find? name with
    | none => exact safe_step hf henv (safe_fail (Q := fun _ _ => True) hf.guards _)
    | some t => exact safe_step hf henv (safe_instantiate hf.guards t)
  | .app func arg, K, f, hf, henv => by
    rw [Expr.infer]
    refine (func.safe_infer config env hf henv).bind fun t f₁ hf₁ _ => ?_
    refine (safe_step hf₁ henv (safe_track hf₁.guards t)).bind fun h f₂ hf₂ hh => ?_
    have henv' : ∀ h' ∈ env.values.values, Along K [h] h' := fun h' hh' => .inr (henv h' hh')
    have hadd : f₂.Holds aside (Along K [h]) := hf₂.along (by simpa using hh.1)
    refine ((arg.safe_infer config env hadd henv').drop hf₂).bind ?_
    rintro a f₃ hf₃ ⟨hadd₃, _⟩
    refine ((safe_step hadd₃ henv' (safe_fresh hadd₃.guards)).drop hf₃).bind ?_
    rintro result f₄ hf₄ ⟨hadd₄, _⟩
    have htake := safe_take hf₄.guards (hadd₄.guards.live (.inl List.mem_cons_self)) hh.2
    refine (safe_step hf₄ henv htake).bind fun func f₅ hf₅ _ => ?_
    exact (safe_step hf₅ henv (safe_equate hf₅.guards _ _ _)).bind
      fun _ f₆ hf₆ _ => .pure hf₆ trivial
  | .function params body, K, f, hf, henv => by
    rw [Expr.infer]
    refine (safe_params config env.kinds params env.values.child hf henv).bind ?_
    rintro ⟨scope, handles⟩ f₁ hf₁ ⟨hnodup, hlive, hnew, hvalues⟩
    refine ((body.safe_infer config { env with values := scope } (hf₁.along hlive)
      hvalues).drop hf₁).bind ?_
    rintro result f₂ hf₂ ⟨hadd₂, _⟩
    have hlive₂ : ∀ h ∈ handles, f₂.state.Live h := fun h hh => hadd₂.guards.live (.inl hh)
    exact (safe_takeAll hf₂ henv hnodup hlive₂ hnew).bind fun _ f₃ hf₃ _ => .pure hf₃ trivial
  | .guards branches otherwise, K, f, hf, henv => by
    rw [Expr.infer]
    refine (safe_step hf henv (safe_fresh hf.guards)).bind fun t f₁ hf₁ _ => ?_
    refine (safe_step hf₁ henv (safe_track hf₁.guards t)).bind fun h f₂ hf₂ hh => ?_
    have henv' : ∀ h' ∈ env.values.values, Along K [h] h' := fun h' hh' => .inr (henv h' hh')
    have hresult : Along K [h] h := .inl List.mem_cons_self
    have hadd : f₂.Holds aside (Along K [h]) := hf₂.along (by simpa using hh.1)
    refine ((Expr.safe_inferBranches config env branches hadd henv' hresult).drop hf₂).bind ?_
    rintro _ f₃ hf₃ ⟨hadd₃, _⟩
    refine ((otherwise.safe_infer config env hadd₃ henv').drop hf₃).bind ?_
    rintro other f₄ hf₄ ⟨hadd₄, _⟩
    have hcurrent := safe_current hadd₄.guards (hadd₄.guards.live hresult)
    refine ((safe_step hadd₄ henv' hcurrent).drop hf₄).bind ?_
    rintro result f₅ hf₅ ⟨hadd₅, _⟩
    refine ((safe_step hadd₅ henv' (safe_equate hadd₅.guards _ _ _)).drop hf₅).bind ?_
    rintro _ f₆ hf₆ ⟨hadd₆, _⟩
    exact safe_step hf₆ henv (safe_take hf₆.guards (hadd₆.guards.live hresult) hh.2)
  | .cases scrutinee arms, K, f, hf, henv => by
    rw [Expr.infer]
    refine (scrutinee.safe_infer config env hf henv).bind fun t f₁ hf₁ _ => ?_
    refine (safe_step hf₁ henv (safe_track hf₁.guards t)).bind fun h f₂ hf₂ hh => ?_
    have henv' {handles : List Handle} : ∀ h' ∈ env.values.values, Along K handles h' :=
      fun h' hh' => .inr (henv h' hh')
    have hadd : f₂.Holds aside (Along K [h]) := hf₂.along (by simpa using hh.1)
    refine ((safe_step hadd henv' (safe_fresh hadd.guards)).drop hf₂).bind ?_
    rintro t' f₃ hf₃ ⟨hadd₃, _⟩
    refine ((safe_step hadd₃ henv' (safe_track hadd₃.guards t')).drop hf₃).bind ?_
    rintro h' f₄ hf₄ ⟨hadd₄, hlive', hnew'⟩
    have hh' : ¬ K h' := fun hK => hnew' (.inr hK)
    have hne : h ≠ h' := fun heq => hnew' (.inl (heq ▸ List.mem_cons_self))
    have hboth : f₄.Holds aside (Along K [h, h']) :=
      hf₄.along (by simpa using ⟨hadd₄.guards.live (.inl List.mem_cons_self), hlive'⟩)
    refine ((Expr.safe_inferArms config env arms hboth henv' (.inl (by simp))
      (.inl (by simp))).drop hf₄).bind ?_
    rintro _ f₅ hf₅ ⟨hboth₅, _⟩
    -- the scrutinee goes first, and the result is kept until it is read
    have hresult : f₅.Holds aside (Along K [h']) :=
      hf₅.along fun x hx => hboth₅.guards.live (.inl (List.mem_cons_of_mem _ hx))
    have hrelease := safe_release hresult.guards (h := h) fun hx => hx.elim (by simpa using hne) hh.2
    refine ((safe_step hresult henv' hrelease).drop hf₅).bind ?_
    rintro _ f₆ hf₆ ⟨hresult₆, _⟩
    have hlive₆ := hresult₆.guards.live (.inl List.mem_cons_self)
    exact safe_step hf₆ henv (safe_take hf₆.guards hlive₆ hh')
  | .letIn decls body, K, f, hf, henv => by
    rw [Expr.infer]
    have hchild : SessionOn.Holds aside K ⟨f, env.child⟩ :=
      ⟨hf, fun h hh => hf.guards.live (henv h hh), fun h hh => (by cases hh)⟩
    refine (safe_within ((safe_datatypes _ hchild).bind fun _ f' hf' _ =>
      (Decl.safe_bindAll config decls hf').true)).bind fun inner f₁ hf₁ hinner => ?_
    refine ((body.safe_infer config inner (hf₁.along hinner.live)
      fun h hh => .inl hh).drop hf₁).bind fun result f₂ hf₂ _ => ?_
    exact (safe_releaseAll hf₂ henv hinner.apart).bind fun _ f₃ hf₃ _ => .pure hf₃ trivial

lemma Expr.safe_inferBranches (config : Config) (env : Env) {result : Handle} :
    ∀ (branches : List (Expr × Expr)) {K : Handle → Prop} {f : Film}, f.Holds aside K →
      (∀ h ∈ env.values.values, K h) → K result →
      Safe (Film.Holds aside K) f (Expr.inferBranches config env result branches) fun _ _ => True
  | [], K, f, hf, henv, hresult => .pure hf trivial
  | (condition, branch) :: branches, K, f, hf, henv, hresult => by
    rw [Expr.inferBranches]
    refine (condition.safe_infer config env hf henv).bind fun t f₁ hf₁ _ => ?_
    refine (safe_step hf₁ henv (safe_equate hf₁.guards _ _ _)).bind fun _ f₂ hf₂ _ => ?_
    refine (branch.safe_infer config env hf₂ henv).bind fun t' f₃ hf₃ _ => ?_
    refine (safe_step hf₃ henv (safe_current hf₃.guards (hf₃.guards.live hresult))).bind
      fun expected f₄ hf₄ _ => ?_
    refine (safe_step hf₄ henv (safe_equate hf₄.guards _ _ _)).bind fun _ f₅ hf₅ _ => ?_
    exact Expr.safe_inferBranches config env branches hf₅ henv hresult

lemma Expr.safe_inferArms (config : Config) (env : Env) {scrutinee result : Handle} :
    ∀ (arms : List (Pattern × Expr)) {K : Handle → Prop} {f : Film}, f.Holds aside K →
      (∀ h ∈ env.values.values, K h) → K scrutinee → K result →
      Safe (Film.Holds aside K) f (Expr.inferArms config env scrutinee result arms) fun _ _ => True
  | [], K, f, hf, henv, hscrutinee, hresult => .pure hf trivial
  | (pattern, body) :: arms, K, f, hf, henv, hscrutinee, hresult => by
    rw [Expr.inferArms]
    refine (safe_pattern config pattern hf henv hscrutinee).bind fun scope f₁ hf₁ hopens => ?_
    refine ((body.safe_infer config { env with values := scope } (hf₁.along hopens.live)
      fun h hh => .inl hh).drop hf₁).bind fun t f₂ hf₂ _ => ?_
    refine (safe_step hf₂ henv (safe_current hf₂.guards (hf₂.guards.live hresult))).bind
      fun expected f₃ hf₃ _ => ?_
    refine (safe_step hf₃ henv (safe_equate hf₃.guards _ _ _)).bind fun _ f₄ hf₄ _ => ?_
    have hnew : ∀ h ∈ scope.innermost.values.filter (· ≠ scrutinee), ¬ K h := by
      intro h hh
      obtain ⟨hmem, hne⟩ := List.mem_filter.1 hh
      exact (hopens.innermost h hmem).resolve_left (by simpa using hne)
    refine (safe_releaseAll hf₄ henv hnew).bind fun _ f₅ hf₅ _ => ?_
    exact Expr.safe_inferArms config env arms hf₅ henv hscrutinee hresult

lemma Decl.safe_bindAll (config : Config) :
    ∀ (decls : List Decl) {K : Handle → Prop} {f : SessionOn Film}, f.Holds aside K →
      Safe (SessionOn.Holds aside K) f (Decl.bindAll config decls) fun _ f' =>
        f.inference.state.Idle → f'.inference.state.Idle
  | [], K, f, hf => .pure hf id
  | .value name ascription value _ :: decls, K, f, hf => by
    rw [Decl.bindAll]
    refine (safe_valueWith config name ascription (fun env hfilm henv => ?_) hf).bind
      fun _ f' hf' hidle => ?_
    · exact value.safe_infer config env hfilm henv
    · exact (Decl.safe_bindAll config decls hf').imp (fun _ h => h) fun _ _ _ h _ => h hidle
  | .datatype _ :: decls, K, f, hf => by
    rw [Decl.bindAll]
    exact Decl.safe_bindAll config decls hf
  | .fixity _ :: decls, K, f, hf => by
    rw [Decl.bindAll]
    exact Decl.safe_bindAll config decls hf
end

end LetPoly
