import LetPoly.Proofs.Typing.Actions

/-!
# What is in scope

A scope of handles is in order (`Scoped`) if all of them are live; under a solution it stands for an
environment of polytypes (`Inference.envAt`). Parameters, captures and constructors are brought into
scope by quiet steps, which touch neither equations nor live handles, and the environment changes
as in the typing rules.
-/

namespace LetPoly

open Inference

/-- Handles of types without free variables. -/
def Inference.ClosedAt (s : Inference) (h : Handle) : Prop :=
  ∃ t, s.term? h = some t ∧ t.poly.Closed

lemma Inference.Extends.closedAt {s s' : Inference} (hext : s.Extends s') {h : Handle}
    (hh : s.ClosedAt h) : s'.ClosedAt h := by
  obtain ⟨t, ht, hclosed⟩ := hh
  obtain ⟨t', ht', _, hpoly⟩ := hext.keep ht
  refine ⟨t', ht', ?_⟩
  rw [hpoly hclosed]
  exact hclosed

/-- What is in scope is live, and whatever bears the ignored name is closed. -/
structure Scoped (config : Config) (s : Inference) (values : Scope Handle) : Prop where
  live {h : Handle} : h ∈ values.values → s.Live h
  ignored {h : Handle} : (config.ignoreName, h) ∈ values.innermost.entries → s.ClosedAt h

namespace Scoped

variable {config : Config} {s s' : Inference} {values : Scope Handle}

lemma mono (hscope : Scoped config s values) (hext : s.Extends s') : Scoped config s' values where
  live hh := hext.live (hscope.live hh)
  ignored hh := hext.closedAt (hscope.ignored hh)

lemma child (hscope : Scoped config s values) : Scoped config s values.child where
  live hh := hscope.live hh
  ignored hh := by cases hh

lemma bind (hscope : Scoped config s values) (name : String) {h : Handle} (hh : s.Live h) :
    Scoped config s (config.bind name h values) where
  live hh' := by
    rcases Config.mem_values_bind hh' with rfl | hh'
    · exact hh
    · exact hscope.live hh'
  ignored hh' := by
    rcases Config.mem_innermost_bind hh' with ⟨heq, hname⟩ | hh'
    · exact absurd (congrArg Prod.fst heq).symm hname
    · exact hscope.ignored hh'

lemma insert (hscope : Scoped config s values) (name : String) {h : Handle} {t : Ty}
    (ht : s.term? h = some t) (hclosed : t.poly.Closed) :
    Scoped config s (values.insert name h) where
  live hh' := by
    rcases Scope.mem_values_insert hh' with rfl | hh'
    · exact ⟨t, ht⟩
    · exact hscope.live hh'
  ignored hh' := by
    rcases Table.mem_enter hh' with heq | hh'
    · cases heq
      exact ⟨t, ht, hclosed⟩
    · exact hscope.ignored hh'

end Scoped

namespace Inference

/-- The polytypes that the handles in scope stand for. -/
def envAt (s : Inference) (θ : String → Mono) (values : Scope Handle) : Scope Poly :=
  values.map (s.polyAt θ)

variable {config : Config} {s s₀ s' : Inference} {values : Scope Handle} {θ θ' : String → Mono}

lemma envAt_congr (h : ∀ h ∈ values.values, s'.polyAt θ' h = s.polyAt θ h) :
    s'.envAt θ' values = s.envAt θ values :=
  Scope.map_congr h

lemma envAt_back (hscope : Scoped config s values)
    (hsame : ∀ h, s.Live h → s'.polyAt θ' h = s.polyAt θ h) :
    s'.envAt θ' values = s.envAt θ values :=
  envAt_congr fun h hh => hsame h (hscope.live hh)

lemma envAt_tracked (hscope : Scoped config s values) (t : Ty) (θ : String → Mono) :
    (s.tracked t).envAt θ values = s.envAt θ values :=
  envAt_congr fun _ hh => polyAt_tracked_of_live (hscope.live hh) t θ

lemma envAt_releasedAll (hscope : Scoped config s₀ values) (hs : List Handle)
    (hdead : ∀ h ∈ hs, ¬ s₀.Live h) (θ : String → Mono) :
    (s.releasedAll hs).envAt θ values = s.envAt θ values :=
  envAt_congr fun _ hh => polyAt_releasedAll (fun hmem => hdead _ hmem (hscope.live hh)) θ

lemma envAt_released (hscope : Scoped config s₀ values) {h : Handle} (hdead : ¬ s₀.Live h)
    (θ : String → Mono) : (s.released h).envAt θ values = s.envAt θ values :=
  envAt_releasedAll hscope [h] (by simpa using hdead) θ

end Inference

/-! ### Quiet steps -/

/-- A run that leaves all equations and all live handles alone. -/
structure Inference.Quiet (s s' : Inference) : Prop where
  next_le : s.next ≤ s'.next
  term?_eq {h : Handle} : s.Live h → s'.term? h = s.term? h
  queue_eq : s'.unifier.queue = s.unifier.queue

namespace Inference.Quiet

variable {config : Config} {s s' s'' : Inference} {values : Scope Handle} {θ : String → Mono}

lemma refl (s : Inference) : s.Quiet s := ⟨Nat.le_refl _, fun _ => rfl, rfl⟩

lemma sol_iff (hq : s.Quiet s') : s'.Sol θ ↔ s.Sol θ := by
  rw [Sol, Sol, hq.queue_eq]

lemma toExtends (hq : s.Quiet s') : s.Extends s' :=
  (Extends.refl s).step hq.next_le (fun _ => hq.term?_eq) fun _ => hq.sol_iff.1

lemma trans (h₁ : s.Quiet s') (h₂ : s'.Quiet s'') : s.Quiet s'' where
  next_le := Nat.le_trans h₁.next_le h₂.next_le
  term?_eq hlive := (h₂.term?_eq (h₁.toExtends.live hlive)).trans (h₁.term?_eq hlive)
  queue_eq := h₂.queue_eq.trans h₁.queue_eq

lemma polyAt_eq (hq : s.Quiet s') {h : Handle} (hlive : s.Live h) (θ : String → Mono) :
    s'.polyAt θ h = s.polyAt θ h :=
  polyAt_congr (hq.term?_eq hlive) θ

lemma envAt_eq (hq : s.Quiet s') (hscope : Scoped config s values) (θ : String → Mono) :
    s'.envAt θ values = s.envAt θ values :=
  envAt_back hscope fun _ hlive => hq.polyAt_eq hlive θ

lemma bump (s : Inference) (count : Nat) : s.Quiet (s.bump count) :=
  ⟨Nat.le_add_right _ _, fun _ => rfl, rfl⟩

lemma noted (s : Inference) (kinds : List Kind) : s.Quiet (s.noted kinds) :=
  ⟨Nat.le_refl _, fun _ => rfl, rfl⟩

lemma tracked (s : Inference) (t : Ty) : s.Quiet (s.tracked t) :=
  ⟨Nat.le_refl _, fun hlive => term?_tracked_of_live hlive t, rfl⟩

end Inference.Quiet

/-- Whatever the innermost table has gained was not live before. -/
def NewSince (s : Inference) (values values' : Scope Handle) : Prop :=
  ∀ h ∈ values'.innermost.values, h ∈ values.innermost.values ∨ ¬ s.Live h

namespace NewSince

variable {config : Config} {s s' : Inference} {v₁ v₂ v₃ : Scope Handle}

lemma refl (s : Inference) (values : Scope Handle) : NewSince s values values :=
  fun _ => Or.inl

lemma trans (h₁ : NewSince s v₁ v₂) (hext : s.Extends s') (h₂ : NewSince s' v₂ v₃) :
    NewSince s v₁ v₃ := by
  intro h hh
  rcases h₂ h hh with hh | hdead
  · exact h₁ h hh
  · exact Or.inr fun hlive => hdead (hext.live hlive)

lemma insert (s : Inference) (values : Scope Handle) (name : String) {h : Handle}
    (hdead : ¬ s.Live h) : NewSince s values (values.insert name h) := by
  intro h' hh'
  obtain ⟨e, he, rfl⟩ := List.mem_map.1 hh'
  rcases Table.mem_enter he with rfl | he
  · exact Or.inr hdead
  · exact Or.inl (List.mem_map_of_mem he)

lemma bind (config : Config) (s : Inference) (values : Scope Handle) (name : String) {h : Handle}
    (hdead : ¬ s.Live h) : NewSince s values (config.bind name h values) := by
  rw [Config.bind]
  split
  · exact refl s values
  · exact insert s values name hdead

end NewSince

/-! ### Captures -/

lemma bindCaptures_run {config : Config} {captures : List (String × Ty)} {scope : Scope Handle}
    {s : Inference} (hp : s.Proper) (hscope : Scoped config s scope)
    (hsimple : ∀ c ∈ captures, c.2.Simple s.next) :
    ∃ scope' s', bindCaptures config captures scope s = .ok scope' s' ∧ s.Quiet s' ∧ s'.Proper ∧
      Scoped config s' scope' ∧ s'.next = s.next ∧ NewSince s scope scope' ∧
      ∀ θ, s'.envAt θ scope' =
        bindMonos config (captures.map fun c => (c.1, c.2.mono.bind θ)) (s.envAt θ scope) := by
  induction captures generalizing scope s with
  | nil =>
    exact ⟨scope, s, rfl, .refl s, hp, hscope, rfl, .refl s scope, fun _ => rfl⟩
  | cons c captures ih =>
    obtain ⟨name, ty⟩ := c
    have hty : ty.Simple s.next := hsimple (name, ty) List.mem_cons_self
    have hr := (Reaches.refl hp).tracked hty.proper
    have hlive : (s.tracked ty).Live (s.newHandle ty) := ⟨ty, s.term?_newHandle ty⟩
    obtain ⟨scope', s', hrun, hquiet, hp', hscope', hnext, hnew, henv⟩ :=
      ih hr.proper ((hscope.mono hr.toExtends).bind name hlive)
        fun c hc => hsimple c (List.mem_cons_of_mem _ hc)
    refine ⟨scope', s', ?_, (Quiet.tracked s ty).trans hquiet, hp', hscope', hnext, ?_, ?_⟩
    · rw [bindCaptures, step_of_ok (track_run s ty)]
      exact hrun
    · exact (NewSince.bind config s scope name (s.not_live_newHandle ty)).trans hr.toExtends hnew
    · intro θ
      rw [henv, List.map_cons, bindMonos, envAt, Config.map_bind,
        polyAt_of_isFlat (s.term?_newHandle ty) hty.1, ← envAt, envAt_tracked hscope]

/-! ### Parameters -/

/-- Handles of types without quantifiers. -/
def Inference.FlatAt (s : Inference) (h : Handle) : Prop := ∃ t, s.term? h = some t ∧ t.isFlat

lemma Inference.Extends.flatAt {s s' : Inference} (hext : s.Extends s') {h : Handle}
    (hh : s.FlatAt h) : s'.FlatAt h := by
  obtain ⟨t, ht, hflat⟩ := hh
  obtain ⟨t', ht', hflat', _⟩ := hext.keep ht
  exact ⟨t', ht', hflat' hflat⟩

lemma Inference.FlatAt.live {s : Inference} {h : Handle} (hh : s.FlatAt h) : s.Live h :=
  hh.imp fun _ ht => ht.1

/-- The types of several handles, and the monotypes that they stand for. -/
lemma Inference.types_of_flatAt {s : Inference} {handles : List Handle}
    (hflat : ∀ h ∈ handles, s.FlatAt h) : ∃ types : List Ty, handles.map s.term? = types.map some ∧
      (∀ t ∈ types, t.isFlat) ∧ ∀ θ, handles.map (s.polyAt θ) =
        (types.map fun t => t.mono.bind θ).map Poly.ofMono := by
  induction handles with
  | nil => exact ⟨[], rfl, by simp, fun _ => rfl⟩
  | cons h handles ih =>
    obtain ⟨t, ht, hft⟩ := hflat h List.mem_cons_self
    obtain ⟨types, hterms, hflats, hpolys⟩ := ih fun h' hh' => hflat h' (List.mem_cons_of_mem _ hh')
    refine ⟨t :: types, ?_, List.forall_mem_cons.2 ⟨hft, hflats⟩, fun θ => ?_⟩
    · rw [List.map_cons, List.map_cons, ht, hterms]
    · rw [List.map_cons, hpolys, polyAt_of_isFlat ht hft]
      rfl

lemma paramTy_eq_ok {kinds : Scope Kind} {p : Param} (hrank : p.isRankOne) {s s' : Inference}
    {ty : Ty} (hp : s.Proper) (hrun : paramTy kinds p s = .ok ty s') :
    s.Quiet s' ∧ s'.Proper ∧ ty.Simple s'.next ∧ ∀ θ, p.Accepts (ty.mono.bind θ) := by
  rw [paramTy] at hrun
  cases hasc : p.ascription with
  | none =>
    rw [hasc] at hrun
    dsimp only at hrun
    rw [fresh_run, EStateM.Result.ok.injEq] at hrun
    obtain ⟨rfl, rfl⟩ := hrun
    exact ⟨.bump s 1, ((Reaches.refl hp).bump 1).proper, Ty.simple_fresh (Nat.lt_succ_self _),
      fun θ t ht => by rw [hasc] at ht; cases ht⟩
  | some t =>
    rw [hasc] at hrun
    obtain ⟨found, _, rfl, rfl⟩ := ascribe_eq_ok hrun
    obtain ⟨hflat, hclosed⟩ := Param.isRankOne_iff.1 hrank t hasc
    have hmono (θ : String → Mono) : t.mono.bind θ = t.mono := by
      have := hclosed.subst θ
      rw [Ty.poly_of_isFlat hflat, Poly.subst_ofMono] at this
      exact Poly.ofMono_injective this
    refine ⟨.noted s found, ((Reaches.refl hp).noted found).proper, ?_, fun θ t' ht' => ?_⟩
    · refine Ty.simple_of_closed ((Ty.isFlat_fill t found).trans hflat) ?_ _
      rwa [Ty.poly_of_isFlat ((Ty.isFlat_fill t found).trans hflat), Ty.mono_fill,
        ← Ty.poly_of_isFlat hflat]
    · rw [hasc] at ht'
      cases ht'
      rw [Ty.mono_fill, hmono]

lemma bindParams_eq_ok {config : Config} {kinds : Scope Kind} {params : List Param}
    {scope scope' : Scope Handle} {handles : List Handle} {s s' : Inference} (hp : s.Proper)
    (hscope : Scoped config s scope) (hrank : ∀ p ∈ params, p.isRankOne)
    (hrun : bindParams config kinds params scope s = .ok (scope', handles) s') :
    s.Quiet s' ∧ s'.Proper ∧ Scoped config s' scope' ∧ handles.Nodup ∧
      (∀ h ∈ handles, ¬ s.Live h ∧ s'.FlatAt h) ∧ ∀ θ, ∃ types,
        List.Forall₂ Param.Accepts params types ∧
        handles.map (s'.polyAt θ) = types.map Poly.ofMono ∧
        s'.envAt θ scope' =
          bindMonos config ((params.map Param.name).zip types) (s.envAt θ scope) := by
  induction params generalizing scope handles s with
  | nil =>
    rw [bindParams] at hrun
    cases hrun
    exact ⟨.refl _, hp, hscope, List.nodup_nil, by simp, fun θ => ⟨[], .nil, rfl, rfl⟩⟩
  | cons p params ih =>
    rw [bindParams] at hrun
    obtain ⟨ty, s₁, hty, hrun⟩ := bind_eq_ok.1 hrun
    rw [step_of_ok (track_run s₁ ty)] at hrun
    obtain ⟨⟨scope₂, handles₂⟩, s₂, hrest, hrun⟩ := bind_eq_ok.1 hrun
    obtain ⟨hpair, rfl⟩ := pure_eq_ok.1 hrun
    cases hpair
    obtain ⟨hq₁, hp₁, hsimple, haccepts⟩ := paramTy_eq_ok (hrank p List.mem_cons_self) hp hty
    have hr := (Reaches.refl hp₁).tracked hsimple.proper
    have hlive : (s₁.tracked ty).Live (s₁.newHandle ty) := ⟨ty, s₁.term?_newHandle ty⟩
    have hscope₁ := hscope.mono hq₁.toExtends
    obtain ⟨hq₂, hp₂, hscope₂, hnodup, hhandles, htypes⟩ :=
      ih hr.proper ((hscope₁.mono hr.toExtends).bind p.name hlive)
        (fun q hq => hrank q (List.mem_cons_of_mem _ hq)) hrest
    have hq := hq₁.trans ((Quiet.tracked s₁ ty).trans hq₂)
    refine ⟨hq, hp₂, hscope₂, List.nodup_cons.2 ⟨fun hmem => (hhandles _ hmem).1 hlive, hnodup⟩,
      ?_, fun θ => ?_⟩
    · intro h hh
      rcases List.mem_cons.1 hh with rfl | hh
      · exact ⟨fun h => s₁.not_live_newHandle ty (hq₁.toExtends.live h),
          hq₂.toExtends.flatAt ⟨ty, s₁.term?_newHandle ty, hsimple.1⟩⟩
      · refine ⟨fun h => (hhandles _ hh).1 ?_, (hhandles _ hh).2⟩
        exact ((hq₁.trans (Quiet.tracked s₁ ty)).toExtends).live h
    · obtain ⟨types, hforall, hmap, henv⟩ := htypes θ
      have hpoly : (s₁.tracked ty).polyAt θ (s₁.newHandle ty) = .ofMono (ty.mono.bind θ) :=
        polyAt_of_isFlat (s₁.term?_newHandle ty) hsimple.1 θ
      refine ⟨ty.mono.bind θ :: types, .cons (haccepts θ) hforall, ?_, ?_⟩
      · rw [List.map_cons, List.map_cons, hmap, hq₂.polyAt_eq hlive, hpoly]
      · rw [henv, envAt, Config.map_bind, hpoly, ← envAt, envAt_tracked hscope₁,
          hq₁.envAt_eq hscope]
        rfl

end LetPoly
