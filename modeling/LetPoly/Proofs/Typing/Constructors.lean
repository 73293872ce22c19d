import LetPoly.Proofs.Typing.Scoped

/-!
# Constructors in scope

Declaring datatypes without quantifiers inside always brings their constructors into scope once the
kinds are found, each with its signature. The kinds that are recorded in the datatypes do not
matter.
-/

namespace LetPoly

open Inference Session

/-! ### Actions of inference inside of sessions -/

section Lifting

variable {α : Type} {x : InferM α} {s : Inference} {env : Env} {a : α}

lemma liftM_of_ok {s' : Inference} (hx : x s = .ok a s') :
    (liftM x : DeclM α) ⟨s, env⟩ = .ok a ⟨s', env⟩ := by
  simp only [liftM, monadLift, MonadLift.monadLift]
  rw [hx]

lemma liftM_of_error {s' : Inference} {e : Fault TypeError} (hx : x s = .error e s') :
    (liftM x : DeclM α) ⟨s, env⟩ = .error e ⟨s', env⟩ := by
  simp only [liftM, monadLift, MonadLift.monadLift]
  rw [hx]

lemma liftM_eq_ok {S' : Session} (h : (liftM x : DeclM α) ⟨s, env⟩ = .ok a S') :
    ∃ s', x s = .ok a s' ∧ S' = ⟨s', env⟩ := by
  simp only [liftM, monadLift, MonadLift.monadLift] at h
  cases hx : x s with
  | ok b s' =>
    rw [hx] at h
    cases h
    exact ⟨s', rfl, rfl⟩
  | error e s' =>
    rw [hx] at h
    cases h

lemma modifyValues_run (f : Scope Handle → Scope Handle) (s : Inference) (env : Env) :
    modifyValues f ⟨s, env⟩ = .ok () ⟨s, { env with values := f env.values }⟩ := rfl

end Lifting

section Within

variable {σ : Type} {env env' : Env} {x : RunM (SessionOn σ) Unit} {s s' : σ}

lemma within_eq_ok : within env x s = .ok env' s' ↔ x ⟨s, env⟩ = .ok () ⟨s', env'⟩ := by
  rw [within]
  cases x ⟨s, env⟩ with
  | ok u S => exact ⟨fun h => (by cases h; rfl), fun h => (by cases h; rfl)⟩
  | error e S => exact ⟨fun h => (by cases h), fun h => (by cases h)⟩

lemma within_of_error {S : SessionOn σ} {e : Fault TypeError} (hrun : x ⟨s, env⟩ = .error e S) :
    within env x s = .error e S.inference := by
  rw [within, hrun]

end Within

/-! ### Recorded kinds -/

namespace Ty

lemma signature_eq_of_mono_eq {t t' : Ty} (h : t.isFlat) (h' : t'.isFlat)
    (hmono : t'.mono = t.mono) : t'.signature = t.signature := by
  rw [signature_of_isFlat h, signature_of_isFlat h', freeVars_of_isFlat h, freeVars_of_isFlat h',
    hmono]

lemma map_mono_fillList (args : List Ty) (kinds : List Kind) :
    (fillList args kinds).1.map mono = args.map mono := by
  have h := curryList_fillList (fun n _ => Tree.var n) args kinds
  rwa [curryList_eq_map, curryList_eq_map] at h

end Ty

lemma Datatype.isFlat_constructorTy {d : Datatype} {c : Constructor} (hhead : d.head.isFlat)
    (hfields : c.fields.all Ty.isFlat) : (d.constructorTy c).isFlat :=
  Ty.isFlat_function.2 ⟨by simpa using hfields, hhead⟩

/-- Constructors of one datatype that differ in recorded kinds only have the same signatures. -/
lemma enterConstructors_fill {d : Datatype} (d' : Datatype) (hhead : d.head.isFlat) (hhead' : d'.head.isFlat)
    (hmono : d'.head.mono = d.head.mono) (constructors : List Constructor) (kinds : List Kind)
    (hflat : constructors.all fun c => c.fields.all Ty.isFlat) (Γ : Scope Poly) :
    enterConstructors d' (fillConstructors constructors kinds).1 Γ =
      enterConstructors d constructors Γ ∧
    (fillConstructors constructors kinds).1.all fun c => c.fields.all Ty.isFlat := by
  induction constructors generalizing kinds Γ with
  | nil => exact ⟨rfl, rfl⟩
  | cons c constructors ih =>
    obtain ⟨name, fields⟩ := c
    rw [List.all_cons, Bool.and_eq_true] at hflat
    obtain ⟨hfields, hflat⟩ := hflat
    have hfields' : (Ty.fillList fields kinds).1.all Ty.isFlat := by
      rw [List.all_eq_true, ← Ty.isFlatList_iff, Ty.isFlatList_fillList, Ty.isFlatList_iff,
        ← List.all_eq_true]
      exact hfields
    have hsig : (d'.constructorTy ⟨name, (Ty.fillList fields kinds).1⟩).signature =
        (d.constructorTy ⟨name, fields⟩).signature := by
      refine Ty.signature_eq_of_mono_eq (Datatype.isFlat_constructorTy hhead hfields)
        (Datatype.isFlat_constructorTy hhead' hfields') ?_
      rw [Datatype.constructorTy, Datatype.constructorTy, Ty.mono_function, Ty.mono_function,
        Ty.map_mono_fillList, hmono]
    obtain ⟨henter, hall⟩ := ih (Ty.fillList fields kinds).2 hflat
      (Γ.insert name (d.constructorTy ⟨name, fields⟩).signature)
    rw [fillConstructors]
    dsimp only
    rw [enterConstructors, enterConstructors, hsig]
    exact ⟨henter, by rw [List.all_cons, hfields', hall]; rfl⟩

lemma enterDatatypes_fill {ds : List Datatype} (hrank : ∀ d ∈ ds, d.isRankOne) (kinds : List Kind)
    (Γ : Scope Poly) : enterDatatypes (fillDatatypes ds kinds).1 Γ = enterDatatypes ds Γ ∧
      ∀ d ∈ (fillDatatypes ds kinds).1, d.isRankOne := by
  induction ds generalizing kinds Γ with
  | nil => exact ⟨rfl, by simp [fillDatatypes]⟩
  | cons d ds ih =>
    have hd := hrank d List.mem_cons_self
    rw [Datatype.isRankOne, Bool.and_eq_true] at hd
    have hhead' : (d.head.fill kinds).1.isFlat := (Ty.isFlat_fill d.head kinds).trans hd.1
    obtain ⟨henter, hall⟩ := enterConstructors_fill (d.fill kinds).1 hd.1 hhead'
      (Ty.mono_fill d.head kinds) d.constructors (d.head.fill kinds).2 hd.2 Γ
    obtain ⟨henter', hall'⟩ := ih (fun d' hd' => hrank d' (List.mem_cons_of_mem _ hd'))
      (d.fill kinds).2 (enterConstructors d d.constructors Γ)
    refine ⟨?_, ?_⟩
    · show enterDatatypes _ (enterConstructors (d.fill kinds).1
        (fillConstructors d.constructors (d.head.fill kinds).2).1 Γ) = _
      rw [henter]
      exact henter'
    · intro d' hd'
      rcases List.mem_cons.1 hd' with rfl | hd'
      · rw [Datatype.isRankOne, Bool.and_eq_true]
        exact ⟨hhead', hall⟩
      · exact hall' d' hd'

/-! ### Declarations of datatypes -/

lemma Ty.quantify_isFlat {t : Ty} (h : t.isFlat) : ∃ q, t.quantify = .ok q :=
  ⟨_, quantifyExcept_of_isFlat h []⟩

lemma registerEach_run {config : Config} {d : Datatype} (hhead : d.head.isFlat)
    {constructors : List Constructor} (hflat : constructors.all fun c => c.fields.all Ty.isFlat)
    {s : Inference} (env : Env) (hp : s.Proper) (hscope : Scoped config s env.values) :
    ∃ s' values', registerEach d constructors ⟨s, env⟩ = .ok () ⟨s', { env with values := values' }⟩ ∧
      s.Quiet s' ∧ s'.Proper ∧ Scoped config s' values' ∧ s'.next = s.next ∧
      NewSince s env.values values' ∧
      ∀ θ, s'.envAt θ values' = enterConstructors d constructors (s.envAt θ env.values) := by
  induction constructors generalizing s env with
  | nil => exact ⟨s, env.values, rfl, .refl s, hp, hscope, rfl, .refl s _, fun _ => rfl⟩
  | cons c constructors ih =>
    rw [List.all_cons, Bool.and_eq_true] at hflat
    have hty : (d.constructorTy c).isFlat := Datatype.isFlat_constructorTy hhead hflat.1
    obtain ⟨q, hq⟩ := Ty.quantify_isFlat hty
    obtain ⟨hprenex, hpoly, hclosed, _⟩ := Ty.quantify_eq_ok (Ty.isPrenex_of_isFlat hty) hq
    rw [← hpoly] at hclosed
    have hr := (Reaches.refl hp).tracked (Ty.proper_of_closed hprenex hclosed s.next)
    obtain ⟨s', values', hrun, hquiet, hp', hscope', hnext, hnew, henv⟩ :=
      ih hflat.2 { env with values := env.values.insert c.name (s.newHandle q) } hr.proper
        ((hscope.mono hr.toExtends).insert c.name (s.term?_newHandle q) hclosed)
    refine ⟨s', values', ?_, (Quiet.tracked s q).trans hquiet, hp', hscope', hnext, ?_, ?_⟩
    · rw [registerEach, stepIn_of_ok (liftM_of_ok (quantify_run hq s)),
        stepIn_of_ok (liftM_of_ok (track_run s q)), stepIn_of_ok (modifyValues_run _ _ env)]
      exact hrun
    · exact (NewSince.insert s env.values c.name (s.not_live_newHandle q)).trans hr.toExtends hnew
    · intro θ
      rw [henv, enterConstructors, envAt, Scope.map_insert, polyAt_eq (s.term?_newHandle q),
        hclosed.subst, hpoly, ← envAt, envAt_tracked hscope]

lemma registerAll_run {config : Config} {ds : List Datatype} (hrank : ∀ d ∈ ds, d.isRankOne)
    {s : Inference} (env : Env) (hp : s.Proper) (hscope : Scoped config s env.values) :
    ∃ s' values', registerAll ds ⟨s, env⟩ = .ok () ⟨s', { env with values := values' }⟩ ∧
      s.Quiet s' ∧ s'.Proper ∧ Scoped config s' values' ∧ s'.next = s.next ∧
      NewSince s env.values values' ∧
      ∀ θ, s'.envAt θ values' = enterDatatypes ds (s.envAt θ env.values) := by
  induction ds generalizing s env with
  | nil => exact ⟨s, env.values, rfl, .refl s, hp, hscope, rfl, .refl s _, fun _ => rfl⟩
  | cons d ds ih =>
    have hd := hrank d List.mem_cons_self
    rw [Datatype.isRankOne, Bool.and_eq_true] at hd
    obtain ⟨s₁, values₁, hrun₁, hquiet₁, hp₁, hscope₁, hnext₁, hnew₁, henv₁⟩ :=
      registerEach_run hd.1 hd.2 env hp hscope
    obtain ⟨s₂, values₂, hrun₂, hquiet₂, hp₂, hscope₂, hnext₂, hnew₂, henv₂⟩ :=
      ih (fun d' hd' => hrank d' (List.mem_cons_of_mem _ hd')) { env with values := values₁ }
        hp₁ hscope₁
    refine ⟨s₂, values₂, ?_, hquiet₁.trans hquiet₂, hp₂, hscope₂, hnext₂.trans hnext₁,
      hnew₁.trans hquiet₁.toExtends hnew₂, fun θ => ?_⟩
    · rw [registerAll, registerConstructors, bind_of_ok hrun₁]
      exact hrun₂
    · rw [henv₂, henv₁]
      rfl

lemma declareTypes_of_ok {group : List Datatype} {s : Session} {found : GroupKinds}
    (hfound : inferGroup s.env.kinds group = .ok found) :
    declareTypes group s = .ok (found.declared, (fillDatatypes group found.recorded).1)
      ⟨s.inference.noted found.recorded,
        { s.env with kinds := s.env.kinds.insertAll found.declared }⟩ := by
  rw [declareTypes, bind_get, recordGroup_range_of_ok hfound]
  rfl

lemma declareTypes_of_error {group : List Datatype} {s : Session} {e : Sited KindError}
    (hfound : inferGroup s.env.kinds group = .error e) : declareTypes group s = .error e s := by
  rw [declareTypes, bind_get, recordGroup_range_of_error hfound]
  rfl

lemma declareTypes_eq_ok {group : List Datatype} {s : Inference} {env : Env}
    {r : Table Kind × List Datatype} {S : Session} :
    declareTypes group ⟨s, env⟩ = .ok r S ↔ ∃ found, inferGroup env.kinds group = .ok found ∧
      r = (found.declared, (fillDatatypes group found.recorded).1) ∧
      S = ⟨s.noted found.recorded, { env with kinds := env.kinds.insertAll found.declared }⟩ := by
  constructor
  · intro hrun
    cases hfound : inferGroup env.kinds group with
    | error e =>
      rw [declareTypes_of_error hfound] at hrun
      cases hrun
    | ok found =>
      rw [declareTypes_of_ok hfound] at hrun
      cases hrun
      exact ⟨found, rfl, rfl, rfl⟩
  · rintro ⟨found, hfound, rfl, rfl⟩
    exact declareTypes_of_ok hfound

/-- A group of datatypes is brought into scope as soon as its kinds are found. -/
lemma declareDatatypes_run {config : Config} {group : List Datatype}
    (hrank : ∀ d ∈ group, d.isRankOne) {s : Inference} (env : Env) (hp : s.Proper)
    (hscope : Scoped config s env.values) {found : GroupKinds}
    (hfound : inferGroup env.kinds group = .ok found) :
    ∃ s' values', declareDatatypes group ⟨s, env⟩ =
        .ok () ⟨s', ⟨values', env.kinds.insertAll found.declared⟩⟩ ∧
      s.Quiet s' ∧ s'.Proper ∧ Scoped config s' values' ∧ s'.next = s.next ∧
      NewSince s env.values values' ∧
      ∀ θ, s'.envAt θ values' = enterDatatypes group (s.envAt θ env.values) := by
  have hr := (Reaches.refl hp).noted found.recorded
  obtain ⟨s', values', hrun, hquiet, hp', hscope', hnext, hnew, henv⟩ :=
    registerAll_run (enterDatatypes_fill hrank found.recorded Scope.empty).2
      { env with kinds := env.kinds.insertAll found.declared } hr.proper (hscope.mono hr.toExtends)
  refine ⟨s', values', ?_, (Quiet.noted s found.recorded).trans hquiet, hp', hscope', hnext, hnew,
    fun θ => ?_⟩
  · rw [declareDatatypes,
      stepIn_of_ok (adaptExcept_eq_ok.2 (declareTypes_eq_ok.2 ⟨found, hfound, rfl, rfl⟩))]
    exact hrun
  · rw [henv, (enterDatatypes_fill hrank found.recorded _).1]
    rfl

lemma inferGroup_of_declareDatatypes {group : List Datatype} {s : Inference} {env : Env} {u : Unit}
    {S : Session} (hrun : declareDatatypes group ⟨s, env⟩ = .ok u S) :
    ∃ found, inferGroup env.kinds group = .ok found := by
  rw [declareDatatypes] at hrun
  obtain ⟨_, _, hdeclare, _⟩ := bind_eq_ok.1 hrun
  obtain ⟨found, hfound, _⟩ := declareTypes_eq_ok.1 (adaptExcept_eq_ok.1 hdeclare)
  exact ⟨found, hfound⟩

/-! ### Constructors are closed -/

lemma Ty.closed_signature {t : Ty} (h : t.isFlat) : t.signature.Closed := by
  intro x hx
  rw [signature_of_isFlat h, Poly.free_close, NameSet.mem_names, mem_freeVars_iff h] at hx
  exact hx.2 hx.1

lemma Scope.free_insert {Γ : Scope Poly} {name x : String} {p : Poly} (h : (Γ.insert name p).Free x) :
    p.Free x ∨ Γ.Free x := by
  obtain ⟨q, hq, hx⟩ := h
  rcases mem_values_insert hq with rfl | hq
  · exact Or.inl hx
  · exact Or.inr ⟨q, hq, hx⟩

lemma free_enterConstructors {d : Datatype} (hhead : d.head.isFlat) {constructors : List Constructor}
    (hflat : constructors.all fun c => c.fields.all Ty.isFlat) {Γ : Scope Poly} {x : String}
    (h : (enterConstructors d constructors Γ).Free x) : Γ.Free x := by
  induction constructors generalizing Γ with
  | nil => exact h
  | cons c constructors ih =>
    rw [List.all_cons, Bool.and_eq_true] at hflat
    refine (Scope.free_insert (ih hflat.2 h)).resolve_left ?_
    exact Ty.closed_signature (Datatype.isFlat_constructorTy hhead hflat.1) x

lemma free_enterDatatypes {ds : List Datatype} (hrank : ∀ d ∈ ds, d.isRankOne) {Γ : Scope Poly}
    {x : String} (h : (enterDatatypes ds Γ).Free x) : Γ.Free x := by
  induction ds generalizing Γ with
  | nil => exact h
  | cons d ds ih =>
    have hd := hrank d List.mem_cons_self
    rw [Datatype.isRankOne, Bool.and_eq_true] at hd
    exact free_enterConstructors hd.1 hd.2 (ih (fun d' hd' => hrank d' (List.mem_cons_of_mem _ hd')) h)

end LetPoly
