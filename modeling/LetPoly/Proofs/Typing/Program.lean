import LetPoly.Check
import LetPoly.Proofs.Typing.SoundDecls
import Mathlib

/-!
# Programs

Checking a program brings the prelude, the constructors and the values into scope, one after the
other, and reads off the types at the end. All of them are closed, so the default type for what is
left open does not show, and the reported types are those that the declarations are derivable with.
-/

namespace LetPoly

open Inference Session

/-! ### Tables of distinct names -/

namespace Table

variable {α : Type}

lemma enter_of_not_mem {name : String} {value : α} {l : List (String × α)}
    (h : name ∉ l.map Prod.fst) : enter name value l = l ++ [(name, value)] := by
  induction l with
  | nil => rfl
  | cons e l ih =>
    rw [List.map_cons, List.mem_cons, not_or] at h
    rw [enter, if_neg (Ne.symm h.1), ih h.2, List.cons_append]

lemma foldl_enter {l acc : List (String × α)} (h : ((acc ++ l).map Prod.fst).Nodup) :
    l.foldl (fun acc e => enter e.1 e.2 acc) acc = acc ++ l := by
  induction l generalizing acc with
  | nil => rw [List.foldl_nil, List.append_nil]
  | cons e l ih =>
    have hmem : e.1 ∉ acc.map Prod.fst := by
      rw [List.map_append, List.map_cons] at h
      exact fun hmem => List.disjoint_of_nodup_append h hmem List.mem_cons_self
    rw [List.foldl_cons, enter_of_not_mem hmem, ih (by rwa [List.append_assoc]), List.append_assoc]
    rfl

lemma entries_foldl_insert (l : List (String × α)) (t : Table α) :
    (l.foldl (fun t e => t.insert e.1 e.2) t).entries =
      l.foldl (fun acc e => enter e.1 e.2 acc) t.entries := by
  induction l generalizing t with
  | nil => rfl
  | cons e l ih => exact ih (t.insert e.1 e.2)

lemma entries_ofList {l : List (String × α)} (h : (l.map Prod.fst).Nodup) :
    (ofList l).entries = l := by
  rw [ofList, entries_foldl_insert]
  exact foldl_enter h

end Table

/-- Bring named polytypes into scope. -/
def enterValues : List (String × Ty) → Scope Poly → Scope Poly
  | [], Γ => Γ
  | (name, t) :: values, Γ => enterValues values (Γ.insert name t.poly)

lemma enterValues_entries (t : Table Ty) :
    enterValues t.entries .empty = .ofTable (t.map Ty.poly) := by
  have hfold (l : List (String × Ty)) (Γ : Scope Poly) : enterValues l Γ =
      ⟨(l.map fun e => (e.1, e.2.poly)).foldl (fun t e => t.insert e.1 e.2) Γ.innermost,
        Γ.enclosing⟩ := by
    induction l generalizing Γ with
    | nil => rfl
    | cons e l ih => exact ih (Γ.insert e.1 e.2.poly)
  rw [hfold]
  show Scope.mk (Table.ofList (t.map Ty.poly).entries) [] = _
  rw [Table.eq_of_entries_eq (Table.entries_ofList (t.map Ty.poly).nodup)]
  rfl

/-! ### The steps of checking -/

lemma blame_eq_ok {α : Type} {declaration : Option String} {span : Span} {x : DeclM α}
    {S S' : Session} {a : α} : blame declaration span x S = .ok a S' ↔ x S = .ok a S' :=
  adaptExcept_eq_ok

lemma checkConstructors_eq_ok {ds : List Datatype} {S S' : Session} {u : Unit} :
    checkConstructors ds S = .ok u S' ↔ registerAll ds S = .ok u S' := by
  induction ds generalizing S with
  | nil =>
    rw [checkConstructors, registerAll, pure_eq_ok, pure_eq_ok]
  | cons d ds ih =>
    rw [checkConstructors, registerAll, bind_eq_ok, bind_eq_ok]
    refine exists_congr fun _ => exists_congr fun _ => ?_
    rw [blame_eq_ok, ih]

lemma checkValues_eq_ok {config : Config} {decls : List Decl} {S S' : Session} {u : Unit} :
    checkValues config decls S = .ok u S' ↔ Decl.bindAll config decls S = .ok u S' := by
  induction decls generalizing S with
  | nil => rw [checkValues, Decl.bindAll, pure_eq_ok, pure_eq_ok]
  | cons d decls ih =>
    cases d with
    | datatype d => rw [checkValues, Decl.bindAll, ih]
    | fixity f => rw [checkValues, Decl.bindAll, ih]
    | value name ascription value position =>
      rw [checkValues, Decl.bindAll, bind_eq_ok, bind_eq_ok]
      refine exists_congr fun _ => exists_congr fun _ => ?_
      rw [blame_eq_ok, ih]
      rfl

lemma bringValues_run {config : Config} {entries : List (String × Ty)}
    (hsentence : ∀ e ∈ entries, e.2.isSentence) {s : Inference} (env : Env) (hp : s.Proper)
    (hscope : Scoped config s env.values) :
    ∃ s' values', bringValues entries ⟨s, env⟩ = .ok () ⟨s', { env with values := values' }⟩ ∧
      s.Quiet s' ∧ s'.Proper ∧ Scoped config s' values' ∧
      ∀ θ, s'.envAt θ values' = enterValues entries (s.envAt θ env.values) := by
  induction entries generalizing s env with
  | nil => exact ⟨s, env.values, rfl, .refl s, hp, hscope, fun _ => rfl⟩
  | cons e entries ih =>
    obtain ⟨name, t⟩ := e
    obtain ⟨hprenex, ht⟩ := Ty.isSentence_iff.1 (hsentence (name, t) List.mem_cons_self)
    have hr := (Reaches.refl hp).tracked (Ty.proper_of_closed hprenex ht s.next)
    have hterm := s.term?_newHandle t
    obtain ⟨s', values', hrun, hquiet, hp', hscope', henv⟩ :=
      ih (fun e he => hsentence e (List.mem_cons_of_mem _ he))
        { env with values := env.values.insert name (s.newHandle t) } hr.proper
        ((hscope.mono hr.toExtends).insert name hterm ht)
    refine ⟨s', values', ?_, (Quiet.tracked s t).trans hquiet, hp', hscope', fun θ => ?_⟩
    · rw [bringValues, bind_of_ok (liftM_of_ok (track_run s t)), bind_of_ok (modifyValues_run _ _ env)]
      exact hrun
    · rw [henv, enterValues, envAt, Scope.map_insert, polyAt_eq hterm, ht.subst, ← envAt,
        envAt_tracked hscope]

/-! ### Reading the types off -/

lemma Ty.unknowns_of_closed {t : Ty} (hprenex : t.isPrenex) (h : t.poly.Closed) :
    t.unknowns = [] := by
  rw [List.eq_nil_iff_forall_not_mem]
  intro x hx
  rcases isFlat_or_scheme hprenex with hflat | ⟨vars, body, rfl, hbody⟩
  · refine h x ?_
    rw [poly_of_isFlat hflat, Poly.free_ofMono]
    exact mem_vars_mono.2 ⟨_, (mem_unknowns_iff t hflat).1 hx, rfl⟩
  · obtain ⟨hx, hvars⟩ := List.mem_filter.1 hx
    refine h x (Poly.free_close.2 ⟨mem_vars_mono.2 ⟨_, (mem_unknowns_iff body hbody).1 hx, rfl⟩, ?_⟩)
    simpa using hvars

/-- Defaults do not reach terms without unknowns. -/
lemma Unifier.term?_defaultUnresolved {u : Unifier Ty String TypeOrigin} {h : Handle} {t : Ty}
    (ht : u.term? h = some t) (hnil : t.unknowns = []) (default : String → Ty) :
    (u.defaultUnresolved default).term? h = some t := by
  rw [defaultUnresolved]
  induction u.unresolved generalizing u with
  | nil => exact ht
  | cons v vs ih =>
    refine ih ?_
    have hassign : Term.assign v (default v) t = t := by
      rw [Term.assign, if_neg]
      simp [Term.occurs, Term.vars, hnil]
    show (u.live.map _).get? h = some t
    rw [Store.get?_map, show u.live.get? h = some t from ht, Option.map_some, hassign]

lemma finish_eq_ok {config : Config} {s S : Session} {u : Unit} :
    finish config s = .ok u S ↔ s.inference.Solvable ∧
      S = ⟨s.inference.settled.defaulted config.defaultTy, s.env⟩ := by
  rw [finish]
  constructor
  · intro hrun
    obtain ⟨_, S₁, hsolve, hrun⟩ := bind_eq_ok.1 hrun
    obtain ⟨s₁, hsolved, rfl⟩ := liftM_eq_ok hsolve
    obtain ⟨hok, rfl⟩ := solve_eq_ok hsolved
    cases hrun
    exact ⟨hok, rfl⟩
  · rintro ⟨hok, rfl⟩
    rw [stepIn_of_ok (liftM_of_ok (solve_run hok))]
    rfl

lemma readValues_run {s : Inference} {entries : List (String × Handle)} {p : Handle → Poly}
    (hterm : ∀ e ∈ entries, ∃ t, s.term? e.2 = some t ∧ t.poly = p e.2) :
    ∃ types, readValues entries s = .ok types s ∧
      types.map (fun e => (e.1, e.2.poly)) = entries.map fun e => (e.1, p e.2) := by
  induction entries with
  | nil => exact ⟨[], rfl, rfl⟩
  | cons e entries ih =>
    obtain ⟨name, h⟩ := e
    obtain ⟨t, ht, hpoly⟩ := hterm (name, h) List.mem_cons_self
    obtain ⟨types, hrun, htypes⟩ := ih fun e he => hterm e (List.mem_cons_of_mem _ he)
    refine ⟨(name, t) :: types, ?_, ?_⟩
    · rw [readValues, bind_of_ok (current_run ht), bind_of_ok hrun]
      rfl
    · rw [List.map_cons, List.map_cons, htypes, hpoly]

/-- If nothing is free in the environment, then all types in scope are closed. -/
lemma closedAt_of_not_free {config : Config} {s : Inference} {values : Scope Handle}
    (hscope : Scoped config s values) (hfree : ∀ x, ¬ (s.envAt .var values).Free x) :
    ∀ h ∈ values.values, s.ClosedAt h := by
  intro h hh
  obtain ⟨t, ht⟩ := hscope.live hh
  refine ⟨t, ht, fun x hx => hfree x ⟨s.polyAt .var h, ?_, ?_⟩⟩
  · rw [envAt, Scope.values_map]
    exact List.mem_map_of_mem hh
  · rw [polyAt_eq ht, Poly.subst_var]
    exact hx

/-! ### Declarations enter the innermost table -/

lemma enclosing_enterConstructors (d : Datatype) (constructors : List Constructor) (Γ : Scope Poly) :
    (enterConstructors d constructors Γ).enclosing = Γ.enclosing := by
  induction constructors generalizing Γ with
  | nil => rfl
  | cons c constructors ih => rw [enterConstructors, ih]; rfl

lemma enclosing_enterDatatypes (ds : List Datatype) (Γ : Scope Poly) :
    (enterDatatypes ds Γ).enclosing = Γ.enclosing := by
  induction ds generalizing Γ with
  | nil => rfl
  | cons d ds ih => rw [enterDatatypes, ih, enclosing_enterConstructors]

lemma HasDecls.enclosing_eq {config : Config} {Γ Γ' : Scope Poly} {decls : List Decl}
    (h : HasDecls config Γ decls Γ') : Γ'.enclosing = Γ.enclosing := by
  induction decls generalizing Γ with
  | nil =>
    cases h
    rfl
  | cons d decls ih =>
    cases h with
    | infer _ _ hrest => rw [ih hrest, Config.enclosing_bind]
    | check _ _ _ _ hrest => rw [ih hrest, Config.enclosing_bind]
    | datatype hrest => exact ih hrest
    | fixity hrest => exact ih hrest

/-! ### Whole programs -/

/-- The polytypes of the named values of the prelude, and an empty table for those of a program. -/
def Prelude.scope (p : Prelude) : Scope Poly := (Scope.ofTable (p.values.map Ty.poly)).child

/-- The start of a check: nothing is in scope but the type constructors of the prelude. -/
def Session.start (config : Config) : Session := ⟨.initial, ⟨.empty, config.prelude.kindScope⟩⟩

/-- Bring the prelude and a group of datatypes into scope. -/
def openProgram (config : Config) (group : List Datatype) : CheckM (Table Kind) := do
  let (kinds, group) ← (declareTypes group).adaptExcept fun e => .error (blameGroup group e)
  blame none {} do
    bringValues config.prelude.values.entries
    modifyValues Scope.child
  checkConstructors group
  return kinds

/-- Solve what is left and read the types of what is in scope. -/
def closeProgram (config : Config) (kinds : Table Kind) : CheckM Typed :=
  blame none {} do
    finish config
    let values ← readValues (← scopes).values.innermost.entries
    return ⟨kinds, .ofList values⟩

lemma checkDecls_eq (config : Config) (decls : List Decl) : checkDecls config decls = (do
    let kinds ← openProgram config (Decl.datatypes decls)
    checkValues config decls
    closeProgram config kinds) := by
  rw [checkDecls, openProgram]
  funext S
  simp only [bind_assoc, pure_bind]
  rfl

lemma Inference.proper_initial : Inference.initial.Proper where
  live ht := by cases ht
  queue e he := by cases he

/-- Once the kinds of its datatypes are found, a program is open. -/
lemma openProgram_run {config : Config} {group : List Datatype} (hprelude : config.prelude.isRankOne)
    (hrank : ∀ d ∈ group, d.isRankOne) {found : GroupKinds}
    (hfound : inferGroup config.prelude.kindScope group = .ok found) :
    ∃ s values, openProgram config group (.start config) = .ok found.declared
        ⟨s, ⟨values, config.prelude.kindScope.insertAll found.declared⟩⟩ ∧
      s.unifier.queue = [] ∧ s.Proper ∧ Scoped config s values ∧
      (∀ h ∈ values.values, s.ClosedAt h) ∧
      ∀ θ, s.envAt θ values = enterDatatypes group config.prelude.scope := by
  have hsentence : ∀ e ∈ config.prelude.values.entries, e.2.isSentence := by
    rw [Prelude.isRankOne, Bool.and_eq_true, List.all_eq_true, List.all_eq_true] at hprelude
    exact fun e he => hprelude.2 e.2 (List.mem_map_of_mem he)
  have hr := (Reaches.refl proper_initial).noted found.recorded
  have hempty : Scoped config (initial.noted found.recorded) .empty :=
    ⟨fun hh => (by cases hh), fun hh => (by cases hh)⟩
  obtain ⟨s₁, values₁, hrun₁, hquiet₁, hp₁, hscope₁, henv₁⟩ :=
    bringValues_run hsentence ⟨.empty, config.prelude.kindScope.insertAll found.declared⟩ hr.proper
      hempty
  obtain ⟨s₂, values₂, hrun₂, hquiet₂, hp₂, hscope₂, _, _, henv₂⟩ :=
    registerAll_run (enterDatatypes_fill hrank found.recorded Scope.empty).2
      ⟨values₁.child, config.prelude.kindScope.insertAll found.declared⟩ hp₁ hscope₁.child
  have henv (θ : String → Mono) :
      s₂.envAt θ values₂ = enterDatatypes group config.prelude.scope := by
    rw [henv₂, envAt, Scope.map_child, ← envAt, henv₁, (enterDatatypes_fill hrank _ _).1]
    show enterDatatypes group (enterValues _ Scope.empty).child = _
    rw [enterValues_entries]
    rfl
  refine ⟨s₂, values₂, ?_, ?_, hp₂, hscope₂, closedAt_of_not_free hscope₂ fun x hx => ?_, henv⟩
  · rw [openProgram, bind_of_ok (adaptExcept_eq_ok.2 (declareTypes_eq_ok.2 ⟨found, hfound, rfl, rfl⟩))]
    have hbring : (do bringValues config.prelude.values.entries; modifyValues Scope.child : DeclM Unit)
        ⟨initial.noted found.recorded, ⟨.empty, config.prelude.kindScope.insertAll found.declared⟩⟩ =
        .ok () ⟨s₁, ⟨values₁.child, config.prelude.kindScope.insertAll found.declared⟩⟩ := by
      rw [bind_of_ok hrun₁]
      rfl
    refine (bind_of_ok (blame_eq_ok.2 hbring)).trans ?_
    rw [bind_of_ok (checkConstructors_eq_ok.2 hrun₂)]
    rfl
  · rw [hquiet₂.queue_eq, hquiet₁.queue_eq]
    rfl
  · rw [henv] at hx
    obtain ⟨p, hp, hx⟩ := free_enterDatatypes hrank hx
    obtain ⟨e, he, rfl⟩ : ∃ e ∈ config.prelude.values.entries, e.2.poly = p := by
      have hp' : p ∈ (config.prelude.values.map Ty.poly).values := by
        simpa [Prelude.scope, Scope.values, Scope.child, Scope.ofTable, Table.values,
          Table.empty] using hp
      obtain ⟨e', he', rfl⟩ := List.mem_map.1 hp'
      obtain ⟨e, he, rfl⟩ := List.mem_map.1 he'
      exact ⟨e, he, rfl⟩
    exact (Ty.isSentence_iff.1 (hsentence e he)).2 x hx

/-- A program is opened in three steps: the kinds of its datatypes are found, the prelude comes into
scope, and the constructors come into a scope of their own. -/
lemma openProgram_eq_ok {config : Config} {group : List Datatype} {kinds : Table Kind} {S : Session}
    (h : openProgram config group (.start config) = .ok kinds S) :
    ∃ found s, inferGroup config.prelude.kindScope group = .ok found ∧ kinds = found.declared ∧
      bringValues config.prelude.values.entries ⟨Inference.initial.noted found.recorded,
        ⟨.empty, config.prelude.kindScope.insertAll found.declared⟩⟩ = .ok () s ∧
      registerAll (fillDatatypes group found.recorded).1
        ⟨s.inference, { s.env with values := s.env.values.child }⟩ = .ok () S := by
  rw [openProgram] at h
  obtain ⟨r, _, hdeclare, hrest⟩ := bind_eq_ok.1 h
  obtain ⟨found, hfound, rfl, rfl⟩ := declareTypes_eq_ok.1 (adaptExcept_eq_ok.1 hdeclare)
  obtain ⟨_, s₁, hbring, hrest⟩ := bind_eq_ok.1 hrest
  obtain ⟨_, s₂, hregister, hpure⟩ := bind_eq_ok.1 hrest
  obtain ⟨rfl, rfl⟩ := pure_eq_ok.1 hpure
  obtain ⟨_, s, hvalues, hchild⟩ := bind_eq_ok.1 (blame_eq_ok.1 hbring)
  cases hchild
  exact ⟨found, s, hfound, rfl, hvalues, checkConstructors_eq_ok.1 hregister⟩

lemma inferGroup_of_openProgram {config : Config} {group : List Datatype} {kinds : Table Kind}
    {S : Session} (h : openProgram config group (.start config) = .ok kinds S) :
    ∃ found, inferGroup config.prelude.kindScope group = .ok found := by
  obtain ⟨found, _, hfound, _⟩ := openProgram_eq_ok h
  exact ⟨found, hfound⟩

/-- At the end the types of what is in scope are reported as they are. -/
lemma closeProgram_eq_ok {config : Config} {kinds : Table Kind} {typed : Typed} {s : Inference}
    {env : Env} {S : Session} (hp : s.Proper) (hclosed : ∀ h ∈ env.values.values, s.ClosedAt h)
    (hrun : closeProgram config kinds ⟨s, env⟩ = .ok typed S) :
    s.Solvable ∧ ∀ θ, (s.envAt θ env.values).innermost = typed.values.map Ty.poly := by
  rw [closeProgram, blame_eq_ok] at hrun
  obtain ⟨_, S₁, hfinish, hrun⟩ := bind_eq_ok.1 hrun
  obtain ⟨hok, rfl⟩ := finish_eq_ok.1 hfinish
  refine ⟨hok, fun θ => ?_⟩
  rw [bind_of_ok (scopes_run _ _)] at hrun
  have hterm : ∀ e ∈ env.values.innermost.entries, ∃ t,
      (s.settled.defaulted config.defaultTy).term? e.2 = some t ∧ t.poly = s.polyAt θ e.2 := by
    intro e he
    obtain ⟨t, ht, hct⟩ :=
      hclosed e.2 (List.mem_append_left _ (List.mem_map_of_mem (f := Prod.snd) he))
    have hr := (Reaches.refl hp).settled hok
    obtain ⟨t', ht', _, hpoly⟩ := hr.keep ht
    have hclosed' : t'.poly.Closed := by
      rw [hpoly hct]
      exact hct
    have hnil := Ty.unknowns_of_closed (hr.proper.live ht').isPrenex hclosed'
    refine ⟨t', Unifier.term?_defaultUnresolved ht' hnil _, ?_⟩
    rw [polyAt_eq ht, hct.subst, hpoly hct]
  obtain ⟨types, hread, htypes⟩ := readValues_run hterm
  rw [bind_of_ok (liftM_of_ok hread)] at hrun
  obtain ⟨rfl, _⟩ := pure_eq_ok.1 hrun
  have hnodup : (types.map Prod.fst).Nodup := by
    have hfst := congrArg (List.map Prod.fst) htypes
    rw [List.map_map, List.map_map] at hfst
    exact hfst ▸ env.values.innermost.nodup
  refine Table.eq_of_entries_eq ?_
  show env.values.innermost.entries.map _ = (Table.ofList types).entries.map _
  rw [Table.entries_ofList hnodup, htypes]

/-- Whatever a program of rank one is found to declare is derivable: its values, in order, bring the
prelude and its constructors to the types that are reported. -/
theorem checkProgram_sound (config : Config) (decls : List Decl) (typed : Typed)
    (hprelude : config.prelude.isRankOne) (hdecls : Decl.isRankOneList decls)
    (hok : (checkProgram config decls).2 = .ok typed) :
    HasDecls config (enterDatatypes (Decl.datatypes decls) config.prelude.scope) decls
      ⟨typed.values.map Ty.poly, [config.prelude.values.map Ty.poly]⟩ := by
  have hrank := Decl.isRankOne_of_mem_datatypes hdecls
  obtain ⟨S, hrun⟩ : ∃ S, checkDecls config decls (.start config) = .ok typed S := by
    rw [checkProgram] at hok
    cases hrun : checkDecls config decls ⟨.initial, ⟨.empty, config.prelude.kindScope⟩⟩ with
    | ok typed' S =>
      rw [hrun] at hok
      cases hok
      exact ⟨S, hrun⟩
    | error e S =>
      rw [hrun] at hok
      cases hok
  rw [checkDecls_eq] at hrun
  obtain ⟨kinds, S₀, hopen, hrun⟩ := bind_eq_ok.1 hrun
  obtain ⟨_, S₁, hvalues, hclose⟩ := bind_eq_ok.1 hrun
  obtain ⟨found, hfound⟩ := inferGroup_of_openProgram hopen
  obtain ⟨s, values, hopen', hqueue, hp, hscope, hclosed, henv⟩ :=
    openProgram_run hprelude hrank hfound
  rw [hopen', EStateM.Result.ok.injEq] at hopen
  obtain ⟨rfl, rfl⟩ := hopen
  obtain ⟨values', s', rfl, hD⟩ := Decl.sound hprelude decls hdecls hp hscope
    (checkValues_eq_ok.1 hvalues)
  obtain ⟨hsolvable, hinnermost⟩ :=
    closeProgram_eq_ok hD.reaches.proper (hD.closed hclosed) hclose
  have hθ := hD.reaches.proper.sol_solution hsolvable .var
  have htyped := hD.typed hθ
  obtain ⟨θ₀, _, hsame⟩ := hD.reaches.back hθ
  rw [envAt_back hscope hsame, henv] at htyped
  have henclosing := htyped.enclosing_eq
  rw [enclosing_enterDatatypes] at henclosing
  have hfinal : s'.envAt _ values' =
      ⟨typed.values.map Ty.poly, [config.prelude.values.map Ty.poly]⟩ :=
    congrArg₂ Scope.mk (hinnermost _) henclosing
  rw [hfinal] at htyped
  exact htyped

/-- An identity that is applied to itself and then to a number. -/
def identityTwice : List Decl :=
  [.value "id" none (.lambda ["x"] (.ident "x")) {},
    .value "one" none (.app (.app (.ident "id") (.ident "id")) (.literal (.int 1))) {}]

/-- The identity is quantified, so both uses are derivable. -/
theorem checkProgram_sound_identityTwice :
    HasDecls {} Prelude.standard.scope identityTwice
      ⟨.ofList [("id", .close ["a"] (.arrow (.var "a") (.var "a"))), ("one", .ofMono Ty.int.mono)],
        [.empty]⟩ :=
  checkProgram_sound {} identityTwice
    ⟨.empty, .ofList [("id", .scheme (.ofList ["a"])
      (.arrow (.var "a" .rigid none) (.var "a" .rigid none))), ("one", .int)]⟩
    (by decide) (by decide) (by cbv)

/-! ### Quantifiers in heads -/

/-- Two datatypes of the same type constructor, the first for a quantified parameter. Matching a
value of the first with the constructor of the second gives a value of the quantified type. -/
def quantifiedHead : List Decl :=
  [.datatype ⟨.app (.con "T" none) [.scheme (.ofList ["a"]) (.var "a" .rigid none)], [⟨"C", []⟩], {}⟩,
    .datatype ⟨.app (.con "T" none) [.var "b" .rigid none], [⟨"D", [.var "b" .rigid none]⟩], {}⟩,
    .value "y" none (.cases (.ident "C") [(.data "D" ["x"], .ident "x")]) {},
    .value "z" none (.app (.ident "y") (.literal (.int 1))) {}]

lemma quantifiedHead_match {τ₀ τ : Mono} (h : HasType {} (({} : Config).bind "y" (.ofMono τ₀)
      (enterDatatypes (Decl.datatypes quantifiedHead) Prelude.standard.scope))
    (.cases (.ident "C") [(.data "D" ["x"], .ident "x")]) τ) : τ = .leaf .quantified := by
  generalize hΓ : ({} : Config).bind "y" (.ofMono τ₀)
    (enterDatatypes (Decl.datatypes quantifiedHead) Prelude.standard.scope) = Γ at h
  have hC : Γ.lookup "C" = some (.node (.leaf (.con "T")) (.leaf .quantified)) := hΓ ▸ rfl
  have hD : Γ.lookup "D" = some (.close ["b"]
      (.arrow (.var "b") (.node (.leaf (.con "T")) (.var "b")))) := hΓ ▸ rfl
  cases h with
  | cases hscrutinee harms =>
    cases hscrutinee with
    | ident hlookup hinst =>
      rw [hC, Option.some.injEq] at hlookup
      obtain ⟨ρ, rfl⟩ := hlookup ▸ hinst
      cases harms with
      | cons hpattern hbody _ =>
        cases hpattern with
        | @data _ _ _ fields _ hlookup' hlen hinst' =>
          rw [Scope.lookup_child, hD, Option.some.injEq] at hlookup'
          obtain ⟨ρ', hρ'⟩ := hlookup' ▸ hinst'
          obtain ⟨field, rfl⟩ := List.length_eq_one_iff.1 hlen
          obtain ⟨rfl, hfield⟩ : ρ' 0 = field ∧ ρ' 0 = .leaf .quantified := by
            simpa [Poly.inst, Poly.close, Mono.function, Mono.arrow] using hρ'
          rw [hfield] at hbody
          cases hbody with
          | ident hlookup'' hinst'' =>
            cases hlookup''
            obtain ⟨_, rfl⟩ := hinst''
            rfl

/-- With quantifiers in the heads of datatypes only, a program may be accepted that is not
derivable. -/
theorem checkProgram_quantifiedHead :
    (Prelude.standard.isRankOne ∧
      Decl.isRankOneList (quantifiedHead.drop 2) ∧
      (Decl.datatypes quantifiedHead).all fun d => d.constructors.all fun c => c.fields.all Ty.isFlat) ∧
    (∃ typed, (checkProgram {} quantifiedHead).2 = .ok typed) ∧
    ¬ ∃ Γ, HasDecls {} (enterDatatypes (Decl.datatypes quantifiedHead) Prelude.standard.scope)
      quantifiedHead Γ := by
  refine ⟨by decide, ?_, ?_⟩
  · let T (t : Ty) : Ty := .app (.con "T" (some (.ofArity 1))) [t]
    let var (x : String) (kind : Option Kind) : Ty := .var x .rigid kind
    refine ⟨⟨.ofList [("T", .ofArity 1)], .ofList
      [("C", T (.scheme (.ofList ["a"]) (var "a" (some .atomic)))),
        ("D", .scheme (.ofList ["b"]) (.arrow (var "b" (some .atomic)) (T (var "b" (some .atomic))))),
        ("y", .scheme (.ofList ["a"]) (var "a" none)),
        ("z", .scheme (.ofList ["a"]) (var "a" none))]⟩, ?_⟩
    cbv
  · rintro ⟨Γ, h⟩
    cases h with
    | datatype h =>
      cases h with
      | datatype h =>
        cases h with
        | infer hy _ h =>
          obtain rfl := quantifiedHead_match hy
          cases h with
          | infer hz _ _ =>
            cases hz with
            | app hf _ =>
              cases hf with
              | ident hlookup hinst =>
                cases hlookup
                obtain ⟨ρ, hρ⟩ := hinst
                cases hρ

end LetPoly
