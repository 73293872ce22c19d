import LetPoly.Proofs.Ty.Exact
import LetPoly.Proofs.Typing.Program
import LetPoly.Proofs.Typing.Sealed

/-!
# Programs as traces

At the top level of a program nothing is fixed: whatever is in scope has a type without free
variables. So checking a program is a trace at the end of which the types reported are those of live
handles (`Seal.checkProgram`), and what is known of these types from the ascriptions, the
constructors and the closures they come from holds of them in the end.
-/

namespace LetPoly

open Inference Session

variable {S : Sources} {m m' : Moment}

/-! ### Values of the prelude -/

lemma follows_bringValues {entries : List (String × Ty)} {env : Env}
    (hentries : ∀ e ∈ entries, S.general e.2 ∧ e.2.occurrences = [])
    (hm : m.Seals (fun _ => True) env.values) : FollowsIn S m env (bringValues entries)
      fun _ m' env' => m'.Seals (fun _ => True) env'.values ∧ env'.kinds = env.kinds := by
  induction entries generalizing m env with
  | nil => exact .pure ⟨hm, rfl⟩
  | cons e entries ih =>
    rw [List.forall_mem_cons] at hentries
    have htrack : Follows S m (track e.2) fun h m' => m.enter e.2 = m' ∧ m.state.newHandle e.2 = h :=
      .of_ok (track_run _ _) (.of_move (.enter hentries.1.1)) rfl ⟨rfl, rfl⟩
    refine (FollowsIn.lift htrack).bind ?_
    rintro h _ _ ⟨⟨rfl, rfl⟩, rfl⟩
    refine (FollowsIn.modifyValues _).bind ?_
    rintro _ _ _ ⟨rfl, rfl⟩
    exact ih hentries.2 (hm.enter hentries.1.2 trivial e.1)

/-! ### Values -/

/-- What is known of a program and its types for its check to be a trace with closed types at the
top level: its quantified types satisfy `p`, and `P` holds of all types that values and constructors
can come to have. -/
structure Seal (S : Sources) (config : Config) (p : NameSet → Ty → Bool) (P : Ty → Prop) : Prop where
  serves : S.Serves config
  stable : StableScheme p
  tame : S.Tame p
  close {t g : Ty} : t.allSchemes p → t.generalize [] = .ok g → g.occurrences = [] ∧ P g

lemma freeVarsOf_eq_ok {s s' : Inference} {hs : List Handle} {names : List String}
    (hrun : freeVarsOf hs s = .ok names s') :
    s' = s ∧ ∀ x ∈ names, ∃ h ∈ hs, ∃ t, s.term? h = some t ∧ x ∈ t.freeVars := by
  induction hs generalizing names s' with
  | nil =>
    obtain ⟨rfl, rfl⟩ := pure_eq_ok.1 hrun
    exact ⟨rfl, by simp⟩
  | cons h hs ih =>
    obtain ⟨t, s₁, hcurrent, hrest⟩ := bind_eq_ok.1 hrun
    obtain ⟨ht, rfl⟩ := current_eq_ok hcurrent
    obtain ⟨names', s₂, hnames, hpure⟩ := bind_eq_ok.1 hrest
    obtain ⟨rfl, hmem⟩ := ih hnames
    obtain ⟨rfl, rfl⟩ := pure_eq_ok.1 hpure
    refine ⟨rfl, fun x hx => ?_⟩
    rcases List.mem_append.1 hx with hx | hx
    · exact ⟨h, List.mem_cons_self, t, ht, hx⟩
    · obtain ⟨h', hh', hx⟩ := hmem x hx
      exact ⟨h', List.mem_cons_of_mem _ hh', hx⟩

/-- How the type of a value without ascription comes about. -/
lemma settleTy_infer_eq_ok {s s' : Inference} {values : Scope Handle} {name : String} {h : Handle}
    {found : Ty} {u : Unit} (hrun : settleTy values name none h found s = .ok u s') :
    ∃ t, s.term? h = some t ∧ (s.equated t found (.binding name)).Solvable ∧
      ∃ t' fixed g, (s.equated t found (.binding name)).settled.term? h = some t' ∧
        envVars values name (s.equated t found (.binding name)).settled =
          .ok fixed (s.equated t found (.binding name)).settled ∧
        t'.generalize fixed = .ok g ∧
        s' = (s.equated t found (.binding name)).settled.replaced h g := by
  rw [settleTy] at hrun
  obtain ⟨r, s₁, hdemanded, hrun⟩ := bind_eq_ok.1 hrun
  obtain ⟨t, s₂, hcurrent, hpure⟩ := bind_eq_ok.1 hdemanded
  obtain ⟨ht, rfl⟩ := current_eq_ok hcurrent
  obtain ⟨rfl, rfl⟩ := pure_eq_ok.1 hpure
  dsimp only at hrun
  rw [step_of_ok (equate_run _ _ _ _)] at hrun
  obtain ⟨_, s₃, hsolve, hrun⟩ := bind_eq_ok.1 hrun
  obtain ⟨hok, rfl⟩ := solve_eq_ok hsolve
  obtain ⟨_, s₄, hescape, hrun⟩ := bind_eq_ok.1 hrun
  obtain ⟨_, rfl⟩ := pure_eq_ok.1 hescape
  obtain ⟨fixed, s₅, hfixed, hrun⟩ := bind_eq_ok.1 hrun
  obtain ⟨rfl, _⟩ := freeVarsOf_eq_ok hfixed
  obtain ⟨t', s₆, hcurrent', hrun⟩ := bind_eq_ok.1 hrun
  obtain ⟨ht', rfl⟩ := current_eq_ok hcurrent'
  obtain ⟨g, s₇, hgeneralize, hrun⟩ := bind_eq_ok.1 hrun
  rw [Inference.generalize] at hgeneralize
  cases hg : t'.generalize fixed with
  | error e =>
    rw [hg] at hgeneralize
    cases hgeneralize
  | ok g' =>
    rw [hg] at hgeneralize
    obtain ⟨rfl, rfl⟩ := pure_eq_ok.1 hgeneralize
    rw [replace_run] at hrun
    cases hrun
    exact ⟨t, ht, hok, t', fixed, _, ht', hfixed, hg, rfl⟩

/-- A run, as a trace from a moment that is tame and leaves everything in scope sealed. -/
structure Moment.Leads (S : Sources) (p : NameSet → Ty → Bool) (P : Ty → Prop) (m : Moment)
    (s : Session) (m' : Moment) : Prop where
  trace : Trace S m m'
  state : m'.state = s.inference
  tame : m'.Tame p
  seals : m'.Seals P s.env.values

section Values

variable {config : Config} {p : NameSet → Ty → Bool} {P : Ty → Prop}

lemma Moment.Leads.trans {m'' : Moment} {s s' : Session} (h₁ : m.Leads S p P s m')
    (h₂ : m'.Leads S p P s' m'') : m.Leads S p P s' m'' :=
  ⟨h₁.trace.trans h₂.trace, h₂.state, h₂.tame, h₂.seals⟩

lemma Trace.tame (hseal : Seal S config p P) (htrace : Trace S m m') (hm : m.Tame p) : m'.Tame p :=
  htrace.invariant (I := fun m => m.Tame p) (fun hmove => hmove.tame hseal.stable hseal.tame) hm

/-- Nothing is fixed if everything in scope is closed. -/
lemma Moment.Seals.fixed_eq_nil {values : Scope Handle} (hm : m.Seals P values) {name : String}
    {h : Handle} {fixed : List String} {s : Inference}
    (hfixed : envVars (config.bind name h values) name m.state = .ok fixed s) : fixed = [] := by
  refine List.eq_nil_iff_forall_not_mem.2 fun x hx => ?_
  obtain ⟨h', hh', t, ht, hx⟩ := (freeVarsOf_eq_ok hfixed).2 x hx
  replace hh' : h' ∈ (config.bind name h values).others name := hh'
  rw [Config.others_bind] at hh'
  have hclosed := ((hm.all h' (values.others_subset name hh')).term ht).1
  rw [Ty.freeVars, NameSet.mem_ofList, hclosed] at hx
  cases hx

/-- A value without ascription is closed over everything. -/
lemma Seal.bindValue_infer (hseal : Seal S config p P) {env : Env} (hkinds : S.kinds env.kinds)
    (htame : m.Tame p) (hm : m.Seals P env.values) {name : String} {value : Expr}
    (hvalue : value.Meets S.test) {u : Unit} {s : Session}
    (hrun : bindValue config name none value ⟨m.state, env⟩ = .ok u s) :
    ∃ m', m.Leads S p P s m' ∧ s.env.kinds = env.kinds := by
  obtain ⟨found, s₁, s₂, hinfer, hsettle, rfl⟩ := bindValueWith_infer_eq_ok.1 hrun
  -- A variable is tracked for the value, and its own type is inferred.
  let m₁ := (m.gain 1 (.fresh m.state.next)).track (.fresh m.state.next)
  have htrace₁ : Trace S m m₁ :=
    .trans (.of_move (.fresh m)) (.of_move (.track (.held List.mem_cons_self)))
  obtain ⟨m₂, htrace₂, rfl, hfound, hkeeps⟩ :=
    (value.infer_follows hseal.serves hvalue m₁ (env.bindValue config name _) hkinds).trace hinfer
  have hown : m₂.own ((m.state.bump 1).newHandle (.fresh m.state.next)) := hkeeps (.inr rfl)
  obtain ⟨t, ht, hok, t', fixed, g, ht', hfixed, hg, rfl⟩ := settleTy_infer_eq_ok hsettle
  -- The two are equated and solved.
  let m₃ := ((m₂.gain 0 t).equate t found (.binding name)).solve
  have htrace₃ : Trace S m m₃ := by
    refine (htrace₁.trans htrace₂).trans (.trans (.of_move (.read hown ht)) (.trans (.of_move
      (.equate _ (.held List.mem_cons_self) (hfound.mono (List.subset_cons_self _ _))))
      (.of_move (.solve hok))))
  have hm₃ := htrace₃.seals hm
  have htame₃ := htrace₃.tame hseal htame
  -- As nothing is fixed, the closure has no free variable.
  obtain rfl := hm₃.fixed_eq_nil hfixed
  have ht₃ : m₃.state.term? _ = some t' := ht'
  have hmove : Moves S m₃ (m₃.close _ g) := .close hown ht₃ hg
  obtain ⟨hclosed, hP⟩ := hseal.close (htame₃.own hown ht₃) hg
  refine ⟨m₃.close _ g, ⟨htrace₃.trans (.of_move hmove), rfl,
    hmove.tame hseal.stable hseal.tame htame₃, ?_⟩, rfl⟩
  refine ((Trace.of_move hmove).seals hm₃).bind config name ⟨?_, fun ht => ?_, fun h => absurd rfl h.2⟩
  · exact (m₃.issued hown).replaced _ g
  · replace ht : (m₃.state.replaced _ g).term? _ = _ := ht
    rw [term?_replaced ht₃, if_pos rfl] at ht
    cases ht
    exact ⟨hclosed, hP⟩

/-- A value with an ascription keeps the ascribed type. -/
lemma Seal.bindValue_check (hseal : Seal S config p P) {env : Env} (hkinds : S.kinds env.kinds)
    (htame : m.Tame p) (hm : m.Seals P env.values) {name : String} {t : Ty} {value : Expr}
    (hvalue : value.Meets S.test) (ht : S.test.binding t)
    (hP : ∀ found q, (checkAscription env.kinds t).2 = .ok found →
      (t.fill found).1.quantify = .ok q → P q) {u : Unit} {s : Session}
    (hrun : bindValue config name (some t) value ⟨m.state, env⟩ = .ok u s) :
    ∃ m', m.Leads S p P s m' ∧ s.env.kinds = env.kinds := by
  obtain ⟨kinds, q, hcheck, hq, found, s₁, s₂, hinfer, hsettle, rfl⟩ :=
    bindValueWith_check_eq_ok.1 hrun
  have hascribed : S.Ascribed (some q) := ht env.kinds hkinds kinds hcheck q hq
  have hclosed := (Ty.quantify_exact hq).1
  have hPq := hP kinds q hcheck hq
  obtain ⟨m₁, htrace₁, hstate₁, hsealed, hown⟩ : ∃ m₁, Trace S m m₁ ∧
      m₁.state = (m.state.noted kinds).tracked q ∧
      m₁.Sealed P ((m.state.noted kinds).newHandle q) ∧
      ((some q).any Ty.isScheme = false → m₁.own ((m.state.noted kinds).newHandle q)) := by
    have hnote : Trace S m (m.note kinds) := .of_move (.note m kinds)
    rw [Sources.Ascribed] at hascribed
    cases hscheme : q.isScheme with
    | true =>
      rw [if_pos hscheme] at hascribed
      refine ⟨(m.note kinds).enter q, hnote.trans (.of_move (.enter hascribed)), rfl,
        Moment.sealed_enter hclosed hPq, fun hfalse => ?_⟩
      rw [Option.any_some, hscheme] at hfalse
      cases hfalse
    | false =>
      rw [if_neg (by simp [hscheme])] at hascribed
      exact ⟨(m.note kinds).track q, hnote.trans (.of_move (.track (.plain hascribed))), rfl,
        Moment.sealed_track hclosed hPq hscheme, fun _ => .inr rfl⟩
  rw [← hstate₁] at hinfer
  obtain ⟨m₂, htrace₂, rfl, hfound, hkeeps⟩ :=
    (value.infer_follows hseal.serves hvalue m₁ (env.bindValue config name _) hkinds).trace hinfer
  obtain ⟨m₃, htrace₃, rfl, _⟩ := (follows_settleTy _ name hascribed
    (fun hplain => hkeeps (hown hplain)) hfound).trace hsettle
  have htrace := htrace₁.trans (htrace₂.trans htrace₃)
  exact ⟨m₃, ⟨htrace, rfl, htrace.tame hseal htame,
    (htrace.seals hm).bind config name ((htrace₂.trans htrace₃).sealed hsealed)⟩, rfl⟩

/-- What the types that a program ascribes to its values come to. -/
def Decl.Ascribes (P : Ty → Prop) (kinds : Scope Kind) (decls : List Decl) : Prop :=
  ∀ name t value position, Decl.value name (some t) value position ∈ decls → ∀ found q,
    (checkAscription kinds t).2 = .ok found → (t.fill found).1.quantify = .ok q → P q

/-- The values of a program leave everything in scope sealed. -/
lemma Seal.bindAll (hseal : Seal S config p P) {decls : List Decl} {env : Env}
    (hkinds : S.kinds env.kinds) (htame : m.Tame p) (hm : m.Seals P env.values)
    (hdecls : Decl.Meets S.test decls) (hP : Decl.Ascribes P env.kinds decls) {u : Unit}
    {s : Session} (hrun : Decl.bindAll config decls ⟨m.state, env⟩ = .ok u s) :
    ∃ m', m.Leads S p P s m' := by
  induction decls generalizing m env with
  | nil =>
    obtain ⟨_, rfl⟩ := pure_eq_ok.1 hrun
    exact ⟨m, .refl m, rfl, htame, hm⟩
  | cons d decls ih =>
    have hP' : Decl.Ascribes P env.kinds decls := fun name t value position hmem =>
      hP name t value position (List.mem_cons_of_mem _ hmem)
    cases d with
    | datatype d => exact ih hkinds htame hm hdecls hP' hrun
    | fixity f => exact ih hkinds htame hm hdecls hP' hrun
    | value name ascription value position =>
      obtain ⟨hascription, hvalue, hdecls⟩ := hdecls
      rw [Decl.bindAll] at hrun
      obtain ⟨_, s₁, hbind, hrun⟩ := bind_eq_ok.1 hrun
      obtain ⟨m₁, hm₁, hkinds₁⟩ : ∃ m₁, m.Leads S p P s₁ m₁ ∧ s₁.env.kinds = env.kinds := by
        cases ascription with
        | none => exact hseal.bindValue_infer hkinds htame hm hvalue hbind
        | some t =>
          exact hseal.bindValue_check hkinds htame hm hvalue (hascription t rfl)
            (hP name t value position List.mem_cons_self) hbind
      have hs₁ : s₁ = ⟨m₁.state, s₁.env⟩ := by rw [hm₁.state]
      rw [hs₁] at hrun
      rw [← hkinds₁] at hkinds hP'
      obtain ⟨m₂, hm₂⟩ := ih hkinds hm₁.tame hm₁.seals hdecls hP' hrun
      exact ⟨m₂, hm₁.trans hm₂⟩

/-- A run that is led to goes on with values. -/
lemma Moment.Leads.bindAll (hseal : Seal S config p P) {s s' : Session} (hm : m.Leads S p P s m')
    (hkinds : S.kinds s.env.kinds) {decls : List Decl} (hdecls : Decl.Meets S.test decls)
    (hP : Decl.Ascribes P s.env.kinds decls) {u : Unit}
    (hrun : Decl.bindAll config decls s = .ok u s') : ∃ m'', m'.Leads S p P s' m'' := by
  have hs : s = ⟨m'.state, s.env⟩ := by rw [hm.state]
  rw [hs] at hrun
  exact hseal.bindAll hkinds hm.tame hm.seals hdecls hP hrun

end Values

/-! ### Programs -/

lemma checkProgram_eq_ok {config : Config} {decls : List Decl} {typed : Typed}
    (hok : (checkProgram config decls).2 = .ok typed) :
    ∃ found s₁ s₂ s₃, inferGroup config.prelude.kindScope (Decl.datatypes decls) = .ok found ∧
      openProgram config (Decl.datatypes decls) (.start config) = .ok found.declared s₁ ∧
      Decl.bindAll config decls s₁ = .ok () s₂ ∧ closeProgram config found.declared s₂ = .ok typed s₃ := by
  obtain ⟨s₃, hrun⟩ : ∃ s, checkDecls config decls (.start config) = .ok typed s := by
    rw [checkProgram] at hok
    cases hrun : checkDecls config decls ⟨.initial, ⟨.empty, config.prelude.kindScope⟩⟩ with
    | ok typed' s =>
      rw [hrun] at hok
      cases hok
      exact ⟨s, hrun⟩
    | error e s =>
      rw [hrun] at hok
      cases hok
  rw [checkDecls_eq] at hrun
  obtain ⟨kinds, s₁, hopen, hrest⟩ := bind_eq_ok.1 hrun
  obtain ⟨_, s₂, hvalues, hclose⟩ := bind_eq_ok.1 hrest
  obtain ⟨found, _, hfound, rfl, _⟩ := openProgram_eq_ok hopen
  exact ⟨found, s₁, s₂, s₃, hfound, hopen, checkValues_eq_ok.1 hvalues, hclose⟩

lemma readValues_eq_ok {s s' : Inference} {entries : List (String × Handle)}
    {types : List (String × Ty)} (hrun : readValues entries s = .ok types s') :
    types.map Prod.fst = entries.map Prod.fst ∧
      ∀ e ∈ types, ∃ h ∈ entries.map Prod.snd, s.term? h = some e.2 := by
  induction entries generalizing types s' with
  | nil =>
    obtain ⟨rfl, _⟩ := pure_eq_ok.1 hrun
    exact ⟨rfl, by simp⟩
  | cons e entries ih =>
    obtain ⟨name, h⟩ := e
    obtain ⟨t, s₁, hcurrent, hrest⟩ := bind_eq_ok.1 hrun
    obtain ⟨ht, rfl⟩ := current_eq_ok hcurrent
    obtain ⟨types', s₂, hread, hpure⟩ := bind_eq_ok.1 hrest
    obtain ⟨rfl, _⟩ := pure_eq_ok.1 hpure
    obtain ⟨hnames, hterms⟩ := ih hread
    refine ⟨by rw [List.map_cons, List.map_cons, hnames], List.forall_mem_cons.2 ⟨?_, fun e he => ?_⟩⟩
    · exact ⟨h, List.mem_cons_self, ht⟩
    · obtain ⟨h', hh', ht'⟩ := hterms e he
      exact ⟨h', List.mem_cons_of_mem _ hh', ht'⟩

section Programs

variable {config : Config} {p : NameSet → Ty → Bool} {P : Ty → Prop}

lemma Moment.tame_start : (Moment.start .initial).Tame p where
  own hh := hh.elim
  live ht := by cases ht
  queue e he := by cases he
  held t ht := by cases ht

/-- Once the prelude and the constructors are in scope, everything in scope is sealed. -/
lemma Seal.openProgram (hseal : Seal S config p P) {group : List Datatype} {found : GroupKinds}
    (hfound : inferGroup config.prelude.kindScope group = .ok found)
    (hprelude : ∀ e ∈ config.prelude.values.entries, S.general e.2 ∧ e.2.occurrences = [])
    (hgroup : ∀ d ∈ (fillDatatypes group found.recorded).1, ∀ c ∈ d.constructors, ∀ q,
      (d.constructorTy c).quantify = .ok q → S.general q ∧ P q)
    {s : Session} (hrun : LetPoly.openProgram config group (.start config) = .ok found.declared s) :
    ∃ m, (Moment.start .initial).Leads S p P s m ∧
      s.env.kinds = config.prelude.kindScope.insertAll found.declared := by
  obtain ⟨found', s₁, hfound', _, hbring, hregister⟩ := openProgram_eq_ok hrun
  obtain rfl : found = found' := Except.ok.inj (hfound.symm.trans hfound')
  -- The values of the prelude come in, below the scope of the program.
  let m₀ := (Moment.start .initial).note found.recorded
  have hempty : m₀.Seals (fun _ => True) (.empty : Scope Handle) :=
    ⟨fun h hh => (by cases hh), fun h hh => (by cases hh)⟩
  have hbringing : FollowsIn S m₀ ⟨.empty, config.prelude.kindScope.insertAll found.declared⟩
      (bringValues config.prelude.values.entries) _ := follows_bringValues hprelude hempty
  obtain ⟨m₁, htrace₁, hstate₁, hseals₁, hkinds₁⟩ := hbringing.trace hbring
  have hchild : m₁.Seals P s₁.env.values.child := by
    refine ⟨fun h hh => hseals₁.all h ?_, fun h hh => (by cases hh)⟩
    rwa [Scope.values_child] at hh
  -- The constructors come in.
  have hregistering : FollowsIn S m₁ ⟨s₁.env.values.child, s₁.env.kinds⟩
      (registerAll (fillDatatypes group found.recorded).1 : DeclM Unit) fun _ m env =>
        m.Seals P env.values ∧
          env.kinds = config.prelude.kindScope.insertAll found.declared :=
    follows_registerAll ⟨hchild, hkinds₁⟩ fun d hd c hc q hq =>
      ⟨(hgroup d hd c hc q hq).1, fun m env h =>
        ⟨h.1.enter (Ty.quantify_exact hq).1 (hgroup d hd c hc q hq).2 c.name, h.2⟩⟩
  rw [← hstate₁] at hregister
  obtain ⟨m₂, htrace₂, hstate₂, hseals₂, hkinds₂⟩ := hregistering.trace hregister
  have htrace : Trace S (.start .initial) m₂ :=
    (Trace.of_move (.note _ found.recorded)).trans (htrace₁.trans htrace₂)
  exact ⟨m₂, ⟨htrace, hstate₂, htrace.tame hseal Moment.tame_start, hseals₂⟩, hkinds₂⟩

/-- A program is closed by solving what is left, putting the defaults in and reading the types of
what is in scope. -/
lemma closeProgram_reads {kinds : Table Kind} {typed : Typed} {s s' : Session}
    (hrun : closeProgram config kinds s = .ok typed s') :
    s.inference.Solvable ∧ typed.kinds = kinds ∧ ∀ e ∈ typed.values.entries,
      ∃ h ∈ s.env.values.innermost.values,
        (s.inference.settled.defaulted config.defaultTy).term? h = some e.2 := by
  rw [closeProgram, blame_eq_ok] at hrun
  obtain ⟨_, s₁, hfinish, hrest⟩ := bind_eq_ok.1 hrun
  obtain ⟨hok, rfl⟩ := finish_eq_ok.1 hfinish
  rw [bind_of_ok (scopes_run _ _)] at hrest
  obtain ⟨types, _, hread, hpure⟩ := bind_eq_ok.1 hrest
  obtain ⟨_, hread', rfl⟩ := liftM_eq_ok hread
  obtain ⟨rfl, _⟩ := pure_eq_ok.1 hpure
  obtain ⟨hnames, hterms⟩ := readValues_eq_ok hread'
  refine ⟨hok, rfl, fun e he => ?_⟩
  replace he : e ∈ (Table.ofList types).entries := he
  rw [Table.entries_ofList (hnames ▸ s.env.values.innermost.nodup)] at he
  exact hterms e he

/-- The types reported are those in scope once all equations are solved. Defaults change none of
them. -/
lemma Moment.Seals.closeProgram {kinds : Table Kind} {typed : Typed} {s s' : Session}
    (hm : m.Seals P s.env.values) (hstate : m.state = s.inference)
    (hrun : LetPoly.closeProgram config kinds s = .ok typed s') :
    ∃ m', Trace S m m' ∧ ∀ e ∈ typed.values.entries,
      (e.2.occurrences = [] ∧ P e.2) ∧ ∃ h, m'.state.term? h = some e.2 := by
  obtain ⟨hok, -, hterms⟩ := closeProgram_reads hrun
  rw [← hstate] at hok hterms
  have htrace : Trace S m m.solve := .of_move (.solve hok)
  refine ⟨m.solve, htrace, fun e he => ?_⟩
  obtain ⟨h, hh, ht⟩ := hterms e he
  -- The handle had a type before, with nothing in it to default.
  obtain ⟨t, hbefore⟩ := Option.isSome_iff_exists.1
    ((term?_defaulted m.state.settled config.defaultTy h).symm.trans (Option.isSome_of_eq_some ht))
  have hclosed := ((htrace.seals hm).innermost h hh).term hbefore
  have hafter := Unifier.term?_defaultUnresolved hbefore (Ty.unknowns_of_occurrences hclosed.1)
    fun _ => config.defaultTy
  obtain rfl : t = e.2 := Option.some.inj (hafter.symm.trans ht)
  exact ⟨hclosed, h, hbefore⟩

/-- Checking a program is a trace at the end of which live handles have the types reported: these
have no free variables, and `P` holds of them. -/
lemma Seal.checkProgram (hseal : Seal S config p P) {decls : List Decl} {typed : Typed}
    (hok : (checkProgram config decls).2 = .ok typed) {found : GroupKinds}
    (hfound : inferGroup config.prelude.kindScope (Decl.datatypes decls) = .ok found)
    (hkinds : S.kinds (config.prelude.kindScope.insertAll found.declared))
    (hprelude : ∀ e ∈ config.prelude.values.entries, S.general e.2 ∧ e.2.occurrences = [])
    (hgroup : ∀ d ∈ (fillDatatypes (Decl.datatypes decls) found.recorded).1, ∀ c ∈ d.constructors,
      ∀ q, (d.constructorTy c).quantify = .ok q → S.general q ∧ P q)
    (hdecls : Decl.Meets S.test decls)
    (hascribes : Decl.Ascribes P (config.prelude.kindScope.insertAll found.declared) decls) :
    ∃ m, Trace S (.start .initial) m ∧ ∀ e ∈ typed.values.entries,
      (e.2.occurrences = [] ∧ P e.2) ∧ ∃ h, m.state.term? h = some e.2 := by
  obtain ⟨found', s₁, s₂, s₃, hfound', hopen, hvalues, hclose⟩ := checkProgram_eq_ok hok
  obtain rfl : found = found' := Except.ok.inj (hfound.symm.trans hfound')
  obtain ⟨m₁, hm₁, hkinds₁⟩ := hseal.openProgram hfound hprelude hgroup hopen
  rw [← hkinds₁] at hkinds hascribes
  obtain ⟨m₂, hm₂⟩ := hm₁.bindAll hseal hkinds hdecls hascribes hvalues
  obtain ⟨m₃, htrace, hvalues⟩ := hm₂.seals.closeProgram (S := S) hm₂.state hclose
  exact ⟨m₃, hm₁.trace.trans (hm₂.trace.trans htrace), hvalues⟩

end Programs

end LetPoly
