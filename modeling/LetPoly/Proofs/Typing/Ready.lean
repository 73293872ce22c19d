import LetPoly.Proofs.Typing.Commands
import LetPoly.Proofs.Typing.Program

/-!
# Between declarations

Once a declaration is through, everything in scope is live and no equation waits. So nothing can
fail after the last declaration: the types of a program can always be read off
(`SessionOn.Ready.closeProgram`).
-/

namespace LetPoly

open Inference Session Stage

/-- Everything in scope is live and nothing waits to be solved. -/
structure SessionOn.Ready (s : Session) : Prop where
  live : ∀ h ∈ s.env.values.values, s.inference.Live h
  stray : s.inference.stray = []
  idle : s.inference.Idle

namespace SessionOn.Ready

variable {s s' : Session} {u : Unit}

lemma enter (hs : s.Ready) (name : String) (ty : Ty) :
    SessionOn.Ready ⟨s.inference.tracked ty,
      { s.env with values := s.env.values.insert name (s.inference.newHandle ty) }⟩ where
  live h hh := by
    rcases Scope.mem_values_insert hh with rfl | hh
    · exact ⟨ty, s.inference.term?_newHandle ty⟩
    · rw [Live, term?_tracked_of_live (hs.live h hh)]
      exact hs.live h hh
  stray := hs.stray
  idle := hs.idle

lemma bringValues (hs : s.Ready) (entries : List (String × Ty)) :
    ∃ s', LetPoly.bringValues entries s = .ok () s' ∧ s'.Ready ∧ s'.env.kinds = s.env.kinds := by
  induction entries generalizing s with
  | nil => exact ⟨s, rfl, hs, rfl⟩
  | cons e entries ih => exact ih (hs.enter e.1 e.2)

lemma registerEach (hs : s.Ready) {d : Datatype} {constructors : List Constructor}
    (hrun : LetPoly.registerEach d constructors s = .ok u s') : s'.Ready := by
  induction constructors generalizing s with
  | nil =>
    obtain ⟨_, rfl⟩ := pure_eq_ok.1 hrun
    exact hs
  | cons c constructors ih =>
    obtain ⟨t, s₁, hquantify, hrun⟩ := bind_eq_ok.1 hrun
    obtain ⟨inference, hquantify', rfl⟩ := liftM_eq_ok hquantify
    obtain ⟨_, rfl⟩ := quantify_eq_ok hquantify'
    exact ih (hs.enter c.name t) hrun

lemma registerAll (hs : s.Ready) {ds : List Datatype}
    (hrun : LetPoly.registerAll ds s = .ok u s') : s'.Ready := by
  induction ds generalizing s with
  | nil =>
    obtain ⟨_, rfl⟩ := pure_eq_ok.1 hrun
    exact hs
  | cons d ds ih =>
    obtain ⟨_, s₁, hd, hds⟩ := bind_eq_ok.1 hrun
    exact ih (hs.registerEach hd) hds

/-- A value is either bound, and the session ready again, or refused with an error of the
program. -/
lemma bindValue (hs : s.Ready) (config : Config) (name : String) (ascription : Option Ty)
    (value : Expr) : Safe (fun _ => True) s (LetPoly.bindValue config name ascription value)
      fun _ s' => s'.Ready := by
  let f : SessionOn Film := ⟨⟨s.inference, [], []⟩, s.env⟩
  have hf : f.Sound := ⟨⟨rfl, by simp, ⟨False.elim, hs.stray⟩, by simp [f]⟩, hs.live, fun _ _ => id⟩
  have hsafe := safe_valueWith config name ascription
    (fun env hfilm henv => value.safe_infer config env hfilm henv) hf
  have hfilms := films_bindValueWith config name ascription
    (fun env => value.films_infer config env) f
  rw [Safe] at hsafe
  rw [Safe, LetPoly.bindValue, ← show f.plain = s from rfl, ← hfilms]
  cases hfilm : bindValueWith config name ascription (fun env => value.infer config env) f with
  | ok u f' =>
    rw [hfilm] at hsafe
    exact ⟨trivial, hsafe.1.live, hsafe.1.film.guards.stray, hsafe.2⟩
  | error e f' =>
    rw [hfilm] at hsafe
    exact ⟨trivial, hsafe.2⟩

lemma bindAll (hs : s.Ready) (config : Config) (decls : List Decl) :
    Safe (fun _ => True) s (Decl.bindAll config decls) fun _ s' => s'.Ready := by
  induction decls generalizing s with
  | nil =>
    rw [Decl.bindAll]
    exact .pure trivial hs
  | cons d decls ih =>
    cases d with
    | value name ascription value position =>
      rw [Decl.bindAll]
      exact (hs.bindValue config name ascription value).bind fun _ s' _ hs' => ih hs'
    | datatype d =>
      rw [Decl.bindAll]
      exact ih hs
    | fixity f =>
      rw [Decl.bindAll]
      exact ih hs

end SessionOn.Ready

/-! ### The end of a program -/

lemma Inference.Idle.solvable {s : Inference} (hs : s.Idle) : s.Solvable := by
  rw [Solvable, hs, LetPoly.solve]

/-- Solving changes no type if no equation waits. -/
lemma Inference.Idle.term?_settled {s : Inference} (hs : s.Idle) (h : Handle) :
    s.settled.term? h = s.term? h := by
  refine (Unifier.term?_solve s.unifier h).trans ?_
  rw [show s.unifier.queue = [] from hs, LetPoly.solve]
  exact Option.map_id'

lemma readValues_of_live {s : Inference} (entries : List (String × Handle))
    (hlive : ∀ e ∈ entries, s.Live e.2) : ∃ types, readValues entries s = .ok types s ∧
      types.map (fun e => (e.1, some e.2)) = entries.map fun e => (e.1, s.term? e.2) := by
  induction entries with
  | nil => exact ⟨[], rfl, rfl⟩
  | cons e entries ih =>
    rw [List.forall_mem_cons] at hlive
    obtain ⟨⟨t, ht⟩, hlive⟩ := hlive
    obtain ⟨types, hrun, hmap⟩ := ih hlive
    refine ⟨(e.1, t) :: types, ?_, ?_⟩
    · rw [readValues, bind_of_ok (current_run ht), bind_of_ok hrun]
      rfl
    · rw [List.map_cons, List.map_cons, hmap, ht]

/-- A type without free variables is reported as it stands. -/
lemma SessionOn.Ready.reported {s : Session} (hs : s.Ready) {h : Handle} {t : Ty}
    (ht : s.inference.term? h = some t) (hclosed : t.unknowns = []) (default : Ty) :
    (s.inference.settled.defaulted default).term? h = some t :=
  Unifier.term?_defaultUnresolved ((hs.idle.term?_settled h).trans ht) hclosed _

/-- Reading off the types of a program never fails, and gives each name in the innermost scope the
type that its handle comes to have. -/
lemma SessionOn.Ready.closeProgram {s : Session} (hs : s.Ready) (config : Config) (kinds : Table Kind) :
    ∃ values s', LetPoly.closeProgram config kinds s = .ok ⟨kinds, values⟩ s' ∧
      ∀ name, values.find? name = (s.env.values.innermost.find? name).bind
        (s.inference.settled.defaulted config.defaultTy).term? := by
  have hfinish : finish config s = .ok ()
      ⟨s.inference.settled.defaulted config.defaultTy, s.env⟩ :=
    finish_eq_ok.2 ⟨hs.idle.solvable, rfl⟩
  have hguards : Guards (· ∈ s.env.values.values) s.inference := ⟨hs.live _, hs.stray⟩
  obtain ⟨types, hread, hmap⟩ := readValues_of_live s.env.values.innermost.entries
    fun e he => (hguards.settled.defaulted config.defaultTy).live
      (List.mem_append_left _ (List.mem_map_of_mem he))
  refine ⟨.ofList types, ⟨s.inference.settled.defaulted config.defaultTy, s.env⟩,
    blame_eq_ok.2 ?_, fun name => ?_⟩
  · rw [bind_of_ok hfinish, bind_of_ok (scopes_run _ _),
      bind_of_ok (liftM_of_ok hread)]
    rfl
  · have hnames : types.map Prod.fst = s.env.values.innermost.entries.map Prod.fst := by
      have hfst := congrArg (List.map Prod.fst) hmap
      rwa [List.map_map, List.map_map] at hfst
    have hlookup := congrArg (Table.lookup name) hmap
    rw [Table.lookup_map, Table.lookup_map] at hlookup
    rw [Table.find?, Table.entries_ofList (hnames ▸ s.env.values.innermost.nodup), Table.find?]
    cases hentry : Table.lookup name s.env.values.innermost.entries with
    | none =>
      rw [hentry, Option.map_none, Option.map_eq_none_iff] at hlookup
      rw [hlookup, Option.bind_none]
    | some h =>
      rw [hentry, Option.map_some] at hlookup
      obtain ⟨t, ht, hterm⟩ := Option.map_eq_some_iff.1 hlookup
      rw [ht, Option.bind_some, ← hterm]

/-! ### The beginning of a program -/

lemma Session.ready_start (config : Config) : (Session.start config).Ready :=
  ⟨fun h hh => (by cases hh), rfl, rfl⟩

lemma ready_openProgram {config : Config} {group : List Datatype} {kinds : Table Kind} {s : Session}
    (hopen : openProgram config group (.start config) = .ok kinds s) : s.Ready := by
  obtain ⟨found, s₁, _, _, hbring, hregister⟩ := openProgram_eq_ok hopen
  have hnoted : SessionOn.Ready ⟨Inference.initial.noted found.recorded,
      ⟨.empty, config.prelude.kindScope.insertAll found.declared⟩⟩ :=
    ⟨fun h hh => (by cases hh), rfl, rfl⟩
  obtain ⟨s₀, hs₀, hready, _⟩ := hnoted.bringValues config.prelude.values.entries
  cases hs₀.symm.trans hbring
  have hchild : SessionOn.Ready ⟨s₁.inference, { s₁.env with values := s₁.env.values.child }⟩ :=
    ⟨fun h hh => hready.live h (by rwa [Scope.values_child] at hh), hready.stray, hready.idle⟩
  exact hchild.registerAll hregister

section Outcomes

variable {config : Config} {decls : List Decl}

lemma checkProgram_of_ok {typed : Typed} {s : Session}
    (hrun : checkDecls config decls (.start config) = .ok typed s) :
    checkProgram config decls = (Decl.fillAll decls s.inference.recorded, .ok typed) := by
  rw [Session.start] at hrun
  rw [checkProgram]
  simp only [hrun]

lemma checkProgram_of_error {fault : Fault CheckError} {s : Session}
    (hrun : checkDecls config decls (.start config) = .error fault s) :
    checkProgram config decls = (Decl.fillAll decls s.inference.recorded, .error fault) := by
  rw [Session.start] at hrun
  rw [checkProgram]
  simp only [hrun]

end Outcomes

end LetPoly
