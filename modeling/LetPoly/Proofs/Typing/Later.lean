import LetPoly.Proofs.Typing.Ready
import LetPoly.Proofs.Typing.TopLevel

/-!
# Values that are declared later

What is declared later does not touch what was declared before (`checkProgram_append`): an error
stays the one reported, a type stays as it is, and the first value that fails is the one to blame.
The runs share their first part, and after it every type in scope is closed, so that neither
solutions nor defaults reach it any more.
-/

namespace LetPoly

open Inference Session

variable {config : Config} {decls later : List Decl}

/-! ### Programs of any kind -/

/-- Types and kinds without any condition. -/
def Sources.any : Sources := ⟨fun _ => True, fun _ => True, fun _ => True⟩

lemma Sources.serves_any : Sources.any.Serves config :=
  ⟨fun _ => trivial, trivial, fun _ => trivial, fun _ => trivial⟩

mutual
lemma Expr.meets_any : (e : Expr) → e.Meets Sources.any.test
  | .literal _ => trivial
  | .ident _ => trivial
  | .internal _ => trivial
  | .app func arg => ⟨func.meets_any, arg.meets_any⟩
  | .function _ body => ⟨fun _ _ _ _ _ _ _ _ => trivial, body.meets_any⟩
  | .guards branches otherwise => ⟨Expr.meetsBranches_any branches, otherwise.meets_any⟩
  | .cases scrutinee arms => ⟨scrutinee.meets_any, Expr.meetsArms_any arms⟩
  | .letIn decls body =>
    ⟨fun _ _ _ _ => ⟨trivial, fun _ _ _ _ _ _ => trivial⟩, Decl.meets_any decls, body.meets_any⟩

lemma Expr.meetsBranches_any : (branches : List (Expr × Expr)) →
    Expr.MeetsBranches Sources.any.test branches
  | [] => trivial
  | (condition, branch) :: branches =>
    ⟨condition.meets_any, branch.meets_any, Expr.meetsBranches_any branches⟩

lemma Expr.meetsArms_any : (arms : List (Pattern × Expr)) → Expr.MeetsArms Sources.any.test arms
  | [] => trivial
  | (_, body) :: arms => ⟨body.meets_any, Expr.meetsArms_any arms⟩

lemma Decl.meets_any : (decls : List Decl) → Decl.Meets Sources.any.test decls
  | [] => trivial
  | .value _ _ value _ :: decls =>
    ⟨fun _ _ _ _ _ _ q _ => by split <;> trivial, value.meets_any, Decl.meets_any decls⟩
  | .datatype _ :: decls => Decl.meets_any decls
  | .fixity _ :: decls => Decl.meets_any decls
end

/-- Whatever the program, the types at its top level come to be closed. -/
lemma Seal.any : Seal .any config (fun _ _ => true) fun _ => True where
  serves := Sources.serves_any
  stable := ⟨fun _ _ _ _ => rfl, fun _ _ => rfl, fun _ _ => rfl⟩
  tame := ⟨fun _ => Ty.allSchemes_of_forall (fun _ _ => rfl) _,
    fun _ => Ty.allSchemes_of_forall (fun _ _ => rfl) _⟩
  close _ hg := ⟨Ty.generalize_closed hg, trivial⟩

/-! ### Runs along an append -/

lemma checkValues_append (config : Config) (decls later : List Decl) :
    checkValues config (decls ++ later) = (do
      checkValues config decls
      checkValues config later) := by
  induction decls with
  | nil => rfl
  | cons d decls ih =>
    cases d with
    | value name ascription value position =>
      rw [List.cons_append, checkValues, checkValues, ih, bind_assoc]
    | datatype d => exact ih
    | fixity f => exact ih

lemma Decl.datatypes_append (decls later : List Decl) :
    Decl.datatypes (decls ++ later) = Decl.datatypes decls ++ Decl.datatypes later :=
  List.filterMap_append

/-- Values make no difference to the group of datatypes. -/
lemma Decl.datatypes_append_values (decls : List Decl) (hlater : Decl.datatypes later = []) :
    Decl.datatypes (decls ++ later) = Decl.datatypes decls := by
  rw [Decl.datatypes_append, hlater, List.append_nil]

/-- The first value that fails ends the run. -/
lemma checkValues_eq_error {s t : Session} {fault : Fault CheckError}
    (hrun : checkValues config later s = .error fault t) :
    ∃ before name ascription value position after s',
      later = before ++ .value name ascription value position :: after ∧
      checkValues config before s = .ok () s' ∧
      blame (some name) position (bindValue config name ascription value) s' = .error fault t := by
  induction later generalizing s with
  | nil => cases hrun
  | cons d later ih =>
    cases d with
    | value name ascription value position =>
      rw [checkValues] at hrun
      cases hbind : blame (some name) position (bindValue config name ascription value) s with
      | error fault' t' =>
        rw [bind_of_error hbind] at hrun
        cases hrun
        exact ⟨[], name, ascription, value, position, later, s, rfl, rfl, hbind⟩
      | ok u s₁ =>
        rw [bind_of_ok hbind] at hrun
        obtain ⟨before, name', ascription', value', position', after, s', rfl, hbefore, hfail⟩ :=
          ih hrun
        refine ⟨.value name ascription value position :: before, name', ascription', value',
          position', after, s', rfl, ?_, hfail⟩
        rw [checkValues, bind_of_ok hbind]
        exact hbefore
    | datatype d =>
      obtain ⟨before, name, ascription, value, position, after, s', rfl, hbefore, hfail⟩ := ih hrun
      exact ⟨.datatype d :: before, name, ascription, value, position, after, s', rfl, hbefore, hfail⟩
    | fixity f =>
      obtain ⟨before, name, ascription, value, position, after, s', rfl, hbefore, hfail⟩ := ih hrun
      exact ⟨.fixity f :: before, name, ascription, value, position, after, s', rfl, hbefore, hfail⟩

/-! ### What values are bound to -/

/-- The names that values of a list of declarations are bound to. A name that is ignored binds
nothing. -/
def Decl.boundNames (config : Config) (decls : List Decl) : List String :=
  decls.filterMap fun
    | .value name _ _ _ => if config.isIgnored name then none else some name
    | _ => none

lemma bindValue_values {s s' : Session} {name : String} {ascription : Option Ty} {value : Expr}
    {u : Unit} (hrun : bindValue config name ascription value s = .ok u s') :
    ∃ h, s'.env.values = config.bind name h s.env.values := by
  cases ascription with
  | none =>
    obtain ⟨_, _, _, _, _, rfl⟩ := bindValueWith_infer_eq_ok.1 hrun
    exact ⟨_, rfl⟩
  | some t =>
    obtain ⟨_, _, _, _, _, _, _, _, _, rfl⟩ := bindValueWith_check_eq_ok.1 hrun
    exact ⟨_, rfl⟩

lemma find?_innermost_bind {name x : String} {h : Handle} {values : Scope Handle}
    (hx : config.isIgnored name = false → name ≠ x) :
    (config.bind name h values).innermost.find? x = values.innermost.find? x := by
  rw [Config.bind]
  split
  · rfl
  · rename_i hignored
    refine (Table.find?_insert _ _ _ _).trans (if_neg (hx ?_))
    simpa using hignored

/-- A name that is not bound keeps its handle. -/
lemma find?_bindAll {s s' : Session} {u : Unit} (hrun : Decl.bindAll config decls s = .ok u s')
    {x : String} (hx : x ∉ Decl.boundNames config decls) :
    s'.env.values.innermost.find? x = s.env.values.innermost.find? x := by
  induction decls generalizing s with
  | nil =>
    obtain ⟨_, rfl⟩ := pure_eq_ok.1 hrun
    rfl
  | cons d decls ih =>
    cases d with
    | value name ascription value position =>
      rw [Decl.bindAll] at hrun
      obtain ⟨_, s₁, hbind, hrest⟩ := bind_eq_ok.1 hrun
      obtain ⟨h, hvalues⟩ := bindValue_values hbind
      by_cases hignored : config.isIgnored name
      · have hx' : x ∉ Decl.boundNames config decls := by simpa [Decl.boundNames, hignored] using hx
        rw [ih hrest hx', hvalues, find?_innermost_bind (by simp [hignored])]
      · have hx' : x ≠ name ∧ x ∉ Decl.boundNames config decls := by
          simpa [Decl.boundNames, hignored] using hx
        rw [ih hrest hx'.2, hvalues, find?_innermost_bind fun _ => hx'.1.symm]
    | datatype d => exact ih hrun hx
    | fixity f => exact ih hrun hx

/-! ### Outcomes -/

section Outcomes

variable {kinds : Table Kind} {s s' : Session} {fault : Fault CheckError}

lemma checkProgram_of_open_error
    (hopen : openProgram config (Decl.datatypes decls) (.start config) = .error fault s) :
    (checkProgram config decls).2 = .error fault := by
  have hrun : checkDecls config decls (.start config) = .error fault s := by
    rw [checkDecls_eq, bind_of_error hopen]
  rw [checkProgram_of_error hrun]

lemma checkProgram_of_values_error
    (hopen : openProgram config (Decl.datatypes decls) (.start config) = .ok kinds s)
    (hvalues : checkValues config decls s = .error fault s') :
    (checkProgram config decls).2 = .error fault := by
  have hrun : checkDecls config decls (.start config) = .error fault s' := by
    rw [checkDecls_eq, bind_of_ok hopen, bind_of_error hvalues]
  rw [checkProgram_of_error hrun]

/-- A program is accepted as soon as all its values are. -/
lemma checkProgram_of_values
    (hopen : openProgram config (Decl.datatypes decls) (.start config) = .ok kinds s)
    (hvalues : Decl.bindAll config decls s = .ok () s') :
    ∃ values, (checkProgram config decls).2 = .ok ⟨kinds, values⟩ ∧
      ∀ name, values.find? name = (s'.env.values.innermost.find? name).bind
        (s'.inference.settled.defaulted config.defaultTy).term? := by
  have hready := ((ready_openProgram hopen).bindAll config decls).of_run hvalues
  obtain ⟨values, s'', hclose, hfind⟩ := hready.closeProgram config kinds
  have hrun : checkDecls config decls (.start config) = .ok ⟨kinds, values⟩ s'' := by
    rw [checkDecls_eq, bind_of_ok hopen, bind_of_ok (checkValues_eq_ok.2 hvalues), hclose]
  exact ⟨values, by rw [checkProgram_of_ok hrun], hfind⟩

end Outcomes

/-! ### Types that were there before -/

lemma bindAll_append {s s' : Session} {u : Unit} :
    Decl.bindAll config (decls ++ later) s = .ok u s' ↔
      ∃ s₁, Decl.bindAll config decls s = .ok () s₁ ∧ Decl.bindAll config later s₁ = .ok u s' := by
  rw [← checkValues_eq_ok, checkValues_append, bind_eq_ok]
  constructor
  · rintro ⟨_, s₁, h₁, h₂⟩
    exact ⟨s₁, checkValues_eq_ok.1 h₁, checkValues_eq_ok.1 h₂⟩
  · rintro ⟨s₁, h₁, h₂⟩
    exact ⟨(), s₁, checkValues_eq_ok.2 h₁, checkValues_eq_ok.2 h₂⟩

/-- A handle that is sealed has the same type at the end of any trace. -/
lemma Trace.term_of_sealed {S : Sources} {m m' : Moment} {h : Handle} (htrace : Trace S m m')
    (hh : m.Sealed (fun _ => True) h) {t t' : Ty} (ht : m.state.term? h = some t)
    (ht' : m'.state.term? h = some t') : t' = t := by
  have hsealed : m.Sealed (· = t) h :=
    ⟨hh.issued, fun hterm => ⟨(hh.term hterm).1, Option.some.inj (hterm.symm.trans ht)⟩, hh.own⟩
  exact ((htrace.sealed hsealed).term ht').2

/-- Once the values of a program are bound, everything in scope is sealed. -/
lemma leads_bindAll (hprelude : ∀ e ∈ config.prelude.values.entries, e.2.occurrences = [])
    {found : GroupKinds} {s₁ s₂ : Session}
    (hfound : inferGroup config.prelude.kindScope (Decl.datatypes decls) = .ok found)
    (hopen : openProgram config (Decl.datatypes decls) (.start config) = .ok found.declared s₁)
    (hdecls : Decl.bindAll config decls s₁ = .ok () s₂) :
    ∃ m, (Moment.start .initial).Leads .any (fun _ _ => true) (fun _ => True) s₂ m := by
  obtain ⟨m₁, hm₁, _⟩ := Seal.any.openProgram hfound (fun e he => ⟨trivial, hprelude e he⟩)
    (fun _ _ _ _ _ _ => ⟨trivial, trivial⟩) hopen
  obtain ⟨m₂, hm₂⟩ := hm₁.bindAll Seal.any trivial (Decl.meets_any decls)
    (fun _ _ _ _ _ _ _ _ _ => trivial) hdecls
  exact ⟨m₂, hm₁.trans hm₂⟩

/-- A name that is not bound again is reported with the same type. -/
lemma reported_append (hprelude : ∀ e ∈ config.prelude.values.entries, e.2.occurrences = [])
    {found : GroupKinds} {s₁ s₂ s₃ : Session}
    (hfound : inferGroup config.prelude.kindScope (Decl.datatypes decls) = .ok found)
    (hopen : openProgram config (Decl.datatypes decls) (.start config) = .ok found.declared s₁)
    (hdecls : Decl.bindAll config decls s₁ = .ok () s₂)
    (hlater : Decl.bindAll config later s₂ = .ok () s₃) {name : String}
    (hname : name ∉ Decl.boundNames config later) :
    (s₃.env.values.innermost.find? name).bind
        (s₃.inference.settled.defaulted config.defaultTy).term? =
      (s₂.env.values.innermost.find? name).bind
        (s₂.inference.settled.defaulted config.defaultTy).term? := by
  have hready₂ := ((ready_openProgram hopen).bindAll config decls).of_run hdecls
  have hready₃ := (hready₂.bindAll config later).of_run hlater
  rw [find?_bindAll hlater hname]
  cases hfind : s₂.env.values.innermost.find? name with
  | none => rfl
  | some h =>
    -- After the first part everything in scope is sealed.
    obtain ⟨m₂, hm₂⟩ := leads_bindAll hprelude hfound hopen hdecls
    obtain ⟨m₃, hm₃⟩ := hm₂.bindAll Seal.any trivial (Decl.meets_any later)
      (fun _ _ _ _ _ _ _ _ _ => trivial) hlater
    -- The handle is live both before and after the second part.
    have hmem : h ∈ s₂.env.values.innermost.values :=
      List.mem_map_of_mem (f := Prod.snd) (Table.mem_of_lookup hfind)
    have hsealed := hm₂.seals.innermost h hmem
    obtain ⟨t, ht⟩ := hready₂.live h (List.mem_append_left _ hmem)
    have hkept : s₃.env.values.innermost.find? name = some h := (find?_bindAll hlater hname).trans hfind
    obtain ⟨t', ht'⟩ := hready₃.live h
      (List.mem_append_left _ (List.mem_map_of_mem (f := Prod.snd) (Table.mem_of_lookup hkept)))
    rw [← hm₂.state] at ht
    rw [← hm₃.state] at ht'
    obtain rfl := hm₃.trace.term_of_sealed hsealed ht ht'
    have hunknowns := Ty.unknowns_of_occurrences (hsealed.term ht).1
    rw [hm₂.state] at ht
    rw [hm₃.state] at ht'
    rw [Option.bind_some, Option.bind_some, hready₃.reported ht' hunknowns,
      hready₂.reported ht hunknowns]

/-! ### Programs -/

/-- An error stays the one reported. -/
lemma checkProgram_append_of_error (hlater : Decl.datatypes later = []) {fault : Fault CheckError}
    (herror : (checkProgram config decls).2 = .error fault) :
    (checkProgram config (decls ++ later)).2 = .error fault := by
  have hgroup := Decl.datatypes_append_values decls hlater
  cases hopen : openProgram config (Decl.datatypes decls) (.start config) with
  | error fault' s =>
    rw [checkProgram_of_open_error hopen] at herror
    cases herror
    exact checkProgram_of_open_error (hgroup ▸ hopen)
  | ok kinds s =>
    cases hvalues : checkValues config decls s with
    | error fault' s' =>
      rw [checkProgram_of_values_error hopen hvalues] at herror
      cases herror
      have hvalues' : checkValues config (decls ++ later) s = .error fault s' := by
        rw [checkValues_append, bind_of_error hvalues]
      exact checkProgram_of_values_error (hgroup ▸ hopen) hvalues'
    | ok u s' =>
      obtain ⟨values, hok, _⟩ := checkProgram_of_values hopen (checkValues_eq_ok.1 hvalues)
      rw [hok] at herror
      cases herror

/-- What is accepted with more values was accepted without them, and its types are the same. -/
lemma checkProgram_of_append_ok
    (hprelude : ∀ e ∈ config.prelude.values.entries, e.2.occurrences = [])
    (hlater : Decl.datatypes later = []) {typed : Typed}
    (hok : (checkProgram config (decls ++ later)).2 = .ok typed) :
    ∃ values, (checkProgram config decls).2 = .ok ⟨typed.kinds, values⟩ ∧
      ∀ name ∉ Decl.boundNames config later, typed.values.find? name = values.find? name := by
  have hgroup := Decl.datatypes_append_values decls hlater
  obtain ⟨found, s₁, s₃, _, hfound, hopen, hvalues, _⟩ := checkProgram_eq_ok hok
  obtain ⟨values', hok', hfind'⟩ := checkProgram_of_values hopen hvalues
  obtain rfl : typed = ⟨found.declared, values'⟩ := Except.ok.inj (hok.symm.trans hok')
  rw [hgroup] at hfound hopen
  obtain ⟨s₂, hdecls, hrest⟩ := bindAll_append.1 hvalues
  obtain ⟨values, hfirst, hfind⟩ := checkProgram_of_values hopen hdecls
  refine ⟨values, hfirst, fun name hname => ?_⟩
  rw [hfind', hfind, reported_append hprelude hfound hopen hdecls hrest hname]

/-- The first value with which a program fails is the one to blame. -/
lemma checkProgram_append_blames (hlater : Decl.datatypes later = []) {typed : Typed}
    {fault : Fault CheckError} (hok : (checkProgram config decls).2 = .ok typed)
    (herror : (checkProgram config (decls ++ later)).2 = .error fault) :
    ∃ before name ascription value position after error,
      later = before ++ .value name ascription value position :: after ∧
      (∀ first, first <+: before → ∃ typed, (checkProgram config (decls ++ first)).2 = .ok typed) ∧
      (checkProgram config (decls ++ (before ++ [.value name ascription value position]))).2 =
        .error fault ∧
      fault = .error ⟨some name, position, error⟩ := by
  obtain ⟨found, s₁, s₂, _, _, hopen, hdecls, _⟩ := checkProgram_eq_ok hok
  have hopens {more : List Decl} (hmore : Decl.datatypes more = []) :
      openProgram config (Decl.datatypes (decls ++ more)) (.start config) = .ok found.declared s₁ := by
    rw [Decl.datatypes_append_values decls hmore]
    exact hopen
  cases hvalues : checkValues config later s₂ with
  | ok u s₃ =>
    obtain ⟨values, hok', _⟩ := checkProgram_of_values (hopens hlater)
      (bindAll_append.2 ⟨s₂, hdecls, checkValues_eq_ok.1 hvalues⟩)
    rw [hok'] at herror
    cases herror
  | error fault' s₃ =>
    obtain ⟨before, name, ascription, value, position, after, s', rfl, hbefore, hfail⟩ :=
      checkValues_eq_error hvalues
    rw [checkValues_eq_ok] at hbefore
    obtain ⟨hgroup, _⟩ := List.append_eq_nil_iff.1 ((Decl.datatypes_append _ _).symm.trans hlater)
    -- Whatever the run says of the values up to the one that fails, it says of the program.
    have hrun {more : List Decl} (hmore : checkValues config more s₂ = .error fault' s₃) :
        checkValues config (decls ++ more) s₁ = .error fault' s₃ := by
      rw [checkValues_append, bind_of_ok (checkValues_eq_ok.2 hdecls), hmore]
    obtain rfl : fault = fault' := Except.error.inj
      (herror.symm.trans (checkProgram_of_values_error (hopens hlater) (hrun hvalues)))
    obtain ⟨error, rfl⟩ : ∃ error, fault = .error ⟨some name, position, error⟩ := by
      have hready := ((ready_openProgram hopen).bindAll config decls).of_run hdecls
      have hready' := (hready.bindAll config before).of_run hbefore
      cases hbind : bindValue config name ascription value s' with
      | ok u s'' =>
        rw [blame, EStateM.adaptExcept, hbind] at hfail
        cases hfail
      | error e s'' =>
        obtain ⟨error, rfl⟩ := (hready'.bindValue config name ascription value).error_of_run hbind
        rw [blame, adaptExcept_of_error hbind] at hfail
        cases hfail
        exact ⟨error, rfl⟩
    refine ⟨before, name, ascription, value, position, after, error, rfl, ?_, ?_, rfl⟩
    · rintro first ⟨rest, rfl⟩
      obtain ⟨hfirst, _⟩ := List.append_eq_nil_iff.1 ((Decl.datatypes_append _ _).symm.trans hgroup)
      obtain ⟨s'', hrun', _⟩ := bindAll_append.1 hbefore
      obtain ⟨values, hok', _⟩ := checkProgram_of_values (hopens hfirst)
        (bindAll_append.2 ⟨s₂, hdecls, hrun'⟩)
      exact ⟨_, hok'⟩
    · refine checkProgram_of_values_error (hopens ?_) (hrun ?_)
      · rw [Decl.datatypes_append, hgroup]
        rfl
      · rw [checkValues_append, bind_of_ok (checkValues_eq_ok.2 hbefore), checkValues,
          bind_of_error hfail]

/-- Values that are declared later change neither an error nor a type, and the first one that fails
is the one to blame. -/
theorem checkProgram_append (config : Config) (decls later : List Decl)
    (hprelude : ∀ e ∈ config.prelude.values.entries, e.2.occurrences = [])
    (hlater : Decl.datatypes later = []) :
    (∀ fault, (checkProgram config decls).2 = .error fault →
      (checkProgram config (decls ++ later)).2 = .error fault) ∧
    (∀ typed, (checkProgram config (decls ++ later)).2 = .ok typed →
      ∃ values, (checkProgram config decls).2 = .ok ⟨typed.kinds, values⟩ ∧
        ∀ name ∉ Decl.boundNames config later, typed.values.find? name = values.find? name) ∧
    ∀ typed fault, (checkProgram config decls).2 = .ok typed →
      (checkProgram config (decls ++ later)).2 = .error fault →
      ∃ before name ascription value position after error,
        later = before ++ .value name ascription value position :: after ∧
        (∀ first, first <+: before → ∃ typed, (checkProgram config (decls ++ first)).2 = .ok typed) ∧
        (checkProgram config (decls ++ (before ++ [.value name ascription value position]))).2 =
          .error fault ∧
        fault = .error ⟨some name, position, error⟩ :=
  ⟨fun _ => checkProgram_append_of_error hlater, fun _ => checkProgram_of_append_ok hprelude hlater,
    fun _ _ => checkProgram_append_blames hlater⟩

/-- A function and a number. -/
def identityAndNumber : List Decl :=
  [.value "f" none (.lambda ["x"] (.ident "x")) {},
    .value "n" none (.app (.ident "f") (.literal (.int 1))) {}]

/-- The function by another name, and the name of the number for it. -/
def identityAgain : List Decl :=
  [.value "g" none (.ident "f") {}, .fixity ⟨"n", .left, 6, {}⟩, .value "n" none (.ident "g") {}]

/-- The number as a function, and a name that stands for nothing. -/
def numberApplied : List Decl :=
  [.value "g" none (.ident "f") {}, .value "m" none (.app (.ident "n") (.ident "g")) {},
    .value "k" none (.ident "missing") {}]

/-- The type of `f` stays the same, and of the two values that fail the first one is blamed. -/
theorem checkProgram_append_identityAndNumber :
    (∃ typed, (checkProgram {} (identityAndNumber ++ identityAgain)).2 = .ok typed ∧
      ∃ values, (checkProgram {} identityAndNumber).2 = .ok ⟨typed.kinds, values⟩ ∧
        typed.values.find? "f" = values.find? "f") ∧
    ∃ error, (checkProgram {} (identityAndNumber ++ numberApplied)).2 =
        .error (.error ⟨some "m", {}, error⟩) ∧
      ∃ before name ascription value position after error',
        numberApplied = before ++ .value name ascription value position :: after ∧
        (∀ first, first <+: before →
          ∃ typed, (checkProgram {} (identityAndNumber ++ first)).2 = .ok typed) ∧
        (checkProgram {} (identityAndNumber ++
          (before ++ [.value name ascription value position]))).2 =
            .error (.error ⟨some "m", {}, error⟩) ∧
        Fault.error (⟨some "m", {}, error⟩ : CheckError) = .error ⟨some name, position, error'⟩ := by
  let identity : Ty := .quantified ["a"] (.arrow (.rigid "a") (.rigid "a"))
  have hprelude : ∀ e ∈ ({} : Config).prelude.values.entries, e.2.occurrences = [] := by decide
  have hfirst : (checkProgram {} identityAndNumber).2 =
      .ok ⟨.empty, .ofList [("f", identity), ("n", .int)]⟩ := by cbv
  have hagain : (checkProgram {} (identityAndNumber ++ identityAgain)).2 =
      .ok ⟨.empty, .ofList [("f", identity), ("n", identity), ("g", identity)]⟩ := by cbv
  have happlied : (checkProgram {} (identityAndNumber ++ numberApplied)).2 =
      .error (.error ⟨some "m", {}, .mismatch .int
        (.arrow (.arrow (.fresh 8) (.fresh 8)) (.fresh 9)) "function application"⟩) := by cbv
  constructor
  · obtain ⟨values, hvalues, hfind⟩ :=
      (checkProgram_append {} identityAndNumber identityAgain hprelude rfl).2.1 _ hagain
    exact ⟨_, hagain, values, hvalues, hfind "f" (by decide)⟩
  · exact ⟨_, happlied,
      (checkProgram_append {} identityAndNumber numberApplied hprelude rfl).2.2 _ _ hfirst happlied⟩

end LetPoly
