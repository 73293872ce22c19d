import LetPoly.Proofs.Typing.Trace

/-!
# Inference makes moves only

Every action of inference follows the moves, whatever is in scope and whether it fails or not
(`Expr.infer_follows`, `follows_declare`). What has to be known of the program is said by a
`TypeTest`: what holds of the ascriptions and groups of datatypes in it.
-/

namespace LetPoly

open Inference Session Stage

variable {S : Sources} {m : Moment} {σ : Type} [Watched σ]

/-! ### Single actions -/

lemma follows_fresh : Follows S m fresh fun t m' => Built S m'.held t ∧ m.Grows m' :=
  .of_ok (fresh_run _) (.of_move (.fresh m)) rfl
    ⟨.held List.mem_cons_self, m.grows_gain _ _⟩

lemma follows_freshList (count : Nat) : Follows S m (freshList count) fun types m' =>
    (∀ t ∈ types, Built S m'.held t) ∧ m.Grows m' := by
  induction count generalizing m with
  | zero => exact .pure ⟨by simp, .refl m⟩
  | succ count ih =>
    refine follows_fresh.bind fun t m₁ h₁ => ih.bind fun types m₂ h₂ => .pure ⟨?_, h₁.2.trans h₂.2⟩
    exact List.forall_mem_cons.2 ⟨h₁.1.grows h₂.2, h₂.1⟩

lemma follows_track {t : Ty} (ht : Built S m.held t) :
    Follows S m (track t) fun h m' => m'.own h ∧ ¬ m.own h ∧ m.Grows m' :=
  .of_ok (track_run _ t) (.of_move (.track ht)) rfl
    ⟨.inr rfl, fun h => m.state.not_issued_newHandle t (m.issued h), m.keeps_track t, fun _ h => h⟩

lemma follows_enter {t : Ty} (ht : S.general t) :
    Follows S m (track t) fun h m' => ¬ m.own h ∧ m.Grows m' :=
  .of_ok (track_run _ t) (.of_move (.enter ht)) rfl
    ⟨fun h => m.state.not_issued_newHandle t (m.issued h), fun _ h => h, fun _ h => h⟩

/-- Reading a handle changes nothing. -/
lemma follows_read (h : Handle) :
    Follows S m (current h) fun t m' => m = m' ∧ m.state.term? h = some t := by
  cases ht : m.state.term? h with
  | some t => exact .of_ok (current_run ht) (.refl m) rfl ⟨rfl, rfl⟩
  | none => exact .of_error (current_of_dead ht) (.here m)

lemma follows_current {h : Handle} (hh : m.own h) :
    Follows S m (current h) fun t m' => Built S m'.held t ∧ m.Grows m' := by
  cases ht : m.state.term? h with
  | some t =>
    exact .of_ok (current_run ht) (.of_move (.read hh ht)) rfl
      ⟨.held List.mem_cons_self, m.grows_gain _ _⟩
  | none =>
    refine .imp (follows_read h) ?_
    rintro t _ ⟨rfl, ht'⟩
    rw [ht] at ht'
    cases ht'

lemma follows_release (h : Handle) : Follows S m (release h) fun _ m' => m.Grows m' :=
  .of_ok (release_run _ h) (.of_move (.release m h)) rfl ⟨fun _ h => h, fun _ h => h⟩

lemma follows_releaseAll (values : Scope Handle) (hs : List Handle) :
    Follows S m (releaseAll values hs : RunM σ Unit) fun _ m' => m.Grows m' := by
  induction hs generalizing m with
  | nil => exact .pure (.refl m)
  | cons h hs ih =>
    exact ((follows_release h).step values).bind fun _ m₁ h₁ => ih.imp fun _ m₂ h₂ => h₁.trans h₂

lemma follows_take {h : Handle} (hh : m.own h) :
    Follows S m (take h) fun t m' => Built S m'.held t ∧ m.Grows m' := by
  cases ht : m.state.term? h with
  | some t =>
    exact .of_ok (take_run ht) (.trans (.of_move (.read hh ht)) (.of_move (.release _ h))) rfl
      ⟨.held List.mem_cons_self, fun _ h => h, List.subset_cons_self _ _⟩
  | none =>
    exact .of_ok ((take_of_dead ht).trans (fresh_run _))
      (.trans (.of_move (.stray m h)) (.of_move (.fresh _))) rfl
      ⟨.held List.mem_cons_self, fun _ h => h, List.subset_cons_self _ _⟩

lemma follows_takeAll (values : Scope Handle) {hs : List Handle} (hown : ∀ h ∈ hs, m.own h) :
    Follows S m (takeAll values hs : RunM σ (List Ty))
      fun types m' => (∀ t ∈ types, Built S m'.held t) ∧ m.Grows m' := by
  induction hs generalizing m with
  | nil => exact .pure ⟨by simp, .refl m⟩
  | cons h hs ih =>
    rw [List.forall_mem_cons] at hown
    refine ((follows_take hown.1).step values).bind fun t m₁ h₁ =>
      (ih fun h' hh' => h₁.2.keeps (hown.2 h' hh')).bind fun types m₂ h₂ =>
        .pure ⟨?_, h₁.2.trans h₂.2⟩
    exact List.forall_mem_cons.2 ⟨h₁.1.grows h₂.2, h₂.1⟩

lemma follows_equate {a b : Ty} (ha : Built S m.held a) (hb : Built S m.held b)
    (origin : TypeOrigin) : Follows S m (equate a b origin) fun _ m' => m.Grows m' :=
  .of_ok (equate_run _ a b origin) (.of_move (.equate origin ha hb)) rfl
    ⟨fun _ h => h, fun _ h => h⟩

/-- A failure of solving is the only error that comes with a change of the state. -/
lemma follows_solve : Follows S m Inference.solve fun _ m' => m.solve = m' ∧ m.state.Solvable := by
  cases hfailure : (LetPoly.solve m.state.unifier.queue).failure with
  | none => exact .of_ok (solve_run hfailure) (.of_move (.solve hfailure)) rfl ⟨rfl, hfailure⟩
  | some unsolved => exact .of_error (solve_of_failure hfailure) ⟨m, .refl m, .inr rfl⟩

lemma follows_instantiate {t : Ty} (ht : (∃ h, m.state.term? h = some t) ∨ S.general t) :
    Follows S m (instantiate t) fun t' m' => Built S m'.held t' ∧ m.Grows m' := by
  refine .of_ok (instantiate_run t _) (.of_move ?_) rfl
    ⟨.held List.mem_cons_self, m.grows_gain _ _⟩
  obtain ⟨h, ht⟩ | ht := ht
  · exact .liveInstance ht
  · exact .sourceInstance ht

/-- A name in scope is used through an instance of its type. -/
lemma follows_instance (h : Handle) : Follows S m (do instantiate (← current h))
    fun t m' => Built S m'.held t ∧ m.Grows m' := by
  refine (follows_read h).bind ?_
  rintro t _ ⟨rfl, ht⟩
  exact follows_instantiate (.inl ⟨h, ht⟩)

lemma follows_freeVarsOf (hs : List Handle) :
    Follows S m (freeVarsOf hs) fun _ m' => m = m' := by
  induction hs generalizing m with
  | nil => exact .pure rfl
  | cons h hs ih =>
    refine (follows_read h).bind ?_
    rintro t _ ⟨rfl, _⟩
    exact ih.bind fun _ _ h => .pure h

/-! ### What programs bring in -/

/-- What holds of the types written in a program. -/
structure TypeTest where
  /-- Of the ascription of a parameter. -/
  param : Ty → Prop
  /-- Of the ascription of a value. -/
  binding : Ty → Prop
  /-- Of the datatypes declared together. -/
  group : List Datatype → Prop

mutual
/-- Whether all types written in an expression pass a test. -/
def Expr.Meets (T : TypeTest) : Expr → Prop
  | .literal _ => True
  | .ident _ => True
  | .internal _ => True
  | .app func arg => func.Meets T ∧ arg.Meets T
  | .function params body =>
    (∀ p ∈ params, ∀ t, p.ascription = some t → T.param t) ∧ body.Meets T
  | .guards branches otherwise => Expr.MeetsBranches T branches ∧ otherwise.Meets T
  | .cases scrutinee arms => scrutinee.Meets T ∧ Expr.MeetsArms T arms
  | .letIn decls body => T.group (Decl.datatypes decls) ∧ Decl.Meets T decls ∧ body.Meets T

/-- Whether all types written in guarded branches pass a test. -/
def Expr.MeetsBranches (T : TypeTest) : List (Expr × Expr) → Prop
  | [] => True
  | (condition, branch) :: branches =>
    condition.Meets T ∧ branch.Meets T ∧ Expr.MeetsBranches T branches

/-- Whether all types written in match arms pass a test. -/
def Expr.MeetsArms (T : TypeTest) : List (Pattern × Expr) → Prop
  | [] => True
  | (_, body) :: arms => body.Meets T ∧ Expr.MeetsArms T arms

/-- Whether all types written in the values of a list of declarations pass a test. -/
def Decl.Meets (T : TypeTest) : List Decl → Prop
  | [] => True
  | .value _ ascription value _ :: decls =>
    (∀ t, ascription = some t → T.binding t) ∧ value.Meets T ∧ Decl.Meets T decls
  | .datatype _ :: decls => Decl.Meets T decls
  | .fixity _ :: decls => Decl.Meets T decls
end

/-- One test asks for no more than another. -/
structure TypeTest.Le (T T' : TypeTest) : Prop where
  param {t : Ty} : T.param t → T'.param t
  binding {t : Ty} : T.binding t → T'.binding t
  group {ds : List Datatype} : T.group ds → T'.group ds

mutual
lemma Expr.Meets.imp {T T' : TypeTest} (hle : T.Le T') (e : Expr) (he : e.Meets T) :
    e.Meets T' := by
  cases e with
  | literal _ => trivial
  | ident _ => trivial
  | internal _ => trivial
  | app func arg => exact ⟨Expr.Meets.imp hle func he.1, Expr.Meets.imp hle arg he.2⟩
  | function params body =>
    exact ⟨fun p hp t ht => hle.param (he.1 p hp t ht), Expr.Meets.imp hle body he.2⟩
  | guards branches otherwise =>
    exact ⟨Expr.MeetsBranches.imp hle branches he.1, Expr.Meets.imp hle otherwise he.2⟩
  | cases scrutinee arms =>
    exact ⟨Expr.Meets.imp hle scrutinee he.1, Expr.MeetsArms.imp hle arms he.2⟩
  | letIn decls body =>
    exact ⟨hle.group he.1, Decl.Meets.imp hle decls he.2.1, Expr.Meets.imp hle body he.2.2⟩

lemma Expr.MeetsBranches.imp {T T' : TypeTest} (hle : T.Le T') (branches : List (Expr × Expr))
    (he : Expr.MeetsBranches T branches) : Expr.MeetsBranches T' branches := by
  match branches with
  | [] => trivial
  | (condition, branch) :: branches =>
    exact ⟨Expr.Meets.imp hle condition he.1, Expr.Meets.imp hle branch he.2.1,
      Expr.MeetsBranches.imp hle branches he.2.2⟩

lemma Expr.MeetsArms.imp {T T' : TypeTest} (hle : T.Le T') (arms : List (Pattern × Expr))
    (he : Expr.MeetsArms T arms) : Expr.MeetsArms T' arms := by
  match arms with
  | [] => trivial
  | (_, body) :: arms => exact ⟨Expr.Meets.imp hle body he.1, Expr.MeetsArms.imp hle arms he.2⟩

lemma Decl.Meets.imp {T T' : TypeTest} (hle : T.Le T') (decls : List Decl)
    (he : Decl.Meets T decls) : Decl.Meets T' decls := by
  match decls with
  | [] => trivial
  | .value _ _ value _ :: decls =>
    exact ⟨fun t ht => hle.binding (he.1 t ht), Expr.Meets.imp hle value he.2.1,
      Decl.Meets.imp hle decls he.2.2⟩
  | .datatype _ :: decls => exact Decl.Meets.imp hle decls he
  | .fixity _ :: decls => exact Decl.Meets.imp hle decls he
end

lemma Decl.Meets.binding {T : TypeTest} {decls : List Decl} (h : Decl.Meets T decls) {name : String}
    {t : Ty} {value : Expr} {position : Span} (hmem : .value name (some t) value position ∈ decls) :
    T.binding t := by
  induction decls with
  | nil => cases hmem
  | cons d decls ih =>
    rcases List.mem_cons.1 hmem with rfl | hrest
    · exact h.1 t rfl
    · cases d with
      | value _ _ _ _ => exact ih h.2.2 hrest
      | datatype _ => exact ih h hrest
      | fixity _ => exact ih h hrest

namespace Sources

/-- A datatype whose constructors come into scope with types to be instantiated. -/
def Registers (S : Sources) (d : Datatype) : Prop :=
  ∀ c ∈ d.constructors, ∀ q, (d.constructorTy c).quantify = .ok q → S.general q

/-- What the types written in a program have to be for all that is made of them to be sources. -/
def test (S : Sources) : TypeTest where
  param t := ∀ kinds, S.kinds kinds → ∀ found, (checkAscription kinds t).2 = .ok found →
    S.plain (t.fill found).1
  binding t := ∀ kinds, S.kinds kinds → ∀ found, (checkAscription kinds t).2 = .ok found →
    ∀ q, (t.fill found).1.quantify = .ok q → if q.isScheme then S.general q else S.plain q
  group ds := ∀ kinds, S.kinds kinds → ∀ found, inferGroup kinds ds = .ok found →
    S.kinds (kinds.insertAll found.declared) ∧
      ∀ d ∈ (fillDatatypes ds found.recorded).1, S.Registers d

/-- What is there without the program are sources. -/
structure Serves (S : Sources) (config : Config) : Prop where
  literal (value : Literal) : S.plain value.ty
  bool : S.plain .bool
  internal {name : String} {t : Ty} : config.prelude.internals.find? name = some t → S.general t
  child {kinds : Scope Kind} : S.kinds kinds → S.kinds kinds.child

end Sources

/-! ### Declarations -/

lemma follows_ascribe {kinds : Scope Kind} {t : Ty} (hkinds : S.kinds kinds) (ht : S.test.param t) :
    Follows S m (ascribe kinds t) fun t' m' => Built S m'.held t' ∧ m.Grows m' := by
  cases hcheck : (checkAscription kinds t).2 with
  | error e =>
    refine .of_error (e := .error (.kind e)) ?_ (.here m)
    rw [ascribe_of_error hcheck]
    rfl
  | ok found =>
    exact .of_ok (ascribe_run hcheck _) (.of_move (.note m found)) rfl
      ⟨.plain (ht kinds hkinds found hcheck), fun _ h => h, fun _ h => h⟩

/-- What the ascription of a value can lead to. -/
def Sources.Ascribed (S : Sources) : Option Ty → Prop
  | some t => if t.isScheme then S.general t else S.plain t
  | none => True

lemma follows_ascribedTy {kinds : Scope Kind} {ascription : Option Ty} (hkinds : S.kinds kinds)
    (ht : ∀ t, ascription = some t → S.test.binding t) :
    Follows S m (ascribedTy kinds ascription)
      fun ascribed m' => S.Ascribed ascribed ∧ m.Grows m' := by
  cases ascription with
  | none => exact .pure ⟨trivial, .refl m⟩
  | some t =>
    cases hcheck : (checkAscription kinds t).2 with
    | error e =>
      refine .of_error (e := .error (.kind e)) ?_ (.here m)
      rw [ascribedTy]
      refine bind_of_error ?_
      rw [ascribe_of_error hcheck]
      rfl
    | ok found =>
      have hrun := ascribe_run hcheck m.state
      have htrace : Trace S m (m.note found) := .of_move (.note m found)
      cases hq : (t.fill found).1.quantify with
      | ok q =>
        refine .of_ok (a := some q) ?_ htrace rfl ⟨ht t rfl kinds hkinds found hcheck q hq, ?_⟩
        · rw [ascribedTy, bind_of_ok hrun, bind_of_ok (quantify_run hq _)]
          rfl
        · exact ⟨fun _ h => h, fun _ h => h⟩
      | error e =>
        refine .of_error (e := .error (.quantify e)) ?_ ⟨_, htrace, .inl rfl⟩
        rw [ascribedTy, bind_of_ok hrun]
        refine bind_of_error ?_
        rw [Inference.quantify, hq]
        rfl

lemma follows_demandedTy {h : Handle} {ascribed : Option Ty} (hascribed : S.Ascribed ascribed)
    (hh : ascribed.any Ty.isScheme = false → m.own h) :
    Follows S m (demandedTy h ascribed) fun r m' => Built S m'.held r.1 ∧ m.Grows m' := by
  have hcurrent (hh : m.own h) : Follows S m (do let ty ← current h; return (ty, []) :
      InferM (Ty × List (String × String))) fun r m' => Built S m'.held r.1 ∧ m.Grows m' :=
    (follows_current hh).bind fun t m' h' => .pure h'
  match ascribed with
  | some (.scheme vars body) =>
    have hgeneral : S.general (Scheme.mk vars body).toTy := hascribed
    exact .of_ok (skolemize_run ⟨vars, body⟩ _) (.of_move (.rigidInstance hgeneral)) rfl
      ⟨.held List.mem_cons_self, m.grows_gain _ _⟩
  | none => exact hcurrent (hh rfl)
  | some (.con name kind) => exact hcurrent (hh rfl)
  | some (.var name sort kind) => exact hcurrent (hh rfl)
  | some (.app head args) => exact hcurrent (hh rfl)

lemma follows_refuseEscape (values : Scope Handle) (name : String)
    (rigid : List (String × String)) :
    Follows S m (refuseEscape values name rigid) fun _ m' => m = m' := by
  cases rigid with
  | nil => exact .pure rfl
  | cons r rigid =>
    rw [refuseEscape]
    · refine (follows_freeVarsOf _).bind ?_
      rintro fixed _ rfl
      split
      · exact .fail
      · exact .pure rfl
    · simp

lemma follows_closeTy (values : Scope Handle) (name : String) {h : Handle} {ascribed : Option Ty}
    (hh : ascribed = none → m.own h) : Follows S m (closeTy values name h ascribed)
      fun _ m' => ∀ h', h' ≠ h → m.own h' → m'.own h' := by
  cases ascribed with
  | some t => exact .pure fun _ _ h => h
  | none =>
    refine (follows_freeVarsOf _).bind ?_
    rintro fixed _ rfl
    refine (follows_read h).bind ?_
    rintro t _ ⟨rfl, ht⟩
    cases hg : t.generalize fixed with
    | ok g =>
      refine .of_ok (a := ()) ?_ (.of_move (.close (hh rfl) ht hg)) rfl fun h' hne hh' => ⟨hh', hne⟩
      rw [Inference.generalize, hg]
      rfl
    | error e =>
      refine .of_error (e := .error (.quantify e)) ?_ (.here _)
      rw [Inference.generalize, hg]
      rfl

lemma follows_settleTy (values : Scope Handle) (name : String) {h : Handle} {ascribed : Option Ty}
    {found : Ty} (hascribed : S.Ascribed ascribed)
    (hh : ascribed.any Ty.isScheme = false → m.own h)
    (hfound : Built S m.held found) :
    Follows S m (settleTy values name ascribed h found : RunM σ Unit)
      fun _ m' => ∀ h', h' ≠ h → m.own h' → m'.own h' := by
  refine ((follows_demandedTy hascribed hh).step values).bind fun r m₁ h₁ => ?_
  obtain ⟨demanded, rigid⟩ := r
  refine ((follows_equate h₁.1 (hfound.grows h₁.2) _).step values).bind fun _ m₂ h₂ => ?_
  refine (follows_solve.step values).bind ?_
  rintro _ _ ⟨rfl, _⟩
  refine ((follows_refuseEscape values name rigid).step values).bind ?_
  rintro _ _ rfl
  refine ((follows_closeTy values name fun hnone => ?_).step values).imp fun _ m₃ h₃ h' hne hh' =>
    h₃ h' hne (h₂.keeps (h₁.2.keeps hh'))
  exact h₂.keeps (h₁.2.keeps (hh (by rw [hnone]; rfl)))

/-- What a value is in scope with while its own type is inferred. -/
lemma follows_provisionalTy {ascribed : Option Ty} (hascribed : S.Ascribed ascribed) :
    Follows S m (provisionalTy ascribed) fun t m' => m.Grows m' ∧
      if ascribed.any Ty.isScheme then S.general t else Built S m'.held t := by
  cases ascribed with
  | none => exact follows_fresh.imp fun t m' h => ⟨h.2, h.1⟩
  | some t =>
    refine .pure ⟨.refl m, ?_⟩
    rw [Sources.Ascribed] at hascribed
    by_cases hscheme : t.isScheme
    · simpa [hscheme] using hascribed
    · simp only [hscheme, Bool.false_eq_true, if_false] at hascribed
      simpa [hscheme] using Built.plain hascribed

lemma follows_trackProvisional {t : Ty} {quantified : Bool}
    (ht : if quantified then S.general t else Built S m.held t) :
    Follows S m (track t) fun h m' => (quantified = false → m'.own h) ∧ ¬ m.own h ∧ m.Grows m' := by
  cases quantified with
  | true => exact (follows_enter ht).imp fun h m' h' => ⟨fun hfalse => (by cases hfalse), h'⟩
  | false => exact (follows_track ht).imp fun h m' h' => ⟨fun _ => h'.1, h'.2⟩

lemma follows_bindValueWith {config : Config} {env : Env} {name : String} {ascription : Option Ty}
    {inferValue : Env → RunM σ Ty} (hkinds : S.kinds env.kinds)
    (hascription : ∀ t, ascription = some t → S.test.binding t)
    (hvalue : ∀ m env, S.kinds env.kinds → Follows S m (inferValue env)
      fun t m' => Built S m'.held t ∧ m.Keeps m') :
    FollowsIn S m env (bindValueWith config name ascription inferValue)
      fun _ m' env' => m.Keeps m' ∧ env'.kinds = env.kinds := by
  refine FollowsIn.scopes.step.bind ?_
  rintro _ _ _ ⟨rfl, rfl, rfl⟩
  refine (FollowsIn.lift (follows_ascribedTy hkinds hascription)).step.bind ?_
  rintro ascribed m₁ _ ⟨⟨hascribed, hgrows₁⟩, rfl⟩
  refine (FollowsIn.lift (follows_provisionalTy hascribed)).step.bind ?_
  rintro t m₂ _ ⟨⟨hgrows₂, ht⟩, rfl⟩
  refine (FollowsIn.lift (follows_trackProvisional ht)).step.bind ?_
  rintro h m₃ _ ⟨⟨hown, hnew, hgrows₃⟩, rfl⟩
  refine (FollowsIn.modifyValues _).step.bind ?_
  rintro _ _ _ ⟨rfl, rfl⟩
  refine FollowsIn.scopes.step.bind ?_
  rintro _ _ _ ⟨rfl, rfl, rfl⟩
  refine (FollowsIn.lift (hvalue m₃ ⟨config.bind name h env.values, env.kinds⟩ hkinds)).bind ?_
  rintro found m₄ _ ⟨⟨hfound, hkeeps₄⟩, rfl⟩
  refine (FollowsIn.lift (follows_settleTy (config.bind name h env.values) name hascribed
    (fun hplain => hkeeps₄ (hown hplain)) hfound)).imp ?_
  rintro _ m₅ _ ⟨hkeeps₅, rfl⟩
  -- The handle of the value itself is new, so that closing its type takes none of the old ones.
  refine ⟨fun h' hh' => hkeeps₅ h' ?_ (hkeeps₄ (hgrows₃.keeps ?_)), rfl⟩
  · rintro rfl
    exact hnew (hgrows₂.keeps (hgrows₁.keeps hh'))
  · exact hgrows₂.keeps (hgrows₁.keeps hh')

/-- The environment with one more constructor. -/
def Env.enter (env : Env) (name : String) (h : Handle) : Env :=
  { env with values := env.values.insert name h }

/-- The types of constructors come in to be instantiated. What each of them preserves holds at the
end. -/
lemma follows_registerEach {I : Moment → Env → Prop} {d : Datatype}
    {constructors : List Constructor} {env : Env} (hI : I m env)
    (hd : ∀ c ∈ constructors, ∀ q, (d.constructorTy c).quantify = .ok q → S.general q ∧
      ∀ m env, I m env → I (m.enter q) (env.enter c.name (m.state.newHandle q))) :
    FollowsIn S m env (registerEach d constructors : RunM (SessionOn σ) Unit)
      fun _ m' env' => I m' env' := by
  induction constructors generalizing m env with
  | nil => exact .pure hI
  | cons c constructors ih =>
    rw [List.forall_mem_cons] at hd
    have hquantify : Follows S m (Inference.quantify (d.constructorTy c))
        fun q m' => m = m' ∧ (d.constructorTy c).quantify = .ok q := by
      rw [Inference.quantify]
      cases hq : (d.constructorTy c).quantify with
      | ok q => exact .pure ⟨rfl, rfl⟩
      | error e => exact .fail
    refine (FollowsIn.lift hquantify).step.bind ?_
    rintro q _ _ ⟨⟨rfl, hq⟩, rfl⟩
    obtain ⟨hgeneral, hstep⟩ := hd.1 q hq
    have htrack : Follows S m (track q) fun h m' => m.enter q = m' ∧ m.state.newHandle q = h :=
      .of_ok (track_run _ q) (.of_move (.enter hgeneral)) rfl ⟨rfl, rfl⟩
    refine (FollowsIn.lift htrack).step.bind ?_
    rintro h _ _ ⟨⟨rfl, rfl⟩, rfl⟩
    refine (FollowsIn.modifyValues _).step.bind ?_
    rintro _ _ _ ⟨rfl, rfl⟩
    exact ih (hstep m env hI) hd.2

lemma follows_registerAll {I : Moment → Env → Prop} {ds : List Datatype} {env : Env} (hI : I m env)
    (hds : ∀ d ∈ ds, ∀ c ∈ d.constructors, ∀ q, (d.constructorTy c).quantify = .ok q →
      S.general q ∧ ∀ m env, I m env → I (m.enter q) (env.enter c.name (m.state.newHandle q))) :
    FollowsIn S m env (registerAll ds : RunM (SessionOn σ) Unit) fun _ m' env' => I m' env' := by
  induction ds generalizing m env with
  | nil => exact .pure hI
  | cons d ds ih =>
    rw [List.forall_mem_cons] at hds
    exact (follows_registerEach hI hds.1).bind fun _ m₁ env₁ hI₁ => ih hI₁ hds.2

lemma follows_declareTypes {group : List Datatype} {env : Env} (hkinds : S.kinds env.kinds)
    (hgroup : S.test.group group) :
    FollowsIn S m env ((declareTypes group).adaptExcept fun e => .error (.kind e.item))
      fun r m' env' => m.Keeps m' ∧ S.kinds env'.kinds ∧ ∀ d ∈ r.2, S.Registers d := by
  cases hfound : inferGroup env.kinds group with
  | error e =>
    exact .of_error (adaptExcept_of_error (declareTypes_of_error hfound)) (.here m)
  | ok found =>
    obtain ⟨hkinds', hregisters⟩ := hgroup _ hkinds found hfound
    exact .of_ok (adaptExcept_eq_ok.2 (declareTypes_of_ok hfound))
      (.of_move (.note m found.recorded)) rfl ⟨.refl m, hkinds', hregisters⟩

lemma follows_declareDatatypes {group : List Datatype} {env : Env} (hkinds : S.kinds env.kinds)
    (hgroup : S.test.group group) :
    FollowsIn S m env (declareDatatypes group : RunM (SessionOn σ) Unit)
      fun _ m' env' => m.Keeps m' ∧ S.kinds env'.kinds := by
  refine (follows_declareTypes hkinds hgroup).step.bind ?_
  rintro ⟨declared, ds⟩ m₁ env₁ ⟨hkeeps, hkinds₁, hregisters⟩
  refine follows_registerAll (I := fun m' env' => m.Keeps m' ∧ S.kinds env'.kinds)
    ⟨hkeeps, hkinds₁⟩ fun d hd c hc q hq => ⟨hregisters d hd c hc q hq, ?_⟩
  exact fun m' env' h => ⟨h.1, h.2⟩

/-! ### Parameters and patterns -/

variable {config : Config}

lemma follows_bindParams {kinds : Scope Kind} {params : List Param} {scope : Scope Handle}
    (hkinds : S.kinds kinds)
    (hparams : ∀ p ∈ params, ∀ t, p.ascription = some t → S.test.param t) :
    Follows S m (bindParams config kinds params scope : RunM σ (Scope Handle × List Handle))
      fun r m' => (∀ h ∈ r.2, m'.own h) ∧ m.Keeps m' := by
  induction params generalizing m scope with
  | nil => exact (Follows.pure ⟨by simp, .refl m⟩).step scope
  | cons p params ih =>
    rw [List.forall_mem_cons] at hparams
    have htype : Follows S m (paramTy kinds p) fun t m' => Built S m'.held t ∧ m.Grows m' := by
      rw [paramTy]
      cases hp : p.ascription with
      | none => exact follows_fresh
      | some t => exact follows_ascribe hkinds (hparams.1 t hp)
    rw [bindParams]
    refine (htype.step scope).bind fun t m₁ h₁ => ?_
    refine ((follows_track h₁.1).step scope).bind fun h m₂ h₂ => ?_
    refine (ih hparams.2).bind fun r m₃ h₃ => .pure ⟨?_, ?_⟩
    · exact List.forall_mem_cons.2 ⟨h₃.2 h₂.1, h₃.1⟩
    · exact h₁.2.keeps.trans (h₂.2.2.keeps.trans h₃.2)

lemma follows_constructorInstance (scope : Scope Handle) (name : String) :
    Follows S m (constructorInstance scope name) fun t m' => Built S m'.held t ∧ m.Grows m' := by
  rw [constructorInstance]
  cases scope.lookup name with
  | some h => exact follows_instance h
  | none => exact .fail

lemma follows_bindCaptures {captures : List (String × Ty)} {scope : Scope Handle}
    (hcaptures : ∀ c ∈ captures, Built S m.held c.2) :
    Follows S m (bindCaptures config captures scope : RunM σ (Scope Handle))
      fun _ m' => m.Keeps m' := by
  induction captures generalizing m scope with
  | nil => exact (Follows.pure (.refl m)).step scope
  | cons c captures ih =>
    rw [List.forall_mem_cons] at hcaptures
    refine ((follows_track hcaptures.1).step scope).bind fun h m₁ h₁ => ?_
    exact (ih fun c' hc' => (hcaptures.2 c' hc').grows h₁.2.2).imp fun _ m₂ h₂ =>
      h₁.2.2.keeps.trans h₂

lemma follows_bindPattern (hserves : S.Serves config) {scrutinee : Handle} (hown : m.own scrutinee)
    (scope : Scope Handle) (pattern : Pattern) :
    Follows S m (bindPattern config scrutinee scope pattern : RunM σ (Scope Handle))
      fun _ m' => m.Keeps m' := by
  cases pattern with
  | capture name => exact (Follows.pure (.refl m)).step _
  | literal value =>
    refine ((follows_current hown).step scope).bind fun t m₁ h₁ => ?_
    refine ((follows_equate h₁.1 (.plain (hserves.literal value)) _).step scope).bind
      fun _ m₂ h₂ => .pure ?_
    exact h₁.2.keeps.trans h₂.keeps
  | constructor name =>
    refine ((follows_constructorInstance scope name).step scope).bind fun found m₁ h₁ => ?_
    refine ((follows_current (h₁.2.keeps hown)).step scope).bind fun t m₂ h₂ => ?_
    refine ((follows_equate h₂.1 (h₁.1.grows h₂.2) _).step scope).bind fun _ m₃ h₃ => .pure ?_
    exact h₁.2.keeps.trans (h₂.2.keeps.trans h₃.keeps)
  | data name captures =>
    refine ((follows_constructorInstance scope name).step scope).bind fun found m₁ h₁ => ?_
    split
    · have hfail : Follows S m₁ (step scope (Inference.fail (.patternArity name found.arity
          captures.length)) : RunM σ PUnit) fun _ _ => False :=
        Follows.fail.step scope
      exact hfail.bind fun _ _ h => h.elim
    · refine ((follows_freshList _).step scope).bind fun fields m₂ h₂ => ?_
      refine ((follows_current (h₂.2.keeps (h₁.2.keeps hown))).step scope).bind fun t m₃ h₃ => ?_
      have hfields : ∀ t ∈ fields, Built S m₃.held t := fun t ht => (h₂.1 t ht).grows h₃.2
      refine ((follows_equate (.function hfields h₃.1) (h₁.1.grows (h₂.2.trans h₃.2)) _).step
        scope).bind fun _ m₄ h₄ => ?_
      refine (follows_bindCaptures fun c hc => ?_).imp fun _ m₅ h₅ => ?_
      · exact (hfields c.2 (List.of_mem_zip hc).2).grows h₄
      · exact h₁.2.keeps.trans (h₂.2.keeps.trans (h₃.2.keeps.trans (h₄.keeps.trans h₅)))

/-! ### Expressions -/

mutual
/-- Inferring the type of an expression makes moves only. -/
lemma Expr.infer_follows (hserves : S.Serves config) (e : Expr) (he : e.Meets S.test) (m : Moment)
    (env : Env) (hkinds : S.kinds env.kinds) :
    Follows S m (e.infer config env : RunM σ Ty) fun t m' => Built S m'.held t ∧ m.Keeps m' := by
  cases e with
  | literal value =>
    rw [Expr.infer]
    exact (Follows.pure ⟨.plain (hserves.literal value), .refl m⟩).step env.values
  | ident name =>
    rw [Expr.infer]
    cases env.values.lookup name with
    | some h =>
      refine ((follows_read h).step env.values).bind ?_
      rintro t _ ⟨rfl, ht⟩
      exact ((follows_instantiate (.inl ⟨h, ht⟩)).step env.values).imp
        fun _ _ h => ⟨h.1, h.2.keeps⟩
    | none => exact Follows.fail.step env.values
  | internal name =>
    rw [Expr.infer]
    cases hfind : config.prelude.internals.find? name with
    | some t =>
      exact ((follows_instantiate (.inr (hserves.internal hfind))).step env.values).imp
        fun _ _ h => ⟨h.1, h.2.keeps⟩
    | none => exact Follows.fail.step env.values
  | app func arg =>
    rw [Expr.Meets] at he
    rw [Expr.infer]
    refine (func.infer_follows hserves he.1 m env hkinds).bind fun tf m₁ h₁ => ?_
    refine ((follows_track h₁.1).step env.values).bind fun h m₂ h₂ => ?_
    refine (arg.infer_follows hserves he.2 m₂ env hkinds).bind fun ta m₃ h₃ => ?_
    refine (follows_fresh.step env.values).bind fun result m₄ h₄ => ?_
    refine ((follows_take (h₄.2.keeps (h₃.2 h₂.1))).step env.values).bind fun tf m₅ h₅ => ?_
    have harrow : Built S m₅.held (.arrow ta result) :=
      .arrow (h₃.1.grows (h₄.2.trans h₅.2)) (h₄.1.grows h₅.2)
    refine ((follows_equate h₅.1 harrow _).step env.values).bind fun _ m₆ h₆ => .pure ⟨?_, ?_⟩
    · exact h₄.1.grows (h₅.2.trans h₆)
    · exact h₁.2.trans (h₂.2.2.keeps.trans (h₃.2.trans (h₄.2.keeps.trans
        (h₅.2.keeps.trans h₆.keeps))))
  | function params body =>
    rw [Expr.Meets] at he
    rw [Expr.infer]
    refine (follows_bindParams hkinds he.1).bind fun r m₁ h₁ => ?_
    obtain ⟨scope, handles⟩ := r
    refine (body.infer_follows hserves he.2 m₁ { env with values := scope } hkinds).bind
      fun result m₂ h₂ => ?_
    refine (follows_takeAll env.values fun h hh => h₂.2 (h₁.1 h hh)).bind
      fun types m₃ h₃ => .pure ⟨?_, ?_⟩
    · exact .function h₃.1 (h₂.1.grows h₃.2)
    · exact h₁.2.trans (h₂.2.trans h₃.2.keeps)
  | guards branches otherwise =>
    rw [Expr.Meets] at he
    rw [Expr.infer]
    refine (follows_fresh.step env.values).bind fun t m₁ h₁ => ?_
    refine ((follows_track h₁.1).step env.values).bind fun result m₂ h₂ => ?_
    refine (Expr.inferBranches_follows hserves branches he.1 m₂ env hkinds h₂.1).bind
      fun _ m₃ h₃ => ?_
    refine (otherwise.infer_follows hserves he.2 m₃ env hkinds).bind fun other m₄ h₄ => ?_
    refine ((follows_current (h₄.2 (h₃ h₂.1))).step env.values).bind fun t m₅ h₅ => ?_
    refine ((follows_equate h₅.1 (h₄.1.grows h₅.2) _).step env.values).bind fun _ m₆ h₆ => ?_
    have hresult := h₆.keeps (h₅.2.keeps (h₄.2 (h₃ h₂.1)))
    refine ((follows_take hresult).step env.values).imp fun _ m₇ h₇ => ⟨h₇.1, ?_⟩
    exact h₁.2.keeps.trans (h₂.2.2.keeps.trans (h₃.trans (h₄.2.trans (h₅.2.keeps.trans
      (h₆.keeps.trans h₇.2.keeps)))))
  | cases scrutinee arms =>
    rw [Expr.Meets] at he
    rw [Expr.infer]
    refine (scrutinee.infer_follows hserves he.1 m env hkinds).bind fun t m₁ h₁ => ?_
    refine ((follows_track h₁.1).step env.values).bind fun subject m₂ h₂ => ?_
    refine (follows_fresh.step env.values).bind fun t m₃ h₃ => ?_
    refine ((follows_track h₃.1).step env.values).bind fun result m₄ h₄ => ?_
    have hsubject := h₄.2.2.keeps (h₃.2.keeps h₂.1)
    refine (Expr.inferArms_follows hserves arms he.2 m₄ env hkinds hsubject h₄.1).bind
      fun _ m₅ h₅ => ((follows_release subject).step env.values).bind fun _ m₆ h₆ => ?_
    refine ((follows_take (h₆.keeps (h₅ h₄.1))).step env.values).imp fun _ m₇ h₇ => ⟨h₇.1, ?_⟩
    exact h₁.2.trans (h₂.2.2.keeps.trans (h₃.2.keeps.trans (h₄.2.2.keeps.trans (h₅.trans
      (h₆.keeps.trans h₇.2.keeps)))))
  | letIn decls body =>
    rw [Expr.Meets] at he
    rw [Expr.infer]
    have hdecls : FollowsIn S m env.child (do
        declareDatatypes (Decl.datatypes decls)
        Decl.bindAll config decls : RunM (SessionOn σ) Unit)
        fun _ m' env' => m.Keeps m' ∧ S.kinds env'.kinds :=
      (follows_declareDatatypes (hserves.child hkinds) he.1).bind fun _ m₁ env₁ h₁ =>
        (Decl.bindAll_follows hserves decls he.2.1 m₁ env₁ h₁.2).imp fun _ m₂ env₂ h₂ =>
          ⟨h₁.1.trans h₂.1, h₂.2⟩
    refine (Follows.within hdecls).bind fun inner m₁ h₁ => ?_
    refine (body.infer_follows hserves he.2.2 m₁ inner h₁.2).bind fun result m₂ h₂ => ?_
    refine (follows_releaseAll env.values _).bind fun _ m₃ h₃ => .pure ⟨h₂.1.grows h₃, ?_⟩
    exact h₁.1.trans (h₂.2.trans h₃.keeps)

lemma Expr.inferBranches_follows (hserves : S.Serves config) (branches : List (Expr × Expr))
    (he : Expr.MeetsBranches S.test branches) (m : Moment) (env : Env) (hkinds : S.kinds env.kinds)
    {result : Handle} (hresult : m.own result) :
    Follows S m (Expr.inferBranches config env result branches : RunM σ Unit)
      fun _ m' => m.Keeps m' := by
  match branches with
  | [] => exact .pure (.refl m)
  | (condition, branch) :: branches =>
    rw [Expr.MeetsBranches] at he
    rw [Expr.inferBranches]
    refine (condition.infer_follows hserves he.1 m env hkinds).bind fun t m₁ h₁ => ?_
    refine ((follows_equate (.plain hserves.bool) h₁.1 _).step env.values).bind fun _ m₂ h₂ => ?_
    refine (branch.infer_follows hserves he.2.1 m₂ env hkinds).bind fun t m₃ h₃ => ?_
    have hkeeps := h₁.2.trans (h₂.keeps.trans h₃.2)
    refine ((follows_current (hkeeps hresult)).step env.values).bind fun t m₄ h₄ => ?_
    refine ((follows_equate h₄.1 (h₃.1.grows h₄.2) _).step env.values).bind fun _ m₅ h₅ => ?_
    have hkeeps' := hkeeps.trans (h₄.2.keeps.trans h₅.keeps)
    exact (Expr.inferBranches_follows hserves branches he.2.2 m₅ env hkinds (hkeeps' hresult)).imp
      fun _ m₆ h₆ => hkeeps'.trans h₆

lemma Expr.inferArms_follows (hserves : S.Serves config) (arms : List (Pattern × Expr))
    (he : Expr.MeetsArms S.test arms) (m : Moment) (env : Env) (hkinds : S.kinds env.kinds)
    {scrutinee result : Handle} (hscrutinee : m.own scrutinee) (hresult : m.own result) :
    Follows S m (Expr.inferArms config env scrutinee result arms : RunM σ Unit)
      fun _ m' => m.Keeps m' := by
  match arms with
  | [] => exact .pure (.refl m)
  | (pattern, body) :: arms =>
    rw [Expr.MeetsArms] at he
    rw [Expr.inferArms]
    refine (follows_bindPattern hserves hscrutinee _ pattern).bind fun scope m₁ h₁ => ?_
    refine (body.infer_follows hserves he.1 m₁ { env with values := scope } hkinds).bind
      fun t m₂ h₂ => ?_
    refine ((follows_current (h₂.2 (h₁ hresult))).step env.values).bind fun t m₃ h₃ => ?_
    refine ((follows_equate h₃.1 (h₂.1.grows h₃.2) _).step env.values).bind fun _ m₄ h₄ => ?_
    refine (follows_releaseAll env.values _).bind fun _ m₅ h₅ => ?_
    have hkeeps := h₁.trans (h₂.2.trans (h₃.2.keeps.trans (h₄.keeps.trans h₅.keeps)))
    exact (Expr.inferArms_follows hserves arms he.2 m₅ env hkinds (hkeeps hscrutinee)
      (hkeeps hresult)).imp fun _ m₆ h₆ => hkeeps.trans h₆

lemma Decl.bindAll_follows (hserves : S.Serves config) (decls : List Decl)
    (he : Decl.Meets S.test decls) (m : Moment) (env : Env) (hkinds : S.kinds env.kinds) :
    FollowsIn S m env (Decl.bindAll config decls : RunM (SessionOn σ) Unit)
      fun _ m' env' => m.Keeps m' ∧ S.kinds env'.kinds := by
  match decls with
  | [] => exact .pure ⟨.refl m, hkinds⟩
  | .value name ascription value position :: decls =>
    rw [Decl.Meets] at he
    rw [Decl.bindAll]
    refine (follows_bindValueWith hkinds he.1 fun m env hkinds =>
      value.infer_follows hserves he.2.1 m env hkinds).bind fun _ m₁ env₁ h₁ => ?_
    exact (Decl.bindAll_follows hserves decls he.2.2 m₁ env₁ (h₁.2 ▸ hkinds)).imp
      fun _ m₂ env₂ h₂ => ⟨h₁.1.trans h₂.1, h₂.2⟩
  | .datatype d :: decls =>
    rw [Decl.Meets] at he
    rw [Decl.bindAll]
    exact Decl.bindAll_follows hserves decls he m env hkinds
  | .fixity f :: decls =>
    rw [Decl.Meets] at he
    rw [Decl.bindAll]
    exact Decl.bindAll_follows hserves decls he m env hkinds
end

/-- Bringing declarations into scope makes moves only. -/
lemma follows_declare (hserves : S.Serves config) {decls : List Decl}
    (hgroup : S.test.group (Decl.datatypes decls)) (hdecls : Decl.Meets S.test decls) {env : Env}
    (hkinds : S.kinds env.kinds) :
    FollowsIn S m env (declare config decls : RunM (SessionOn σ) Unit)
      fun _ m' env' => m.Keeps m' ∧ S.kinds env'.kinds :=
  (follows_declareDatatypes hkinds hgroup).bind fun _ m₁ env₁ h₁ =>
    (Decl.bindAll_follows hserves decls hdecls m₁ env₁ h₁.2).imp fun _ _ _ h₂ =>
      ⟨h₁.1.trans h₂.1, h₂.2⟩

end LetPoly
