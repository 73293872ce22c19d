import LetPoly.Proofs.Kinding.Checked
import LetPoly.Proofs.Typing.Kinded
import LetPoly.Proofs.Typing.TopLevel

/-!
# Reported types are well kinded

Inference compares types without a look at their kinds. The types that it reports for a program have
kind `*` all the same, if the kinds of all type constructors and variables agree in their arguments,
counted from the last, and no name is taken for another (`checkProgram_wellKinded`). The conditions
are collected in a `KindPlan`.
-/

namespace LetPoly

open Kind Inference

/-! ### Plans -/

/-- How the types of a program are to be kinded: the arguments that all kinds agree in, from the last
on, and the names of the free variables in ascriptions of parameters, with one kind for each. -/
structure KindPlan where
  args : List Kind
  names : List String
  kinds : String → Kind
  plain {x : String} : x ∈ names → PlainName x
  letter {x : String} : x ∈ names → isLetterName x = false
  ground (x : String) : (kinds x).IsGround
  agree (x : String) : (kinds x).backArgs <+: args

namespace KindPlan

variable {plan : KindPlan} {scope : Scope Kind}

/-- Whether a variable may have the kind: it takes no arguments but those that all kinds agree in. -/
def admits (plan : KindPlan) (k : Kind) : Bool := decide (k.backArgs <+: plan.args)

/-- The kinds that variables may have. -/
def Var (plan : KindPlan) (k : Kind) : Prop := k.IsGround ∧ plan.admits k

/-- The kinds that type constructors may have: they may take more arguments first. -/
def Con (plan : KindPlan) (k : Kind) : Prop :=
  k.IsGround ∧ (k.backArgs <+: plan.args ∨ plan.args <+: k.backArgs)

instance : DecidablePred plan.Con := fun _ => inferInstanceAs (Decidable (_ ∧ (_ ∨ _)))

/-- A scope in which all type constructors have kinds that they may have, and the builtin ones have
their own. -/
structure Suits (plan : KindPlan) (scope : Scope Kind) : Prop where
  con {c : String} {k : Kind} : scope.lookup c = some k → plan.Con k
  builtin : ∀ e ∈ Prelude.core.kinds.entries, scope.lookup e.1 = some e.2

lemma Suits.isGround (h : plan.Suits scope) {c : String} {k : Kind} (hk : scope.lookup c = some k) :
    k.IsGround :=
  (h.con hk).1

lemma Suits.kindOf_builtin (h : plan.Suits scope) {e : String × Kind}
    (he : e ∈ Prelude.core.kinds.entries) : scope.kindOf e.1 = e.2 :=
  Scope.kindOf_of_lookup (h.builtin e he)

/-- The plan and the kinds in a scope. -/
def frame (plan : KindPlan) (scope : Scope Kind) (h : plan.Suits scope) : NamedFrame where
  con := scope.kindOf
  args := plan.args
  flat c := by
    rw [Scope.kindOf]
    cases hk : scope.lookup c with
    | none => rfl
    | some k => exact (h.isGround hk).1
  agrees c := by
    rw [Scope.kindOf]
    cases hk : scope.lookup c with
    | none => exact .inl List.nil_prefix
    | some k => exact (h.con hk).2
  arrow := h.kindOf_builtin (e := (Ty.arrowName, .ofArity 2)) (by decide)
  names := plan.names
  kinds := plan.kinds
  plain := plan.plain
  letter := plan.letter
  var x := ⟨plan.ground x, plan.agree x⟩

lemma var_iff {h : plan.Suits scope} {k : Kind} : (plan.frame scope h).Var k ↔ plan.Var k := by
  rw [Var, admits, decide_eq_true_eq]
  rfl

/-- Types of kind `*` in the frame are well kinded, in kinds that no plan has to be known for. -/
lemma wellKinded (h : plan.Suits scope) {Δ : String → Kind} (hΔ : ∀ x, (plan.frame scope h).Var (Δ x))
    {t : Ty} (ht : (plan.frame scope h).HasKind Δ t .atomic) : WellKinded IsGround scope t where
  known c hc := by
    have hcon : ∀ c, (scope.kindOf c).IsGround ∨ scope.kindOf c = .var ⟨0⟩ := by
      intro c
      cases hk : scope.lookup c with
      | none => exact .inr (by rw [Scope.kindOf, hk, Option.getD_none])
      | some k => exact .inl ((Scope.kindOf_of_lookup hk).symm ▸ h.isGround hk)
    have hground := (KindFrame.HasKind.isGround hcon t hΔ ht (by simp)).2 c hc
    cases hk : scope.lookup c with
    | none =>
      replace hground : (scope.kindOf c).IsGround := hground
      rw [Scope.kindOf, hk] at hground
      cases hground.2
    | some k => rfl
  kinded := ⟨Δ, fun x => (hΔ x).1, HasKind.imp (fun _ hk => hk.1) t (fun _ _ => rfl) (fun _ _ => rfl) ht⟩

/-! ### Types that are checked -/

/-- A type that was checked has the kind that it was checked for, in kinds that the plan knows, if
the kinds recorded for its variables are such. -/
lemma exists_hasKind (h : plan.Suits scope) {t : Ty} {Δ : String → Kind}
    (hkind : HasKind IsGround scope.kindOf Δ t .atomic) (hΔ : ∀ x, (Δ x).IsGround)
    (hslots : t.slotsMeet plan.admits) :
    ∃ Δ' : String → Kind, (∀ x, (plan.frame scope h).Var (Δ' x)) ∧ (∀ x ∈ t.occurrences, Δ' x = Δ x) ∧
      (plan.frame scope h).HasKind Δ' t .atomic := by
  rw [Ty.slotsMeet, Bool.and_eq_true] at hslots
  have hatomic : plan.admits .atomic := decide_eq_true List.nil_prefix
  have hkind' := hkind.narrow isGround_atomic hatomic t hslots.2
  refine ⟨fun x => if x ∈ t.occurrences then Δ x else .atomic, fun x => ?_, fun x hx => if_pos hx,
    HasKind.imp (fun k hk => var_iff.2 hk) t (fun _ _ => rfl) (fun x hx => if_pos hx) hkind'⟩
  dsimp only
  split
  · rename_i hx
    exact var_iff.2 ⟨hΔ x, hkind.of_freeSlots hslots.1 hx⟩
  · exact KindFrame.var_atomic

/-- A type that is quantified over all of its variables keeps its kind. -/
lemma general_of_quantify (h : plan.Suits scope) {t q : Ty} {Δ : String → Kind}
    (hΔ : ∀ x, (plan.frame scope h).Var (Δ x)) (ht : (plan.frame scope h).HasKind Δ t .atomic)
    (hschemes : t.matrix.allSchemes (sheltered plan.names)) (hq : t.quantify = .ok q) :
    ((plan.frame scope h).sources scope).general q := by
  have hclosed := (Ty.quantify_exact hq).1
  refine ⟨?_, hclosed, Ty.allSchemes_quantify hq hschemes⟩
  refine HasKind.imp (fun _ hk => hk) q (Δ := Δ) (fun _ _ => rfl) (by simp [hclosed]) ?_
  obtain ⟨_, hcase⟩ := Ty.quantifyExcept_eq_ok.1 hq
  split at hcase
  · exact hcase ▸ ht
  · rw [hcase.2]
    exact .scheme (fun _ _ => rfl) (fun x _ => hΔ x) ht

/-! ### Conditions on a program -/

/-- The condition on ascriptions of values: variables are not named like type constructors, quantified
types inside have no free variables, and the kinds that are found for variables are such that these
may have them. -/
structure Ascription (plan : KindPlan) (scope : Scope Kind) (t : Ty) : Prop where
  fits : t.Fits (· ∈ t.variableNames)
  closed : t.matrix.allSchemes Ty.closedScheme
  slots {found : List Kind} : (checkAscription scope t).2 = .ok found →
    (t.fill found).1.slotsMeet plan.admits

/-- The condition on ascriptions of parameters: moreover, free variables have the kinds that the plan
gives them. -/
structure Parameter (plan : KindPlan) (scope : Scope Kind) (t : Ty) : Prop
    extends plan.Ascription scope t where
  whole : t.allSchemes Ty.closedScheme
  names : ∀ x ∈ t.occurrences, x ∈ plan.names
  kinds {found : List Kind} : (checkAscription scope t).2 = .ok found →
    ∀ e ∈ (t.fill found).1.freeSlots, e.2 = some (plan.kinds e.1)

/-- The conditions on all types written in a program, which declares no datatypes inside of values. -/
def test (plan : KindPlan) (scope : Scope Kind) : TypeTest where
  param := plan.Parameter scope
  binding := plan.Ascription scope
  group ds := ds = []

/-- The condition on the datatypes of a program: they declare new type constructors, quantified types
inside of fields catch no name, and the kinds that are found are such that type constructors and
variables may have them. -/
structure Group (plan : KindPlan) (base : Scope Kind) (group : List Datatype) : Prop where
  proper : IsProper base group
  new : ∀ name ∈ declaredNames group, base.lookup name = none
  schemes : ∀ d ∈ group, d.All fun t => t.allSchemes (sheltered plan.names)
  con {found : GroupKinds} : inferGroup base group = .ok found → ∀ k ∈ found.declared.values, plan.Con k
  slots {found : GroupKinds} : inferGroup base group = .ok found →
    ∀ d ∈ (fillDatatypes group found.recorded).1, d.All fun t => t.slotsMeet plan.admits

/-- The condition on a type that is there before a program: it has no free variable, is well kinded,
and quantified types inside catch no name. -/
structure Given (plan : KindPlan) (scope : Scope Kind) (t : Ty) : Prop where
  closed : t.freeVars.isEmpty
  kinded : WellKinded plan.Var scope t
  schemes : t.matrix.allSchemes (sheltered plan.names)

/-- The conditions on what is there before a program. -/
structure Start (plan : KindPlan) (config : Config) : Prop where
  suits : plan.Suits config.prelude.kindScope
  values : ∀ t ∈ config.prelude.values.values, plan.Given config.prelude.kindScope t
  internals : ∀ t ∈ config.prelude.internals.values, plan.Given config.prelude.kindScope t

/-! ### Sources -/

lemma sheltered_of_closed {t : Ty} (h : t.allSchemes Ty.closedScheme) (names : List String) :
    t.allSchemes (sheltered names) :=
  Ty.allSchemes_imp (fun vars body h => by rw [sheltered, avoids, h, Bool.true_or]) t h

lemma Ascription.general (h : plan.Suits scope) {t : Ty} (ht : plan.Ascription scope t)
    {found : List Kind} (hfound : (checkAscription scope t).2 = .ok found) {q : Ty}
    (hq : (t.fill found).1.quantify = .ok q) : ((plan.frame scope h).sources scope).general q := by
  -- A quantified type can be quantified only if it has no free variable.
  have hclosed : t.allSchemes Ty.closedScheme := by
    cases t with
    | scheme vars body =>
      refine Ty.allSchemes_scheme.2 ⟨Ty.closedScheme_iff.2 fun x hx => ?_, ht.closed⟩
      by_contra hvars
      have hfree : x ∈ (Ty.scheme vars body).occurrences :=
        List.mem_filter.2 ⟨hx, by simpa using hvars⟩
      obtain ⟨_, hcase⟩ := Ty.quantifyExcept_eq_ok.1 hq
      split at hcase
      · rename_i hempty
        rw [← Ty.occurrences_fill _ found, Ty.occurrences_of_bindable_isEmpty hempty] at hfree
        cases hfree
      · cases hcase.1
    | con _ _ => exact ht.closed
    | var _ _ _ => exact ht.closed
    | app _ _ => exact ht.closed
  obtain ⟨Δ, hΔ, hkind⟩ := checkAscription_sound (fun _ _ => h.isGround) ht.fits hclosed hfound
  obtain ⟨Δ', hΔ', _, hkind'⟩ := exists_hasKind h hkind hΔ (ht.slots hfound)
  refine general_of_quantify h hΔ' hkind' ?_ hq
  rw [Ty.matrix_fill]
  exact Ty.allSchemes_fill (stableScheme_avoids _) _ found (sheltered_of_closed ht.closed _)

lemma Parameter.plain (h : plan.Suits scope) {t : Ty} (ht : plan.Parameter scope t)
    {found : List Kind} (hfound : (checkAscription scope t).2 = .ok found) :
    ((plan.frame scope h).sources scope).plain (t.fill found).1 := by
  obtain ⟨Δ, hΔ, hkind⟩ := checkAscription_sound (fun _ _ => h.isGround) ht.fits ht.whole hfound
  obtain ⟨Δ', hΔ', hsame, hkind'⟩ := exists_hasKind h hkind hΔ (ht.slots hfound)
  refine ⟨HasKind.imp (fun _ hk => hk) _ (fun _ _ => rfl) (fun x hx => ?_) hkind', fun x hx => ?_,
    Ty.allSchemes_fill (stableScheme_avoids _) _ found (sheltered_of_closed ht.whole _)⟩
  · rw [hsame x hx]
    rw [← Ty.map_fst_freeSlots] at hx
    obtain ⟨e, he, rfl⟩ := List.mem_map.1 hx
    exact (hkind.freeSlot _ e he _ (ht.kinds hfound e he)).symm
  · rw [Ty.occurrences_fill] at hx
    exact ht.names x hx

lemma inferGroup_nil (base : Scope Kind) {found : GroupKinds} (h : inferGroup base [] = .ok found) :
    found.declared = .empty ∧ (fillDatatypes [] found.recorded).1 = [] := by
  rw [inferGroup_run (by simp) (show groupConstraints base [] 0 _ = .ok [] _ from rfl)] at h
  cases hsettle : (headsDeclared []).settle with
  | error e =>
    rw [hsettle] at h
    cases h
  | ok settled =>
    rw [hsettle] at h
    cases h
    exact ⟨rfl, rfl⟩

lemma test_le (h : plan.Suits scope) :
    (plan.test scope).Le ((plan.frame scope h).sources scope).test where
  param ht kinds hkinds found hfound := by
    rw [checkAscription_congr hkinds] at hfound
    exact Parameter.plain h ht hfound
  binding := by
    intro t ht kinds hkinds found hfound q hq
    rw [checkAscription_congr hkinds] at hfound
    have hgeneral := Ascription.general h ht hfound hq
    cases q with
    | scheme _ _ => exact hgeneral
    | con _ _ => exact ⟨hgeneral.1, by simp [hgeneral.2.1], hgeneral.2.2⟩
    | var _ _ _ => exact ⟨hgeneral.1, by simp [hgeneral.2.1], hgeneral.2.2⟩
    | app _ _ => exact ⟨hgeneral.1, by simp [hgeneral.2.1], hgeneral.2.2⟩
  group := by
    rintro ds rfl kinds hkinds found hfound
    obtain ⟨hdeclared, hfill⟩ := inferGroup_nil kinds hfound
    rw [hdeclared, hfill]
    exact ⟨hkinds, by simp⟩

lemma plain_builtin (h : plan.Suits scope) {name : String}
    (hname : (name, Kind.atomic) ∈ Prelude.core.kinds.entries) :
    ((plan.frame scope h).sources scope).plain (.builtin name .atomic) :=
  ⟨hasKind_con_iff.2 ⟨fun k hk => (by cases hk; exact h.kindOf_builtin hname),
    h.kindOf_builtin hname⟩, fun x hx => (by cases hx), rfl⟩

/-- What is known in a scope is known in one with more in it. -/
lemma Given.general {base : Scope Kind} (h : plan.Suits scope)
    (hmore : ∀ c k, base.lookup c = some k → scope.lookup c = some k) {t : Ty}
    (ht : plan.Given base t) : ((plan.frame scope h).sources scope).general t := by
  have hclosed := Ty.freeVars_isEmpty.1 ht.closed
  obtain ⟨Δ, _, hkind⟩ := ht.kinded.kinded
  refine ⟨HasKind.imp (fun _ hk => var_iff.2 hk) t (fun c hc => ?_) (by simp [hclosed]) hkind, hclosed,
    ht.schemes⟩
  obtain ⟨k, hk⟩ := Option.isSome_iff_exists.1 (ht.kinded.known c hc)
  exact (Scope.kindOf_of_lookup (hmore c k hk)).trans (Scope.kindOf_of_lookup hk).symm

lemma Start.serves {config : Config} (hstart : plan.Start config) (h : plan.Suits scope)
    (hmore : ∀ c k, config.prelude.kindScope.lookup c = some k → scope.lookup c = some k) :
    ((plan.frame scope h).sources scope).Serves config where
  literal value := by cases value <;> exact plain_builtin h (by decide)
  bool := plain_builtin h (by decide)
  internal hfind := (hstart.internals _
    (List.mem_map_of_mem (f := Prod.snd) (Table.mem_of_lookup hfind))).general h hmore
  child hkinds := hkinds

/-! ### Groups -/

section Group

variable {base : Scope Kind} {group : List Datatype} {found : GroupKinds}

lemma Group.lookup (hgroup : plan.Group base group) (hfound : inferGroup base group = .ok found)
    {c : String} {k : Kind} (hk : base.lookup c = some k) :
    (base.insertAll found.declared).lookup c = some k := by
  have hnone : found.declared.find? c = none := by
    obtain ⟨leaves, s, Δ₀, _, _, rfl⟩ := inferGroup_eq_ok hgroup.proper hfound
    rw [find?_foundKinds, headsDeclared, Kinding.lookup_brought_of_not_mem fun hc => ?_, lookup_initial]
    · rfl
    · rw [hgroup.new c hc] at hk
      cases hk
  rw [Scope.lookup_insertAll, hnone, Option.none_or, hk]

/-- The kinds that are found may be those of type constructors. -/
lemma Group.suits (hgroup : plan.Group base group) (hfound : inferGroup base group = .ok found)
    (h : plan.Suits base) : plan.Suits (base.insertAll found.declared) where
  con {c k} hk := by
    rw [Scope.lookup_insertAll, Option.or_eq_some_iff] at hk
    rcases hk with hk | ⟨_, hk⟩
    · exact hgroup.con hfound k (List.mem_map_of_mem (f := Prod.snd) (Table.mem_of_lookup hk))
    · exact h.con hk
  builtin e he := hgroup.lookup hfound (h.builtin e he)

lemma hasKind_function (h : plan.Suits scope) {Δ : String → Kind} {params : List Ty} {result : Ty}
    (hparams : ∀ t ∈ params, HasKind IsGround scope.kindOf Δ t .atomic)
    (hresult : HasKind IsGround scope.kindOf Δ result .atomic) :
    HasKind IsGround scope.kindOf Δ (.function params result) .atomic := by
  induction params with
  | nil => exact hresult
  | cons t params ih =>
    rw [List.forall_mem_cons] at hparams
    refine .arrow rfl (.con fun k hk => ?_) hparams.1 (ih hparams.2)
    cases hk
    exact h.kindOf_builtin (e := (Ty.arrowName, .ofArity 2)) (by decide)

/-- The types of constructors are well kinded. -/
lemma Group.general (hgroup : plan.Group base group) (hfound : inferGroup base group = .ok found)
    (h : plan.Suits (base.insertAll found.declared)) {d : Datatype}
    (hd : d ∈ (fillDatatypes group found.recorded).1) {c : Constructor} (hc : c ∈ d.constructors)
    {q : Ty} (hq : (d.constructorTy c).quantify = .ok q) :
    ((plan.frame _ h).sources (base.insertAll found.declared)).general q := by
  obtain ⟨Δ, hΔ, hkinds⟩ := inferGroup_sound hgroup.proper hfound d hd
  have hslots := hgroup.slots hfound d hd
  have hkind : HasKind IsGround _ Δ (d.constructorTy c) .atomic := hasKind_function h
    (fun t ht => hkinds t (List.mem_cons_of_mem _ (List.mem_flatMap.2 ⟨c, hc, ht⟩)))
    (hkinds _ List.mem_cons_self)
  obtain ⟨Δ', hΔ', _, hkind'⟩ := exists_hasKind h hkind hΔ
    (Ty.slotsMeet_function.2 ⟨hslots.field hc, hslots.head⟩)
  refine general_of_quantify h hΔ' hkind' (Ty.allSchemes_matrix ?_) hq
  obtain ⟨d, hd', own, rfl⟩ := mem_fillDatatypes hd
  have hall := (hgroup.schemes d hd').fill
    (fun t => Ty.allSchemes_fill (stableScheme_avoids _) t) own
  exact Ty.allSchemes_function.2 ⟨hall.field hc, hall.head⟩

end Group

lemma Start.seal {config : Config} (hstart : plan.Start config) (h : plan.Suits scope)
    (hmore : ∀ c k, config.prelude.kindScope.lookup c = some k → scope.lookup c = some k) :
    Seal ((plan.frame scope h).sources scope) config (sheltered plan.names) fun _ => True where
  serves := hstart.serves h hmore
  stable := stableScheme_avoids _
  tame := NamedFrame.tame_sources (F := plan.frame scope h)
  close ht hg :=
    have hsafe := NamedFrame.letterSafe_of_sheltered (F := plan.frame scope h) ht
    ⟨(Ty.generalize_exact hsafe hg).1, trivial⟩

end KindPlan

/-! ### Programs -/

/-- The types reported for a program have kind `*` in the scope of its type constructors. -/
theorem checkProgram_wellKinded (plan : KindPlan) (config : Config) (decls : List Decl)
    (typed : Typed) (hstart : plan.Start config)
    (hgroup : plan.Group config.prelude.kindScope (Decl.datatypes decls))
    (hdecls : Decl.Meets (plan.test (config.prelude.kindScope.insertAll typed.kinds)) decls)
    (hok : (checkProgram config decls).2 = .ok typed) :
    ∀ t ∈ typed.values.values,
      WellKinded IsGround (config.prelude.kindScope.insertAll typed.kinds) t := by
  obtain ⟨found, _, _, _, hfound, _, _, hclose⟩ := checkProgram_eq_ok hok
  rw [(closeProgram_reads hclose).2.1] at hdecls ⊢
  have hsuits := hgroup.suits hfound hstart.suits
  have hmore : ∀ c k, config.prelude.kindScope.lookup c = some k →
      (config.prelude.kindScope.insertAll found.declared).lookup c = some k :=
    fun _ _ => hgroup.lookup hfound
  have hprelude : ∀ e ∈ config.prelude.values.entries,
      ((plan.frame _ hsuits).sources (config.prelude.kindScope.insertAll found.declared)).general e.2 ∧
        e.2.occurrences = [] := by
    intro e he
    have hgiven := hstart.values _ (List.mem_map_of_mem (f := Prod.snd) he)
    exact ⟨hgiven.general hsuits hmore, Ty.freeVars_isEmpty.1 hgiven.closed⟩
  obtain ⟨m, htrace, hvalues⟩ := (hstart.seal hsuits hmore).checkProgram hok hfound
    (fun _ => rfl) hprelude (fun d hd c hc q hq => ⟨hgroup.general hfound hsuits hd hc hq, trivial⟩)
    (Decl.Meets.imp (KindPlan.test_le hsuits) decls hdecls) (fun _ _ _ _ _ _ _ _ _ => trivial)
  obtain ⟨Δ, hm⟩ := htrace.kinded Moment.tame_start
  intro t ht
  obtain ⟨e, he, rfl⟩ := List.mem_map.1 ht
  obtain ⟨_, h, hlive⟩ := hvalues e he
  exact KindPlan.wellKinded hsuits hm.assigns.var (hm.live hlive).kinded

/-- Lists, and the application of a type constructor to a type. One value has a parameter of a type
that varies, the other has its type ascribed. -/
def appliedLists : List Decl :=
  let list := Ty.app (.con "List" none) [.rigid "a"]
  let elem := Ty.rigid "elem"
  [.datatype ⟨list, [⟨"Nil", []⟩, ⟨"Cons", [.rigid "a", list]⟩], {}⟩,
    .datatype ⟨.app (.con "App" none) [.rigid "f", .rigid "a"],
      [⟨"MkApp", [.app (.rigid "f") [.rigid "a"]]⟩], {}⟩,
    .value "wrap" none (.function [⟨"x", some elem⟩]
      (.call "MkApp" [.call "Cons" [.ident "x", .ident "Nil"]])) {},
    .value "unit" (some (.arrow elem (.app (.con "App" none) [.con "List" none, elem])))
      (.ident "wrap") {}]

/-- All kinds agree in a last argument of kind `*`. -/
def listPlan : KindPlan where
  args := [.atomic]
  names := ["elem"]
  kinds _ := .atomic
  plain hx := by
    obtain rfl := List.mem_singleton.1 hx
    rw [PlainName]
    decide
  letter hx := by
    obtain rfl := List.mem_singleton.1 hx
    decide
  ground _ := isGround_atomic
  agree _ := List.nil_prefix

/-- The kinds of the type constructors of `appliedLists`. -/
def appliedKinds : Table Kind :=
  .ofList [("List", .ofArity 1), ("App", .arrow (.ofArity 1) (.ofArity 1))]

section AppliedLists

lemma start_listPlan : listPlan.Start {} where
  suits := by
    refine ⟨fun hk => ?_, by decide⟩
    have hall : ∀ k ∈ Prelude.standard.kindScope.values, listPlan.Con k := by decide
    exact hall _ (Scope.mem_of_lookup hk)
  values t ht := by cases ht
  internals t ht := by
    obtain rfl : t = .function [.int, .int] .int := List.eq_of_mem_replicate (n := 6) ht
    have hint : HasKind listPlan.Var Prelude.standard.kindScope.kindOf (fun _ => .atomic) .int
        .atomic :=
      hasKind_con_iff.2 ⟨by decide, by decide⟩
    have harrow : HasKind listPlan.Var Prelude.standard.kindScope.kindOf (fun _ => .atomic)
        (.con Ty.arrowName (some (.ofArity 2))) (.ofArity 2) :=
      hasKind_con_iff.2 ⟨by decide, by decide⟩
    exact ⟨by decide, ⟨by decide, fun _ => .atomic, fun _ => ⟨isGround_atomic, rfl⟩,
      .arrow rfl harrow hint (.arrow rfl harrow hint hint)⟩, by decide⟩

lemma group_listPlan :
    listPlan.Group Prelude.standard.kindScope (Decl.datatypes appliedLists) := by
  have hrun : inferGroup Prelude.standard.kindScope (Decl.datatypes appliedLists) =
      .ok ⟨appliedKinds,
        [[⟨[0, 0], "List", .ofArity 1⟩, ⟨[0, 1], "a", .atomic⟩, ⟨[1], "a", .atomic⟩,
            ⟨[2, 0], "List", .ofArity 1⟩, ⟨[2, 1], "a", .atomic⟩],
          [⟨[0, 0], "App", .arrow (.ofArity 1) (.ofArity 1)⟩, ⟨[0, 1], "f", .ofArity 1⟩,
            ⟨[0, 2], "a", .atomic⟩, ⟨[1, 0], "f", .ofArity 1⟩, ⟨[1, 1], "a", .atomic⟩]]⟩ := by cbv
  refine ⟨⟨fun _ _ => start_listPlan.suits.isGround, by decide, ?_⟩, by decide, by decide, ?_, ?_⟩
  · rintro t ht c hc ⟨t', ht', hx⟩
    revert t ht c hc t' ht' hx
    decide
  · intro found hfound
    obtain rfl := Except.ok.inj (hfound.symm.trans hrun)
    decide
  · intro found hfound
    obtain rfl := Except.ok.inj (hfound.symm.trans hrun)
    decide

lemma meets_listPlan :
    Decl.Meets (listPlan.test (Prelude.standard.kindScope.insertAll appliedKinds)) appliedLists := by
  let elem := Ty.rigid "elem"
  have hparam : (checkAscription (Prelude.standard.kindScope.insertAll appliedKinds) elem).2 =
      .ok [.atomic] := by cbv
  have hunit : (checkAscription (Prelude.standard.kindScope.insertAll appliedKinds)
      (.arrow elem (.app (.con "App" none) [.con "List" none, elem]))).2 =
      .ok [.atomic, .arrow (.ofArity 1) (.ofArity 1), .ofArity 1, .atomic] := by cbv
  refine ⟨fun _ ht => (by cases ht), ⟨fun p hp t ht => ?_, ?_⟩, fun t ht => ?_, trivial, trivial⟩
  · obtain rfl := List.mem_singleton.1 hp
    cases ht
    refine ⟨⟨⟨⟨fun _ hx => hx, by decide⟩, by decide⟩, by decide, fun hfound => ?_⟩, by decide,
      by decide, fun hfound => ?_⟩
    · obtain rfl := Except.ok.inj (hfound.symm.trans hparam)
      decide
    · obtain rfl := Except.ok.inj (hfound.symm.trans hparam)
      decide
  · simp [Expr.call, Expr.apply, Expr.Meets]
  · cases ht
    refine ⟨⟨⟨fun _ hx => hx, by decide⟩, by decide⟩, by decide, fun hfound => ?_⟩
    obtain rfl := Except.ok.inj (hfound.symm.trans hunit)
    decide

end AppliedLists

theorem checkProgram_wellKinded_appliedLists :
    ∃ typed, (checkProgram {} appliedLists).2 = .ok typed ∧ typed.values.values.length = 5 ∧
      ∀ t ∈ typed.values.values,
        WellKinded IsGround (Prelude.standard.kindScope.insertAll typed.kinds) t := by
  have hok : ∃ values, (checkProgram {} appliedLists).2 = .ok ⟨appliedKinds, values⟩ ∧
      values.values.length = 5 :=
    ⟨_, by cbv, by cbv⟩
  obtain ⟨values, hok, hlength⟩ := hok
  exact ⟨_, hok, hlength, checkProgram_wellKinded listPlan {} appliedLists _ start_listPlan
    group_listPlan meets_listPlan hok⟩

/-! ### Types that are not well kinded -/

/-- The kinds of the type constructors that a program declares, and the type of one of its values. -/
def reported? (decls : List Decl) (name : String) : Option (Table Kind × Ty) :=
  match (checkProgram {} decls).2 with
  | .ok typed => (typed.values.find? name).map (typed.kinds, ·)
  | .error _ => none

/-- The type of a value is reported, and it is not well kinded. -/
def ReportsIllKinded (decls : List Decl) (name : String) : Prop :=
  ∃ typed, (checkProgram {} decls).2 = .ok typed ∧ ∃ t, typed.values.find? name = some t ∧
    ¬ WellKinded IsGround (Prelude.standard.kindScope.insertAll typed.kinds) t

lemma reportsIllKinded {decls : List Decl} {name : String} {kinds : Table Kind} {t : Ty}
    (hreported : reported? decls name = some (kinds, t))
    (hill : ¬ WellKinded IsGround (Prelude.standard.kindScope.insertAll kinds) t) :
    ReportsIllKinded decls name := by
  rw [reported?] at hreported
  split at hreported
  · rename_i typed hok
    obtain ⟨t', hfind, heq⟩ := Option.map_eq_some_iff.1 hreported
    cases heq
    exact ⟨typed, hok, t, hfind, hill⟩
  · cases hreported

/-- A type is not well kinded if kind inference refuses a datatype that has it for a field. -/
lemma not_wellKinded_of_inferGroup {scope : Scope Kind} {t : Ty}
    (hscope : ∀ k ∈ scope.values, k.IsGround) (hslots : ∀ k ∈ t.recordedKinds, k.IsGround)
    (hnames : ∀ c ∈ t.constructorNames, c ∉ t.variableNames) (hclosed : t.occurrences = [])
    (hfresh : "" ∉ t.constructorNames ∧ "" ∉ t.variableNames)
    (herror : (inferGroup scope [wrapper "" t]).isOk = false) : ¬ WellKinded IsGround scope t := by
  intro hkinded
  obtain ⟨found, hfound⟩ := (wellKinded_iff_inferGroup
    (fun c k hk => hscope k (Scope.mem_of_lookup hk)) ⟨⟨fun _ hx => hx, hslots⟩, hnames⟩ hclosed
    hfresh.1 hfresh.2).1 hkinded
  rw [hfound] at herror
  cases herror

/-- No variable stands for a type and is applied to one as well. -/
lemma not_wellKinded_of_applied {scope : Scope Kind} {vars : List String} {x : String} {p q : Ty}
    (hpart : p = .app (.rigid x) [.int] ∨ q = .app (.rigid x) [.int]) :
    ¬ WellKinded IsGround scope (.quantified vars (.function [p, .rigid x] q)) := by
  intro h
  have harrow {Δ : String → Kind} {a b : Ty}
      (h : HasKind IsGround scope.kindOf Δ (.arrow a b) .atomic) :
      HasKind IsGround scope.kindOf Δ a .atomic ∧ HasKind IsGround scope.kindOf Δ b .atomic := by
    have hargs := ((hasKind_arrow_iff ⟨rfl, rfl⟩).1 h).2.1
    exact ⟨hargs a (by simp), hargs b (by simp)⟩
  obtain ⟨_, _, hkind⟩ := h.kinded
  obtain ⟨⟨Δ, _, _, hbody⟩, _⟩ := hasKind_scheme_iff.1 hkind
  obtain ⟨hp, hrest⟩ := harrow hbody
  obtain ⟨hx, hq⟩ := harrow hrest
  have happ : HasKind IsGround scope.kindOf Δ (.app (.rigid x) [.int]) .atomic := by
    rcases hpart with rfl | rfl
    · exact hp
    · exact hq
  obtain ⟨⟨kinds, hhead, hargs⟩, _⟩ := (hasKind_app_iff fun harrow => (by cases harrow.1)).1 happ
  have hkinds := (hasKind_var_iff.1 hhead).2.symm.trans (hasKind_var_iff.1 hx).2
  cases hargs with
  | cons _ hnil =>
    cases hnil
    simp [Kind.function, Kind.unnest] at hkinds

/-- A value of type `f(a)` that is taken for one of type `g(List)`. -/
def listAsArgument : List Decl :=
  [.datatype ⟨.app (.con "List" none) [.rigid "a"], [⟨"Nil", []⟩], {}⟩,
    .datatype ⟨.app (.con "App" none) [.rigid "f", .rigid "a"],
      [⟨"MkApp", [.app (.rigid "f") [.rigid "a"]]⟩], {}⟩,
    .datatype ⟨.app (.con "Wrap" none) [.rigid "g"],
      [⟨"MkWrap", [.app (.rigid "g") [.con "List" none]]⟩], {}⟩,
    .value "both" none (.lambda ["x"] (.letIn
      [.value "_" none (.app (.ident "MkWrap") (.ident "x")) {}]
      (.app (.ident "MkApp") (.ident "x")))) {}]

/-- A builtin type constructor that is declared again. -/
def numbersAgain : List Decl :=
  [.datatype ⟨.app (.con "Int" none) [.rigid "a"], [⟨"MkInt", [.rigid "a"]⟩], {}⟩,
    .value "x" none (.literal (.int 1)) {}]

/-- A variable that has another kind in the ascription of each parameter. -/
def twoKinds : List Decl :=
  [.value "f" none (.function [⟨"x", some (.app (.rigid "a") [.int])⟩, ⟨"y", some (.rigid "a")⟩]
    (.ident "x")) {}]

/-- A variable that comes under a quantifier when the type of `z` is found. -/
def caughtVariable : List Decl :=
  [.value "g" none (.lambda ["z"] (.letIn
    [.value "f" none (.lambda ["y"] (.ident "z")) {},
      .value "_" none (.function [⟨"x", some (.app (.rigid "a") [.int])⟩]
        (.guards [(.literal (.bool true), .ident "x")] (.ident "z"))) {}] (.ident "f"))) {}]

/-- Types that are not well kinded come from applications whose arguments differ in kind, from type
constructors that are declared again, from variables with two kinds, and from variables that are
caught. -/
theorem checkProgram_reports_illKinded :
    ReportsIllKinded listAsArgument "both" ∧ ReportsIllKinded numbersAgain "x" ∧
      ReportsIllKinded twoKinds "f" ∧ ReportsIllKinded caughtVariable "g" := by
  let a := Ty.rigid "a"
  let b := Ty.rigid "b"
  let list := Ty.con "List" (some (.ofArity 1))
  let app := Kind.arrow (.ofArity 1) (.ofArity 1)
  let wrap := Kind.arrow (.arrow (.ofArity 1) .atomic) .atomic
  have hlist : reported? listAsArgument "both" = some
      (.ofList [("List", .ofArity 1), ("App", app), ("Wrap", wrap)],
        .quantified ["a"] (.arrow (.app a [list]) (.app (.con "App" (some app)) [a, list]))) := by cbv
  have hnumbers : reported? numbersAgain "x" = some (.ofList [("Int", .ofArity 1)], .int) := by cbv
  have hkinds : reported? twoKinds "f" = some (.empty, .quantified ["a"]
    (.function [.app a [.int], a] (.app a [.int]))) := by cbv
  have hcaught : reported? caughtVariable "g" = some (.empty, .quantified ["a", "b"]
    (.function [.app a [.int], b] (.app b [.int]))) := by cbv
  refine ⟨reportsIllKinded hlist ?_, reportsIllKinded hnumbers ?_, reportsIllKinded hkinds ?_,
    reportsIllKinded hcaught ?_⟩
  · exact not_wellKinded_of_inferGroup (by decide) (by decide) (by decide) (by decide) (by decide)
      (by cbv)
  · intro hkinded
    obtain ⟨Δ, _, hkind⟩ := hkinded.kinded
    exact absurd (hasKind_con_iff.1 hkind).2 (by decide)
  · exact not_wellKinded_of_applied (.inl rfl)
  · exact not_wellKinded_of_applied (.inr rfl)

end LetPoly
