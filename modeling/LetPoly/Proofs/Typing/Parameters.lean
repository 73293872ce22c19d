import LetPoly.Proofs.Kinding.Principal
import LetPoly.Proofs.Ty.Rename
import LetPoly.Proofs.Typing.Admissible
import LetPoly.Proofs.Typing.Driver
import LetPoly.Proofs.Typing.Later

/-!
# The variables of constructors

A constructor is reported as the function from its fields to the head of its datatype, closed over
the variables of both (`checkProgram_constructorTy`). A variable of a field has to be in scope, and
in scope are the parameters of the datatype. But so are the names of all datatypes of the group, as
variables and type constructors share one scope. Where no field has a variable of such a name, the
variables of the fields are parameters, and the type is closed over those of the head.
-/

namespace LetPoly

open Inference Session Kinding

/-! ### Variables in scope -/

namespace Ty

variable {ctx : KindContext}

mutual
/-- A walk that refuses variables out of scope finds all free variables in scope. -/
lemma lookup_of_kindConstraints (hrefuse : ctx.unscoped = .refuse) : (t : Ty) → {place : Place} →
    {s s' : Kinding} → {k : Kind} → t.kindConstraints ctx place s = .ok k s' →
    ∀ x ∈ t.occurrences, (s.scope.lookup x).isSome
  | .con _ _, _, _, _, _, _, x, hx => by simp [occurrences] at hx
  | .var name sort slot, _, s, s', k, hrun, x, hx => by
    obtain rfl := List.mem_singleton.1 hx
    obtain ⟨s₁, hk, -⟩ := kindConstraints_var_eq_ok.1 hrun
    rcases variableKind_eq_ok.1 hk with ⟨hlookup, -⟩ | ⟨-, hintro, -⟩
    · simp [hlookup]
    · rw [hrefuse] at hintro
      cases hintro
  | .app head args, _, s, s', k, hrun, x, hx => by
    by_cases harrow : head.isArrowConstructor ∧ args.length = 2
    · obtain ⟨headKind, s₁, hhead, hargs, -⟩ := (kindConstraints_arrow_eq_ok harrow).1 hrun
      rcases List.mem_append.1 hx with hx | hx
      · exact lookup_of_kindConstraints hrefuse head hhead x hx
      · rw [← scope_kindConstraints head (.inl hrefuse) hhead]
        exact lookup_of_demandAtomic hrefuse args hargs x hx
    · obtain ⟨headKind, s₁, kinds, s₂, hhead, hargs, -⟩ := (kindConstraints_app_eq_ok harrow).1 hrun
      rcases List.mem_append.1 hx with hx | hx
      · exact lookup_of_kindConstraints hrefuse head hhead x hx
      · rw [← scope_kindConstraints head (.inl hrefuse) hhead]
        exact lookup_of_kindConstraintsList hrefuse args hargs x hx
  | .scheme vars body, _, s, s', k, hrun, x, hx => by
    obtain ⟨bodyKind, s₁, hbody, -⟩ := kindConstraints_scheme_eq_ok.1 hrun
    obtain ⟨hx, hvars⟩ := List.mem_filter.1 hx
    have hlookup := lookup_of_kindConstraints hrefuse body hbody x hx
    rwa [lookup_brought_of_not_mem (by simpa using hvars)] at hlookup

lemma lookup_of_kindConstraintsList (hrefuse : ctx.unscoped = .refuse) : (args : List Ty) →
    {place : Place} → {i : Nat} →
    {s s' : Kinding} → {kinds : List Kind} → kindConstraintsList ctx place i args s = .ok kinds s' →
    ∀ x ∈ occurrencesList args, (s.scope.lookup x).isSome
  | [], _, _, _, _, _, _, x, hx => by simp [occurrencesList] at hx
  | a :: args, _, _, s, s', kinds, hrun, x, hx => by
    obtain ⟨kind, s₁, rest, ha, hargs, -⟩ := kindConstraintsList_cons_eq_ok.1 hrun
    rcases List.mem_append.1 hx with hx | hx
    · exact lookup_of_kindConstraints hrefuse a ha x hx
    · rw [← scope_kindConstraints a (.inl hrefuse) ha]
      exact lookup_of_kindConstraintsList hrefuse args hargs x hx

lemma lookup_of_demandAtomic (hrefuse : ctx.unscoped = .refuse) : (args : List Ty) →
    {place : Place} → {i : Nat} →
    {origin : KindOrigin} → {s s' : Kinding} → {u : Unit} →
    demandAtomic ctx origin place i args s = .ok u s' →
    ∀ x ∈ occurrencesList args, (s.scope.lookup x).isSome
  | [], _, _, _, _, _, _, _, x, hx => by simp [occurrencesList] at hx
  | a :: args, _, _, origin, s, s', _, hrun, x, hx => by
    obtain ⟨kind, s₁, ha, hargs⟩ := demandAtomic_cons_eq_ok.1 hrun
    rcases List.mem_append.1 hx with hx | hx
    · exact lookup_of_kindConstraints hrefuse a ha x hx
    · rw [← scope_kindConstraints a (.inl hrefuse) ha]
      exact lookup_of_demandAtomic hrefuse args hargs x hx
end

end Ty

lemma Datatype.mem_paramNames_or_lookup {base : Scope Kind} {site : Option Nat} {d : Datatype}
    {s s' : Kinding} {leaves : List Leaf}
    (hrun : d.kindConstraints ⟨base, .refuse, site⟩ s = .ok leaves s') {x : String}
    (hx : x ∈ Ty.occurrencesList d.types) : x ∈ d.paramNames ∨ (s.scope.lookup x).isSome := by
  obtain ⟨s₁, hwalk, -⟩ := kindConstraints_eq_ok.1 hrun
  have hlookup := Ty.lookup_of_demandAtomic rfl d.types hwalk x hx
  by_cases hparam : x ∈ d.paramNames
  · exact .inl hparam
  · rw [Kinding.opened, lookup_brought_of_not_mem hparam] at hlookup
    exact .inr hlookup

lemma mem_paramNames_or_lookup_of_group {base : Scope Kind} {ds : List Datatype} {site : Nat}
    {s s' : Kinding} {leaves : List (List Leaf)}
    (hrun : groupConstraints base ds site s = .ok leaves s') {d : Datatype} (hd : d ∈ ds)
    {x : String} (hx : x ∈ Ty.occurrencesList d.types) :
    x ∈ d.paramNames ∨ (s.scope.lookup x).isSome := by
  induction ds generalizing site s leaves with
  | nil => cases hd
  | cons e ds ih =>
    obtain ⟨own, s₁, more, he, hmore, -⟩ := groupConstraints_cons_eq_ok.1 hrun
    rcases List.mem_cons.1 hd with rfl | hd
    · exact Datatype.mem_paramNames_or_lookup he hx
    · -- the scope of a datatype is left at its end
      obtain ⟨s₂, -, -, rfl⟩ := Datatype.kindConstraints_eq_ok.1 he
      exact ih (s := s₂.restored s) hmore hd

/-- A free variable of a group is a parameter of its datatype or has the name of a datatype. -/
lemma mem_paramNames_or_declaredNames {base : Scope Kind} {group : List Datatype}
    {found : GroupKinds} (hfound : inferGroup base group = .ok found) {d : Datatype}
    (hd : d ∈ group) {t : Ty} (ht : t ∈ d.types) {x : String} (hx : x ∈ t.occurrences) :
    x ∈ d.paramNames ∨ x ∈ declaredNames group := by
  obtain ⟨-, leaves, s, hrun⟩ := walk_of_inferGroup hfound
  have hx : x ∈ Ty.occurrencesList d.types := Ty.mem_occurrencesList.2 ⟨t, ht, hx⟩
  refine (mem_paramNames_or_lookup_of_group hrun hd hx).imp_right fun hlookup => ?_
  by_contra hdeclared
  rw [headsDeclared, lookup_brought_of_not_mem hdeclared, lookup_initial] at hlookup
  cases hlookup

lemma Datatype.paramNames_subset_occurrences (d : Datatype) :
    d.paramNames ⊆ d.head.occurrences := by
  intro x hx
  rw [paramNames, List.mem_filterMap] at hx
  obtain ⟨t, ht, hx⟩ := hx
  rw [params] at ht
  split at ht
  · next head args hhead =>
    rw [hhead]
    refine List.mem_append_right _ (Ty.mem_occurrencesList.2 ⟨t, ht, ?_⟩)
    split at hx
    · cases hx
      exact List.mem_cons_self
    · cases hx
  · cases ht

/-! ### Types but for their slots -/

namespace Ty

mutual
lemma same_of_unslotted_eq : {a b : Ty} → a.unslotted = b.unslotted → same a b
  | .con _ _, .con _ _, h => by simpa [unslotted, same] using h
  | .var _ _ _, .var _ _ _, h => by simpa [unslotted, same] using h
  | .app head args, .app head' args', h => by
    simp only [unslotted, app.injEq] at h
    rw [same, same_of_unslotted_eq h.1, sameList_of_unslottedList_eq h.2, Bool.and_self]
  | .scheme vars body, .scheme vars' body', h => by
    simp only [unslotted, scheme.injEq] at h
    obtain ⟨rfl, hbody⟩ := h
    rw [same, same_of_unslotted_eq hbody, NameSet.same_iff.2 fun _ => Iff.rfl, Bool.and_self]

lemma sameList_of_unslottedList_eq : {as bs : List Ty} → unslottedList as = unslottedList bs →
    sameList as bs
  | [], [], _ => rfl
  | a :: as, b :: bs, h => by
    simp only [unslottedList, List.cons.injEq] at h
    rw [sameList, same_of_unslotted_eq h.1, sameList_of_unslottedList_eq h.2, Bool.and_self]
end

lemma occurrences_function (params : List Ty) (result : Ty) :
    (function params result).occurrences = occurrencesList params ++ result.occurrences := by
  induction params with
  | nil => rfl
  | cons a params ih =>
    show [] ++ (a.occurrences ++ ((function params result).occurrences ++ [])) = _
    rw [ih, occurrencesList, List.append_nil, List.nil_append, List.append_assoc]

lemma unslotted_function {params params' : List Ty} {result result' : Ty}
    (hparams : unslottedList params = unslottedList params')
    (hresult : result.unslotted = result'.unslotted) :
    (function params result).unslotted = (function params' result').unslotted := by
  match params, params' with
  | [], [] => exact hresult
  | a :: params, b :: params' =>
    simp only [unslottedList, List.cons.injEq] at hparams
    have hrest := unslotted_function hparams.2 hresult
    show app _ [a.unslotted, (function params result).unslotted] =
      app _ [b.unslotted, (function params' result').unslotted]
    rw [hparams.1, hrest]
  | [], _ :: _ | _ :: _, [] => cases hparams

/-- The type quantified over the names of a set, or as it is if there are none. -/
def closeOver (t : Ty) (vars : NameSet) : Ty := if vars.isEmpty then t else .scheme vars t

/-- To quantify a type is to close it over its free variables. -/
lemma same_closeOver {t t' q : Ty} (hq : t.quantify = .ok q) (hslots : t.unslotted = t'.unslotted)
    {vars : NameSet} (hvars : ∀ x, x ∈ vars ↔ x ∈ t'.occurrences) : q == t'.closeOver vars := by
  have hmem : ∀ x, x ∈ t.bindable [] ↔ x ∈ vars := by
    intro x
    rw [mem_bindable, hvars, ← occurrences_unslotted t, hslots, occurrences_unslotted]
    simp
  have hempty : (t.bindable []).isEmpty = vars.isEmpty := by
    rw [Bool.eq_iff_iff, NameSet.isEmpty, NameSet.isEmpty, List.isEmpty_iff, List.isEmpty_iff,
      List.eq_nil_iff_forall_not_mem, List.eq_nil_iff_forall_not_mem]
    exact forall_congr' fun x => not_congr (hmem x)
  obtain ⟨-, hcase⟩ := quantifyExcept_eq_ok.1 hq
  rw [hempty] at hcase
  rw [closeOver]
  split at hcase
  · next hvars => rw [hcase, if_pos hvars]; exact same_of_unslotted_eq hslots
  · next hvars =>
    rw [hcase.2, if_neg hvars]
    show (NameSet.same _ _ && same _ _) = true
    rw [NameSet.same_iff.2 hmem, same_of_unslotted_eq hslots, Bool.and_self]

end Ty

namespace Datatype

/-- The names of the constructors of a group. -/
def constructorNames (group : List Datatype) : List String :=
  (constructorsOf group).map fun e => e.2.name

lemma constructorNames_cons (d : Datatype) (ds : List Datatype) :
    constructorNames (d :: ds) = d.constructors.map (·.name) ++ constructorNames ds := by
  simp [constructorNames, constructorsOf, Function.comp_def]

/-- A constructor by name, with its type but for the slots. -/
def bareConstructor (e : Datatype × Constructor) : String × Ty :=
  (e.2.name, (e.1.constructorTy e.2).unslotted)

lemma mem_constructorsOf {group : List Datatype} {d : Datatype} (hd : d ∈ group) {c : Constructor}
    (hc : c ∈ d.constructors) : (d, c) ∈ constructorsOf group :=
  List.mem_flatMap.2 ⟨d, hd, List.mem_map_of_mem hc⟩

lemma bareConstructor_fillConstructors {d d' : Datatype}
    (hhead : d'.head.unslotted = d.head.unslotted) (constructors : List Constructor)
    (kinds : List Kind) :
    (fillConstructors constructors kinds).1.map (fun c => bareConstructor (d', c)) =
      constructors.map fun c => bareConstructor (d, c) := by
  induction constructors generalizing kinds with
  | nil => rfl
  | cons c constructors ih =>
    have hfields := Ty.unslotted_function (Ty.unslottedList_fillList c.fields kinds) hhead
    simp only [fillConstructors, List.map_cons, ih]
    exact congrArg (· :: _) (Prod.ext rfl hfields)

/-- Recording kinds changes no constructor but for the slots. -/
lemma bareConstructor_fillDatatypes (group : List Datatype) (kinds : List Kind) :
    (constructorsOf (fillDatatypes group kinds).1).map bareConstructor =
      (constructorsOf group).map bareConstructor := by
  have hbare (ds : List Datatype) : (constructorsOf ds).map bareConstructor =
      (ds.map fun d => d.constructors.map fun c => bareConstructor (d, c)).flatten := by
    simp [constructorsOf, List.flatMap, List.map_flatten, Function.comp_def]
  rw [hbare, hbare, map_fillDatatypes]
  intro d own
  exact bareConstructor_fillConstructors (d.head.unslotted_fill own) d.constructors _

lemma constructorNames_fillDatatypes (group : List Datatype) (kinds : List Kind) :
    constructorNames (fillDatatypes group kinds).1 = constructorNames group := by
  have hnames (ds : List Datatype) :
      constructorNames ds = ((constructorsOf ds).map bareConstructor).map Prod.fst := by
    simp [constructorNames, bareConstructor, Function.comp_def]
  rw [hnames, hnames, bareConstructor_fillDatatypes]

end Datatype

/-! ### Constructors in scope -/

section Registering

variable {s s' : Session} {u : Unit} {name : String}

lemma isSome_find?_registerEach {d : Datatype} {constructors : List Constructor}
    (hrun : registerEach d constructors s = .ok u s')
    (h : name ∈ constructors.map (·.name) ∨ (s.env.values.innermost.find? name).isSome) :
    (s'.env.values.innermost.find? name).isSome := by
  induction constructors generalizing s with
  | nil =>
    obtain ⟨_, rfl⟩ := pure_eq_ok.1 hrun
    simpa using h
  | cons c constructors ih =>
    obtain ⟨t, s₁, hquantify, hrun⟩ := bind_eq_ok.1 hrun
    obtain ⟨inference, hquantify', rfl⟩ := liftM_eq_ok hquantify
    obtain ⟨_, rfl⟩ := quantify_eq_ok hquantify'
    refine ih hrun ?_
    by_cases hname : c.name = name
    · exact .inr (by simp [Scope.insert, Table.find?_insert, hname])
    · simpa [Scope.insert, Table.find?_insert, hname, Ne.symm hname] using h

lemma isSome_find?_registerAll {ds : List Datatype} (hrun : registerAll ds s = .ok u s')
    (h : name ∈ Datatype.constructorNames ds ∨ (s.env.values.innermost.find? name).isSome) :
    (s'.env.values.innermost.find? name).isSome := by
  induction ds generalizing s with
  | nil =>
    obtain ⟨_, rfl⟩ := pure_eq_ok.1 hrun
    simpa [Datatype.constructorNames, Datatype.constructorsOf] using h
  | cons d ds ih =>
    obtain ⟨_, s₁, hd, hds⟩ := bind_eq_ok.1 hrun
    rw [Datatype.constructorNames_cons, List.mem_append, or_assoc, or_left_comm] at h
    exact ih hds (h.imp_right (isSome_find?_registerEach hd))

end Registering

/-- What the innermost scope holds are closed types of constructors, under their names. -/
def Moment.HoldsConstructors (ds : List Datatype) (m : Moment) (values : Scope Handle) : Prop :=
  ∀ name h, values.innermost.find? name = some h → ∃ e ∈ Datatype.constructorsOf ds,
    e.2.name = name ∧ ∃ q, (e.1.constructorTy e.2).quantify = .ok q ∧ m.Sealed (· = q) h

lemma Moment.HoldsConstructors.enter {ds : List Datatype} {m : Moment} {env : Env}
    (hm : m.HoldsConstructors ds env.values) {d : Datatype} {c : Constructor}
    (hc : (d, c) ∈ Datatype.constructorsOf ds) {q : Ty}
    (hq : (d.constructorTy c).quantify = .ok q) :
    (m.enter q).HoldsConstructors ds (env.enter c.name (m.state.newHandle q)).values := by
  intro name h hfind
  replace hfind : (env.values.innermost.insert c.name _).find? name = some h := hfind
  rw [Table.find?_insert] at hfind
  split at hfind
  · next hname =>
    cases hfind
    exact ⟨(d, c), hc, hname, q, hq, Moment.sealed_enter (Ty.quantify_exact hq).1 rfl⟩
  · obtain ⟨e, he, hname, q', hq', hsealed⟩ := hm name h hfind
    exact ⟨e, he, hname, q', hq', hsealed.tracked rfl fun _ h => .inl h⟩

/-- A sealed type under a name that is not bound again is what is reported for the name. -/
lemma Moment.Sealed.reported {config : Config} {decls : List Decl} {s s' : Session} {m : Moment}
    {name : String} {h : Handle} {q : Ty} (hsealed : m.Sealed (· = q) h) (hs : s.Ready)
    (hm : m.state = s.inference) (hh : s.env.values.innermost.find? name = some h)
    (hrun : Decl.bindAll config decls s = .ok () s') (hname : name ∉ Decl.boundNames config decls) :
    (s'.env.values.innermost.find? name).bind
      (s'.inference.settled.defaulted config.defaultTy).term? = some q := by
  have hstart : s = ⟨m.state, s.env⟩ := by rw [hm]
  obtain ⟨m', htrace, hm', _⟩ := (Decl.bindAll_follows Sources.serves_any decls
    (Decl.meets_any decls) m s.env trivial).trace (hstart ▸ hrun)
  have hh' : s'.env.values.innermost.find? name = some h := (find?_bindAll hrun hname).trans hh
  have hready := (hs.bindAll config decls).of_run hrun
  obtain ⟨t, ht⟩ := hready.live h
    (List.mem_append_left _ (List.mem_map_of_mem (f := Prod.snd) (Table.mem_of_lookup hh')))
  obtain ⟨hclosed, rfl⟩ := (htrace.sealed hsealed).term (hm' ▸ ht)
  rw [hh']
  exact hready.reported ht (Ty.unknowns_of_occurrences hclosed) config.defaultTy

/-- A constructor whose name is not bound again is reported with its closed type. -/
lemma find?_of_mem_constructorNames {config : Config} {decls : List Decl} {typed : Typed}
    (hok : (checkProgram config decls).2 = .ok typed) {name : String}
    (hname : name ∈ Datatype.constructorNames (Decl.datatypes decls))
    (hbound : name ∉ Decl.boundNames config decls) :
    ∃ e ∈ Datatype.constructorsOf (Decl.datatypes decls), e.2.name = name ∧
      ∃ t q : Ty, t.unslotted = (e.1.constructorTy e.2).unslotted ∧ t.quantify = .ok q ∧
        typed.values.find? name = some q := by
  obtain ⟨found, s₁, s₂, _, hfound, hopen, hvalues, _⟩ := checkProgram_eq_ok hok
  obtain ⟨values, hok', hfind⟩ := checkProgram_of_values hopen hvalues
  obtain rfl : typed = ⟨found.declared, values⟩ := Except.ok.inj (hok.symm.trans hok')
  obtain ⟨found', s₀, hfound', _, _, hregister⟩ := openProgram_eq_ok hopen
  obtain rfl : found = found' := Except.ok.inj (hfound.symm.trans hfound')
  let group := (fillDatatypes (Decl.datatypes decls) found.recorded).1
  have hempty : (Moment.start s₀.inference).HoldsConstructors group s₀.env.values.child := by
    intro name h hnone
    cases hnone
  have hregistering : FollowsIn .any (.start s₀.inference) ⟨s₀.env.values.child, s₀.env.kinds⟩
      (registerAll group : DeclM Unit) fun _ m env => m.HoldsConstructors group env.values :=
    follows_registerAll hempty fun d hd c hc q hq =>
      ⟨trivial, fun m env hm => hm.enter (Datatype.mem_constructorsOf hd hc) hq⟩
  obtain ⟨m₁, _, hm₁, hholds⟩ := hregistering.trace hregister
  have hname' : name ∈ Datatype.constructorNames group := by
    rwa [Datatype.constructorNames_fillDatatypes]
  obtain ⟨h, hh⟩ := Option.isSome_iff_exists.1 (isSome_find?_registerAll hregister (.inl hname'))
  obtain ⟨e, he, hename, q, hq, hsealed⟩ := hholds name h hh
  -- But for the slots, this is a constructor of the program as it was given.
  have hbare := List.mem_map_of_mem (f := Datatype.bareConstructor) he
  rw [Datatype.bareConstructor_fillDatatypes] at hbare
  obtain ⟨e', he', heq⟩ := List.mem_map.1 hbare
  rw [Datatype.bareConstructor, Datatype.bareConstructor, Prod.mk.injEq] at heq
  refine ⟨e', he', heq.1.trans hename, _, q, heq.2.symm, hq, ?_⟩
  rw [hfind]
  exact hsealed.reported (ready_openProgram hopen) hm₁ hh hvalues hbound

/-- A group without kinds is what a program fails for. -/
lemma checkProgram_of_inferGroup_error {config : Config} {decls : List Decl} {e : Sited KindError}
    (h : inferGroup config.prelude.kindScope (Decl.datatypes decls) = .error e) :
    (checkProgram config decls).2 = .error (.error (blameGroup (Decl.datatypes decls) e)) := by
  refine checkProgram_of_open_error (s := .start config) ?_
  rw [openProgram, bind_of_error (adaptExcept_of_error (declareTypes_of_error h))]

/-- A field with a variable that is no parameter and has the name of no datatype is refused. -/
lemma checkProgram_of_unbound (config : Config) {decls : List Decl} {d : Datatype}
    (hd : d ∈ Decl.datatypes decls) {c : Constructor} (hc : c ∈ d.constructors) {f : Ty}
    (hf : f ∈ c.fields) {x : String} (hx : x ∈ f.freeVars) (hparam : x ∉ d.paramNames)
    (hdeclared : x ∉ declaredNames (Decl.datatypes decls)) :
    ∃ e k, (checkProgram config decls).2 = .error (.error e) ∧ e.error = .kind k := by
  cases hfound : inferGroup config.prelude.kindScope (Decl.datatypes decls) with
  | ok found =>
    have ht : f ∈ d.types := List.mem_cons_of_mem _ (List.mem_flatMap.2 ⟨c, hc, hf⟩)
    rcases mem_paramNames_or_declaredNames hfound hd ht (NameSet.mem_ofList.1 hx) with h | h
    · exact absurd h hparam
    · exact absurd h hdeclared
  | error e =>
    exact ⟨_, e.item, checkProgram_of_inferGroup_error hfound, blameGroup_error _ e⟩

/-! ### Constructors of accepted programs -/

/-- A program with a field that has a variable other than the parameters of its datatype and the
names of datatypes is refused. In an accepted program, a constructor whose name is declared once is
reported as the function from its fields to the head, closed over the variables of both. These are
the variables of the head, and those of the fields are parameters, if no other variable of a field
has the name of a datatype. -/
theorem checkProgram_constructorTy (config : Config) (decls : List Decl) :
    (∀ d ∈ Decl.datatypes decls, ∀ c ∈ d.constructors, ∀ f ∈ c.fields, ∀ x ∈ f.freeVars,
      x ∉ d.paramNames → x ∉ declaredNames (Decl.datatypes decls) →
        ∃ e k, (checkProgram config decls).2 = .error (.error e) ∧ e.error = .kind k) ∧
    ∀ typed, (checkProgram config decls).2 = .ok typed →
      (Datatype.constructorNames (Decl.datatypes decls)).Nodup →
      (∀ name ∈ Datatype.constructorNames (Decl.datatypes decls),
        name ∉ Decl.boundNames config decls) →
      ∀ d ∈ Decl.datatypes decls, ∀ c ∈ d.constructors, ∃ t, typed.values.find? c.name = some t ∧
        t == (d.constructorTy c).closeOver (d.constructorTy c).freeVars ∧
        ((∀ f ∈ c.fields, ∀ x ∈ f.freeVars,
            x ∈ declaredNames (Decl.datatypes decls) → x ∈ d.paramNames) →
          (∀ f ∈ c.fields, ∀ x ∈ f.freeVars, x ∈ d.paramNames) ∧
            t == (d.constructorTy c).closeOver d.head.freeVars) := by
  refine ⟨fun d hd c hc f hf x hx => checkProgram_of_unbound config hd hc hf hx, ?_⟩
  intro typed hok hnodup hbound d hd c hc
  have hmem : (d, c) ∈ Datatype.constructorsOf (Decl.datatypes decls) :=
    Datatype.mem_constructorsOf hd hc
  have hname : c.name ∈ Datatype.constructorNames (Decl.datatypes decls) := List.mem_map_of_mem hmem
  obtain ⟨e, he, hename, t, q, hslots, hq, hfind⟩ :=
    find?_of_mem_constructorNames hok hname (hbound _ hname)
  -- As the names are distinct, this is the constructor in question.
  obtain rfl : e = (d, c) := List.inj_on_of_nodup_map hnodup he hmem hename
  refine ⟨q, hfind, Ty.same_closeOver hq hslots fun x => NameSet.mem_ofList, fun hother => ?_⟩
  have hparams : ∀ f ∈ c.fields, ∀ x ∈ f.freeVars, x ∈ d.paramNames := by
    intro f hf x hx
    by_contra hparam
    obtain ⟨_, _, herror, _⟩ := checkProgram_of_unbound config hd hc hf hx hparam
      fun h => hparam (hother f hf x hx h)
    rw [hok] at herror
    cases herror
  refine ⟨hparams, Ty.same_closeOver hq hslots fun x => ?_⟩
  rw [Datatype.constructorTy, Ty.occurrences_function, List.mem_append, Ty.freeVars,
    NameSet.mem_ofList]
  refine ⟨.inr, fun h => h.elim (fun hx => ?_) id⟩
  obtain ⟨f, hf, hx⟩ := Ty.mem_occurrencesList.1 hx
  exact d.paramNames_subset_occurrences (hparams f hf x (NameSet.mem_ofList.2 hx))

/-- `Box(T, f)` with `MkBox : f(T) → T → Box(T, f)`, where `T` is a parameter although there is a
datatype of that name. -/
def applicationBox : Datatype :=
  ⟨.app (.con "Box" none) [.rigid "T", .rigid "f"],
    [⟨"MkBox", [.app (.rigid "f") [.rigid "T"], .rigid "T"]⟩], {}⟩

/-- The datatypes `T` and `Box`, and a value. -/
def applicationBoxes : List Decl :=
  [.datatype ⟨.con "T" none, [⟨"C", []⟩], {}⟩, .datatype applicationBox,
    .value "x" none (.ident "MkBox") {}]

/-- `T(a)` with a constructor that has a field `b`. -/
def unboundField : List Decl :=
  [.datatype ⟨.app (.con "T" none) [.rigid "a"], [⟨"Mk", [.rigid "b"]⟩], {}⟩]

theorem checkProgram_constructorTy_applicationBoxes :
    (∃ typed t, (checkProgram {} applicationBoxes).2 = .ok typed ∧
      typed.values.find? "MkBox" = some t ∧ t == .quantified ["T", "f"]
        (.function [.app (.rigid "f") [.rigid "T"], .rigid "T"] applicationBox.head)) ∧
    ∃ e k, (checkProgram {} unboundField).2 = .error (.error e) ∧ e.error = .kind k := by
  obtain ⟨typed, hok⟩ : ∃ typed, (checkProgram {} applicationBoxes).2 = .ok typed := ⟨_, by cbv⟩
  have hmem : applicationBox ∈ Decl.datatypes applicationBoxes := by
    simp [applicationBoxes, Decl.datatypes]
  obtain ⟨t, hfind, _, hclosed⟩ := (checkProgram_constructorTy {} applicationBoxes).2 typed hok
    (by decide) (by decide) applicationBox hmem ⟨"MkBox", _⟩ List.mem_cons_self
  refine ⟨⟨typed, t, hok, hfind, (hclosed (by decide)).2⟩, ?_⟩
  exact (checkProgram_constructorTy {} unboundField).1 _ List.mem_cons_self _ List.mem_cons_self _
    List.mem_cons_self "b" (by decide) (by decide) (by decide)

/-- `T` with a constructor that has a field of the variable `T`. -/
def selfNamed : Datatype := ⟨.con "T" none, [⟨"C", [.rigid "T"]⟩], {}⟩

/-- The variable of the field is no parameter, and the constructor is closed over it. -/
theorem checkProgram_closes_over_datatype_name :
    "T" ∉ selfNamed.paramNames ∧ ∃ typed t, (checkProgram {} [.datatype selfNamed]).2 = .ok typed ∧
      typed.values.find? "C" = some t ∧
      t == .quantified ["T"] (.arrow (.rigid "T") (.con "T" none)) ∧
      ¬ t == (selfNamed.constructorTy ⟨"C", [.rigid "T"]⟩).closeOver selfNamed.head.freeVars := by
  have hok : (checkProgram {} [.datatype selfNamed]).2 =
      .ok ⟨.ofList [("T", .atomic)], .ofList [("C", .quantified ["T"] (.arrow
        (.var "T" .rigid (some .atomic)) (.con "T" (some .atomic))))]⟩ := by cbv
  exact ⟨by decide, _, _, hok, rfl, by decide, by decide⟩

end LetPoly
