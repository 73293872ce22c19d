import LetPoly.Proofs.Typing.TopLevel

/-!
# Reported types are closed exactly

Where no quantifier binds nothing, and every quantified type inside another type has no free
variable or binds no letter name, the types that are reported for a program have no free variables,
and those among them that are quantified bind exactly the variables of their bodies
(`checkProgram_closes_exactly`). Both conditions are needed: a quantifier that binds nothing is
reported as it was written, and a letter may be caught by a quantifier inside
(`checkProgram_not_exact`).
-/

namespace LetPoly

open Inference

/-! ### Quantifiers that bind something -/

/-- Whether a quantified type inside another one binds something and does no harm to letters. -/
def bindsSafely (vars : NameSet) (body : Ty) : Bool := letterSafe vars body && !vars.isEmpty

lemma stableScheme_bindsSafely : StableScheme bindsSafely where
  subst v t h hv := by
    rw [bindsSafely, Bool.and_eq_true] at h ⊢
    exact ⟨(stableScheme_avoids _).subst v t h.1 hv, h.2⟩
  substAll σ h := by
    rw [bindsSafely, Bool.and_eq_true] at h ⊢
    exact ⟨(stableScheme_avoids _).substAll σ h.1, h.2⟩
  fill kinds h := by
    rw [bindsSafely, Bool.and_eq_true] at h ⊢
    exact ⟨(stableScheme_avoids _).fill kinds h.1, h.2⟩

lemma NameSet.isEmpty_eq_false {vars : NameSet} : vars.isEmpty = false ↔ ∃ x, x ∈ vars := by
  rw [NameSet.isEmpty, List.isEmpty_eq_false_iff]
  refine ⟨List.exists_mem_of_ne_nil _, ?_⟩
  rintro ⟨_, hx⟩
  exact List.ne_nil_of_mem hx

namespace Ty

/-- Whether the type, if it is quantified, binds something. -/
def BindsSome : Ty → Prop
  | .scheme vars _ => vars.isEmpty = false
  | _ => True

lemma bindsSome_of_allSchemes {t : Ty} (h : t.allSchemes bindsSafely) : t.BindsSome := by
  cases t with
  | scheme vars body =>
    have hvars := (allSchemes_scheme.1 h).1
    rw [bindsSafely, Bool.and_eq_true, Bool.not_eq_true'] at hvars
    exact hvars.2
  | con _ _ => trivial
  | var _ _ _ => trivial
  | app _ _ => trivial

lemma bindsSome_fill {t : Ty} (h : t.BindsSome) (kinds : List Kind) :
    (t.fill kinds).1.BindsSome := by
  cases t with
  | scheme vars body => exact h
  | con _ kind => cases kind <;> cases kinds <;> trivial
  | var _ _ kind => cases kind <;> cases kinds <;> trivial
  | app _ _ => trivial

lemma bindsSome_quantify {t q : Ty} (ht : t.BindsSome) (hq : t.quantify = .ok q) :
    q.BindsSome := by
  obtain ⟨_, hcase⟩ := quantifyExcept_eq_ok.1 hq
  split at hcase
  · exact hcase ▸ ht
  · rename_i hsome
    rw [hcase.2]
    exact Bool.eq_false_iff.2 hsome

lemma exists_bindable {t : Ty} {fixed : List String} (h : ¬ (t.bindable fixed).isEmpty) :
    ∃ x ∈ t.bindable fixed, x ∈ t.occurrences := by
  obtain ⟨x, hx⟩ := NameSet.isEmpty_eq_false.1 (Bool.eq_false_iff.2 h)
  exact ⟨x, hx, (mem_bindable.1 hx).1⟩

/-- A closure binds a letter for every variable that the scheme uses. -/
lemma bindsSome_generalize {t g : Ty} {fixed : List String} (ht : t.BindsSome)
    (hg : t.generalize fixed = .ok g) : g.BindsSome := by
  obtain ⟨hidle, _, hcase⟩ := generalize_eq_ok hg
  split at hcase
  · exact hcase ▸ ht
  · rename_i hcond
    obtain ⟨x, hx, hbody⟩ : ∃ x ∈ (t.closure fixed).vars, x ∈ (t.closure fixed).body.occurrences := by
      cases t with
      | scheme vars body =>
        obtain ⟨x, hx⟩ := NameSet.isEmpty_eq_false.1 ht
        exact ⟨x, hx, mem_occurrences_of_idleVars? hidle hx⟩
      | con _ _ => exact exists_bindable fun hempty => hcond ⟨rfl, hempty⟩
      | var _ _ _ => exact exists_bindable fun hempty => hcond ⟨rfl, hempty⟩
      | app _ _ => exact exists_bindable fun hempty => hcond ⟨rfl, hempty⟩
    obtain ⟨y, hy, _⟩ := Scheme.letterFor_isSome (Scheme.mem_usedVars.2 ⟨hbody, hx⟩)
    rw [hcase]
    refine NameSet.isEmpty_eq_false.2 ⟨y, ?_⟩
    rw [Scheme.canonical_eq, NameSet.mem_ofList]
    exact hy

end Ty

/-! ### Programs -/

/-- Sources that are judged by the quantified types inside. -/
def Sources.ofSchemes (p : NameSet → Ty → Bool) : Sources where
  plain t := t.allSchemes p
  general t := t.matrix.allSchemes p
  kinds _ := True

/-- No quantifier in a program binds nothing, and none inside another type does harm to letters. -/
def safeTypes : TypeTest where
  param t := t.allSchemes bindsSafely
  binding t := t.matrix.allSchemes bindsSafely ∧ t.BindsSome
  group ds := ∀ d ∈ ds, d.All fun t => t.allSchemes bindsSafely

/-- The same of what is there before a program, where no type is free to vary. -/
structure Config.Safe (config : Config) : Prop where
  closed : ∀ t ∈ config.prelude.values.values, t.freeVars.isEmpty
  values : ∀ t ∈ config.prelude.values.values, t.matrix.allSchemes bindsSafely
  internals : ∀ t ∈ config.prelude.internals.values, t.matrix.allSchemes bindsSafely

lemma Config.Safe.serves {config : Config} (h : config.Safe) :
    (Sources.ofSchemes bindsSafely).Serves config where
  literal value := by cases value <;> rfl
  bool := rfl
  internal hfind := h.internals _ (List.mem_map_of_mem (f := Prod.snd) (Table.mem_of_lookup hfind))
  child _ := trivial

lemma allSchemes_constructorTy {ds : List Datatype} (hds : safeTypes.group ds) {kinds : List Kind}
    {d : Datatype} (hd : d ∈ (fillDatatypes ds kinds).1) {c : Constructor} (hc : c ∈ d.constructors) :
    (d.constructorTy c).allSchemes bindsSafely := by
  obtain ⟨d, hd', own, rfl⟩ := mem_fillDatatypes hd
  have hall := (hds d hd').fill (fun t => Ty.allSchemes_fill stableScheme_bindsSafely t) own
  exact Ty.allSchemes_function.2 ⟨hall.field hc, hall.head⟩

lemma safeTypes_le : safeTypes.Le (Sources.ofSchemes bindsSafely).test where
  param ht _ _ found _ := Ty.allSchemes_fill stableScheme_bindsSafely _ found ht
  binding := by
    intro t ht _ _ found _ q hq
    have hfill : (t.fill found).1.matrix.allSchemes bindsSafely := by
      rw [Ty.matrix_fill]
      exact Ty.allSchemes_fill stableScheme_bindsSafely _ found ht.1
    have hmatrix := Ty.allSchemes_quantify hq hfill
    cases q with
    | scheme _ _ => exact hmatrix
    | con _ _ => exact hmatrix
    | var _ _ _ => exact hmatrix
    | app _ _ => exact hmatrix
  group := by
    intro ds hds _ _ found _
    refine ⟨trivial, fun d hd c hc q hq => ?_⟩
    exact Ty.allSchemes_quantify hq (Ty.allSchemes_matrix (allSchemes_constructorTy hds hd hc))

/-- What a closure of safe types comes to. -/
lemma Config.Safe.seal {config : Config} (h : config.Safe) :
    Seal (.ofSchemes bindsSafely) config bindsSafely fun t => t.Exact ∧ t.BindsSome where
  serves := h.serves
  stable := stableScheme_bindsSafely
  tame := ⟨fun ht => ht, fun ht => ht⟩
  close ht hg := by
    have hsafe := Ty.allSchemes_imp (fun _ _ h => (Bool.and_eq_true_iff.1 h).1) _ ht
    obtain ⟨hclosed, hexact⟩ := Ty.generalize_exact hsafe hg
    exact ⟨hclosed, hexact, Ty.bindsSome_generalize (Ty.bindsSome_of_allSchemes ht) hg⟩

lemma Decl.Meets.ascribes {decls : List Decl} (h : Decl.Meets safeTypes decls) (kinds : Scope Kind) :
    Decl.Ascribes (fun t => t.Exact ∧ t.BindsSome) kinds decls := by
  intro name t value position hmem found q _ hq
  exact ⟨(Ty.quantify_exact hq).2, Ty.bindsSome_quantify (Ty.bindsSome_fill (h.binding hmem).2 found) hq⟩

/-- The types reported for a program have no free variables. Those that are quantified bind
something, and exactly the free variables of their bodies. -/
theorem checkProgram_closes_exactly (config : Config) (decls : List Decl) (typed : Typed)
    (hconfig : config.Safe) (hgroup : safeTypes.group (Decl.datatypes decls))
    (hdecls : Decl.Meets safeTypes decls) (hok : (checkProgram config decls).2 = .ok typed) :
    ∀ t ∈ typed.values.values, t.freeVars.isEmpty ∧ ∀ vars body, t = .scheme vars body →
      vars.isEmpty = false ∧ ∀ x, x ∈ vars ↔ x ∈ body.freeVars := by
  obtain ⟨found, _, _, _, hfound, _⟩ := checkProgram_eq_ok hok
  have hprelude : ∀ e ∈ config.prelude.values.entries,
      e.2.matrix.allSchemes bindsSafely ∧ e.2.occurrences = [] := by
    intro e he
    have hmem := List.mem_map_of_mem (f := Prod.snd) he
    exact ⟨hconfig.values _ hmem, Ty.freeVars_isEmpty.1 (hconfig.closed _ hmem)⟩
  have hconstructors : ∀ d ∈ (fillDatatypes (Decl.datatypes decls) found.recorded).1,
      ∀ c ∈ d.constructors, ∀ q, (d.constructorTy c).quantify = .ok q →
        q.matrix.allSchemes bindsSafely ∧ q.Exact ∧ q.BindsSome := by
    intro d hd c hc q hq
    have hall := allSchemes_constructorTy hgroup hd hc
    exact ⟨Ty.allSchemes_quantify hq (Ty.allSchemes_matrix hall), (Ty.quantify_exact hq).2,
      Ty.bindsSome_quantify (Ty.bindsSome_of_allSchemes hall) hq⟩
  obtain ⟨_, _, hvalues⟩ := hconfig.seal.checkProgram hok hfound trivial hprelude hconstructors
    (Decl.Meets.imp safeTypes_le decls hdecls) (hdecls.ascribes _)
  intro t ht
  obtain ⟨e, he, rfl⟩ := List.mem_map.1 ht
  obtain ⟨⟨hclosed, hexact, hsome⟩, _⟩ := hvalues e he
  refine ⟨Ty.freeVars_isEmpty.2 hclosed, fun vars body heq => ?_⟩
  rw [heq] at hexact hsome
  refine ⟨hsome, fun x => ?_⟩
  rw [Ty.freeVars, NameSet.mem_ofList]
  exact hexact x

/-- A field with a quantified type, and a value in the type of which a letter stands under the
quantifier of the field. The other value has a parameter with a quantified type. -/
def quantifiedField : List Decl :=
  [.datatype ⟨.app (.con "Box" none) [.rigid "b"],
      [⟨"MkBox", [.quantified ["item"] (.arrow (.rigid "item") (.rigid "b"))]⟩], {}⟩,
    .value "k" none (.lambda ["y"] (.letIn
      [.value "_" none (.app (.ident "MkBox") (.ident "y")) {}] (.literal (.int 1)))) {},
    .value "f" none (.function [⟨"g", some (.quantified ["a"] (.arrow (.rigid "a") (.rigid "a")))⟩,
      ⟨"y", none⟩] (.app (.ident "g") (.ident "y"))) {}]

/-- Both values are closed over one letter. -/
theorem checkProgram_closes_exactly_quantifiedField :
    ∃ typed, (checkProgram {} quantifiedField).2 = .ok typed ∧ typed.values.values.length = 3 ∧
      ∀ t ∈ typed.values.values, t.freeVars.isEmpty ∧ ∀ vars body, t = .scheme vars body →
        vars.isEmpty = false ∧ ∀ x, x ∈ vars ↔ x ∈ body.freeVars := by
  let var (x : String) : Ty := .var x .rigid (some .atomic)
  let typed : Typed := ⟨.ofList [("Box", .ofArity 1)], .ofList
    [("MkBox", .quantified ["b"] (.arrow (.quantified ["item"] (.arrow (var "item") (var "b")))
        (.app (.con "Box" (some (.ofArity 1))) [var "b"]))),
      ("k", .quantified ["a"] (.arrow (.quantified ["item"] (.arrow (var "item") (.rigid "a"))) .int)),
      ("f", .quantified ["a"] (.arrow (.quantified ["a"] (.arrow (var "a") (var "a")))
        (.arrow (.rigid "a") (.rigid "a"))))]⟩
  have hok : (checkProgram {} quantifiedField).2 = .ok typed := by cbv
  have hconfig : Config.Safe {} := ⟨by decide, by decide, by decide⟩
  have hgroup : safeTypes.group (Decl.datatypes quantifiedField) := by
    intro d hd
    obtain rfl := List.mem_singleton.1 hd
    exact ⟨by decide, by decide⟩
  have hdecls : Decl.Meets safeTypes quantifiedField := by
    simp only [quantifiedField, Decl.Meets, Expr.Meets, Expr.lambda, safeTypes, Decl.datatypes]
    simp
    decide
  exact ⟨typed, hok, by decide,
    checkProgram_closes_exactly {} quantifiedField typed hconfig hgroup hdecls hok⟩

/-! ### Quantifiers that bind nothing, and letters that are caught -/

/-- A value with a quantifier over nothing in its ascription. -/
def emptyQuantifier : List Decl := [.value "x" (some (.quantified [] .int)) (.literal (.int 1)) {}]

/-- A field with a quantified type that binds a letter and has a free variable. -/
def caughtLetter : List Decl :=
  [.datatype ⟨.app (.con "T" none) [.rigid "b"],
      [⟨"MkT", [.quantified ["a"] (.arrow (.rigid "a") (.rigid "b"))]⟩], {}⟩,
    .value "k" none (.lambda ["y"] (.letIn
      [.value "_" none (.app (.ident "MkT") (.ident "y")) {}] (.literal (.int 1)))) {}]

/-- A quantifier over nothing is reported as it was written. And the letter for the free variable
under the quantifier of a field is caught by it, so that the closure binds what is free nowhere. -/
theorem checkProgram_not_exact :
    (∃ typed, (checkProgram {} emptyQuantifier).2 = .ok typed ∧
      ∃ vars body, .scheme vars body ∈ typed.values.values ∧ vars.isEmpty) ∧
    ∃ typed, (checkProgram {} caughtLetter).2 = .ok typed ∧
      ∃ vars body, .scheme vars body ∈ typed.values.values ∧ ∃ x ∈ vars, x ∉ body.freeVars := by
  let var (x : String) : Ty := .var x .rigid (some .atomic)
  refine ⟨⟨⟨.empty, .ofList [("x", .quantified [] .int)]⟩, by cbv, _, _, List.mem_cons_self, rfl⟩,
    ⟨⟨.ofList [("T", .ofArity 1)], .ofList
      [("MkT", .quantified ["b"] (.arrow (.quantified ["a"] (.arrow (var "a") (var "b")))
          (.app (.con "T" (some (.ofArity 1))) [var "b"]))),
        ("k", .quantified ["a"] (.arrow (.quantified ["a"] (.arrow (var "a") (.rigid "a"))) .int))]⟩,
      by cbv, _, _, List.mem_cons_of_mem _ List.mem_cons_self, "a", by decide, by decide⟩⟩

end LetPoly
