import LetPoly.Proofs.Typing.Respelled
import LetPoly.Proofs.Typing.Traced

/-!
# Respelled ascriptions

A program is respelled by renaming the variables in the ascriptions of its values and parameters.
Whatever reads an ascription runs in tandem on the two spellings: the type that a value must have,
the one that it is given in the end, and the declaration of a value as a whole
(`tandem_bindValueWith`). Datatypes keep their spelling, so that their declarations run in tandem
with themselves as far as the names bound inside the types of constructors stay
(`tandem_declareDatatypes`).
-/

namespace LetPoly

open Inference Session

variable {α : Type} {r ρ : String → String} {met held : List String} {K : Handle → Prop}

/-! ### Other spellings -/

/-- A parameter with the variables of its ascription renamed. -/
def Param.respell (r : String → String) (p : Param) : Param :=
  ⟨p.name, p.ascription.map (Ty.rename r)⟩

mutual
/-- Rename the variables in the ascriptions of an expression. -/
def Expr.respell (r : String → String) : Expr → Expr
  | .literal value => .literal value
  | .ident name => .ident name
  | .internal name => .internal name
  | .app func arg => .app (func.respell r) (arg.respell r)
  | .function params body => .function (params.map (Param.respell r)) (body.respell r)
  | .guards branches otherwise =>
    .guards (Expr.respellBranches r branches) (otherwise.respell r)
  | .cases scrutinee arms => .cases (scrutinee.respell r) (Expr.respellArms r arms)
  | .letIn decls body => .letIn (Decl.respellAll r decls) (body.respell r)

/-- Rename the variables in the ascriptions of guarded branches. -/
def Expr.respellBranches (r : String → String) : List (Expr × Expr) → List (Expr × Expr)
  | [] => []
  | (condition, branch) :: branches =>
    (condition.respell r, branch.respell r) :: Expr.respellBranches r branches

/-- Rename the variables in the ascriptions of match arms. -/
def Expr.respellArms (r : String → String) : List (Pattern × Expr) → List (Pattern × Expr)
  | [] => []
  | (pattern, body) :: arms => (pattern, body.respell r) :: Expr.respellArms r arms

/-- Rename the variables in the ascriptions of declarations. Datatypes stay as they are. -/
def Decl.respellAll (r : String → String) : List Decl → List Decl
  | [] => []
  | .value name ascription value position :: decls =>
    .value name (ascription.map (Ty.rename r)) (value.respell r) position :: Decl.respellAll r decls
  | .datatype d :: decls => .datatype d :: Decl.respellAll r decls
  | .fixity f :: decls => .fixity f :: Decl.respellAll r decls
end

lemma Decl.datatypes_respellAll (r : String → String) (decls : List Decl) :
    Decl.datatypes (Decl.respellAll r decls) = Decl.datatypes decls := by
  induction decls with
  | nil => rfl
  | cons d decls ih =>
    cases d with
    | value name ascription value position => exact ih
    | datatype d => exact congrArg (d :: ·) ih
    | fixity f => exact ih

/-- What is asked of the ascriptions in a program: no variable has an apostrophe in its name or is
named like a type constructor of the ascription, before or after. -/
structure Ty.Spellable (r : String → String) (t : Ty) : Prop where
  plain : ∀ x ∈ t.variableNames, PlainName x
  apart : ∀ x ∈ t.variableNames, x ∉ t.constructorNames ∧ r x ∉ t.constructorNames

/-- What is asked of the types in a program: in the ascriptions of parameters inference meets all
variables as they are written, in those of values the variables that are bound inside, and in
datatypes the variables that are bound inside stay. -/
def spellingTest (r : String → String) (met held : List String) : TypeTest where
  param t := t.Spellable r ∧ t.variableNames ⊆ met
  binding t := t.Spellable r ∧ t.innerBinders ⊆ met
  group ds := ∀ d ∈ ds, d.All fun t => t.binders ⊆ held

/-! ### Ascriptions -/

section Ascriptions

variable {s s' : Inference}

lemma tandem_ascribe (hr : Function.Injective r) (hs : s.Respelled ρ K s') {t : Ty}
    (ht : t.Spellable r) (kinds : Scope Kind) :
    InTandem ρ K (ascribe kinds t) (ascribe kinds (t.rename r))
      (fun a a' => ∃ found, a = (t.fill found).1 ∧ a' = a.rename r) s s' := by
  have hiff {found : List Kind} : (checkAscription kinds (t.rename r)).2 = .ok found ↔ _ :=
    checkAscription_rename hr kinds ht.apart
  cases hcheck : (checkAscription kinds t).2 with
  | ok found =>
    refine .of_ok (ascribe_run hcheck s) (ascribe_run (hiff.2 hcheck) s')
      ⟨⟨found, rfl, ?_⟩, hs.noted found found⟩
    rw [Ty.fill_rename]
  | error e =>
    cases hcheck' : (checkAscription kinds (t.rename r)).2 with
    | ok found => cases hcheck.symm.trans (hiff.1 hcheck')
    | error e' =>
      rw [ascribe_of_error hcheck, ascribe_of_error hcheck']
      exact tandem_fail

lemma tandem_paramTy (hρ : Respells r met held ρ)
    (hs : s.Respelled ρ K s') {p : Param}
    (hp : ∀ t, p.ascription = some t → (spellingTest r met held).param t) (kinds : Scope Kind) :
    InTandem ρ K (paramTy kinds p) (paramTy kinds (p.respell r)) (Renames ρ) s s' := by
  rw [paramTy, paramTy, Param.respell]
  cases hascription : p.ascription with
  | none => exact tandem_fresh hρ hs
  | some t =>
    obtain ⟨ht, hmet⟩ := hp t hascription
    refine (tandem_ascribe hρ.source_injective hs ht kinds).imp (fun _ _ _ _ _ => trivial) ?_
    rintro a s₁ _ s₁' ⟨⟨found, rfl, rfl⟩, hs₁⟩
    refine ⟨Ty.rename_congr _ fun x hx => ?_, hs₁⟩
    rw [Ty.variableNames_fill] at hx
    exact (hρ.met x (hmet hx)).symm

lemma tandem_quantify (hr : Function.Injective r) (hs : s.Respelled ρ K s') (t : Ty) :
    InTandem ρ K (Inference.quantify t) (Inference.quantify (t.rename r))
      (fun q q' => t.quantify = .ok q ∧ q' = q.rename r) s s' := by
  have hiff {q : Ty} := Ty.quantify_rename hr (t := t) (q := q)
  rw [InTandem, Inference.quantify, Inference.quantify]
  cases hq : t.quantify with
  | ok q =>
    rw [hiff.2 ⟨q, hq, rfl⟩]
    exact tandem_pure hs ⟨rfl, rfl⟩
  | error e =>
    cases hq' : (t.rename r).quantify with
    | ok q' =>
      obtain ⟨q, hok, _⟩ := hiff.1 hq'
      cases hq.symm.trans hok
    | error e' => exact tandem_fail

lemma tandem_generalize (hρ : Respells r met held ρ) (hs : s.Respelled ρ K s') (t : Ty)
    (fixed : List String) : InTandem ρ K (Inference.generalize t fixed)
      (Inference.generalize (t.rename ρ) (fixed.map ρ)) (Renames ρ) s s' := by
  have hiff {q : Ty} : (t.rename ρ).generalize (fixed.map ρ) = .ok q ↔ _ :=
    Ty.generalize_rename hρ.injective hρ.letter
  rw [InTandem, Inference.generalize, Inference.generalize]
  cases hq : t.generalize fixed with
  | ok q =>
    rw [hiff.2 ⟨q, hq, rfl⟩]
    exact tandem_pure hs rfl
  | error e =>
    cases hq' : (t.rename ρ).generalize (fixed.map ρ) with
    | ok q' =>
      obtain ⟨q, hok, _⟩ := hiff.1 hq'
      cases hq.symm.trans hok
    | error e' => exact tandem_fail

/-- The type that an ascription gives a value in the two runs. -/
def Reascribed (r ρ : String → String) (ascribed ascribed' : Option Ty) : Prop :=
  ascribed' = ascribed.map (Ty.rename r) ∧ ∀ q, ascribed = some q → q.Ascribable r ρ

lemma tandem_ascribedTy (hρ : Respells r met held ρ)
    (hs : s.Respelled ρ K s') {ascription : Option Ty}
    (hascription : ∀ t, ascription = some t → (spellingTest r met held).binding t)
    (kinds : Scope Kind) : InTandem ρ K (ascribedTy kinds ascription)
      (ascribedTy kinds (ascription.map (Ty.rename r))) (Reascribed r ρ) s s' := by
  cases ascription with
  | none => exact tandem_pure hs ⟨rfl, by simp⟩
  | some t =>
    obtain ⟨ht, hmet⟩ := hascription t rfl
    refine (tandem_ascribe hρ.source_injective hs ht kinds).bind ?_
    rintro a s₁ _ s₁' ⟨⟨found, rfl, rfl⟩, hs₁⟩
    refine (tandem_quantify hρ.source_injective hs₁ _).bind ?_
    rintro q s₂ _ s₂' ⟨⟨hq, rfl⟩, hs₂⟩
    refine tandem_pure hs₂ ⟨rfl, fun q' hq' => ?_⟩
    cases hq'
    refine Ty.ascribable_quantify (fun x hx => ?_) (fun x hx => ?_) hq
    · rw [Ty.variableNames_fill] at hx
      exact ht.plain x hx
    · rw [Ty.innerBinders_fill] at hx
      exact (hρ.met x (hmet hx)).symm

/-! ### Values -/

/-- The rigid variables that stand for the names of an ascription in the two runs. -/
def Demanded (r ρ : String → String) (p p' : Ty × List (String × String)) : Prop :=
  p' = (p.1.rename ρ, p.2.map (Prod.map r ρ))

lemma tandem_demandedTy (hρ : Respells r met held ρ)
    (hs : s.Respelled ρ K s') {h : Handle} {ascribed : Option Ty}
    (hascribed : ∀ q, ascribed = some q → q.Ascribable r ρ)
    (hh : ascribed.any Ty.isScheme = false → K h) :
    InTandem ρ K (demandedTy h ascribed) (demandedTy h (ascribed.map (Ty.rename r))) (Demanded r ρ)
      s s' := by
  have hcurrent (hh : K h) : InTandem ρ K (do let ty ← current h; return (ty, []))
      (do let ty ← current h; return (ty, [])) (Demanded r ρ) s s' := by
    refine (tandem_current hs hh).bind ?_
    rintro t s₁ _ s₁' ⟨rfl, hs₁⟩
    exact tandem_pure hs₁ rfl
  cases ascribed with
  | none => exact hcurrent (hh rfl)
  | some q =>
    cases q with
    | con _ _ => exact hcurrent (hh rfl)
    | var _ _ _ => exact hcurrent (hh rfl)
    | app _ _ => exact hcurrent (hh rfl)
    | scheme vars body =>
      let sc : Scheme := ⟨vars, body⟩
      have hsc : sc.toTy.Ascribable r ρ := hascribed _ rfl
      have hnames : (sc.rename r).vars.names = vars.names.map r := NameSet.names_rename hρ.source_injective vars
      refine .of_ok (skolemize_run sc s) (skolemize_run (sc.rename r) s') ⟨?_, ?_⟩
      · rw [Demanded, hs.next, rigidInstance_respell hρ hsc, hnames,
          skolemNames_respell hρ (hsc.outer rfl), List.zip_map]
      · rw [hnames, List.length_map]
        exact hs.bump _

/-- The type that a value has while its own type is inferred, if it is not quantified. -/
lemma tandem_provisionalTy (hρ : Respells r met held ρ) (hs : s.Respelled ρ K s')
    {ascribed : Option Ty} (hascribed : ∀ q, ascribed = some q → q.Ascribable r ρ)
    (hscheme : ascribed.any Ty.isScheme = false) : InTandem ρ K (provisionalTy ascribed)
      (provisionalTy (ascribed.map (Ty.rename r))) (Renames ρ) s s' := by
  cases ascribed with
  | none => exact tandem_fresh hρ hs
  | some q => exact tandem_pure hs ((hascribed q rfl).rename_of_isScheme hscheme)

lemma tandem_refuseEscape (hρ : Function.Injective ρ) (hs : s.Respelled ρ K s')
    (values : Scope Handle) (name : String) (rigid : List (String × String)) :
    InTandem ρ K (refuseEscape values name rigid)
      (refuseEscape values name (rigid.map (Prod.map r ρ))) (fun _ _ => True) s s' := by
  cases rigid with
  | nil => exact tandem_pure hs trivial
  | cons p rigid =>
    refine (tandem_envVars hρ hs values name).bind ?_
    rintro fixed s₁ _ s₁' ⟨rfl, hs₁⟩
    have hfind : ((p :: rigid).map (Prod.map r ρ)).find? (·.2 ∈ fixed.map ρ) =
        ((p :: rigid).find? (·.2 ∈ fixed)).map (Prod.map r ρ) := by
      rw [List.find?_map]
      simp only [Function.comp_def, Prod.map, List.mem_map_of_injective hρ]
    simp only [hfind]
    cases (p :: rigid).find? (·.2 ∈ fixed) with
    | none => exact tandem_pure hs₁ trivial
    | some escaped => exact tandem_fail

lemma tandem_closeTy (hρ : Respells r met held ρ) (hs : s.Respelled ρ K s') (values : Scope Handle)
    (name : String) {h : Handle} {ascribed : Option Ty}
    (hh : ascribed.any Ty.isScheme = false → K h) : InTandem ρ K (closeTy values name h ascribed)
      (closeTy values name h (ascribed.map (Ty.rename r))) (fun _ _ => True) s s' := by
  cases ascribed with
  | some q => exact tandem_pure hs trivial
  | none =>
    refine (tandem_envVars hρ.injective hs values name).bind ?_
    rintro fixed s₁ _ s₁' ⟨rfl, hs₁⟩
    refine (tandem_current hs₁ (hh rfl)).bind ?_
    rintro t s₂ _ s₂' ⟨rfl, hs₂⟩
    refine (tandem_generalize hρ hs₂ t fixed).bind ?_
    rintro g s₃ _ s₃' ⟨rfl, hs₃⟩
    exact .of_ok (replace_run s₃ h g) (replace_run s₃' h _) ⟨trivial, hs₃.replaced h g⟩

lemma tandem_settleTy (hρ : Respells r met held ρ)
    (hs : s.Respelled ρ K s') (values : Scope Handle) (name : String) {h : Handle}
    {ascribed : Option Ty} (hascribed : ∀ q, ascribed = some q → q.Ascribable r ρ)
    (hh : ascribed.any Ty.isScheme = false → K h) (found : Ty) :
    InTandem ρ K (settleTy values name ascribed h found)
      (settleTy values name (ascribed.map (Ty.rename r)) h (found.rename ρ)) (fun _ _ => True)
      s s' := by
  refine (tandem_demandedTy hρ hs hascribed hh).bind ?_
  rintro ⟨demanded, rigid⟩ s₁ _ s₁' ⟨rfl, hs₁⟩
  refine (tandem_equate hs₁ demanded found (.binding name)).bind ?_
  rintro _ s₂ _ s₂' ⟨_, hs₂⟩
  refine (tandem_solve hρ.injective hs₂).bind ?_
  rintro _ s₃ _ s₃' ⟨_, hs₃⟩
  refine (tandem_refuseEscape hρ.injective hs₃ values name rigid).bind ?_
  exact fun _ _ _ _ h₄ => tandem_closeTy hρ h₄.2 values name hh

end Ascriptions

/-! ### Declarations -/

/-- Outcomes as `P` says in sessions with the same names in scope. -/
def Beside (P : α → Inference → α → Inference → Prop) (a : α) (s : Session) (a' : α) (s' : Session) :
    Prop :=
  s'.env = s.env ∧ P a s.inference a' s'.inference

/-- Runs of two actions on declarations both fail, or come to results as `Q` says. -/
abbrev InTandemIn (ρ : String → String) (K : Handle → Prop) (x x' : DeclM α) (Q : α → α → Prop)
    (s s' : Session) : Prop :=
  Alike (fun _ _ _ _ => True) (Beside (Spelled ρ K Q)) (x s) (x' s')

section Declarations

variable {s s' : Session}

lemma tandem_lift {P : α → Inference → α → Inference → Prop} {x x' : InferM α}
    (hx : Alike (fun _ _ _ _ => True) P (x s.inference) (x' s'.inference)) (henv : s'.env = s.env) :
    Alike (fun _ _ _ _ => True) (Beside P) ((liftM x : DeclM α) s) ((liftM x' : DeclM α) s') := by
  obtain ⟨s, env⟩ := s
  obtain ⟨s', _⟩ := s'
  obtain rfl := henv
  obtain ⟨_, _, _, _, hrun, hrun', hP⟩ | ⟨_, _, _, _, hrun, hrun', _⟩ := hx.cases_run
  · exact .of_ok (liftM_of_ok hrun) (liftM_of_ok hrun') ⟨rfl, hP⟩
  · exact .of_error (liftM_of_error hrun) (liftM_of_error hrun') trivial

lemma tandem_modifyValues (hs : s.inference.Respelled ρ K s'.inference) (henv : s'.env = s.env)
    (f : Scope Handle → Scope Handle) :
    InTandemIn ρ K (modifyValues f) (modifyValues f) (fun _ _ => True) s s' := by
  refine ⟨?_, trivial, hs⟩
  show { s'.env with values := f s'.env.values } = { s.env with values := f s.env.values }
  rw [henv]

/-- Types that are quantified before they come into scope are the same in both spellings. -/
lemma tandem_registerEach {d : Datatype} {constructors : List Constructor}
    (hconstructors : ∀ c ∈ constructors, ∀ q, (d.constructorTy c).quantify = .ok q → q.Respelled ρ q)
    (hs : s.inference.Respelled ρ K s'.inference) (henv : s'.env = s.env) :
    InTandemIn ρ K (registerEach d constructors) (registerEach d constructors) (fun _ _ => True)
      s s' := by
  induction constructors generalizing s s' with
  | nil => exact ⟨henv, trivial, hs⟩
  | cons c constructors ih =>
    rw [List.forall_mem_cons] at hconstructors
    have hquantify : InTandem ρ K (Inference.quantify (d.constructorTy c))
        (Inference.quantify (d.constructorTy c)) (Ty.Respelled ρ) s.inference s'.inference := by
      rw [InTandem, Inference.quantify]
      cases hq : (d.constructorTy c).quantify with
      | ok q => exact tandem_pure hs (hconstructors.1 q hq)
      | error e => exact tandem_fail
    refine (tandem_lift hquantify henv).bind fun q s₁ q' s₁' h₁ => ?_
    refine (tandem_lift (tandem_track h₁.2.2 h₁.2.1) h₁.1).bind ?_
    rintro h s₂ _ s₂' ⟨henv₂, rfl, hs₂⟩
    refine (tandem_modifyValues hs₂ henv₂ _).bind fun _ s₃ _ s₃' h₃ => ?_
    exact ih hconstructors.2 h₃.2.2 h₃.1

lemma tandem_registerAll {ds : List Datatype}
    (hds : ∀ d ∈ ds, ∀ c ∈ d.constructors, ∀ q, (d.constructorTy c).quantify = .ok q →
      q.Respelled ρ q)
    (hs : s.inference.Respelled ρ K s'.inference) (henv : s'.env = s.env) :
    InTandemIn ρ K (registerAll ds) (registerAll ds) (fun _ _ => True) s s' := by
  induction ds generalizing s s' with
  | nil => exact ⟨henv, trivial, hs⟩
  | cons d ds ih =>
    rw [List.forall_mem_cons] at hds
    exact (tandem_registerEach hds.1 hs henv).bind fun _ _ _ _ h₁ => ih hds.2 h₁.2.2 h₁.1

end Declarations

/-! ### Types that stay -/

lemma Ty.mem_binders_function {x : String} {params : List Ty} {result : Ty}
    (hx : x ∈ (Ty.function params result).binders) :
    (∃ t ∈ params, x ∈ t.binders) ∨ x ∈ result.binders := by
  induction params with
  | nil => exact .inr hx
  | cons a params ih =>
    have hx : x ∈ [] ++ (a.binders ++ ((Ty.function params result).binders ++ [])) := hx
    rw [List.nil_append, List.append_nil, List.mem_append] at hx
    rcases hx with hx | hx
    · exact .inl ⟨a, List.mem_cons_self, hx⟩
    · rcases ih hx with ⟨t, ht, hx⟩ | hx
      · exact .inl ⟨t, List.mem_cons_of_mem _ ht, hx⟩
      · exact .inr hx

/-- A closed type that binds nothing inside but names that stay is the same in both spellings. -/
lemma Respells.respelled_self (hρ : Respells r met held ρ) {t : Ty} (hclosed : t.occurrences = [])
    (hinner : t.innerBinders ⊆ held) : t.Respelled ρ t :=
  .inr ⟨hclosed, id, Function.injective_id, fun x hx => (hρ.held x (hinner hx)).symm,
    t.rename_id.symm⟩

/-- The types of constructors are the same in both spellings. -/
lemma Respells.respelled_constructor (hρ : Respells r met held ρ) {group : List Datatype}
    (hgroup : ∀ d ∈ group, d.All fun t => t.binders ⊆ held) {kinds : List Kind} :
    ∀ d ∈ (fillDatatypes group kinds).1, ∀ c ∈ d.constructors, ∀ q,
      (d.constructorTy c).quantify = .ok q → q.Respelled ρ q := by
  intro d hd c hc q hq
  obtain ⟨d, hd', own, rfl⟩ := mem_fillDatatypes hd
  have hall := (hgroup d hd').fill (fun t kinds ht => by rwa [Ty.binders_fill]) own
  refine hρ.respelled_self (Ty.quantify_exact hq).1 fun x hx => ?_
  rw [Ty.innerBinders_quantify hq] at hx
  rcases Ty.mem_binders_function (Ty.innerBinders_subset _ hx) with ⟨t, ht, hx⟩ | hx
  · exact hall.field hc t ht hx
  · exact hall.head hx

section Declarations

variable {s s' : Session}

lemma tandem_declareTypes (group : List Datatype) (hs : s.inference.Respelled ρ K s'.inference)
    (henv : s'.env = s.env) : Alike (fun _ _ _ _ => True) (Beside (Spelled ρ K fun found found' =>
      found' = found ∧ ∃ kinds, found.2 = (fillDatatypes group kinds).1))
      (declareTypes group s) (declareTypes group s') := by
  cases hfound : inferGroup s.env.kinds group with
  | error e =>
    rw [declareTypes_of_error hfound, declareTypes_of_error (henv ▸ hfound)]
    trivial
  | ok found =>
    rw [declareTypes_of_ok hfound, declareTypes_of_ok (s := s') (henv ▸ hfound), henv]
    exact ⟨rfl, ⟨rfl, found.recorded, rfl⟩, hs.noted _ _⟩

lemma tandem_declareDatatypes (hρ : Respells r met held ρ) {group : List Datatype}
    (hgroup : ∀ d ∈ group, d.All fun t => t.binders ⊆ held)
    (hs : s.inference.Respelled ρ K s'.inference) (henv : s'.env = s.env) :
    InTandemIn ρ K (declareDatatypes group) (declareDatatypes group) (fun _ _ => True) s s' := by
  refine ((tandem_declareTypes group hs henv).adaptExcept fun _ _ _ _ _ => trivial).bind ?_
  rintro ⟨declared, ds⟩ s₁ _ s₁' ⟨henv₁, ⟨rfl, kinds, rfl⟩, hs₁⟩
  exact tandem_registerAll (hρ.respelled_constructor hgroup) hs₁ henv₁

/-- How a value is bound once it has a handle. -/
lemma tandem_boundValue (hρ : Respells r met held ρ) (config : Config)
    (name : String) {ascribed : Option Ty} (hascribed : ∀ q, ascribed = some q → q.Ascribable r ρ)
    {inferValue inferValue' : Env → InferM Ty}
    (hvalue : ∀ (env : Env) {s s' : Inference}, s.Respelled ρ K s' →
      InTandem ρ K (inferValue env) (inferValue' env) (Renames ρ) s s')
    {h : Handle} (hh : ascribed.any Ty.isScheme = false → K h)
    (hs : s.inference.Respelled ρ K s'.inference) (henv : s'.env = s.env) :
    InTandemIn ρ K
      (do modifyValues (config.bind name h)
          let env ← scopes
          let found ← inferValue env
          (settleTy env.values name ascribed h found : InferM Unit))
      (do modifyValues (config.bind name h)
          let env ← scopes
          let found ← inferValue' env
          (settleTy env.values name (ascribed.map (Ty.rename r)) h found : InferM Unit))
      (fun _ _ => True) s s' := by
  refine (tandem_modifyValues hs henv _).bind ?_
  rintro _ ⟨s₁, env⟩ _ ⟨s₁', _⟩ ⟨rfl, _, hs₁⟩
  rw [bind_of_ok (scopes_run _ _), bind_of_ok (scopes_run _ _)]
  refine (tandem_lift (hvalue _ hs₁) rfl).bind ?_
  rintro found s₂ _ s₂' ⟨henv₂, rfl, hs₂⟩
  exact tandem_lift (tandem_settleTy hρ hs₂ _ name hascribed hh found) henv₂

lemma tandem_bindValueWith (hρ : Respells r met held ρ) (config : Config)
    (name : String) {ascription : Option Ty}
    (hascription : ∀ t, ascription = some t → (spellingTest r met held).binding t)
    {inferValue inferValue' : Env → InferM Ty}
    (hvalue : ∀ (K : Handle → Prop) (env : Env) {s s' : Inference}, s.Respelled ρ K s' →
      InTandem ρ K (inferValue env) (inferValue' env) (Renames ρ) s s')
    (hs : s.inference.Respelled ρ K s'.inference) (henv : s'.env = s.env) :
    InTandemIn ρ K (bindValueWith config name ascription inferValue)
      (bindValueWith config name (ascription.map (Ty.rename r)) inferValue') (fun _ _ => True)
      s s' := by
  obtain ⟨s, env⟩ := s
  obtain ⟨s', _⟩ := s'
  obtain rfl := henv
  rw [InTandemIn, bindValueWith, bindValueWith, stepIn_of_ok (scopes_run _ _),
    stepIn_of_ok (scopes_run _ _)]
  refine (tandem_lift (tandem_ascribedTy hρ hs hascription _) rfl).bind ?_
  rintro ascribed s₁ _ s₁' ⟨henv₁, ⟨rfl, hascribed⟩, hs₁⟩
  by_cases hscheme : ascribed.any Ty.isScheme = false
  · refine (tandem_lift (tandem_provisionalTy hρ hs₁ hascribed hscheme) henv₁).bind ?_
    rintro t s₂ _ s₂' ⟨henv₂, rfl, hs₂⟩
    refine (tandem_lift (alike_track_own hs₂ t) henv₂).bind ?_
    rintro h s₃ _ s₃' ⟨henv₃, rfl, hs₃⟩
    refine (tandem_boundValue hρ config name hascribed (hvalue _) (fun _ => ?_) hs₃ henv₃).imp
      (fun _ _ _ _ _ => trivial) fun _ _ _ _ h₄ => ⟨h₄.1, trivial, h₄.2.2.mono fun _ => .inr⟩
    exact .inl (List.mem_singleton_self _)
  · -- Of a quantified type only instances are used, so that it may quantify over other names.
    cases ascribed with
    | none => exact absurd rfl hscheme
    | some q =>
      have hq := (hascribed q rfl).respelled hρ.source_injective
      refine (tandem_lift (tandem_pure hs₁ hq) henv₁).bind ?_
      intro t s₂ t' s₂' h₂
      refine (tandem_lift (tandem_track h₂.2.2 h₂.2.1) h₂.1).bind ?_
      rintro h s₃ _ s₃' ⟨henv₃, rfl, hs₃⟩
      exact tandem_boundValue hρ config name hascribed (hvalue _) (fun hno => absurd hno hscheme)
        hs₃ henv₃

end Declarations

end LetPoly
