import LetPoly.Proofs.Scope
import LetPoly.Proofs.Ty.Poly
import LetPoly.Typing.Declare
import Mathlib.Data.List.Forall2

/-!
# Declarative typing

The rules of Hindley and Milner for the expressions and declarations of the language, without any
word on how types are found. A name has every instance of its polytype; parameters and captures
are monomorphic; a value is monomorphic in its own definition and then quantified over names that
are not free in the environment, unless it is ascribed: then it has the ascribed polytype
throughout, and its definition is of the ascribed type with distinct names for the quantified
variables, again not free in the environment.

`isRankOne` singles out the programs that the rules speak of: quantifiers stand at the top of
ascriptions of values only, and parameters are ascribed closed types.
-/

namespace LetPoly

/-- A name that is free in the type of something in scope. -/
def Scope.Free (x : String) (Γ : Scope Poly) : Prop := ∃ p ∈ Γ.values, p.Free x

/-- Any number of names that are not free in scope and differ from each other and from those of a
list. -/
lemma Scope.exists_fresh_names (Γ : Scope Poly) (n : Nat) (avoid : List String) :
    ∃ names : List String, names.length = n ∧ names.Nodup ∧
      ∀ x ∈ names, ¬ Γ.Free x ∧ x ∉ avoid := by
  obtain ⟨names, hlen, hnodup, hnames⟩ := LetPoly.exists_fresh_names n
    (Γ.values.flatMap (fun p => p.vars.filterMap Sum.getRight?) ++ avoid)
  refine ⟨names, hlen, hnodup, fun x hx => ?_⟩
  have hx' := hnames x hx
  rw [List.mem_append, not_or] at hx'
  refine ⟨?_, hx'.2⟩
  rintro ⟨p, hp, hfree⟩
  exact hx'.1 (List.mem_flatMap.2 ⟨p, hp, List.mem_filterMap.2 ⟨.inr x, hfree, rfl⟩⟩)

lemma Config.free_bind {config : Config} {name x : String} {p : Poly} {Γ : Scope Poly}
    (h : (config.bind name p Γ).Free x) : p.Free x ∨ Γ.Free x := by
  obtain ⟨q, hq, hx⟩ := h
  rcases mem_values_bind hq with rfl | hq
  · exact Or.inl hx
  · exact Or.inr ⟨q, hq, hx⟩

/-- Bring names into scope with monotypes. -/
def bindMonos (config : Config) : List (String × Mono) → Scope Poly → Scope Poly
  | [], Γ => Γ
  | (name, τ) :: rest, Γ => bindMonos config rest (config.bind name (.ofMono τ) Γ)

/-- Bring constructors of a datatype into scope. -/
def enterConstructors (d : Datatype) : List Constructor → Scope Poly → Scope Poly
  | [], Γ => Γ
  | c :: constructors, Γ =>
    enterConstructors d constructors (Γ.insert c.name (d.constructorTy c).signature)

/-- Bring the constructors of datatypes into scope. -/
def enterDatatypes : List Datatype → Scope Poly → Scope Poly
  | [], Γ => Γ
  | d :: ds, Γ => enterDatatypes ds (enterConstructors d d.constructors Γ)

/-- A monotype that a parameter may have. -/
def Param.Accepts (p : Param) (τ : Mono) : Prop := ∀ t, p.ascription = some t → τ = t.mono

/-- `HasPattern config Γ pattern τ Γ'`: the pattern fits scrutinees of type `τ`, and brings `Γ` to
`Γ'`. -/
inductive HasPattern (config : Config) (Γ : Scope Poly) : Pattern → Mono → Scope Poly → Prop
  | capture (name : String) (τ : Mono) :
    HasPattern config Γ (.capture name) τ (config.bind name (.ofMono τ) Γ)
  | literal (value : Literal) : HasPattern config Γ (.literal value) value.ty.mono Γ
  | constructor {name : String} {p : Poly} {τ : Mono} : Γ.lookup name = some p →
    p.Instance τ → HasPattern config Γ (.constructor name) τ Γ
  | data {name : String} {captures : List String} {p : Poly} {fields : List Mono} {τ : Mono} :
    Γ.lookup name = some p → fields.length = captures.length →
    p.Instance (.function fields τ) →
    HasPattern config Γ (.data name captures) τ (bindMonos config (captures.zip fields) Γ)

mutual
/-- `HasType config Γ e τ`: the expression has the type `τ` in `Γ`. -/
inductive HasType (config : Config) : Scope Poly → Expr → Mono → Prop
  | literal (Γ : Scope Poly) (value : Literal) : HasType config Γ (.literal value) value.ty.mono
  | ident {Γ : Scope Poly} {name : String} {p : Poly} {τ : Mono} : Γ.lookup name = some p →
    p.Instance τ → HasType config Γ (.ident name) τ
  | internal {Γ : Scope Poly} {name : String} {t : Ty} {τ : Mono} :
    config.prelude.internals.find? name = some t → t.poly.Instance τ →
    HasType config Γ (.internal name) τ
  | app {Γ : Scope Poly} {func arg : Expr} {σ τ : Mono} : HasType config Γ func (.arrow σ τ) →
    HasType config Γ arg σ → HasType config Γ (.app func arg) τ
  | function {Γ : Scope Poly} {params : List Param} {body : Expr} {types : List Mono} {τ : Mono} :
    List.Forall₂ Param.Accepts params types →
    HasType config (bindMonos config ((params.map Param.name).zip types) Γ.child) body τ →
    HasType config Γ (.function params body) (.function types τ)
  | guards {Γ : Scope Poly} {branches : List (Expr × Expr)} {otherwise : Expr} {τ : Mono} :
    HasBranches config Γ branches τ → HasType config Γ otherwise τ →
    HasType config Γ (.guards branches otherwise) τ
  | cases {Γ : Scope Poly} {scrutinee : Expr} {arms : List (Pattern × Expr)} {σ τ : Mono} :
    HasType config Γ scrutinee σ → HasArms config Γ arms σ τ →
    HasType config Γ (.cases scrutinee arms) τ
  | letIn {Γ Γ' : Scope Poly} {decls : List Decl} {body : Expr} {τ : Mono} :
    HasDecls config (enterDatatypes (Decl.datatypes decls) Γ.child) decls Γ' →
    HasType config Γ' body τ → HasType config Γ (.letIn decls body) τ

/-- Conditions are truth values, and all branches have the type `τ`. -/
inductive HasBranches (config : Config) : Scope Poly → List (Expr × Expr) → Mono → Prop
  | nil (Γ : Scope Poly) (τ : Mono) : HasBranches config Γ [] τ
  | cons {Γ : Scope Poly} {condition branch : Expr} {branches : List (Expr × Expr)} {τ : Mono} :
    HasType config Γ condition Ty.bool.mono → HasType config Γ branch τ →
    HasBranches config Γ branches τ → HasBranches config Γ ((condition, branch) :: branches) τ

/-- The patterns fit scrutinees of type `σ`, and all arms have the type `τ`. -/
inductive HasArms (config : Config) : Scope Poly → List (Pattern × Expr) → Mono → Mono → Prop
  | nil (Γ : Scope Poly) (σ τ : Mono) : HasArms config Γ [] σ τ
  | cons {Γ Γ' : Scope Poly} {pattern : Pattern} {body : Expr} {arms : List (Pattern × Expr)}
    {σ τ : Mono} : HasPattern config Γ.child pattern σ Γ' → HasType config Γ' body τ →
    HasArms config Γ arms σ τ → HasArms config Γ ((pattern, body) :: arms) σ τ

/-- `HasDecls config Γ decls Γ'`: the values declared bring `Γ` to `Γ'`, one after the other. -/
inductive HasDecls (config : Config) : Scope Poly → List Decl → Scope Poly → Prop
  | nil (Γ : Scope Poly) : HasDecls config Γ [] Γ
  | infer {Γ Γ' : Scope Poly} {name : String} {value : Expr} {position : Span}
    {decls : List Decl} {names : List String} {τ : Mono} :
    HasType config (config.bind name (.ofMono τ) Γ) value τ →
    (∀ x ∈ names, ¬ (config.bind name (.close names τ) Γ).Free x) →
    HasDecls config (config.bind name (.close names τ) Γ) decls Γ' →
    HasDecls config Γ (.value name none value position :: decls) Γ'
  | check {Γ Γ' : Scope Poly} {name : String} {t : Ty} {value : Expr} {position : Span}
    {decls : List Decl} {names : List String} :
    names.Nodup → names.length = t.toScheme.vars.names.length →
    (∀ x ∈ names, ¬ (config.bind name t.signature Γ).Free x) →
    HasType config (config.bind name t.signature Γ) value (t.signature.instNames names) →
    HasDecls config (config.bind name t.signature Γ) decls Γ' →
    HasDecls config Γ (.value name (some t) value position :: decls) Γ'
  | datatype {Γ Γ' : Scope Poly} {d : Datatype} {decls : List Decl} :
    HasDecls config Γ decls Γ' → HasDecls config Γ (.datatype d :: decls) Γ'
  | fixity {Γ Γ' : Scope Poly} {f : Fixity} {decls : List Decl} :
    HasDecls config Γ decls Γ' → HasDecls config Γ (.fixity f :: decls) Γ'
end

/-! ### Programs of rank one -/

/-- Whether the type is prenex and has no free variables. -/
def Ty.isSentence (t : Ty) : Bool := t.isPrenex && t.freeVars.isEmpty

/-- Whether the prelude gives closed polytypes to its values. -/
def Prelude.isRankOne (p : Prelude) : Bool :=
  p.internals.values.all Ty.isSentence && p.values.values.all Ty.isSentence

/-- Whether the ascription, if any, is closed and without quantifiers. -/
def Param.isRankOne (p : Param) : Bool := p.ascription.all fun t => t.isFlat && t.freeVars.isEmpty

/-- Whether the head and all fields are without quantifiers. -/
def Datatype.isRankOne (d : Datatype) : Bool :=
  d.head.isFlat && d.constructors.all fun c => c.fields.all Ty.isFlat

lemma Ty.isSentence_iff {t : Ty} : t.isSentence ↔ t.isPrenex ∧ t.poly.Closed := by
  rw [isSentence, Bool.and_eq_true]
  refine and_congr_right fun hprenex => ?_
  rw [NameSet.isEmpty, List.isEmpty_iff, List.eq_nil_iff_forall_not_mem]
  exact forall_congr' fun x => not_congr (free_poly_iff hprenex).symm

lemma Prelude.isSentence_of_internal {p : Prelude} (hp : p.isRankOne) {name : String} {t : Ty}
    (h : p.internals.find? name = some t) : t.isSentence := by
  rw [isRankOne, Bool.and_eq_true, List.all_eq_true] at hp
  exact hp.1 t (List.mem_map_of_mem (f := Prod.snd) (Table.mem_of_lookup h))

lemma Param.isRankOne_iff {p : Param} : p.isRankOne ↔
    ∀ t, p.ascription = some t → t.isFlat ∧ t.poly.Closed := by
  obtain ⟨name, ascription⟩ := p
  cases ascription with
  | none => simp [isRankOne]
  | some t =>
    simp only [isRankOne, Option.all_some, Bool.and_eq_true, Option.some.injEq, forall_eq']
    refine and_congr_right fun hflat => ?_
    have := Ty.isSentence_iff (t := t)
    rw [Ty.isSentence, Bool.and_eq_true] at this
    have hprenex := Ty.isPrenex_of_isFlat hflat
    tauto

mutual
/-- Whether quantifiers stand at the top of ascriptions of values only. -/
def Expr.isRankOne : Expr → Bool
  | .literal _ => true
  | .ident _ => true
  | .internal _ => true
  | .app func arg => func.isRankOne && arg.isRankOne
  | .function params body => params.all Param.isRankOne && body.isRankOne
  | .guards branches otherwise => Expr.isRankOneBranches branches && otherwise.isRankOne
  | .cases scrutinee arms => scrutinee.isRankOne && Expr.isRankOneArms arms
  | .letIn decls body => Decl.isRankOneList decls && body.isRankOne

/-- Whether all branches are of rank one. -/
def Expr.isRankOneBranches : List (Expr × Expr) → Bool
  | [] => true
  | (condition, branch) :: branches =>
    condition.isRankOne && branch.isRankOne && Expr.isRankOneBranches branches

/-- Whether all arms are of rank one. -/
def Expr.isRankOneArms : List (Pattern × Expr) → Bool
  | [] => true
  | (_, body) :: arms => body.isRankOne && Expr.isRankOneArms arms

/-- Whether all declarations are of rank one. -/
def Decl.isRankOneList : List Decl → Bool
  | [] => true
  | .value _ ascription value _ :: decls =>
    ascription.all Ty.isPrenex && value.isRankOne && Decl.isRankOneList decls
  | .datatype d :: decls => d.isRankOne && Decl.isRankOneList decls
  | .fixity _ :: decls => Decl.isRankOneList decls
end

end LetPoly
