import LetPoly.Proofs.Typing.Constructors

/-!
# Programs that can be inferred

What the typing rules do not ask for, but inference does: all ascriptions and local datatypes have
kinds, ascribed schemes use exactly the variables that they bind, and every pattern with captures
names a constructor and captures as many values as the type of the constructor takes. An `Outline`
is what has to be known for this of the names in scope.
-/

namespace LetPoly

open Inference

/-! ### Arities -/

/-- The number of parameters of a curried function type. -/
def Mono.arity : Mono → Nat
  | .node (.node (.leaf (.con name)) _) b => if name = Ty.arrowName then Mono.arity b + 1 else 0
  | _ => 0

lemma Mono.arity_bind {η : String → Mono} (hη : ∀ x, ∃ y, η x = .var y) :
    (τ : Mono) → Mono.arity (τ.bind η) = Mono.arity τ
  | .var x => by
    obtain ⟨y, hy⟩ := hη x
    rw [Tree.bind_var, hy]
    rfl
  | .leaf _ => rfl
  | .node (.var x) b => by
    obtain ⟨y, hy⟩ := hη x
    rw [Tree.bind_node, Tree.bind_var, hy]
    rfl
  | .node (.leaf _) b => rfl
  | .node (.node (.var x) a) b => by
    obtain ⟨y, hy⟩ := hη x
    rw [Tree.bind_node, Tree.bind_node, Tree.bind_var, hy]
    rfl
  | .node (.node (.leaf (.con name)) a) b => by
    rw [Tree.bind_node, Tree.bind_node, Tree.bind_leaf, Mono.arity, Mono.arity, arity_bind hη b]
  | .node (.node (.leaf .quantified) a) b => rfl
  | .node (.node (.node f c) a) b => rfl

/-- An application to three or more arguments is no function type. -/
lemma Mono.arity_foldl_node (f g a b : Mono) (args : List Mono) :
    Mono.arity (args.foldl .node (.node (.node (.node f g) a) b)) = 0 := by
  induction args generalizing f g a b with
  | nil => rfl
  | cons c args ih => exact ih (.node f g) a b c

/-- The arity of a type without quantifiers is that of its curried reading. -/
lemma Ty.arity_eq {t : Ty} (h : t.isFlat) : t.arity = Mono.arity t.mono := by
  fun_induction Ty.arity t with
  | case1 head a b harrow ih =>
    obtain ⟨_, _, hargs⟩ := isFlat_app.1 h
    cases head with
    | con name kind =>
      have hname : name = arrowName := by simpa [isArrowConstructor] using harrow
      rw [mono_app, ih (hargs b (by simp)), hname]
      rfl
    | var _ _ _ => simp [isArrowConstructor] at harrow
    | app _ _ => simp [isArrowConstructor] at harrow
    | scheme _ _ => simp [isArrowConstructor] at harrow
  | case2 head a b harrow =>
    obtain ⟨hatom, _, _⟩ := isFlat_app.1 h
    cases head with
    | con name kind =>
      have hname : name ≠ arrowName := by simpa [isArrowConstructor] using harrow
      rw [mono_app]
      exact (if_neg hname).symm
    | var _ _ _ =>
      rw [mono_app]
      rfl
    | app _ _ => simp [isAtom] at hatom
    | scheme _ _ => simp [isAtom] at hatom
  | case3 t hne =>
    cases t with
    | con _ _ => rfl
    | var _ _ _ => rfl
    | scheme _ _ => simp [isFlat] at h
    | app head args =>
      obtain ⟨hatom, hnil, _⟩ := isFlat_app.1 h
      rw [mono_app]
      obtain _ | ⟨a, _ | ⟨b, _ | ⟨c, args⟩⟩⟩ := args
      · exact absurd rfl hnil
      · cases head with
        | con _ _ => rfl
        | var _ _ _ => rfl
        | app _ _ => simp [isAtom] at hatom
        | scheme _ _ => simp [isAtom] at hatom
      · exact absurd rfl (hne head a b)
      · exact (Mono.arity_foldl_node _ _ _ _ _).symm

/-- Closed polytypes whose instances by new variables take the given number of arguments. -/
def Poly.HasArity (p : Poly) (n : Nat) : Prop :=
  p.Closed ∧ ∀ m, Mono.arity (p.inst fun i => .var (Ty.freshName (m + i))) = n

namespace Inference

/-- Handles of closed types of the given arity. -/
def ArityAt (s : Inference) (n : Nat) (h : Handle) : Prop :=
  ∃ t, s.term? h = some t ∧ t.poly.HasArity n

lemma Extends.arityAt {s s' : Inference} (hext : s.Extends s') {n : Nat} {h : Handle}
    (hh : s.ArityAt n h) : s'.ArityAt n h := by
  obtain ⟨t, ht, harity⟩ := hh
  obtain ⟨t', ht', _, hpoly⟩ := hext.keep ht
  exact ⟨t', ht', hpoly harity.1 ▸ harity⟩

lemma arityAt_iff {s : Inference} {n : Nat} {h : Handle} (hlive : s.Live h) :
    s.ArityAt n h ↔ (s.polyAt .var h).HasArity n := by
  obtain ⟨t, ht⟩ := hlive
  rw [polyAt_eq ht, Poly.subst_var, ArityAt]
  refine ⟨fun ⟨t', ht', harity⟩ => ?_, fun harity => ⟨t, ht, harity⟩⟩
  rw [ht] at ht'
  cases ht'
  exact harity

end Inference

/-! ### Outlines -/

/-- What is known of the names in scope without their types: how many values a constructor takes,
nothing of other values, and the kinds of type constructors. -/
structure Outline where
  arities : Scope (Option Nat)
  kinds : Scope Kind

/-- The constructors of a group of datatypes, each with the datatype that it belongs to. -/
def Datatype.constructorsOf (group : List Datatype) : List (Datatype × Constructor) :=
  group.flatMap fun d => d.constructors.map (d, ·)

/-- Bring constructors into scope, each with something that is read off it. -/
def enterWith {α : Type} (f : Datatype → Constructor → α) :
    List (Datatype × Constructor) → Scope α → Scope α
  | [], scope => scope
  | (d, c) :: rest, scope => enterWith f rest (scope.insert c.name (f d c))

lemma enterConstructors_eq (d : Datatype) (constructors : List Constructor) (Γ : Scope Poly) :
    enterConstructors d constructors Γ =
      enterWith (fun d c => (d.constructorTy c).signature) (constructors.map (d, ·)) Γ := by
  induction constructors generalizing Γ with
  | nil => rfl
  | cons c constructors ih => exact ih _

lemma enterWith_append {α : Type} (f : Datatype → Constructor → α)
    (cs cs' : List (Datatype × Constructor)) (scope : Scope α) :
    enterWith f (cs ++ cs') scope = enterWith f cs' (enterWith f cs scope) := by
  induction cs generalizing scope with
  | nil => rfl
  | cons c cs ih => exact ih _

lemma enterDatatypes_eq (group : List Datatype) (Γ : Scope Poly) : enterDatatypes group Γ =
    enterWith (fun d c => (d.constructorTy c).signature) (Datatype.constructorsOf group) Γ := by
  induction group generalizing Γ with
  | nil => rfl
  | cons d group ih =>
    rw [enterDatatypes, ih, enterConstructors_eq, ← enterWith_append]
    rfl

lemma Scope.Rel.enterWith {α β : Type} {R : α → β → Prop} {scope : Scope α} {scope' : Scope β}
    {f : Datatype → Constructor → α} {g : Datatype → Constructor → β}
    {cs : List (Datatype × Constructor)} (h : scope.Rel R scope')
    (hR : ∀ e ∈ cs, R (f e.1 e.2) (g e.1 e.2)) :
    (LetPoly.enterWith f cs scope).Rel R (LetPoly.enterWith g cs scope') := by
  induction cs generalizing scope scope' with
  | nil => exact h
  | cons e cs ih =>
    obtain ⟨he, hcs⟩ := List.forall_mem_cons.1 hR
    exact ih (h.insert _ he) hcs

/-- Instances of the signature of a constructor take as many values as its type. -/
lemma Datatype.arity_signature {group : List Datatype} (hrank : ∀ d ∈ group, d.isRankOne)
    {e : Datatype × Constructor} (he : e ∈ constructorsOf group) :
    (e.1.constructorTy e.2).signature.HasArity (e.1.constructorTy e.2).arity := by
  obtain ⟨d, hd, he⟩ := List.mem_flatMap.1 he
  obtain ⟨c, hc, rfl⟩ := List.mem_map.1 he
  have hd := hrank d hd
  rw [isRankOne, Bool.and_eq_true, List.all_eq_true] at hd
  have hflat := isFlat_constructorTy hd.1 (hd.2 c hc)
  refine ⟨Ty.closed_signature hflat, fun m => ?_⟩
  rw [Ty.signature_of_isFlat hflat, Poly.inst_close, Ty.arity_eq hflat, Mono.arity_bind]
  intro x
  split
  · exact ⟨_, rfl⟩
  · exact ⟨x, rfl⟩

namespace Outline

/-- The outline of the scopes inside. -/
def child (o : Outline) : Outline := ⟨o.arities.child, o.kinds.child⟩

/-- The outline with a new scope for values only. -/
def inner (o : Outline) : Outline := { o with arities := o.arities.child }

/-- Bring names into scope that are not constructors. -/
def hide (config : Config) : List String → Outline → Outline
  | [], o => o
  | name :: names, o => hide config names { o with arities := config.bind name none o.arities }

/-- Bring a group of datatypes into scope with the kinds found for it. -/
def enter (o : Outline) (group : List Datatype) (found : GroupKinds) : Outline :=
  ⟨enterWith (fun d c => some (d.constructorTy c).arity) (Datatype.constructorsOf group) o.arities,
    o.kinds.insertAll found.declared⟩

/-- The outline says of the constructors what their signatures say. -/
lemma rel_enter {group : List Datatype} (hrank : ∀ d ∈ group, d.isRankOne) {o : Outline}
    {Γ : Scope Poly} (h : o.arities.Rel (fun a p => ∀ n, a = some n → p.HasArity n) Γ)
    {s : Inference} {values : Scope Handle} (hlive : ∀ h ∈ values.values, s.Live h)
    (henv : s.envAt .var values = enterDatatypes group Γ) (found : GroupKinds) :
    (o.enter group found).arities.Rel (fun a h => ∀ n, a = some n → s.ArityAt n h) values := by
  have hrel : (o.enter group found).arities.Rel (fun a p => ∀ n, a = some n → p.HasArity n)
      (values.map (s.polyAt .var)) := by
    rw [show values.map (s.polyAt .var) = _ from henv, enterDatatypes_eq]
    refine h.enterWith fun e he n hn => ?_
    cases hn
    exact Datatype.arity_signature hrank he
  exact (Scope.Rel.map_right.1 hrel).imp fun a h hh ha n hn =>
    (arityAt_iff (hlive h hh)).2 (ha n hn)

end Outline

/-- The names of the values that declarations bring into scope. -/
def Decl.valueNames (decls : List Decl) : List String :=
  decls.filterMap fun
    | .value name _ _ _ => some name
    | _ => none

/-- Whether the ascription has kind `*`. -/
def Ty.hasKind (kinds : Scope Kind) (t : Ty) : Bool := (checkAscription kinds t).2.isOk

/-- Whether the ascription of a value has kind `*` and can be closed. -/
def Ty.isSignature (kinds : Scope Kind) (t : Ty) : Bool := t.hasKind kinds && t.quantify.isOk

/-- Whether the pattern captures as many values as its constructor takes. -/
def Pattern.fits (arities : Scope (Option Nat)) : Pattern → Bool
  | .data name captures => arities.lookup name == some (some captures.length)
  | _ => true

/-- The names that a pattern captures. -/
def Pattern.captured : Pattern → List String
  | .capture name => [name]
  | .data _ captures => captures
  | _ => []

mutual
/-- Whether ascriptions, local datatypes and patterns are in order. -/
def Expr.isAdmissible (config : Config) (o : Outline) : Expr → Bool
  | .literal _ => true
  | .ident _ => true
  | .internal _ => true
  | .app func arg => func.isAdmissible config o && arg.isAdmissible config o
  | .function params body => (params.all fun p => p.ascription.all (Ty.hasKind o.kinds)) &&
      body.isAdmissible config (o.inner.hide config (params.map Param.name))
  | .guards branches otherwise =>
    Expr.areAdmissible config o branches && otherwise.isAdmissible config o
  | .cases scrutinee arms =>
    scrutinee.isAdmissible config o && Expr.areAdmissibleArms config o arms
  | .letIn decls body =>
    match inferGroup o.kinds.child (Decl.datatypes decls) with
    | .error _ => false
    | .ok found =>
      let o := o.child.enter (Decl.datatypes decls) found
      Decl.areAdmissible config o decls &&
        body.isAdmissible config (o.hide config (Decl.valueNames decls))

/-- Whether guarded branches are in order. -/
def Expr.areAdmissible (config : Config) (o : Outline) : List (Expr × Expr) → Bool
  | [] => true
  | (condition, branch) :: branches => condition.isAdmissible config o &&
      branch.isAdmissible config o && Expr.areAdmissible config o branches

/-- Whether match arms are in order. -/
def Expr.areAdmissibleArms (config : Config) (o : Outline) : List (Pattern × Expr) → Bool
  | [] => true
  | (pattern, body) :: arms => pattern.fits o.arities &&
      body.isAdmissible config (o.inner.hide config pattern.captured) &&
      Expr.areAdmissibleArms config o arms

/-- Whether declarations are in order. -/
def Decl.areAdmissible (config : Config) (o : Outline) : List Decl → Bool
  | [] => true
  | .value name ascription value _ :: decls => ascription.all (Ty.isSignature o.kinds) &&
      value.isAdmissible config (o.hide config [name]) &&
      Decl.areAdmissible config (o.hide config [name]) decls
  | .datatype _ :: decls => Decl.areAdmissible config o decls
  | .fixity _ :: decls => Decl.areAdmissible config o decls
end

end LetPoly
