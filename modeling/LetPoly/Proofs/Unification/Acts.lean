import LetPoly.Proofs.Kind.Curried
import LetPoly.Proofs.Ty.Curried
import LetPoly.Unification.Unifier

/-!
# Substitutions of flat terms

Kinds and types both have simultaneous substitutions (`Kind.bindAll`, `Ty.bindAll`). `Acts` collects
what the two algebras have in common: how substitutions of flat terms are carried out, and what they
amount to on curried trees. In these words, a queue has a unifier iff it is worked off without a
failure (`Acts.unifiable_iff`), and the bindings of a run are a substitution like any other
(`Acts.lift_applyBindings`).
-/

namespace LetPoly

open Curried Term

/-! ### Simultaneous substitution -/

namespace Kind

mutual
/-- Put kinds for all variables at once. -/
def bindAll (σ : KindVar → Kind) : Kind → Kind
  | .atomic => .atomic
  | .var v => σ v
  | .chain links => function (bindAllList σ links)

/-- Put kinds for all variables in each kind of a list. -/
def bindAllList (σ : KindVar → Kind) : List Kind → List Kind
  | [] => []
  | k :: links => bindAll σ k :: bindAllList σ links
end

lemma bindAllList_eq_map (σ : KindVar → Kind) (links : List Kind) :
    bindAllList σ links = links.map (bindAll σ) := by
  induction links with
  | nil => rfl
  | cons k links ih => rw [bindAllList, ih, List.map_cons]

section BindAll

variable {σ : KindVar → Kind}

mutual
/-- Substitutions carry over to trees, unless they put chains without links. -/
lemma tree_bindAll (hσ : ∀ v, σ v ≠ .chain []) : (k : Kind) → k.isFlat →
    bindAll σ k ≠ .chain [] ∧ (bindAll σ k).tree = k.tree.bind fun v => (σ v).tree
  | .atomic, _ => ⟨nofun, rfl⟩
  | .var v, _ => ⟨hσ v, rfl⟩
  | .chain links, h => by
    obtain ⟨hlen, hlinks⟩ := isFlat_chain.1 h
    obtain ⟨hnil, htree⟩ := treeLinks_bindAllList hσ links (isFlat_of_mem hlinks)
    have hlen' : 2 ≤ (bindAllList σ links).length := by rwa [bindAllList_eq_map, List.length_map]
    have hne : bindAllList σ links ≠ [] := List.ne_nil_of_length_pos (by omega)
    rw [bindAll, tree, tree_function_of_not_mem hne hnil]
    exact ⟨function_ne_chain_nil hlen' hnil, htree⟩

lemma treeLinks_bindAllList (hσ : ∀ v, σ v ≠ .chain []) : (links : List Kind) →
    (∀ k ∈ links, k.isFlat) → .chain [] ∉ bindAllList σ links ∧
      treeLinks (bindAllList σ links) = (treeLinks links).bind fun v => (σ v).tree
  | [], _ => ⟨List.not_mem_nil, rfl⟩
  | [k], h => by
    obtain ⟨hk, htree⟩ := tree_bindAll hσ k (h k List.mem_cons_self)
    exact ⟨fun hmem => hk (List.mem_singleton.1 hmem).symm, htree⟩
  | k :: k' :: links, h => by
    obtain ⟨hk, htree⟩ := tree_bindAll hσ k (h k List.mem_cons_self)
    obtain ⟨hnil, htrees⟩ := treeLinks_bindAllList hσ (k' :: links)
      (fun k hk => h k (List.mem_cons_of_mem _ hk))
    rw [bindAllList, treeLinks_cons _ (by simp [bindAllList]), treeLinks_cons _ (by simp), htree,
      htrees, Tree.bind_node]
    exact ⟨List.not_mem_cons_of_ne_of_not_mem hk.symm hnil, rfl⟩
end

mutual
lemma isFlat_bindAll (hσ : ∀ v, (σ v).isFlat) : {k : Kind} → k.isFlat → (bindAll σ k).isFlat
  | .atomic, _ => rfl
  | .var v, _ => hσ v
  | .chain links, h => by
    have hlinks := (isFlat_chain.1 h).2
    rw [bindAll]
    refine isFlat_function ?_ (isFlat_bindAllList hσ (isFlat_of_mem hlinks))
    rw [bindAllList_eq_map]
    exact fun h => ne_nil_of_isFlatLinks hlinks (List.map_eq_nil_iff.1 h)

lemma isFlat_bindAllList (hσ : ∀ v, (σ v).isFlat) : {links : List Kind} →
    (∀ k ∈ links, k.isFlat) → ∀ k ∈ bindAllList σ links, k.isFlat
  | [], _ => by simp [bindAllList]
  | k :: links, h => by
    rw [bindAllList, List.forall_mem_cons]
    exact ⟨isFlat_bindAll hσ (h k List.mem_cons_self),
      isFlat_bindAllList hσ fun k hk => h k (List.mem_cons_of_mem _ hk)⟩
end

lemma bindAll_spec (hσ : ∀ v, (σ v).isFlat) (k : Kind) (hk : k.isFlat) :
    (bindAll σ k).isFlat ∧ (bindAll σ k).tree = k.tree.bind fun v => (σ v).tree :=
  ⟨isFlat_bindAll hσ hk, (tree_bindAll (fun v => ne_chain_nil_of_isFlat (hσ v)) k hk).2⟩

lemma bindAllList_spec (hσ : ∀ v, (σ v).isFlat) (links : List Kind)
    (h : ∀ k ∈ links, k.isFlat) : (∀ k ∈ bindAllList σ links, k.isFlat) ∧
      treeLinks (bindAllList σ links) = (treeLinks links).bind fun v => (σ v).tree :=
  ⟨isFlat_bindAllList hσ h,
    (treeLinks_bindAllList (fun v => ne_chain_nil_of_isFlat (hσ v)) links h).2⟩

end BindAll

end Kind

namespace Ty

mutual
/-- Put types for all free solvable variables at once. -/
def bindAll (σ : String → Ty) : Ty → Ty
  | .con name kind => .con name kind
  | .var name .solvable _ => σ name
  | .var name .rigid kind => .var name .rigid kind
  | .app head args => apply (bindAll σ head) (bindAllList σ args)
  | .scheme vars body =>
    .scheme vars (bindAll (fun x => if x ∈ vars then .var x .solvable none else σ x) body)

/-- Put types for all free solvable variables in each type of a list. -/
def bindAllList (σ : String → Ty) : List Ty → List Ty
  | [] => []
  | a :: args => bindAll σ a :: bindAllList σ args
end

/-- What a substitution of solvable variables amounts to on the variables of trees. -/
def treeSubst (σ : String → Ty) (v : TyVar) : Tree TyAtom TyVar :=
  match v.sort with
  | .solvable => (σ v.name).tree
  | .rigid => .var v

mutual
lemma bindAll_spec {σ : String → Ty} (hσ : ∀ v, (σ v).isFlat) : (t : Ty) → t.isFlat →
    (bindAll σ t).isFlat ∧ (bindAll σ t).tree = t.tree.bind (treeSubst σ)
  | .con _ _, _ => ⟨rfl, rfl⟩
  | .var n .solvable _, _ => ⟨hσ n, rfl⟩
  | .var n .rigid _, _ => ⟨rfl, rfl⟩
  | .app head args, h => by
    obtain ⟨hatom, _, hargs⟩ := isFlat_app.1 h
    obtain ⟨hflat, htree⟩ := bindAll_spec hσ head (isFlat_of_isAtom hatom)
    obtain ⟨hflats, htrees⟩ := bindAllList_spec hσ args hargs
    rw [bindAll, tree_apply, htree, htrees, tree_app, Tree.bind_foldl_node]
    exact ⟨isFlat_apply hflat hflats, rfl⟩
  | .scheme _ _, h => by simp [isFlat] at h

lemma bindAllList_spec {σ : String → Ty} (hσ : ∀ v, (σ v).isFlat) : (args : List Ty) →
    (∀ a ∈ args, a.isFlat) → (∀ a ∈ bindAllList σ args, a.isFlat) ∧
      (bindAllList σ args).map tree = (args.map tree).map (Tree.bind (treeSubst σ))
  | [], _ => by simp [bindAllList]
  | a :: args, h => by
    obtain ⟨hflat, htree⟩ := bindAll_spec hσ a (h a List.mem_cons_self)
    obtain ⟨hflats, htrees⟩ := bindAllList_spec hσ args
      (fun b hb => h b (List.mem_cons_of_mem _ hb))
    rw [bindAllList, List.forall_mem_cons, List.map_cons, List.map_cons, List.map_cons, htree,
      htrees]
    exact ⟨⟨hflat, hflats⟩, rfl⟩
end

end Ty

/-! ### What the algebras have in common -/

variable {T V C X O : Type} [Term T V] [BEq T] [DecidableEq X] [Curried T V C X]

/-- Substitutions of the terms that pass `flat`, carried out by `act`. A variable is made a term by
`var`, and `lift` is what a substitution amounts to on trees. -/
structure Acts (flat : T → Bool) (act : (V → T) → T → T) (var : V → T)
    (lift : (V → T) → X → Tree C X) : Prop where
  flat_iff (t : T) : flat t ↔ Flat t
  spec {s : V → T} {t : T} : (∀ v, Flat (s v)) → Flat t →
    Flat (act s t) ∧ read (act s t) = (read t).bind (lift s)
  var (v : V) : Flat (var v) ∧ read (var v) = .var (unknown T v)
  unknown (s : V → T) (v : V) : lift s (unknown T v) = read (s v)
  rigid (s : V → T) {x : X} : IsRigid T x → lift s x = .var x

/-- The substitution, carried out by `act`, makes the two sides of every equation equal. -/
def Unifier.Unifies (act : (V → T) → T → T) (s : V → T) (queue : List (Equation T O)) : Prop :=
  ∀ e ∈ queue, (act s e.left == act s e.right) = true

/-- Some substitution of flat terms makes the two sides of every equation equal. -/
def Unifiable (flat : T → Bool) (act : (V → T) → T → T) (queue : List (Equation T O)) : Prop :=
  ∃ s : V → T, (∀ v, flat (s v)) ∧ Unifier.Unifies act s queue

omit [Term T V] in
lemma Unifiable.of_subset {flat : T → Bool} {act : (V → T) → T → T}
    {queue queue' : List (Equation T O)} (h : Unifiable flat act queue) (hsub : queue' ⊆ queue) :
    Unifiable flat act queue' := by
  obtain ⟨s, hs, hunifies⟩ := h
  exact ⟨s, hs, fun e he => hunifies e (hsub he)⟩

namespace Acts

variable {flat : T → Bool} {act : (V → T) → T → T} {var : V → T} {lift : (V → T) → X → Tree C X}
  {queue : List (Equation T O)}

/-- Unifiers are the substitutions that solve the queue as trees. -/
lemma unifies_iff (h : Acts flat act var lift) {s : V → T} (hs : ∀ v, Flat (s v))
    (hqueue : ∀ e ∈ queue, e.Flat) : Unifier.Unifies act s queue ↔ Solves (lift s) queue := by
  refine forall₂_congr fun e he => ?_
  obtain ⟨hfl, hrl⟩ := h.spec hs (hqueue e he).1
  obtain ⟨hfr, hrr⟩ := h.spec hs (hqueue e he).2
  rw [beq_iff hfl hfr, hrl, hrr]
  rfl

/-- Substitutions that agree on trees are carried out alike. -/
lemma act_beq_iff (h : Acts flat act var lift) {s : V → T} {t t' : T} (hs : ∀ v, Flat (s v))
    (ht : Flat t) (ht' : Flat t') :
    (t' == act s t) = true ↔ read t' = (read t).bind (lift s) := by
  obtain ⟨hflat, hread⟩ := h.spec hs ht
  rw [beq_iff ht' hflat, hread]

section Bindings

variable [DecidableEq V] {bindings : List (V × T)}

lemma flat_applyBindings (h : Acts flat act var lift) (hb : ∀ b ∈ bindings, Flat b.2) (v : V) :
    Flat (applyBindings bindings (var v)) :=
  LetPoly.flat_applyBindings hb (h.var v).1

/-- Bindings amount to the substitution of what they make of the variables. -/
lemma lift_applyBindings (h : Acts flat act var lift) (hb : ∀ b ∈ bindings, Flat b.2) :
    lift (fun v => applyBindings bindings (var v)) = bindingSubst bindings := by
  funext x
  by_cases hx : ∃ v, x = Curried.unknown T v
  · obtain ⟨v, rfl⟩ := hx
    rw [h.unknown, read_applyBindings hb (h.var v).1, (h.var v).2, Tree.bind_var]
  · have hrigid : IsRigid T x := fun v hv => hx ⟨v, hv⟩
    rw [h.rigid _ hrigid, bindingSubst_eq_var fun b _ => hrigid b.1]

end Bindings

/-- The bindings of a run without a failure unify the queue. -/
lemma unifies_solve [DecidableEq V] [LawfulTerm T V] (h : Acts flat act var lift)
    (hqueue : ∀ e ∈ queue, e.Flat) (hok : (solve queue).failure = none) :
    Unifier.Unifies act (fun v => applyBindings (solve queue).bindings (var v)) queue := by
  rw [h.unifies_iff (h.flat_applyBindings (solve_flat hqueue)) hqueue,
    h.lift_applyBindings (solve_flat hqueue)]
  exact solve_solves hqueue hok

/-- A queue has a unifier iff it is worked off without a failure. -/
lemma unifiable_iff [DecidableEq V] [LawfulTerm T V] (h : Acts flat act var lift)
    (hqueue : ∀ e ∈ queue, e.Flat) :
    Unifiable flat act queue ↔ (solve queue).failure = none := by
  constructor
  · rintro ⟨s, hs, hunifies⟩
    have hs' : ∀ v, Flat (s v) := fun v => (h.flat_iff _).1 (hs v)
    refine solve_succeeds hqueue (S := fun _ => True) (fun _ _ _ _ => trivial)
      ((h.unifies_iff hs' hqueue).1 hunifies) ⟨fun _ hx => ⟨_, h.rigid s hx⟩, ?_⟩
    intro x x' _ _ hx hx' heq
    rw [h.rigid s hx, h.rigid s hx'] at heq
    exact Tree.var.inj heq
  · intro hok
    exact ⟨_, fun v => (h.flat_iff _).2 (h.flat_applyBindings (solve_flat hqueue) v),
      h.unifies_solve hqueue hok⟩

end Acts

lemma Kind.acts : Acts Kind.isFlat Kind.bindAll Kind.var fun s v => (s v).tree where
  flat_iff _ := Iff.rfl
  spec hs ht := Kind.bindAll_spec hs _ ht
  var _ := ⟨rfl, rfl⟩
  unknown _ _ := rfl
  rigid _ {x} hx := (hx x rfl).elim

lemma Ty.acts : Acts Ty.isFlat Ty.bindAll (fun v => .var v .solvable none) Ty.treeSubst where
  flat_iff _ := Iff.rfl
  spec hs ht := Ty.bindAll_spec hs _ ht
  var _ := ⟨rfl, rfl⟩
  unknown _ _ := rfl
  rigid _ {x} hx := by
    obtain ⟨name, sort⟩ := x
    cases sort with
    | rigid => rfl
    | solvable => exact (hx name rfl).elim

end LetPoly
