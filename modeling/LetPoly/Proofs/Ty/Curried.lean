import LetPoly.Proofs.Unification.Mgu
import LetPoly.Ty.Unify

/-!
# Types as curried types

An application `T(a₁, ..., aₙ)` is read as `T` applied to one argument after the other, and kinds
recorded in a type are forgotten. On flat types, which have no quantifier and whose applications
have arguments and a constructor or variable as their head, the reading identifies exactly the types
that are equal (`==`), and the operations on applications are the ordinary ones on trees.

`Ty.curry` is the reading with free choice of what a variable is read as.
-/

namespace LetPoly

/-- The constants of curried types: constructors, and one for all quantified types. -/
inductive TyAtom where
  | con (name : String)
  | quantified
  deriving DecidableEq

/-- A type variable with its sort. -/
structure TyVar where
  name : String
  sort : VarSort
  deriving DecidableEq

namespace Tree

variable {C X Y : Type}

/-- The number of arguments that the head of an application is applied to. -/
def spine : Tree C X → Nat
  | .node l _ => l.spine + 1
  | _ => 0

lemma spine_foldl_node (h : Tree C X) (args : List (Tree C X)) :
    (args.foldl node h).spine = h.spine + args.length := by
  induction args generalizing h with
  | nil => rfl
  | cons a args ih =>
    rw [List.foldl_cons, ih, spine, List.length_cons]
    omega

lemma spine_eq_zero {h : Tree C X} (hh : h.isNode = false) : h.spine = 0 := by
  cases h with
  | node l r => simp [isNode] at hh
  | leaf c => rfl
  | var x => rfl

/-- Applications to equally many arguments are equal iff heads and arguments are. -/
lemma foldl_node_inj {h g : Tree C X} {as bs : List (Tree C X)} (hlen : as.length = bs.length) :
    as.foldl node h = bs.foldl node g ↔ h = g ∧ as = bs := by
  induction as generalizing h g bs with
  | nil =>
    cases bs with
    | nil => simp
    | cons b bs => simp at hlen
  | cons a as ih =>
    cases bs with
    | nil => simp at hlen
    | cons b bs =>
      rw [List.foldl_cons, List.foldl_cons, ih (by simpa using hlen), node.injEq, List.cons.injEq,
        and_assoc]

/-- Applications whose heads are no applications are equal iff heads and arguments are. -/
lemma foldl_node_inj_of_head {h g : Tree C X} (hh : h.isNode = false) (hg : g.isNode = false)
    {as bs : List (Tree C X)} : as.foldl node h = bs.foldl node g ↔ h = g ∧ as = bs := by
  constructor
  · intro heq
    refine (foldl_node_inj ?_).1 heq
    have hspine := congrArg spine heq
    rw [spine_foldl_node, spine_foldl_node, spine_eq_zero hh, spine_eq_zero hg] at hspine
    omega
  · rintro ⟨rfl, rfl⟩
    rfl

lemma bind_foldl_node (θ : X → Tree C Y) (h : Tree C X) (args : List (Tree C X)) :
    (args.foldl node h).bind θ = (args.map (bind θ)).foldl node (h.bind θ) := by
  induction args generalizing h with
  | nil => rfl
  | cons a args ih => rw [List.foldl_cons, ih, List.map_cons, List.foldl_cons, bind_node]

lemma vars_foldl_node (h : Tree C X) (args : List (Tree C X)) :
    (args.foldl node h).vars = h.vars ++ args.flatMap vars := by
  induction args generalizing h with
  | nil => simp
  | cons a args ih => rw [List.foldl_cons, ih, vars_node, List.flatMap_cons, List.append_assoc]

lemma isNode_foldl_node (h : Tree C X) {args : List (Tree C X)} (hne : args ≠ []) :
    (args.foldl node h).isNode := by
  have hpos : 0 < (args.foldl node h).spine := by
    rw [spine_foldl_node]
    have := List.length_pos_iff.2 hne
    omega
  cases ht : args.foldl node h with
  | node l r => rfl
  | leaf c => simp [ht, spine] at hpos
  | var x => simp [ht, spine] at hpos

end Tree

namespace Ty

variable {X Y : Type}

/-! ### The reading -/

mutual
/-- The type as a tree, with `f` for its variables. A quantified type is opaque. -/
def curry (f : String → VarSort → Tree TyAtom X) : Ty → Tree TyAtom X
  | .con name _ => .leaf (.con name)
  | .var name sort _ => f name sort
  | .app head args => (curryList f args).foldl .node (curry f head)
  | .scheme _ _ => .leaf .quantified

/-- The types of a list as trees. -/
def curryList (f : String → VarSort → Tree TyAtom X) : List Ty → List (Tree TyAtom X)
  | [] => []
  | a :: args => curry f a :: curryList f args
end

lemma curryList_eq_map (f : String → VarSort → Tree TyAtom X) (args : List Ty) :
    curryList f args = args.map (curry f) := by
  induction args with
  | nil => rfl
  | cons a args ih => rw [curryList, ih, List.map_cons]

lemma curry_app (f : String → VarSort → Tree TyAtom X) (head : Ty) (args : List Ty) :
    curry f (.app head args) = (args.map (curry f)).foldl .node (curry f head) := by
  rw [curry, curryList_eq_map]

/-- Applying a type reads as applying its tree, whether or not the arguments are merged. -/
lemma curry_apply (f : String → VarSort → Tree TyAtom X) (head : Ty) (args : List Ty) :
    curry f (apply head args) = (args.map (curry f)).foldl .node (curry f head) := by
  unfold apply
  split
  · rfl
  · rw [curry_app, List.map_append, List.foldl_append, curry_app]
  · rw [curry_app]

mutual
lemma bind_curry (f : String → VarSort → Tree TyAtom X) (θ : X → Tree TyAtom Y) : (t : Ty) →
    (curry f t).bind θ = curry (fun n s => (f n s).bind θ) t
  | .con _ _ => rfl
  | .var _ _ _ => rfl
  | .app head args => by
    rw [curry, curry, Tree.bind_foldl_node, bind_curry f θ head, bind_curryList f θ args]
  | .scheme _ _ => rfl

lemma bind_curryList (f : String → VarSort → Tree TyAtom X) (θ : X → Tree TyAtom Y) :
    (args : List Ty) →
    (curryList f args).map (Tree.bind θ) = curryList (fun n s => (f n s).bind θ) args
  | [] => rfl
  | a :: args => by
    rw [curryList, curryList, List.map_cons, bind_curry f θ a, bind_curryList f θ args]
end

mutual
/-- A single substitution changes what its variable is read as. -/
lemma curry_subst (f : String → VarSort → Tree TyAtom X) (v : String) (t : Ty) : (s : Ty) →
    curry f (subst v t s) =
      curry (fun n sort => if n = v ∧ sort = .solvable then curry f t else f n sort) s
  | .con _ _ => rfl
  | .var n .solvable _ => by
    rw [subst, curry]
    by_cases h : n = v
    · rw [if_pos h, if_pos ⟨h, rfl⟩]
    · rw [if_neg h, if_neg (fun h' => h h'.1), curry]
  | .var n .rigid _ => by
    rw [subst, curry, curry, if_neg (fun h => VarSort.noConfusion h.2)]
  | .app head args => by
    rw [subst, curry_apply, curry_subst f v t head, curry, ← curryList_eq_map,
      curryList_substList f v t args]
  | .scheme vars body => by
    rw [subst]
    split <;> rfl

lemma curryList_substList (f : String → VarSort → Tree TyAtom X) (v : String) (t : Ty) :
    (args : List Ty) → curryList f (substList v t args) =
      curryList (fun n sort => if n = v ∧ sort = .solvable then curry f t else f n sort) args
  | [] => rfl
  | a :: args => by
    rw [substList, curryList, curryList, curry_subst f v t a, curryList_substList f v t args]
end

mutual
/-- So does a simultaneous one. -/
lemma curry_substAll (f : String → VarSort → Tree TyAtom X) (σ : String → Option Ty) : (s : Ty) →
    curry f (substAll σ s) = curry (fun n sort => ((σ n).map (curry f)).getD (f n sort)) s
  | .con _ _ => rfl
  | .var n sort kind => by
    rw [substAll, curry]
    cases σ n <;> rfl
  | .app head args => by
    rw [substAll, curry_apply, curry_substAll f σ head, curry, ← curryList_eq_map,
      curryList_substAllList f σ args]
  | .scheme _ _ => rfl

lemma curryList_substAllList (f : String → VarSort → Tree TyAtom X) (σ : String → Option Ty) :
    (args : List Ty) → curryList f (substAllList σ args) =
      curryList (fun n sort => ((σ n).map (curry f)).getD (f n sort)) args
  | [] => rfl
  | a :: args => by
    rw [substAllList, curryList, curryList, curry_substAll f σ a, curryList_substAllList f σ args]
end

/-- The type as a tree over its own variables. -/
def tree (t : Ty) : Tree TyAtom TyVar := t.curry fun n sort => .var ⟨n, sort⟩

lemma curry_eq_bind_tree (f : String → VarSort → Tree TyAtom X) (t : Ty) :
    curry f t = t.tree.bind fun v => f v.name v.sort := by
  rw [tree, bind_curry]
  rfl

lemma tree_app (head : Ty) (args : List Ty) :
    (app head args).tree = (args.map tree).foldl .node head.tree :=
  curry_app _ head args

lemma tree_apply (head : Ty) (args : List Ty) :
    (apply head args).tree = (args.map tree).foldl .node head.tree :=
  curry_apply _ head args

lemma tree_subst (v : String) (t s : Ty) :
    (subst v t s).tree = s.tree.bind (Tree.single ⟨v, .solvable⟩ t.tree) := by
  rw [tree, curry_subst, curry_eq_bind_tree]
  refine Tree.bind_congr fun w _ => ?_
  obtain ⟨n, sort⟩ := w
  simp [Tree.single, tree]

/-! ### Flat types -/

/-- Whether the type is a constructor or a variable. -/
def isAtom : Ty → Bool
  | .con _ _ => true
  | .var _ _ _ => true
  | _ => false

mutual
/-- Whether the type has no quantifier and every application in it has arguments and a constructor
or variable as its head. -/
def isFlat : Ty → Bool
  | .con _ _ => true
  | .var _ _ _ => true
  | .app head args => head.isAtom && !args.isEmpty && isFlatList args
  | .scheme _ _ => false

/-- Whether all types of a list are flat. -/
def isFlatList : List Ty → Bool
  | [] => true
  | a :: args => a.isFlat && isFlatList args
end

lemma isFlatList_iff {args : List Ty} : isFlatList args ↔ ∀ a ∈ args, a.isFlat := by
  induction args with
  | nil => simp [isFlatList]
  | cons a args ih => rw [isFlatList, Bool.and_eq_true, ih, List.forall_mem_cons]

lemma isFlat_app {head : Ty} {args : List Ty} :
    (app head args).isFlat ↔ head.isAtom ∧ args ≠ [] ∧ ∀ a ∈ args, a.isFlat := by
  rw [isFlat, Bool.and_eq_true, Bool.and_eq_true, isFlatList_iff, and_assoc]
  simp

lemma isFlat_of_isAtom {t : Ty} (h : t.isAtom) : t.isFlat := by
  cases t with
  | con _ _ => rfl
  | var _ _ _ => rfl
  | app _ _ => simp [isAtom] at h
  | scheme _ _ => simp [isAtom] at h

lemma isNode_tree_of_isAtom {t : Ty} (h : t.isAtom) : t.tree.isNode = false := by
  cases t with
  | con _ _ => rfl
  | var _ _ _ => rfl
  | app _ _ => simp [isAtom] at h
  | scheme _ _ => simp [isAtom] at h

lemma isFlat_apply {head : Ty} (hh : head.isFlat) {args : List Ty} (ha : ∀ a ∈ args, a.isFlat) :
    (apply head args).isFlat := by
  unfold apply
  split
  · exact hh
  · rename_i hne
    obtain ⟨hatom, _, hfirst⟩ := isFlat_app.1 hh
    refine isFlat_app.2 ⟨hatom, fun h => hne (List.append_eq_nil_iff.1 h).2, ?_⟩
    intro a hm
    exact (List.mem_append.1 hm).elim (hfirst a) (ha a)
  · rename_i hne hnapp
    refine isFlat_app.2 ⟨?_, hne, ha⟩
    cases head with
    | con _ _ => rfl
    | var _ _ _ => rfl
    | app head first => exact absurd rfl (hnapp head first)
    | scheme _ _ => simp [isFlat] at hh

mutual
lemma isFlat_subst {v : String} {t : Ty} (ht : t.isFlat) : (s : Ty) → s.isFlat →
    (subst v t s).isFlat
  | .con _ _, _ => rfl
  | .var n .solvable _, _ => by
    rw [subst]
    split
    · exact ht
    · rfl
  | .var _ .rigid _, _ => rfl
  | .app head args, h => by
    obtain ⟨hatom, _, hargs⟩ := isFlat_app.1 h
    rw [subst]
    exact isFlat_apply (isFlat_subst ht head (isFlat_of_isAtom hatom))
      (isFlat_substList ht args hargs)
  | .scheme _ _, h => by simp [isFlat] at h

lemma isFlat_substList {v : String} {t : Ty} (ht : t.isFlat) : (args : List Ty) →
    (∀ a ∈ args, a.isFlat) → ∀ a ∈ substList v t args, a.isFlat
  | [], _ => by simp [substList]
  | a :: args, h => by
    rw [substList, List.forall_mem_cons]
    exact ⟨isFlat_subst ht a (h a List.mem_cons_self),
      isFlat_substList ht args fun b hb => h b (List.mem_cons_of_mem _ hb)⟩
end

mutual
lemma isFlat_substAll {σ : String → Option Ty} (hσ : ∀ n t, σ n = some t → t.isFlat) : (s : Ty) →
    s.isFlat → (substAll σ s).isFlat
  | .con _ _, _ => rfl
  | .var n _ _, _ => by
    rw [substAll]
    cases h : σ n with
    | none => rfl
    | some t => exact hσ n t h
  | .app head args, h => by
    obtain ⟨hatom, _, hargs⟩ := isFlat_app.1 h
    rw [substAll]
    exact isFlat_apply (isFlat_substAll hσ head (isFlat_of_isAtom hatom))
      (isFlat_substAllList hσ args hargs)
  | .scheme _ _, h => by simp [isFlat] at h

lemma isFlat_substAllList {σ : String → Option Ty} (hσ : ∀ n t, σ n = some t → t.isFlat) :
    (args : List Ty) → (∀ a ∈ args, a.isFlat) → ∀ a ∈ substAllList σ args, a.isFlat
  | [], _ => by simp [substAllList]
  | a :: args, h => by
    rw [substAllList, List.forall_mem_cons]
    exact ⟨isFlat_substAll hσ a (h a List.mem_cons_self),
      isFlat_substAllList hσ args fun b hb => h b (List.mem_cons_of_mem _ hb)⟩
end

/-! ### Variables and equality -/

mutual
lemma mem_unknowns_iff {v : String} : (t : Ty) → t.isFlat →
    (v ∈ t.unknowns ↔ ⟨v, .solvable⟩ ∈ t.tree.vars)
  | .con _ _, _ => by simp [unknowns, tree, curry]
  | .var n .solvable _, _ => by simp [unknowns, tree, curry]
  | .var n .rigid _, _ => by simp [unknowns, tree, curry]
  | .app head args, h => by
    obtain ⟨hatom, _, hargs⟩ := isFlat_app.1 h
    rw [unknowns, List.mem_append, mem_unknowns_iff head (isFlat_of_isAtom hatom),
      mem_unknownsList_iff args hargs, tree_app, Tree.vars_foldl_node, List.mem_append]
  | .scheme _ _, h => by simp [isFlat] at h

lemma mem_unknownsList_iff {v : String} : (args : List Ty) → (∀ a ∈ args, a.isFlat) →
    (v ∈ unknownsList args ↔ ⟨v, .solvable⟩ ∈ (args.map tree).flatMap Tree.vars)
  | [], _ => by simp [unknownsList]
  | a :: args, h => by
    rw [unknownsList, List.mem_append, mem_unknowns_iff a (h a List.mem_cons_self),
      mem_unknownsList_iff args fun b hb => h b (List.mem_cons_of_mem _ hb), List.map_cons,
      List.flatMap_cons, List.mem_append]
end

lemma isNode_tree_app {head : Ty} {args : List Ty} (h : (app head args).isFlat) :
    (app head args).tree.isNode := by
  rw [tree_app]
  exact Tree.isNode_foldl_node _ (by simpa using (isFlat_app.1 h).2.1)

lemma tree_ne_of_isAtom {t head : Ty} {args : List Ty} (ht : t.isAtom)
    (h : (app head args).isFlat) : t.tree ≠ (app head args).tree := by
  intro heq
  have hnode := isNode_tree_app h
  rw [← heq, isNode_tree_of_isAtom ht] at hnode
  cases hnode

mutual
/-- Flat types are equal iff they are read alike. -/
lemma same_iff : (a b : Ty) → a.isFlat → b.isFlat → (same a b ↔ a.tree = b.tree)
  | .con a _, .con b _, _, _ => by simp [same, tree, curry]
  | .var a s _, .var b t _, _, _ => by simp [same, tree, curry]
  | .app f as, .app g bs, ha, hb => by
    obtain ⟨hf, _, has⟩ := isFlat_app.1 ha
    obtain ⟨hg, _, hbs⟩ := isFlat_app.1 hb
    rw [same, Bool.and_eq_true, same_iff f g (isFlat_of_isAtom hf) (isFlat_of_isAtom hg),
      sameList_iff as bs has hbs, tree_app, tree_app,
      Tree.foldl_node_inj_of_head (isNode_tree_of_isAtom hf) (isNode_tree_of_isAtom hg)]
  | .con _ _, .var _ _ _, _, _ | .var _ _ _, .con _ _, _, _ => by simp [same, tree, curry]
  | .con _ _, .app _ _, _, hb => ⟨by simp [same], fun h => absurd h (tree_ne_of_isAtom rfl hb)⟩
  | .var _ _ _, .app _ _, _, hb => ⟨by simp [same], fun h => absurd h (tree_ne_of_isAtom rfl hb)⟩
  | .app _ _, .con _ _, ha, _ => ⟨by simp [same], fun h => absurd h.symm (tree_ne_of_isAtom rfl ha)⟩
  | .app _ _, .var _ _ _, ha, _ =>
    ⟨by simp [same], fun h => absurd h.symm (tree_ne_of_isAtom rfl ha)⟩
  | .scheme _ _, _, ha, _ => by simp [isFlat] at ha
  | _, .scheme _ _, _, hb => by simp [isFlat] at hb

lemma sameList_iff : (as bs : List Ty) → (∀ a ∈ as, a.isFlat) → (∀ b ∈ bs, b.isFlat) →
    (sameList as bs ↔ as.map tree = bs.map tree)
  | [], [], _, _ => by simp [sameList]
  | a :: as, b :: bs, ha, hb => by
    rw [sameList, Bool.and_eq_true, same_iff a b (ha a List.mem_cons_self) (hb b List.mem_cons_self),
      sameList_iff as bs (fun c hc => ha c (List.mem_cons_of_mem _ hc))
        (fun c hc => hb c (List.mem_cons_of_mem _ hc)), List.map_cons, List.map_cons,
      List.cons.injEq]
  | [], _ :: _, _, _ | _ :: _, [], _, _ => by simp [sameList]
end

/-! ### Taking applications to pieces -/

/-- An application is its head with the first arguments, applied to the others. -/
lemma tree_app_split (head : Ty) (args : List Ty) (n : Nat) :
    (app head args).tree = ((args.drop n).map tree).foldl .node (apply head (args.take n)).tree := by
  rw [tree_apply, ← List.foldl_append, ← List.map_append, List.take_append_drop, tree_app]

lemma isFlat_apply_take {head : Ty} {args : List Ty} (h : (app head args).isFlat) (n : Nat) :
    (apply head (args.take n)).isFlat := by
  obtain ⟨hatom, _, hargs⟩ := isFlat_app.1 h
  exact isFlat_apply (isFlat_of_isAtom hatom) fun a ha => hargs a (List.mem_of_mem_take ha)

lemma map_eq_map_iff_zip {α β : Type} {g : α → β} {as bs : List α} (hlen : as.length = bs.length) :
    as.map g = bs.map g ↔ ∀ p ∈ as.zip bs, g p.1 = g p.2 := by
  induction as generalizing bs with
  | nil =>
    cases bs with
    | nil => simp
    | cons b bs => simp at hlen
  | cons a as ih =>
    cases bs with
    | nil => simp at hlen
    | cons b bs =>
      rw [List.map_cons, List.map_cons, List.cons.injEq, ih (by simpa using hlen),
        List.zip_cons_cons, List.forall_mem_cons]

/-- The pairs of parts are solved together with the two applications. -/
lemma bind_app_eq_iff (f g : Ty) (as bs : List Ty) (θ : TyVar → Tree TyAtom X) :
    (app f as).tree.bind θ = (app g bs).tree.bind θ ↔
      ∀ p ∈ (apply f (as.take (as.length - bs.length)), apply g (bs.take (bs.length - as.length))) ::
        (as.drop (as.length - bs.length)).zip (bs.drop (bs.length - as.length)),
        p.1.tree.bind θ = p.2.tree.bind θ := by
  have hlen : (as.drop (as.length - bs.length)).length = (bs.drop (bs.length - as.length)).length := by
    rw [List.length_drop, List.length_drop]
    omega
  rw [tree_app_split f as (as.length - bs.length), tree_app_split g bs (bs.length - as.length),
    Tree.bind_foldl_node, Tree.bind_foldl_node, List.map_map, List.map_map,
    Tree.foldl_node_inj (by simpa using hlen), map_eq_map_iff_zip hlen, List.forall_mem_cons]
  rfl

lemma vars_subset_of_mem {t f : Ty} {as : List Ty} (h : t ∈ as) :
    t.tree.vars ⊆ (app f as).tree.vars := by
  intro x hx
  rw [tree_app, Tree.vars_foldl_node, List.mem_append, List.mem_flatMap]
  exact Or.inr ⟨t.tree, List.mem_map_of_mem h, hx⟩

lemma vars_apply_take_subset (f : Ty) (as : List Ty) (n : Nat) :
    (apply f (as.take n)).tree.vars ⊆ (app f as).tree.vars := by
  rw [tree_app_split f as n, Tree.vars_foldl_node]
  exact List.subset_append_left _ _

instance : Curried Ty String TyAtom TyVar where
  Flat t := t.isFlat
  read := tree
  unknown v := ⟨v, .solvable⟩
  unknown_injective := fun _ _ h => (TyVar.mk.inj h).1
  beq_iff {a b} ha hb := same_iff a b ha hb
  var?_eq_some {t v} ht := by
    match t with
    | .con _ _ => simp [Term.var?, tree, curry]
    | .var _ .solvable _ => simp [Term.var?, tree, curry]
    | .var _ .rigid _ => simp [Term.var?, tree, curry]
    | .app head args =>
      have hnode := isNode_tree_app ht
      constructor
      · simp [Term.var?]
      · intro h
        rw [h] at hnode
        cases hnode
    | .scheme _ _ => simp [isFlat] at ht
  mem_vars {t v} ht := mem_unknowns_iff t ht
  flat_subst {v t s} ht hs := isFlat_subst ht s hs
  read_subst {v t s} _ _ := tree_subst v t s
  not_node_of_decompose {a b} ha hb h := by
    rintro ⟨hna, hnb⟩
    match a, b with
    | .app _ _, .app _ _ => simp [Term.decompose, decompose] at h
    | .con _ _, _ | .var _ _ _, _ => simp [tree, curry, Tree.isNode] at hna
    | _, .con _ _ | _, .var _ _ _ => simp [tree, curry, Tree.isNode] at hnb
    | .scheme _ _, _ => simp [isFlat] at ha
    | _, .scheme _ _ => simp [isFlat] at hb
  flat_decompose {a b pairs} ha hb h p hp := by
    simp only [Term.decompose] at h
    unfold decompose at h
    split at h
    · split at h <;> cases h
      cases hp
    · obtain rfl := Option.some.inj h
      rcases List.mem_cons.1 hp with rfl | hp
      · exact ⟨isFlat_apply_take ha _, isFlat_apply_take hb _⟩
      · obtain ⟨h₁, h₂⟩ := List.of_mem_zip hp
        exact ⟨(isFlat_app.1 ha).2.2 _ (List.mem_of_mem_drop h₁),
          (isFlat_app.1 hb).2.2 _ (List.mem_of_mem_drop h₂)⟩
    · cases h
  bind_decompose {a b pairs} ha hb h Y θ := by
    simp only [Term.decompose] at h
    unfold decompose at h
    split at h
    · rename_i n _ m _
      by_cases heq : n = m
      · rw [if_pos heq] at h
        obtain rfl := Option.some.inj h
        simp [tree, curry, heq]
      · rw [if_neg heq] at h
        cases h
    · rename_i f as g bs
      obtain rfl := Option.some.inj h
      exact bind_app_eq_iff f g as bs θ
    · cases h
  read_decompose_subset {a b pairs} ha hb h p hp := by
    simp only [Term.decompose] at h
    unfold decompose at h
    split at h
    · split at h <;> cases h
      cases hp
    · obtain rfl := Option.some.inj h
      rcases List.mem_cons.1 hp with rfl | hp
      · exact ⟨vars_apply_take_subset _ _ _, vars_apply_take_subset _ _ _⟩
      · obtain ⟨h₁, h₂⟩ := List.of_mem_zip hp
        exact ⟨vars_subset_of_mem (List.mem_of_mem_drop h₁),
          vars_subset_of_mem (List.mem_of_mem_drop h₂)⟩
    · cases h

end Ty

end LetPoly
