import LetPoly.Proofs.Kind.Substitution

/-!
# The arguments of a kind, from the last on

Two applications are taken to pieces from the end, so what matters of the kind of a head are its
last arguments. `Kind.backArgs` lists the arguments of a kind from the last on. A constructor that
takes more arguments first has more at the end of that list.
-/

namespace LetPoly

namespace Kind

/-- The kind that takes the given arguments to `k`. -/
def arrows (args : List Kind) (k : Kind) : Kind := args.foldr arrow k

/-- The arguments of a function kind, from the last on. -/
def backArgs : Kind → List Kind
  | .chain links => links.dropLast.reverse
  | _ => []

@[simp] lemma arrows_nil (k : Kind) : arrows [] k = k := rfl

@[simp] lemma arrows_cons (a : Kind) (args : List Kind) (k : Kind) :
    arrows (a :: args) k = arrow a (arrows args k) := rfl

lemma arrows_append (args args' : List Kind) (k : Kind) :
    arrows (args ++ args') k = arrows args (arrows args' k) :=
  List.foldr_append

section Flat

variable {a b k k' : Kind} {args args' : List Kind}

lemma isFlat_arrow (ha : a.isFlat) (hb : b.isFlat) : (arrow a b).isFlat :=
  isFlat_function (by simp) (by simp [ha, hb])

lemma tree_arrow (ha : a.isFlat) (hb : b.isFlat) : (arrow a b).tree = .node a.tree b.tree := by
  rw [arrow, tree_function (by simp) (by simp [ha, hb]), treeLinks_cons _ (by simp), treeLinks]

lemma isFlat_arrows (hargs : ∀ a ∈ args, a.isFlat) (hk : k.isFlat) : (arrows args k).isFlat := by
  induction args with
  | nil => exact hk
  | cons a args ih =>
    rw [List.forall_mem_cons] at hargs
    exact isFlat_arrow hargs.1 (ih hargs.2)

/-- A chain is the arrows from its arguments to its result. -/
lemma function_append (hargs : ∀ a ∈ args, a.isFlat) (hk : k.isFlat) :
    function (args ++ [k]) = arrows args k := by
  have hflat : (function (args ++ [k])).isFlat :=
    isFlat_function (by simp) (by simpa [or_imp, forall_and] using ⟨hargs, hk⟩)
  refine (tree_injective hflat (isFlat_arrows hargs hk)).1 ?_
  rw [tree_function (by simp) (by simpa [or_imp, forall_and] using ⟨hargs, hk⟩)]
  clear hflat
  induction args with
  | nil => rfl
  | cons a args ih =>
    rw [List.forall_mem_cons] at hargs
    rw [List.cons_append, treeLinks_cons _ (by simp), ih hargs.2]
    exact (tree_arrow hargs.1 (isFlat_arrows hargs.2 hk)).symm

lemma backArgs_arrow (hb : b.isFlat) : (arrow a b).backArgs = b.backArgs ++ [a] := by
  cases b with
  | atomic => simp [arrow, function, unnest, backArgs]
  | var v => simp [arrow, function, unnest, backArgs]
  | chain links =>
    have hlen := (isFlat_chain.1 hb).1
    cases links with
    | nil => simp at hlen
    | cons k links =>
      cases links with
      | nil => simp at hlen
      | cons k' links => simp [arrow, function, unnest, backArgs]

lemma backArgs_arrows (hargs : ∀ a ∈ args, a.isFlat) (hk : k.isFlat) :
    (arrows args k).backArgs = k.backArgs ++ args.reverse := by
  induction args with
  | nil => simp
  | cons a args ih =>
    rw [List.forall_mem_cons] at hargs
    rw [arrows_cons, backArgs_arrow (isFlat_arrows hargs.2 hk), ih hargs.2, List.reverse_cons,
      List.append_assoc]

/-- What is reached from one kind by as many arguments is the same. -/
lemma arrows_injective (hargs : ∀ a ∈ args, a.isFlat) (hargs' : ∀ a ∈ args', a.isFlat)
    (hk : k.isFlat) (hk' : k'.isFlat) (hlen : args.length = args'.length)
    (h : arrows args k = arrows args' k') : args = args' ∧ k = k' := by
  induction args generalizing args' with
  | nil =>
    obtain rfl := List.length_eq_zero_iff.1 hlen.symm
    exact ⟨rfl, h⟩
  | cons a args ih =>
    match args' with
    | a' :: args' =>
      rw [List.forall_mem_cons] at hargs hargs'
      have htree := congrArg tree h
      rw [arrows_cons, arrows_cons, tree_arrow hargs.1 (isFlat_arrows hargs.2 hk),
        tree_arrow hargs'.1 (isFlat_arrows hargs'.2 hk'), Tree.node.injEq, tree_injective hargs.1 hargs'.1,
        tree_injective (isFlat_arrows hargs.2 hk) (isFlat_arrows hargs'.2 hk')] at htree
      obtain ⟨rfl, rfl⟩ := ih hargs.2 hargs'.2 (by simpa using hlen) htree.2
      exact ⟨by rw [htree.1], rfl⟩
    | [] => simp at hlen

lemma vars_arrow (ha : a.isFlat) (hb : b.isFlat) : (arrow a b).vars = a.vars ++ b.vars := by
  rw [← vars_tree, tree_arrow ha hb, Tree.vars, vars_tree, vars_tree]

/-- The arguments and the result of a ground kind are ground. -/
lemma isGround_of_arrows (hargs : ∀ a ∈ args, a.isFlat) (hk : k.isFlat)
    (h : (arrows args k).IsGround) : (∀ a ∈ args, a.IsGround) ∧ k.IsGround := by
  induction args with
  | nil => exact ⟨by simp, h⟩
  | cons a args ih =>
    rw [List.forall_mem_cons] at hargs
    have hvars := h.2
    rw [arrows_cons, vars_arrow hargs.1 (isFlat_arrows hargs.2 hk), List.append_eq_nil_iff] at hvars
    obtain ⟨hrest, hground⟩ := ih hargs.2 ⟨isFlat_arrows hargs.2 hk, hvars.2⟩
    exact ⟨List.forall_mem_cons.2 ⟨⟨hargs.1, hvars.1⟩, hrest⟩, hground⟩

end Flat

end Kind

end LetPoly
