import LetPoly.Kind.Unify
import LetPoly.Proofs.Unification.Mgu

/-!
# Kinds as curried kinds

A chain `k₁ -> ... -> kₙ -> r` is read as the nested arrows `k₁ -> (... -> (kₙ -> r))`. On flat
kinds, in which every chain has at least two links and its result is no chain, the reading loses
nothing, and the operations on chains are the ordinary ones on arrows.
-/

namespace LetPoly

namespace Kind

mutual
/-- Whether every chain in the kind has at least two links, the last of them no chain. -/
def isFlat : Kind → Bool
  | .atomic => true
  | .var _ => true
  | .chain links => 2 ≤ links.length && isFlatLinks links

/-- Whether there are links, all of them flat and the last of them no chain. -/
def isFlatLinks : List Kind → Bool
  | [] => false
  | [k] => k.isFlat && !k.isChain
  | k :: links => k.isFlat && isFlatLinks links
end

mutual
/-- The kind as nested arrows. -/
def tree : Kind → Tree Unit KindVar
  | .atomic => .leaf ()
  | .var v => .var v
  | .chain links => treeLinks links

/-- The links of a chain as nested arrows. -/
def treeLinks : List Kind → Tree Unit KindVar
  | [] => .leaf ()
  | [k] => k.tree
  | k :: links => .node k.tree (treeLinks links)
end

lemma treeLinks_cons (k : Kind) {links : List Kind} (h : links ≠ []) :
    treeLinks (k :: links) = .node k.tree (treeLinks links) := by
  cases links with
  | nil => exact absurd rfl h
  | cons k' links => rw [treeLinks]; simp

lemma isFlatLinks_cons (k : Kind) {links : List Kind} (h : links ≠ []) :
    isFlatLinks (k :: links) = (k.isFlat && isFlatLinks links) := by
  cases links with
  | nil => exact absurd rfl h
  | cons k' links => rw [isFlatLinks]; simp

lemma ne_nil_of_isFlatLinks {links : List Kind} (h : isFlatLinks links) : links ≠ [] := by
  rintro rfl
  simp [isFlatLinks] at h

lemma isFlat_chain {links : List Kind} :
    (chain links).isFlat ↔ 2 ≤ links.length ∧ isFlatLinks links := by
  rw [isFlat, Bool.and_eq_true, decide_eq_true_eq]

/-! ### Normal chains -/

lemma unnest_cons (k : Kind) {links : List Kind} (h : links ≠ []) :
    unnest (k :: links) = k :: unnest links := by
  rw [unnest]
  exact fun _ _ hnil => h hnil

/-- Links among which there is no chain without links do not vanish. -/
lemma unnest_ne_nil_of_not_mem {links : List Kind} (hne : links ≠ []) (h : .chain [] ∉ links) :
    unnest links ≠ [] := by
  fun_induction unnest links with
  | case1 => exact absurd rfl hne
  | case2 tail =>
    rintro rfl
    exact h List.mem_cons_self
  | case3 k links _ ih => simp

lemma ne_chain_nil_of_isFlat {k : Kind} (h : k.isFlat) : k ≠ .chain [] := by
  rintro rfl
  cases h

lemma chain_nil_not_mem {links : List Kind} (h : ∀ k ∈ links, k.isFlat) : .chain [] ∉ links :=
  fun hmem => ne_chain_nil_of_isFlat (h _ hmem) rfl

lemma unnest_ne_nil {links : List Kind} (hne : links ≠ []) (h : ∀ k ∈ links, k.isFlat) :
    unnest links ≠ [] :=
  unnest_ne_nil_of_not_mem hne (chain_nil_not_mem h)

lemma isFlatLinks_unnest {links : List Kind} (hne : links ≠ []) (h : ∀ k ∈ links, k.isFlat) :
    isFlatLinks (unnest links) := by
  fun_induction unnest links with
  | case1 => exact absurd rfl hne
  | case2 tail => exact (isFlat_chain.1 (h _ List.mem_cons_self)).2
  | case3 k links hlast ih =>
    have hk : k.isFlat := h k List.mem_cons_self
    cases links with
    | nil =>
      cases k with
      | chain tail => exact absurd rfl (hlast tail rfl)
      | atomic => rfl
      | var v => rfl
    | cons k' links =>
      have hrest : ∀ k ∈ k' :: links, k.isFlat := fun k hk => h k (List.mem_cons_of_mem _ hk)
      rw [isFlatLinks_cons _ (unnest_ne_nil (by simp) hrest), hk, ih (by simp) hrest]
      rfl

lemma treeLinks_unnest {links : List Kind} (h : .chain [] ∉ links) :
    treeLinks (unnest links) = treeLinks links := by
  fun_induction unnest links with
  | case1 => rfl
  | case2 tail => rw [treeLinks, tree]
  | case3 k links _ ih =>
    cases links with
    | nil => rfl
    | cons k' links =>
      have hrest : .chain [] ∉ k' :: links := fun hmem => h (List.mem_cons_of_mem _ hmem)
      rw [treeLinks_cons _ (unnest_ne_nil_of_not_mem (by simp) hrest), treeLinks_cons _ (by simp),
        ih hrest]

/-- Building a chain gives a kind that is read as the links are. -/
lemma tree_function_of_not_mem {links : List Kind} (hne : links ≠ []) (h : .chain [] ∉ links) :
    (function links).tree = treeLinks links := by
  have htree := treeLinks_unnest h
  unfold function
  split
  · rename_i heq
    exact absurd heq (unnest_ne_nil_of_not_mem hne h)
  · rename_i k heq
    rw [← htree, heq, treeLinks]
  · exact htree

lemma function_ne_chain_nil {links : List Kind} (hlen : 2 ≤ links.length) (h : .chain [] ∉ links) :
    function links ≠ .chain [] := by
  match links with
  | k :: k' :: links =>
    have hrest : .chain [] ∉ k' :: links := fun hmem => h (List.mem_cons_of_mem _ hmem)
    obtain ⟨l, ls, hu⟩ := List.exists_cons_of_ne_nil (unnest_ne_nil_of_not_mem (by simp) hrest)
    rw [function, unnest_cons _ (by simp), hu]
    nofun
  | [] | [_] => simp at hlen

/-- Building a chain of flat links gives a flat kind. -/
lemma isFlat_function {links : List Kind} (hne : links ≠ []) (h : ∀ k ∈ links, k.isFlat) :
    (function links).isFlat := by
  have hflat := isFlatLinks_unnest hne h
  unfold function
  split
  · rfl
  · rename_i k heq
    rw [heq] at hflat
    simp only [isFlatLinks, Bool.and_eq_true] at hflat
    exact hflat.1
  · rename_i hne₀ hne₁
    refine isFlat_chain.2 ⟨?_, hflat⟩
    match hu : unnest links with
    | [] => exact absurd hu hne₀
    | [k] => exact absurd hu (hne₁ k)
    | k :: k' :: rest => simp

lemma tree_function {links : List Kind} (hne : links ≠ []) (h : ∀ k ∈ links, k.isFlat) :
    (function links).tree = treeLinks links :=
  tree_function_of_not_mem hne (chain_nil_not_mem h)

lemma isFlat_of_mem {links : List Kind} (h : isFlatLinks links) : ∀ k ∈ links, k.isFlat := by
  induction links with
  | nil => simp
  | cons k links ih =>
    cases links with
    | nil =>
      simp only [isFlatLinks, Bool.and_eq_true] at h
      simpa using h.1
    | cons k' links =>
      rw [isFlatLinks_cons _ (by simp), Bool.and_eq_true] at h
      intro k'' hk''
      rcases List.mem_cons.1 hk'' with rfl | hk''
      · exact h.1
      · exact ih h.2 k'' hk''

/-! ### Flat kinds and trees determine each other -/

/-- The flat kind that is read as the tree. -/
def ofTree : Tree Unit KindVar → Kind
  | .leaf _ => .atomic
  | .var v => .var v
  | .node l r => arrow (ofTree l) (ofTree r)

lemma unnest_of_isFlatLinks {links : List Kind} (h : isFlatLinks links) : unnest links = links := by
  fun_induction unnest links with
  | case1 => rfl
  | case2 tail => simp [isFlatLinks, isChain] at h
  | case3 k links _ ih =>
    cases links with
    | nil => rfl
    | cons k' links =>
      rw [isFlatLinks_cons _ (by simp), Bool.and_eq_true] at h
      rw [ih h.2]

lemma arrow_function (k : Kind) {links : List Kind} (h : isFlatLinks links) :
    arrow k (function links) = chain (k :: links) := by
  unfold arrow
  match links with
  | [] => simp [isFlatLinks] at h
  | [k'] =>
    have hf : function [k'] = k' := by
      rw [function, unnest_of_isFlatLinks h]
    rw [hf, function, unnest_cons _ (by simp), unnest_of_isFlatLinks h]
  | k' :: k'' :: links =>
    have hf : function (k' :: k'' :: links) = chain (k' :: k'' :: links) := by
      rw [function, unnest_of_isFlatLinks h]
    rw [hf, function, unnest_cons _ (by simp), unnest]

mutual
lemma ofTree_tree : (k : Kind) → k.isFlat → ofTree k.tree = k
  | .atomic, _ => rfl
  | .var _, _ => rfl
  | .chain links, h => by
    obtain ⟨hlen, hlinks⟩ := isFlat_chain.1 h
    match links with
    | k :: k' :: links =>
      rw [isFlatLinks_cons _ (by simp), Bool.and_eq_true] at hlinks
      rw [tree, treeLinks_cons _ (by simp), ofTree, ofTree_tree k hlinks.1,
        ofTree_treeLinks (k' :: links) hlinks.2, arrow_function _ hlinks.2]
    | [] | [_] => simp at hlen

lemma ofTree_treeLinks : (links : List Kind) → isFlatLinks links →
    ofTree (treeLinks links) = function links
  | [], h => by simp [isFlatLinks] at h
  | [k], h => by
    have hu := unnest_of_isFlatLinks h
    simp only [isFlatLinks, Bool.and_eq_true] at h
    rw [treeLinks, ofTree_tree k h.1, function, hu]
  | k :: k' :: links, h => by
    have hu := unnest_of_isFlatLinks h
    rw [isFlatLinks_cons _ (by simp), Bool.and_eq_true] at h
    rw [treeLinks_cons _ (by simp), ofTree, ofTree_tree k h.1, ofTree_treeLinks (k' :: links) h.2,
      arrow_function _ h.2, function, hu]
end

lemma isFlat_ofTree (t : Tree Unit KindVar) : (ofTree t).isFlat := by
  induction t with
  | leaf c => rfl
  | var v => rfl
  | node l r ihl ihr => exact isFlat_function (by simp) (by simp [ihl, ihr])

lemma tree_ofTree (t : Tree Unit KindVar) : (ofTree t).tree = t := by
  induction t with
  | leaf c => rfl
  | var v => rfl
  | node l r ihl ihr =>
    rw [ofTree, arrow, tree_function (by simp) (by simp [isFlat_ofTree]),
      treeLinks_cons _ (by simp), treeLinks, ihl, ihr]

/-- Flat kinds that are read alike are the same. -/
lemma tree_injective {a b : Kind} (ha : a.isFlat) (hb : b.isFlat) : a.tree = b.tree ↔ a = b := by
  constructor
  · intro h
    rw [← ofTree_tree a ha, ← ofTree_tree b hb, h]
  · intro h
    rw [h]

/-! ### Operations -/

mutual
lemma vars_tree : (k : Kind) → k.tree.vars = k.vars
  | .atomic => rfl
  | .var _ => rfl
  | .chain links => by rw [tree, vars, vars_treeLinks links]

lemma vars_treeLinks : (links : List Kind) → (treeLinks links).vars = varsList links
  | [] => rfl
  | [k] => by rw [treeLinks, vars_tree k, varsList, varsList, List.append_nil]
  | k :: k' :: links => by
    rw [treeLinks_cons _ (by simp), Tree.vars_node, vars_tree k, vars_treeLinks (k' :: links)]
    rfl
end

mutual
lemma subst_spec {v : KindVar} {t : Kind} (ht : t.isFlat) : (k : Kind) → k.isFlat →
    (subst v t k).isFlat ∧ (subst v t k).tree = k.tree.bind (Tree.single v t.tree)
  | .atomic, _ => ⟨rfl, rfl⟩
  | .var w, _ => by
    rw [subst, tree, Tree.bind_var, Tree.single]
    split
    · exact ⟨ht, rfl⟩
    · exact ⟨rfl, rfl⟩
  | .chain links, h => by
    have hlinks := (isFlat_chain.1 h).2
    obtain ⟨hflat, htree⟩ := substList_spec ht links (isFlat_of_mem hlinks)
    have hne : substList v t links ≠ [] := by
      cases links with
      | nil => exact absurd rfl (ne_nil_of_isFlatLinks hlinks)
      | cons k links => simp [substList]
    rw [subst, tree, tree_function hne hflat]
    exact ⟨isFlat_function hne hflat, htree⟩

lemma substList_spec {v : KindVar} {t : Kind} (ht : t.isFlat) : (links : List Kind) →
    (∀ k ∈ links, k.isFlat) → (∀ k ∈ substList v t links, k.isFlat) ∧
      treeLinks (substList v t links) = (treeLinks links).bind (Tree.single v t.tree)
  | [], _ => by simp [substList, treeLinks]
  | [k], h => by
    obtain ⟨hflat, htree⟩ := subst_spec (v := v) ht k (h k List.mem_cons_self)
    simp [substList, treeLinks, hflat, htree]
  | k :: k' :: links, h => by
    obtain ⟨hflat, htree⟩ := subst_spec (v := v) ht k (h k List.mem_cons_self)
    obtain ⟨hflats, htrees⟩ := substList_spec ht (k' :: links)
      (fun k hk => h k (List.mem_cons_of_mem _ hk))
    rw [substList]
    constructor
    · intro k'' hk''
      rcases List.mem_cons.1 hk'' with rfl | hk''
      · exact hflat
      · exact hflats k'' hk''
    · rw [treeLinks_cons _ (by simp [substList]), treeLinks_cons _ (by simp), htree, htrees,
        Tree.bind_node]
end

lemma isNode_tree {k : Kind} (hk : k.isFlat) : k.tree.isNode ↔ k.isChain := by
  match k with
  | .atomic => simp [tree, Tree.isNode, isChain]
  | .var _ => simp [tree, Tree.isNode, isChain]
  | .chain (k :: k' :: links) =>
    rw [tree, treeLinks_cons _ (by simp)]
    simp [Tree.isNode, isChain]
  | .chain [] => simp [isFlat] at hk
  | .chain [_] => simp [isFlat] at hk

/-- The parts of two chains are flat and amount to the two chains. -/
lemma flat_of_decompose {a b : Kind} (ha : a.isFlat) (hb : b.isFlat) {pairs : List (Kind × Kind)}
    (h : decompose a b = some pairs) : (a = .atomic ∧ b = .atomic ∧ pairs = []) ∨
      ∃ x y x' y', a.tree = .node x.tree y.tree ∧ b.tree = .node x'.tree y'.tree ∧
        x.isFlat ∧ y.isFlat ∧ x'.isFlat ∧ y'.isFlat ∧ pairs = [(x, x'), (y, y')] := by
  rcases decompose_eq_some h with h | ⟨x, y, xs, x', y', xs', rfl, rfl, rfl⟩
  · exact Or.inl h
  · have hxs := isFlat_of_mem (isFlat_chain.1 ha).2
    have hxs' := isFlat_of_mem (isFlat_chain.1 hb).2
    have htail : ∀ k ∈ y :: xs, k.isFlat := fun k hk => hxs k (List.mem_cons_of_mem _ hk)
    have htail' : ∀ k ∈ y' :: xs', k.isFlat := fun k hk => hxs' k (List.mem_cons_of_mem _ hk)
    refine Or.inr ⟨x, function (y :: xs), x', function (y' :: xs'), ?_, ?_,
      hxs x List.mem_cons_self, isFlat_function (by simp) htail, hxs' x' List.mem_cons_self,
      isFlat_function (by simp) htail', rfl⟩
    · rw [tree, treeLinks_cons _ (by simp), tree_function (by simp) htail]
    · rw [tree, treeLinks_cons _ (by simp), tree_function (by simp) htail']

instance : Curried Kind KindVar Unit KindVar where
  Flat k := k.isFlat
  read := tree
  unknown v := v
  unknown_injective := fun _ _ h => h
  beq_iff ha hb := by rw [beq_iff_eq, tree_injective ha hb]
  var?_eq_some {t v} ht := by
    match t with
    | .atomic => simp [Term.var?, tree]
    | .var w => simp [Term.var?, tree]
    | .chain links =>
      have hnode : (chain links).tree.isNode := (isNode_tree ht).2 rfl
      constructor
      · intro h
        simp [Term.var?] at h
      · intro h
        rw [h] at hnode
        simp [Tree.isNode] at hnode
  mem_vars {t v} _ := by rw [vars_tree]; rfl
  flat_subst ht hs := (subst_spec ht _ hs).1
  read_subst ht hs := (subst_spec ht _ hs).2
  not_node_of_decompose {a b} ha hb h := by
    rintro ⟨hna, hnb⟩
    rw [isNode_tree ha] at hna
    rw [isNode_tree hb] at hnb
    match a, b with
    | .chain (_ :: _ :: _), .chain (_ :: _ :: _) => simp [Term.decompose, decompose, left?, right?] at h
    | .chain [], _ | .chain [_], _ => simp [isFlat] at ha
    | _, .chain [] | _, .chain [_] => simp [isFlat] at hb
    | .atomic, _ | .var _, _ => simp [isChain] at hna
    | _, .atomic | _, .var _ => simp [isChain] at hnb
  flat_decompose ha hb h p hp := by
    rcases flat_of_decompose ha hb h with ⟨-, -, rfl⟩ | ⟨x, y, x', y', -, -, hx, hy, hx', hy', rfl⟩
    · cases hp
    · rcases List.mem_cons.1 hp with rfl | hp
      · exact ⟨hx, hx'⟩
      · obtain rfl := List.mem_singleton.1 hp
        exact ⟨hy, hy'⟩
  bind_decompose ha hb h Y θ := by
    rcases flat_of_decompose ha hb h with ⟨rfl, rfl, rfl⟩ | ⟨x, y, x', y', hta, htb, -, -, -, -, rfl⟩
    · simp
    · rw [hta, htb]
      simp
  read_decompose_subset ha hb h p hp := by
    rcases flat_of_decompose ha hb h with ⟨-, -, rfl⟩ | ⟨x, y, x', y', hta, htb, -, -, -, -, rfl⟩
    · cases hp
    · rw [hta, htb, Tree.vars_node, Tree.vars_node]
      rcases List.mem_cons.1 hp with rfl | hp
      · exact ⟨List.subset_append_left _ _, List.subset_append_left _ _⟩
      · obtain rfl := List.mem_singleton.1 hp
        exact ⟨List.subset_append_right _ _, List.subset_append_right _ _⟩

end Kind

end LetPoly
