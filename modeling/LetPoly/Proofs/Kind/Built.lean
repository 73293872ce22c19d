import LetPoly.Proofs.Kind.Arguments
import Mathlib.Logic.ExistsUnique

/-!
# Kinds that the operations build

Flat kinds are the kinds that can be built from `*` and variables by the operations on kinds
(`Kind.built_iff_isFlat`), and they stand for nested binary arrows one for one. Read as such, the
operations on chains are those on binary arrows (`Kind.operations_curried`).
-/

namespace LetPoly

namespace Tree

variable {C X : Type}

/-- The two sides of a binary arrow. -/
def sides? : Tree C X → Option (Tree C X × Tree C X)
  | .node l r => some (l, r)
  | _ => none

/-- The sides of two binary arrows in pairs, and no pair at all for two constants. -/
def sidePairs? : Tree Unit X → Tree Unit X → Option (List (Tree Unit X × Tree Unit X))
  | .leaf _, .leaf _ => some []
  | .node l r, .node l' r' => some [(l, l'), (r, r')]
  | _, _ => none

end Tree

namespace Kind

/-- The kinds that can be built from `*` and variables by the operations on kinds. -/
inductive Built : Kind → Prop
  | atomic : Built .atomic
  | var (v : KindVar) : Built (.var v)
  | function {links : List Kind} : (∀ k ∈ links, Built k) → Built (function links)
  | arrow {a b : Kind} : Built a → Built b → Built (arrow a b)
  | ofArity (n : Nat) : Built (ofArity n)
  | left {k l : Kind} : Built k → k.left? = some l → Built l
  | right {k r : Kind} : Built k → k.right? = some r → Built r
  | subst {v : KindVar} {t k : Kind} : Built t → Built k → Built (subst v t k)

section Sides

variable {a b k l r : Kind}

/-- A flat kind is `*`, a variable, or the arrow from the first link of a chain to what follows
it. -/
lemma flat_cases (hk : k.isFlat) : k = .atomic ∨ (∃ v, k = .var v) ∨
    ∃ a b links, k = chain (a :: b :: links) ∧ a.isFlat ∧ (function (b :: links)).isFlat ∧
      k.tree = .node a.tree (function (b :: links)).tree := by
  match k with
  | .atomic => exact Or.inl rfl
  | .var v => exact Or.inr (Or.inl ⟨v, rfl⟩)
  | .chain (a :: b :: links) =>
    have hlinks := isFlat_of_mem (isFlat_chain.1 hk).2
    rw [List.forall_mem_cons] at hlinks
    refine Or.inr (Or.inr ⟨a, b, links, rfl, hlinks.1, isFlat_function (by simp) hlinks.2, ?_⟩)
    rw [tree, treeLinks_cons _ (by simp), tree_function (by simp) hlinks.2]
  | .chain [] => simp [isFlat] at hk
  | .chain [_] => simp [isFlat] at hk

lemma isFlat_left? (hk : k.isFlat) (h : k.left? = some l) : l.isFlat := by
  obtain rfl | ⟨v, rfl⟩ | ⟨a, b, links, rfl, ha, -, -⟩ := flat_cases hk
  · cases h
  · cases h
  · cases h
    exact ha

lemma isFlat_right? (hk : k.isFlat) (h : k.right? = some r) : r.isFlat := by
  obtain rfl | ⟨v, rfl⟩ | ⟨a, b, links, rfl, -, hb, -⟩ := flat_cases hk
  · cases h
  · cases h
  · cases h
    exact hb

/-- The first argument is the left side of the arrow, and what is left after it is the right
side. -/
lemma tree_sides (hk : k.isFlat) : k.left?.map tree = k.tree.sides?.map Prod.fst ∧
    k.right?.map tree = k.tree.sides?.map Prod.snd := by
  obtain rfl | ⟨v, rfl⟩ | ⟨a, b, links, rfl, -, -, htree⟩ := flat_cases hk
  · exact ⟨rfl, rfl⟩
  · exact ⟨rfl, rfl⟩
  · rw [htree]
    exact ⟨rfl, rfl⟩

lemma tree_decompose (ha : a.isFlat) (hb : b.isFlat) :
    (decompose a b).map (List.map (Prod.map tree tree)) = a.tree.sidePairs? b.tree := by
  obtain rfl | ⟨v, rfl⟩ | ⟨x, y, links, rfl, -, -, htree⟩ := flat_cases ha
  · obtain rfl | ⟨w, rfl⟩ | ⟨x', y', links', rfl, -, -, htree'⟩ := flat_cases hb
    · rfl
    · rfl
    · rw [htree']
      rfl
  · obtain rfl | ⟨w, rfl⟩ | ⟨x', y', links', rfl, -, -, htree'⟩ := flat_cases hb
    · rfl
    · rfl
    · rw [htree']
      rfl
  · rw [htree]
    obtain rfl | ⟨w, rfl⟩ | ⟨x', y', links', rfl, -, -, htree'⟩ := flat_cases hb
    · rfl
    · rfl
    · rw [htree']
      rfl

lemma isSome_decompose (ha : a.isFlat) (hb : b.isFlat) :
    (decompose a b).isSome ↔ a.isChain ∧ b.isChain ∨ a = .atomic ∧ b = .atomic := by
  obtain rfl | ⟨v, rfl⟩ | ⟨x, y, links, rfl, -, -, -⟩ := flat_cases ha <;>
    obtain rfl | ⟨w, rfl⟩ | ⟨x', y', links', rfl, -, -, -⟩ := flat_cases hb <;>
    simp [decompose, isChain, left?, right?]

end Sides

/-! ### Built kinds are flat -/

lemma Built.isFlat {k : Kind} (h : Built k) : k.isFlat := by
  induction h with
  | atomic => rfl
  | var v => rfl
  | function hlinks ih =>
    rename_i links
    by_cases hne : links = []
    · rw [hne]
      rfl
    · exact isFlat_function hne ih
  | arrow _ _ iha ihb => exact isFlat_arrow iha ihb
  | ofArity n =>
    refine isFlat_function (by simp) fun k hk => ?_
    rw [List.eq_of_mem_replicate hk]
    rfl
  | left _ hl ih => exact isFlat_left? ih hl
  | right _ hr ih => exact isFlat_right? ih hr
  | subst _ _ iht ihk => exact (subst_spec iht _ ihk).1

mutual
lemma built_of_isFlat : (k : Kind) → k.isFlat → Built k
  | .atomic, _ => .atomic
  | .var v, _ => .var v
  | .chain links, h => by
    obtain ⟨hlen, hlinks⟩ := isFlat_chain.1 h
    have hbuilt := Built.function (built_of_isFlatLinks links (isFlat_of_mem hlinks))
    -- The links are in order already, so that building the chain again changes nothing.
    match links with
    | a :: b :: links => rwa [function, unnest_of_isFlatLinks hlinks] at hbuilt
    | [] | [_] => simp at hlen

lemma built_of_isFlatLinks : (links : List Kind) → (∀ k ∈ links, k.isFlat) →
    ∀ k ∈ links, Built k
  | [], _ => by simp
  | k :: links, h => by
    rw [List.forall_mem_cons] at h ⊢
    exact ⟨built_of_isFlat k h.1, built_of_isFlatLinks links h.2⟩
end

lemma built_iff_isFlat {k : Kind} : Built k ↔ k.isFlat := ⟨Built.isFlat, built_of_isFlat k⟩

/-- Every binary kind is the reading of exactly one flat kind. -/
lemma existsUnique_flat (t : Tree Unit KindVar) : ∃! k : Kind, k.isFlat ∧ k.tree = t := by
  refine ⟨ofTree t, ⟨isFlat_ofTree t, tree_ofTree t⟩, ?_⟩
  rintro k ⟨hk, rfl⟩
  exact (ofTree_tree k hk).symm

/-- Flat kinds are curried kinds: they are the kinds that the operations build, equal if and only if
their readings are, with one for every binary kind; and the operations are read as those on binary
arrows. -/
theorem operations_curried :
    (∀ k, Built k ↔ k.isFlat) ∧
    (∀ a b : Kind, a.isFlat → b.isFlat → (a = b ↔ a.tree = b.tree)) ∧
    (∀ t : Tree Unit KindVar, ∃! k : Kind, k.isFlat ∧ k.tree = t) ∧
    (∀ a b : Kind, a.isFlat → b.isFlat → (arrow a b).tree = .node a.tree b.tree) ∧
    (∀ k : Kind, k.isFlat → k.left?.map tree = k.tree.sides?.map Prod.fst ∧
      k.right?.map tree = k.tree.sides?.map Prod.snd) ∧
    (∀ v (t k : Kind), t.isFlat → k.isFlat →
      (subst v t k).tree = k.tree.bind (Tree.single v t.tree)) ∧
    (∀ v (k : Kind), Term.occurs v k ↔ v ∈ k.tree.vars) ∧
    (∀ a b : Kind, a.isFlat → b.isFlat →
      (decompose a b).map (List.map (Prod.map tree tree)) = a.tree.sidePairs? b.tree ∧
      ((decompose a b).isSome ↔ a.isChain ∧ b.isChain ∨ a = .atomic ∧ b = .atomic)) := by
  refine ⟨fun k => built_iff_isFlat, fun a b ha hb => (tree_injective ha hb).symm,
    existsUnique_flat, fun a b ha hb => tree_arrow ha hb, fun k hk => tree_sides hk,
    fun v t k ht hk => (subst_spec ht k hk).2, fun v k => ?_,
    fun a b ha hb => ⟨tree_decompose ha hb, isSome_decompose ha hb⟩⟩
  rw [vars_tree, Term.occurs, decide_eq_true_eq]
  rfl

/-- `(* -> ?0) -> ?0` with `* -> *` for `?0`: the new result lends its links to the chains. -/
theorem operations_curried_result :
    let t := ofArity 1
    let k := arrow (arrow .atomic (.var ⟨0⟩)) (.var ⟨0⟩)
    Built (subst ⟨0⟩ t k) ∧ subst ⟨0⟩ t k = .chain [ofArity 2, .atomic, .atomic] ∧
      (subst ⟨0⟩ t k).tree = k.tree.bind (Tree.single ⟨0⟩ t.tree) ∧
      (subst ⟨0⟩ t k).right?.map tree = (subst ⟨0⟩ t k).tree.sides?.map Prod.snd ∧
      (decompose k (subst ⟨0⟩ t k)).map (List.map (Prod.map tree tree)) =
        k.tree.sidePairs? (subst ⟨0⟩ t k).tree := by
  intro t k
  have ht : t.isFlat := by decide
  have hk : k.isFlat := by decide
  have hs : (subst ⟨0⟩ t k).isFlat := by decide
  obtain ⟨hbuilt, -, -, -, hsides, hsubst, -, hpairs⟩ := operations_curried
  exact ⟨(hbuilt _).2 hs, by decide, hsubst ⟨0⟩ t k ht hk, (hsides _ hs).2, (hpairs _ _ hk hs).1⟩

end Kind

end LetPoly
