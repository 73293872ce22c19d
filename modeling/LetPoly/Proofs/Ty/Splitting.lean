import LetPoly.Proofs.Unification.Acts
import Mathlib.Data.List.Induction

/-!
# Taking applications of any lengths to pieces

Two applications are paired from their last arguments on, and the longer one keeps its first
arguments with its head. Read as curried types, both give away one argument after the other from
the right, as many as the shorter one has (`Tree.peel`). So a substitution makes the two equal iff
it makes the parts of every pair equal, even if it puts applications for the heads and so moves the
arguments to other positions (`Ty.decompose_app_exact`).
-/

namespace LetPoly

namespace Tree

variable {C X : Type}

/-- Pair off `count` last arguments of two binary applications, from the right. The heads that are
left over form the first pair. -/
def peel : Nat → Tree C X → Tree C X → List (Tree C X × Tree C X)
  | count + 1, .node l r, .node l' r' => peel count l l' ++ [(r, r')]
  | _, a, b => [(a, b)]

lemma peel_zero (a b : Tree C X) : peel 0 a b = [(a, b)] := by
  rw [peel]
  nofun

/-- The arguments that are peeled off are those that the heads are applied to. -/
lemma peel_foldl_node (h g : Tree C X) {as bs : List (Tree C X)} (hlen : as.length = bs.length) :
    peel as.length (as.foldl node h) (bs.foldl node g) = (h, g) :: as.zip bs := by
  induction as using List.reverseRecOn generalizing bs with
  | nil =>
    obtain rfl := List.length_eq_zero_iff.1 hlen.symm
    exact peel_zero h g
  | append_singleton as a ih =>
    rcases List.eq_nil_or_concat bs with rfl | ⟨bs, b, rfl⟩
    · simp at hlen
    · have hlen' : as.length = bs.length := by simpa using hlen
      rw [List.concat_eq_append, List.foldl_append, List.foldl_append, List.length_append,
        List.zip_append hlen']
      exact congrArg (· ++ [(a, b)]) (ih hlen')

end Tree

namespace Ty

variable {f g : Ty} {as bs : List Ty}

/-- As many arguments are left to be paired on the one side as on the other. -/
lemma length_drop_sub (as bs : List Ty) :
    (as.drop (as.length - bs.length)).length = min as.length bs.length := by
  rw [List.length_drop]
  omega

lemma length_drop_sub' (as bs : List Ty) :
    (bs.drop (bs.length - as.length)).length = min as.length bs.length := by
  rw [length_drop_sub, Nat.min_comm]

lemma length_of_decompose_app {pairs : List (Ty × Ty)}
    (h : decompose (app f as) (app g bs) = some pairs) :
    pairs.length = 1 + min as.length bs.length := by
  obtain rfl := Option.some.inj h
  rw [List.length_cons, List.length_zip, length_drop_sub, length_drop_sub', Nat.min_self,
    Nat.add_comm]

/-- Read as curried types, the pairs are peeled off from the right. -/
lemma trees_of_decompose_app {pairs : List (Ty × Ty)}
    (h : decompose (app f as) (app g bs) = some pairs) :
    pairs.map (Prod.map tree tree) =
      Tree.peel (min as.length bs.length) (app f as).tree (app g bs).tree := by
  obtain rfl := Option.some.inj h
  have hlen : ((as.drop (as.length - bs.length)).map tree).length =
      ((bs.drop (bs.length - as.length)).map tree).length := by
    rw [List.length_map, List.length_map, length_drop_sub, length_drop_sub']
  have hpeel := Tree.peel_foldl_node (apply f (as.take (as.length - bs.length))).tree
    (apply g (bs.take (bs.length - as.length))).tree hlen
  rw [List.length_map, length_drop_sub, ← tree_app_split, ← tree_app_split] at hpeel
  rw [hpeel, List.map_cons, List.zip_map]
  rfl

lemma bind_eq_iff_of_decompose_app {pairs : List (Ty × Ty)}
    (h : decompose (app f as) (app g bs) = some pairs) (θ : TyVar → Tree TyAtom TyVar) :
    (app f as).tree.bind θ = (app g bs).tree.bind θ ↔
      ∀ p ∈ pairs, p.1.tree.bind θ = p.2.tree.bind θ := by
  obtain rfl := Option.some.inj h
  exact bind_app_eq_iff f g as bs θ

/-- A substitution makes two flat types equal iff it does so to what they are read as. -/
lemma bindAll_beq_iff {σ : String → Ty} (hσ : ∀ v, (σ v).isFlat) {a b : Ty} (ha : a.isFlat)
    (hb : b.isFlat) : (bindAll σ a == bindAll σ b) = true ↔
      a.tree.bind (treeSubst σ) = b.tree.bind (treeSubst σ) := by
  obtain ⟨hflat, htree⟩ := bindAll_spec hσ a ha
  obtain ⟨hflat', htree'⟩ := bindAll_spec hσ b hb
  rw [← htree, ← htree']
  exact same_iff _ _ hflat hflat'

/-- Splitting two applications is exact: there is a pair of heads and one for each argument of the
shorter application, all of flat types, the pairs are those of the curried types, and the
substitutions that make the applications equal are those that make both types of each pair equal. -/
theorem decompose_app_exact (ha : (app f as).isFlat) (hb : (app g bs).isFlat) :
    ∃ pairs, decompose (app f as) (app g bs) = some pairs ∧
      pairs.length = 1 + min as.length bs.length ∧
      (∀ p ∈ pairs, p.1.isFlat ∧ p.2.isFlat) ∧
      (∀ σ : String → Ty, (∀ v, (σ v).isFlat) →
        ((bindAll σ (app f as) == bindAll σ (app g bs)) = true ↔
          ∀ p ∈ pairs, (bindAll σ p.1 == bindAll σ p.2) = true)) ∧
      pairs.map (Prod.map tree tree) =
        Tree.peel (min as.length bs.length) (app f as).tree (app g bs).tree := by
  obtain ⟨pairs, hpairs⟩ : ∃ pairs, decompose (app f as) (app g bs) = some pairs := ⟨_, rfl⟩
  have hflat : ∀ p ∈ pairs, p.1.isFlat ∧ p.2.isFlat :=
    Curried.flat_decompose (T := Ty) ha hb hpairs
  refine ⟨pairs, hpairs, length_of_decompose_app hpairs, hflat, fun σ hσ => ?_,
    trees_of_decompose_app hpairs⟩
  rw [bindAll_beq_iff hσ ha hb, bind_eq_iff_of_decompose_app hpairs]
  exact forall₂_congr fun p hp => (bindAll_beq_iff hσ (hflat p hp).1 (hflat p hp).2).symm

/-- `f(x)` and `T(Int, y, y)`: the head `f` is paired with `T(Int, y)`. -/
theorem decompose_app_exact_partial :
    (app (.var "f" .solvable none) [.var "x" .solvable none]).isFlat ∧
    (app (.con "T" none) [int, .var "y" .solvable none, .var "y" .solvable none]).isFlat ∧
    ∃ pairs, decompose (app (.var "f" .solvable none) [.var "x" .solvable none])
        (app (.con "T" none) [int, .var "y" .solvable none, .var "y" .solvable none]) =
          some pairs ∧ pairs.length = 2 ∧
      ∀ σ : String → Ty, (∀ v, (σ v).isFlat) →
        ((bindAll σ (app (.var "f" .solvable none) [.var "x" .solvable none]) ==
            bindAll σ (app (.con "T" none)
              [int, .var "y" .solvable none, .var "y" .solvable none])) = true ↔
          ∀ p ∈ pairs, (bindAll σ p.1 == bindAll σ p.2) = true) := by
  have ha : (app (.var "f" .solvable none) [.var "x" .solvable none]).isFlat := by decide
  have hb : (app (.con "T" none)
      [int, .var "y" .solvable none, .var "y" .solvable none]).isFlat := by decide
  obtain ⟨pairs, hpairs, hlen, _, hiff, _⟩ := decompose_app_exact ha hb
  exact ⟨ha, hb, pairs, hpairs, hlen, hiff⟩

end Ty

end LetPoly
