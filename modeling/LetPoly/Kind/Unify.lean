import LetPoly.Kind.Basic
import LetPoly.Unification.Solve

/-!
# Kinds as terms

Kinds form a term algebra over `KindVar`. The weight of a kind counts its nodes and the links of
its chains, so that the first argument of a chain and the rest of it weigh less than the chain,
whether the chain is normal or not.
-/

namespace LetPoly

namespace Kind

mutual
/-- One for each node and one for each link. -/
def weight : Kind → Nat
  | .atomic => 1
  | .var _ => 1
  | .chain links => 1 + weightList links

/-- The weight of the links of a chain. -/
def weightList : List Kind → Nat
  | [] => 0
  | k :: links => 1 + k.weight + weightList links
end

theorem weight_pos (k : Kind) : 0 < k.weight := by
  cases k <;> simp only [weight] <;> omega

theorem weightList_unnest_le (links : List Kind) : weightList (unnest links) ≤ weightList links := by
  fun_induction unnest links with
  | case1 => exact Nat.le_refl _
  | case2 tail => simp only [weightList, weight]; omega
  | case3 k links _ ih => simp only [weightList]; omega

theorem weight_function_le (links : List Kind) :
    (function links).weight ≤ 1 + weightList links := by
  have := weightList_unnest_le links
  unfold function
  split
  · simp only [weight]; omega
  · rename_i k hk
    simp only [hk, weightList] at this
    omega
  · simp only [weight]; omega

theorem varsList_unnest (links : List Kind) : varsList (unnest links) = varsList links := by
  fun_induction unnest links with
  | case1 => rfl
  | case2 tail => simp [varsList, vars]
  | case3 k links _ ih => simp [varsList, ih]

/-- Normalising a chain keeps its variables in order. -/
theorem vars_function (links : List Kind) : (function links).vars = varsList links := by
  have := varsList_unnest links
  unfold function
  split <;> simp_all [varsList, vars]

mutual
theorem mem_vars_subst {v w : KindVar} {t : Kind} : (s : Kind) → w ∈ (subst v t s).vars →
    (w ∈ s.vars ∧ w ≠ v) ∨ w ∈ t.vars
  | .atomic, h => by simp [subst, vars] at h
  | .var u, h => by
    by_cases hu : u = v
    · exact .inr (by simpa [subst, hu] using h)
    · have hw : w = u := by simpa [subst, hu, vars] using h
      exact .inl ⟨by simp [vars, hw], hw ▸ hu⟩
  | .chain links, h => by
    rw [subst, vars_function] at h
    exact mem_varsList_substList links h

theorem mem_varsList_substList {v w : KindVar} {t : Kind} : (links : List Kind) →
    w ∈ varsList (substList v t links) → (w ∈ varsList links ∧ w ≠ v) ∨ w ∈ t.vars
  | [], h => by simp [substList, varsList] at h
  | k :: links, h => by
    rcases List.mem_append.1 h with h | h
    · exact (mem_vars_subst k h).imp_left fun h => ⟨List.mem_append_left _ h.1, h.2⟩
    · exact (mem_varsList_substList links h).imp_left fun h => ⟨List.mem_append_right _ h.1, h.2⟩
end

/-- Two chains decompose only if both have a first argument and something after it. -/
theorem decompose_eq_some {a b : Kind} {pairs : List (Kind × Kind)}
    (h : decompose a b = some pairs) : (a = .atomic ∧ b = .atomic ∧ pairs = []) ∨
      ∃ x y xs x' y' xs', a = .chain (x :: y :: xs) ∧ b = .chain (x' :: y' :: xs') ∧
        pairs = [(x, x'), (function (y :: xs), function (y' :: xs'))] := by
  unfold decompose at h
  split at h
  · exact .inl ⟨rfl, rfl, (Option.some.inj h).symm⟩
  · rename_i as bs
    match as, bs with
    | x :: y :: xs, x' :: y' :: xs' =>
      exact .inr ⟨x, y, xs, x', y', xs', rfl, rfl, (Option.some.inj h).symm⟩
    | [], _ | [_], [] | [_], [_] | [_], _ :: _ :: _ | _ :: _ :: _, [] | _ :: _ :: _, [_] =>
      simp [left?, right?] at h
  · cases h

instance : Term Kind KindVar where
  var?
    | .var v => some v
    | _ => none
  vars := vars
  subst := subst
  decompose := decompose
  weight := weight

instance : LawfulTerm Kind KindVar where
  mem_vars_of_var? {t v} h := by
    cases t <;> simp_all [Term.var?, Term.vars, vars]
  mem_vars_subst {_ _ _ s} h := mem_vars_subst s h
  vars_decompose {a b pairs} h p hp := by
    rcases decompose_eq_some h with ⟨-, -, rfl⟩ | ⟨x, y, xs, x', y', xs', rfl, rfl, rfl⟩
    · cases hp
    · simp only [Term.vars, vars, varsList]
      rcases List.mem_cons.1 hp with rfl | hp
      · exact ⟨List.subset_append_left _ _, List.subset_append_left _ _⟩
      · obtain rfl := List.mem_singleton.1 hp
        simp only [vars_function]
        exact ⟨List.subset_append_right _ _, List.subset_append_right _ _⟩
  weight_decompose {a b pairs} h := by
    rcases decompose_eq_some h with ⟨rfl, rfl, rfl⟩ | ⟨x, y, xs, x', y', xs', rfl, rfl, rfl⟩
    · simp [Term.pairsWeight, Term.weight, weight]
    · have h₁ := weight_function_le (y :: xs)
      have h₂ := weight_function_le (y' :: xs')
      simp only [Term.pairsWeight, Term.weight, weight, weightList] at h₁ h₂ ⊢
      omega
  weight_pos := weight_pos

/-- Put `*` for every variable that is left. -/
def close (k : Kind) : Kind := k.vars.eraseDups.foldl (fun k v => Term.assign v .atomic k) k

end Kind

end LetPoly
