import LetPoly.Proofs.Unification.Acts

/-!
# Substitution in flat kinds

Flat kinds are closed under simultaneous substitution, which composes and goes through chains. The
bindings of a run of `solve` amount to one such substitution, `mgu`: if the equations have a
solution it is one, and every other solution is an instance of it. Closing a kind is the
substitution that puts `*` for every variable.
-/

namespace LetPoly

namespace Kind

/-- Flat, and without variables. -/
def IsGround (k : Kind) : Prop := k.isFlat ∧ k.vars = []

instance : DecidablePred IsGround := fun _ => inferInstanceAs (Decidable (_ ∧ _))

/-- Flat, with variables of numbers below `n` only. -/
def Below (n : Nat) (k : Kind) : Prop := k.isFlat ∧ ∀ v ∈ k.vars, v.id < n

lemma isGround_atomic : IsGround .atomic := ⟨rfl, rfl⟩

lemma IsGround.below {k : Kind} (hk : k.IsGround) (n : Nat) : k.Below n :=
  ⟨hk.1, by simp [hk.2]⟩

lemma Below.mono {k : Kind} {n m : Nat} (hk : k.Below n) (h : n ≤ m) : k.Below m :=
  ⟨hk.1, fun v hv => Nat.lt_of_lt_of_le (hk.2 v hv) h⟩

lemma below_var {v : KindVar} {n : Nat} (h : v.id < n) : (var v).Below n :=
  ⟨rfl, by simpa [vars] using h⟩

lemma mem_varsList {v : KindVar} {links : List Kind} :
    v ∈ varsList links ↔ ∃ k ∈ links, v ∈ k.vars := by
  induction links with
  | nil => simp [varsList]
  | cons k links ih => simp [varsList, ih]

lemma below_function {links : List Kind} {n : Nat} (hne : links ≠ [])
    (h : ∀ k ∈ links, k.Below n) : (function links).Below n := by
  refine ⟨isFlat_function hne fun k hk => (h k hk).1, fun v hv => ?_⟩
  rw [vars_function, mem_varsList] at hv
  obtain ⟨k, hk, hv⟩ := hv
  exact (h k hk).2 v hv

/-! ### Laws of simultaneous substitution -/

mutual
/-- What a substitution does to a kind depends on the variables of the kind. -/
lemma bindAll_congr {σ τ : KindVar → Kind} : (k : Kind) → (∀ v ∈ k.vars, σ v = τ v) →
    bindAll σ k = bindAll τ k
  | .atomic, _ => rfl
  | .var v, h => h v List.mem_cons_self
  | .chain links, h => by rw [bindAll, bindAll, bindAllList_congr links h]

lemma bindAllList_congr {σ τ : KindVar → Kind} : (links : List Kind) →
    (∀ v ∈ varsList links, σ v = τ v) → bindAllList σ links = bindAllList τ links
  | [], _ => rfl
  | k :: links, h => by
    rw [bindAllList, bindAllList, bindAll_congr k fun v hv => h v (List.mem_append_left _ hv),
      bindAllList_congr links fun v hv => h v (List.mem_append_right _ hv)]
end

lemma bindAll_var {k : Kind} (hk : k.isFlat) : bindAll var k = k := by
  obtain ⟨hflat, htree⟩ := bindAll_spec (σ := var) (fun _ => rfl) k hk
  rw [← tree_injective hflat hk, htree]
  exact Tree.bind_self _

lemma IsGround.bindAll_eq {k : Kind} (hk : k.IsGround) (σ : KindVar → Kind) : bindAll σ k = k := by
  rw [bindAll_congr (σ := σ) (τ := var) k (by simp [hk.2]), bindAll_var hk.1]

lemma bindAll_bindAll {σ τ : KindVar → Kind} (hσ : ∀ v, (σ v).isFlat) (hτ : ∀ v, (τ v).isFlat)
    {k : Kind} (hk : k.isFlat) :
    bindAll τ (bindAll σ k) = bindAll (fun v => bindAll τ (σ v)) k := by
  obtain ⟨hflat, htree⟩ := bindAll_spec hσ k hk
  obtain ⟨hflat₁, htree₁⟩ := bindAll_spec hτ _ hflat
  obtain ⟨hflat₂, htree₂⟩ := bindAll_spec (fun v => isFlat_bindAll hτ (hσ v)) k hk
  rw [← tree_injective hflat₁ hflat₂, htree₁, htree, htree₂, Tree.bind_bind]
  exact Tree.bind_congr fun v _ => (bindAll_spec hτ _ (hσ v)).2.symm

lemma bindAll_function {σ : KindVar → Kind} (hσ : ∀ v, (σ v).isFlat) {links : List Kind}
    (hne : links ≠ []) (h : ∀ k ∈ links, k.isFlat) :
    bindAll σ (function links) = function (links.map (bindAll σ)) := by
  obtain ⟨hflat, htree⟩ := bindAll_spec hσ _ (isFlat_function hne h)
  obtain ⟨hflats, htrees⟩ := bindAllList_spec hσ links h
  rw [bindAllList_eq_map] at hflats htrees
  have hne' : links.map (bindAll σ) ≠ [] := by simpa using hne
  rw [← tree_injective hflat (isFlat_function hne' hflats), htree, tree_function hne h,
    tree_function hne' hflats, htrees]

lemma isGround_bindAll {σ : KindVar → Kind} (hσ : ∀ v, (σ v).IsGround) {k : Kind}
    (hk : k.isFlat) : (bindAll σ k).IsGround := by
  obtain ⟨hflat, htree⟩ := bindAll_spec (fun v => (hσ v).1) k hk
  refine ⟨hflat, List.eq_nil_iff_forall_not_mem.2 fun v hv => ?_⟩
  rw [← vars_tree, htree, Tree.mem_vars_bind] at hv
  obtain ⟨w, -, hv⟩ := hv
  rw [vars_tree, (hσ w).2] at hv
  cases hv

/-! ### Closing -/

/-- Putting `*` for some variables one after the other puts it for all of them at once. -/
lemma foldl_assign_atomic (vs : List KindVar) {k : Kind} (hk : k.isFlat) :
    vs.foldl (fun k v => Term.assign v .atomic k) k =
      bindAll (fun v => if v ∈ vs then .atomic else .var v) k := by
  have hσ : ∀ (vs : List KindVar) (v : KindVar),
      (if v ∈ vs then Kind.atomic else .var v).isFlat := fun vs v => by split <;> rfl
  induction vs generalizing k with
  | nil =>
    rw [List.foldl_nil]
    simp only [List.not_mem_nil, if_false]
    exact (bindAll_var hk).symm
  | cons v vs ih =>
    have hflat : (Term.assign v Kind.atomic k).isFlat := flat_assign (T := Kind) (by rfl) hk
    obtain ⟨hflat₁, htree₁⟩ := bindAll_spec (hσ vs) _ hflat
    obtain ⟨hflat₂, htree₂⟩ := bindAll_spec (hσ (v :: vs)) k hk
    rw [List.foldl_cons, ih hflat, ← tree_injective hflat₁ hflat₂, htree₁, htree₂]
    have hread : (Term.assign v Kind.atomic k).tree = k.tree.bind (Tree.single v Kind.atomic.tree) :=
      read_assign (T := Kind) (by rfl) hk
    rw [hread, Tree.bind_bind]
    refine Tree.bind_congr fun w _ => ?_
    by_cases hw : w = v
    · simp [hw, Tree.single, tree]
    · simp [hw, Tree.single]

lemma close_eq_bindAll {k : Kind} (hk : k.isFlat) : k.close = bindAll (fun _ => .atomic) k := by
  rw [close, foldl_assign_atomic _ hk]
  refine bindAll_congr k fun v hv => ?_
  rw [if_pos (List.mem_eraseDups.2 hv)]

/-! ### Solutions of equations -/

variable {O : Type} {equations : List (Equation Kind O)} {θ : KindVar → Kind}

/-- The substitution makes the two sides of every equation the same. -/
def Unified (θ : KindVar → Kind) (equations : List (Equation Kind O)) : Prop :=
  ∀ e ∈ equations, bindAll θ e.left = bindAll θ e.right

lemma unified_append {more : List (Equation Kind O)} :
    Unified θ (equations ++ more) ↔ Unified θ equations ∧ Unified θ more :=
  List.forall_mem_append

lemma unified_iff_solves (hflat : ∀ e ∈ equations, e.Flat) (hθ : ∀ v, (θ v).isFlat) :
    Unified θ equations ↔ Solves (fun v => (θ v).tree) equations := by
  refine forall₂_congr fun e he => ?_
  obtain ⟨hl, hltree⟩ := bindAll_spec hθ e.left (hflat e he).1
  obtain ⟨hr, hrtree⟩ := bindAll_spec hθ e.right (hflat e he).2
  rw [← tree_injective hl hr, hltree, hrtree]
  rfl

/-- The substitution that the bindings of a run amount to. -/
def mgu (equations : List (Equation Kind O)) (v : KindVar) : Kind :=
  applyBindings (solve equations).bindings (.var v)

lemma isFlat_mgu (hflat : ∀ e ∈ equations, e.Flat) (v : KindVar) : (mgu equations v).isFlat :=
  flat_applyBindings (T := Kind) (solve_flat hflat) (s := .var v) (by rfl)

lemma tree_mgu (hflat : ∀ e ∈ equations, e.Flat) (v : KindVar) :
    (mgu equations v).tree = bindingSubst (solve equations).bindings v :=
  read_applyBindings (T := Kind) (solve_flat hflat) (s := .var v) (by rfl)

lemma applyBindings_eq_bindAll (hflat : ∀ e ∈ equations, e.Flat) {k : Kind} (hk : k.isFlat) :
    applyBindings (solve equations).bindings k = bindAll (mgu equations) k := by
  have hbindings := solve_flat hflat
  obtain ⟨hmgu, htree⟩ := bindAll_spec (isFlat_mgu hflat) k hk
  have hread : (applyBindings (solve equations).bindings k).tree =
      k.tree.bind (bindingSubst (solve equations).bindings) := read_applyBindings hbindings hk
  rw [← tree_injective (flat_applyBindings (T := Kind) hbindings hk) hmgu, hread, htree]
  exact Tree.bind_congr fun v _ => (tree_mgu hflat v).symm

lemma mgu_unified (hflat : ∀ e ∈ equations, e.Flat) (hok : (solve equations).failure = none) :
    Unified (mgu equations) equations := by
  rw [unified_iff_solves hflat (isFlat_mgu hflat), funext (tree_mgu hflat)]
  exact solve_solves hflat hok

lemma mgu_absorbed (hflat : ∀ e ∈ equations, e.Flat) (hθ : ∀ v, (θ v).isFlat)
    (hsol : Unified θ equations) (v : KindVar) : bindAll θ (mgu equations v) = θ v := by
  obtain ⟨hb, htree⟩ := bindAll_spec hθ _ (isFlat_mgu hflat v)
  rw [← tree_injective hb (hθ v), htree, tree_mgu hflat]
  exact solve_absorbed hflat ((unified_iff_solves hflat hθ).1 hsol) v

/-- Kinds have no rigid variables, so any solution shows that solving succeeds. -/
lemma solve_of_unified (hflat : ∀ e ∈ equations, e.Flat) (hθ : ∀ v, (θ v).isFlat)
    (hsol : Unified θ equations) : (solve equations).failure = none := by
  have hrigid : ∀ v : KindVar, ¬ IsRigid Kind v := fun v hv => hv v rfl
  exact solve_succeeds hflat (S := fun _ => True) (fun _ _ _ _ => trivial)
    ((unified_iff_solves hflat hθ).1 hsol)
    ⟨fun _ hx => absurd hx (hrigid _), fun _ _ hx => absurd hx (hrigid _)⟩

end Kind

end LetPoly
