import LetPoly.Proofs.Ty.Free
import LetPoly.Proofs.Ty.Slots

/-!
# Quantified types that substitution leaves in order

Substitution puts types under quantifiers as they are, so that a name of theirs may be caught there.
`StableScheme p` says that a condition on quantified types outlasts substitution; then it holds of
all quantified types that solving and instantiation bring about (`Ty.allSchemes_subst`,
`Ty.allSchemes_substAll`).
-/

namespace LetPoly

/-- A condition on quantified types that outlasts substitution under the quantifier and does not
look at kind slots. -/
structure StableScheme (p : NameSet → Ty → Bool) : Prop where
  subst {vars : NameSet} {body : Ty} (v : String) (t : Ty) : p vars body → v ∉ vars →
    p vars (Ty.subst v t body)
  substAll {vars : NameSet} {body : Ty} (σ : String → Option Ty) : p vars body →
    p vars (body.substAll fun x => if x ∈ vars then none else σ x)
  fill {vars : NameSet} {body : Ty} (kinds : List Kind) : p vars body →
    p vars (body.fill kinds).1

namespace Ty

/-- The body of a quantified type, and any other type itself. -/
def matrix : Ty → Ty
  | .scheme _ body => body
  | t => t

variable {p : NameSet → Ty → Bool}

lemma allSchemesList_iff {args : List Ty} :
    allSchemesList p args ↔ ∀ a ∈ args, a.allSchemes p := by
  induction args with
  | nil => simp [allSchemesList]
  | cons a args ih => simp [allSchemesList, ih]

lemma allSchemes_matrix {t : Ty} (h : t.allSchemes p) : t.matrix.allSchemes p := by
  cases t with
  | scheme vars body => exact (allSchemes_scheme.1 h).2
  | con _ _ => exact h
  | var _ _ _ => exact h
  | app _ _ => exact h

lemma allSchemes_apply {head : Ty} {args : List Ty} :
    (apply head args).allSchemes p ↔ head.allSchemes p ∧ ∀ a ∈ args, a.allSchemes p := by
  rw [← allSchemesList_iff]
  unfold apply
  split
  · simp [allSchemesList]
  · rw [allSchemes_app, allSchemes_app]
    simp only [allSchemesList_iff, List.forall_mem_append, and_assoc]
  · exact allSchemes_app

lemma allSchemes_arrow {a b : Ty} : (arrow a b).allSchemes p ↔ a.allSchemes p ∧ b.allSchemes p := by
  simp [arrow, builtin, allSchemes, allSchemesList]

lemma allSchemes_function {params : List Ty} {result : Ty} :
    (function params result).allSchemes p ↔
      (∀ t ∈ params, t.allSchemes p) ∧ result.allSchemes p := by
  induction params with
  | nil => simp [function]
  | cons t params ih =>
    rw [List.forall_mem_cons, and_assoc, ← ih]
    exact allSchemes_arrow

/-! ### Substitution -/

mutual
lemma allSchemes_subst (hp : StableScheme p) {v : String} {t : Ty} (ht : t.allSchemes p) :
    (s : Ty) → s.allSchemes p → (subst v t s).allSchemes p
  | .con _ _, h => h
  | .var x .solvable _, h => by
    rw [subst]
    split
    · exact ht
    · exact h
  | .var _ .rigid _, h => h
  | .app head args, h => by
    obtain ⟨hhead, hargs⟩ := allSchemes_app.1 h
    rw [subst, allSchemes_apply]
    exact ⟨allSchemes_subst hp ht head hhead, allSchemesList_iff.1 (allSchemesList_substList hp ht args hargs)⟩
  | .scheme vars body, h => by
    obtain ⟨hvars, hbody⟩ := allSchemes_scheme.1 h
    rw [subst]
    split
    · exact h
    · rename_i hv
      exact allSchemes_scheme.2 ⟨hp.subst v t hvars hv, allSchemes_subst hp ht body hbody⟩

lemma allSchemesList_substList (hp : StableScheme p) {v : String} {t : Ty} (ht : t.allSchemes p) :
    (args : List Ty) → allSchemesList p args → allSchemesList p (substList v t args)
  | [], h => h
  | a :: args, h => by
    obtain ⟨ha, hargs⟩ := allSchemesList_cons.1 h
    exact allSchemesList_cons.2 ⟨allSchemes_subst hp ht a ha, allSchemesList_substList hp ht args hargs⟩
end

mutual
lemma allSchemes_substAll (hp : StableScheme p) : (t : Ty) → {σ : String → Option Ty} →
    (∀ x u, σ x = some u → u.allSchemes p) → t.allSchemes p → (substAll σ t).allSchemes p
  | .con _ _, _, _, h => h
  | .var x sort kind, σ, hσ, h => by
    rw [substAll]
    cases hx : σ x with
    | none => exact h
    | some u => exact hσ x u hx
  | .app head args, σ, hσ, h => by
    obtain ⟨hhead, hargs⟩ := allSchemes_app.1 h
    rw [substAll, allSchemes_apply]
    exact ⟨allSchemes_substAll hp head hσ hhead,
      allSchemesList_iff.1 (allSchemesList_substAllList hp args hσ hargs)⟩
  | .scheme vars body, σ, hσ, h => by
    obtain ⟨hvars, hbody⟩ := allSchemes_scheme.1 h
    refine allSchemes_scheme.2 ⟨hp.substAll σ hvars, allSchemes_substAll hp body ?_ hbody⟩
    intro x u hx
    split at hx
    · cases hx
    · exact hσ x u hx

lemma allSchemesList_substAllList (hp : StableScheme p) : (args : List Ty) →
    {σ : String → Option Ty} → (∀ x u, σ x = some u → u.allSchemes p) → allSchemesList p args →
      allSchemesList p (substAllList σ args)
  | [], _, _, h => h
  | a :: args, σ, hσ, h => by
    obtain ⟨ha, hargs⟩ := allSchemesList_cons.1 h
    exact allSchemesList_cons.2 ⟨allSchemes_substAll hp a hσ ha,
      allSchemesList_substAllList hp args hσ hargs⟩
end

mutual
lemma allSchemes_fill (hp : StableScheme p) : (t : Ty) → (kinds : List Kind) → t.allSchemes p →
    (t.fill kinds).1.allSchemes p
  | .con _ none, [], h => h
  | .con _ none, _ :: _, h => h
  | .con _ (some _), _, h => h
  | .var _ _ none, [], h => h
  | .var _ _ none, _ :: _, h => h
  | .var _ _ (some _), _, h => h
  | .app head args, kinds, h => by
    obtain ⟨hhead, hargs⟩ := allSchemes_app.1 h
    exact allSchemes_app.2 ⟨allSchemes_fill hp head kinds hhead,
      allSchemesList_fillList hp args _ hargs⟩
  | .scheme vars body, kinds, h => by
    obtain ⟨hvars, hbody⟩ := allSchemes_scheme.1 h
    exact allSchemes_scheme.2 ⟨hp.fill kinds hvars, allSchemes_fill hp body kinds hbody⟩

lemma allSchemesList_fillList (hp : StableScheme p) : (args : List Ty) → (kinds : List Kind) →
    allSchemesList p args → allSchemesList p (fillList args kinds).1
  | [], _, h => h
  | a :: args, kinds, h => by
    obtain ⟨ha, hargs⟩ := allSchemesList_cons.1 h
    exact allSchemesList_cons.2 ⟨allSchemes_fill hp a kinds ha, allSchemesList_fillList hp args _ hargs⟩
end

lemma matrix_fill (t : Ty) (kinds : List Kind) :
    (t.fill kinds).1.matrix = (t.matrix.fill kinds).1 := by
  cases t with
  | con _ kind => cases kind <;> cases kinds <;> rfl
  | var _ _ kind => cases kind <;> cases kinds <;> rfl
  | app _ _ => rfl
  | scheme _ _ => rfl

lemma allSchemes_matrix_subst (hp : StableScheme p) {v : String} {t s : Ty} (ht : t.allSchemes p)
    (hs : s.matrix.allSchemes p) : (subst v t s).matrix.allSchemes p := by
  cases s with
  | scheme vars body =>
    rw [subst]
    split
    · exact hs
    · exact allSchemes_subst hp ht body hs
  | con _ _ => exact hs
  | var x sort kind => exact allSchemes_matrix (allSchemes_subst hp ht _ hs)
  | app head args => exact allSchemes_matrix (allSchemes_subst hp ht _ hs)

lemma allSchemes_decompose {a b : Ty} {pairs : List (Ty × Ty)} (h : decompose a b = some pairs)
    (ha : a.allSchemes p) (hb : b.allSchemes p) :
    ∀ e ∈ pairs, e.1.allSchemes p ∧ e.2.allSchemes p := by
  unfold decompose at h
  split at h
  · split at h <;> cases h
    simp
  · rename_i f as g bs
    cases h
    obtain ⟨hf, has⟩ := allSchemes_app.1 ha
    obtain ⟨hg, hbs⟩ := allSchemes_app.1 hb
    rw [allSchemesList_iff] at has hbs
    refine List.forall_mem_cons.2 ⟨⟨?_, ?_⟩, fun e he => ?_⟩
    · exact allSchemes_apply.2 ⟨hf, fun a ha => has a (List.mem_of_mem_take ha)⟩
    · exact allSchemes_apply.2 ⟨hg, fun a ha => hbs a (List.mem_of_mem_take ha)⟩
    · have hmem := List.of_mem_zip he
      exact ⟨has _ (List.mem_of_mem_drop hmem.1), hbs _ (List.mem_of_mem_drop hmem.2)⟩
  · cases h

end Ty

/-! ### Instances and closures -/

variable {p : NameSet → Ty → Bool}

lemma Scheme.allSchemes_instantiate (hp : StableScheme p) {s : Scheme} {types : List Ty}
    (hs : s.body.allSchemes p) (htypes : ∀ t ∈ types, t.allSchemes p) :
    (s.instantiate types).allSchemes p := by
  refine Ty.allSchemes_substAll hp s.body (fun x u hx => ?_) hs
  obtain ⟨e, he, rfl⟩ := Option.map_eq_some_iff.1 hx
  exact htypes _ (List.of_mem_zip (List.mem_reverse.1 (List.mem_of_find?_eq_some he))).2

lemma Scheme.allSchemes_canonical (hp : StableScheme p) {s : Scheme} (hs : s.body.allSchemes p) :
    s.canonical.body.allSchemes p := by
  refine Ty.allSchemes_substAll hp s.body (fun x u hx => ?_) hs
  obtain ⟨y, _, rfl⟩ := s.letterFor_eq_some hx
  rfl

lemma Ty.body_closure (t : Ty) (fixed : List String) : (t.closure fixed).body = t.matrix := by
  cases t <;> rfl

lemma Ty.allSchemes_generalize (hp : StableScheme p) {t g : Ty} {fixed : List String}
    (hg : t.generalize fixed = .ok g) (ht : t.allSchemes p) : g.matrix.allSchemes p := by
  obtain ⟨_, _, hcase⟩ := generalize_eq_ok hg
  split at hcase
  · exact hcase ▸ allSchemes_matrix ht
  · rw [hcase]
    refine Scheme.allSchemes_canonical hp ?_
    rw [body_closure]
    exact allSchemes_matrix ht

lemma Ty.allSchemes_quantify {t q : Ty} (hq : t.quantify = .ok q)
    (ht : t.matrix.allSchemes p) : q.matrix.allSchemes p := by
  obtain ⟨_, hcase⟩ := quantifyExcept_eq_ok.1 hq
  split at hcase
  · exact hcase ▸ ht
  · rw [hcase.2]
    cases t with
    | scheme _ _ => cases hcase.1
    | con _ _ => exact ht
    | var _ _ _ => exact ht
    | app _ _ => exact ht

/-! ### Quantifiers that avoid names -/

/-- Whether a quantified type catches none of the names of which `q` holds, whatever is put under
its quantifier: it has no free variable, or it binds no such name. -/
def avoids (q : String → Bool) (vars : NameSet) (body : Ty) : Bool :=
  Ty.closedScheme vars body || vars.names.all (!q ·)

lemma avoids_iff {q : String → Bool} {vars : NameSet} {body : Ty} : avoids q vars body ↔
    (∀ x ∈ body.occurrences, x ∈ vars) ∨ ∀ x ∈ vars, q x = false := by
  simp [avoids, Ty.closedScheme]

/-- A quantified type without free variables stays so. -/
lemma closedScheme_subst {vars : NameSet} {body : Ty} {v : String} {t : Ty} (hv : v ∉ vars)
    (h : ∀ x ∈ body.occurrences, x ∈ vars) : ∀ x ∈ (Ty.subst v t body).occurrences, x ∈ vars := by
  intro x hx
  rcases Ty.mem_occurrences_subst body hx with hx | ⟨hv', _⟩
  · exact h x hx
  · exact absurd (h v (Ty.unknowns_subset_occurrences body hv')) hv

lemma closedScheme_substAll {vars : NameSet} {body : Ty} {σ : String → Option Ty}
    (h : ∀ x ∈ body.occurrences, x ∈ vars) :
    ∀ x ∈ (body.substAll fun x => if x ∈ vars then none else σ x).occurrences, x ∈ vars := by
  intro x hx
  rcases Ty.mem_occurrences_substAll body hx with ⟨hx, _⟩ | ⟨y, hy, u, hsome, _⟩
  · exact h x hx
  · rw [if_pos (h y hy)] at hsome
    cases hsome

lemma stableScheme_avoids (q : String → Bool) : StableScheme (avoids q) where
  subst v t h hv := by
    rw [avoids_iff] at h ⊢
    exact h.imp_left (closedScheme_subst hv)
  substAll σ h := by
    rw [avoids_iff] at h ⊢
    exact h.imp_left closedScheme_substAll
  fill kinds h := by
    rw [avoids_iff] at h ⊢
    rwa [Ty.occurrences_fill]

/-- What avoids more names avoids fewer. -/
lemma avoids_mono {q r : String → Bool} (hqr : ∀ x, r x → q x) (vars : NameSet) (body : Ty)
    (h : avoids q vars body) : avoids r vars body := by
  rw [avoids_iff] at h ⊢
  refine h.imp_right fun h x hx => Bool.eq_false_iff.2 fun hr => ?_
  have hq := h x hx
  rw [hqr x hr] at hq
  cases hq

end LetPoly
