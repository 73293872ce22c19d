import LetPoly.Ty.Basic
import LetPoly.Unification.Solve

/-!
# Types as terms

Types form a term algebra over the names of solvable variables. Two applications are taken to
pieces from the end: the last arguments are paired off, and whatever arguments are left on the
longer side stay with its head. So `f(x)` against `Either(a, b)` pairs `f` with `Either(a)` and
`x` with `b`.
-/

namespace LetPoly

namespace Ty

/-- The equations between parts that two types of one shape amount to. -/
def decompose : Ty → Ty → Option (List (Ty × Ty))
  | .con a _, .con b _ => if a = b then some [] else none
  | .app f as, .app g bs =>
    let keep := as.length - bs.length
    let keep' := bs.length - as.length
    some ((apply f (as.take keep), apply g (bs.take keep')) ::
      (as.drop keep).zip (bs.drop keep'))
  | _, _ => none

mutual
/-- The number of nodes of a type. -/
def weight : Ty → Nat
  | .con _ _ => 1
  | .var _ _ _ => 1
  | .app head args => 1 + head.weight + weightList args
  | .scheme _ body => 1 + body.weight

/-- The number of nodes of a list of types. -/
def weightList : List Ty → Nat
  | [] => 0
  | a :: args => a.weight + weightList args
end

theorem weight_pos (t : Ty) : 0 < t.weight := by
  cases t <;> simp only [weight] <;> omega

theorem weightList_append (as bs : List Ty) :
    weightList (as ++ bs) = weightList as + weightList bs := by
  induction as with
  | nil => simp [weightList]
  | cons a as ih => simp only [List.cons_append, weightList, ih]; omega

theorem weight_apply_le (head : Ty) (args : List Ty) :
    (apply head args).weight ≤ 1 + head.weight + weightList args := by
  unfold apply
  split
  · omega
  · simp only [weight, weightList_append]; omega
  · simp only [weight]; omega

theorem unknownsList_append (as bs : List Ty) :
    unknownsList (as ++ bs) = unknownsList as ++ unknownsList bs := by
  induction as with
  | nil => simp [unknownsList]
  | cons a as ih => simp [unknownsList, ih]

theorem unknowns_apply (head : Ty) (args : List Ty) :
    (apply head args).unknowns = head.unknowns ++ unknownsList args := by
  unfold apply
  split
  · simp [unknownsList]
  · simp [unknowns, unknownsList_append]
  · simp [unknowns]

theorem unknowns_subset_of_mem {t : Ty} {args : List Ty} (h : t ∈ args) :
    t.unknowns ⊆ unknownsList args := by
  obtain ⟨as, bs, rfl⟩ := List.append_of_mem h
  simp [unknownsList_append, unknownsList]

theorem unknownsList_take_subset (n : Nat) (args : List Ty) :
    unknownsList (args.take n) ⊆ unknownsList args := by
  have := unknownsList_append (args.take n) (args.drop n)
  rw [List.take_append_drop] at this
  exact this ▸ List.subset_append_left _ _

theorem weightList_take_add_drop (n : Nat) (args : List Ty) :
    weightList (args.take n) + weightList (args.drop n) = weightList args := by
  rw [← weightList_append, List.take_append_drop]

mutual
theorem mem_unknowns_subst {v w : String} {t : Ty} : (s : Ty) → w ∈ (subst v t s).unknowns →
    (w ∈ s.unknowns ∧ w ≠ v) ∨ w ∈ t.unknowns
  | .con _ _, h => by simp [subst, unknowns] at h
  | .var u .solvable _, h => by
    by_cases hu : u = v
    · exact .inr (by simpa [subst, hu] using h)
    · have hw : w = u := by simpa [subst, hu, unknowns] using h
      exact .inl ⟨by simp [unknowns, hw], hw ▸ hu⟩
  | .var _ .rigid _, h => by simp [subst, unknowns] at h
  | .app head args, h => by
    rw [subst, unknowns_apply] at h
    rcases List.mem_append.1 h with h | h
    · exact (mem_unknowns_subst head h).imp_left fun h => ⟨List.mem_append_left _ h.1, h.2⟩
    · exact (mem_unknownsList_substList args h).imp_left
        fun h => ⟨List.mem_append_right _ h.1, h.2⟩
  | .scheme vars body, h => by
    by_cases hv : v ∈ vars
    · simp only [subst, hv, if_true] at h
      refine .inl ⟨h, fun e => ?_⟩
      simp [unknowns, e, hv] at h
    · simp only [subst, hv, if_false, unknowns, List.mem_filter] at h ⊢
      exact (mem_unknowns_subst body h.1).imp_left fun h' => ⟨⟨h'.1, h.2⟩, h'.2⟩

theorem mem_unknownsList_substList {v w : String} {t : Ty} : (args : List Ty) →
    w ∈ unknownsList (substList v t args) → (w ∈ unknownsList args ∧ w ≠ v) ∨ w ∈ t.unknowns
  | [], h => by simp [substList, unknownsList] at h
  | a :: args, h => by
    rcases List.mem_append.1 h with h | h
    · exact (mem_unknowns_subst a h).imp_left fun h => ⟨List.mem_append_left _ h.1, h.2⟩
    · exact (mem_unknownsList_substList args h).imp_left
        fun h => ⟨List.mem_append_right _ h.1, h.2⟩
end

/-- The heads that decomposition pairs bring no variable in. -/
theorem unknowns_apply_take_subset (f : Ty) (as : List Ty) (n : Nat) :
    (apply f (as.take n)).unknowns ⊆ (Ty.app f as).unknowns := by
  rw [unknowns_apply, unknowns]
  exact List.append_subset.2 ⟨List.subset_append_left _ _,
    fun _ h => List.mem_append_right _ (unknownsList_take_subset n as h)⟩

/-- The arguments that decomposition pairs bring no variable in. -/
theorem unknowns_subset_of_mem_drop {t f : Ty} {as : List Ty} {n : Nat} (h : t ∈ as.drop n) :
    t.unknowns ⊆ (Ty.app f as).unknowns := by
  rw [unknowns]
  exact fun _ hw => List.mem_append_right _ (unknowns_subset_of_mem (List.mem_of_mem_drop h) hw)

instance : Term Ty String where
  var?
    | .var name .solvable _ => some name
    | _ => none
  vars := unknowns
  subst := subst
  decompose := decompose
  weight := weight

/-- Lists zipped together weigh no more than the two of them. -/
theorem pairsWeight_zip_le (as bs : List Ty) :
    Term.pairsWeight (as.zip bs) ≤ weightList as + weightList bs := by
  induction as generalizing bs with
  | nil => simp [Term.pairsWeight]
  | cons a as ih =>
    cases bs with
    | nil => simp [Term.pairsWeight]
    | cons b bs =>
      have := ih bs
      simp only [List.zip_cons_cons, Term.pairsWeight, Term.weight, weightList]
      omega

instance : LawfulTerm Ty String where
  mem_vars_of_var? {t v} h := by
    match t with
    | .var name .solvable _ => simp_all [Term.var?, Term.vars, unknowns]
    | .var name .rigid _ | .con _ _ | .app _ _ | .scheme _ _ => simp [Term.var?] at h
  mem_vars_subst {_ _ _ s} h := mem_unknowns_subst s h
  vars_decompose {a b pairs} h p hp := by
    simp only [Term.decompose] at h
    unfold decompose at h
    split at h
    · split at h <;> cases h
      cases hp
    · obtain rfl := Option.some.inj h
      rcases List.mem_cons.1 hp with rfl | hp
      · exact ⟨unknowns_apply_take_subset _ _ _, unknowns_apply_take_subset _ _ _⟩
      · have := List.of_mem_zip hp
        exact ⟨unknowns_subset_of_mem_drop this.1, unknowns_subset_of_mem_drop this.2⟩
    · cases h
  weight_decompose {a b pairs} h := by
    simp only [Term.decompose] at h
    unfold decompose at h
    split at h
    · split at h <;> cases h
      simp [Term.pairsWeight, Term.weight, weight]
    · rename_i f as g bs
      obtain rfl := Option.some.inj h
      simp only [Term.pairsWeight, Term.weight, weight]
      have hz := pairsWeight_zip_le (as.drop (as.length - bs.length)) (bs.drop (bs.length - as.length))
      have ha := weightList_take_add_drop (as.length - bs.length) as
      have hb := weightList_take_add_drop (bs.length - as.length) bs
      have hf := weight_apply_le f (as.take (as.length - bs.length))
      have hg := weight_apply_le g (bs.take (bs.length - as.length))
      -- One of the two heads keeps no argument, and so loses a node.
      rcases Nat.le_total as.length bs.length with hle | hle
      · rw [Nat.sub_eq_zero_of_le hle] at *
        simp only [List.take_zero, apply, List.drop_zero, weightList] at *
        omega
      · rw [Nat.sub_eq_zero_of_le hle] at *
        simp only [List.take_zero, apply, List.drop_zero, weightList] at *
        omega
    · cases h
  weight_pos := weight_pos

end Ty

end LetPoly
