import LetPoly.Proofs.Ty.Poly
import LetPoly.Ty.Unify

/-!
# Free variables under substitution

What may be free in a type after a substitution, in an instance of a scheme and in the closure of a
type, for types with quantifiers anywhere inside.
-/

namespace LetPoly

namespace Ty

/-! ### Substitutions -/

lemma occurrencesList_append (as bs : List Ty) :
    occurrencesList (as ++ bs) = occurrencesList as ++ occurrencesList bs := by
  induction as with
  | nil => rfl
  | cons a as ih => simp [occurrencesList, ih]

@[simp] lemma occurrences_apply (head : Ty) (args : List Ty) :
    (apply head args).occurrences = head.occurrences ++ occurrencesList args := by
  unfold apply
  split
  · simp [occurrencesList]
  · simp [occurrences, occurrencesList_append]
  · simp [occurrences]

mutual
lemma unknowns_subset_occurrences : (t : Ty) → t.unknowns ⊆ t.occurrences
  | .con _ _ => List.Subset.refl _
  | .var _ .solvable _ => List.Subset.refl _
  | .var _ .rigid _ => List.nil_subset _
  | .app head args =>
    List.append_subset.2 ⟨List.subset_append_of_subset_left _ (unknowns_subset_occurrences head),
      List.subset_append_of_subset_right _ (unknownsList_subset_occurrencesList args)⟩
  | .scheme _ body => fun _ h =>
    have h := List.mem_filter.1 h
    List.mem_filter.2 ⟨unknowns_subset_occurrences body h.1, h.2⟩

lemma unknownsList_subset_occurrencesList : (args : List Ty) →
    unknownsList args ⊆ occurrencesList args
  | [] => List.Subset.refl _
  | a :: args =>
    List.append_subset.2 ⟨List.subset_append_of_subset_left _ (unknowns_subset_occurrences a),
      List.subset_append_of_subset_right _ (unknownsList_subset_occurrencesList args)⟩
end

mutual
lemma mem_unknowns_substAll {w : String} : (t : Ty) → {σ : String → Option Ty} →
    w ∈ (substAll σ t).unknowns →
      (w ∈ t.unknowns ∧ σ w = none) ∨ ∃ x u, σ x = some u ∧ w ∈ u.unknowns
  | .con _ _, _, h => by simp [substAll, unknowns] at h
  | .var x sort kind, σ, h => by
    rw [substAll] at h
    cases hx : σ x with
    | some u =>
      rw [hx] at h
      exact .inr ⟨x, u, hx, h⟩
    | none =>
      rw [hx, Option.getD_none] at h
      cases sort with
      | rigid => cases h
      | solvable =>
        obtain rfl := List.mem_singleton.1 h
        exact .inl ⟨h, hx⟩
  | .app head args, σ, h => by
    rw [substAll, unknowns_apply, List.mem_append] at h
    rcases h with h | h
    · exact (mem_unknowns_substAll head h).imp_left fun h => ⟨List.mem_append_left _ h.1, h.2⟩
    · exact (mem_unknownsList_substAllList args h).imp_left
        fun h => ⟨List.mem_append_right _ h.1, h.2⟩
  | .scheme vars body, σ, h => by
    rw [substAll, unknowns, List.mem_filter, decide_eq_true_eq] at h
    rcases mem_unknowns_substAll body h.1 with ⟨hw, hnone⟩ | ⟨x, u, hx, hw⟩
    · rw [if_neg h.2] at hnone
      exact .inl ⟨List.mem_filter.2 ⟨hw, by simpa using h.2⟩, hnone⟩
    · split at hx
      · cases hx
      · exact .inr ⟨x, u, hx, hw⟩

lemma mem_unknownsList_substAllList {w : String} : (args : List Ty) → {σ : String → Option Ty} →
    w ∈ unknownsList (substAllList σ args) →
      (w ∈ unknownsList args ∧ σ w = none) ∨ ∃ x u, σ x = some u ∧ w ∈ u.unknowns
  | [], _, h => by simp [substAllList, unknownsList] at h
  | a :: args, σ, h => by
    rcases List.mem_append.1 h with h | h
    · exact (mem_unknowns_substAll a h).imp_left fun h => ⟨List.mem_append_left _ h.1, h.2⟩
    · exact (mem_unknownsList_substAllList args h).imp_left
        fun h => ⟨List.mem_append_right _ h.1, h.2⟩
end

mutual
lemma mem_occurrences_substAll {w : String} : (t : Ty) → {σ : String → Option Ty} →
    w ∈ (substAll σ t).occurrences → (w ∈ t.occurrences ∧ σ w = none) ∨
      ∃ x ∈ t.occurrences, ∃ u, σ x = some u ∧ w ∈ u.occurrences
  | .con _ _, _, h => by simp [substAll, occurrences] at h
  | .var x sort kind, σ, h => by
    rw [substAll] at h
    cases hx : σ x with
    | some u =>
      rw [hx] at h
      exact .inr ⟨x, List.mem_singleton_self x, u, hx, h⟩
    | none =>
      rw [hx] at h
      obtain rfl := List.mem_singleton.1 h
      exact .inl ⟨h, hx⟩
  | .app head args, σ, h => by
    rw [substAll, occurrences_apply, List.mem_append] at h
    rcases h with h | h
    · exact (mem_occurrences_substAll head h).imp
        (fun h => ⟨List.mem_append_left _ h.1, h.2⟩)
        fun ⟨x, hx, h⟩ => ⟨x, List.mem_append_left _ hx, h⟩
    · exact (mem_occurrencesList_substAllList args h).imp
        (fun h => ⟨List.mem_append_right _ h.1, h.2⟩)
        fun ⟨x, hx, h⟩ => ⟨x, List.mem_append_right _ hx, h⟩
  | .scheme vars body, σ, h => by
    rw [substAll, occurrences, List.mem_filter, decide_eq_true_eq] at h
    rcases mem_occurrences_substAll body h.1 with ⟨hw, hnone⟩ | ⟨x, hx, u, hsome, hw⟩
    · rw [if_neg h.2] at hnone
      exact .inl ⟨List.mem_filter.2 ⟨hw, by simpa using h.2⟩, hnone⟩
    · split at hsome
      · cases hsome
      · exact .inr ⟨x, List.mem_filter.2 ⟨hx, by simpa⟩, u, hsome, hw⟩

lemma mem_occurrencesList_substAllList {w : String} : (args : List Ty) →
    {σ : String → Option Ty} → w ∈ occurrencesList (substAllList σ args) →
      (w ∈ occurrencesList args ∧ σ w = none) ∨
        ∃ x ∈ occurrencesList args, ∃ u, σ x = some u ∧ w ∈ u.occurrences
  | [], _, h => by simp [substAllList, occurrencesList] at h
  | a :: args, σ, h => by
    rcases List.mem_append.1 h with h | h
    · exact (mem_occurrences_substAll a h).imp
        (fun h => ⟨List.mem_append_left _ h.1, h.2⟩)
        fun ⟨x, hx, h⟩ => ⟨x, List.mem_append_left _ hx, h⟩
    · exact (mem_occurrencesList_substAllList args h).imp
        (fun h => ⟨List.mem_append_right _ h.1, h.2⟩)
        fun ⟨x, hx, h⟩ => ⟨x, List.mem_append_right _ hx, h⟩
end

mutual
lemma mem_occurrences_subst {v w : String} {t : Ty} : (s : Ty) →
    w ∈ (subst v t s).occurrences → w ∈ s.occurrences ∨ v ∈ s.unknowns ∧ w ∈ t.occurrences
  | .con _ _, h => .inl h
  | .var x .solvable kind, h => by
    rw [subst] at h
    split at h
    · rename_i hx
      exact .inr ⟨by simp [unknowns, hx], h⟩
    · exact .inl h
  | .var _ .rigid _, h => .inl h
  | .app head args, h => by
    rw [subst, occurrences_apply, List.mem_append] at h
    rcases h with h | h
    · exact (mem_occurrences_subst head h).imp (List.mem_append_left _)
        fun h => ⟨List.mem_append_left _ h.1, h.2⟩
    · exact (mem_occurrencesList_substList args h).imp (List.mem_append_right _)
        fun h => ⟨List.mem_append_right _ h.1, h.2⟩
  | .scheme vars body, h => by
    rw [subst] at h
    split at h
    · exact .inl h
    · rename_i hv
      rw [occurrences, List.mem_filter] at h
      exact (mem_occurrences_subst body h.1).imp (fun hw => List.mem_filter.2 ⟨hw, h.2⟩)
        fun hw => ⟨List.mem_filter.2 ⟨hw.1, by simpa using hv⟩, hw.2⟩

lemma mem_occurrencesList_substList {v w : String} {t : Ty} : (args : List Ty) →
    w ∈ occurrencesList (substList v t args) →
      w ∈ occurrencesList args ∨ v ∈ unknownsList args ∧ w ∈ t.occurrences
  | [], h => .inl h
  | a :: args, h => by
    rcases List.mem_append.1 h with h | h
    · exact (mem_occurrences_subst a h).imp (List.mem_append_left _)
        fun h => ⟨List.mem_append_left _ h.1, h.2⟩
    · exact (mem_occurrencesList_substList args h).imp (List.mem_append_right _)
        fun h => ⟨List.mem_append_right _ h.1, h.2⟩
end

end Ty

/-! ### Instances -/

lemma Scheme.mem_unknowns_instantiate {s : Scheme} {types : List Ty}
    (hlen : types.length = s.vars.names.length) {w : String}
    (h : w ∈ (s.instantiate types).unknowns) :
    w ∈ s.toTy.unknowns ∨ ∃ t ∈ types, w ∈ t.unknowns := by
  rcases Ty.mem_unknowns_substAll s.body h with ⟨hw, hnone⟩ | ⟨x, u, hx, hw⟩
  · refine .inl (List.mem_filter.2 ⟨hw, ?_⟩)
    rw [substOf_zip s.vars.nodup hlen] at hnone
    by_contra hmem
    have hmem : w ∈ s.vars.names := by simpa using hmem
    have hi : s.vars.names.idxOf w < types.length := hlen ▸ List.idxOf_lt_length_of_mem hmem
    rw [if_pos hmem, List.getElem?_eq_getElem hi] at hnone
    cases hnone
  · obtain ⟨p, hp, rfl⟩ := Option.map_eq_some_iff.1 hx
    exact .inr ⟨_, (List.of_mem_zip (List.mem_reverse.1 (List.mem_of_find?_eq_some hp))).2, hw⟩

/-! ### Closures -/

namespace Ty

/-- The variables of a type that closing it binds. -/
def bindable (t : Ty) (fixed : List String) : NameSet := t.freeVars.filter (· ∉ fixed)

lemma mem_bindable {t : Ty} {fixed : List String} {x : String} :
    x ∈ t.bindable fixed ↔ x ∈ t.occurrences ∧ x ∉ fixed := by
  simp [bindable, freeVars]

/-- How a type is closed whose schemes use what they bind. -/
lemma quantifyExcept_of_used {t : Ty} (hused : t.idleVars? = none) (fixed : List String) :
    t.quantifyExcept fixed = if (t.bindable fixed).isEmpty then .ok t
      else if t.isScheme then .error (.notQuantified (t.bindable fixed).names)
        else .ok (.scheme (t.bindable fixed) t) := by
  rw [quantifyExcept, checkedFreeVars, hused]
  rfl

/-- A type can be closed if its schemes use what they bind, and a scheme then stays as it is. -/
lemma quantifyExcept_eq_ok {t q : Ty} {fixed : List String} :
    t.quantifyExcept fixed = .ok q ↔ t.idleVars? = none ∧
      if (t.bindable fixed).isEmpty then q = t
      else t.isScheme = false ∧ q = .scheme (t.bindable fixed) t := by
  cases hidle : t.idleVars? with
  | some vars =>
    rw [quantifyExcept, checkedFreeVars, hidle]
    exact ⟨fun h => (by cases h), fun h => (by cases h.1)⟩
  | none =>
    rw [quantifyExcept_of_used hidle]
    by_cases hempty : (t.bindable fixed).isEmpty
    · simp [hempty, eq_comm]
    · cases hscheme : t.isScheme <;> simp [hempty, eq_comm]

lemma freeVars_isEmpty {t : Ty} : t.freeVars.isEmpty ↔ t.occurrences = [] := by
  rw [NameSet.isEmpty, List.isEmpty_iff, List.eq_nil_iff_forall_not_mem,
    List.eq_nil_iff_forall_not_mem]
  exact forall_congr' fun x => not_congr NameSet.mem_ofList

/-- The scheme whose canonical form is the closure of a type: its own, or that of the variables that
are not fixed. -/
def closure (t : Ty) (fixed : List String) : Scheme :=
  match t with
  | .scheme vars body => ⟨vars, body⟩
  | t => ⟨t.bindable fixed, t⟩

lemma generalize_eq_ok {t g : Ty} {fixed : List String} (h : t.generalize fixed = .ok g) :
    t.idleVars? = none ∧ (t.isScheme → (t.bindable fixed).isEmpty) ∧
      if t.isScheme = false ∧ (t.bindable fixed).isEmpty then g = t
      else g = (t.closure fixed).canonical.toTy := by
  rw [generalize] at h
  cases hq : t.quantifyExcept fixed with
  | error e =>
    rw [hq] at h
    cases h
  | ok q =>
    rw [hq] at h
    obtain ⟨hidle, hcase⟩ := quantifyExcept_eq_ok.1 hq
    refine ⟨hidle, ?_⟩
    split at hcase
    · rename_i hempty
      subst hcase
      cases q with
      | scheme vars body =>
        cases h
        exact ⟨fun _ => hempty, by simp [isScheme, closure]⟩
      | con _ _ =>
        cases h
        exact ⟨fun _ => hempty, by simp [isScheme, hempty]⟩
      | var _ _ _ =>
        cases h
        exact ⟨fun _ => hempty, by simp [isScheme, hempty]⟩
      | app _ _ =>
        cases h
        exact ⟨fun _ => hempty, by simp [isScheme, hempty]⟩
    · rename_i hempty
      obtain ⟨hscheme, rfl⟩ := hcase
      cases h
      refine ⟨fun htrue => ?_, ?_⟩
      · rw [hscheme] at htrue
        cases htrue
      · cases t with
        | scheme _ _ => cases hscheme
        | con _ _ => simp [hempty, closure]
        | var _ _ _ => simp [hempty, closure]
        | app _ _ => simp [hempty, closure]

end Ty

lemma Scheme.mem_usedVars {s : Scheme} {x : String} :
    x ∈ s.usedVars ↔ x ∈ s.body.occurrences ∧ x ∈ s.vars := by
  simp [usedVars, Ty.freeVars]

lemma Scheme.letterFor_isSome {s : Scheme} {x : String} (h : x ∈ s.usedVars) :
    ∃ y ∈ s.letters, s.letterFor x = some (.rigid y) := by
  have hi : s.usedVars.idxOf x < s.letters.length := by
    rw [length_letters]
    exact List.idxOf_lt_length_of_mem h
  refine ⟨_, List.getElem_mem hi, ?_⟩
  rw [letterFor_eq, if_pos h, List.getElem?_map, List.getElem?_eq_getElem hi]
  rfl

lemma Scheme.mem_unknowns_canonical {s : Scheme} {w : String}
    (h : w ∈ s.canonical.toTy.unknowns) : w ∈ s.toTy.unknowns := by
  obtain ⟨hw, _⟩ := List.mem_filter.1 h
  rcases Ty.mem_unknowns_substAll s.body hw with ⟨hw, hnone⟩ | ⟨x, u, hx, hw⟩
  · refine List.mem_filter.2 ⟨hw, ?_⟩
    by_contra hmem
    have hused := mem_usedVars.2 ⟨Ty.unknowns_subset_occurrences _ hw, by simpa using hmem⟩
    obtain ⟨y, _, hsome⟩ := letterFor_isSome hused
    rw [show s.letterFor w = none from hnone] at hsome
    cases hsome
  · obtain ⟨y, _, rfl⟩ := s.letterFor_eq_some hx
    cases hw

/-- Closing a type brings no solvable variable in. -/
lemma Ty.mem_unknowns_generalize {t g : Ty} {fixed : List String}
    (hg : t.generalize fixed = .ok g) {w : String} (h : w ∈ g.unknowns) : w ∈ t.unknowns := by
  obtain ⟨_, _, hcase⟩ := generalize_eq_ok hg
  split at hcase
  · exact hcase ▸ h
  · rw [hcase] at h
    have h := Scheme.mem_unknowns_canonical h
    cases t with
    | scheme vars body => exact h
    | con _ _ => exact (List.mem_filter.1 h).1
    | var _ _ _ => exact (List.mem_filter.1 h).1
    | app _ _ => exact (List.mem_filter.1 h).1

/-- Nor does quantifying it. -/
lemma Ty.mem_unknowns_quantify {t q : Ty} (hq : t.quantify = .ok q) {w : String}
    (h : w ∈ q.unknowns) : w ∈ t.unknowns := by
  obtain ⟨_, hcase⟩ := quantifyExcept_eq_ok.1 hq
  split at hcase
  · exact hcase ▸ h
  · rw [hcase.2] at h
    exact (List.mem_filter.1 h).1

end LetPoly
