import LetPoly.Proofs.Ty.Stable

/-!
# Exact quantifiers

A closure puts letters for the variables that it binds, and these may be caught by a quantifier
inside. Where every quantified type inside has no free variable or binds no letter name
(`letterSafe`), they are caught nowhere, and the closure binds exactly what is free in its body
(`Ty.generalize_exact`). Quantifying a type as it stands is always exact (`Ty.quantify_exact`).
-/

namespace LetPoly

/-! ### Letters -/

/-- Whether a name has the form of a letter name: a small letter, with a number after it or
without. -/
def isLetterName (x : String) : Bool :=
  match x.toList with
  | [] => false
  | c :: digits => c.isLower && digits.all Char.isDigit

lemma isLower_ofNat_letter {i : Nat} (h : i < 26) : (Char.ofNat (97 + i)).isLower := by
  revert i
  decide

lemma isLetterName_letterName (i : Nat) : isLetterName (letterName i) := by
  rw [isLetterName, toList_letterName]
  simp only [isLower_ofNat_letter (Nat.mod_lt i (by omega : 26 > 0)), Bool.true_and]
  split
  · rfl
  · exact List.all_eq_true.2 fun c hc => Nat.isDigit_of_mem_toDigits (by omega) (by omega) hc

/-- Whether a quantified type can do no harm to letters: it has no free variable, or it binds no
letter name. -/
def letterSafe : NameSet → Ty → Bool := avoids isLetterName

lemma letterSafe_iff {vars : NameSet} {body : Ty} : letterSafe vars body ↔
    (∀ x ∈ body.occurrences, x ∈ vars) ∨ ∀ x ∈ vars, isLetterName x = false :=
  avoids_iff

/-- A substitution of letters for variables. -/
def PutsLetters (σ : String → Option Ty) : Prop := ∀ x u, σ x = some u → ∃ i, u = .rigid (letterName i)

/-- A name that stays or is put in comes from one of the two parts. -/
lemma kept_or_put_append {σ : String → Option Ty} {w : String} {xs ys : List String}
    (h : w ∈ xs ++ ys ∧ σ w = none ∨ ∃ x ∈ xs ++ ys, σ x = some (.rigid w)) :
    (w ∈ xs ∧ σ w = none ∨ ∃ x ∈ xs, σ x = some (.rigid w)) ∨
      (w ∈ ys ∧ σ w = none ∨ ∃ x ∈ ys, σ x = some (.rigid w)) := by
  rcases h with ⟨hw, hnone⟩ | ⟨x, hx, hsome⟩
  · exact (List.mem_append.1 hw).imp (fun hw => .inl ⟨hw, hnone⟩) fun hw => .inl ⟨hw, hnone⟩
  · exact (List.mem_append.1 hx).imp (fun hx => .inr ⟨x, hx, hsome⟩)
      fun hx => .inr ⟨x, hx, hsome⟩

mutual
/-- Letters are caught nowhere. -/
lemma Ty.mem_substAll_of_letterSafe {w : String} : (t : Ty) → {σ : String → Option Ty} →
    PutsLetters σ → t.allSchemes letterSafe →
      (w ∈ t.occurrences ∧ σ w = none ∨ ∃ x ∈ t.occurrences, σ x = some (.rigid w)) →
      w ∈ (substAll σ t).occurrences
  | .con _ _, _, _, _, h => by simp [occurrences] at h
  | .var x sort kind, σ, _, _, h => by
    rw [substAll]
    rcases h with ⟨hw, hnone⟩ | ⟨y, hy, hsome⟩
    · obtain rfl := List.mem_singleton.1 hw
      rw [hnone]
      exact hw
    · obtain rfl := List.mem_singleton.1 hy
      rw [hsome]
      exact List.mem_singleton_self w
  | .app head args, σ, hσ, hsafe, h => by
    obtain ⟨hhead, hargs⟩ := allSchemes_app.1 hsafe
    rw [substAll, occurrences_apply, List.mem_append]
    exact (kept_or_put_append h).imp (mem_substAll_of_letterSafe head hσ hhead)
      (mem_substAllList_of_letterSafe args hσ hargs)
  | .scheme vars body, σ, hσ, hsafe, h => by
    obtain ⟨hvars, hbody⟩ := allSchemes_scheme.1 hsafe
    have hmasked : PutsLetters fun x => if x ∈ vars then none else σ x := by
      intro x u hx
      dsimp only at hx
      split at hx
      · cases hx
      · exact hσ x u hx
    rw [substAll, occurrences, List.mem_filter, decide_eq_true_eq]
    rcases h with ⟨hw, hnone⟩ | ⟨x, hx, hsome⟩
    · obtain ⟨hw, hfree⟩ := List.mem_filter.1 hw
      rw [decide_eq_true_eq] at hfree
      refine ⟨mem_substAll_of_letterSafe body hmasked hbody (.inl ⟨hw, ?_⟩), hfree⟩
      rw [if_neg hfree, hnone]
    · obtain ⟨hx, hfree⟩ := List.mem_filter.1 hx
      rw [decide_eq_true_eq] at hfree
      refine ⟨mem_substAll_of_letterSafe body hmasked hbody (.inr ⟨x, hx, ?_⟩), fun hcaught => ?_⟩
      · rw [if_neg hfree, hsome]
      -- The quantifier has a free variable under it, so that it binds no letter.
      · obtain ⟨i, hi⟩ := hσ x _ hsome
        cases hi
        rcases letterSafe_iff.1 hvars with hclosed | hplain
        · exact hfree (hclosed x hx)
        · have := isLetterName_letterName i
          rw [hplain _ hcaught] at this
          cases this

lemma Ty.mem_substAllList_of_letterSafe {w : String} : (args : List Ty) →
    {σ : String → Option Ty} → PutsLetters σ → allSchemesList letterSafe args →
      (w ∈ occurrencesList args ∧ σ w = none ∨
        ∃ x ∈ occurrencesList args, σ x = some (.rigid w)) →
      w ∈ occurrencesList (substAllList σ args)
  | [], _, _, _, h => by simp [occurrencesList] at h
  | a :: args, σ, hσ, hsafe, h => by
    obtain ⟨ha, hargs⟩ := allSchemesList_cons.1 hsafe
    exact List.mem_append.2 ((kept_or_put_append h).imp (mem_substAll_of_letterSafe a hσ ha)
      (mem_substAllList_of_letterSafe args hσ hargs))
end

namespace Scheme

lemma exists_letterName_of_mem_letters {s : Scheme} {x : String} (h : x ∈ s.letters) :
    ∃ i, x = letterName i := by
  obtain ⟨i, _, rfl⟩ := List.mem_map.1 (List.mem_filter.1 (List.mem_of_mem_take h)).1
  exact ⟨i, rfl⟩

lemma putsLetters_letterFor (s : Scheme) : PutsLetters s.letterFor := by
  intro x u hx
  obtain ⟨y, hy, rfl⟩ := s.letterFor_eq_some hx
  obtain ⟨i, rfl⟩ := exists_letterName_of_mem_letters hy
  exact ⟨i, rfl⟩

/-- Nothing is free in a canonical body but its letters and what the scheme left free. -/
lemma mem_letters_or_free {s : Scheme} {x : String} (h : x ∈ s.canonical.body.occurrences) :
    x ∈ s.canonical.vars ∨ x ∈ s.body.occurrences ∧ x ∉ s.vars := by
  rw [canonical_eq] at h
  rw [canonical_eq, NameSet.mem_ofList]
  rcases Ty.mem_occurrences_substAll s.body h with ⟨hx, hnone⟩ | ⟨y, _, u, hsome, hx⟩
  · refine .inr ⟨hx, fun hvars => ?_⟩
    obtain ⟨y, _, hsome⟩ := letterFor_isSome (mem_usedVars.2 ⟨hx, hvars⟩)
    rw [hnone] at hsome
    cases hsome
  · obtain ⟨z, hz, rfl⟩ := s.letterFor_eq_some hsome
    obtain rfl := List.mem_singleton.1 hx
    exact .inl hz

/-- The free variables of a canonical body are its letters and what the scheme left free. -/
lemma mem_occurrences_canonical {s : Scheme} (hs : s.body.allSchemes letterSafe) {x : String} :
    x ∈ s.canonical.body.occurrences ↔
      x ∈ s.canonical.vars ∨ x ∈ s.body.occurrences ∧ x ∉ s.vars := by
  refine ⟨mem_letters_or_free, ?_⟩
  rw [canonical_eq, NameSet.mem_ofList]
  · intro h
    refine Ty.mem_substAll_of_letterSafe s.body s.putsLetters_letterFor hs ?_
    rcases h with h | ⟨hx, hvars⟩
    · obtain ⟨i, hi, rfl⟩ := List.mem_iff_getElem.1 h
      have hi' : i < s.usedVars.length := s.length_letters ▸ hi
      refine .inr ⟨s.usedVars[i], (mem_usedVars.1 (List.getElem_mem hi')).1, ?_⟩
      refine s.letterFor_of_mem_zip (List.mem_iff_getElem.2 ⟨i, ?_, ?_⟩)
      · rw [List.length_zip]
        omega
      · rw [List.getElem_zip]
    · exact .inl ⟨hx, s.letterFor_eq_none fun hused => hvars (mem_usedVars.1 hused).2⟩

end Scheme

/-! ### Exact quantifiers -/

namespace Ty

/-- Whether the type, if it is quantified, binds exactly the variables free in its body. -/
def Exact : Ty → Prop
  | .scheme vars body => ∀ x, x ∈ vars ↔ x ∈ body.occurrences
  | _ => True

/-- A quantified type that is not idle uses all that it binds. -/
lemma mem_occurrences_of_idleVars? {vars : NameSet} {body : Ty}
    (h : (Ty.scheme vars body).idleVars? = none) {x : String} (hx : x ∈ vars) :
    x ∈ body.occurrences := by
  rw [idleVars?] at h
  split at h
  · cases h
  · split at h
    · rename_i hnil
      have := List.filter_eq_nil_iff.1 hnil x hx
      simpa [freeVars] using this
    · cases h

lemma occurrences_of_bindable_isEmpty {t : Ty} (h : (t.bindable []).isEmpty) :
    t.occurrences = [] := by
  refine List.eq_nil_iff_forall_not_mem.2 fun x hx => ?_
  have hmem : x ∈ t.bindable [] := mem_bindable.2 ⟨hx, by simp⟩
  rw [NameSet.isEmpty, List.isEmpty_iff] at h
  rw [← NameSet.mem_names, h] at hmem
  cases hmem

/-- What has no free variable and is not idle is exact. -/
lemma exact_of_closed {t : Ty} (hidle : t.idleVars? = none) (hclosed : t.occurrences = []) :
    t.Exact := by
  cases t with
  | scheme vars body =>
    refine fun x => ⟨fun hx => mem_occurrences_of_idleVars? hidle hx, fun hx => ?_⟩
    by_contra hvars
    have hfree : x ∈ (Ty.scheme vars body).occurrences :=
      List.mem_filter.2 ⟨hx, by simpa using hvars⟩
    rw [hclosed] at hfree
    cases hfree
  | con _ _ => trivial
  | var _ _ _ => trivial
  | app _ _ => trivial

lemma occurrences_of_exact {vars : NameSet} {body : Ty} (h : (Ty.scheme vars body).Exact) :
    (Ty.scheme vars body).occurrences = [] := by
  refine List.eq_nil_iff_forall_not_mem.2 fun x hx => ?_
  obtain ⟨hx, hfree⟩ := List.mem_filter.1 hx
  exact absurd ((h x).2 hx) (by simpa using hfree)

/-- Quantifying a type closes it exactly. -/
lemma quantify_exact {t q : Ty} (hq : t.quantify = .ok q) : q.occurrences = [] ∧ q.Exact := by
  obtain ⟨hidle, hcase⟩ := quantifyExcept_eq_ok.1 hq
  split at hcase
  · rename_i hempty
    subst hcase
    have hclosed := occurrences_of_bindable_isEmpty hempty
    exact ⟨hclosed, exact_of_closed hidle hclosed⟩
  · obtain ⟨_, rfl⟩ := hcase
    have hexact : (Ty.scheme (t.bindable []) t).Exact := fun x => by simp [mem_bindable]
    exact ⟨occurrences_of_exact hexact, hexact⟩

/-- Closing a type frees no variable. -/
lemma occurrences_generalize {t g : Ty} {fixed : List String} (ht : t.allSchemes letterSafe)
    (hg : t.generalize fixed = .ok g) : g.occurrences ⊆ t.occurrences := by
  obtain ⟨_, _, hcase⟩ := generalize_eq_ok hg
  split at hcase
  · rw [hcase]
    exact List.Subset.refl _
  · intro x hx
    rw [hcase] at hx
    obtain ⟨hx, hletters⟩ := List.mem_filter.1 hx
    have hbody : (t.closure fixed).body.allSchemes letterSafe := by
      rw [body_closure]
      exact allSchemes_matrix ht
    obtain ⟨hx, hvars⟩ := ((Scheme.mem_occurrences_canonical hbody).1 hx).resolve_left
      (by simpa using hletters)
    cases t with
    | scheme vars body => exact List.mem_filter.2 ⟨hx, by simpa [closure] using hvars⟩
    | con _ _ => exact hx
    | var _ _ _ => exact hx
    | app _ _ => exact hx

/-- Nothing is left to be free in the closure of a type in which nothing is fixed. -/
lemma mem_vars_closure {t g : Ty} (hg : t.generalize [] = .ok g) {x : String}
    (hx : x ∈ (t.closure []).body.occurrences) : x ∈ (t.closure []).vars := by
  obtain ⟨_, hscheme, _⟩ := generalize_eq_ok hg
  cases t with
  | scheme vars body =>
    by_contra hvars
    have hvars : x ∉ vars := hvars
    have hfree : x ∈ (Ty.scheme vars body).occurrences :=
      List.mem_filter.2 ⟨hx, by simpa using hvars⟩
    rw [occurrences_of_bindable_isEmpty (hscheme rfl)] at hfree
    cases hfree
  | con _ _ => exact mem_bindable.2 ⟨hx, by simp⟩
  | var _ _ _ => exact mem_bindable.2 ⟨hx, by simp⟩
  | app _ _ => exact mem_bindable.2 ⟨hx, by simp⟩

/-- Closing an inferred type in which nothing is fixed leaves no variable free. -/
lemma generalize_closed {t g : Ty} (hg : t.generalize [] = .ok g) : g.occurrences = [] := by
  obtain ⟨_, _, hcase⟩ := generalize_eq_ok hg
  split at hcase
  · rename_i h
    exact hcase ▸ occurrences_of_bindable_isEmpty h.2
  · refine List.eq_nil_iff_forall_not_mem.2 fun x hx => ?_
    rw [hcase] at hx
    obtain ⟨hx, hletters⟩ := List.mem_filter.1 hx
    rcases Scheme.mem_letters_or_free hx with hx | ⟨hx, hvars⟩
    · exact absurd hx (by simpa using hletters)
    · exact hvars (mem_vars_closure hg hx)

/-- Closing an inferred type in which nothing is fixed closes it exactly, if its letters are caught
nowhere. -/
lemma generalize_exact {t g : Ty} (ht : t.allSchemes letterSafe) (hg : t.generalize [] = .ok g) :
    g.occurrences = [] ∧ g.Exact := by
  refine ⟨generalize_closed hg, ?_⟩
  obtain ⟨hidle, _, hcase⟩ := generalize_eq_ok hg
  split at hcase
  · exact exact_of_closed (hcase ▸ hidle) (generalize_closed hg)
  · have hbody : (t.closure []).body.allSchemes letterSafe := by
      rw [body_closure]
      exact allSchemes_matrix ht
    rw [hcase]
    intro x
    refine ⟨fun hx => (Scheme.mem_occurrences_canonical hbody).2 (.inl hx), fun hx => ?_⟩
    rcases Scheme.mem_letters_or_free hx with hx | ⟨hx, hvars⟩
    · exact hx
    · exact absurd (mem_vars_closure hg hx) hvars

end Ty

end LetPoly
