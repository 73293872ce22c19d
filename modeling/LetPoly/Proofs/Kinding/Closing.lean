import LetPoly.Proofs.Kinding.Solving
import LetPoly.Proofs.Ty.Exact

/-!
# Kinds of instances and closures

Instances of a quantified type and its canonical form put new names for the names that it binds.
The new names get the kinds of the old ones (`KindFrame.rekind`), and the types keep theirs.
-/

namespace LetPoly

namespace KindFrame

variable {F : KindFrame} {Δ Δ₁ : String → Kind} {q : String → Bool}

/-- The kinds `Δ`, but for new names the kinds that `Δ₁` gives the old names at the same places. -/
def rekind (Δ Δ₁ : String → Kind) (old new : List String) (x : String) : Kind :=
  if x ∈ new then Δ₁ (old.getD (new.idxOf x) x) else Δ x

lemma rekind_of_not_mem {old new : List String} {x : String} (hx : x ∉ new) :
    rekind Δ Δ₁ old new x = Δ x :=
  if_neg hx

lemma var_rekind (hΔ : ∀ x, F.Var (Δ x)) (hΔ₁ : ∀ x, F.Var (Δ₁ x)) (old new : List String)
    (x : String) : F.Var (rekind Δ Δ₁ old new x) := by
  rw [rekind]
  split
  · exact hΔ₁ _
  · exact hΔ x

/-- A body keeps its kind when variables of new names are put for the old ones. -/
lemma HasKind.rename {body : Ty} {old new : List String} (mk : String → Ty)
    (hmk : ∃ sort, ∀ y, mk y = .var y sort none) (hold : old.Nodup) (hnew : new.Nodup)
    (hlen : new.length = old.length) (hΔ : ∀ x, F.Var (Δ x)) (hΔ₁ : ∀ x, F.Var (Δ₁ x))
    (hall : body.allSchemes (avoids q)) (hq : ∀ y ∈ new, q y)
    (hsame : ∀ x ∈ body.occurrences, x ∉ old → x ∉ new ∧ Δ₁ x = Δ x) {k : Kind}
    (h : F.HasKind Δ₁ body k) :
    F.HasKind (rekind Δ Δ₁ old new) (body.substAll (substOf (old.zip (new.map mk)))) k := by
  obtain ⟨sort, hmk⟩ := hmk
  refine HasKind.substAll body hΔ₁ (var_rekind hΔ hΔ₁ old new) hall ⟨fun {x u} hx hσ => ?_,
    fun {x} hx hσ => ?_⟩ h
  · rw [substOf_zip hold (by rw [List.length_map, hlen])] at hσ
    split at hσ
    · next hmem =>
      have hi := List.idxOf_lt_length_of_mem hmem
      have hi' : old.idxOf x < new.length := by omega
      rw [List.getElem?_map, List.getElem?_eq_getElem hi', Option.map_some, Option.some.injEq,
        hmk] at hσ
      subst hσ
      refine ⟨hasKind_var_iff.2 ⟨by simp, ?_⟩, fun y hy => ?_⟩
      · rw [rekind, if_pos (List.getElem_mem hi'), hnew.idxOf_getElem _ hi',
          List.getD_eq_getElem _ _ hi, List.getElem_idxOf]
      · obtain rfl := List.mem_singleton.1 hy
        exact hq _ (List.getElem_mem hi')
    · cases hσ
  · rw [substOf_zip hold (by rw [List.length_map, hlen])] at hσ
    split at hσ
    · next hmem =>
      have hi' : old.idxOf x < new.length := hlen ▸ List.idxOf_lt_length_of_mem hmem
      rw [List.getElem?_map, List.getElem?_eq_getElem hi'] at hσ
      cases hσ
    · next hmem =>
      obtain ⟨hnot, heq⟩ := hsame x hx hmem
      rw [rekind_of_not_mem hnot, heq]

/-! ### Closures -/

/-- The canonical form of a quantified type keeps its kind. -/
lemma HasKind.canonical {s : Scheme} (hΔ : ∀ x, F.Var (Δ x)) (hall : s.body.allSchemes letterSafe)
    (h : F.HasKind Δ s.toTy .atomic) : F.HasKind Δ s.canonical.toTy .atomic := by
  obtain ⟨⟨Δ₁, hoff, hon, hbody⟩, _⟩ := hasKind_scheme_iff.1 h
  have hnew : ∀ x, x ∉ s.canonical.vars → rekind Δ Δ₁ s.usedVars s.letters x = Δ x := by
    intro x hx
    rw [Scheme.canonical_eq, NameSet.mem_ofList] at hx
    exact rekind_of_not_mem hx
  refine .scheme hnew (fun x _ => var_rekind hΔ (var_under hΔ hoff hon) _ _ x) ?_
  refine HasKind.rename Ty.rigid ⟨.rigid, fun _ => rfl⟩ s.nodup_usedVars s.nodup_letters
    s.length_letters hΔ (var_under hΔ hoff hon) hall (fun y hy => ?_) (fun x hx hused => ?_) hbody
  · obtain ⟨i, rfl⟩ := Scheme.exists_letterName_of_mem_letters hy
    exact isLetterName_letterName i
  · have hvars : x ∉ s.vars := fun hvars => hused (Scheme.mem_usedVars.2 ⟨hx, hvars⟩)
    refine ⟨fun hletter => (freeLetters_subset hletter).2 ?_, hoff x hvars⟩
    exact List.mem_filter.2 ⟨NameSet.mem_ofList.2 hx, by simpa using hvars⟩

/-- Closing a type keeps its kind. -/
lemma HasKind.generalize {t g : Ty} {fixed : List String} (hΔ : ∀ x, F.Var (Δ x))
    (hall : t.allSchemes letterSafe) (h : F.HasKind Δ t .atomic)
    (hg : t.generalize fixed = .ok g) : F.HasKind Δ g .atomic := by
  obtain ⟨_, _, hcase⟩ := Ty.generalize_eq_ok hg
  split at hcase
  · exact hcase ▸ h
  · rw [hcase]
    refine HasKind.canonical hΔ ?_ ?_
    · rw [Ty.body_closure]
      exact Ty.allSchemes_matrix hall
    · cases t with
      | scheme vars body => exact h
      | con _ _ => exact .scheme (fun _ _ => rfl) (fun x _ => hΔ x) h
      | var _ _ _ => exact .scheme (fun _ _ => rfl) (fun x _ => hΔ x) h
      | app _ _ => exact .scheme (fun _ _ => rfl) (fun x _ => hΔ x) h

end KindFrame

end LetPoly
