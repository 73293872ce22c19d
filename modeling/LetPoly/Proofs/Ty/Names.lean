import LetPoly.Ty.Scheme
import Mathlib.Data.List.Nodup
import Mathlib.Data.List.Perm.Subperm
import Mathlib.Tactic.Lemma

/-!
# Names that inference makes up

The names of solvable variables, those of rigid variables and the letter names are kept apart by
their apostrophes: letter names have none, and the last apostrophe of a made-up name is followed by
a `t` if the variable is solvable and by a digit if it is rigid. So no made-up name is caught by a
quantifier over letters, and numbers tell made-up names apart.
-/

namespace LetPoly

/-- The apostrophe. -/
def apostrophe : Char := Char.ofNat 39

/-- Names without an apostrophe. -/
def PlainName (name : String) : Prop := apostrophe ∉ name.toList

instance : DecidablePred PlainName := fun _ => inferInstanceAs (Decidable (_ ∉ _))

lemma toDigits_injective {m n : Nat} (h : Nat.toDigits 10 m = Nat.toDigits 10 n) : m = n := by
  rw [← Nat.ofDigitChars_ten_toDigits (n := m), h, Nat.ofDigitChars_ten_toDigits]

lemma toList_toString (n : Nat) : (toString n).toList = Nat.toDigits 10 n := by
  rw [Nat.toString_eq_ofList_toDigits, String.toList_ofList]

lemma apostrophe_not_mem_toDigits (n : Nat) : apostrophe ∉ Nat.toDigits 10 n := by
  intro h
  exact absurd (Nat.isDigit_of_mem_toDigits (by omega) (by omega) h) (by decide)

/-- What follows the last apostrophe is determined. -/
lemma append_apostrophe_inj {l l' r r' : List Char} (hr : apostrophe ∉ r) (hr' : apostrophe ∉ r')
    (h : l ++ apostrophe :: r = l' ++ apostrophe :: r') : l = l' ∧ r = r' := by
  rcases List.append_eq_append_iff.1 h with ⟨m, hl, hm⟩ | ⟨m, hl, hm⟩
  · cases m with
    | nil => exact ⟨by simpa using hl.symm, by simpa using hm⟩
    | cons c m =>
      rw [List.cons_append, List.cons.injEq] at hm
      exact absurd (hm.2 ▸ by simp) hr
  · cases m with
    | nil => exact ⟨by simpa using hl, by simpa using hm.symm⟩
    | cons c m =>
      rw [List.cons_append, List.cons.injEq] at hm
      exact absurd (hm.2 ▸ by simp) hr'

namespace Ty

lemma toList_freshName (id : Nat) :
    (freshName id).toList = [] ++ apostrophe :: 't' :: Nat.toDigits 10 id := by
  rw [freshName, String.toList_append, toList_toString]
  rfl

lemma toList_skolemName (name : String) (id : Nat) :
    (skolemName name id).toList = name.toList ++ apostrophe :: Nat.toDigits 10 id := by
  rw [skolemName, String.toList_append, String.toList_append, toList_toString, List.append_assoc]
  rfl

lemma freshName_injective {m n : Nat} (h : freshName m = freshName n) : m = n := by
  have h := congrArg String.toList h
  rw [toList_freshName, toList_freshName] at h
  exact toDigits_injective (by simpa using h)

lemma skolemName_injective {x y : String} {m n : Nat} (h : skolemName x m = skolemName y n) :
    x = y ∧ m = n := by
  have h := congrArg String.toList h
  rw [toList_skolemName, toList_skolemName] at h
  obtain ⟨hx, hm⟩ := append_apostrophe_inj (apostrophe_not_mem_toDigits m)
    (apostrophe_not_mem_toDigits n) h
  exact ⟨String.toList_injective hx, toDigits_injective hm⟩

lemma freshName_ne_skolemName (m : Nat) (x : String) (n : Nat) :
    freshName m ≠ skolemName x n := by
  intro h
  have h := congrArg String.toList h
  rw [toList_freshName, toList_skolemName] at h
  have hm : apostrophe ∉ 't' :: Nat.toDigits 10 m :=
    List.not_mem_cons_of_ne_of_not_mem (by decide) (apostrophe_not_mem_toDigits m)
  obtain ⟨_, hdigits⟩ := append_apostrophe_inj hm (apostrophe_not_mem_toDigits n) h
  have hmem : 't' ∈ Nat.toDigits 10 n := hdigits ▸ List.mem_cons_self
  exact absurd (Nat.isDigit_of_mem_toDigits (by omega) (by omega) hmem) (by decide)

lemma not_plainName_freshName (id : Nat) : ¬ PlainName (freshName id) := by
  rw [PlainName, toList_freshName]
  simp

lemma not_plainName_skolemName (name : String) (id : Nat) : ¬ PlainName (skolemName name id) := by
  rw [PlainName, toList_skolemName]
  simp

end Ty

/-! ### Letter names -/

lemma toList_letterName (i : Nat) : (letterName i).toList =
    Char.ofNat (97 + i % 26) :: if i < 26 then [] else Nat.toDigits 10 (i / 26) := by
  rw [letterName]
  split
  · simp
  · rw [String.toList_append, toList_toString]
    simp

lemma ofNat_letter_ne_apostrophe {i : Nat} (h : i < 26) : Char.ofNat (97 + i) ≠ apostrophe := by
  revert i
  decide

lemma ofNat_letter_injective {i j : Nat} (hi : i < 26) (hj : j < 26)
    (h : Char.ofNat (97 + i) = Char.ofNat (97 + j)) : i = j := by
  have hall : ∀ i < 26, ∀ j < 26, Char.ofNat (97 + i) = Char.ofNat (97 + j) → i = j := by decide
  exact hall i hi j hj h

lemma plainName_letterName (i : Nat) : PlainName (letterName i) := by
  rw [PlainName, toList_letterName]
  refine List.not_mem_cons_of_ne_of_not_mem
    (ofNat_letter_ne_apostrophe (Nat.mod_lt i (by omega))).symm ?_
  split
  · simp
  · exact apostrophe_not_mem_toDigits _

lemma letterName_injective : Function.Injective letterName := by
  intro i j h
  have h := congrArg String.toList h
  rw [toList_letterName, toList_letterName, List.cons.injEq] at h
  have hmod := ofNat_letter_injective (Nat.mod_lt i (by omega)) (Nat.mod_lt j (by omega)) h.1
  have hdiv : i / 26 = j / 26 := by
    by_cases hi : i < 26 <;> by_cases hj : j < 26
    · omega
    · exact absurd h.2.symm (by simp [hi, hj])
    · exact absurd h.2 (by simp [hi, hj])
    · rw [if_neg hi, if_neg hj] at h
      exact toDigits_injective h.2
  omega

lemma freeLetters_subset {taken : List String} {count : Nat} {x : String}
    (h : x ∈ freeLetters taken count) : PlainName x ∧ x ∉ taken := by
  have h := List.mem_filter.1 (List.mem_of_mem_take h)
  obtain ⟨i, _, rfl⟩ := List.mem_map.1 h.1
  exact ⟨plainName_letterName i, by simpa using h.2⟩

lemma nodup_freeLetters (taken : List String) (count : Nat) : (freeLetters taken count).Nodup := by
  rw [freeLetters]
  exact ((List.nodup_range.map letterName_injective).filter _).sublist (List.take_sublist _ _)

lemma length_freeLetters (taken : List String) (count : Nat) :
    (freeLetters taken count).length = count := by
  rw [freeLetters, List.length_take, Nat.min_eq_left]
  -- At most `taken.length` of the names are taken, as no two are the same.
  have hnodup := (List.nodup_range (n := taken.length + count)).map letterName_injective
  have htaken : ((List.range (taken.length + count)).map letterName).countP (· ∈ taken) ≤
      taken.length := by
    rw [List.countP_eq_length_filter]
    refine (List.subperm_of_subset (hnodup.filter _) fun x hx => ?_).length_le
    simpa using (List.mem_filter.1 hx).2
  have hall := List.length_eq_countP_add_countP (· ∈ taken)
    (l := (List.range (taken.length + count)).map letterName)
  rw [List.length_map, List.length_range] at hall
  rw [← List.countP_eq_length_filter]
  simp only [decide_not, decide_eq_true_eq] at hall htaken ⊢
  omega

end LetPoly
