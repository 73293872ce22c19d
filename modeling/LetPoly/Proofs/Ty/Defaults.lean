import LetPoly.Proofs.Ty.RoundTrip
import LetPoly.Proofs.Unification.Order

/-!
# Defaults in types

One type without solvable variables, put for several variables of a type one after the other, is put
for all of them at once (`Ty.assignAll_eq`). Quantifiers may stand anywhere: what a scheme binds is
left alone by both. The applications have to be normal, since a substitution makes those normal that
it passes.
-/

namespace LetPoly

namespace Ty

/-! ### Normal types -/

/-- Whether the type is an application. -/
def isApp : Ty → Bool
  | .app _ _ => true
  | _ => false

mutual
/-- Whether every application in the type has arguments and a head that is no application. -/
def isNormal : Ty → Bool
  | .con _ _ => true
  | .var _ _ _ => true
  | .app head args => !head.isApp && head.isNormal && !args.isEmpty && isNormalList args
  | .scheme _ body => body.isNormal

/-- Whether all types of a list are normal. -/
def isNormalList : List Ty → Bool
  | [] => true
  | a :: args => a.isNormal && isNormalList args
end

lemma isNormal_app {head : Ty} {args : List Ty} : (app head args).isNormal ↔
    head.isApp = false ∧ head.isNormal ∧ args ≠ [] ∧ isNormalList args := by
  simp [isNormal, and_assoc]

lemma isNormalList_append {as bs : List Ty} :
    isNormalList (as ++ bs) ↔ isNormalList as ∧ isNormalList bs := by
  induction as with
  | nil => simp [isNormalList]
  | cons a as ih =>
    rw [List.cons_append, isNormalList, isNormalList, Bool.and_eq_true, Bool.and_eq_true, ih,
      and_assoc]

/-- A head that is no application takes its arguments as they are. -/
lemma apply_eq_app {head : Ty} {args : List Ty} (hhead : head.isApp = false) (hne : args ≠ []) :
    apply head args = app head args := by
  cases args with
  | nil => exact absurd rfl hne
  | cons a args =>
    cases head with
    | app _ _ => cases hhead
    | con _ _ => rfl
    | var _ _ _ => rfl
    | scheme _ _ => rfl

lemma isNormal_apply {head : Ty} {args : List Ty} (hhead : head.isNormal)
    (hargs : isNormalList args) : (apply head args).isNormal := by
  cases args with
  | nil => exact hhead
  | cons a args =>
    have hne : a :: args ≠ [] := List.cons_ne_nil a args
    cases head with
    | app head first =>
      obtain ⟨happ, hhead, -, hfirst⟩ := isNormal_app.1 hhead
      exact isNormal_app.2 ⟨happ, hhead, by simp, isNormalList_append.2 ⟨hfirst, hargs⟩⟩
    | con _ _ => exact isNormal_app.2 ⟨rfl, hhead, hne, hargs⟩
    | var _ _ _ => exact isNormal_app.2 ⟨rfl, hhead, hne, hargs⟩
    | scheme _ _ => exact isNormal_app.2 ⟨rfl, hhead, hne, hargs⟩

/-! ### Substitution in normal types -/

lemma substList_append (v : String) (t : Ty) (as bs : List Ty) :
    substList v t (as ++ bs) = substList v t as ++ substList v t bs := by
  induction as with
  | nil => rfl
  | cons a as ih => rw [List.cons_append, substList, substList, ih, List.cons_append]

lemma subst_apply (v : String) (t head : Ty) (args : List Ty) :
    subst v t (apply head args) = apply (subst v t head) (substList v t args) := by
  cases args with
  | nil => rfl
  | cons a args =>
    cases head with
    | app head first =>
      show subst v t (.app head (first ++ a :: args)) = _
      rw [subst, subst, substList_append, apply_append]
    | con _ _ => rfl
    | var _ _ _ => rfl
    | scheme _ _ => rfl

mutual
/-- A normal type without the variable stays as it is. -/
lemma subst_eq_self {v : String} {t : Ty} : (s : Ty) → s.isNormal → v ∉ s.unknowns →
    subst v t s = s
  | .con _ _, _, _ => rfl
  | .var x .solvable _, _, h => by
    have hx : ¬ x = v := fun hx => h (by simp [unknowns, hx])
    rw [subst, if_neg hx]
  | .var _ .rigid _, _, _ => rfl
  | .app head args, hs, h => by
    obtain ⟨happ, hhead, hne, hargs⟩ := isNormal_app.1 hs
    rw [unknowns, List.mem_append, not_or] at h
    rw [subst, subst_eq_self head hhead h.1, substList_eq_self args hargs h.2,
      apply_eq_app happ hne]
  | .scheme vars body, hs, h => by
    rw [subst]
    split
    · rfl
    · rename_i hv
      have hbody : v ∉ body.unknowns := fun hmem => h (List.mem_filter.2 ⟨hmem, by simpa using hv⟩)
      rw [subst_eq_self body hs hbody]

lemma substList_eq_self {v : String} {t : Ty} : (args : List Ty) → isNormalList args →
    v ∉ unknownsList args → substList v t args = args
  | [], _, _ => rfl
  | a :: args, hs, h => by
    rw [isNormalList, Bool.and_eq_true] at hs
    rw [unknownsList, List.mem_append, not_or] at h
    rw [substList, subst_eq_self a hs.1 h.1, substList_eq_self args hs.2 h.2]
end

lemma assign_eq_subst {s : Ty} (hs : s.isNormal) (v : String) (t : Ty) :
    Term.assign v t s = subst v t s := by
  rw [Term.assign]
  split
  · rfl
  · rename_i hocc
    exact (subst_eq_self s hs (by simpa [Term.occurs, Term.vars] using hocc)).symm

/-! ### One type for many variables -/

mutual
/-- Put `d` for the free solvable variables that `p` holds of, all at once. -/
def putWhere (p : String → Bool) (d : Ty) : Ty → Ty
  | .con name kind => .con name kind
  | .var name .solvable kind => if p name then d else .var name .solvable kind
  | .var name .rigid kind => .var name .rigid kind
  | .app head args => apply (putWhere p d head) (putWhereList p d args)
  | .scheme vars body => .scheme vars (putWhere (fun x => p x && x ∉ vars) d body)

/-- Put `d` for the free solvable variables that `p` holds of in each type of a list. -/
def putWhereList (p : String → Bool) (d : Ty) : List Ty → List Ty
  | [] => []
  | a :: args => putWhere p d a :: putWhereList p d args
end

mutual
lemma isNormal_putWhere {d : Ty} (hd : d.isNormal) : (t : Ty) → (p : String → Bool) →
    t.isNormal → (putWhere p d t).isNormal
  | .con _ _, _, _ => rfl
  | .var x .solvable _, p, _ => by
    rw [putWhere]
    split
    · exact hd
    · rfl
  | .var _ .rigid _, _, _ => rfl
  | .app head args, p, h => by
    obtain ⟨-, hhead, -, hargs⟩ := isNormal_app.1 h
    exact isNormal_apply (isNormal_putWhere hd head p hhead) (isNormalList_putWhereList hd args p hargs)
  | .scheme _ body, p, h => isNormal_putWhere hd body _ h

lemma isNormalList_putWhereList {d : Ty} (hd : d.isNormal) : (args : List Ty) →
    (p : String → Bool) → isNormalList args → isNormalList (putWhereList p d args)
  | [], _, _ => rfl
  | a :: args, p, h => by
    rw [isNormalList, Bool.and_eq_true] at h
    rw [putWhereList, isNormalList, Bool.and_eq_true]
    exact ⟨isNormal_putWhere hd a p h.1, isNormalList_putWhereList hd args p h.2⟩
end

mutual
/-- Which variables are replaced matters only for those that are there. -/
lemma putWhere_congr {d : Ty} : (t : Ty) → {p q : String → Bool} →
    (∀ x ∈ t.unknowns, p x = q x) → putWhere p d t = putWhere q d t
  | .con _ _, _, _, _ => rfl
  | .var x .solvable _, _, _, h => by
    rw [putWhere, putWhere, h x (List.mem_singleton_self x)]
  | .var _ .rigid _, _, _, _ => rfl
  | .app head args, _, _, h => by
    rw [putWhere, putWhere, putWhere_congr head fun x hx => h x (List.mem_append_left _ hx),
      putWhereList_congr args fun x hx => h x (List.mem_append_right _ hx)]
  | .scheme vars body, p, q, h => by
    rw [putWhere, putWhere, putWhere_congr body fun x hx => ?_]
    by_cases hv : x ∈ vars
    · simp [hv]
    · rw [h x (List.mem_filter.2 ⟨hx, by simpa using hv⟩)]

lemma putWhereList_congr {d : Ty} : (args : List Ty) → {p q : String → Bool} →
    (∀ x ∈ unknownsList args, p x = q x) → putWhereList p d args = putWhereList q d args
  | [], _, _, _ => rfl
  | a :: args, _, _, h => by
    rw [putWhereList, putWhereList, putWhere_congr a fun x hx => h x (List.mem_append_left _ hx),
      putWhereList_congr args fun x hx => h x (List.mem_append_right _ hx)]
end

mutual
lemma putWhere_false {d : Ty} : (t : Ty) → t.isNormal → putWhere (fun _ => false) d t = t
  | .con _ _, _ => rfl
  | .var _ .solvable _, _ => rfl
  | .var _ .rigid _, _ => rfl
  | .app head args, h => by
    obtain ⟨happ, hhead, hne, hargs⟩ := isNormal_app.1 h
    rw [putWhere, putWhere_false head hhead, putWhereList_false args hargs, apply_eq_app happ hne]
  | .scheme vars body, h => by
    simp only [putWhere, Bool.false_and]
    rw [putWhere_false body h]

lemma putWhereList_false {d : Ty} : (args : List Ty) → isNormalList args →
    putWhereList (fun _ => false) d args = args
  | [], _ => rfl
  | a :: args, h => by
    rw [isNormalList, Bool.and_eq_true] at h
    rw [putWhereList, putWhere_false a h.1, putWhereList_false args h.2]
end

-- The variables replaced so far are part of the statement: below a scheme they are fewer.
mutual
/-- One more variable joins those that are replaced. -/
lemma subst_putWhere {d : Ty} (hd : d.isNormal) (hclosed : d.unknowns = []) (v : String) : (t : Ty) →
    (p : String → Bool) → subst v d (putWhere p d t) = putWhere (fun x => p x || x = v) d t
  | .con _ _, _ => rfl
  | .var x .solvable kind, p => by
    rw [putWhere, putWhere]
    cases hp : p x with
    | true => exact subst_eq_self d hd (by simp [hclosed])
    | false => simp [subst]
  | .var _ .rigid _, _ => rfl
  | .app head args, p => by
    rw [putWhere, putWhere, subst_apply, subst_putWhere hd hclosed v head,
      substList_putWhereList hd hclosed v args]
  | .scheme vars body, p => by
    rw [putWhere, putWhere, subst]
    split
    · rename_i hv
      refine congrArg (scheme vars) (putWhere_congr body fun x _ => ?_)
      by_cases hx : x = v
      · simp [hx, hv]
      · simp [hx]
    · rename_i hv
      rw [subst_putWhere hd hclosed v body]
      refine congrArg (scheme vars) (putWhere_congr body fun x _ => ?_)
      by_cases hx : x = v
      · simp [hx, hv]
      · simp [hx]

lemma substList_putWhereList {d : Ty} (hd : d.isNormal) (hclosed : d.unknowns = []) (v : String) :
    (args : List Ty) → (p : String → Bool) →
    substList v d (putWhereList p d args) = putWhereList (fun x => p x || x = v) d args
  | [], _ => rfl
  | a :: args, p => by
    rw [putWhereList, putWhereList, substList, subst_putWhere hd hclosed v a,
      substList_putWhereList hd hclosed v args]
end

section Closed

variable {d : Ty} (hd : d.isNormal) (hclosed : d.unknowns = [])

include hd hclosed

lemma assignAll_putWhere {t : Ty} (ht : t.isNormal) (vs : List String) (p : String → Bool) :
    assignAll d vs (putWhere p d t) = putWhere (fun x => p x || x ∈ vs) d t := by
  induction vs generalizing p with
  | nil => exact putWhere_congr t fun x _ => by simp
  | cons v vs ih =>
    show assignAll d vs (Term.assign v d (putWhere p d t)) = _
    rw [assign_eq_subst (isNormal_putWhere hd t p ht), subst_putWhere hd hclosed, ih]
    exact putWhere_congr t fun x _ => by simp [Bool.or_assoc]

/-- A type without solvable variables, put for variables one after the other, is put for all of them
at once, as long as each variable of the type gets its turn. -/
lemma assignAll_eq {t : Ty} (ht : t.isNormal) {vs : List String} (hvs : t.unknowns ⊆ vs) :
    assignAll d vs t = putWhere (fun _ => true) d t := by
  have hstart := assignAll_putWhere hd hclosed ht vs fun _ => false
  rw [putWhere_false t ht] at hstart
  exact hstart.trans (putWhere_congr t fun x hx => by simpa using hvs hx)

end Closed

end Ty

end LetPoly
