import LetPoly.Proofs.Kinding.Declarative
import LetPoly.Proofs.Ty.Exact

/-!
# Renaming of type variables

`Ty.rename f` puts `f x` for every variable `x` of a type, free or bound. Every operation on types
commutes with an injective renaming: substitution, decomposition and comparison of types always,
closures if letter names keep their names. An instance of a scheme does not depend on the names of
the variables that are put in for, so there the scheme and the instance may be renamed in two ways
(`Ty.rename_substAll`).
-/

namespace LetPoly

variable {f g : String → String}

/-! ### Sets of names -/

lemma eraseDups_map_of_injOn {α β : Type} [BEq α] [LawfulBEq α] [BEq β] [LawfulBEq β] {f : α → β}
    (l : List α) (hf : ∀ a ∈ l, ∀ b ∈ l, f a = f b → a = b) :
    (l.map f).eraseDups = l.eraseDups.map f := by
  match l with
  | [] => rfl
  | a :: l =>
    have hfilter : (l.map f).filter (fun b => !b == f a) = (l.filter fun b => !b == a).map f := by
      rw [List.filter_map]
      refine congrArg (List.map f) (List.filter_congr fun b hb => ?_)
      have heq : f b = f a ↔ b = a :=
        ⟨hf b (List.mem_cons_of_mem _ hb) a List.mem_cons_self, congrArg f⟩
      simp [heq]
    rw [List.map_cons, List.eraseDups_cons, List.eraseDups_cons, List.map_cons, hfilter,
      eraseDups_map_of_injOn (l.filter _)]
    intro b hb c hc
    exact hf b (List.mem_cons_of_mem _ (List.mem_filter.1 hb).1) c
      (List.mem_cons_of_mem _ (List.mem_filter.1 hc).1)
termination_by l.length
decreasing_by exact Nat.lt_succ_of_le (List.length_filter_le _ _)

lemma eraseDups_map {α β : Type} [BEq α] [LawfulBEq α] [BEq β] [LawfulBEq β] {f : α → β}
    (hf : Function.Injective f) (l : List α) : (l.map f).eraseDups = l.eraseDups.map f :=
  eraseDups_map_of_injOn l fun _ _ _ _ h => hf h

namespace NameSet

/-- Rename the names of a set. -/
def rename (f : String → String) (s : NameSet) : NameSet := .ofList (s.names.map f)

lemma eq_of_names {s t : NameSet} (h : s.names = t.names) : s = t := by
  cases s
  cases t
  congr

lemma names_rename (hf : Function.Injective f) (s : NameSet) :
    (s.rename f).names = s.names.map f :=
  names_ofList (s.nodup.map hf)

lemma mem_rename (hf : Function.Injective f) {x : String} {s : NameSet} :
    f x ∈ s.rename f ↔ x ∈ s := by
  rw [← mem_names, names_rename hf, List.mem_map_of_injective hf, mem_names]

lemma rename_congr {s : NameSet} (h : ∀ x ∈ s, f x = g x) : s.rename f = s.rename g := by
  rw [rename, rename, List.map_congr_left h]

lemma ofList_map (hf : Function.Injective f) (l : List String) :
    ofList (l.map f) = (ofList l).rename f :=
  eq_of_names ((eraseDups_map hf l).trans (names_rename hf (ofList l)).symm)

lemma filter_rename (hf : Function.Injective f) {s : NameSet} {p q : String → Bool}
    (h : ∀ x, q (f x) = p x) : (s.rename f).filter q = (s.filter p).rename f := by
  refine eq_of_names ?_
  show ((s.rename f).names.filter q) = ((s.filter p).rename f).names
  rw [names_rename hf, names_rename hf, List.filter_map, show q ∘ f = p from funext h]
  rfl

lemma isEmpty_rename (s : NameSet) (hf : Function.Injective f) :
    (s.rename f).isEmpty = s.isEmpty := by
  rw [isEmpty, isEmpty, names_rename hf, List.isEmpty_map]

lemma same_iff {vs ws : NameSet} : vs.same ws ↔ ∀ x, x ∈ vs ↔ x ∈ ws := by
  simp only [same, Bool.and_eq_true, beq_iff_eq, List.all_eq_true, decide_eq_true_eq]
  constructor
  · intro ⟨hlength, hsub⟩ x
    exact ((List.subperm_of_subset vs.nodup hsub).perm_of_length_le hlength.ge).mem_iff
  · intro h
    have hperm : vs.names.Perm ws.names := (List.perm_ext_iff_of_nodup vs.nodup ws.nodup).2 h
    exact ⟨hperm.length_eq, fun x hx => (h x).1 hx⟩

lemma same_rename (hf : Function.Injective f) (s t : NameSet) :
    (s.rename f).same (t.rename f) = s.same t := by
  simp [same, names_rename hf, List.all_map, Function.comp_def, mem_rename hf]

end NameSet

/-! ### Types -/

namespace Ty

mutual
/-- Rename the variables of a type, those that are bound included. -/
def rename (f : String → String) : Ty → Ty
  | .con name kind => .con name kind
  | .var name sort kind => .var (f name) sort kind
  | .app head args => .app (head.rename f) (renameList f args)
  | .scheme vars body => .scheme (vars.rename f) (body.rename f)

/-- Rename the variables of a list of types. -/
def renameList (f : String → String) : List Ty → List Ty
  | [] => []
  | a :: args => a.rename f :: renameList f args
end

lemma renameList_eq (f : String → String) (args : List Ty) :
    renameList f args = args.map (rename f) := by
  induction args with
  | nil => rfl
  | cons a args ih => rw [renameList, ih, List.map_cons]

@[simp] lemma length_renameList (f : String → String) (args : List Ty) :
    (renameList f args).length = args.length := by
  rw [renameList_eq, List.length_map]

mutual
/-- Renamings that agree on the variables of a type do the same to it. -/
lemma rename_congr : (t : Ty) → (∀ x ∈ t.variableNames, f x = g x) → t.rename f = t.rename g
  | .con _ _, _ => rfl
  | .var x sort kind, h => by rw [rename, rename, h x (List.mem_singleton_self x)]
  | .app head args, h => by
    rw [rename, rename, rename_congr head fun x hx => h x (List.mem_append_left _ hx),
      renameList_congr args fun x hx => h x (List.mem_append_right _ hx)]
  | .scheme vars body, h => by
    rw [rename, rename, NameSet.rename_congr fun x hx => h x (List.mem_append_left _ hx),
      rename_congr body fun x hx => h x (List.mem_append_right _ hx)]

lemma renameList_congr : (args : List Ty) → (∀ x ∈ variableNamesList args, f x = g x) →
    renameList f args = renameList g args
  | [], _ => rfl
  | a :: args, h => by
    rw [renameList, renameList, rename_congr a fun x hx => h x (List.mem_append_left _ hx),
      renameList_congr args fun x hx => h x (List.mem_append_right _ hx)]
end

mutual
lemma rename_id : (t : Ty) → t.rename id = t
  | .con _ _ => rfl
  | .var _ _ _ => rfl
  | .app head args => by rw [rename, rename_id head, renameList_id args]
  | .scheme vars body => by
    rw [rename, rename_id body,
      NameSet.eq_of_names ((vars.names_rename Function.injective_id).trans (List.map_id _))]

lemma renameList_id : (args : List Ty) → renameList id args = args
  | [] => rfl
  | a :: args => by rw [renameList, rename_id a, renameList_id args]
end

lemma rename_apply (f : String → String) (head : Ty) (args : List Ty) :
    (apply head args).rename f = apply (head.rename f) (renameList f args) := by
  simp only [renameList_eq]
  cases args with
  | nil => rfl
  | cons a args =>
    cases head with
    | app head first => simp [apply, rename, renameList_eq]
    | con _ _ => simp [apply, rename, renameList_eq]
    | var _ _ _ => simp [apply, rename, renameList_eq]
    | scheme _ _ => simp [apply, rename, renameList_eq]

@[simp] lemma isArrowConstructor_rename (f : String → String) (t : Ty) :
    (t.rename f).isArrowConstructor = t.isArrowConstructor := by
  cases t <;> rfl

@[simp] lemma isScheme_rename (f : String → String) (t : Ty) :
    (t.rename f).isScheme = t.isScheme := by
  cases t <;> rfl

lemma rename_function (f : String → String) (params : List Ty) (result : Ty) :
    (function params result).rename f = function (params.map (rename f)) (result.rename f) := by
  induction params with
  | nil => rfl
  | cons a params ih =>
    show (arrow a (function params result)).rename f = arrow _ (function _ _)
    rw [← ih]
    rfl

lemma arity_rename (f : String → String) : (t : Ty) → (t.rename f).arity = t.arity
  | .app head [a, b] => by
    rw [rename, renameList, renameList, renameList, arity, arity, isArrowConstructor_rename,
      arity_rename f b]
  | .con _ _ | .var _ _ _ | .scheme _ _ | .app _ [] | .app _ [_] | .app _ (_ :: _ :: _ :: _) => rfl

/-! ### Variables -/

mutual
lemma occurrences_rename (hf : Function.Injective f) : (t : Ty) →
    (t.rename f).occurrences = t.occurrences.map f
  | .con _ _ => rfl
  | .var _ _ _ => rfl
  | .app head args => by
    rw [rename, occurrences, occurrences, occurrences_rename hf head, occurrencesList_rename hf args,
      List.map_append]
  | .scheme vars body => by
    rw [rename, occurrences, occurrences, occurrences_rename hf body, List.filter_map]
    congr 2
    funext x
    simp [NameSet.mem_rename hf]

lemma occurrencesList_rename (hf : Function.Injective f) : (args : List Ty) →
    occurrencesList (renameList f args) = (occurrencesList args).map f
  | [] => rfl
  | a :: args => by
    rw [renameList, occurrencesList, occurrencesList, occurrences_rename hf a,
      occurrencesList_rename hf args, List.map_append]
end

mutual
lemma unknowns_rename (hf : Function.Injective f) : (t : Ty) →
    (t.rename f).unknowns = t.unknowns.map f
  | .con _ _ => rfl
  | .var _ .solvable _ => rfl
  | .var _ .rigid _ => rfl
  | .app head args => by
    rw [rename, unknowns, unknowns, unknowns_rename hf head, unknownsList_rename hf args,
      List.map_append]
  | .scheme vars body => by
    rw [rename, unknowns, unknowns, unknowns_rename hf body, List.filter_map]
    congr 2
    funext x
    simp [NameSet.mem_rename hf]

lemma unknownsList_rename (hf : Function.Injective f) : (args : List Ty) →
    unknownsList (renameList f args) = (unknownsList args).map f
  | [] => rfl
  | a :: args => by
    rw [renameList, unknownsList, unknownsList, unknowns_rename hf a, unknownsList_rename hf args,
      List.map_append]
end

lemma freeVars_rename (hf : Function.Injective f) (t : Ty) :
    (t.rename f).freeVars = t.freeVars.rename f := by
  rw [freeVars, freeVars, occurrences_rename hf, NameSet.ofList_map hf]

mutual
/-- Renamed types are equal if the types are. -/
lemma same_rename (hf : Function.Injective f) : (s t : Ty) →
    (s.rename f).same (t.rename f) = s.same t
  | .con _ _, .con _ _ => rfl
  | .var _ _ _, .var _ _ _ => by rw [rename, rename, same, same, hf.beq_eq]
  | .app f as, .app g bs => by
    rw [rename, rename, same, same, same_rename hf f g, sameList_rename hf as bs]
  | .scheme vs a, .scheme ws b => by
    rw [rename, rename, same, same, NameSet.same_rename hf, same_rename hf a b]
  | .con _ _, .var _ _ _ | .con _ _, .app _ _ | .con _ _, .scheme _ _
  | .var _ _ _, .con _ _ | .var _ _ _, .app _ _ | .var _ _ _, .scheme _ _
  | .app _ _, .con _ _ | .app _ _, .var _ _ _ | .app _ _, .scheme _ _
  | .scheme _ _, .con _ _ | .scheme _ _, .var _ _ _ | .scheme _ _, .app _ _ => rfl

lemma sameList_rename (hf : Function.Injective f) : (as bs : List Ty) →
    sameList (renameList f as) (renameList f bs) = sameList as bs
  | [], [] => rfl
  | a :: as, b :: bs => by
    rw [renameList, renameList, sameList, sameList, same_rename hf a b, sameList_rename hf as bs]
  | [], _ :: _ | _ :: _, [] => rfl
end

/-! ### Substitutions -/

mutual
lemma rename_subst (hf : Function.Injective f) (v : String) (t : Ty) : (s : Ty) →
    (subst v t s).rename f = subst (f v) (t.rename f) (s.rename f)
  | .con _ _ => rfl
  | .var x .solvable kind => by
    rw [rename, subst, subst]
    by_cases hx : x = v
    · rw [if_pos hx, if_pos (congrArg f hx)]
    · rw [if_neg hx, if_neg (hf.ne hx), rename]
  | .var _ .rigid _ => rfl
  | .app head args => by
    rw [rename, subst, subst, rename_apply, rename_subst hf v t head, renameList_substList hf v t args]
  | .scheme vars body => by
    rw [rename, subst, subst]
    by_cases hv : v ∈ vars
    · rw [if_pos hv, if_pos ((NameSet.mem_rename hf).2 hv), rename]
    · rw [if_neg hv, if_neg (mt (NameSet.mem_rename hf).1 hv), rename, rename_subst hf v t body]

lemma renameList_substList (hf : Function.Injective f) (v : String) (t : Ty) : (args : List Ty) →
    renameList f (substList v t args) = substList (f v) (t.rename f) (renameList f args)
  | [] => rfl
  | a :: args => by
    rw [substList, renameList, renameList, substList, rename_subst hf v t a,
      renameList_substList hf v t args]
end

lemma decompose_rename (f : String → String) (s t : Ty) :
    decompose (s.rename f) (t.rename f) =
      (decompose s t).map (List.map (Prod.map (rename f) (rename f))) := by
  match s, t with
  | .con a _, .con b _ =>
    simp only [rename, decompose]
    split <;> rfl
  | .app h as, .app k bs =>
    simp only [rename, decompose, renameList_eq, List.length_map, ← List.map_take, ← List.map_drop,
      Option.map_some, List.map_cons, Prod.map, List.zip_map]
    rw [← renameList_eq f (as.take _), ← renameList_eq f (bs.take _), ← rename_apply, ← rename_apply]
  | .con _ _, .var _ _ _ | .con _ _, .app _ _ | .con _ _, .scheme _ _
  | .var _ _ _, .con _ _ | .var _ _ _, .var _ _ _ | .var _ _ _, .app _ _
  | .var _ _ _, .scheme _ _
  | .app _ _, .con _ _ | .app _ _, .var _ _ _ | .app _ _, .scheme _ _
  | .scheme _ _, .con _ _ | .scheme _ _, .var _ _ _ | .scheme _ _, .app _ _
  | .scheme _ _, .scheme _ _ => rfl

mutual
/-- The names that quantifiers in a type bind. -/
def binders : Ty → List String
  | .con _ _ => []
  | .var _ _ _ => []
  | .app head args => head.binders ++ bindersList args
  | .scheme vars body => vars.names ++ body.binders

/-- The names that quantifiers in a list of types bind. -/
def bindersList : List Ty → List String
  | [] => []
  | a :: args => a.binders ++ bindersList args
end

/-- The names that quantifiers bind in a type or, if it is quantified itself, in its body. -/
def innerBinders : Ty → List String
  | .scheme _ body => body.binders
  | t => t.binders

lemma innerBinders_of_isScheme {t : Ty} (h : t.isScheme = false) : t.innerBinders = t.binders := by
  cases t with
  | scheme _ _ => cases h
  | con _ _ => rfl
  | var _ _ _ => rfl
  | app _ _ => rfl

lemma innerBinders_subset (t : Ty) : t.innerBinders ⊆ t.binders := by
  cases t with
  | scheme _ _ => exact List.subset_append_right _ _
  | con _ _ => exact List.Subset.refl _
  | var _ _ _ => exact List.Subset.refl _
  | app _ _ => exact List.Subset.refl _

mutual
/-- A variable is free in a type or bound there. -/
lemma mem_occurrences_or_binders {x : String} : (t : Ty) → x ∈ t.variableNames →
    x ∈ t.occurrences ∨ x ∈ t.binders
  | .con _ _, h => by cases h
  | .var _ _ _, h => .inl h
  | .app head args, h => by
    simp only [occurrences, binders, List.mem_append]
    rcases List.mem_append.1 h with h | h
    · exact (mem_occurrences_or_binders head h).imp .inl .inl
    · exact (mem_occurrencesList_or_bindersList args h).imp .inr .inr
  | .scheme vars body, h => by
    simp only [occurrences, binders, List.mem_append, List.mem_filter, decide_eq_true_eq]
    by_cases hx : x ∈ vars
    · exact .inr (.inl hx)
    · have h := (List.mem_append.1 h).resolve_left hx
      exact (mem_occurrences_or_binders body h).imp (fun h => ⟨h, hx⟩) .inr

lemma mem_occurrencesList_or_bindersList {x : String} : (args : List Ty) → x ∈ variableNamesList args →
    x ∈ occurrencesList args ∨ x ∈ bindersList args
  | [], h => by cases h
  | a :: args, h => by
    simp only [occurrencesList, bindersList, List.mem_append]
    rcases List.mem_append.1 h with h | h
    · exact (mem_occurrences_or_binders a h).imp .inl .inl
    · exact (mem_occurrencesList_or_bindersList args h).imp .inr .inr
end

mutual
/-- What substitution puts in may be renamed by `g` and the type itself by `f`, if they agree on the
names that stay. -/
lemma rename_substAll (hf : Function.Injective f) : (t : Ty) → {σ σ' : String → Option Ty} →
    (∀ x ∈ t.occurrences, (σ' (f x) = (σ x).map (rename g)) ∧ (σ x = none → f x = g x)) →
    (∀ x ∈ t.binders, f x = g x) → (t.substAll σ).rename g = (t.rename f).substAll σ'
  | .con _ _, _, _, _, _ => rfl
  | .var x sort kind, σ, σ', hfree, _ => by
    obtain ⟨hσ, hnone⟩ := hfree x (List.mem_singleton_self x)
    rw [rename, substAll, substAll, hσ]
    cases hx : σ x with
    | some u => rfl
    | none =>
      rw [hnone hx]
      rfl
  | .app head args, σ, σ', hfree, hbound => by
    rw [rename, substAll, substAll, rename_apply,
      rename_substAll hf head (fun x hx => hfree x (List.mem_append_left _ hx))
        fun x hx => hbound x (List.mem_append_left _ hx),
      renameList_substAllList hf args (fun x hx => hfree x (List.mem_append_right _ hx))
        fun x hx => hbound x (List.mem_append_right _ hx)]
  | .scheme vars body, σ, σ', hfree, hbound => by
    have hvars : ∀ x ∈ vars, f x = g x := fun x hx => hbound x (List.mem_append_left _ hx)
    rw [rename, substAll, substAll, rename, ← NameSet.rename_congr hvars]
    congr 1
    refine rename_substAll hf body (fun x hx => ?_) fun x hx => hbound x (List.mem_append_right _ hx)
    simp only [NameSet.mem_rename hf]
    by_cases hmem : x ∈ vars
    · rw [if_pos hmem, if_pos hmem]
      exact ⟨rfl, fun _ => hvars x hmem⟩
    · rw [if_neg hmem, if_neg hmem]
      exact hfree x (List.mem_filter.2 ⟨hx, by simpa using hmem⟩)

lemma renameList_substAllList (hf : Function.Injective f) : (args : List Ty) →
    {σ σ' : String → Option Ty} →
    (∀ x ∈ occurrencesList args,
      (σ' (f x) = (σ x).map (rename g)) ∧ (σ x = none → f x = g x)) →
    (∀ x ∈ bindersList args, f x = g x) →
    renameList g (substAllList σ args) = substAllList σ' (renameList f args)
  | [], _, _, _, _ => rfl
  | a :: args, _, _, hfree, hbound => by
    rw [substAllList, renameList, renameList, substAllList,
      rename_substAll hf a (fun x hx => hfree x (List.mem_append_left _ hx))
        fun x hx => hbound x (List.mem_append_left _ hx),
      renameList_substAllList hf args (fun x hx => hfree x (List.mem_append_right _ hx))
        fun x hx => hbound x (List.mem_append_right _ hx)]
end

end Ty

/-! ### Schemes -/

lemma substOf_rename (hf : Function.Injective f) (names : List String) (types : List Ty)
    (x : String) : substOf ((names.map f).zip (types.map (Ty.rename g))) (f x) =
      (substOf (names.zip types) x).map (Ty.rename g) := by
  rw [substOf, substOf, List.zip_map, ← List.map_reverse, List.find?_map]
  have hkey : (fun p : String × Ty => p.1 == f x) ∘ Prod.map f (Ty.rename g) = fun p => p.1 == x := by
    funext p
    exact hf.beq_eq
  rw [hkey, Option.map_map, Option.map_map]
  rfl

namespace Scheme

/-- Rename the variables of a scheme. -/
def rename (f : String → String) (s : Scheme) : Scheme := ⟨s.vars.rename f, s.body.rename f⟩

@[simp] lemma toTy_rename (f : String → String) (s : Scheme) :
    (s.rename f).toTy = s.toTy.rename f := by
  rw [toTy, toTy, Ty.rename, rename]

/-- Instances do not depend on the names of the variables that types are put in for. -/
lemma instantiate_rename (hf : Function.Injective f) (s : Scheme) {types : List Ty}
    (hlen : types.length = s.vars.names.length)
    (hfree : ∀ x ∈ s.toTy.occurrences, f x = g x) (hbound : ∀ x ∈ s.body.binders, f x = g x) :
    (s.rename f).instantiate (types.map (Ty.rename g)) = (s.instantiate types).rename g := by
  refine (Ty.rename_substAll hf s.body (fun x hx => ⟨?_, fun hnone => hfree x ?_⟩) hbound).symm
  · rw [rename, NameSet.names_rename hf, substOf_rename hf]
  · refine List.mem_filter.2 ⟨hx, ?_⟩
    rw [substOf_zip s.vars.nodup hlen] at hnone
    by_contra hmem
    rw [if_pos (by simpa using hmem), List.getElem?_eq_none_iff, hlen] at hnone
    have := List.idxOf_lt_length_of_mem (show x ∈ s.vars.names by simpa using hmem)
    omega

end Scheme

/-- Which letters are free does not depend on other names. -/
lemma freeLetters_map (hf : Function.Injective f) (hletter : ∀ i, f (letterName i) = letterName i)
    (taken : List String) (count : Nat) : freeLetters (taken.map f) count = freeLetters taken count := by
  rw [freeLetters, freeLetters, List.length_map]
  congr 1
  refine List.filter_congr fun x hx => ?_
  obtain ⟨i, _, rfl⟩ := List.mem_map.1 hx
  have hmem : f (letterName i) ∈ taken.map f ↔ letterName i ∈ taken := List.mem_map_of_injective hf
  rw [hletter i] at hmem
  simp only [hmem]

lemma Scheme.canonical_rename (hf : Function.Injective f)
    (hletter : ∀ i, f (letterName i) = letterName i) (s : Scheme) :
    (s.rename f).canonical = s.canonical.rename f := by
  have hused : (s.rename f).usedVars = s.usedVars.map f := by
    rw [usedVars, usedVars, rename, Ty.freeVars_rename hf, NameSet.names_rename hf, List.filter_map]
    simp [Function.comp_def, NameSet.mem_rename hf]
  have hletters : (s.rename f).letters = s.letters := by
    rw [letters, letters, hused, rename, Ty.freeVars_rename hf, NameSet.names_rename hf,
      List.filter_map, List.length_map]
    simp only [Function.comp_def, NameSet.mem_rename hf, freeLetters_map hf hletter]
  have hfixed : ∀ x ∈ s.letters, f x = x := by
    intro x hx
    have hx := List.mem_filter.1 (List.mem_of_mem_take hx)
    obtain ⟨i, _, rfl⟩ := List.mem_map.1 hx.1
    exact hletter i
  have htypes : (s.letters.map Ty.rigid).map (Ty.rename f) = s.letters.map Ty.rigid := by
    rw [List.map_map]
    refine List.map_congr_left fun x hx => ?_
    show Ty.var (f x) .rigid none = .var x .rigid none
    rw [hfixed x hx]
  rw [canonical_eq, canonical_eq, hletters, rename]
  congr 1
  · refine NameSet.eq_of_names ?_
    rw [NameSet.names_rename hf, NameSet.names_ofList s.nodup_letters, List.map_congr_left hfixed,
      List.map_id']
  · refine (Ty.rename_substAll hf s.body (fun x _ => ⟨?_, fun _ => rfl⟩) fun _ _ => rfl).symm
    show substOf ((s.rename f).usedVars.zip ((s.rename f).letters.map Ty.rigid)) (f x) = _
    rw [hused, hletters, ← htypes, substOf_rename hf]
    rfl

/-! ### Closures -/

namespace Ty

mutual
lemma idleVars?_rename (hf : Function.Injective f) : (t : Ty) →
    (t.rename f).idleVars? = t.idleVars?.map (List.map f)
  | .con _ _ => rfl
  | .var _ _ _ => rfl
  | .app head args => by
    rw [rename, idleVars?, idleVars?, idleVars?_rename hf head, idleVarsList?_rename hf args]
    cases head.idleVars? <;> rfl
  | .scheme vars body => by
    rw [rename, idleVars?, idleVars?, idleVars?_rename hf body]
    cases body.idleVars? with
    | some idle => rfl
    | none =>
      have hidle : (vars.rename f).names.filter (· ∉ (body.rename f).freeVars) =
          (vars.names.filter (· ∉ body.freeVars)).map f := by
        rw [NameSet.names_rename hf, List.filter_map, freeVars_rename hf]
        simp only [Function.comp_def, NameSet.mem_rename hf]
      simp only [Option.map_none, hidle]
      cases vars.names.filter (· ∉ body.freeVars) <;> rfl

lemma idleVarsList?_rename (hf : Function.Injective f) : (args : List Ty) →
    idleVarsList? (renameList f args) = (idleVarsList? args).map (List.map f)
  | [] => rfl
  | a :: args => by
    rw [renameList, idleVarsList?, idleVarsList?, idleVars?_rename hf a, idleVarsList?_rename hf args]
    cases a.idleVars? <;> rfl
end

lemma bindable_rename (hf : Function.Injective f) (t : Ty) (fixed : List String) :
    (t.rename f).bindable (fixed.map f) = (t.bindable fixed).rename f := by
  rw [bindable, bindable, freeVars_rename hf]
  exact NameSet.filter_rename hf fun x => by simp [List.mem_map_of_injective hf]

/-- Quantifying a renamed type. -/
lemma quantifyExcept_rename (hf : Function.Injective f) {t q : Ty} {fixed : List String} :
    (t.rename f).quantifyExcept (fixed.map f) = .ok q ↔
      ∃ q₀, t.quantifyExcept fixed = .ok q₀ ∧ q = q₀.rename f := by
  simp only [quantifyExcept_eq_ok, idleVars?_rename hf, bindable_rename hf, isScheme_rename,
    Option.map_eq_none_iff, NameSet.isEmpty_rename _ hf]
  split
  · simp
  · exact ⟨fun h => ⟨_, ⟨h.1, h.2.1, rfl⟩, by rw [h.2.2, rename]⟩, by
      rintro ⟨_, ⟨hidle, hscheme, rfl⟩, rfl⟩
      exact ⟨hidle, hscheme, by rw [rename]⟩⟩

lemma quantify_rename (hf : Function.Injective f) {t q : Ty} :
    (t.rename f).quantify = .ok q ↔ ∃ q₀, t.quantify = .ok q₀ ∧ q = q₀.rename f :=
  @quantifyExcept_rename f hf t q []

/-- Give the variables of a quantified type canonical names. -/
def canonize : Ty → Ty
  | .scheme vars body => (Scheme.canonical ⟨vars, body⟩).toTy
  | t => t

lemma canonize_rename (hf : Function.Injective f) (hletter : ∀ i, f (letterName i) = letterName i)
    (t : Ty) : (t.rename f).canonize = t.canonize.rename f := by
  cases t with
  | scheme vars body =>
    show ((Scheme.mk vars body).rename f).canonical.toTy = _
    rw [Scheme.canonical_rename hf hletter, Scheme.toTy_rename]
    rfl
  | con _ _ => rfl
  | var _ _ _ => rfl
  | app _ _ => rfl

lemma generalize_eq (t : Ty) (fixed : List String) :
    t.generalize fixed = (t.quantifyExcept fixed).map canonize := by
  rw [generalize]
  cases t.quantifyExcept fixed with
  | error e => rfl
  | ok q => cases q <;> rfl

lemma generalize_eq_ok_iff {t g : Ty} {fixed : List String} : t.generalize fixed = .ok g ↔
    ∃ q, t.quantifyExcept fixed = .ok q ∧ g = q.canonize := by
  rw [generalize_eq]
  cases t.quantifyExcept fixed with
  | error e => simp [Except.map]
  | ok q => simp [Except.map, eq_comm]

lemma generalize_rename (hf : Function.Injective f) (hletter : ∀ i, f (letterName i) = letterName i)
    {t q : Ty} {fixed : List String} : (t.rename f).generalize (fixed.map f) = .ok q ↔
      ∃ q₀, t.generalize fixed = .ok q₀ ∧ q = q₀.rename f := by
  simp only [generalize_eq_ok_iff, quantifyExcept_rename hf]
  constructor
  · rintro ⟨_, ⟨q₀, hq₀, rfl⟩, rfl⟩
    exact ⟨_, ⟨q₀, hq₀, rfl⟩, canonize_rename hf hletter q₀⟩
  · rintro ⟨_, ⟨q₀, hq₀, rfl⟩, rfl⟩
    exact ⟨_, ⟨q₀, hq₀, rfl⟩, (canonize_rename hf hletter q₀).symm⟩

/-! ### Recorded kinds -/

mutual
lemma fill_rename (f : String → String) : (t : Ty) → (kinds : List Kind) →
    (t.rename f).fill kinds = ((t.fill kinds).1.rename f, (t.fill kinds).2)
  | .con _ none, [] => rfl
  | .con _ none, _ :: _ => rfl
  | .con _ (some _), _ => rfl
  | .var _ _ none, [] => rfl
  | .var _ _ none, _ :: _ => rfl
  | .var _ _ (some _), _ => rfl
  | .app head args, kinds => by
    simp only [rename, fill, fill_rename f head, fillList_renameList f args]
  | .scheme vars body, kinds => by simp only [rename, fill, fill_rename f body]

lemma fillList_renameList (f : String → String) : (args : List Ty) → (kinds : List Kind) →
    fillList (renameList f args) kinds =
      (renameList f (fillList args kinds).1, (fillList args kinds).2)
  | [], _ => rfl
  | a :: args, kinds => by
    simp only [renameList, fillList, fill_rename f a, fillList_renameList f args]
end

mutual
lemma binders_unslotted : (t : Ty) → t.unslotted.binders = t.binders
  | .con _ _ => rfl
  | .var _ _ _ => rfl
  | .app head args => by
    simp only [unslotted, binders, binders_unslotted head, bindersList_unslottedList args]
  | .scheme vars body => by simp only [unslotted, binders, binders_unslotted body]

lemma bindersList_unslottedList : (args : List Ty) →
    bindersList (unslottedList args) = bindersList args
  | [] => rfl
  | a :: args => by
    simp only [unslottedList, bindersList, binders_unslotted a, bindersList_unslottedList args]
end

lemma innerBinders_unslotted (t : Ty) : t.unslotted.innerBinders = t.innerBinders := by
  cases t with
  | con _ _ => rfl
  | var _ _ _ => rfl
  | app head args => exact binders_unslotted (.app head args)
  | scheme vars body => exact binders_unslotted body

mutual
lemma variableNames_unslotted : (t : Ty) → t.unslotted.variableNames = t.variableNames
  | .con _ _ => rfl
  | .var _ _ _ => rfl
  | .app head args => by
    simp only [unslotted, variableNames, variableNames_unslotted head,
      variableNamesList_unslottedList args]
  | .scheme vars body => by simp only [unslotted, variableNames, variableNames_unslotted body]

lemma variableNamesList_unslottedList : (args : List Ty) →
    variableNamesList (unslottedList args) = variableNamesList args
  | [] => rfl
  | a :: args => by
    simp only [unslottedList, variableNamesList, variableNames_unslotted a,
      variableNamesList_unslottedList args]
end

lemma binders_fill (t : Ty) (kinds : List Kind) : (t.fill kinds).1.binders = t.binders := by
  rw [← binders_unslotted, unslotted_fill, binders_unslotted]

lemma innerBinders_fill (t : Ty) (kinds : List Kind) :
    (t.fill kinds).1.innerBinders = t.innerBinders := by
  rw [← innerBinders_unslotted, unslotted_fill, innerBinders_unslotted]

lemma variableNames_fill (t : Ty) (kinds : List Kind) :
    (t.fill kinds).1.variableNames = t.variableNames := by
  rw [← variableNames_unslotted, unslotted_fill, variableNames_unslotted]

end Ty

end LetPoly
