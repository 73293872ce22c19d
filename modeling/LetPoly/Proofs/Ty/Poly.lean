import LetPoly.Proofs.Ty.Names
import LetPoly.Proofs.Typing.Poly
import LetPoly.Ty.Quantify

/-!
# Types as polytypes

`Ty.mono` and `Ty.poly` forget kind slots and the sorts of variables. In these readings, filling
slots changes nothing, instantiation is `Poly.inst`, and closing a type is `Poly.close`. Types that
are flat but for a quantifier at the top are called prenex.
-/

namespace LetPoly

namespace Ty

/-- The type as a monotype. -/
def mono (t : Ty) : Mono := t.curry fun n _ => .var n

/-- The type as a polytype. -/
def poly : Ty → Poly
  | .scheme vars body => .close vars.names body.mono
  | t => .ofMono t.mono

/-- Whether the type is flat but for a quantifier at the top. -/
def isPrenex : Ty → Bool
  | .scheme _ body => body.isFlat
  | t => t.isFlat

/-- The type as a scheme. What does not say what it quantifies over quantifies over all of its
variables. -/
def toScheme : Ty → Scheme
  | .scheme vars body => ⟨vars, body⟩
  | t => ⟨t.freeVars, t⟩

/-- The polytype that a type written in a program stands for. -/
def signature (t : Ty) : Poly := t.toScheme.toTy.poly

lemma mono_eq_map_tree (t : Ty) : t.mono = t.tree.map TyVar.name :=
  curry_eq_bind_tree _ t

lemma isPrenex_of_isFlat {t : Ty} (h : t.isFlat) : t.isPrenex := by
  cases t with
  | scheme _ _ => simp [isFlat] at h
  | con _ _ => exact h
  | var _ _ _ => exact h
  | app _ _ => exact h

lemma isFlat_or_scheme {t : Ty} (h : t.isPrenex) :
    t.isFlat ∨ ∃ vars body, t = .scheme vars body ∧ body.isFlat := by
  cases t with
  | scheme vars body => exact Or.inr ⟨vars, body, rfl, h⟩
  | con _ _ => exact Or.inl h
  | var _ _ _ => exact Or.inl h
  | app _ _ => exact Or.inl h

lemma poly_of_isFlat {t : Ty} (h : t.isFlat) : t.poly = .ofMono t.mono := by
  cases t with
  | scheme _ _ => simp [isFlat] at h
  | con _ _ => rfl
  | var _ _ _ => rfl
  | app _ _ => rfl

lemma mono_app (head : Ty) (args : List Ty) :
    (app head args).mono = (args.map mono).foldl .node head.mono :=
  curry_app _ head args

lemma mono_arrow (a b : Ty) : (arrow a b).mono = .arrow a.mono b.mono := by
  rw [arrow, mono_app]
  rfl

lemma mono_function (params : List Ty) (result : Ty) :
    (function params result).mono = .function (params.map mono) result.mono := by
  induction params with
  | nil => rfl
  | cons a params ih =>
    rw [function, List.foldr_cons, mono_arrow, ← function, ih]
    rfl

lemma isFlat_arrow {a b : Ty} : (arrow a b).isFlat ↔ a.isFlat ∧ b.isFlat := by
  rw [arrow, isFlat_app]
  simp [builtin, isAtom]

lemma isFlat_function {params : List Ty} {result : Ty} :
    (function params result).isFlat ↔ (∀ a ∈ params, a.isFlat) ∧ result.isFlat := by
  induction params with
  | nil => simp [function]
  | cons a params ih =>
    rw [function, List.foldr_cons, isFlat_arrow, ← function, ih, List.forall_mem_cons, and_assoc]

/-! ### Free variables -/

mutual
lemma occurrences_eq_vars_mono : (t : Ty) → t.isFlat → t.occurrences = t.mono.vars
  | .con _ _, _ => rfl
  | .var _ _ _, _ => rfl
  | .app head args, h => by
    obtain ⟨hhead, _, hargs⟩ := isFlat_app.1 h
    rw [occurrences, occurrences_eq_vars_mono head (isFlat_of_isAtom hhead),
      occurrencesList_eq_vars_mono args hargs, mono_app, Tree.vars_foldl_node]
  | .scheme _ _, h => by simp [isFlat] at h

lemma occurrencesList_eq_vars_mono : (args : List Ty) → (∀ a ∈ args, a.isFlat) →
    occurrencesList args = (args.map mono).flatMap Tree.vars
  | [], _ => rfl
  | a :: args, h => by
    rw [occurrencesList, occurrences_eq_vars_mono a (h a List.mem_cons_self),
      occurrencesList_eq_vars_mono args fun b hb => h b (List.mem_cons_of_mem _ hb)]
    rfl
end

lemma mem_freeVars_iff {t : Ty} (h : t.isFlat) {x : String} : x ∈ t.freeVars ↔ x ∈ t.mono.vars := by
  rw [freeVars, NameSet.mem_ofList, occurrences_eq_vars_mono t h]

lemma free_poly_iff {t : Ty} (h : t.isPrenex) {x : String} : t.poly.Free x ↔ x ∈ t.freeVars := by
  rcases isFlat_or_scheme h with hflat | ⟨vars, body, rfl, hbody⟩
  · rw [poly_of_isFlat hflat, Poly.free_ofMono, mem_freeVars_iff hflat]
  · rw [poly, Poly.free_close, freeVars, NameSet.mem_ofList, occurrences, List.mem_filter,
      occurrences_eq_vars_mono body hbody]
    simp

mutual
lemma idleVars?_of_isFlat : (t : Ty) → t.isFlat → t.idleVars? = none
  | .con _ _, _ => rfl
  | .var _ _ _, _ => rfl
  | .app head args, h => by
    obtain ⟨hhead, _, hargs⟩ := isFlat_app.1 h
    rw [idleVars?, idleVars?_of_isFlat head (isFlat_of_isAtom hhead),
      idleVarsList?_of_isFlat args hargs]
  | .scheme _ _, h => by simp [isFlat] at h

lemma idleVarsList?_of_isFlat : (args : List Ty) → (∀ a ∈ args, a.isFlat) →
    idleVarsList? args = none
  | [], _ => rfl
  | a :: args, h => by
    rw [idleVarsList?, idleVars?_of_isFlat a (h a List.mem_cons_self),
      idleVarsList?_of_isFlat args fun b hb => h b (List.mem_cons_of_mem _ hb)]
end

end Ty

/-! ### Instances -/

lemma substOf_zip {names : List String} {types : List Ty} (hnodup : names.Nodup)
    (hlen : types.length = names.length) (x : String) :
    substOf (names.zip types) x = if x ∈ names then types[names.idxOf x]? else none := by
  rw [substOf]
  by_cases hx : x ∈ names
  · have hi := List.idxOf_lt_length_of_mem hx
    have hi' : names.idxOf x < types.length := hlen ▸ hi
    have hmem : (x, types[names.idxOf x]) ∈ names.zip types :=
      List.mem_iff_getElem.2 ⟨names.idxOf x, by rw [List.length_zip]; omega, by simp⟩
    have hfind : ((names.zip types).reverse.find? (·.1 == x)).isSome :=
      List.find?_isSome.2 ⟨_, List.mem_reverse.2 hmem, by simp⟩
    obtain ⟨p, hp⟩ := Option.isSome_iff_exists.1 hfind
    -- The entry found stands at the only place of the name.
    have hpx : p.1 = x := by simpa using List.find?_some hp
    obtain ⟨j, hj, hpj⟩ := List.mem_iff_getElem.1
      (List.mem_reverse.1 (List.mem_of_find?_eq_some hp))
    rw [List.length_zip] at hj
    rw [List.getElem_zip] at hpj
    have hji : names.idxOf x = j := by
      rw [← hpx, ← hpj]
      exact hnodup.idxOf_getElem j (by omega)
    rw [hp, if_pos hx, Option.map_some, List.getElem?_eq_getElem hi', ← hpj]
    simp only [hji]
  · have hnone : (names.zip types).reverse.find? (·.1 == x) = none := by
      refine List.find?_eq_none.2 fun p hp => ?_
      have := (List.of_mem_zip (List.mem_reverse.1 hp)).1
      simpa using ne_of_mem_of_not_mem this hx
    rw [hnone, if_neg hx]
    rfl

lemma Scheme.mono_instantiate (s : Scheme) {types : List Ty} {ρ : Nat → Mono}
    (hlen : types.length = s.vars.names.length)
    (hρ : ∀ i (h : i < types.length), ρ i = types[i].mono) :
    (s.instantiate types).mono = s.toTy.poly.inst ρ := by
  rw [instantiate, Ty.mono, Ty.curry_substAll, toTy, Ty.poly, Poly.inst_close, Ty.mono,
    Ty.bind_curry]
  congr 1
  funext x _
  rw [substOf_zip s.vars.nodup hlen, Tree.bind_var]
  by_cases hx : x ∈ s.vars.names
  · have hi : s.vars.names.idxOf x < types.length := hlen ▸ List.idxOf_lt_length_of_mem hx
    rw [if_pos hx, if_pos hx, List.getElem?_eq_getElem hi, hρ _ hi]
    rfl
  · rw [if_neg hx, if_neg hx]
    rfl

lemma Scheme.isFlat_instantiate {s : Scheme} {types : List Ty} (hs : s.body.isFlat)
    (ht : ∀ t ∈ types, t.isFlat) : (s.instantiate types).isFlat := by
  refine Ty.isFlat_substAll (fun x t h => ?_) s.body hs
  obtain ⟨p, hp, rfl⟩ := Option.map_eq_some_iff.1 h
  exact ht _ (List.of_mem_zip (List.mem_reverse.1 (List.mem_of_find?_eq_some hp))).2

/-! ### Recorded kinds -/

namespace Ty

variable {X : Type}

mutual
lemma curry_fill (f : String → VarSort → Tree TyAtom X) : (t : Ty) → (kinds : List Kind) →
    (t.fill kinds).1.curry f = t.curry f
  | .con _ none, [] => rfl
  | .con _ none, _ :: _ => rfl
  | .con _ (some _), _ => rfl
  | .var _ _ none, [] => rfl
  | .var _ _ none, _ :: _ => rfl
  | .var _ _ (some _), _ => rfl
  | .app head args, kinds => by
    rw [fill, curry, curry, curry_fill f head, curryList_fillList f args]
  | .scheme _ _, kinds => rfl

lemma curryList_fillList (f : String → VarSort → Tree TyAtom X) : (args : List Ty) →
    (kinds : List Kind) → curryList f (fillList args kinds).1 = curryList f args
  | [], _ => rfl
  | a :: args, kinds => by
    rw [fillList, curryList, curryList, curry_fill f a, curryList_fillList f args]
end

lemma isAtom_fill (t : Ty) (kinds : List Kind) : (t.fill kinds).1.isAtom = t.isAtom := by
  cases t with
  | con _ kind => cases kind <;> cases kinds <;> rfl
  | var _ _ kind => cases kind <;> cases kinds <;> rfl
  | app _ _ => rfl
  | scheme _ _ => rfl

lemma isEmpty_fillList (args : List Ty) (kinds : List Kind) :
    (fillList args kinds).1.isEmpty = args.isEmpty := by
  cases args <;> rfl

mutual
lemma isFlat_fill : (t : Ty) → (kinds : List Kind) → (t.fill kinds).1.isFlat = t.isFlat
  | .con _ none, [] => rfl
  | .con _ none, _ :: _ => rfl
  | .con _ (some _), _ => rfl
  | .var _ _ none, [] => rfl
  | .var _ _ none, _ :: _ => rfl
  | .var _ _ (some _), _ => rfl
  | .app head args, kinds => by
    rw [fill, isFlat, isFlat, isAtom_fill, isEmpty_fillList, isFlatList_fillList args]
  | .scheme _ _, kinds => rfl

lemma isFlatList_fillList : (args : List Ty) → (kinds : List Kind) →
    isFlatList (fillList args kinds).1 = isFlatList args
  | [], _ => rfl
  | a :: args, kinds => by
    rw [fillList, isFlatList, isFlatList, isFlat_fill a, isFlatList_fillList args]
end

lemma mono_fill (t : Ty) (kinds : List Kind) : (t.fill kinds).1.mono = t.mono :=
  curry_fill _ t kinds

lemma isPrenex_fill (t : Ty) (kinds : List Kind) : (t.fill kinds).1.isPrenex = t.isPrenex := by
  cases t with
  | con _ kind => cases kind <;> cases kinds <;> rfl
  | var _ _ kind => cases kind <;> cases kinds <;> rfl
  | app head args => exact isFlat_fill (.app head args) kinds
  | scheme vars body => exact isFlat_fill body kinds

/-! ### Closing types -/

lemma toScheme_of_isFlat {t : Ty} (h : t.isFlat) : t.toScheme = ⟨t.freeVars, t⟩ := by
  cases t with
  | scheme _ _ => simp [isFlat] at h
  | con _ _ => rfl
  | var _ _ _ => rfl
  | app _ _ => rfl

lemma isScheme_of_isFlat {t : Ty} (h : t.isFlat) : t.isScheme = false := by
  cases t with
  | scheme _ _ => simp [isFlat] at h
  | con _ _ => rfl
  | var _ _ _ => rfl
  | app _ _ => rfl

lemma freeVars_of_isFlat {t : Ty} (h : t.isFlat) : t.freeVars = .ofList t.mono.vars := by
  rw [freeVars, occurrences_eq_vars_mono t h]

lemma signature_of_isFlat {t : Ty} (h : t.isFlat) :
    t.signature = .close t.freeVars.names t.mono := by
  rw [signature, toScheme_of_isFlat h, Scheme.toTy, poly]

/-- A flat type closes over its free variables other than the fixed ones. -/
lemma quantifyExcept_of_isFlat {t : Ty} (h : t.isFlat) (fixed : List String) :
    t.quantifyExcept fixed = .ok (if (t.freeVars.filter (· ∉ fixed)).isEmpty then t
      else .scheme (t.freeVars.filter (· ∉ fixed)) t) := by
  rw [quantifyExcept, checkedFreeVars, idleVars?_of_isFlat t h, isScheme_of_isFlat h]
  show (if _ then _ else _) = _
  split <;> rfl

/-- What closing a prenex type gives: its scheme, or the type itself if there is nothing to quantify
over. -/
lemma quantify_eq_ok {t q : Ty} (h : t.isPrenex) (hq : t.quantify = .ok q) :
    q.isPrenex ∧ q.poly = t.signature ∧ t.signature.Closed ∧
      (q = t.toScheme.toTy ∨ q.isFlat ∧ t.toScheme.vars.names = []) := by
  rcases isFlat_or_scheme h with hflat | ⟨vars, body, rfl, hbody⟩
  · have hclosed : t.signature.Closed := by
      intro x hx
      rw [signature_of_isFlat hflat, Poly.free_close, NameSet.mem_names,
        mem_freeVars_iff hflat] at hx
      exact hx.2 hx.1
    rw [quantify, quantifyExcept_of_isFlat hflat, Except.ok.injEq] at hq
    have hvars : (t.freeVars.filter (· ∉ ([] : List String))).names = t.freeVars.names := by
      simp [NameSet.filter]
    split at hq
    · rename_i hempty
      have hnil : t.freeVars.names = [] := by rw [← hvars, List.isEmpty_iff.1 hempty]
      rw [← hq, poly_of_isFlat hflat, signature_of_isFlat hflat, hnil, Poly.close_nil]
      refine ⟨h, rfl, ?_, Or.inr ⟨hflat, by rw [toScheme_of_isFlat hflat, hnil]⟩⟩
      rwa [signature_of_isFlat hflat, hnil, Poly.close_nil] at hclosed
    · have hset : t.freeVars.filter (· ∉ ([] : List String)) = t.freeVars := by
        cases t.freeVars
        simp [NameSet.filter]
      rw [hset] at hq
      rw [← hq, toScheme_of_isFlat hflat]
      exact ⟨hflat, by rw [signature_of_isFlat hflat, poly], hclosed, Or.inl rfl⟩
  · rw [quantify, quantifyExcept, checkedFreeVars] at hq
    split at hq
    · cases hq
    · change (if _ then _ else _) = _ at hq
      split at hq
      · rename_i hempty
        cases hq
        refine ⟨h, rfl, fun x hx => ?_, Or.inl rfl⟩
        have hx := (free_poly_iff (t := .scheme vars body) h).1 hx
        have hnil : (Ty.scheme vars body).freeVars.names = [] := by
          simpa [NameSet.filter] using List.isEmpty_iff.1 hempty
        rw [← NameSet.mem_names, hnil] at hx
        simp at hx
      · cases hq

lemma freeVars_fill {t : Ty} (h : t.isFlat) (kinds : List Kind) :
    (t.fill kinds).1.freeVars = t.freeVars := by
  rw [freeVars_of_isFlat h, freeVars_of_isFlat ((isFlat_fill t kinds).trans h), mono_fill]

lemma signature_fill {t : Ty} (h : t.isPrenex) (kinds : List Kind) :
    (t.fill kinds).1.signature = t.signature := by
  rcases isFlat_or_scheme h with hflat | ⟨vars, body, rfl, hbody⟩
  · rw [signature_of_isFlat hflat, signature_of_isFlat ((isFlat_fill t kinds).trans hflat),
      freeVars_fill hflat, mono_fill]
  · show Poly.close vars.names (body.fill kinds).1.mono = Poly.close vars.names body.mono
    rw [mono_fill]

lemma toScheme_vars_fill {t : Ty} (h : t.isPrenex) (kinds : List Kind) :
    (t.fill kinds).1.toScheme.vars = t.toScheme.vars := by
  rcases isFlat_or_scheme h with hflat | ⟨vars, body, rfl, hbody⟩
  · rw [toScheme_of_isFlat hflat, toScheme_of_isFlat ((isFlat_fill t kinds).trans hflat),
      freeVars_fill hflat]
  · rfl

lemma quantify_fill {t q : Ty} (h : t.isPrenex) (hq : t.quantify = .ok q) (kinds : List Kind) :
    ∃ q', (t.fill kinds).1.quantify = .ok q' := by
  rcases isFlat_or_scheme h with hflat | ⟨vars, body, rfl, hbody⟩
  · exact ⟨_, quantifyExcept_of_isFlat ((isFlat_fill t kinds).trans hflat) []⟩
  · have hbody' : (body.fill kinds).1.isFlat := (isFlat_fill body kinds).trans hbody
    have hfree : (scheme vars (body.fill kinds).1).freeVars = (scheme vars body).freeVars := by
      rw [freeVars, freeVars, occurrences, occurrences, occurrences_eq_vars_mono _ hbody',
        occurrences_eq_vars_mono _ hbody, mono_fill]
    have hidle : (scheme vars (body.fill kinds).1).idleVars? = (scheme vars body).idleVars? := by
      rw [idleVars?, idleVars?, idleVars?_of_isFlat _ hbody', idleVars?_of_isFlat _ hbody,
        freeVars_fill hbody]
    have hchecked : (scheme vars (body.fill kinds).1).checkedFreeVars =
        (scheme vars body).checkedFreeVars := by
      rw [checkedFreeVars, checkedFreeVars, hidle, hfree]
    show ∃ q', (scheme vars (body.fill kinds).1).quantify = .ok q'
    rw [quantify, quantifyExcept] at hq ⊢
    rw [hchecked]
    cases hc : (scheme vars body).checkedFreeVars with
    | error e =>
      rw [hc] at hq
      cases hq
    | ok free =>
      rw [hc] at hq
      change (if _ then _ else _) = _ at hq
      split at hq
      · exact ⟨_, if_pos ‹_›⟩
      · cases hq

end Ty

lemma NameSet.names_ofList {l : List String} (h : l.Nodup) : (NameSet.ofList l).names = l := by
  show l.eraseDups = l
  induction l with
  | nil => rfl
  | cons a l ih =>
    obtain ⟨ha, hl⟩ := List.nodup_cons.1 h
    have hfilter : l.filter (fun b => !b == a) = l := by
      refine List.filter_eq_self.2 fun b hb => ?_
      simpa using ne_of_mem_of_not_mem hb ha
    rw [List.eraseDups_cons, hfilter, ih hl]

namespace Scheme

/-- The variables that a scheme binds and its body mentions. -/
def usedVars (s : Scheme) : List String := s.body.freeVars.names.filter (· ∈ s.vars)

/-- The letters that stand for them in the canonical form. -/
def letters (s : Scheme) : List String :=
  freeLetters (s.body.freeVars.names.filter (· ∉ s.vars)) s.usedVars.length

/-- What the canonical form puts for a variable. -/
def letterFor (s : Scheme) : String → Option Ty := substOf (s.usedVars.zip (s.letters.map Ty.rigid))

lemma canonical_eq (s : Scheme) : s.canonical = ⟨.ofList s.letters, s.body.substAll s.letterFor⟩ :=
  rfl

lemma nodup_usedVars (s : Scheme) : s.usedVars.Nodup := s.body.freeVars.nodup.filter _

lemma nodup_letters (s : Scheme) : s.letters.Nodup := nodup_freeLetters _ _

lemma length_letters (s : Scheme) : s.letters.length = s.usedVars.length := length_freeLetters _ _

lemma letterFor_eq (s : Scheme) (x : String) : s.letterFor x =
    if x ∈ s.usedVars then (s.letters.map Ty.rigid)[s.usedVars.idxOf x]? else none := by
  rw [letterFor, substOf_zip s.nodup_usedVars (by rw [List.length_map, length_letters])]

lemma letterFor_of_mem_zip (s : Scheme) {x y : String} (h : (x, y) ∈ s.usedVars.zip s.letters) :
    s.letterFor x = some (.rigid y) := by
  obtain ⟨i, hi, hxy⟩ := List.mem_iff_getElem.1 h
  rw [List.length_zip] at hi
  rw [List.getElem_zip, Prod.mk.injEq] at hxy
  have hidx : s.usedVars.idxOf x = i := by
    rw [← hxy.1]
    exact s.nodup_usedVars.idxOf_getElem i (by omega)
  have hi' : i < s.letters.length := by omega
  rw [letterFor_eq, if_pos (hxy.1 ▸ List.getElem_mem _), hidx, List.getElem?_map,
    List.getElem?_eq_getElem hi', ← hxy.2]
  rfl

lemma letterFor_eq_some (s : Scheme) {x : String} {t : Ty} (h : s.letterFor x = some t) :
    ∃ y ∈ s.letters, t = .rigid y := by
  rw [letterFor_eq] at h
  split at h
  · obtain ⟨y, hy, rfl⟩ := List.mem_map.1 (List.mem_of_getElem? h)
    exact ⟨y, hy, rfl⟩
  · cases h

lemma letterFor_eq_none (s : Scheme) {x : String} (h : x ∉ s.usedVars) : s.letterFor x = none := by
  rw [letterFor_eq, if_neg h]

lemma poly_canonical {s : Scheme} (h : s.body.isFlat) :
    s.canonical.toTy.poly = .close s.usedVars s.body.mono := by
  rw [canonical_eq, toTy, Ty.poly]
  simp only [NameSet.names_ofList s.nodup_letters]
  rw [Ty.mono, Ty.curry_substAll, ← Poly.subst_var (.close s.usedVars s.body.mono),
    ← Poly.subst_close s.length_letters.symm s.nodup_letters
      (η := fun x => ((s.letterFor x).map Ty.mono).getD (.var x))]
  · rw [Ty.mono, Ty.bind_curry]
    rfl
  · intro x y hxy
    rw [s.letterFor_of_mem_zip hxy]
    rfl
  · intro x hx hused
    rw [s.letterFor_eq_none hused]
    refine ⟨rfl, fun y hy hletter => ?_⟩
    -- A letter for a bound variable is no free variable of the scheme.
    rw [Tree.vars_var, List.mem_singleton] at hy
    refine (freeLetters_subset hletter).2 (hy ▸ List.mem_filter.2 ⟨?_, ?_⟩)
    · exact (Ty.mem_freeVars_iff h).2 hx
    · have hx' : x ∈ s.body.freeVars := (Ty.mem_freeVars_iff h).2 hx
      simpa [usedVars, hx'] using hused

lemma isFlat_canonical {s : Scheme} (h : s.body.isFlat) : s.canonical.body.isFlat := by
  refine Ty.isFlat_substAll (fun x t ht => ?_) s.body h
  obtain ⟨y, _, rfl⟩ := s.letterFor_eq_some ht
  rfl

lemma plainName_canonical {s : Scheme} {x : String} (h : x ∈ s.canonical.vars) : PlainName x := by
  rw [canonical_eq, NameSet.mem_ofList] at h
  exact (freeLetters_subset h).1

lemma vars_canonical {s : Scheme} {v : TyVar} (h : v ∈ s.canonical.body.tree.vars) :
    v.name ∈ s.canonical.vars ∨ v ∈ s.body.tree.vars := by
  rw [canonical_eq, Ty.tree, Ty.curry_substAll, Ty.curry_eq_bind_tree, Tree.mem_vars_bind] at h
  obtain ⟨w, hw, hv⟩ := h
  cases ht : s.letterFor w.name with
  | none =>
    rw [ht, Option.map_none, Option.getD_none, Tree.vars_var, List.mem_singleton] at hv
    exact Or.inr (hv ▸ hw)
  | some t =>
    obtain ⟨y, hy, rfl⟩ := s.letterFor_eq_some ht
    rw [ht] at hv
    have hv : v = ⟨y, .rigid⟩ := List.mem_singleton.1 hv
    rw [canonical_eq, NameSet.mem_ofList, hv]
    exact Or.inl hy

end Scheme

/-- Closing an inferred type binds its free variables other than the fixed ones, and gives letters
to them. -/
lemma Ty.generalize_of_isFlat {t : Ty} (h : t.isFlat) (fixed : List String) :
    ∃ g, t.generalize fixed = .ok g ∧
      g.poly = .close (t.freeVars.names.filter (· ∉ fixed)) t.mono ∧
      (g = t ∨ ∃ vars body, g = .scheme vars body ∧ body.isFlat ∧ (∀ x ∈ vars, PlainName x) ∧
        ∀ v ∈ body.tree.vars, v.name ∈ vars ∨ v ∈ t.tree.vars) := by
  rw [generalize, quantifyExcept_of_isFlat h]
  by_cases hempty : (t.freeVars.filter (· ∉ fixed)).isEmpty
  · have hnil : t.freeVars.names.filter (· ∉ fixed) = [] := List.isEmpty_iff.1 hempty
    rw [if_pos hempty, hnil, Poly.close_nil, ← poly_of_isFlat h]
    refine ⟨t, ?_, rfl, Or.inl rfl⟩
    cases t with
    | scheme _ _ => simp [isFlat] at h
    | con _ _ => rfl
    | var _ _ _ => rfl
    | app _ _ => rfl
  · rw [if_neg hempty]
    have hused : (Scheme.mk (t.freeVars.filter (· ∉ fixed)) t).usedVars =
        t.freeVars.names.filter (· ∉ fixed) := by
      refine List.filter_congr fun x hx => ?_
      simp [NameSet.mem_names.1 hx]
    refine ⟨_, rfl, ?_, Or.inr ⟨_, _, rfl, Scheme.isFlat_canonical h,
      fun x hx => Scheme.plainName_canonical hx, fun v hv => Scheme.vars_canonical hv⟩⟩
    rw [Scheme.poly_canonical h, hused]

end LetPoly
