import Mathlib.Data.Set.Function
import LetPoly.Proofs.Ty.Exact
import LetPoly.Proofs.Ty.Rename

/-!
# Canonical forms decide α-equivalence

Two schemes with flat bodies have the same canonical form exactly if a bijection between the
variables that they bind and use makes one body of the other (`Scheme.alphaEq_iff`). Variables that
are bound and not used do not count, nor do the sorts of bound variables.

Letters are given out in the order of first occurrence, and that order is the same in bodies that
are made of each other. Conversely the letters tell which variables correspond. They are no free
variables of either body, so that no bound variable is taken for a free one.
-/

namespace LetPoly

namespace Ty

mutual
/-- The second type is the first one with `f x` for each variable `x` of `vs`, which is one of `ws`
then. Other variables are the same in both types, and are not in `ws`. -/
def Carries (f : String → String) (vs ws : NameSet) : Ty → Ty → Prop
  | .con a _, .con b _ => a = b
  | .var x s _, .var y t _ => (x ∈ vs ∧ y ∈ ws ∧ f x = y) ∨ (x ∉ vs ∧ y ∉ ws ∧ x = y ∧ s = t)
  | .app head args, .app head' args' =>
    head.Carries f vs ws head' ∧ CarriesList f vs ws args args'
  | _, _ => False

/-- Each type of the second list is made of the one at its place in the first. -/
def CarriesList (f : String → String) (vs ws : NameSet) : List Ty → List Ty → Prop
  | [], [] => True
  | a :: args, b :: args' => a.Carries f vs ws b ∧ CarriesList f vs ws args args'
  | _, _ => False
end

/-! ### Letters in flat types -/

section Letters

variable {σ τ : String → Option Ty}

lemma substAll_con (name : String) (slot : KindSlot) :
    substAll σ (.con name slot) = .con name slot := rfl

lemma substAll_var_eq (hσ : PutsLetters σ) (x : String) (sort : VarSort) (slot : KindSlot) :
    ∃ y sort' slot', substAll σ (.var x sort slot) = .var y sort' slot' := by
  rw [substAll]
  cases hx : σ x with
  | none => exact ⟨x, sort, slot, rfl⟩
  | some u =>
    obtain ⟨i, rfl⟩ := hσ x u hx
    exact ⟨_, _, _, rfl⟩

/-- A head that stays a constructor or variable takes no arguments in. -/
lemma substAll_app_of_isAtom {head : Ty} {args : List Ty} (hatom : (substAll σ head).isAtom)
    (hne : args ≠ []) :
    substAll σ (.app head args) = .app (substAll σ head) (substAllList σ args) := by
  obtain ⟨a, args, rfl⟩ := List.exists_cons_of_ne_nil hne
  rw [substAll]
  cases hhead : substAll σ head with
  | con _ _ => rfl
  | var _ _ _ => rfl
  | app _ _ =>
    rw [hhead] at hatom
    cases hatom
  | scheme _ _ =>
    rw [hhead] at hatom
    cases hatom

lemma substAll_app_of_isFlat (hσ : PutsLetters σ) {head : Ty} {args : List Ty}
    (h : (app head args).isFlat) :
    substAll σ (.app head args) = .app (substAll σ head) (substAllList σ args) := by
  obtain ⟨hatom, hne, -⟩ := isFlat_app.1 h
  refine substAll_app_of_isAtom ?_ hne
  cases head with
  | con _ _ => rfl
  | var x sort slot =>
    obtain ⟨y, sort', slot', heq⟩ := substAll_var_eq hσ x sort slot
    rw [heq]
    rfl
  | app _ _ => cases hatom
  | scheme _ _ => cases hatom

variable {f : String → String} {vs ws : NameSet}

mutual
/-- Two flat types with letters put in are equal if one is made of the other, as soon as that is so
of their variables. -/
lemma same_substAll_iff (hσ : PutsLetters σ) (hτ : PutsLetters τ) : (a b : Ty) → a.isFlat →
    b.isFlat → (∀ x ∈ a.occurrences, ∀ y ∈ b.occurrences, ∀ s t k k',
      same (substAll σ (.var x s k)) (substAll τ (.var y t k')) ↔
        (var x s k).Carries f vs ws (.var y t k')) →
    (same (substAll σ a) (substAll τ b) ↔ a.Carries f vs ws b)
  | .con _ _, .con _ _, _, _, _ => by simp [substAll, same, Carries]
  | .var x s k, .var y t k', _, _, h =>
    h x (List.mem_singleton_self x) y (List.mem_singleton_self y) s t k k'
  | .app head args, .app head' args', ha, hb, h => by
    obtain ⟨hatom, -, hargs⟩ := isFlat_app.1 ha
    obtain ⟨hatom', -, hargs'⟩ := isFlat_app.1 hb
    rw [substAll_app_of_isFlat hσ ha, substAll_app_of_isFlat hτ hb, same, Bool.and_eq_true, Carries,
      same_substAll_iff hσ hτ head head' (isFlat_of_isAtom hatom) (isFlat_of_isAtom hatom')
        fun x hx y hy => h x (List.mem_append_left _ hx) y (List.mem_append_left _ hy),
      sameList_substAllList_iff hσ hτ args args' hargs hargs'
        fun x hx y hy => h x (List.mem_append_right _ hx) y (List.mem_append_right _ hy)]
  | .con _ _, .var y t k', _, _, _ => by
    obtain ⟨y', t', k'', heq⟩ := substAll_var_eq hτ y t k'
    simp [heq, substAll_con, same, Carries]
  | .var x s k, .con _ _, _, _, _ => by
    obtain ⟨x', s', k'', heq⟩ := substAll_var_eq hσ x s k
    simp [heq, substAll_con, same, Carries]
  | .con _ _, .app _ _, _, hb, _ => by
    simp [substAll_app_of_isFlat hτ hb, substAll_con, same, Carries]
  | .app _ _, .con _ _, ha, _, _ => by
    simp [substAll_app_of_isFlat hσ ha, substAll_con, same, Carries]
  | .var x s k, .app _ _, _, hb, _ => by
    obtain ⟨x', s', k'', heq⟩ := substAll_var_eq hσ x s k
    simp [heq, substAll_app_of_isFlat hτ hb, same, Carries]
  | .app _ _, .var y t k', ha, _, _ => by
    obtain ⟨y', t', k'', heq⟩ := substAll_var_eq hτ y t k'
    simp [heq, substAll_app_of_isFlat hσ ha, same, Carries]
  | .scheme _ _, _, ha, _, _ => by simp [isFlat] at ha
  | _, .scheme _ _, _, hb, _ => by simp [isFlat] at hb

lemma sameList_substAllList_iff (hσ : PutsLetters σ) (hτ : PutsLetters τ) : (as bs : List Ty) →
    (∀ a ∈ as, a.isFlat) → (∀ b ∈ bs, b.isFlat) →
    (∀ x ∈ occurrencesList as, ∀ y ∈ occurrencesList bs, ∀ s t k k',
      same (substAll σ (.var x s k)) (substAll τ (.var y t k')) ↔
        (var x s k).Carries f vs ws (.var y t k')) →
    (sameList (substAllList σ as) (substAllList τ bs) ↔ CarriesList f vs ws as bs)
  | [], [], _, _, _ => by simp [substAllList, sameList, CarriesList]
  | a :: as, b :: bs, ha, hb, h => by
    rw [substAllList, substAllList, sameList, Bool.and_eq_true, CarriesList,
      same_substAll_iff hσ hτ a b (ha a List.mem_cons_self) (hb b List.mem_cons_self)
        fun x hx y hy => h x (List.mem_append_left _ hx) y (List.mem_append_left _ hy),
      sameList_substAllList_iff hσ hτ as bs (fun c hc => ha c (List.mem_cons_of_mem _ hc))
        (fun c hc => hb c (List.mem_cons_of_mem _ hc))
        fun x hx y hy => h x (List.mem_append_right _ hx) y (List.mem_append_right _ hy)]
  | [], _ :: _, _, _, _ | _ :: _, [], _, _, _ => by simp [substAllList, sameList, CarriesList]
end

end Letters

/-! ### Occurrences -/

/-- What a variable becomes. -/
def carried (f : String → String) (vs : NameSet) (x : String) : String := if x ∈ vs then f x else x

section Occurrences

variable {f : String → String} {vs ws : NameSet}

mutual
lemma Carries.occurrences_eq : {a b : Ty} → a.Carries f vs ws b →
    b.occurrences = a.occurrences.map (carried f vs)
  | .con _ _, .con _ _, _ => rfl
  | .var x _ _, .var y _ _, h => by
    rw [Carries] at h
    rcases h with ⟨hx, -, rfl⟩ | ⟨hx, -, rfl, -⟩ <;> simp [occurrences, carried, hx]
  | .app head args, .app head' args', h => by
    rw [Carries] at h
    rw [occurrences, occurrences, h.1.occurrences_eq, h.2.occurrencesList_eq, List.map_append]

lemma CarriesList.occurrencesList_eq : {as bs : List Ty} → CarriesList f vs ws as bs →
    occurrencesList bs = (occurrencesList as).map (carried f vs)
  | [], [], _ => rfl
  | a :: as, b :: bs, h => by
    rw [CarriesList] at h
    rw [occurrencesList, occurrencesList, h.1.occurrences_eq, h.2.occurrencesList_eq,
      List.map_append]
end

mutual
lemma Carries.carried_mem_iff : {a b : Ty} → a.Carries f vs ws b → ∀ x ∈ a.occurrences,
    (carried f vs x ∈ ws ↔ x ∈ vs)
  | .var x _ _, .var y _ _, h, z, hz => by
    obtain rfl := List.mem_singleton.1 hz
    rw [Carries] at h
    rcases h with ⟨hx, hy, rfl⟩ | ⟨hx, hy, rfl, -⟩ <;> simp [carried, hx, hy]
  | .app head args, .app head' args', h, x, hx => by
    rw [Carries] at h
    rcases List.mem_append.1 hx with hx | hx
    · exact h.1.carried_mem_iff x hx
    · exact h.2.carried_mem_iff x hx

lemma CarriesList.carried_mem_iff : {as bs : List Ty} → CarriesList f vs ws as bs →
    ∀ x ∈ occurrencesList as, (carried f vs x ∈ ws ↔ x ∈ vs)
  | a :: as, b :: bs, h, x, hx => by
    rw [CarriesList] at h
    rcases List.mem_append.1 hx with hx | hx
    · exact h.1.carried_mem_iff x hx
    · exact h.2.carried_mem_iff x hx
end

end Occurrences

end Ty

namespace Scheme

variable {s t : Scheme} {f : String → String}

/-! ### Letters and the variables they stand for -/

lemma letterFor_inj {x y : String} (hx : x ∈ s.usedVars) (hy : y ∈ s.usedVars)
    (h : s.letterFor x = s.letterFor y) : x = y := by
  have hlength : (s.letters.map Ty.rigid).length = s.usedVars.length := by
    rw [List.length_map, length_letters]
  have hnodup : (s.letters.map Ty.rigid).Nodup :=
    s.nodup_letters.map fun a b hab => by simpa [Ty.rigid] using hab
  rw [letterFor_eq, letterFor_eq, if_pos hx, if_pos hy] at h
  refine (List.idxOf_inj hx).1 ((List.getElem?_inj ?_ hnodup).1 h)
  rw [hlength]
  exact List.idxOf_lt_length_of_mem hx

lemma exists_mem_zip_letters {x : String} (hx : x ∈ s.usedVars) :
    ∃ y, (x, y) ∈ s.usedVars.zip s.letters := by
  have hfst : (s.usedVars.zip s.letters).map Prod.fst = s.usedVars :=
    List.map_fst_zip s.length_letters.ge
  rw [← hfst] at hx
  obtain ⟨⟨x, y⟩, h, rfl⟩ := List.mem_map.1 hx
  exact ⟨y, h⟩

lemma exists_letterFor_eq {y : String} (hy : y ∈ s.letters) :
    ∃ x ∈ s.usedVars, s.letterFor x = some (.rigid y) := by
  have hsnd : (s.usedVars.zip s.letters).map Prod.snd = s.letters :=
    List.map_snd_zip s.length_letters.le
  rw [← hsnd] at hy
  obtain ⟨⟨x, y⟩, h, rfl⟩ := List.mem_map.1 hy
  exact ⟨x, (List.of_mem_zip h).1, s.letterFor_of_mem_zip h⟩

lemma not_mem_letters {x : String} (hx : x ∈ s.body.occurrences) (hfree : x ∉ s.vars) :
    x ∉ s.letters := by
  intro h
  have htaken := (List.mem_filter.1 (List.mem_of_mem_take h)).2
  simp [Ty.freeVars, hx, hfree] at htaken

lemma alphaEq_iff_letters : s.alphaEq t ↔ (∀ x, x ∈ s.letters ↔ x ∈ t.letters) ∧
    Ty.same (s.body.substAll s.letterFor) (t.body.substAll t.letterFor) := by
  show ((NameSet.ofList s.letters).same (.ofList t.letters) && _) = true ↔ _
  rw [Bool.and_eq_true, NameSet.same_iff]
  simp only [NameSet.mem_ofList]
  rfl

/-- Variables that have one letter are the variables that correspond. -/
lemma same_substAll_letterFor_iff (hs : s.body.isFlat) (ht : t.body.isFlat)
    (hletters : ∀ x, x ∈ s.letters ↔ x ∈ t.letters)
    (hf : ∀ x ∈ s.usedVars, f x ∈ t.usedVars ∧ t.letterFor (f x) = s.letterFor x) :
    Ty.same (s.body.substAll s.letterFor) (t.body.substAll t.letterFor) ↔
      s.body.Carries f s.vars t.vars t.body := by
  refine Ty.same_substAll_iff s.putsLetters_letterFor t.putsLetters_letterFor _ _ hs ht ?_
  intro x hx y hy sort sort' slot slot'
  have hnone {u : Scheme} {z : String} (hz : z ∉ u.vars) : u.letterFor z = none :=
    u.letterFor_eq_none fun h => hz (mem_usedVars.1 h).2
  by_cases hxs : x ∈ s.vars <;> by_cases hyt : y ∈ t.vars
  · have hx' : x ∈ s.usedVars := mem_usedVars.2 ⟨hx, hxs⟩
    have hy' : y ∈ t.usedVars := mem_usedVars.2 ⟨hy, hyt⟩
    obtain ⟨a, -, ha⟩ := letterFor_isSome hx'
    obtain ⟨b, -, hb⟩ := letterFor_isSome hy'
    have hletter : a = b ↔ f x = y := by
      refine ⟨fun hab => letterFor_inj (hf x hx').1 hy' ?_, ?_⟩
      · rw [(hf x hx').2, ha, hb, hab]
      · rintro rfl
        have heq := (hf x hx').2
        rw [ha, hb] at heq
        simpa [Ty.rigid] using heq.symm
    simp [Ty.substAll, ha, hb, Ty.Carries, hxs, hyt, Ty.rigid, Ty.same, hletter]
  · obtain ⟨a, hmem, ha⟩ := letterFor_isSome (mem_usedVars.2 ⟨hx, hxs⟩)
    -- a letter of one side is one of the other side, where it is no free variable
    have hne : a ≠ y := fun h => not_mem_letters hy hyt (h ▸ (hletters a).1 hmem)
    simp [Ty.substAll, ha, hnone hyt, Ty.Carries, hxs, hyt, Ty.rigid, Ty.same, hne]
  · obtain ⟨b, hmem, hb⟩ := letterFor_isSome (mem_usedVars.2 ⟨hy, hyt⟩)
    have hne : x ≠ b := fun h => not_mem_letters hx hxs (h ▸ (hletters b).2 hmem)
    simp [Ty.substAll, hb, hnone hxs, Ty.Carries, hxs, hyt, Ty.rigid, Ty.same, hne]
  · simp [Ty.substAll, hnone hxs, hnone hyt, Ty.Carries, hxs, hyt, Ty.same]

/-- Schemes with the same letters use as many variables, and the letters pair them. -/
lemma exists_bijOn_usedVars (hletters : ∀ x, x ∈ s.letters ↔ x ∈ t.letters) :
    ∃ f : String → String, Set.BijOn f {x | x ∈ s.usedVars} {y | y ∈ t.usedVars} ∧
      ∀ x ∈ s.usedVars, f x ∈ t.usedVars ∧ t.letterFor (f x) = s.letterFor x := by
  have hex (x : String) (hx : x ∈ s.usedVars) :
      ∃ y, y ∈ t.usedVars ∧ t.letterFor y = s.letterFor x := by
    obtain ⟨a, ha, hxa⟩ := letterFor_isSome hx
    obtain ⟨y, hy, hya⟩ := exists_letterFor_eq ((hletters a).1 ha)
    exact ⟨y, hy, hya.trans hxa.symm⟩
  choose! f hf using hex
  refine ⟨f, ⟨fun x hx => (hf x hx).1, ?_, ?_⟩, hf⟩
  · intro x hx y hy hxy
    refine letterFor_inj hx hy ?_
    rw [← (hf x hx).2, ← (hf y hy).2, hxy]
  · intro y hy
    obtain ⟨b, hb, hyb⟩ := letterFor_isSome hy
    obtain ⟨x, hx, hxb⟩ := exists_letterFor_eq ((hletters b).2 hb)
    refine ⟨x, hx, letterFor_inj (hf x hx).1 hy ?_⟩
    rw [(hf x hx).2, hxb, hyb]

/-! ### Bodies made of each other -/

section Carried

variable (hbody : s.body.Carries f s.vars t.vars t.body)
  (hinj : ∀ x ∈ s.usedVars, ∀ y ∈ s.usedVars, f x = f y → x = y)

include hbody hinj

lemma names_freeVars_of_carries :
    t.body.freeVars.names = s.body.freeVars.names.map (Ty.carried f s.vars) := by
  show t.body.occurrences.eraseDups = _
  rw [hbody.occurrences_eq]
  refine eraseDups_map_of_injOn _ fun x hx y hy hxy => ?_
  have hmem : x ∈ s.vars ↔ y ∈ s.vars := by
    rw [← hbody.carried_mem_iff x hx, ← hbody.carried_mem_iff y hy, hxy]
  by_cases hxs : x ∈ s.vars
  · have hys : y ∈ s.vars := hmem.1 hxs
    rw [Ty.carried, Ty.carried, if_pos hxs, if_pos hys] at hxy
    exact hinj x (mem_usedVars.2 ⟨hx, hxs⟩) y (mem_usedVars.2 ⟨hy, hys⟩) hxy
  · rwa [Ty.carried, Ty.carried, if_neg hxs, if_neg (hmem.not.1 hxs)] at hxy

/-- Names of one kind, bound or free, are carried to the names of that kind in order. -/
lemma filter_freeVars_of_carries {p q : String → Bool}
    (hpq : ∀ x ∈ s.body.occurrences, q (Ty.carried f s.vars x) = p x) :
    t.body.freeVars.names.filter q =
      (s.body.freeVars.names.filter p).map (Ty.carried f s.vars) := by
  rw [names_freeVars_of_carries hbody hinj, List.filter_map]
  refine congrArg _ (List.filter_congr fun x hx => hpq x ?_)
  exact List.mem_eraseDups.1 hx

lemma usedVars_of_carries : t.usedVars = s.usedVars.map f := by
  rw [usedVars, filter_freeVars_of_carries hbody hinj (p := (· ∈ s.vars))
    fun x hx => decide_eq_decide.2 (hbody.carried_mem_iff x hx)]
  refine List.map_congr_left fun x hx => if_pos ?_
  simpa using (List.mem_filter.1 hx).2

lemma letters_of_carries : t.letters = s.letters := by
  have hfree : t.body.freeVars.names.filter (· ∉ t.vars) =
      s.body.freeVars.names.filter (· ∉ s.vars) := by
    rw [filter_freeVars_of_carries hbody hinj (p := (· ∉ s.vars))
      fun x hx => decide_eq_decide.2 (hbody.carried_mem_iff x hx).not]
    refine (List.map_congr_left fun x hx => if_neg ?_).trans (List.map_id _)
    simpa using (List.mem_filter.1 hx).2
  rw [letters, letters, hfree, usedVars_of_carries hbody hinj, List.length_map]

lemma letterFor_of_carries {x : String} (hx : x ∈ s.usedVars) :
    t.letterFor (f x) = s.letterFor x := by
  obtain ⟨y, hy⟩ := exists_mem_zip_letters hx
  have hy' : (f x, y) ∈ t.usedVars.zip t.letters := by
    rw [usedVars_of_carries hbody hinj, letters_of_carries hbody hinj, List.zip_map_left]
    exact List.mem_map.2 ⟨(x, y), hy, rfl⟩
  rw [t.letterFor_of_mem_zip hy', s.letterFor_of_mem_zip hy]

end Carried

/-- Two schemes with flat bodies have one canonical form if and only if a bijection between the
variables that they bind and use makes the body of the second of that of the first. -/
theorem alphaEq_iff_carries (hs : s.body.isFlat) (ht : t.body.isFlat) :
    s.alphaEq t ↔ ∃ f : String → String,
      Set.BijOn f {x | x ∈ s.vars ∧ x ∈ s.body.freeVars} {y | y ∈ t.vars ∧ y ∈ t.body.freeVars} ∧
        s.body.Carries f s.vars t.vars t.body := by
  have hused (u : Scheme) : {x | x ∈ u.vars ∧ x ∈ u.body.freeVars} = {x | x ∈ u.usedVars} := by
    ext x
    simp [mem_usedVars, Ty.freeVars, and_comm]
  rw [alphaEq_iff_letters, hused s, hused t]
  constructor
  · rintro ⟨hletters, hsame⟩
    obtain ⟨f, hbij, hf⟩ := exists_bijOn_usedVars hletters
    exact ⟨f, hbij, (same_substAll_letterFor_iff hs ht hletters hf).1 hsame⟩
  · rintro ⟨f, hbij, hbody⟩
    have hinj : ∀ x ∈ s.usedVars, ∀ y ∈ s.usedVars, f x = f y → x = y :=
      fun x hx y hy => hbij.injOn hx hy
    have hletters : ∀ x, x ∈ s.letters ↔ x ∈ t.letters := by
      intro x
      rw [letters_of_carries hbody hinj]
    refine ⟨hletters, (same_substAll_letterFor_iff hs ht hletters fun x hx => ?_).2 hbody⟩
    exact ⟨hbij.mapsTo hx, letterFor_of_carries hbody hinj hx⟩

/-- `∀ x y z. x → y → a` with `y` to be solved for. -/
def twoBound : Scheme :=
  ⟨.ofList ["x", "y", "z"], .function [.rigid "x", .var "y" .solvable none] (.rigid "a")⟩

/-- `∀ y x. y → x → a`. -/
def twoSwapped : Scheme :=
  ⟨.ofList ["y", "x"], .function [.rigid "y", .rigid "x"] (.rigid "a")⟩

/-- `∀ x y a. x → y → a`. -/
def threeBound : Scheme :=
  ⟨.ofList ["x", "y", "a"], .function [.rigid "x", .rigid "y"] (.rigid "a")⟩

theorem alphaEq_iff_carries_twoBound :
    (twoBound.alphaEq twoSwapped ∧ ∃ f : String → String,
      Set.BijOn f {x | x ∈ twoBound.vars ∧ x ∈ twoBound.body.freeVars}
        {y | y ∈ twoSwapped.vars ∧ y ∈ twoSwapped.body.freeVars} ∧
      twoBound.body.Carries f twoBound.vars twoSwapped.vars twoSwapped.body) ∧
    ¬ ∃ f : String → String,
      Set.BijOn f {x | x ∈ twoBound.vars ∧ x ∈ twoBound.body.freeVars}
        {y | y ∈ threeBound.vars ∧ y ∈ threeBound.body.freeVars} ∧
      twoBound.body.Carries f twoBound.vars threeBound.vars threeBound.body := by
  have hflat : twoBound.body.isFlat := by decide
  have hswapped : twoBound.alphaEq twoSwapped := by decide +kernel
  have hclosed : ¬ twoBound.alphaEq threeBound := by decide +kernel
  refine ⟨⟨hswapped, (alphaEq_iff_carries hflat (by decide)).1 hswapped⟩, fun h => hclosed ?_⟩
  exact (alphaEq_iff_carries hflat (by decide)).2 h

end Scheme

end LetPoly
