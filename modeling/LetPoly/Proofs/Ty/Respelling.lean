import LetPoly.Proofs.Ty.Alpha
import LetPoly.Proofs.Typing.Actions
import LetPoly.Proofs.Unification.Order
import LetPoly.Proofs.Unification.TermMap

/-!
# Respelling of variables

What becomes of the variables in inference if those that are written in a program are renamed by
`r`: made-up names for solvable variables and letter names stay, a rigid variable that stands for
`x` now stands for `r x`, and names that inference meets as they are written are renamed by `r`
(`Respells`). The types of the two runs correspond in this way, or they are closed and correspond
but for the names that they quantify over outermost (`Ty.Respelled`). Closed types that correspond
are α-equivalent (`Ty.Respelled.alphaEq`).
-/

namespace LetPoly

open Ty

/-! ### Names -/

/-- What is asked of a renaming `r` of the variables in a program, if `met` are those that inference
meets as they are written and `held` those that are bound inside of types that stay: no name gets an
apostrophe, and where a name in `met` or the name put in its place is a letter name or in `held`, it
stays. -/
structure Respelling (r : String → String) (met held : List String) : Prop where
  injective : Function.Injective r
  plain : ∀ x, PlainName x → PlainName (r x)
  met_plain : ∀ x ∈ met, PlainName x
  held_plain : ∀ x ∈ held, PlainName x
  apart : ∀ x ∈ met, isLetterName x ∨ x ∈ held ∨ isLetterName (r x) ∨ r x ∈ held → r x = x

/-- The names of one run, made-up ones included, in the other run. -/
structure Respells (r : String → String) (met held : List String) (ρ : String → String) :
    Prop where
  injective : Function.Injective ρ
  source_injective : Function.Injective r
  fresh (id : Nat) : ρ (freshName id) = freshName id
  letter (i : Nat) : ρ (letterName i) = letterName i
  skolem {x : String} (id : Nat) : PlainName x → ρ (skolemName x id) = skolemName (r x) id
  met : ∀ x ∈ met, ρ x = r x
  held : ∀ x ∈ held, ρ x = x

/-- A name and what it is respelled to, if `p` is what plain names and `r` what those behind rigid
variables are renamed by. -/
inductive Corresponds (p r : String → String) : String → String → Prop
  | plain {x : String} (hx : PlainName x) : Corresponds p r x (p x)
  | skolem {x : String} (hx : PlainName x) (id : Nat) :
    Corresponds p r (skolemName x id) (skolemName (r x) id)
  | other {y : String} (hy : ¬ PlainName y) (hskolem : ∀ x id, PlainName x → skolemName x id ≠ y) :
    Corresponds p r y y

section Corresponds

variable {p r : String → String}

lemma exists_corresponds (p r : String → String) (y : String) : ∃ z, Corresponds p r y z := by
  by_cases hy : PlainName y
  · exact ⟨_, .plain hy⟩
  · by_cases hskolem : ∃ x id, PlainName x ∧ skolemName x id = y
    · obtain ⟨x, id, hx, rfl⟩ := hskolem
      exact ⟨_, .skolem hx id⟩
    · exact ⟨_, .other hy fun x id hx h => hskolem ⟨x, id, hx, h⟩⟩

/-- Names with the same counterpart are the same. -/
lemma Corresponds.left_unique (hp : Function.Injective p) (hr : Function.Injective r)
    (hplain : ∀ x, PlainName x → PlainName (p x)) (hplain' : ∀ x, PlainName x → PlainName (r x))
    {y y' z : String} (h : Corresponds p r y z) (h' : Corresponds p r y' z) : y = y' := by
  cases h with
  | plain hy =>
    generalize hz : p y = z at h'
    cases h' with
    | plain _ => exact hp hz
    | skolem _ id => exact absurd (hz ▸ hplain y hy) (not_plainName_skolemName _ id)
    | other hy' _ => exact absurd (hz ▸ hplain y hy) hy'
  | @skolem x hx id =>
    generalize hz : skolemName (r x) id = z at h'
    cases h' with
    | plain hy' => exact absurd (hz ▸ hplain y' hy') (not_plainName_skolemName _ id)
    | skolem _ id' =>
      obtain ⟨hname, rfl⟩ := skolemName_injective hz
      rw [hr hname]
    | other _ hskolem => exact absurd hz (hskolem _ id (hplain' x hx))
  | other hy hskolem =>
    cases h' with
    | plain hy' => exact absurd (hplain y' hy') hy
    | skolem hx id => exact absurd rfl (hskolem _ id (hplain' _ hx))
    | other _ _ => rfl

/-- A name has one counterpart. -/
lemma Corresponds.right_unique {y z z' : String} (h : Corresponds p r y z)
    (h' : Corresponds p r y z') : z = z' := by
  cases h with
  | plain hy =>
    cases h' with
    | plain _ => rfl
    | skolem _ id => exact absurd hy (not_plainName_skolemName _ id)
    | other hy' _ => exact absurd hy hy'
  | @skolem x hx id =>
    generalize hz : skolemName x id = y at h'
    cases h' with
    | plain hy' => exact absurd (hz ▸ hy') (not_plainName_skolemName x id)
    | skolem _ id' =>
      obtain ⟨rfl, rfl⟩ := skolemName_injective hz
      rfl
    | other _ hskolem => exact absurd hz (hskolem x id hx)
  | other hy hskolem =>
    cases h' with
    | plain hy' => exact absurd hy' hy
    | skolem hx id => exact absurd rfl (hskolem _ id hx)
    | other _ _ => rfl

end Corresponds

/-- Every renaming of the variables in a program corresponds to one of all names in inference. -/
lemma Respelling.exists_respells {r : String → String} {met held : List String}
    (hr : Respelling r met held) : ∃ ρ, Respells r met held ρ := by
  -- A permutation of plain names that moves those in `met` as `r` does and keeps all others apart.
  let s := met.toFinset.filter fun x => r x ≠ x
  have hs {x : String} : x ∈ s ↔ x ∈ met ∧ r x ≠ x := by simp [s]
  obtain ⟨p, hmet, hfixed, hmoved⟩ := exists_perm_extending (s := s) hr.injective.injOn
  have hset {x : String} (hx : x ∈ s ∪ s.image r) :
      PlainName x ∧ isLetterName x = false ∧ x ∉ held := by
    have hmem {y : String} (hy : y ∈ s) : (isLetterName y = false ∧ y ∉ held) ∧
        isLetterName (r y) = false ∧ r y ∉ held := by
      have := mt (hr.apart y (hs.1 hy).1) (hs.1 hy).2
      simp only [not_or, Bool.not_eq_true] at this
      exact ⟨⟨this.1, this.2.1⟩, this.2.2⟩
    rcases Finset.mem_union.1 hx with hx | hx
    · exact ⟨hr.met_plain x (hs.1 hx).1, (hmem hx).1⟩
    · obtain ⟨y, hy, rfl⟩ := Finset.mem_image.1 hx
      exact ⟨hr.plain y (hr.met_plain y (hs.1 hy).1), (hmem hy).2⟩
  have hplain (x : String) (hx : PlainName x) : PlainName (p x) := by
    by_cases hmem : x ∈ s ∪ s.image r
    · exact (hset (hmoved x hmem)).1
    · rwa [hfixed x hmem]
  choose ρ hρ using exists_corresponds p r
  have hfixed' {x : String} (hx : PlainName x) (hmem : x ∉ s ∪ s.image r) : ρ x = x :=
    ((hρ x).right_unique (.plain hx)).trans (hfixed x hmem)
  refine ⟨ρ, ?_, hr.injective, fun id => ?_, fun i => ?_, fun id hx => ?_, fun x hx => ?_, fun x hx => ?_⟩
  · exact fun x y hxy => (hρ x).left_unique p.injective hr.injective hplain hr.plain (hxy ▸ hρ y)
  · exact (hρ _).right_unique (.other (not_plainName_freshName id)
      fun x id' _ h => freshName_ne_skolemName id x id' h.symm)
  · refine hfixed' (plainName_letterName i) fun hmem => ?_
    cases (isLetterName_letterName i).symm.trans (hset hmem).2.1
  · exact (hρ _).right_unique (.skolem hx id)
  · by_cases hmove : r x = x
    · refine (hfixed' (hr.met_plain x hx) fun hmem => ?_).trans hmove.symm
      rcases Finset.mem_union.1 hmem with hmem | hmem
      · exact (hs.1 hmem).2 hmove
      · obtain ⟨y, hy, hxy⟩ := Finset.mem_image.1 hmem
        obtain rfl := hr.injective (hxy.trans hmove.symm)
        exact (hs.1 hy).2 hmove
    · exact ((hρ x).right_unique (.plain (hr.met_plain x hx))).trans (hmet x (hs.2 ⟨hx, hmove⟩))
  · exact hfixed' (hr.held_plain x hx) fun hmem => (hset hmem).2.2 hx

/-! ### Types -/

namespace Ty

variable {r ρ : String → String} {met held : List String} {t t' : Ty}

/-- Renamings that agree on all names but those that a type quantifies over outermost. -/
lemma rename_congr_of_isScheme {f g : String → String} (hscheme : t.isScheme = false)
    (hfree : ∀ x ∈ t.occurrences, f x = g x) (hinner : ∀ x ∈ t.innerBinders, f x = g x) :
    t.rename f = t.rename g := by
  rw [innerBinders_of_isScheme hscheme] at hinner
  exact rename_congr t fun x hx => (mem_occurrences_or_binders t hx).elim (hfree x) (hinner x)

/-- Closed types that correspond but for the names that they quantify over outermost. -/
structure Requantified (ρ : String → String) (t t' : Ty) : Prop where
  closed : t.occurrences = []
  renamed : ∃ f, Function.Injective f ∧ (∀ x ∈ t.innerBinders, f x = ρ x) ∧ t' = t.rename f

/-- Types that correspond, if `ρ` is what names are respelled to. -/
def Respelled (ρ : String → String) (t t' : Ty) : Prop := t' = t.rename ρ ∨ t.Requantified ρ t'

namespace Respelled

lemma exists_rename (hρ : Function.Injective ρ) (h : t.Respelled ρ t') :
    ∃ f, Function.Injective f ∧ (∀ x ∈ t.occurrences, f x = ρ x) ∧
      (∀ x ∈ t.innerBinders, f x = ρ x) ∧ t' = t.rename f := by
  rcases h with h | ⟨hclosed, f, hf, hinner, h⟩
  · exact ⟨ρ, hρ, fun _ _ => rfl, fun _ _ => rfl, h⟩
  · exact ⟨f, hf, by simp [hclosed], hinner, h⟩

lemma occurrences (hρ : Function.Injective ρ) (h : t.Respelled ρ t') :
    t'.occurrences = t.occurrences.map ρ := by
  obtain ⟨f, hf, hfree, _, rfl⟩ := h.exists_rename hρ
  rw [occurrences_rename hf, List.map_congr_left hfree]

lemma names_freeVars (hρ : Function.Injective ρ) (h : t.Respelled ρ t') :
    t'.freeVars.names = t.freeVars.names.map ρ := by
  rw [freeVars, freeVars, h.occurrences hρ, NameSet.ofList_map hρ, NameSet.names_rename hρ]

lemma alphaEq (hρ : Function.Injective ρ) (h : t.Respelled ρ t') (hclosed : t.occurrences = []) :
    t.alphaEq t' := by
  obtain ⟨f, hf, _, _, rfl⟩ := h.exists_rename hρ
  exact alphaEq_rename hf hclosed

/-- Instances of types that correspond correspond in all names. -/
lemma instanceAt (hρ : Respells r met held ρ) (h : t.Respelled ρ t') (n : Nat) :
    t'.boundCount = t.boundCount ∧ t'.instanceAt n = (t.instanceAt n).rename ρ := by
  obtain ⟨f, hf, hfree, hinner, rfl⟩ := h.exists_rename hρ.injective
  cases t with
  | scheme vars body =>
    have hcount : (vars.rename f).names.length = vars.names.length := by
      rw [NameSet.names_rename hf, List.length_map]
    refine ⟨hcount, ?_⟩
    let types := (List.range' n vars.names.length).map Ty.fresh
    have htypes : types.map (rename ρ) = types := by
      rw [List.map_map]
      refine List.map_congr_left fun id _ => ?_
      show Ty.var (ρ (freshName id)) .solvable none = _
      rw [hρ.fresh]
      rfl
    show (Scheme.mk (vars.rename f) (body.rename f)).instantiate
      ((List.range' n (vars.rename f).names.length).map Ty.fresh) = _
    rw [hcount]
    show ((Scheme.mk vars body).rename f).instantiate types = _
    rw [← htypes]
    exact Scheme.instantiate_rename hf ⟨vars, body⟩ (by simp [types]) hfree hinner
  | con _ _ => exact ⟨rfl, rfl⟩
  | var _ _ _ => exact ⟨rfl, rename_congr_of_isScheme rfl hfree hinner⟩
  | app _ _ => exact ⟨rfl, rename_congr_of_isScheme rfl hfree hinner⟩

/-- Solutions of corresponding equations leave types that correspond. -/
lemma applyBindings (hρ : Function.Injective ρ) (h : t.Respelled ρ t')
    (bindings : List (String × Ty)) : Respelled ρ (LetPoly.applyBindings bindings t)
      (LetPoly.applyBindings (bindings.map (Prod.map ρ (rename ρ))) t') := by
  rcases h with rfl | h
  · exact .inl ((Ty.renaming hρ).term_applyBindings bindings t).symm
  · have hclosed' : t'.occurrences = [] := by
      rw [occurrences hρ (.inr h), h.closed, List.map_nil]
    have hvars {s : Ty} (hs : s.occurrences = []) : Term.vars s = [] :=
      List.eq_nil_of_subset_nil (hs ▸ unknowns_subset_occurrences s)
    rw [applyBindings_eq_self (hvars h.closed), applyBindings_eq_self (hvars hclosed')]
    exact .inr h

end Respelled

/-! ### Ascriptions -/

/-- Quantifying a type leaves the names that are bound inside of it. -/
lemma innerBinders_quantify {t q : Ty} (hq : t.quantify = .ok q) : q.innerBinders = t.innerBinders := by
  obtain ⟨_, hcase⟩ := quantifyExcept_eq_ok.1 hq
  split at hcase
  · rw [hcase]
  · obtain ⟨hscheme, rfl⟩ := hcase
    exact (innerBinders_of_isScheme hscheme).symm

/-- A closed type that is renamed by `r` where it is written, if the names that it quantifies over
outermost are plain and all others are respelled in the same way. -/
structure Ascribable (r ρ : String → String) (q : Ty) : Prop where
  closed : q.occurrences = []
  inner : ∀ x ∈ q.innerBinders, r x = ρ x
  outer {vars : NameSet} {body : Ty} : q = .scheme vars body → ∀ x ∈ vars, PlainName x

namespace Ascribable

lemma respelled (hr : Function.Injective r) {q : Ty} (hq : q.Ascribable r ρ) :
    q.Respelled ρ (q.rename r) :=
  .inr ⟨hq.closed, r, hr, hq.inner, rfl⟩

lemma rename_of_isScheme {q : Ty} (hq : q.Ascribable r ρ) (hscheme : q.isScheme = false) :
    q.rename r = q.rename ρ :=
  rename_congr_of_isScheme hscheme (by simp [hq.closed]) hq.inner

end Ascribable

/-- The type that an ascription gives a value can be renamed with the ascription. -/
lemma ascribable_quantify {t q : Ty} (hplain : ∀ x ∈ t.variableNames, PlainName x)
    (hinner : ∀ x ∈ t.innerBinders, r x = ρ x) (hq : t.quantify = .ok q) : q.Ascribable r ρ where
  closed := (quantify_exact hq).1
  inner := by rwa [innerBinders_quantify hq]
  outer := by
    rintro vars body rfl x hx
    refine hplain x ?_
    obtain ⟨_, hcase⟩ := quantifyExcept_eq_ok.1 hq
    split at hcase
    · rw [← hcase]
      exact List.mem_append_left _ hx
    · cases hcase.2
      exact occurrences_subset_variableNames t (mem_bindable.1 hx).1

end Ty

/-! ### Rigid variables -/

namespace Inference

variable {r ρ : String → String} {met held : List String}

lemma skolemNames_respell (hρ : Respells r met held ρ) {names : List String}
    (hplain : ∀ x ∈ names, PlainName x) (n : Nat) :
    skolemNames n (names.map r) = (skolemNames n names).map ρ := by
  induction names generalizing n with
  | nil => rfl
  | cons x names ih =>
    rw [List.forall_mem_cons] at hplain
    rw [List.map_cons, skolemNames, skolemNames, List.map_cons, hρ.skolem n hplain.1, ih hplain.2]

/-- Rigid variables stand for the names of an ascription however these are spelled. -/
lemma rigidInstance_respell (hρ : Respells r met held ρ) {sc : Scheme}
    (hsc : sc.toTy.Ascribable r ρ) (n : Nat) :
    rigidInstance (sc.rename r) n = (rigidInstance sc n).rename ρ := by
  have hr := hρ.source_injective
  have hnames : (sc.rename r).vars.names = sc.vars.names.map r := NameSet.names_rename hr sc.vars
  have htypes : (skolemNames n (sc.rename r).vars.names).map Ty.rigid =
      ((skolemNames n sc.vars.names).map Ty.rigid).map (Ty.rename ρ) := by
    rw [hnames, skolemNames_respell hρ (hsc.outer rfl), List.map_map, List.map_map]
    rfl
  rw [rigidInstance, rigidInstance, htypes]
  exact Scheme.instantiate_rename hr sc (by rw [List.length_map, length_skolemNames])
    (by simp [hsc.closed]) hsc.inner

end Inference

end LetPoly
