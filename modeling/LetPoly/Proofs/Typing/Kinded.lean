import LetPoly.Proofs.Kinding.Closing
import LetPoly.Proofs.Typing.Sealed

/-!
# Kinds along traces

All types of a moment have kind `*` under one assignment of kinds to the variables that have been
given out (`Moment.Kinded`). Every move keeps this: a variable that is given out gets the kind of
the one that it stands for, and solving binds each variable to a type of its kind.

The variables that are free in ascriptions of parameters go by their own names. These have to have
one kind throughout, and names that no quantifier inside a type and no letter catches.
-/

namespace LetPoly

open Inference

/-! ### Names that may be free -/

/-- Whether a name may be free in a type, as far as its form tells: it was made up, or it is that of
a free variable of an ascription. -/
def isLoose (names : List String) (x : String) : Bool :=
  decide (apostrophe ∈ x.toList) || names.contains x

lemma isLoose_iff {names : List String} {x : String} :
    isLoose names x ↔ ¬ PlainName x ∨ x ∈ names := by
  simp [isLoose, PlainName]

/-- Whether a quantified type inside another one catches neither names that may be free nor
letters. -/
def sheltered (names : List String) : NameSet → Ty → Bool :=
  avoids fun x => isLoose names x || isLetterName x

/-- The kinds of type constructors, and the names of free variables of ascriptions with their
kinds. -/
structure NamedFrame extends KindFrame where
  names : List String
  kinds : String → Kind
  plain {x : String} : x ∈ names → PlainName x
  letter {x : String} : x ∈ names → isLetterName x = false
  var (x : String) : toKindFrame.Var (kinds x)

namespace NamedFrame

variable {F : NamedFrame} {n n' : Nat} {Δ Δ' : String → Kind}

/-- The names that may be free once `n` variables have been given out. -/
def Known (F : NamedFrame) (n : Nat) (x : String) : Prop :=
  x ∈ F.names ∨ ∃ sort, TyVar.Issued n ⟨x, sort⟩

lemma Known.isLoose {x : String} (h : F.Known n x) : isLoose F.names x := by
  rcases h with h | ⟨sort, h⟩
  · exact isLoose_iff.2 (.inr h)
  · exact isLoose_iff.2 (.inl h.not_plainName)

lemma Known.mono {x : String} (h : F.Known n x) (hle : n ≤ n') : F.Known n' x :=
  h.imp_right fun ⟨sort, h⟩ => ⟨sort, h.mono hle⟩

lemma isLoose_letterName (i : Nat) : isLoose F.names (letterName i) = false := by
  refine Bool.eq_false_iff.2 fun h => ?_
  rcases isLoose_iff.1 h with h | h
  · exact h (plainName_letterName i)
  · have hletter := isLetterName_letterName i
    rw [F.letter h] at hletter
    cases hletter

/-- A name is new once `n` variables have been given out, but no longer after `n'`. -/
def New (F : NamedFrame) (n n' : Nat) (x : String) : Prop := ¬ F.Known n x ∧ F.Known n' x

lemma new_freshName {i : Nat} (h : n ≤ i) (h' : i < n') : F.New n n' (Ty.freshName i) := by
  refine ⟨?_, .inr ⟨.solvable, i, h', rfl⟩⟩
  rintro (hmem | ⟨sort, hi⟩)
  · exact Ty.not_plainName_freshName i (F.plain hmem)
  · exact absurd (hi.lt_of_fresh rfl) (by omega)

lemma new_skolemName {x : String} {i : Nat} (h : n ≤ i) (h' : i < n') :
    F.New n n' (Ty.skolemName x i) := by
  refine ⟨?_, .inr ⟨.rigid, x, i, h', rfl⟩⟩
  rintro (hmem | ⟨sort, hi⟩)
  · exact Ty.not_plainName_skolemName x i (F.plain hmem)
  · exact absurd (hi.lt_of_skolem rfl) (by omega)

lemma letterSafe_of_sheltered {t : Ty} (h : t.allSchemes (sheltered F.names)) :
    t.allSchemes letterSafe :=
  Ty.allSchemes_imp (avoids_mono fun x hx => by rw [hx, Bool.or_true]) t h

lemma avoids_of_sheltered {t : Ty} (h : t.allSchemes (sheltered F.names)) :
    t.allSchemes (avoids (isLoose F.names)) :=
  Ty.allSchemes_imp (avoids_mono fun x hx => by rw [hx, Bool.true_or]) t h

/-! ### Types of kind `*` -/

/-- An assignment of kinds to variables that gives the variables of ascriptions theirs. -/
structure Assigns (F : NamedFrame) (Δ : String → Kind) : Prop where
  var (x : String) : F.Var (Δ x)
  names : ∀ x ∈ F.names, Δ x = F.kinds x

/-- A type of kind `*` in which only variables are free that have been given out or belong to
ascriptions. -/
def Sound (F : NamedFrame) (n : Nat) (Δ : String → Kind) (t : Ty) : Prop :=
  F.Fits (F.Known n) (isLoose F.names) Δ t .atomic

/-- Later kinds of variables leave those as they are that were given out before. -/
def Keeps (F : NamedFrame) (n : Nat) (Δ Δ' : String → Kind) : Prop := ∀ x, F.Known n x → Δ' x = Δ x

lemma Keeps.refl (n : Nat) (Δ : String → Kind) : F.Keeps n Δ Δ := fun _ _ => rfl

lemma Sound.change {t : Ty} (h : F.Sound n Δ t) (hkeeps : F.Keeps n Δ Δ') (hle : n ≤ n') :
    F.Sound n' Δ' t where
  kinded := HasKind.imp (fun _ hk => hk) t (fun _ _ => rfl) (fun x hx => hkeeps x (h.names x hx))
    h.kinded
  names x hx := (h.names x hx).mono hle
  schemes := h.schemes

lemma Sound.arrow {a b : Ty} (ha : F.Sound n Δ a) (hb : F.Sound n Δ b) :
    F.Sound n Δ (.arrow a b) where
  kinded := .arrow rfl (hasKind_con_iff.2 ⟨fun k hk => (by cases hk; exact F.arrow), rfl⟩) ha.kinded
    hb.kinded
  names x hx := by
    have hmem : x ∈ a.occurrences ++ b.occurrences := by
      simpa [Ty.arrow, Ty.builtin, Ty.occurrences, Ty.occurrencesList] using hx
    exact (List.mem_append.1 hmem).elim (ha.names x) (hb.names x)
  schemes := Ty.allSchemes_arrow.2 ⟨ha.schemes, hb.schemes⟩

/-- New names for the bound variables of a quantified type get the kinds of these. -/
lemma Sound.instantiate {s : Scheme} (hs : F.Sound n Δ s.toTy) (hΔ : F.Assigns Δ)
    (new : List String) (mk : String → Ty) (hmk : ∃ sort, ∀ y, mk y = .var y sort none)
    (hnodup : new.Nodup) (hlen : new.length = s.vars.names.length) (hle : n ≤ n')
    (hnew : ∀ y ∈ new, F.New n n' y) :
    ∃ Δ', F.Assigns Δ' ∧ F.Keeps n Δ Δ' ∧ F.Sound n' Δ' (s.instantiate (new.map mk)) := by
  obtain ⟨⟨Δ₁, hoff, hon, hbody⟩, _⟩ := hasKind_scheme_iff.1 hs.kinded
  have hall : s.body.allSchemes (avoids (isLoose F.names)) := (Ty.allSchemes_scheme.1 hs.schemes).2
  have hΔ₁ := KindFrame.var_under hΔ.var hoff hon
  have hfree {x : String} (hx : x ∈ s.body.occurrences) (hvars : x ∉ s.vars.names) : F.Known n x :=
    hs.names x (List.mem_filter.2 ⟨hx, by simpa using hvars⟩)
  have hkeeps : F.Keeps n Δ (KindFrame.rekind Δ Δ₁ s.vars.names new) := fun x hx =>
    KindFrame.rekind_of_not_mem fun hmem => (hnew x hmem).1 hx
  refine ⟨_, ⟨KindFrame.var_rekind hΔ.var hΔ₁ _ _, fun x hx => ?_⟩, hkeeps, ?_, fun x hx => ?_, ?_⟩
  · rw [hkeeps x (.inl hx), hΔ.names x hx]
  · exact KindFrame.HasKind.rename mk hmk s.vars.nodup hnodup hlen hΔ.var hΔ₁ hall
      (fun y hy => (hnew y hy).2.isLoose)
      (fun x hx hvars => ⟨fun hmem => (hnew x hmem).1 (hfree hx hvars), hoff x hvars⟩) hbody
  · have hlen' : (new.map mk).length = s.vars.names.length := by rw [List.length_map, hlen]
    rcases Ty.mem_occurrences_substAll s.body hx with ⟨hx, hnone⟩ | ⟨y, _, u, hsome, hx⟩
    · refine (hfree hx fun hvars => ?_).mono hle
      have hi : s.vars.names.idxOf x < (new.map mk).length :=
        hlen' ▸ List.idxOf_lt_length_of_mem hvars
      rw [substOf_zip s.vars.nodup hlen', if_pos hvars, List.getElem?_eq_getElem hi] at hnone
      cases hnone
    · rw [substOf_zip s.vars.nodup hlen'] at hsome
      split at hsome
      · obtain ⟨z, hz, rfl⟩ := List.mem_map.1 (List.mem_of_getElem? hsome)
        obtain ⟨sort, hmk⟩ := hmk
        rw [hmk z] at hx
        obtain rfl := List.mem_singleton.1 hx
        exact (hnew x hz).2
      · cases hsome
  · refine Scheme.allSchemes_instantiate (stableScheme_avoids _) hall fun u hu => ?_
    obtain ⟨y, _, rfl⟩ := List.mem_map.1 hu
    obtain ⟨sort, hmk⟩ := hmk
    rw [hmk y]
    rfl

lemma Sound.instanceAt {t : Ty} (ht : F.Sound n Δ t) (hΔ : F.Assigns Δ) :
    ∃ Δ', F.Assigns Δ' ∧ F.Keeps n Δ Δ' ∧ F.Sound (n + t.boundCount) Δ' (t.instanceAt n) := by
  cases t with
  | scheme vars body =>
    have hfresh : (List.range' n vars.names.length).map Ty.fresh =
        ((List.range' n vars.names.length).map Ty.freshName).map
          fun y => .var y .solvable none := by
      rw [List.map_map]
      rfl
    obtain ⟨Δ', hΔ', hkeeps, hsound⟩ := Sound.instantiate (s := ⟨vars, body⟩) ht hΔ
      ((List.range' n vars.names.length).map Ty.freshName) (fun y => .var y .solvable none)
      ⟨.solvable, fun _ => rfl⟩
      ((List.nodup_range' (s := n)).map fun _ _ h => Ty.freshName_injective h) (by simp)
      (Nat.le_add_right n vars.names.length) (fun y hy => by
        obtain ⟨i, hi, rfl⟩ := List.mem_map.1 hy
        have hi := List.mem_range'_1.1 hi
        exact new_freshName hi.1 hi.2)
    rw [← hfresh] at hsound
    exact ⟨Δ', hΔ', hkeeps, hsound⟩
  | con _ _ => exact ⟨Δ, hΔ, .refl n Δ, ht⟩
  | var _ _ _ => exact ⟨Δ, hΔ, .refl n Δ, ht⟩
  | app _ _ => exact ⟨Δ, hΔ, .refl n Δ, ht⟩

lemma Sound.rigidInstance {s : Scheme} (hs : F.Sound n Δ s.toTy) (hΔ : F.Assigns Δ) :
    ∃ Δ', F.Assigns Δ' ∧ F.Keeps n Δ Δ' ∧
      F.Sound (n + s.vars.names.length) Δ' (Inference.rigidInstance s n) := by
  refine hs.instantiate hΔ _ Ty.rigid ⟨.rigid, fun _ => rfl⟩ (nodup_skolemNames _ _)
    (length_skolemNames _ _) (Nat.le_add_right n _) fun y hy => ?_
  obtain ⟨x, i, rfl, hi, hi'⟩ := mem_skolemNames hy
  exact new_skolemName hi hi'

lemma Sound.generalize {t g : Ty} {fixed : List String} (ht : F.Sound n Δ t) (hΔ : F.Assigns Δ)
    (hall : t.allSchemes (sheltered F.names)) (hg : t.generalize fixed = .ok g) :
    F.Sound n Δ g where
  kinded := KindFrame.HasKind.generalize hΔ.var (letterSafe_of_sheltered hall) ht.kinded hg
  names x hx := ht.names x (Ty.occurrences_generalize (letterSafe_of_sheltered hall) hg hx)
  schemes := by
    have hmatrix := avoids_of_sheltered (Ty.allSchemes_generalize (stableScheme_avoids _) hg hall)
    obtain ⟨_, _, hcase⟩ := Ty.generalize_eq_ok hg
    split at hcase
    · exact hcase ▸ ht.schemes
    · -- Letters are not loose.
      rw [hcase] at hmatrix ⊢
      refine Ty.allSchemes_scheme.2 ⟨avoids_iff.2 (.inr fun x hx => ?_), hmatrix⟩
      rw [Scheme.canonical_eq, NameSet.mem_ofList] at hx
      obtain ⟨i, rfl⟩ := Scheme.exists_letterName_of_mem_letters hx
      exact isLoose_letterName i

/-! ### Sources -/

/-- Ascriptions of kind `*` under the kinds of their variables, and closed types of kind `*`. What
is in scope says the same of type constructors as `scope`. -/
def sources (F : NamedFrame) (scope : Scope Kind) : Sources where
  plain t := F.HasKind F.kinds t .atomic ∧ (∀ x ∈ t.occurrences, x ∈ F.names) ∧
    t.allSchemes (sheltered F.names)
  general t := F.HasKind F.kinds t .atomic ∧ t.occurrences = [] ∧
    t.matrix.allSchemes (sheltered F.names)
  kinds k := ∀ c, k.lookup c = scope.lookup c

variable {scope : Scope Kind}

lemma tame_sources : (F.sources scope).Tame (sheltered F.names) := ⟨fun h => h.2.2, fun h => h.2.2⟩

lemma sound_of_plain (hΔ : F.Assigns Δ) {t : Ty} (h : (F.sources scope).plain t) :
    F.Sound n Δ t where
  kinded := HasKind.imp (fun _ hk => hk) t (fun _ _ => rfl)
    (fun x hx => hΔ.names x (h.2.1 x hx)) h.1
  names x hx := .inl (h.2.1 x hx)
  schemes := avoids_of_sheltered h.2.2

lemma sound_of_general {t : Ty} (h : (F.sources scope).general t) : F.Sound n Δ t where
  kinded := HasKind.imp (fun _ hk => hk) t (fun _ _ => rfl) (by simp [h.2.1]) h.1
  names := by simp [h.2.1]
  schemes := by
    have hmatrix := avoids_of_sheltered h.2.2
    cases t with
    | scheme vars body =>
      refine Ty.allSchemes_scheme.2 ⟨avoids_iff.2 (.inl fun x hx => ?_), hmatrix⟩
      by_contra hvars
      have hfree : x ∈ (Ty.scheme vars body).occurrences :=
        List.mem_filter.2 ⟨hx, by simpa using hvars⟩
      rw [h.2.1] at hfree
      cases hfree
    | con _ _ => exact hmatrix
    | var _ _ _ => exact hmatrix
    | app _ _ => exact hmatrix

end NamedFrame

/-! ### Moments -/

/-- All types have kind `*`, if variables have the kinds that `Δ` gives them. -/
structure Moment.KindedBy (F : NamedFrame) (Δ : String → Kind) (m : Moment) : Prop where
  assigns : F.Assigns Δ
  live {h : Handle} {t : Ty} : m.state.term? h = some t → F.Sound m.state.next Δ t
  queue : ∀ e ∈ m.state.unifier.queue,
    F.Sound m.state.next Δ e.left ∧ F.Sound m.state.next Δ e.right
  held : ∀ t ∈ m.held, F.Sound m.state.next Δ t

/-- There are kinds for the variables under which all types have kind `*`. -/
def Moment.Kinded (F : NamedFrame) (m : Moment) : Prop := ∃ Δ, m.KindedBy F Δ

namespace Moment.KindedBy

variable {F : NamedFrame} {scope : Scope Kind} {Δ Δ' : String → Kind} {m m' : Moment}

lemma built (hm : m.KindedBy F Δ) {t : Ty} (ht : Built (F.sources scope) m.held t) :
    F.Sound m.state.next Δ t := by
  induction ht with
  | held h => exact hm.held _ h
  | plain h => exact NamedFrame.sound_of_plain hm.assigns h
  | arrow _ _ iha ihb => exact iha.arrow ihb

lemma gain (hm : m.KindedBy F Δ) (hΔ' : F.Assigns Δ') (hkeeps : F.Keeps m.state.next Δ Δ')
    {count : Nat} {t : Ty} (ht : F.Sound (m.state.next + count) Δ' t) :
    (m.gain count t).KindedBy F Δ' := by
  have hle : m.state.next ≤ m.state.next + count := Nat.le_add_right _ _
  exact ⟨hΔ', fun h => (hm.live h).change hkeeps hle,
    fun e he => ⟨(hm.queue e he).1.change hkeeps hle, (hm.queue e he).2.change hkeeps hle⟩,
    List.forall_mem_cons.2 ⟨ht, fun t ht => (hm.held t ht).change hkeeps hle⟩⟩

/-- A variable that is given out for no other has kind `*`. -/
lemma fresh (hm : m.KindedBy F Δ) : ∃ Δ', (m.gain 1 (.fresh m.state.next)).KindedBy F Δ' := by
  have hnew : F.New m.state.next (m.state.next + 1) (Ty.freshName m.state.next) :=
    NamedFrame.new_freshName (Nat.le_refl _) (Nat.lt_succ_self _)
  have hkeeps : F.Keeps m.state.next Δ (Function.update Δ (Ty.freshName m.state.next) .atomic) := by
    intro x hx
    refine Function.update_of_ne ?_ _ _
    rintro rfl
    exact hnew.1 hx
  refine ⟨_, hm.gain ⟨fun x => ?_, fun x hx => ?_⟩ hkeeps ⟨?_, fun x hx => ?_, rfl⟩⟩
  · rw [Function.update_apply]
    split
    · exact KindFrame.var_atomic
    · exact hm.assigns.var x
  · rw [hkeeps x (.inl hx), hm.assigns.names x hx]
  · exact hasKind_var_iff.2 ⟨by simp, Function.update_self ..⟩
  · obtain rfl := List.mem_singleton.1 hx
    exact hnew.2

lemma tracked (hm : m.KindedBy F Δ) {t : Ty} (ht : F.Sound m.state.next Δ t)
    (hstate : m'.state = m.state.tracked t) (hheld : m'.held = m.held) : m'.KindedBy F Δ where
  assigns := hm.assigns
  live {h t'} ht' := by
    rw [hstate, term?_tracked] at ht'
    rw [hstate]
    split at ht'
    · cases ht'
      exact ht
    · exact hm.live ht'
  queue := by
    rw [hstate]
    exact hm.queue
  held := by
    rw [hheld, hstate]
    exact hm.held

/-- Solving puts types of their own kinds for variables. -/
lemma solve (hm : m.KindedBy F Δ) (hok : m.state.Solvable) : m.solve.KindedBy F Δ where
  assigns := hm.assigns
  live {h t'} ht' := by
    obtain ⟨t, ht, rfl⟩ := term?_settled_eq_some ht'
    have hvalues := KindFrame.solve_fits hm.assigns.var (fun _ hx => hx.isLoose) hok fun e he =>
      ⟨.atomic, hm.queue e he⟩
    exact applyBindings_of (Q := F.Sound m.state.next Δ)
      (fun b hb s hs => (hvalues b hb).assign hm.assigns.var (fun _ hx => hx.isLoose) hs)
      (hm.live ht)
  queue e he := by cases he
  held t ht := by cases ht

lemma close (hm : m.KindedBy F Δ) {h : Handle} {t g : Ty} (ht : m.state.term? h = some t)
    (hg : F.Sound m.state.next Δ g) : (m.close h g).KindedBy F Δ where
  assigns := hm.assigns
  live {h' t'} ht' := by
    replace ht' : (m.state.replaced h g).term? h' = some t' := ht'
    rw [term?_replaced ht] at ht'
    split at ht'
    · cases ht'
      exact hg
    · exact hm.live ht'
  queue := hm.queue
  held := hm.held

end Moment.KindedBy

section Trace

variable {F : NamedFrame} {scope : Scope Kind} {m m' : Moment}

lemma Moves.kinded (hmove : Moves (F.sources scope) m m') (htame : m.Tame (sheltered F.names))
    (hm : m.Kinded F) : m'.Kinded F := by
  obtain ⟨Δ, hm⟩ := hm
  cases hmove with
  | fresh => exact hm.fresh
  | liveInstance ht =>
    obtain ⟨Δ', hΔ', hkeeps, hsound⟩ := (hm.live ht).instanceAt hm.assigns
    exact ⟨Δ', hm.gain hΔ' hkeeps hsound⟩
  | sourceInstance ht =>
    obtain ⟨Δ', hΔ', hkeeps, hsound⟩ := (NamedFrame.sound_of_general ht).instanceAt hm.assigns
    exact ⟨Δ', hm.gain hΔ' hkeeps hsound⟩
  | rigidInstance hsc =>
    obtain ⟨Δ', hΔ', hkeeps, hsound⟩ := (NamedFrame.sound_of_general hsc).rigidInstance hm.assigns
    exact ⟨Δ', hm.gain hΔ' hkeeps hsound⟩
  | read _ ht => exact ⟨Δ, hm.gain hm.assigns (.refl _ Δ) (hm.live ht)⟩
  | track ht => exact ⟨Δ, hm.tracked (hm.built ht) rfl rfl⟩
  | enter ht => exact ⟨Δ, hm.tracked (NamedFrame.sound_of_general ht) rfl rfl⟩
  | release h =>
    refine ⟨Δ, hm.assigns, fun {h' t} ht => ?_, hm.queue, hm.held⟩
    replace ht : (m.state.released h).term? h' = some t := ht
    rw [term?_released] at ht
    split at ht
    · cases ht
    · exact hm.live ht
  | stray h => exact ⟨Δ, hm.assigns, hm.live, hm.queue, hm.held⟩
  | equate origin ha hb =>
    refine ⟨Δ, hm.assigns, hm.live, fun e he => ?_, hm.held⟩
    rcases List.mem_append.1 he with he | he
    · exact hm.queue e he
    · obtain rfl := List.mem_singleton.1 he
      exact ⟨hm.built ha, hm.built hb⟩
  | solve hok => exact ⟨Δ, hm.solve hok⟩
  | close hh ht hg =>
    exact ⟨Δ, hm.close ht ((hm.live ht).generalize hm.assigns (htame.own hh ht) hg)⟩
  | note kinds => exact ⟨Δ, hm.assigns, hm.live, hm.queue, hm.held⟩

lemma Moment.kinded_start : (Moment.start .initial).Kinded F :=
  ⟨F.kinds, ⟨F.var, fun _ _ => rfl⟩, fun ht => (by cases ht), fun e he => (by cases he),
    fun t ht => (by cases ht)⟩

/-- At the end of a trace all types have kind `*`. -/
lemma Trace.kinded (htrace : Trace (F.sources scope) (.start .initial) m)
    (htame : (Moment.start .initial).Tame (sheltered F.names)) : m.Kinded F := by
  refine (htrace.invariant (I := fun m => m.Tame (sheltered F.names) ∧ m.Kinded F)
    (fun hmove hm => ?_) ⟨htame, Moment.kinded_start⟩).2
  exact ⟨hmove.tame (stableScheme_avoids _) NamedFrame.tame_sources hm.1, hmove.kinded hm.1 hm.2⟩

end Trace

end LetPoly
