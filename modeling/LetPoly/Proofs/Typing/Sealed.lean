import LetPoly.Proofs.Ty.Stable
import LetPoly.Proofs.Typing.Traced
import LetPoly.Proofs.Unification.Resolved

/-!
# Closed types in traces

Two invariants of every trace. The quantified types inside other types keep whatever solving,
instantiating and closing keep of them (`Moment.Tame`). And a type without free variables never
changes again (`Moment.Sealed`): no solution reaches it, and closing it gives it back.
-/

namespace LetPoly

open Inference Session

variable {S : Sources} {m m' : Moment}

/-! ### Quantified types inside -/

/-- The quantified types inside all types satisfy `p`, those apart of which only instances are
used. -/
structure Moment.Tame (p : NameSet → Ty → Bool) (m : Moment) : Prop where
  own {h : Handle} {t : Ty} : m.own h → m.state.term? h = some t → t.allSchemes p
  live {h : Handle} {t : Ty} : m.state.term? h = some t → t.matrix.allSchemes p
  queue : ∀ e ∈ m.state.unifier.queue, e.left.allSchemes p ∧ e.right.allSchemes p
  held : ∀ t ∈ m.held, t.allSchemes p

/-- The same of sources. -/
structure Sources.Tame (p : NameSet → Ty → Bool) (S : Sources) : Prop where
  plain {t : Ty} : S.plain t → t.allSchemes p
  general {t : Ty} : S.general t → t.matrix.allSchemes p

section Tame

variable {p : NameSet → Ty → Bool}

lemma Moment.Tame.built (hS : S.Tame p) (hm : m.Tame p) {t : Ty} (ht : Built S m.held t) :
    t.allSchemes p := by
  induction ht with
  | held h => exact hm.held _ h
  | plain h => exact hS.plain h
  | arrow _ _ iha ihb => exact Ty.allSchemes_arrow.2 ⟨iha, ihb⟩

lemma Moment.Tame.gain (hm : m.Tame p) {count : Nat} {t : Ty} (ht : t.allSchemes p) :
    (m.gain count t).Tame p :=
  ⟨hm.own, hm.live, hm.queue, List.forall_mem_cons.2 ⟨ht, hm.held⟩⟩

lemma Ty.allSchemes_instanceAt (hp : StableScheme p) {t : Ty} (ht : t.matrix.allSchemes p)
    (n : Nat) : (t.instanceAt n).allSchemes p := by
  cases t with
  | scheme vars body =>
    refine Scheme.allSchemes_instantiate hp (s := ⟨vars, body⟩) ht fun u hu => ?_
    obtain ⟨i, _, rfl⟩ := List.mem_map.1 hu
    rfl
  | con _ _ => exact ht
  | var _ _ _ => exact ht
  | app _ _ => exact ht

lemma allSchemes_rigidInstance (hp : StableScheme p) {sc : Scheme} (h : sc.body.allSchemes p)
    (n : Nat) : (rigidInstance sc n).allSchemes p := by
  refine Scheme.allSchemes_instantiate hp h fun u hu => ?_
  obtain ⟨y, _, rfl⟩ := List.mem_map.1 hu
  rfl

lemma keptBySolving_allSchemes (hp : StableScheme p) :
    KeptBySolving fun t : Ty => (t.allSchemes p : Prop) where
  assign ht hs := by
    rw [Term.assign]
    split
    · exact Ty.allSchemes_subst hp ht _ hs
    · exact hs
  decompose h ha hb := Ty.allSchemes_decompose h ha hb

lemma Inference.term?_settled_eq_some {s : Inference} {h : Handle} {t' : Ty}
    (ht' : s.settled.term? h = some t') : ∃ t, s.term? h = some t ∧
      t' = applyBindings (LetPoly.solve s.unifier.queue).bindings t := by
  have hmap : s.settled.term? h = (s.term? h).map _ := Unifier.term?_solve s.unifier h
  rw [hmap] at ht'
  obtain ⟨t, ht, rfl⟩ := Option.map_eq_some_iff.1 ht'
  exact ⟨t, ht, rfl⟩

lemma Moment.Tame.solve (hp : StableScheme p) (hm : m.Tame p) : m.solve.Tame p := by
  have hvalues := solve_all (keptBySolving_allSchemes hp) hm.queue
  refine ⟨fun {h t'} hh ht' => ?_, fun {h t'} ht' => ?_, fun e he => (by cases he),
    fun t ht => (by cases ht)⟩
  · obtain ⟨t, ht, rfl⟩ := term?_settled_eq_some ht'
    exact applyBindings_of (Q := fun t : Ty => t.allSchemes p)
      (fun b hb s hs => (keptBySolving_allSchemes hp).assign (hvalues b hb) hs) (hm.own hh ht)
  · obtain ⟨t, ht, rfl⟩ := term?_settled_eq_some ht'
    refine applyBindings_of (Q := fun t : Ty => t.matrix.allSchemes p) (fun b hb s hs => ?_)
      (hm.live ht)
    rw [Term.assign]
    split
    · exact Ty.allSchemes_matrix_subst hp (hvalues b hb) hs
    · exact hs

lemma Moment.Tame.tracked (hm : m.Tame p) {t : Ty} (ht : t.matrix.allSchemes p)
    (hown : m'.state = m.state.tracked t) (hheld : m'.held = m.held)
    (hnew : ∀ h, m'.own h → m.own h ∨ h = m.state.newHandle t ∧ t.allSchemes p) : m'.Tame p where
  own := by
    intro h t' hh ht'
    rw [hown, term?_tracked] at ht'
    split at ht'
    · rename_i heq
      cases ht'
      rcases hnew h hh with hold | ⟨_, hall⟩
      · exact absurd (m.issued (heq ▸ hold)) (m.state.not_issued_newHandle t)
      · exact hall
    · rename_i hne
      exact hm.own ((hnew h hh).resolve_right fun h => hne h.1) ht'
  live := by
    intro h t' ht'
    rw [hown, term?_tracked] at ht'
    split at ht'
    · cases ht'
      exact ht
    · exact hm.live ht'
  queue := by
    rw [hown]
    exact hm.queue
  held := by
    rw [hheld]
    exact hm.held

lemma Moves.tame (hp : StableScheme p) (hS : S.Tame p) (hmove : Moves S m m') (hm : m.Tame p) :
    m'.Tame p := by
  cases hmove with
  | fresh => exact hm.gain rfl
  | liveInstance ht => exact hm.gain (Ty.allSchemes_instanceAt hp (hm.live ht) _)
  | sourceInstance ht => exact hm.gain (Ty.allSchemes_instanceAt hp (hS.general ht) _)
  | rigidInstance hsc => exact hm.gain (allSchemes_rigidInstance hp (hS.general hsc) _)
  | read hh ht => exact hm.gain (hm.own hh ht)
  | track ht =>
    have hall := hm.built hS ht
    exact hm.tracked (Ty.allSchemes_matrix hall) rfl rfl fun h hh => hh.imp_right fun hh => ⟨hh, hall⟩
  | enter ht => exact hm.tracked (hS.general ht) rfl rfl fun h hh => .inl hh
  | release h =>
    refine ⟨fun {h' t} hh ht => ?_, fun {h' t} ht => ?_, hm.queue, hm.held⟩
    · replace ht : (m.state.released h).term? h' = some t := ht
      rw [term?_released] at ht
      split at ht
      · cases ht
      · exact hm.own hh ht
    · replace ht : (m.state.released h).term? h' = some t := ht
      rw [term?_released] at ht
      split at ht
      · cases ht
      · exact hm.live ht
  | stray h => exact ⟨hm.own, hm.live, hm.queue, hm.held⟩
  | equate origin ha hb =>
    refine ⟨hm.own, hm.live, fun e he => ?_, hm.held⟩
    rcases List.mem_append.1 he with he | he
    · exact hm.queue e he
    · obtain rfl := List.mem_singleton.1 he
      exact ⟨hm.built hS ha, hm.built hS hb⟩
  | solve _ => exact hm.solve hp
  | @close h t g fixed hh ht hg =>
    have hclosed := Ty.allSchemes_generalize hp hg (hm.own hh ht)
    refine ⟨fun {h' t'} hh' ht' => ?_, fun {h' t'} ht' => ?_, hm.queue, hm.held⟩
    · replace ht' : (m.state.replaced h g).term? h' = some t' := ht'
      rw [term?_replaced ht, if_neg hh'.2] at ht'
      exact hm.own hh'.1 ht'
    · replace ht' : (m.state.replaced h g).term? h' = some t' := ht'
      rw [term?_replaced ht] at ht'
      split at ht'
      · cases ht'
        exact hclosed
      · exact hm.live ht'
  | note kinds => exact ⟨hm.own, hm.live, hm.queue, hm.held⟩

end Tame

/-! ### Closed types never change -/

/-- A handle whose type has no free variable, and will be neither changed nor replaced. -/
structure Moment.Sealed (P : Ty → Prop) (m : Moment) (h : Handle) : Prop where
  issued : m.state.Issued h
  term {t : Ty} : m.state.term? h = some t → t.occurrences = [] ∧ P t
  own {t : Ty} : m.own h → m.state.term? h = some t → t.isScheme = false

namespace Moment

variable {P : Ty → Prop} {h : Handle}

lemma Sealed.imp {Q : Ty → Prop} (hh : m.Sealed P h) (himp : ∀ t, P t → Q t) : m.Sealed Q h :=
  ⟨hh.issued, fun ht => ⟨(hh.term ht).1, himp _ (hh.term ht).2⟩, hh.own⟩

lemma eq_of_term?_newHandle {t t' : Ty}
    (ht : (m.state.tracked t).term? (m.state.newHandle t) = some t') : t' = t :=
  Option.some.inj (ht.symm.trans (m.state.term?_newHandle t))

lemma sealed_enter {t : Ty} (hclosed : t.occurrences = []) (hP : P t) :
    (m.enter t).Sealed P (m.state.newHandle t) where
  issued := m.state.issued_newHandle t
  term ht := by
    obtain rfl := eq_of_term?_newHandle ht
    exact ⟨hclosed, hP⟩
  own hh := absurd (m.issued hh) (m.state.not_issued_newHandle t)

lemma sealed_track {t : Ty} (hclosed : t.occurrences = []) (hP : P t) (hplain : t.isScheme = false) :
    (m.track t).Sealed P (m.state.newHandle t) where
  issued := m.state.issued_newHandle t
  term ht := by
    obtain rfl := eq_of_term?_newHandle ht
    exact ⟨hclosed, hP⟩
  own _ ht := by
    obtain rfl := eq_of_term?_newHandle ht
    exact hplain

/-- Another type is tracked. -/
lemma Sealed.tracked {t : Ty} (hh : m.Sealed P h) (hstate : m'.state = m.state.tracked t)
    (hown : ∀ h', m'.own h' → m.own h' ∨ h' = m.state.newHandle t) : m'.Sealed P h := by
  have hne : h ≠ m.state.newHandle t := by
    rintro rfl
    exact m.state.not_issued_newHandle t hh.issued
  have hterm : m'.state.term? h = m.state.term? h := by rw [hstate, term?_tracked, if_neg hne]
  refine ⟨hstate ▸ hh.issued.tracked t, fun ht => hh.term (hterm ▸ ht), fun hh' ht => ?_⟩
  exact hh.own ((hown h hh').resolve_right hne) (hterm ▸ ht)

end Moment

lemma Ty.generalize_of_closed {t g : Ty} {fixed : List String} (hclosed : t.occurrences = [])
    (hplain : t.isScheme = false) (hg : t.generalize fixed = .ok g) : g = t := by
  obtain ⟨_, _, hcase⟩ := generalize_eq_ok hg
  have hempty : (t.bindable fixed).isEmpty := by
    simp [bindable, freeVars, hclosed, NameSet.isEmpty, NameSet.filter, NameSet.ofList]
  rwa [if_pos ⟨hplain, hempty⟩] at hcase

lemma Ty.unknowns_of_occurrences {t : Ty} (h : t.occurrences = []) : t.unknowns = [] :=
  List.subset_nil.1 (h ▸ unknowns_subset_occurrences t)

lemma Moves.sealed {P : Ty → Prop} {h : Handle} (hmove : Moves S m m') (hh : m.Sealed P h) :
    m'.Sealed P h := by
  cases hmove with
  | fresh => exact ⟨hh.issued, hh.term, hh.own⟩
  | liveInstance _ => exact ⟨hh.issued, hh.term, hh.own⟩
  | sourceInstance _ => exact ⟨hh.issued, hh.term, hh.own⟩
  | rigidInstance _ => exact ⟨hh.issued, hh.term, hh.own⟩
  | read _ _ => exact ⟨hh.issued, hh.term, hh.own⟩
  | track _ => exact hh.tracked rfl fun _ h => h
  | enter _ => exact hh.tracked rfl fun _ h => .inl h
  | release h' =>
    have hterm {t : Ty} (ht : (m.state.released h').term? h = some t) : m.state.term? h = some t := by
      rw [term?_released] at ht
      split at ht
      · cases ht
      · exact ht
    exact ⟨hh.issued.released h', fun ht => hh.term (hterm ht), fun hown ht => hh.own hown (hterm ht)⟩
  | stray _ => exact ⟨hh.issued, hh.term, hh.own⟩
  | equate _ _ _ => exact ⟨hh.issued, hh.term, hh.own⟩
  | solve _ =>
    have hterm {t : Ty} (ht : m.state.settled.term? h = some t) : m.state.term? h = some t := by
      obtain ⟨t, hold, rfl⟩ := term?_settled_eq_some ht
      rw [hold, applyBindings_eq_self (T := Ty) (Ty.unknowns_of_occurrences (hh.term hold).1)]
    exact ⟨hh.issued, fun ht => hh.term (hterm ht), fun hown ht => hh.own hown (hterm ht)⟩
  | @close h' t g fixed hown ht hg =>
    have hterm {t' : Ty} (ht' : (m.state.replaced h' g).term? h = some t') :
        m.state.term? h = some t' := by
      rw [term?_replaced ht] at ht'
      split at ht'
      · rename_i heq
        subst heq
        cases ht'
        rw [Ty.generalize_of_closed (hh.term ht).1 (hh.own hown ht) hg]
        exact ht
      · exact ht'
    exact ⟨hh.issued.replaced h' g, fun ht => hh.term (hterm ht),
      fun hown ht => hh.own hown.1 (hterm ht)⟩
  | note _ => exact ⟨hh.issued, hh.term, hh.own⟩

lemma Trace.sealed {P : Ty → Prop} {h : Handle} (htrace : Trace S m m') (hh : m.Sealed P h) :
    m'.Sealed P h :=
  htrace.invariant (I := fun m => m.Sealed P h) (fun hmove => hmove.sealed) hh

/-! ### Scopes in which everything is closed -/

/-- Everything in scope is sealed, and the types of the innermost scope satisfy `P`. -/
structure Moment.Seals (P : Ty → Prop) (m : Moment) (values : Scope Handle) : Prop where
  all : ∀ h ∈ values.values, m.Sealed (fun _ => True) h
  innermost : ∀ h ∈ values.innermost.values, m.Sealed P h

section Seals

variable {P : Ty → Prop} {values : Scope Handle}

lemma Trace.seals (htrace : Trace S m m') (hm : m.Seals P values) : m'.Seals P values :=
  ⟨fun h hh => htrace.sealed (hm.all h hh), fun h hh => htrace.sealed (hm.innermost h hh)⟩

lemma Moment.Seals.insert (hm : m.Seals P values) (name : String) {h : Handle}
    (hh : m.Sealed P h) : m.Seals P (values.insert name h) where
  all h' hh' := by
    rcases Scope.mem_values_insert hh' with rfl | hh'
    · exact hh.imp fun _ _ => trivial
    · exact hm.all h' hh'
  innermost h' hh' := by
    obtain ⟨e, he, rfl⟩ := List.mem_map.1 hh'
    rcases Table.mem_enter he with rfl | he
    · exact hh
    · exact hm.innermost _ (List.mem_map_of_mem (f := Prod.snd) he)

lemma Moment.Seals.bind (hm : m.Seals P values) (config : Config) (name : String) {h : Handle}
    (hh : m.Sealed P h) : m.Seals P (config.bind name h values) := by
  rw [Config.bind]
  split
  · exact hm
  · exact hm.insert name hh

/-- A constructor comes in with a closed type. -/
lemma Moment.Seals.enter {env : Env} {q : Ty} (hm : m.Seals P env.values)
    (hclosed : q.occurrences = []) (hP : P q) (name : String) :
    (m.enter q).Seals P (env.enter name (m.state.newHandle q)).values := by
  have htrace : (m.enter q).Seals P env.values :=
    ⟨fun h hh => (hm.all h hh).tracked rfl fun _ h => .inl h,
      fun h hh => (hm.innermost h hh).tracked rfl fun _ h => .inl h⟩
  exact htrace.insert name (Moment.sealed_enter hclosed hP)

end Seals

end LetPoly
