import LetPoly.Proofs.Alike
import LetPoly.Proofs.Kinding.Rename
import LetPoly.Proofs.Ty.Respelling
import LetPoly.Proofs.Typing.Handles
import LetPoly.Proofs.Typing.Trace

/-!
# Steps of inference in two spellings

Two runs of inference, the second one on a program whose variables are respelled. They give out the
same numbers and the same handles, the equations that wait correspond, and so do the types of all
handles (`Inference.Respelled`). Types that are put into equations or into other types correspond in
all names; those of values that are only instantiated may quantify over other names. The relation
says which handles are of the first kind. Every single action of inference keeps the relation, or
fails in both runs.
-/

namespace LetPoly

open Inference Session

variable {α : Type} {r ρ : String → String} {met held : List String} {K : Handle → Prop}

/-- Corresponding states of two runs, if `K` are the handles whose types correspond in all names. -/
structure Inference.Respelled (ρ : String → String) (K : Handle → Prop) (s s' : Inference) :
    Prop where
  next : s'.next = s.next
  queue : s'.unifier.queue = s.unifier.queue.map (Equation.map (Ty.rename ρ) id)
  live : s.unifier.live.Pairs (Ty.Respelled ρ) s'.unifier.live
  own {h : Handle} : K h → s'.term? h = (s.term? h).map (Ty.rename ρ)
  issued {h : Handle} : K h → s.Issued h

/-- A type and what it is respelled to. -/
def Renames (ρ : String → String) (t t' : Ty) : Prop := t' = t.rename ρ

/-- Results as `Q` says in corresponding states. -/
def Spelled (ρ : String → String) (K : Handle → Prop) (Q : α → α → Prop) (a : α) (s : Inference)
    (a' : α) (s' : Inference) : Prop :=
  Q a a' ∧ s.Respelled ρ K s'

/-- Runs of two actions both fail, or come to results as `Q` says. -/
abbrev InTandem (ρ : String → String) (K : Handle → Prop) (x x' : InferM α) (Q : α → α → Prop)
    (s s' : Inference) : Prop :=
  Alike (fun _ _ _ _ => True) (Spelled ρ K Q) (x s) (x' s')

section States

variable {s s' : Inference} {t t' : Ty}

namespace Inference.Respelled

lemma mono {K' : Handle → Prop} (hs : s.Respelled ρ K' s') (hsub : ∀ h, K h → K' h) :
    s.Respelled ρ K s' :=
  ⟨hs.next, hs.queue, hs.live, fun hh => hs.own (hsub _ hh), fun hh => hs.issued (hsub _ hh)⟩

lemma bump (hs : s.Respelled ρ K s') (count : Nat) : (s.bump count).Respelled ρ K (s'.bump count) :=
  ⟨congrArg (· + count) hs.next, hs.queue, hs.live, hs.own, hs.issued⟩

lemma noted (hs : s.Respelled ρ K s') (kinds kinds' : List Kind) :
    (s.noted kinds).Respelled ρ K (s'.noted kinds') :=
  ⟨hs.next, hs.queue, hs.live, hs.own, hs.issued⟩

lemma equated (hs : s.Respelled ρ K s') (a b : Ty) (origin : TypeOrigin) :
    (s.equated a b origin).Respelled ρ K (s'.equated (a.rename ρ) (b.rename ρ) origin) := by
  refine ⟨hs.next, ?_, hs.live, hs.own, hs.issued⟩
  show s'.unifier.queue ++ [_] = (s.unifier.queue ++ [_]).map _
  rw [hs.queue, List.map_append]
  rfl

/-- Types that are tracked together get the same handle. -/
lemma newHandle (hs : s.Respelled ρ K s') (ht : t.Respelled ρ t') :
    s'.newHandle t' = s.newHandle t :=
  (hs.live.insert ht).1

lemma tracked (hs : s.Respelled ρ K s') (ht : t.Respelled ρ t') :
    (s.tracked t).Respelled ρ K (s'.tracked t') where
  next := hs.next
  queue := hs.queue
  live := (hs.live.insert ht).2
  own {h} hh := by
    have hne : h ≠ s.newHandle t := fun heq => s.not_issued_newHandle t (heq ▸ hs.issued hh)
    rw [term?_tracked, term?_tracked, hs.newHandle ht, if_neg hne, if_neg hne]
    exact hs.own hh
  issued hh := (hs.issued hh).tracked t

lemma tracked_own (hs : s.Respelled ρ K s') (t : Ty) :
    (s.tracked t).Respelled ρ (Along K [s.newHandle t]) (s'.tracked (t.rename ρ)) := by
  have ht : t.Respelled ρ (t.rename ρ) := .inl rfl
  have htracked := hs.tracked ht
  refine ⟨htracked.next, htracked.queue, htracked.live, fun {h} hh => ?_, fun {h} hh => ?_⟩
  · rcases hh with hh | hh
    · obtain rfl := List.mem_singleton.1 hh
      rw [term?_newHandle, ← hs.newHandle ht, term?_newHandle]
      rfl
    · exact htracked.own hh
  · rcases hh with hh | hh
    · exact List.mem_singleton.1 hh ▸ s.issued_newHandle t
    · exact htracked.issued hh

lemma released (hs : s.Respelled ρ K s') (h : Handle) :
    (s.released h).Respelled ρ K (s'.released h) where
  next := hs.next
  queue := hs.queue
  live := hs.live.release h
  own {h'} hh := by
    rw [term?_released, term?_released]
    split
    · rfl
    · exact hs.own hh
  issued hh := (hs.issued hh).released h

lemma releasedAll (hs : s.Respelled ρ K s') (handles : List Handle) :
    (s.releasedAll handles).Respelled ρ K (s'.releasedAll handles) := by
  induction handles generalizing s s' with
  | nil => exact hs
  | cons h handles ih => exact ih (hs.released h)

/-- The type of a handle is replaced by types that correspond in all names. -/
lemma replaced (hs : s.Respelled ρ K s') (h : Handle) (t : Ty) :
    (s.replaced h t).Respelled ρ K (s'.replaced h (t.rename ρ)) where
  next := hs.next
  queue := hs.queue
  live := hs.live.replace h (.inl rfl)
  own {h'} hh := by
    cases hlive : s.term? h with
    | none =>
      have hlive' : s'.term? h = none := hs.live.get?_none hlive
      have hsame {s : Inference} {t : Ty} (hdead : s.term? h = none) : s.replaced h t = s := by
        have hstore : s.unifier.live.replace h t = s.unifier.live := by
          rw [Store.replace, show s.unifier.live.get? h = none from hdead]
        rw [Inference.replaced, Unifier.replace, hstore]
      rw [hsame hlive, hsame hlive']
      exact hs.own hh
    | some old =>
      obtain ⟨old', hlive', _⟩ := hs.live.get?_some hlive
      rw [term?_replaced hlive, term?_replaced hlive']
      split
      · rfl
      · exact hs.own hh
  issued hh := (hs.issued hh).replaced h t

/-- Corresponding equations are solved alike. -/
lemma solve_queue (hρ : Function.Injective ρ) (hs : s.Respelled ρ K s') :
    LetPoly.solve s'.unifier.queue = (LetPoly.solve s.unifier.queue).map (Ty.rename ρ) ρ id := by
  rw [hs.queue]
  exact (Ty.renaming hρ).solve_map id s.unifier.queue

lemma settled (hρ : Function.Injective ρ) (hs : s.Respelled ρ K s') :
    s.settled.Respelled ρ K s'.settled where
  next := hs.next
  queue := rfl
  live := by
    show (s.unifier.live.map _).Pairs _ (s'.unifier.live.map _)
    rw [hs.solve_queue hρ]
    exact hs.live.map fun _ _ ht => ht.applyBindings hρ _
  own {h} hh := by
    have hsettled (s : Inference) : s.settled.term? h = (s.term? h).map _ :=
      Unifier.term?_solve s.unifier h
    rw [hsettled, hsettled, hs.own hh, hs.solve_queue hρ, Option.map_map, Option.map_map]
    refine congrArg (fun f => (s.term? h).map f) (funext fun t => ?_)
    exact ((Ty.renaming hρ).term_applyBindings _ t).symm
  issued hh := hs.issued hh

end Inference.Respelled

end States

/-! ### Single actions -/

section Actions

variable {s s' : Inference}

lemma InTandem.mono {K' : Handle → Prop} {x x' : InferM α} {Q : α → α → Prop}
    (hx : InTandem ρ K' x x' Q s s') (hsub : ∀ h, K h → K' h) : InTandem ρ K x x' Q s s' :=
  hx.imp (fun _ _ _ _ _ => trivial) fun _ _ _ _ hq => ⟨hq.1, hq.2.mono hsub⟩

lemma tandem_pure (hs : s.Respelled ρ K s') {a a' : α} {Q : α → α → Prop} (ha : Q a a') :
    InTandem ρ K (pure a) (pure a') Q s s' :=
  ⟨ha, hs⟩

lemma tandem_fail {e e' : TypeError} {Q : α → α → Prop} :
    InTandem ρ K (fail e) (fail e') Q s s' :=
  trivial

lemma rename_fresh (hρ : Respells r met held ρ) (id : Nat) :
    (Ty.fresh id).rename ρ = .fresh id := by
  show Ty.var (ρ (Ty.freshName id)) .solvable none = _
  rw [hρ.fresh]
  rfl

lemma tandem_fresh (hρ : Respells r met held ρ) (hs : s.Respelled ρ K s') :
    InTandem ρ K fresh fresh (Renames ρ) s s' := by
  refine .of_ok (fresh_run s) (fresh_run s') ⟨?_, hs.bump 1⟩
  rw [Renames, rename_fresh hρ, hs.next]

lemma tandem_freshList (hρ : Respells r met held ρ) (hs : s.Respelled ρ K s') (count : Nat) :
    InTandem ρ K (freshList count) (freshList count)
      (fun types types' => types' = types.map (Ty.rename ρ)) s s' := by
  refine .of_ok (freshList_run count s) (freshList_run count s') ⟨?_, hs.bump count⟩
  dsimp only
  rw [hs.next, List.map_map]
  exact List.map_congr_left fun id _ => (rename_fresh hρ id).symm

lemma tandem_instantiate (hρ : Respells r met held ρ) (hs : s.Respelled ρ K s') {t t' : Ty}
    (ht : t.Respelled ρ t') : InTandem ρ K (instantiate t) (instantiate t') (Renames ρ) s s' := by
  obtain ⟨hcount, hinstance⟩ := ht.instanceAt hρ s.next
  refine .of_ok (instantiate_run t s) (instantiate_run t' s') ⟨?_, hcount ▸ hs.bump _⟩
  rw [Renames, hs.next, hinstance]

/-- The types of a handle correspond. -/
lemma tandem_read (hs : s.Respelled ρ K s') (h : Handle) :
    InTandem ρ K (current h) (current h) (Ty.Respelled ρ) s s' := by
  cases hlive : s.term? h with
  | none =>
    exact .of_error (current_of_dead hlive) (current_of_dead (hs.live.get?_none hlive)) trivial
  | some t =>
    obtain ⟨t', hlive', ht⟩ := hs.live.get?_some hlive
    exact .of_ok (current_run hlive) (current_run hlive') ⟨ht, hs⟩

lemma tandem_current (hs : s.Respelled ρ K s') {h : Handle} (hh : K h) :
    InTandem ρ K (current h) (current h) (Renames ρ) s s' := by
  have hown := hs.own hh
  cases hlive : s.term? h with
  | none =>
    rw [hlive] at hown
    exact .of_error (current_of_dead hlive) (current_of_dead hown) trivial
  | some t =>
    rw [hlive] at hown
    exact .of_ok (current_run hlive) (current_run hown) ⟨rfl, hs⟩

lemma tandem_track (hs : s.Respelled ρ K s') {t t' : Ty} (ht : t.Respelled ρ t') :
    InTandem ρ K (track t) (track t') (fun h h' => h' = h) s s' :=
  .of_ok (track_run s t) (track_run s' t') ⟨hs.newHandle ht, hs.tracked ht⟩

/-- A handle for types that correspond in all names. -/
lemma alike_track_own (hs : s.Respelled ρ K s') (t : Ty) :
    Alike (fun _ _ _ _ => True) (fun h s₁ h' s₁' => h' = h ∧ s₁.Respelled ρ (Along K [h]) s₁')
      (track t s) (track (t.rename ρ) s') :=
  .of_ok (track_run s t) (track_run s' _) ⟨hs.newHandle (.inl rfl), hs.tracked_own t⟩

lemma tandem_release (hs : s.Respelled ρ K s') (h : Handle) :
    InTandem ρ K (release h) (release h) (fun _ _ => True) s s' :=
  .of_ok (release_run s h) (release_run s' h) ⟨trivial, hs.released h⟩

lemma tandem_releaseAll {values : Scope Handle} (hs : s.Respelled ρ K s') (handles : List Handle) :
    InTandem ρ K (releaseAll values handles) (releaseAll values handles) (fun _ _ => True) s s' :=
  .of_ok (releaseAll_run handles s) (releaseAll_run handles s') ⟨trivial, hs.releasedAll handles⟩

lemma tandem_take (hρ : Respells r met held ρ) (hs : s.Respelled ρ K s') {h : Handle} (hh : K h) :
    InTandem ρ K (take h) (take h) (Renames ρ) s s' := by
  have hown := hs.own hh
  cases hlive : s.term? h with
  | none =>
    rw [hlive] at hown
    rw [InTandem, take_of_dead hlive, take_of_dead hown]
    exact tandem_fresh hρ ⟨hs.next, hs.queue, hs.live, hs.own, hs.issued⟩
  | some t =>
    rw [hlive] at hown
    exact .of_ok (take_run hlive) (take_run hown) ⟨rfl, hs.released h⟩

lemma tandem_takeAll {values : Scope Handle} (hρ : Respells r met held ρ) (hs : s.Respelled ρ K s')
    {handles : List Handle} (hhandles : ∀ h ∈ handles, K h) :
    InTandem ρ K (takeAll values handles) (takeAll values handles)
      (fun types types' => types' = types.map (Ty.rename ρ)) s s' := by
  induction handles generalizing s s' with
  | nil => exact tandem_pure hs rfl
  | cons h handles ih =>
    rw [List.forall_mem_cons] at hhandles
    refine (tandem_take hρ hs hhandles.1).bind ?_
    rintro t s₁ _ s₁' ⟨rfl, hs₁⟩
    refine (ih hs₁ hhandles.2).bind ?_
    rintro types s₂ _ s₂' ⟨rfl, hs₂⟩
    exact tandem_pure hs₂ rfl

lemma tandem_equate (hs : s.Respelled ρ K s') (a b : Ty) (origin : TypeOrigin) :
    InTandem ρ K (equate a b origin) (equate (a.rename ρ) (b.rename ρ) origin) (fun _ _ => True)
      s s' :=
  .of_ok (equate_run s a b origin) (equate_run s' _ _ origin) ⟨trivial, hs.equated a b origin⟩

lemma tandem_solve (hρ : Function.Injective ρ) (hs : s.Respelled ρ K s') :
    InTandem ρ K Inference.solve Inference.solve (fun _ _ => True) s s' := by
  have hfailure : (LetPoly.solve s'.unifier.queue).failure =
      (LetPoly.solve s.unifier.queue).failure.map (Unsolved.map (Ty.rename ρ) ρ id) := by
    rw [hs.solve_queue hρ]
    rfl
  cases h : (LetPoly.solve s.unifier.queue).failure with
  | none =>
    rw [h] at hfailure
    exact .of_ok (solve_run h) (solve_run hfailure) ⟨trivial, hs.settled hρ⟩
  | some unsolved =>
    rw [h] at hfailure
    exact .of_error (solve_of_failure h) (solve_of_failure hfailure) trivial

/-- A name in scope is used through an instance of its type. -/
lemma tandem_instance (hρ : Respells r met held ρ) (hs : s.Respelled ρ K s') (h : Handle) :
    InTandem ρ K (do instantiate (← current h)) (do instantiate (← current h)) (Renames ρ) s s' :=
  (tandem_read hs h).bind fun _ _ _ _ h₁ => tandem_instantiate hρ h₁.2 h₁.1

lemma tandem_freeVarsOf (hρ : Function.Injective ρ) (hs : s.Respelled ρ K s')
    (handles : List Handle) : InTandem ρ K (freeVarsOf handles) (freeVarsOf handles)
      (fun names names' => names' = names.map ρ) s s' := by
  induction handles generalizing s s' with
  | nil => exact tandem_pure hs rfl
  | cons h handles ih =>
    refine (tandem_read hs h).bind fun t s₁ t' s₁' h₁ => ?_
    refine (ih h₁.2).bind ?_
    rintro names s₂ _ s₂' ⟨rfl, hs₂⟩
    refine tandem_pure hs₂ ?_
    rw [h₁.1.names_freeVars hρ, List.map_append]

lemma tandem_envVars (hρ : Function.Injective ρ) (hs : s.Respelled ρ K s') (values : Scope Handle)
    (skip : String) : InTandem ρ K (envVars values skip) (envVars values skip)
      (fun names names' => names' = names.map ρ) s s' :=
  tandem_freeVarsOf hρ hs _

end Actions

end LetPoly
