import LetPoly.Proofs.Run
import LetPoly.Proofs.Scope
import LetPoly.Proofs.Ty.Issued
import LetPoly.Proofs.Unification.MostGeneral
import LetPoly.Proofs.Unification.Store
import LetPoly.Typing.Infer

/-!
# States of inference and their solutions

A solution of a state (`Inference.Sol`) is a valuation of names that makes all waiting equations
true; under it every live handle stands for a polytype (`Inference.polyAt`). `Inference.Proper` is
the invariant of states, and `Inference.Extends` says what a run may do to the handles that were
live at its start: they stay live, and every solution of the end comes from one of the start under
which they stand for the same polytypes.
-/

namespace LetPoly

namespace Inference

/-- The current type of a handle. -/
def term? (s : Inference) (h : Handle) : Option Ty := s.unifier.term? h

/-- Handles that have not been released. -/
def Live (s : Inference) (h : Handle) : Prop := ∃ t, s.term? h = some t

/-- The polytype that a handle stands for under a valuation. -/
def polyAt (s : Inference) (θ : String → Mono) (h : Handle) : Poly :=
  match s.term? h with
  | some t => t.poly.subst θ
  | none => .leaf .quantified

/-- Valuations that make all waiting equations true. -/
def Sol (s : Inference) (θ : String → Mono) : Prop :=
  ∀ e ∈ s.unifier.queue, e.left.mono.bind θ = e.right.mono.bind θ

/-- Live types are proper and waiting equations are between simple types. -/
structure Proper (s : Inference) : Prop where
  live {h : Handle} {t : Ty} : s.term? h = some t → t.Proper s.next
  queue : ∀ e ∈ s.unifier.queue, e.left.Simple s.next ∧ e.right.Simple s.next

/-- What a run may do to the handles that were live at its start. -/
structure Extends (s s' : Inference) : Prop where
  next_le : s.next ≤ s'.next
  keep {h : Handle} {t : Ty} : s.term? h = some t → ∃ t', s'.term? h = some t' ∧
    (t.isFlat → t'.isFlat) ∧ (t.poly.Closed → t'.poly = t.poly)
  back {θ : String → Mono} : s'.Sol θ → ∃ θ₀, s.Sol θ₀ ∧
    ∀ h, s.Live h → s'.polyAt θ h = s.polyAt θ₀ h

lemma polyAt_eq {s : Inference} {h : Handle} {t : Ty} (ht : s.term? h = some t)
    (θ : String → Mono) : s.polyAt θ h = t.poly.subst θ := by
  rw [polyAt, ht]

lemma polyAt_of_isFlat {s : Inference} {h : Handle} {t : Ty} (ht : s.term? h = some t)
    (hflat : t.isFlat) (θ : String → Mono) : s.polyAt θ h = .ofMono (t.mono.bind θ) := by
  rw [polyAt_eq ht, Ty.poly_of_isFlat hflat, Poly.subst_ofMono]

lemma polyAt_congr {s s' : Inference} {h : Handle} (ht : s'.term? h = s.term? h)
    (θ : String → Mono) : s'.polyAt θ h = s.polyAt θ h := by
  rw [polyAt, polyAt, ht]

lemma bind_mono_of_polyAt {s : Inference} {h : Handle} {t : Ty} (ht : s.term? h = some t)
    (hflat : t.isFlat) {θ : String → Mono} {τ : Mono} (hτ : s.polyAt θ h = .ofMono τ) :
    t.mono.bind θ = τ :=
  Poly.ofMono_injective ((polyAt_of_isFlat ht hflat θ).symm.trans hτ)

/-- Two types of a handle that stands for the same polytype stand for the same monotype. -/
lemma bind_mono_eq {s s' : Inference} {h : Handle} {t t' : Ty} (ht : s.term? h = some t)
    (hflat : t.isFlat) (ht' : s'.term? h = some t') (hflat' : t'.isFlat) {θ θ' : String → Mono}
    (heq : s'.polyAt θ' h = s.polyAt θ h) : t'.mono.bind θ' = t.mono.bind θ := by
  rw [polyAt_of_isFlat ht hflat, polyAt_of_isFlat ht' hflat'] at heq
  exact Poly.ofMono_injective heq

namespace Extends

lemma refl (s : Inference) : s.Extends s where
  next_le := Nat.le_refl _
  keep ht := ⟨_, ht, id, fun _ => rfl⟩
  back hθ := ⟨_, hθ, fun _ _ => rfl⟩

lemma live {s s' : Inference} (hext : s.Extends s') {h : Handle} (hlive : s.Live h) :
    s'.Live h := by
  obtain ⟨t, ht⟩ := hlive
  obtain ⟨t', ht', _⟩ := hext.keep ht
  exact ⟨t', ht'⟩

lemma trans {s s' s'' : Inference} (h₁ : s.Extends s') (h₂ : s'.Extends s'') : s.Extends s'' where
  next_le := Nat.le_trans h₁.next_le h₂.next_le
  keep ht := by
    obtain ⟨t', ht', hflat', hclosed'⟩ := h₁.keep ht
    obtain ⟨t'', ht'', hflat'', hclosed''⟩ := h₂.keep ht'
    refine ⟨t'', ht'', fun h => hflat'' (hflat' h), fun h => ?_⟩
    rw [hclosed'' (hclosed' h ▸ h), hclosed' h]
  back hθ := by
    obtain ⟨θ', hθ', heq'⟩ := h₂.back hθ
    obtain ⟨θ₀, hθ₀, heq⟩ := h₁.back hθ'
    exact ⟨θ₀, hθ₀, fun h hlive => (heq' h (h₁.live hlive)).trans (heq h hlive)⟩

/-- A step that leaves the handles of the start alone and adds equations at most. -/
lemma step {s s₁ s₂ : Inference} (hext : s.Extends s₁) (hnext : s₁.next ≤ s₂.next)
    (hterm : ∀ h, s.Live h → s₂.term? h = s₁.term? h) (hsol : ∀ θ, s₂.Sol θ → s₁.Sol θ) :
    s.Extends s₂ where
  next_le := Nat.le_trans hext.next_le hnext
  keep ht := by
    obtain ⟨t', ht', hkeep⟩ := hext.keep ht
    exact ⟨t', (hterm _ ⟨_, ht⟩).trans ht', hkeep⟩
  back hθ := by
    obtain ⟨θ₀, hθ₀, heq⟩ := hext.back (hsol _ hθ)
    exact ⟨θ₀, hθ₀, fun h hlive => (polyAt_congr (hterm h hlive) _).trans (heq h hlive)⟩

end Extends

end Inference

/-! ### The states that single actions lead to -/

namespace Inference

/-- The state after `count` new variables. -/
def bump (s : Inference) (count : Nat) : Inference := { s with next := s.next + count }

/-- The state after a type has been tracked. -/
def tracked (s : Inference) (t : Ty) : Inference := { s with unifier := (s.unifier.track t).1 }

/-- The handle of a type that is tracked next. -/
def newHandle (s : Inference) (t : Ty) : Handle := (s.unifier.track t).2

/-- The state after a handle has been released. -/
def released (s : Inference) (h : Handle) : Inference :=
  { s with unifier := (s.unifier.release h).1 }

/-- The state after an equation has been added. -/
def equated (s : Inference) (a b : Ty) (origin : TypeOrigin) : Inference :=
  { s with unifier := s.unifier.equate a b origin }

/-- The state after the type of a handle has been replaced. -/
def replaced (s : Inference) (h : Handle) (t : Ty) : Inference :=
  { s with unifier := s.unifier.replace h t }

/-- The state after kinds have been taken note of. -/
def noted (s : Inference) (kinds : List Kind) : Inference :=
  { s with recorded := s.recorded ++ kinds }

lemma fresh_run (s : Inference) : fresh s = .ok (.fresh s.next) (s.bump 1) := rfl

lemma track_run (s : Inference) (t : Ty) : track t s = .ok (s.newHandle t) (s.tracked t) := rfl

lemma release_run (s : Inference) (h : Handle) : release h s = .ok () (s.released h) := rfl

lemma equate_run (s : Inference) (a b : Ty) (origin : TypeOrigin) :
    equate a b origin s = .ok () (s.equated a b origin) := rfl

lemma replace_run (s : Inference) (h : Handle) (t : Ty) :
    replace h t s = .ok () (s.replaced h t) := rfl

lemma record_run (s : Inference) (kinds : List Kind) :
    record kinds s = .ok () (s.noted kinds) := rfl

lemma current_run {s : Inference} {h : Handle} {t : Ty} (ht : s.term? h = some t) :
    current h s = .ok t s := by
  show (match s.unifier.term? h with
    | some ty => EStateM.pure ty
    | none => EStateM.throw (.released h) : InferM Ty) s = _
  rw [show s.unifier.term? h = some t from ht]
  rfl

lemma current_of_dead {s : Inference} {h : Handle} (hdead : s.term? h = none) :
    current h s = .error (.released h) s := by
  rw [current, bind_get, show s.unifier.term? h = none from hdead]
  rfl

lemma current_eq_ok {s s' : Inference} {h : Handle} {t : Ty} (hrun : current h s = .ok t s') :
    s.term? h = some t ∧ s' = s := by
  cases ht : s.term? h with
  | some t' =>
    rw [current_run ht] at hrun
    cases hrun
    exact ⟨rfl, rfl⟩
  | none =>
    rw [current_of_dead ht] at hrun
    cases hrun

lemma take_run {s : Inference} {h : Handle} {t : Ty} (ht : s.term? h = some t) :
    take h s = .ok t (s.released h) := by
  have hsnd : (s.unifier.release h).2 = some t := (Store.release_snd _ h).trans ht
  have hpair : s.unifier.release h = ((s.unifier.release h).1, some t) := by rw [← hsnd]
  rw [take, bind_get, hpair]
  rfl

@[simp] lemma next_tracked (s : Inference) (t : Ty) : (s.tracked t).next = s.next := rfl

@[simp] lemma next_released (s : Inference) (h : Handle) : (s.released h).next = s.next := rfl

@[simp] lemma next_equated (s : Inference) (a b : Ty) (origin : TypeOrigin) :
    (s.equated a b origin).next = s.next := rfl

@[simp] lemma next_bump (s : Inference) (count : Nat) : (s.bump count).next = s.next + count := rfl

@[simp] lemma term?_bump (s : Inference) (count : Nat) (h : Handle) :
    (s.bump count).term? h = s.term? h := rfl

@[simp] lemma term?_equated (s : Inference) (a b : Ty) (origin : TypeOrigin) (h : Handle) :
    (s.equated a b origin).term? h = s.term? h := rfl

@[simp] lemma term?_noted (s : Inference) (kinds : List Kind) (h : Handle) :
    (s.noted kinds).term? h = s.term? h := rfl

lemma term?_tracked (s : Inference) (t : Ty) (h : Handle) :
    (s.tracked t).term? h = if h = s.newHandle t then some t else s.term? h :=
  (s.unifier.live.get?_insert t).2 h

lemma term?_newHandle (s : Inference) (t : Ty) : (s.tracked t).term? (s.newHandle t) = some t := by
  rw [term?_tracked, if_pos rfl]

lemma not_live_newHandle (s : Inference) (t : Ty) : ¬ s.Live (s.newHandle t) := by
  rintro ⟨t', ht'⟩
  rw [show s.term? (s.newHandle t) = none from (s.unifier.live.get?_insert t).1] at ht'
  cases ht'

lemma term?_tracked_of_live {s : Inference} {h : Handle} (hlive : s.Live h) (t : Ty) :
    (s.tracked t).term? h = s.term? h := by
  rw [term?_tracked, if_neg]
  rintro rfl
  exact s.not_live_newHandle t hlive

lemma term?_released (s : Inference) (h h' : Handle) :
    (s.released h).term? h' = if h' = h then none else s.term? h' :=
  s.unifier.live.get?_release h h'

lemma term?_released_of_ne {s : Inference} {h h' : Handle} (hne : h' ≠ h) :
    (s.released h).term? h' = s.term? h' := by
  rw [term?_released, if_neg hne]

lemma polyAt_tracked_of_live {s : Inference} {h : Handle} (hlive : s.Live h) (t : Ty)
    (θ : String → Mono) : (s.tracked t).polyAt θ h = s.polyAt θ h :=
  polyAt_congr (term?_tracked_of_live hlive t) θ

lemma term?_replaced {s : Inference} {h : Handle} {old : Ty} (hlive : s.term? h = some old) (t : Ty)
    (h' : Handle) : (s.replaced h t).term? h' = if h' = h then some t else s.term? h' :=
  Store.get?_replace hlive t h'

lemma sol_equated {s : Inference} {a b : Ty} {origin : TypeOrigin} {θ : String → Mono} :
    (s.equated a b origin).Sol θ ↔ s.Sol θ ∧ a.mono.bind θ = b.mono.bind θ := by
  show (∀ e ∈ s.unifier.queue ++ [⟨a, b, origin⟩], _) ↔ _
  rw [List.forall_mem_append, List.forall_mem_singleton]
  rfl

/-- A proper state that a run may lead to. -/
structure Reaches (s₀ s : Inference) : Prop extends s₀.Extends s where
  proper : s.Proper

namespace Reaches

variable {s₀ s s' : Inference}

lemma refl (h : s.Proper) : s.Reaches s := ⟨.refl s, h⟩

lemma trans (h₁ : s₀.Reaches s) (h₂ : s.Reaches s') : s₀.Reaches s' :=
  ⟨h₁.toExtends.trans h₂.toExtends, h₂.proper⟩

lemma bump (hr : s₀.Reaches s) (count : Nat) : s₀.Reaches (s.bump count) where
  toExtends := hr.toExtends.step (Nat.le_add_right _ _) (fun _ _ => rfl) fun _ h => h
  proper :=
    { live := fun ht => (hr.proper.live ht).mono_le (Nat.le_add_right _ _)
      queue := fun e he => ⟨(hr.proper.queue e he).1.mono_le (Nat.le_add_right _ _),
        (hr.proper.queue e he).2.mono_le (Nat.le_add_right _ _)⟩ }

lemma noted (hr : s₀.Reaches s) (kinds : List Kind) : s₀.Reaches (s.noted kinds) where
  toExtends := hr.toExtends.step (Nat.le_refl _) (fun _ _ => rfl) fun _ h => h
  proper := ⟨fun ht => hr.proper.live ht, hr.proper.queue⟩

lemma tracked (hr : s₀.Reaches s) {t : Ty} (ht : t.Proper s.next) : s₀.Reaches (s.tracked t) where
  toExtends := hr.toExtends.step (Nat.le_refl _)
    (fun _ hlive => term?_tracked_of_live (hr.toExtends.live hlive) t) fun _ h => h
  proper :=
    { live := fun {h t'} ht' => by
        rw [term?_tracked] at ht'
        split at ht'
        · cases ht'
          exact ht
        · exact hr.proper.live ht'
      queue := hr.proper.queue }

lemma released (hr : s₀.Reaches s) {h : Handle} (hdead : ¬ s₀.Live h) :
    s₀.Reaches (s.released h) where
  toExtends := hr.toExtends.step (Nat.le_refl _)
    (fun h' hlive => term?_released_of_ne fun heq => hdead (heq ▸ hlive)) fun _ h => h
  proper :=
    { live := fun {h' t} ht => by
        rw [term?_released] at ht
        split at ht
        · cases ht
        · exact hr.proper.live ht
      queue := hr.proper.queue }

lemma equated (hr : s₀.Reaches s) {a b : Ty} (ha : a.Simple s.next) (hb : b.Simple s.next)
    (origin : TypeOrigin) : s₀.Reaches (s.equated a b origin) where
  toExtends := hr.toExtends.step (Nat.le_refl _) (fun _ _ => rfl) fun _ h => (sol_equated.1 h).1
  proper :=
    { live := fun ht => hr.proper.live ht
      queue := fun e he => by
        rcases List.mem_append.1 he with he | he
        · exact hr.proper.queue e he
        · obtain rfl := List.mem_singleton.1 he
          exact ⟨ha, hb⟩ }

lemma replaced (hr : s₀.Reaches s) {h : Handle} {old t : Ty} (hold : s.term? h = some old)
    (ht : t.Proper s.next) (hdead : ¬ s₀.Live h) : s₀.Reaches (s.replaced h t) where
  toExtends := hr.toExtends.step (Nat.le_refl _)
    (fun h' hlive => by
      have hne : h' ≠ h := fun heq => hdead (heq ▸ hlive)
      rw [term?_replaced hold, if_neg hne])
    fun _ h => h
  proper :=
    { live := fun {h' t'} ht' => by
        rw [term?_replaced hold] at ht'
        split at ht'
        · cases ht'
          exact ht
        · exact hr.proper.live ht'
      queue := hr.proper.queue }

end Reaches

/-! ### Solving -/

/-- The state after the waiting equations have been solved. -/
def settled (s : Inference) : Inference := { s with unifier := s.unifier.solve.1 }

/-- Whether the waiting equations can be solved. -/
def Solvable (s : Inference) : Prop := (LetPoly.solve s.unifier.queue).failure = none

/-- What solving the waiting equations puts for each name. -/
def solution (s : Inference) : String → Mono :=
  nameSubst (LetPoly.solve s.unifier.queue).bindings

lemma solve_run {s : Inference} (h : s.Solvable) : Inference.solve s = .ok () s.settled := by
  rw [Solvable] at h
  rw [Inference.solve, bind_get]
  dsimp only [Unifier.solve]
  rw [h]
  rfl

lemma solve_of_failure {s : Inference} {unsolved : Unsolved Ty String TypeOrigin}
    (h : (LetPoly.solve s.unifier.queue).failure = some unsolved) :
    Inference.solve s = .error (.error (explainTypes unsolved)) s.settled := by
  rw [Inference.solve, bind_get]
  dsimp only [Unifier.solve]
  rw [h]
  rfl

lemma solve_eq_ok {s s' : Inference} {u : Unit} (h : Inference.solve s = .ok u s') :
    s.Solvable ∧ s' = s.settled := by
  cases hfailure : (LetPoly.solve s.unifier.queue).failure with
  | some unsolved =>
    rw [solve_of_failure hfailure] at h
    cases h
  | none =>
    rw [solve_run hfailure] at h
    cases h
    exact ⟨hfailure, rfl⟩

lemma sol_iff_solves {s : Inference} {θ : String → Mono} :
    s.Sol θ ↔ Solves (fun v : TyVar => θ v.name) s.unifier.queue := by
  refine forall₂_congr fun e _ => ?_
  rw [Ty.mono_eq_map_tree, Ty.mono_eq_map_tree, Tree.bind_map, Tree.bind_map]
  rfl

variable {s : Inference}

lemma Proper.flat (hp : s.Proper) : ∀ e ∈ s.unifier.queue, e.Flat :=
  fun e he => ⟨(hp.queue e he).1.1, (hp.queue e he).2.1⟩

lemma Proper.treeVars (hp : s.Proper) :
    ∀ e ∈ s.unifier.queue, ∀ v ∈ e.treeVars, v.Issued s.next := by
  intro e he v hv
  exact (Equation.mem_treeVars.1 hv).elim ((hp.queue e he).1.2 v) ((hp.queue e he).2.2 v)

lemma Proper.issuedBindings (hp : s.Proper) :
    IssuedBindings s.next (LetPoly.solve s.unifier.queue).bindings := by
  intro b hb
  obtain ⟨hkey, hvars⟩ := solve_vars hp.flat hp.treeVars b hb
  exact ⟨hkey, solve_flat hp.flat b hb, hvars⟩

/-- Every name is as it is put for in any solution. -/
lemma Proper.absorbed (hp : s.Proper) {θ : String → Mono} (hθ : s.Sol θ) (x : String) :
    (s.solution x).bind θ = θ x := by
  have hmap := map_bindingSubst hp.issuedBindings (v := ⟨x, .solvable⟩)
    fun k h => congrArg (TyVar.mk · .solvable) h
  rw [solution, ← hmap, Tree.bind_map]
  exact solve_absorbed hp.flat (sol_iff_solves.1 hθ) ⟨x, .solvable⟩

/-- What solving puts for names makes the equations true, whatever the rest stands for. -/
lemma Proper.sol_solution (hp : s.Proper) (hok : s.Solvable) (θ : String → Mono) :
    s.Sol fun x => (s.solution x).bind θ := by
  rw [sol_iff_solves]
  intro e he
  have hsolved := solve_solves hp.flat hok e he
  have hmap {t : Ty} (ht : t.Simple s.next) :
      t.tree.bind (fun v : TyVar => (s.solution v.name).bind θ) =
        (t.tree.bind (bindingSubst (LetPoly.solve s.unifier.queue).bindings)).bind
          fun v => θ v.name := by
    rw [Tree.bind_bind]
    refine Tree.bind_congr fun v hv => ?_
    rw [solution, ← map_bindingSubst hp.issuedBindings fun _ => (ht.2 v hv).eq_fresh,
      Tree.bind_map]
  show e.left.tree.bind _ = e.right.tree.bind _
  rw [hmap (hp.queue e he).1, hmap (hp.queue e he).2]
  exact congrArg (Tree.bind _) hsolved

lemma Proper.solution_skolem (hp : s.Proper) (x : String) (k : Nat) :
    s.solution (Ty.skolemName x k) = .var (Ty.skolemName x k) :=
  nameSubst_skolem hp.issuedBindings x k

lemma Proper.term?_settled (hp : s.Proper) {h : Handle} {t : Ty} (ht : s.term? h = some t) :
    ∃ t', s.settled.term? h = some t' ∧ t'.Proper s.next ∧ t'.poly = t.poly.subst s.solution ∧
      (t.isFlat → t'.isFlat) := by
  obtain ⟨hproper, hpoly⟩ := (hp.live ht).applyBindings hp.issuedBindings
  refine ⟨_, ?_, hproper, hpoly, fun hflat => flat_applyBindings (solve_flat hp.flat) hflat⟩
  exact (Unifier.term?_solve s.unifier h).trans (by rw [show s.unifier.term? h = _ from ht]; rfl)

lemma term?_settled_eq_none {h : Handle} (ht : s.term? h = none) : s.settled.term? h = none :=
  (Unifier.term?_solve s.unifier h).trans (by rw [show s.unifier.term? h = _ from ht]; rfl)

lemma Proper.polyAt_settled (hp : s.Proper) (θ : String → Mono) (h : Handle) :
    s.settled.polyAt θ h = s.polyAt (fun x => (s.solution x).bind θ) h := by
  cases ht : s.term? h with
  | none => rw [polyAt, polyAt, term?_settled_eq_none ht, ht]
  | some t =>
    obtain ⟨t', ht', _, hpoly, _⟩ := hp.term?_settled ht
    rw [polyAt_eq ht, polyAt_eq ht', hpoly, Poly.subst_subst]

/-- A solution that takes the rigid variables of the equations to different variables makes solving
succeed. -/
lemma Proper.solvable (hp : s.Proper) {θ : String → Mono} (hθ : s.Sol θ)
    (hrigid : ∀ e ∈ s.unifier.queue, ∀ v ∈ e.treeVars, v.sort = .rigid → ∃ y, θ v.name = .var y)
    (hinj : ∀ v w : TyVar, v.sort = .rigid → w.sort = .rigid →
      (∃ e ∈ s.unifier.queue, v ∈ e.treeVars) → (∃ e ∈ s.unifier.queue, w ∈ e.treeVars) →
      θ v.name = θ w.name → v = w) : s.Solvable := by
  have hsort {v : TyVar} (hv : IsRigid Ty v) : v.sort = .rigid := by
    obtain ⟨name, sort⟩ := v
    cases sort with
    | rigid => rfl
    | solvable => exact absurd rfl (hv name)
  refine solve_succeeds hp.flat (S := fun v => ∃ e ∈ s.unifier.queue, v ∈ e.treeVars)
    (fun e he v hv => ⟨e, he, hv⟩) (sol_iff_solves.1 hθ) ⟨?_, ?_⟩
  · rintro v ⟨e, he, hv⟩ hrig
    exact hrigid e he v hv (hsort hrig)
  · intro v w hv hw hrv hrw heq
    exact hinj v w (hsort hrv) (hsort hrw) hv hw heq

lemma Reaches.settled {s₀ : Inference} (hr : s₀.Reaches s) (hok : s.Solvable) :
    s₀.Reaches s.settled := by
  have hp := hr.proper
  refine hr.trans ⟨⟨Nat.le_refl _, fun ht => ?_, fun {θ} _ => ?_⟩, ⟨fun {h t'} ht' => ?_, ?_⟩⟩
  · obtain ⟨t', ht', _, hpoly, hflat⟩ := hp.term?_settled ht
    exact ⟨t', ht', hflat, fun hclosed => by rw [hpoly, hclosed.subst]⟩
  · exact ⟨_, hp.sol_solution hok θ, fun h _ => hp.polyAt_settled θ h⟩
  · cases ht : s.term? h with
    | none =>
      rw [term?_settled_eq_none ht] at ht'
      cases ht'
    | some t =>
      obtain ⟨t'', ht'', hproper, _⟩ := hp.term?_settled ht
      rw [ht'] at ht''
      cases ht''
      exact hproper
  · intro e he
    cases he

/-! ### Defaults -/

/-- The state after a variable has been given a value. -/
def resolved (s : Inference) (v : String) (t : Ty) : Inference :=
  { s with unifier := s.unifier.resolve v t }

lemma term?_resolved (s : Inference) (v : String) (t : Ty) (h : Handle) :
    (s.resolved v t).term? h = (s.term? h).map (Term.assign v t) := by
  simp [term?, resolved, Unifier.resolve, Unifier.term?]

/-- The state after every variable left has been given the default type. -/
def defaulted (s : Inference) (d : Ty) : Inference :=
  { s with unifier := s.unifier.defaultUnresolved fun _ => d }

lemma defaulted_eq (s : Inference) (d : Ty) :
    s.defaulted d = s.unifier.unresolved.foldl (fun s v => s.resolved v d) s := by
  rw [defaulted, Unifier.defaultUnresolved]
  generalize s.unifier.unresolved = vs
  induction vs generalizing s with
  | nil => rfl
  | cons v vs ih => exact ih (s.resolved v d)

lemma term?_defaulted (s : Inference) (d : Ty) (h : Handle) :
    ((s.defaulted d).term? h).isSome = (s.term? h).isSome := by
  rw [defaulted_eq]
  generalize s.unifier.unresolved = vs
  induction vs generalizing s with
  | nil => rfl
  | cons v vs ih =>
    refine (ih (s.resolved v d)).trans ?_
    rw [term?_resolved, Option.isSome_map]

end Inference

end LetPoly
