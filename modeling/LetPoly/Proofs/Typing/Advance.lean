import LetPoly.Proofs.Typing.Settle

/-!
# Runs along a solution

For completeness a run of inference is followed along a valuation that solves all equations that
wait: `Inference.Advances` says that a run leads from a state and a solution of it to a state and a
solution of that, under which the handles of the start stand for what they stood for. New variables
may stand for anything.

Rigid variables stay inside of the binding whose ascription they come from. A type is `Soft` if it
has none; equations that wait are between soft types, and soft types of the start stay soft.
-/

namespace LetPoly

open Inference

/-! ### Valuations of issued variables -/

/-- Valuations that agree on the variables issued so far. -/
def AgreeBelow (n : Nat) (θ θ' : String → Mono) : Prop :=
  ∀ v : TyVar, v.Issued n → θ' v.name = θ v.name

lemma Ty.Simple.bind_congr {n : Nat} {t : Ty} (ht : t.Simple n) {θ θ' : String → Mono}
    (h : AgreeBelow n θ θ') : t.mono.bind θ' = t.mono.bind θ := by
  refine Tree.bind_congr fun x hx => ?_
  obtain ⟨v, hv, rfl⟩ := Ty.mem_vars_mono.1 hx
  exact h v (ht.2 v hv)

lemma Ty.Proper.subst_congr {n : Nat} {t : Ty} (ht : t.Proper n) {θ θ' : String → Mono}
    (h : AgreeBelow n θ θ') : t.poly.subst θ' = t.poly.subst θ := by
  refine Poly.subst_congr fun x hx => ?_
  obtain ⟨v, hv, rfl⟩ := ht.issued_of_free hx
  exact h v hv

lemma Inference.Proper.sol_of_agree {s : Inference} (hp : s.Proper) {θ θ' : String → Mono}
    (h : AgreeBelow s.next θ θ') (hθ : s.Sol θ) : s.Sol θ' := by
  intro e he
  rw [(hp.queue e he).1.bind_congr h, (hp.queue e he).2.bind_congr h]
  exact hθ e he

lemma Inference.Proper.polyAt_of_agree {s : Inference} (hp : s.Proper) {θ θ' : String → Mono}
    (h : AgreeBelow s.next θ θ') (h' : Handle) : s.polyAt θ' h' = s.polyAt θ h' := by
  cases ht : s.term? h' with
  | none => rw [polyAt, polyAt, ht]
  | some t => rw [polyAt_eq ht, polyAt_eq ht, (hp.live ht).subst_congr h]

open Classical in
/-- The valuation that puts `ρ i` for the solvable variable number `n + i`. -/
noncomputable def extend (n : Nat) (ρ : Nat → Mono) (θ : String → Mono) (x : String) : Mono :=
  if h : ∃ i, x = Ty.freshName (n + i) then ρ h.choose else θ x

lemma extend_fresh (n : Nat) (ρ : Nat → Mono) (θ : String → Mono) (i : Nat) :
    extend n ρ θ (Ty.freshName (n + i)) = ρ i := by
  have h : ∃ j, Ty.freshName (n + i) = Ty.freshName (n + j) := ⟨i, rfl⟩
  rw [extend, dif_pos h]
  have := Ty.freshName_injective h.choose_spec
  rw [show h.choose = i by omega]

lemma agreeBelow_extend (n : Nat) (ρ : Nat → Mono) (θ : String → Mono) :
    AgreeBelow n θ (extend n ρ θ) := by
  intro v hv
  refine dif_neg ?_
  rintro ⟨i, hi⟩
  have := hv.lt_of_fresh hi
  omega

/-! ### Soft types -/

/-- Types all of whose free variables are solvable. -/
def Ty.Soft (t : Ty) : Prop := ∀ x, t.poly.Free x → ∃ k, x = Ty.freshName k

namespace Ty

lemma soft_of_closed {t : Ty} (h : t.poly.Closed) : t.Soft := fun x hx => absurd hx (h x)

lemma soft_iff {t : Ty} (h : t.isFlat) : t.Soft ↔ ∀ x ∈ t.mono.vars, ∃ k, x = freshName k := by
  rw [Soft, poly_of_isFlat h]
  exact forall_congr' fun x => imp_congr_left Poly.free_ofMono

lemma soft_fresh (k : Nat) : (fresh k).Soft := by
  rw [soft_iff rfl]
  intro x hx
  exact ⟨k, List.mem_singleton.1 hx⟩

lemma soft_arrow {a b : Ty} (ha : a.isFlat) (hb : b.isFlat) (hsa : a.Soft) (hsb : b.Soft) :
    (arrow a b).Soft := by
  rw [soft_iff ha] at hsa
  rw [soft_iff hb] at hsb
  rw [soft_iff (isFlat_arrow.2 ⟨ha, hb⟩), mono_arrow]
  intro x hx
  have hx' : x ∈ a.mono.vars ∨ x ∈ b.mono.vars := by simpa [Mono.arrow] using hx
  exact hx'.elim (hsa x) (hsb x)

lemma soft_function {params : List Ty} {result : Ty} (hp : ∀ a ∈ params, a.isFlat ∧ a.Soft)
    (hr : result.isFlat) (hs : result.Soft) : (function params result).Soft := by
  induction params with
  | nil => exact hs
  | cons a params ih =>
    have hparams : ∀ a ∈ params, a.isFlat ∧ a.Soft := fun b hb => hp b (List.mem_cons_of_mem _ hb)
    have ha := hp a List.mem_cons_self
    exact soft_arrow ha.1 (isFlat_function.2 ⟨fun b hb => (hparams b hb).1, hr⟩) ha.2 (ih hparams)

lemma Proper.soft_instanceAt {n : Nat} {t : Ty} (ht : t.Proper n) (h : t.Soft) (m : Nat)
    (hflat : (t.instanceAt m).isFlat) : (t.instanceAt m).Soft := by
  rw [soft_iff hflat, mono_instanceAt ht.isPrenex]
  intro x hx
  obtain ⟨i | y, hy, hx⟩ := Tree.mem_vars_bind.1 hx
  · exact ⟨m + i, List.mem_singleton.1 hx⟩
  · obtain rfl := List.mem_singleton.1 hx
    exact h x hy

/-- The variables of a simple soft type are solvable. -/
lemma Simple.sort_of_soft {n : Nat} {t : Ty} (ht : t.Simple n) (h : t.Soft) {v : TyVar}
    (hv : v ∈ t.tree.vars) : v.sort = .solvable := by
  obtain ⟨k, hk⟩ := (soft_iff ht.1).1 h v.name (mem_vars_mono.2 ⟨v, hv, rfl⟩)
  rw [(ht.2 v hv).eq_fresh hk]

end Ty

namespace Inference

/-- Handles of soft types. -/
def SoftAt (s : Inference) (h : Handle) : Prop := ∀ t, s.term? h = some t → t.Soft

/-- All equations that wait are between soft types. -/
def SoftQueue (s : Inference) : Prop := ∀ e ∈ s.unifier.queue, e.left.Soft ∧ e.right.Soft

lemma SoftAt.congr {s s' : Inference} {h : Handle} (hsoft : s.SoftAt h)
    (ht : s'.term? h = s.term? h) : s'.SoftAt h :=
  fun t htt => hsoft t (ht ▸ htt)

/-- What solving puts for a name has variables of the equations, unless it is the name itself. -/
lemma Proper.mem_vars_solution {s : Inference} (hp : s.Proper) {x y : String}
    (h : x ∈ (s.solution y).vars) :
    x = y ∨ ∃ e ∈ s.unifier.queue, ∃ v ∈ e.treeVars, v.name = x := by
  have hmap := map_bindingSubst hp.issuedBindings (v := ⟨y, .solvable⟩)
    fun k hk => congrArg (TyVar.mk · .solvable) hk
  rw [solution, ← hmap, Tree.mem_vars_map] at h
  obtain ⟨w, hw, rfl⟩ := h
  rcases mem_vars_bindingSubst hw with rfl | ⟨b, hb, hw⟩
  · exact Or.inl rfl
  · obtain ⟨_, hvars⟩ := solve_vars hp.flat (S := fun w => ∃ e ∈ s.unifier.queue, w ∈ e.treeVars)
      (fun e he v hv => ⟨e, he, hv⟩) b hb
    obtain ⟨e, he, hv⟩ := hvars w hw
    exact Or.inr ⟨e, he, w, hv, rfl⟩

lemma SoftQueue.sort {s : Inference} (hp : s.Proper) (hsoft : s.SoftQueue) {e : Equation Ty TypeOrigin}
    (he : e ∈ s.unifier.queue) {v : TyVar} (hv : v ∈ e.treeVars) : v.sort = .solvable := by
  rcases Equation.mem_treeVars.1 hv with hv | hv
  · exact (hp.queue e he).1.sort_of_soft (hsoft e he).1 hv
  · exact (hp.queue e he).2.sort_of_soft (hsoft e he).2 hv

/-- Equations between soft types can be solved as soon as they have a solution. -/
lemma SoftQueue.solvable {s : Inference} (hp : s.Proper) (hsoft : s.SoftQueue) {θ : String → Mono}
    (hθ : s.Sol θ) : s.Solvable := by
  have hrigid {v : TyVar} (hv : ∃ e ∈ s.unifier.queue, v ∈ e.treeVars) (h : v.sort = .rigid) :
      False := by
    obtain ⟨e, he, hv⟩ := hv
    rw [hsoft.sort hp he hv] at h
    cases h
  refine hp.solvable hθ (fun e he v hv h => (hrigid ⟨e, he, hv⟩ h).elim) ?_
  exact fun v w h _ hv _ _ => (hrigid hv h).elim

/-- The handle of a soft type without quantifiers that stands for a given type. -/
def Holds (s : Inference) (θ : String → Mono) (h : Handle) (τ : Mono) : Prop :=
  ∃ t, s.term? h = some t ∧ t.Simple s.next ∧ t.Soft ∧ t.mono.bind θ = τ

namespace Holds

variable {s : Inference} {θ : String → Mono} {h : Handle} {τ : Mono}

lemma live (hh : s.Holds θ h τ) : s.Live h := hh.imp fun _ ht => ht.1

lemma flatAt (hh : s.Holds θ h τ) : s.FlatAt h := hh.imp fun _ ht => ⟨ht.1, ht.2.1.1⟩

lemma softAt (hh : s.Holds θ h τ) : s.SoftAt h := by
  obtain ⟨t, ht, _, hsoft, _⟩ := hh
  intro t' ht'
  rw [ht] at ht'
  cases ht'
  exact hsoft

lemma polyAt (hh : s.Holds θ h τ) : s.polyAt θ h = .ofMono τ := by
  obtain ⟨t, ht, hsimple, _, rfl⟩ := hh
  exact polyAt_of_isFlat ht hsimple.1 θ

lemma tracked {t : Ty} (ht : t.Simple s.next) (hsoft : t.Soft) (hτ : t.mono.bind θ = τ) :
    (s.tracked t).Holds θ (s.newHandle t) τ :=
  ⟨t, s.term?_newHandle t, ht, hsoft, hτ⟩

end Holds

/-! ### Advancing -/

/-- A run from a state with a solution to one with a solution: the handles of the start stand for
what they stood for, and soft ones stay soft. -/
structure Advances (s : Inference) (θ : String → Mono) (s' : Inference) (θ' : String → Mono) :
    Prop extends s.Reaches s' where
  sol : s'.Sol θ'
  softQueue : s'.SoftQueue
  keeps {h : Handle} : s.Live h → s'.polyAt θ' h = s.polyAt θ h
  keepsSoft {h : Handle} : s.Live h → s.SoftAt h → s'.SoftAt h

namespace Advances

variable {s₀ s s' : Inference} {θ₀ θ θ' : String → Mono}

lemma refl (hp : s.Proper) (hθ : s.Sol θ) (hsoft : s.SoftQueue) : s.Advances θ s θ :=
  ⟨.refl hp, hθ, hsoft, fun _ => rfl, fun _ => id⟩

lemma trans (h₁ : s₀.Advances θ₀ s θ) (h₂ : s.Advances θ s' θ') : s₀.Advances θ₀ s' θ' where
  toReaches := h₁.toReaches.trans h₂.toReaches
  sol := h₂.sol
  softQueue := h₂.softQueue
  keeps hlive := (h₂.keeps (h₁.live hlive)).trans (h₁.keeps hlive)
  keepsSoft hlive hsoft := h₂.keepsSoft (h₁.live hlive) (h₁.keepsSoft hlive hsoft)

lemma holds (ha : s.Advances θ s' θ') {h : Handle} {τ : Mono} (hh : s.Holds θ h τ) :
    s'.Holds θ' h τ := by
  have hsoft := ha.keepsSoft hh.live hh.softAt
  have hkeeps := ha.keeps hh.live
  obtain ⟨t, ht, hsimple, _, rfl⟩ := hh
  obtain ⟨t', ht', hflat, _⟩ := ha.keep ht
  exact ⟨t', ht', (ha.proper.live ht').simple (hflat hsimple.1), hsoft t' ht',
    bind_mono_eq ht hsimple.1 ht' (hflat hsimple.1) hkeeps⟩

/-- A step that leaves the equations and the handles of the start alone. -/
lemma step (h : s₀.Advances θ₀ s θ) (hr : s₀.Reaches s')
    (hqueue : s'.unifier.queue = s.unifier.queue)
    (hterm : ∀ h, s₀.Live h → s'.term? h = s.term? h) : s₀.Advances θ₀ s' θ where
  toReaches := hr
  sol := by
    rw [Sol, hqueue]
    exact h.sol
  softQueue := by
    rw [SoftQueue, hqueue]
    exact h.softQueue
  keeps hlive := (polyAt_congr (hterm _ hlive) θ).trans (h.keeps hlive)
  keepsSoft hlive hsoft := (h.keepsSoft hlive hsoft).congr (hterm _ hlive)

lemma bump (h : s₀.Advances θ₀ s θ) (count : Nat) : s₀.Advances θ₀ (s.bump count) θ :=
  h.step (h.toReaches.bump count) rfl fun _ _ => rfl

lemma noted (h : s₀.Advances θ₀ s θ) (kinds : List Kind) : s₀.Advances θ₀ (s.noted kinds) θ :=
  h.step (h.toReaches.noted kinds) rfl fun _ _ => rfl

lemma tracked (h : s₀.Advances θ₀ s θ) {t : Ty} (ht : t.Proper s.next) :
    s₀.Advances θ₀ (s.tracked t) θ :=
  h.step (h.toReaches.tracked ht) rfl fun _ hlive => term?_tracked_of_live (h.live hlive) t

lemma releasedAll (h : s₀.Advances θ₀ s θ) {hs : List Handle} (hdead : ∀ h ∈ hs, ¬ s₀.Live h) :
    s₀.Advances θ₀ (s.releasedAll hs) θ :=
  h.step (h.toReaches.releasedAll hdead) (queue_releasedAll s hs) fun _ hlive =>
    term?_releasedAll fun hmem => hdead _ hmem hlive

lemma released (h : s₀.Advances θ₀ s θ) {h' : Handle} (hdead : ¬ s₀.Live h') :
    s₀.Advances θ₀ (s.released h') θ :=
  show s₀.Advances θ₀ (s.releasedAll [h']) θ from h.releasedAll (by simpa using hdead)

lemma replaced (h : s₀.Advances θ₀ s θ) {h' : Handle} {t u : Ty} (ht : s.term? h' = some t)
    (hu : u.Proper s.next) (hdead : ¬ s₀.Live h') : s₀.Advances θ₀ (s.replaced h' u) θ :=
  h.step (h.toReaches.replaced ht hu hdead) rfl fun h'' hlive => by
    rw [term?_replaced ht, if_neg]
    rintro rfl
    exact hdead hlive

/-- A run that leaves all equations and live handles alone. -/
lemma quiet (h : s₀.Advances θ₀ s θ) (hp : s'.Proper) (hquiet : s.Quiet s') :
    s₀.Advances θ₀ s' θ :=
  h.step (h.toReaches.trans ⟨hquiet.toExtends, hp⟩) hquiet.queue_eq fun _ hlive =>
    hquiet.term?_eq (h.live hlive)

/-- The solution may change where no variable has been issued yet. -/
lemma agree (h : s₀.Advances θ₀ s θ) (hagree : AgreeBelow s.next θ θ') : s₀.Advances θ₀ s θ' where
  toReaches := h.toReaches
  sol := h.proper.sol_of_agree hagree h.sol
  softQueue := h.softQueue
  keeps hlive := (h.proper.polyAt_of_agree hagree _).trans (h.keeps hlive)
  keepsSoft := h.keepsSoft

lemma equated (h : s₀.Advances θ₀ s θ) {a b : Ty} (ha : a.Simple s.next) (hb : b.Simple s.next)
    (hsa : a.Soft) (hsb : b.Soft) (heq : a.mono.bind θ = b.mono.bind θ) (origin : TypeOrigin) :
    s₀.Advances θ₀ (s.equated a b origin) θ where
  toReaches := h.toReaches.equated ha hb origin
  sol := sol_equated.2 ⟨h.sol, heq⟩
  softQueue := by
    intro e he
    rcases List.mem_append.1 he with he | he
    · exact h.softQueue e he
    · obtain rfl := List.mem_singleton.1 he
      exact ⟨hsa, hsb⟩
  keeps hlive := h.keeps hlive
  keepsSoft hlive hsoft := h.keepsSoft hlive hsoft

/-- A solution is one after solving as well, since it absorbs what solving puts for names. -/
lemma settled (h : s₀.Advances θ₀ s θ) : s.Solvable ∧ s₀.Advances θ₀ s.settled θ := by
  have hok : s.Solvable := h.softQueue.solvable h.proper h.sol
  refine ⟨hok, h.toReaches.settled hok, fun e he => (by cases he), fun e he => (by cases he),
    fun hlive => ?_, fun {h'} hlive hsoft t' ht' => ?_⟩
  · rw [h.proper.polyAt_settled, funext (h.proper.absorbed h.sol)]
    exact h.keeps hlive
  · obtain ⟨t, ht⟩ := h.live hlive
    obtain ⟨t'', ht'', _, hpoly, _⟩ := h.proper.term?_settled ht
    rw [ht'] at ht''
    cases ht''
    intro x hx
    rw [hpoly, Poly.free_subst] at hx
    obtain ⟨y, hy, hx⟩ := hx
    rcases h.proper.mem_vars_solution hx with rfl | ⟨e, he, v, hv, rfl⟩
    · exact h.keepsSoft hlive hsoft t ht x hy
    · obtain ⟨name, sort⟩ := v
      have hissued := h.proper.treeVars e he _ hv
      obtain rfl : sort = .solvable := h.softQueue.sort h.proper he hv
      obtain ⟨k, _, hk⟩ := hissued
      exact ⟨k, hk⟩

/-- A new variable may stand for any type. -/
lemma fresh (h : s₀.Advances θ₀ s θ) (τ : Mono) : ∃ θ', s₀.Advances θ₀ (s.bump 1) θ' ∧
    AgreeBelow s.next θ θ' ∧ (Ty.fresh s.next).mono.bind θ' = τ :=
  ⟨extend s.next (fun _ => τ) θ, (h.agree (agreeBelow_extend _ _ _)).bump 1,
    agreeBelow_extend _ _ _, extend_fresh s.next (fun _ => τ) θ 0⟩

/-- New variables may stand for any types. -/
lemma freshList (h : s₀.Advances θ₀ s θ) (monos : List Mono) :
    ∃ θ', s₀.Advances θ₀ (s.bump monos.length) θ' ∧ AgreeBelow s.next θ θ' ∧
      ((List.range' s.next monos.length).map Ty.fresh).map (fun t => t.mono.bind θ') = monos := by
  refine ⟨extend s.next (fun i => monos.getD i (.var "")) θ, (h.agree (agreeBelow_extend _ _ _)).bump _,
    agreeBelow_extend _ _ _, List.ext_getElem (by simp) fun i hi hi' => ?_⟩
  rw [List.getElem_map, List.getElem_map, List.getElem_range', Nat.one_mul]
  exact (extend_fresh s.next _ θ i).trans (List.getD_eq_getElem _ _ hi')

/-- The new variables of an instance may stand for what a given instance has in their places. -/
lemma instantiated (h : s₀.Advances θ₀ s θ) {t : Ty} (ht : t.Proper s.next) {τ : Mono}
    (hτ : (t.poly.subst θ).Instance τ) : ∃ θ', s₀.Advances θ₀ (s.bump t.boundCount) θ' ∧
      AgreeBelow s.next θ θ' ∧ (t.instanceAt s.next).mono.bind θ' = τ := by
  obtain ⟨ρ, hρ⟩ := hτ
  have hagree := agreeBelow_extend s.next ρ θ
  refine ⟨extend s.next ρ θ, (h.agree hagree).bump _, hagree, ?_⟩
  rw [Ty.mono_instanceAt ht.isPrenex, Poly.bind_inst, ht.subst_congr hagree, ← hρ]
  exact congrArg (Poly.inst · _) (funext fun i => extend_fresh s.next ρ θ i)

end Advances

end Inference

end LetPoly
