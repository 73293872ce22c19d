import LetPoly.Proofs.Kinding.Principal

/-!
# What the walk collects, and how it fails

The walk over types fails only for names that it does not know and for heads that declare no
constructor. All other errors of inference come from solving the equations collected. Among these,
an equation that comes from an application has its two sides in its origin, from where they are
reported.

`Collects` says both of an action, and there is one rule for each way to put an action together.
-/

namespace LetPoly

open Kind Kinding

/-- The errors that the walk itself has. -/
def KindError.ofWalk : KindError → Bool
  | .unboundType _ | .unboundVariable _ | .invalidHead _ => true
  | _ => false

/-- The origin of an application has the two sides of the equation. -/
def KindOrigin.Accords : KindOrigin → Kind → Kind → Prop
  | .application _ head applied, left, right => left = head ∧ right = applied
  | _, _, _ => True

/-- The equations that an action adds are in accord with their origins, and its errors are those of
the walk. -/
def Collects {α : Type} (x : KindM α) : Prop :=
  ∀ s, match x s with
    | .ok _ s' => ∀ e ∈ s'.equations, e ∈ s.equations ∨ e.origin.item.Accords e.left e.right
    | .error e _ => e.item.ofWalk

namespace Collects

variable {α β : Type} {ctx : KindContext}

lemma of_ok {x : KindM α} (h : ∀ s, ∃ a s', x s = .ok a s' ∧ s'.equations = s.equations) :
    Collects x := by
  intro s
  obtain ⟨a, s', hok, heq⟩ := h s
  rw [hok]
  exact fun e he => .inl (heq ▸ he)

lemma bind {x : KindM α} {f : α → KindM β} (hx : Collects x) (hf : ∀ a, Collects (f a)) :
    Collects (x >>= f) := by
  intro s
  have hs := hx s
  cases hrun : x s with
  | error e s₁ =>
    rw [hrun] at hs
    rw [bind_of_error hrun]
    exact hs
  | ok a s₁ =>
    rw [hrun] at hs
    rw [bind_of_ok hrun]
    have hs₁ := hf a s₁
    cases hrun' : f a s₁ with
    | error e s₂ =>
      rw [hrun'] at hs₁
      exact hs₁
    | ok b s₂ =>
      rw [hrun'] at hs₁
      exact fun e he => (hs₁ e he).elim (hs e) .inr

lemma pure (a : α) : Collects (pure a : KindM α) := of_ok fun s => ⟨a, s, rfl, rfl⟩

lemma get : Collects (get : KindM Kinding) := of_ok fun s => ⟨s, s, rfl, rfl⟩

lemma modify {f : Kinding → Kinding} (h : ∀ s, (f s).equations = s.equations) :
    Collects (modify f : KindM Unit) :=
  of_ok fun s => ⟨(), f s, rfl, h s⟩

lemma fail {error : KindError} (h : error.ofWalk) : Collects (fail ctx error : KindM α) :=
  fun _ => h

lemma inChild {x : KindM α} (hx : Collects x) : Collects (inChild x) := by
  intro s
  have hs := hx s.entered
  rw [Kinding.inChild, ← entered]
  cases hrun : x s.entered with
  | ok a s₁ =>
    rw [hrun] at hs
    exact hs
  | error e s₁ =>
    rw [hrun] at hs
    exact hs

lemma fresh : Collects fresh := of_ok fun _ => ⟨_, _, rfl, rfl⟩

lemma equate {left right : Kind} {origin : KindOrigin} (h : origin.Accords left right) :
    Collects (equate ctx left right origin) := by
  intro s e he
  rcases List.mem_append.1 he with he | he
  · exact .inl he
  · obtain rfl := List.mem_singleton.1 he
    exact .inr h

lemma note (place : Place) (name : String) (slot : KindSlot) (k : Kind) :
    Collects (note ctx place name slot k) := by
  cases slot with
  | none => exact modify fun _ => rfl
  | some assigned => exact equate trivial

lemma bringAll (names : List String) : Collects (bringAll names) :=
  of_ok fun s => ⟨_, _, bringAll_run names s, equations_brought s names⟩

lemma constructorKind (name : String) : Collects (constructorKind ctx name) := by
  refine get.bind fun s => ?_
  split
  · exact pure _
  · split
    · exact pure _
    · exact fail rfl

lemma variableKind (name : String) : Collects (variableKind ctx name) := by
  refine get.bind fun s => ?_
  split
  · exact pure _
  · split
    · exact fail rfl
    · exact of_ok fun _ => ⟨_, _, rfl, rfl⟩

end Collects

namespace Ty

variable {ctx : KindContext}

mutual
lemma collects_kindConstraints : (t : Ty) → {place : Place} →
    Collects (t.kindConstraints ctx place)
  | .con name slot, place => by
    rw [kindConstraints]
    refine (Collects.constructorKind name).bind fun k => ?_
    exact (Collects.note place name slot k).bind fun _ => .pure k
  | .var name sort slot, place => by
    rw [kindConstraints]
    refine (Collects.variableKind name).bind fun k => ?_
    exact (Collects.note place name slot k).bind fun _ => .pure k
  | .app head args, _ => by
    rw [kindConstraints]
    refine (collects_kindConstraints head).bind fun headKind => ?_
    split
    · rw [operandConstraints_eq]
      refine Collects.bind (collects_demandAtomic args fun _ => ?_) fun _ => .pure _
      trivial
    · refine (collects_kindConstraintsList args).bind fun kinds => ?_
      refine Collects.fresh.bind fun result => ?_
      refine Collects.bind (.equate ?_) fun _ => .pure result
      exact ⟨rfl, rfl⟩
  | .scheme vars body, _ => by
    rw [kindConstraints]
    refine .inChild ((Collects.bringAll vars.names).bind fun _ => ?_)
    refine (collects_kindConstraints body).bind fun k => ?_
    refine Collects.bind (.equate ?_) fun _ => .pure _
    trivial

lemma collects_kindConstraintsList : (args : List Ty) → {place : Place} → {i : Nat} →
    Collects (kindConstraintsList ctx place i args)
  | [], _, _ => .pure []
  | a :: args, _, _ => by
    rw [kindConstraintsList]
    exact (collects_kindConstraints a).bind fun k =>
      (collects_kindConstraintsList args).bind fun kinds => .pure (k :: kinds)

lemma collects_demandAtomic : (args : List Ty) → {place : Place} → {i : Nat} →
    {origin : KindOrigin} →
    (∀ k, origin.Accords k .atomic) → Collects (demandAtomic ctx origin place i args)
  | [], _, _, _, _ => .pure ()
  | a :: args, _, _, origin, h => by
    rw [demandAtomic]
    exact (collects_kindConstraints a).bind fun k =>
      (Collects.equate (h k)).bind fun _ => collects_demandAtomic args h
end

end Ty

lemma Datatype.collects_kindConstraints (d : Datatype) (ctx : KindContext) :
    Collects (d.kindConstraints ctx) := by
  refine Collects.bind (.modify fun _ => rfl) fun _ => ?_
  refine Collects.bind (.inChild ?_) fun _ => Collects.get.bind fun _ => .pure _
  exact (Collects.bringAll d.paramNames).bind fun _ =>
    Ty.collects_demandAtomic d.types fun _ => trivial

lemma collects_groupConstraints (base : Scope Kind) (group : List Datatype) (site : Nat) :
    Collects (groupConstraints base group site) := by
  induction group generalizing site with
  | nil => exact .pure []
  | cons d group ih =>
    refine (d.collects_kindConstraints _).bind fun own => ?_
    exact (ih _).bind fun more => .pure (own :: more)

lemma collects_declareHeads (group : List Datatype) (site : Nat) :
    Collects (declareHeads group site) := by
  induction group generalizing site with
  | nil => exact .pure []
  | cons d group ih =>
    rw [declareHeads]
    split
    · exact fun _ => rfl
    · refine Collects.fresh.bind fun k => ?_
      refine Collects.bind (.modify fun _ => rfl) fun _ => ?_
      exact (ih _).bind fun heads => .pure _

/-! ### Where errors come from -/

section Errors

variable {base : Scope Kind}

/-- Errors of inference for a group come from the walk, or from solving what it has collected. -/
lemma inferGroup_eq_error {group : List Datatype} {e : Sited KindError}
    (h : inferGroup base group = .error e) : e.item.ofWalk ∨
      ∃ leaves s, groupConstraints base group 0 (headsDeclared group) = .ok leaves s ∧
        (∀ e ∈ s.equations, e.origin.item.Accords e.left e.right) ∧ s.settle = .error e := by
  have hcollects : Collects (do
      let heads ← declareHeads group 0
      let leaves ← groupConstraints base group 0
      return (heads, leaves) : KindM (List (String × Kind) × List (List Leaf))) :=
    (collects_declareHeads group 0).bind fun heads =>
      (collects_groupConstraints base group 0).bind fun leaves => .pure (heads, leaves)
  have hinitial := hcollects .initial
  rw [inferGroup] at h
  split at h
  · next hwalk =>
    rw [hwalk] at hinitial
    cases h
    exact .inl hinitial
  · next heads leaves s hwalk =>
    rw [hwalk] at hinitial
    obtain ⟨_, _, hheads, hrest⟩ := bind_eq_ok.1 hwalk
    obtain ⟨leaves', s', hgroup, hpure⟩ := bind_eq_ok.1 hrest
    obtain ⟨hpair, rfl⟩ := pure_eq_ok.1 hpure
    obtain ⟨-, -, rfl⟩ := declareHeads_eq_ok.1 hheads
    refine .inr ⟨leaves', s', hgroup,
      fun e he => (hinitial e he).resolve_left (by simp [initial]), ?_⟩
    cases hsettle : s'.settle with
    | ok settled =>
      rw [hsettle] at h
      cases h
    | error e' =>
      rw [hsettle] at h
      cases h
      rfl

/-- So do errors of checking an ascription. -/
lemma checkAscription_eq_error {t : Ty} {e : KindError} (h : (checkAscription base t).2 = .error e) :
    e.ofWalk ∨ ∃ k s s' site, t.kindConstraints ⟨base, .introduce, none⟩ [] .initial = .ok k s ∧
      s' = s.equated ⟨base, .introduce, none⟩ k .atomic .ascription ∧
      (∀ e ∈ s'.equations, e.origin.item.Accords e.left e.right) ∧
      s'.settle = .error ⟨site, e⟩ := by
  have hcollects : Collects (do
      let kind ← t.kindConstraints ⟨base, .introduce, none⟩ []
      equate ⟨base, .introduce, none⟩ kind .atomic .ascription : KindM Unit) :=
    t.collects_kindConstraints.bind fun _ => .equate trivial
  have hinitial := hcollects .initial
  replace h := inferAscription_of_error h
  rw [inferAscription] at h
  split at h
  · next hwalk =>
    rw [hwalk] at hinitial
    cases h
    exact .inl hinitial
  · next s hwalk =>
    rw [hwalk] at hinitial
    obtain ⟨k, s₁, hrun, hequate⟩ := bind_eq_ok.1 hwalk
    obtain rfl : s₁.equated ⟨base, .introduce, none⟩ k .atomic .ascription = s := by
      cases hequate
      rfl
    cases hsettle : (s₁.equated ⟨base, .introduce, none⟩ k .atomic .ascription).settle with
    | ok settled =>
      rw [hsettle] at h
      cases h
    | error e' =>
      rw [hsettle] at h
      cases h
      exact .inr ⟨k, s₁, _, e'.site, hrun, rfl,
        fun e he => (hinitial e he).resolve_left (by simp [initial]), hsettle⟩

end Errors

end LetPoly
