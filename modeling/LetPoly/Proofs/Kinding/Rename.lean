import LetPoly.Proofs.Kinding.Again
import LetPoly.Proofs.Unification.TermMap

/-!
# Kinds of renamed types

The names of the variables in an ascription make no difference to its kinds, as long as no variable
goes by the name of a type constructor (`checkAscription_rename`): the two walks collect the same
equations, with other origins.
-/

namespace LetPoly

variable {f : String → String} {names : List String}

namespace Kinding

/-- The states of the walks over a type and over its renaming, when `names` are those of its type
constructors. -/
structure Renamed (f : String → String) (names : List String) (s s' : Kinding) : Prop where
  next : s'.next = s.next
  scope : ∀ x, s'.scope.lookup (f x) = s.scope.lookup x
  constructors : ∀ c ∈ names, s.scope.lookup c = none ∧ s'.scope.lookup c = none
  equations : s'.equations.map (fun e => (e.left, e.right)) =
    s.equations.map fun e => (e.left, e.right)
  leaves : s'.leaves.map Leaf.kind = s.leaves.map Leaf.kind

/-- The same result in states of the two walks. -/
def SameIn {α : Type} (f : String → String) (names : List String) (a : α) (s : Kinding) (a' : α)
    (s' : Kinding) : Prop :=
  a = a' ∧ Renamed f names s s'

/-- Runs of the two walks both fail, or come to the same. -/
abbrev Walks {α : Type} (f : String → String) (names : List String) (x x' : KindM α)
    (s s' : Kinding) : Prop :=
  Alike (fun _ _ _ _ => True) (SameIn f names) (x s) (x' s')

section Steps

variable {ctx : KindContext} {s s' : Kinding}

lemma walks_fresh (h : Renamed f names s s') : Walks f names fresh fresh s s' := by
  refine ⟨congrArg (fun n => Kind.var ⟨n⟩) h.next.symm, ?_⟩
  exact ⟨congrArg (· + 1) h.next, h.scope, h.constructors, h.equations, h.leaves⟩

lemma walks_bring (hf : Function.Injective f) {x : String} (hx : x ∉ names ∧ f x ∉ names) (k : Kind)
    (h : Renamed f names s s') : Walks f names (bring x k) (bring (f x) k) s s' := by
  refine ⟨rfl, h.next, fun y => ?_, fun c hc => ?_,
    h.equations, h.leaves⟩
  · rw [Scope.lookup_insert, Scope.lookup_insert, h.scope]
    simp only [hf.eq_iff]
  · rw [Scope.lookup_insert, Scope.lookup_insert, if_neg (ne_of_mem_of_not_mem hc hx.1).symm,
      if_neg (ne_of_mem_of_not_mem hc hx.2).symm]
    exact h.constructors c hc

lemma walks_bringAll (hf : Function.Injective f) {vars : List String}
    (hvars : ∀ x ∈ vars, x ∉ names ∧ f x ∉ names) (h : Renamed f names s s') :
    Walks f names (bringAll vars) (bringAll (vars.map f)) s s' := by
  induction vars generalizing s s' with
  | nil => exact ⟨rfl, h⟩
  | cons x vars ih =>
    rw [List.forall_mem_cons] at hvars
    refine (walks_fresh h).bind ?_
    rintro k s₁ _ s₁' ⟨rfl, h₁⟩
    refine (walks_bring hf hvars.1 k h₁).bind ?_
    exact fun _ _ _ _ h₂ => ih hvars.2 h₂.2

lemma Renamed.equated (h : Renamed f names s s') (ctx : KindContext) (left right : Kind)
    (origin origin' : KindOrigin) :
    Renamed f names (s.equated ctx left right origin) (s'.equated ctx left right origin') := by
  refine ⟨h.next, h.scope, h.constructors, ?_, h.leaves⟩
  rw [Kinding.equated, Kinding.equated, List.map_append, List.map_append, h.equations]
  rfl

lemma Renamed.leaves_settled (h : Renamed f names s s') (settled : Kind → Kind) :
    (s'.leaves.map fun leaf => settled leaf.kind) = s.leaves.map fun leaf => settled leaf.kind := by
  have hmap := congrArg (List.map settled) h.leaves
  rwa [List.map_map, List.map_map] at hmap

lemma walks_equate (left right : Kind) (origin origin' : KindOrigin) (h : Renamed f names s s') :
    Walks f names (equate ctx left right origin) (equate ctx left right origin') s s' :=
  ⟨rfl, h.equated ctx left right origin origin'⟩

lemma walks_note (place : Place) (name name' : String) (slot : KindSlot) (k : Kind)
    (h : Renamed f names s s') :
    Walks f names (note ctx place name slot k) (note ctx place name' slot k) s s' := by
  cases slot with
  | some assigned => exact walks_equate k assigned _ _ h
  | none =>
    refine ⟨rfl, h.next, h.scope, h.constructors,
      h.equations, ?_⟩
    rw [List.map_append, List.map_append, h.leaves]
    rfl

/-- No variable hides a type constructor. -/
lemma walks_constructorKind {c : String} (hc : c ∈ names) (h : Renamed f names s s') :
    Walks f names (constructorKind ctx c) (constructorKind ctx c) s s' := by
  obtain ⟨hscope, hscope'⟩ := h.constructors c hc
  rw [Walks, constructorKind, bind_get, bind_get, hscope, hscope']
  cases ctx.base.lookup c with
  | some kind => exact ⟨rfl, h⟩
  | none => trivial

lemma walks_variableKind (hf : Function.Injective f) {x : String} (hx : x ∉ names ∧ f x ∉ names)
    (h : Renamed f names s s') :
    Walks f names (variableKind ctx x) (variableKind ctx (f x)) s s' := by
  rw [Walks, variableKind, variableKind, bind_get, bind_get, h.scope]
  cases s.scope.lookup x with
  | some kind => exact ⟨rfl, h⟩
  | none =>
    cases ctx.unscoped with
    | refuse => trivial
    | introduce =>
      refine (walks_fresh h).bind ?_
      rintro k s₁ _ s₁' ⟨rfl, h₁⟩
      exact (walks_bring hf hx k h₁).bind fun _ _ _ _ h₂ => ⟨rfl, h₂.2⟩

lemma walks_inChild {α : Type} {x x' : KindM α} (h : Renamed f names s s')
    (hx : ∀ {s s' : Kinding}, Renamed f names s s' → Walks f names x x' s s') :
    Walks f names (inChild x) (inChild x') s s' :=
  alike_inChild (hx ⟨h.next, h.scope, h.constructors, h.equations, h.leaves⟩)
    (fun _ _ _ _ _ => trivial)
    fun _ _ _ _ hq => ⟨hq.1, hq.2.next, h.scope, h.constructors, hq.2.equations, hq.2.leaves⟩

/-- The equations of the two walks are settled in the same way. -/
lemma Renamed.settle_eq_ok (h : Renamed f names s s') {settled : Kind → Kind} :
    s'.settle = .ok settled ↔ s.settle = .ok settled := by
  obtain ⟨hbindings, hfailure⟩ := solve_congr_origins h.equations
  rw [settle, settle, hbindings]
  cases hs : (solve s.equations).failure with
  | none => rw [hfailure.2 hs]
  | some unsolved =>
    cases hs' : (solve s'.equations).failure with
    | none => cases hs.symm.trans (hfailure.1 hs')
    | some unsolved' => exact ⟨fun h => (by cases h), fun h => (by cases h)⟩

end Steps

end Kinding

/-! ### Types -/

open Kinding

namespace Ty

variable {ctx : KindContext}

mutual
/-- The walks over a type and over its renaming come to the same. -/
lemma walks_kindConstraints (hf : Function.Injective f) : (t : Ty) → {place : Place} →
    (∀ x ∈ t.variableNames, x ∉ names ∧ f x ∉ names) → t.constructorNames ⊆ names →
    {s s' : Kinding} → Renamed f names s s' →
    Walks f names (t.kindConstraints ctx place) ((t.rename f).kindConstraints ctx place) s s'
  | .con c slot, place, _, hc, _, _, h => by
    rw [rename, kindConstraints]
    refine (walks_constructorKind (hc (List.mem_singleton_self c)) h).bind ?_
    rintro k s₁ _ s₁' ⟨rfl, h₁⟩
    exact (walks_note place c c slot k h₁).bind fun _ _ _ _ h₂ => ⟨rfl, h₂.2⟩
  | .var x sort slot, place, hx, _, _, _, h => by
    rw [rename, kindConstraints, kindConstraints]
    refine (walks_variableKind hf (hx x (List.mem_singleton_self x)) h).bind ?_
    rintro k s₁ _ s₁' ⟨rfl, h₁⟩
    exact (walks_note place x (f x) slot k h₁).bind fun _ _ _ _ h₂ => ⟨rfl, h₂.2⟩
  | .app head args, _, hx, hc, _, _, h => by
    have hargs : ∀ x ∈ variableNamesList args, x ∉ names ∧ f x ∉ names :=
      fun x hv => hx x (List.mem_append_right _ hv)
    rw [rename, kindConstraints, kindConstraints, isArrowConstructor_rename, length_renameList]
    refine (walks_kindConstraints hf head (fun x hv => hx x (List.mem_append_left _ hv))
      (List.append_subset.1 hc).1 h).bind ?_
    rintro k s₁ _ s₁' ⟨rfl, h₁⟩
    split
    · exact (walks_operandConstraints hf args hargs (List.append_subset.1 hc).2 h₁).bind
        fun _ _ _ _ h₂ => ⟨rfl, h₂.2⟩
    · refine (walks_kindConstraintsList hf args hargs (List.append_subset.1 hc).2 h₁).bind ?_
      rintro ks s₂ _ s₂' ⟨rfl, h₂⟩
      refine (walks_fresh h₂).bind ?_
      rintro result s₃ _ s₃' ⟨rfl, h₃⟩
      exact (walks_equate k _ _ _ h₃).bind fun _ _ _ _ h₄ => ⟨rfl, h₄.2⟩
  | .scheme vars body, _, hx, hc, _, _, h => by
    rw [rename, kindConstraints, kindConstraints, NameSet.names_rename hf]
    refine walks_inChild h fun h => ?_
    refine (walks_bringAll hf (fun x hv => hx x (List.mem_append_left _ hv)) h).bind ?_
    rintro _ s₁ _ s₁' ⟨_, h₁⟩
    refine (walks_kindConstraints hf body (fun x hv => hx x (List.mem_append_right _ hv)) hc h₁).bind ?_
    rintro k s₂ _ s₂' ⟨rfl, h₂⟩
    exact (walks_equate k .atomic _ _ h₂).bind fun _ _ _ _ h₃ => ⟨rfl, h₃.2⟩

lemma walks_kindConstraintsList (hf : Function.Injective f) : (args : List Ty) → {place : Place} →
    {i : Nat} → (∀ x ∈ variableNamesList args, x ∉ names ∧ f x ∉ names) →
    constructorNamesList args ⊆ names → {s s' : Kinding} → Renamed f names s s' →
    Walks f names (kindConstraintsList ctx place i args)
      (kindConstraintsList ctx place i (renameList f args)) s s'
  | [], _, _, _, _, _, _, h => ⟨rfl, h⟩
  | a :: args, _, _, hx, hc, _, _, h => by
    rw [renameList, kindConstraintsList, kindConstraintsList]
    refine (walks_kindConstraints hf a (fun x hv => hx x (List.mem_append_left _ hv))
      (List.append_subset.1 hc).1 h).bind ?_
    rintro k s₁ _ s₁' ⟨rfl, h₁⟩
    refine (walks_kindConstraintsList hf args (fun x hv => hx x (List.mem_append_right _ hv))
      (List.append_subset.1 hc).2 h₁).bind ?_
    rintro ks s₂ _ s₂' ⟨rfl, h₂⟩
    exact ⟨rfl, h₂⟩

lemma walks_operandConstraints (hf : Function.Injective f) : (args : List Ty) → {place : Place} →
    {i : Nat} → (∀ x ∈ variableNamesList args, x ∉ names ∧ f x ∉ names) →
    constructorNamesList args ⊆ names → {s s' : Kinding} → Renamed f names s s' →
    Walks f names (operandConstraints ctx place i args)
      (operandConstraints ctx place i (renameList f args)) s s'
  | [], _, _, _, _, _, _, h => ⟨rfl, h⟩
  | a :: args, _, _, hx, hc, _, _, h => by
    rw [renameList, operandConstraints, operandConstraints]
    refine (walks_kindConstraints hf a (fun x hv => hx x (List.mem_append_left _ hv))
      (List.append_subset.1 hc).1 h).bind ?_
    rintro k s₁ _ s₁' ⟨rfl, h₁⟩
    refine (walks_equate k .atomic _ _ h₁).bind ?_
    exact fun _ _ _ _ h₂ => walks_operandConstraints hf args
      (fun x hv => hx x (List.mem_append_right _ hv)) (List.append_subset.1 hc).2 h₂.2
end

end Ty

/-- The names of its variables make no difference to the kinds of an ascription. -/
lemma checkAscription_rename (hf : Function.Injective f) (constructors : Scope Kind) {t : Ty}
    (ht : ∀ x ∈ t.variableNames, x ∉ t.constructorNames ∧ f x ∉ t.constructorNames)
    {found : List Kind} : (checkAscription constructors (t.rename f)).2 = .ok found ↔
      (checkAscription constructors t).2 = .ok found := by
  have hwalks : Walks f t.constructorNames (t.kindConstraints ⟨constructors, .introduce, none⟩ [])
      ((t.rename f).kindConstraints ⟨constructors, .introduce, none⟩ []) .initial .initial :=
    t.walks_kindConstraints hf ht (List.Subset.refl _)
      ⟨rfl, fun _ => rfl, fun _ _ => ⟨rfl, rfl⟩, rfl, rfl⟩
  constructor
  · intro h
    obtain ⟨k, s', settled, hrun', hsettle, rfl⟩ := checkAscription_eq_ok h
    obtain ⟨_, s, hrun, rfl, hs⟩ := hwalks.ok_left hrun'
    rw [hs.leaves_settled]
    exact checkAscription_run hrun ((hs.equated _ _ _ _ _).settle_eq_ok.1 hsettle)
  · intro h
    obtain ⟨k, s, settled, hrun, hsettle, rfl⟩ := checkAscription_eq_ok h
    obtain ⟨_, s', hrun', rfl, hs⟩ := hwalks.ok_right hrun
    rw [← hs.leaves_settled]
    exact checkAscription_run hrun' ((hs.equated _ _ _ _ _).settle_eq_ok.2 hsettle)

end LetPoly
