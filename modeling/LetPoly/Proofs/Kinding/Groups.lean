import LetPoly.Proofs.Kinding.Rules
import LetPoly.Proofs.Scope
import LetPoly.Syntax.Fill

/-!
# Kinds of groups of datatypes

Kind inference for a group succeeds exactly if the group is well scoped and well kinded under some
assignment of ground kinds. What it finds is then the most general assignment, with `*` for all that
is left open.
-/

namespace LetPoly

open Kind Kinding

variable {V : String → Prop} {base : Scope Kind} {P : Kind → Prop}

/-! ### Recorded kinds and the rules -/

mutual
/-- Recorded kinds only add to what the rules ask for. -/
lemma HasKind.of_fill {κ : String → Kind} : (t : Ty) → {Δ : String → Kind} → {kinds : List Kind} →
    {k : Kind} → HasKind P κ Δ (t.fill kinds).1 k → HasKind P κ Δ t k
  | .con name slot, Δ, kinds, k, h => by
    cases slot with
    | some a => exact h
    | none =>
      cases kinds with
      | nil => exact h
      | cons a kinds => exact hasKind_con_iff.2 ⟨nofun, (hasKind_con_iff.1 h).2⟩
  | .var name sort slot, Δ, kinds, k, h => by
    cases slot with
    | some a => exact h
    | none =>
      cases kinds with
      | nil => exact h
      | cons a kinds => exact hasKind_var_iff.2 ⟨nofun, (hasKind_var_iff.1 h).2⟩
  | .app head args, Δ, kinds, k, h => by
    have hfill : ((head.fill kinds).1.isArrowConstructor ∧
        (Ty.fillList args (head.fill kinds).2).1.length = 2) ↔
          (head.isArrowConstructor ∧ args.length = 2) := Ty.isArrow_fill_iff rfl rfl
    by_cases harrow : head.isArrowConstructor ∧ args.length = 2
    · obtain ⟨⟨headKind, hhead⟩, hargs, rfl⟩ := (hasKind_arrow_iff (hfill.2 harrow)).1 h
      exact (hasKind_arrow_iff harrow).2
        ⟨⟨headKind, .of_fill head hhead⟩, HasKind.of_fillList args hargs, rfl⟩
    · obtain ⟨⟨kinds', hhead, hargs⟩, hflat⟩ := (hasKind_app_iff (mt hfill.1 harrow)).1 h
      exact (hasKind_app_iff harrow).2
        ⟨⟨kinds', .of_fill head hhead, HasKinds.of_fillList args hargs⟩, hflat⟩
  | .scheme vars body, Δ, kinds, k, h => by
    obtain ⟨⟨Δ', hoff, hon, hbody⟩, rfl⟩ := hasKind_scheme_iff.1 h
    exact hasKind_scheme_iff.2 ⟨⟨Δ', hoff, hon, .of_fill body hbody⟩, rfl⟩

lemma HasKind.of_fillList {κ : String → Kind} : (args : List Ty) → {Δ : String → Kind} →
    {kinds : List Kind} → {k : Kind} → (∀ a ∈ (Ty.fillList args kinds).1, HasKind P κ Δ a k) →
    ∀ a ∈ args, HasKind P κ Δ a k
  | [], _, _, _, _ => nofun
  | a :: args, Δ, kinds, k, h => by
    obtain ⟨ha, hargs⟩ := List.forall_mem_cons.1 h
    exact List.forall_mem_cons.2 ⟨.of_fill a ha, HasKind.of_fillList args hargs⟩

lemma HasKinds.of_fillList {κ : String → Kind} : (args : List Ty) → {Δ : String → Kind} →
    {kinds ks : List Kind} → HasKinds P κ Δ (Ty.fillList args kinds).1 ks → HasKinds P κ Δ args ks
  | [], _, _, _, h => h
  | a :: args, Δ, kinds, ks, h => by
    obtain ⟨k, ks, rfl, ha, hargs⟩ := hasKinds_cons_iff.1 h
    exact .cons (.of_fill a ha) (HasKinds.of_fillList args hargs)
end

/-! ### The walk over a datatype -/

lemma Ty.mem_variableNamesList {x : String} {args : List Ty} :
    x ∈ Ty.variableNamesList args ↔ ∃ a ∈ args, x ∈ a.variableNames := by
  induction args with
  | nil => simp [Ty.variableNamesList]
  | cons a args ih => simp [Ty.variableNamesList, ih]

lemma Ty.mem_constructorNamesList {c : String} {args : List Ty} :
    c ∈ Ty.constructorNamesList args ↔ ∃ a ∈ args, c ∈ a.constructorNames := by
  induction args with
  | nil => simp [Ty.constructorNamesList]
  | cons a args ih => simp [Ty.constructorNamesList, ih]

lemma Ty.mem_recordedKindsList {k : Kind} {args : List Ty} :
    k ∈ Ty.recordedKindsList args ↔ ∃ a ∈ args, k ∈ a.recordedKinds := by
  induction args with
  | nil => simp [Ty.recordedKindsList]
  | cons a args ih => simp [Ty.recordedKindsList, ih]

lemma Ty.mem_occurrencesList {x : String} {args : List Ty} :
    x ∈ Ty.occurrencesList args ↔ ∃ a ∈ args, x ∈ a.occurrences := by
  induction args with
  | nil => simp [Ty.occurrencesList]
  | cons a args ih => simp [Ty.occurrencesList, ih]

lemma Ty.fitsList_of_forall {args : List Ty} (h : ∀ a ∈ args, a.Fits V) : Ty.FitsList V args where
  var x hx := by
    obtain ⟨a, ha, hx⟩ := Ty.mem_variableNamesList.1 hx
    exact (h a ha).var x hx
  con c hc := by
    obtain ⟨a, ha, hc⟩ := Ty.mem_constructorNamesList.1 hc
    exact (h a ha).con c hc
  slot k hk := by
    obtain ⟨a, ha, hk⟩ := Ty.mem_recordedKindsList.1 hk
    exact (h a ha).slot k hk

lemma Datatype.paramNames_subset (d : Datatype) : d.paramNames ⊆ d.head.variableNames := by
  intro x hx
  rw [Datatype.paramNames, List.mem_filterMap] at hx
  obtain ⟨t, ht, hx⟩ := hx
  rw [Datatype.params] at ht
  split at ht
  · next head args hhead =>
    rw [hhead]
    refine List.mem_append_right _ (Ty.mem_variableNamesList.2 ⟨t, ht, ?_⟩)
    split at hx
    · cases hx
      exact List.mem_cons_self
    · cases hx
  · cases ht

lemma fillConstructors_eq (constructors : List Constructor) (kinds : List Kind) :
    Ty.fillList (constructors.flatMap (·.fields)) kinds =
      ((fillConstructors constructors kinds).1.flatMap (·.fields),
        (fillConstructors constructors kinds).2) := by
  induction constructors generalizing kinds with
  | nil => rfl
  | cons c constructors ih =>
    have happend : ∀ (as bs : List Ty) (kinds : List Kind), Ty.fillList (as ++ bs) kinds =
        ((Ty.fillList as kinds).1 ++ (Ty.fillList bs (Ty.fillList as kinds).2).1,
          (Ty.fillList bs (Ty.fillList as kinds).2).2) := by
      intro as bs kinds
      induction as generalizing kinds with
      | nil => rfl
      | cons a as ih => simp [Ty.fillList, ih]
    simp [happend, ih, fillConstructors]

/-- To fill a datatype is to fill its types. -/
lemma Datatype.fillList_types (d : Datatype) (kinds : List Kind) :
    Ty.fillList d.types kinds = ((d.fill kinds).1.types, (d.fill kinds).2) := by
  simp [Datatype.types, Ty.fillList, fillConstructors_eq, Datatype.fill]

lemma fillDatatypes_cons {d d' : Datatype} {ds ds' : List Datatype} {kinds kinds' rest : List Kind}
    (hd : d.fill kinds = (d', kinds')) (hds : fillDatatypes ds kinds' = (ds', rest)) :
    fillDatatypes (d :: ds) kinds = (d' :: ds', rest) := by
  simp [fillDatatypes, hd, hds]

lemma fillDatatypes_getElem? {ds ds' : List Datatype} {kinds rest : List Kind}
    (h : fillDatatypes ds kinds = (ds', rest)) {i : Nat} {d : Datatype} (hd : ds[i]? = some d) :
    ∃ d', ds'[i]? = some d' ∧ ∃ own more, d.fill own = (d', more) := by
  induction ds generalizing ds' kinds i with
  | nil => cases hd
  | cons e ds ih =>
    cases h
    cases i with
    | zero =>
      cases hd
      exact ⟨_, rfl, _, _, rfl⟩
    | succ i => exact ih rfl hd

namespace Kinding

/-- Once the leaves are forgotten. -/
def cleared (s : Kinding) : Kinding := { s with leaves := [] }

/-- The state in which the types of a datatype are walked. -/
def opened (s : Kinding) (d : Datatype) : Kinding := s.cleared.entered.brought d.paramNames

/-- The kind that a parameter of a datatype is given. -/
def paramKind (s : Kinding) (d : Datatype) (x : String) : Kind :=
  ((s.opened d).scope.lookup x).getD .atomic

lemma Bounded.cleared {s : Kinding} (hs : s.Bounded base) : s.cleared.Bounded base :=
  { hs with leaves := by simp [Kinding.cleared] }

lemma Bounded.opened {s : Kinding} (hs : s.Bounded base) (d : Datatype) :
    (s.opened d).Bounded base :=
  hs.cleared.entered.brought _

lemma Bounded.paramKind {s : Kinding} (hs : s.Bounded base) (d : Datatype) (x : String) :
    (s.paramKind d x).Below (s.opened d).next := by
  rw [Kinding.paramKind]
  cases hk : (s.opened d).scope.lookup x with
  | none => exact isGround_atomic.below _
  | some k => exact (hs.opened d).scope hk

lemma next_le_opened (s : Kinding) (d : Datatype) : s.next ≤ (s.opened d).next :=
  next_le_brought s.cleared.entered _

end Kinding

namespace Datatype

variable {site : Option Nat} {d : Datatype} {s s' : Kinding} {leaves : List Leaf}

lemma kindConstraints_eq_ok {ctx : KindContext} :
    d.kindConstraints ctx s = .ok leaves s' ↔ ∃ s₁,
      demandAtomic ctx (.declaration (d.name?.getD "")) [] 0 d.types (s.opened d) = .ok () s₁ ∧
        s₁.leaves = leaves ∧ s₁.restored s = s' := by
  simp only [kindConstraints, bind_eq_ok, inChild_eq_ok, bringAll_run, EStateM.Result.ok.injEq]
  constructor
  · rintro ⟨_, _, hclear, _, _, ⟨s₁, ⟨_, _, ⟨-, rfl⟩, hwalk⟩, rfl⟩, _, _, hget, hpure⟩
    cases hclear
    cases hget
    cases hpure
    exact ⟨s₁, hwalk, rfl, rfl⟩
  · rintro ⟨s₁, hwalk, rfl, rfl⟩
    exact ⟨(), s.cleared, rfl, (), _, ⟨s₁, ⟨(), _, ⟨trivial, rfl⟩, hwalk⟩, rfl⟩, _, _, rfl, rfl⟩

/-- What the walk over a datatype comes to, seen from its inside. -/
lemma kindConstraints_inner (hd : Ty.AdmitsList V d.types) (hs : s.Bounded base)
    (hrun : d.kindConstraints ⟨base, .refuse, site⟩ s = .ok leaves s') :
    ∃ s₁, demandAtomic ⟨base, .refuse, site⟩ (.declaration (d.name?.getD "")) [] 0 d.types
        (s.opened d) = .ok () s₁ ∧ s₁.leaves = leaves ∧ s₁.restored s = s' ∧
      Leads V (s.opened d) s₁ ∧ s₁.Bounded base ∧ s₁.scope = (s.opened d).scope := by
  obtain ⟨s₁, hwalk, hleaves, hs'⟩ := kindConstraints_eq_ok.1 hrun
  obtain ⟨hleads, hs₁⟩ := Ty.demandAtomic_keeps d.types hd (hs.opened d) hwalk
  exact ⟨s₁, hwalk, hleaves, hs', hleads, hs₁,
    Ty.scope_demandAtomic d.types (.inl rfl) hwalk⟩

lemma kindConstraints_keeps (hd : Ty.AdmitsList V d.types) (hs : s.Bounded base)
    (hrun : d.kindConstraints ⟨base, .refuse, site⟩ s = .ok leaves s') :
    Leads V s s' ∧ s'.Bounded base ∧ (s.opened d).next ≤ s'.next ∧
      ∀ leaf ∈ leaves, leaf.kind.isFlat := by
  obtain ⟨s₁, -, rfl, rfl, hleads, hs₁, -⟩ := kindConstraints_inner hd hs hrun
  have hle : s.next ≤ s₁.next := Nat.le_trans (next_le_opened s d) hleads.next_le
  have hsub := hleads.equations
  rw [opened, equations_brought] at hsub
  exact ⟨.restored hle hsub, hs.restored hs₁ hle, hleads.next_le, fun leaf h => (hs₁.leaves leaf h).1⟩

lemma kindConstraints_sound (hd : Ty.FitsList V d.types) (hs : s.Bounded base)
    (hrun : d.kindConstraints ⟨base, .refuse, site⟩ s = .ok leaves s') {θ : KindVar → Kind}
    {κ Δ : String → Kind} (hP : ∀ v, P (θ v)) (hm : Models V base θ κ Δ s') (rest : List Kind) :
    ∃ d', d.fill (leaves.map (fun leaf => bindAll θ leaf.kind) ++ rest) = (d', rest) ∧
      ∀ t ∈ d'.types, HasKind P κ (fun x => bindAll θ (s.paramKind d x)) t .atomic := by
  obtain ⟨s₁, hwalk, rfl, rfl, hleads, hs₁, hscope⟩ := kindConstraints_inner hd.toAdmitsList hs hrun
  have hm₁ : Models V base θ κ (fun x => bindAll θ (s.paramKind d x)) s₁ := by
    refine ⟨hm.flat, fun {c k} hc hk => hm.con hc ?_, fun {x k} hx hk => ?_, hm.unified⟩
    · rw [found?, hscope, opened, lookup_brought_of_not_mem] at hk
      · exact hk
      · exact fun hmem => hc (hd.var c (List.mem_append_left _ (d.paramNames_subset hmem)))
    · rw [hscope] at hk
      simp only [paramKind, hk, Option.getD_some]
  obtain ⟨new, hleaves, h⟩ := Ty.demandAtomic_sound (P := P) d.types hd (fun h => by cases h)
    (hs.opened d) hwalk
  rw [opened, leaves_brought] at hleaves
  obtain ⟨types, hfill, hkinds⟩ := h hP hm₁ rest
  rw [fillList_types, Prod.mk.injEq] at hfill
  rw [hleaves]
  exact ⟨_, Prod.ext rfl hfill.2, hfill.1 ▸ hkinds⟩

lemma kindConstraints_complete (hflat : ∀ k, P k → k.isFlat) (hd : Ty.FitsList V d.types)
    (hs : s.Bounded base) (hrun : d.kindConstraints ⟨base, .refuse, site⟩ s = .ok leaves s')
    {θ : KindVar → Kind} {κ Δ : String → Kind} (hm : Models V base θ κ Δ s)
    (hΔ : ∀ x, (Δ x).isFlat) (hkinds : ∀ t ∈ d.types, HasKind P κ Δ t .atomic) :
    ∃ θ', SameBelow s.next θ θ' ∧ Models V base θ' κ Δ s' ∧
      ∀ x ∈ d.paramNames, bindAll θ' (s.paramKind d x) = Δ x := by
  have hparam : ∀ x ∈ d.paramNames, V x := fun x hx =>
    hd.var x (List.mem_append_left _ (d.paramNames_subset hx))
  obtain ⟨s₁, hwalk, -, rfl, hleads, hs₁, hscope⟩ := kindConstraints_inner hd.toAdmitsList hs hrun
  have hcleared : Models V base θ κ Δ s.cleared.entered := { hm with }
  obtain ⟨θ₁, hsame₁, hm₁⟩ := hcleared.brought hs.cleared.entered
    (fun x _ => rfl) fun x hx => ⟨hparam x hx, hΔ x⟩
  obtain ⟨θ₂, hsame₂, hm₂⟩ :=
    Ty.demandAtomic_complete hflat d.types hd (hs.opened d) hwalk hm₁ hΔ hkinds
  have hsame : SameBelow s.next θ θ₂ := hsame₁.trans (next_le_opened s d) hsame₂
  refine ⟨θ₂, hsame, (hm.change hs hsame hm₂.flat).restored hm₂, fun x hx => ?_⟩
  obtain ⟨v, hv⟩ := lookup_brought_of_mem (s := s.cleared.entered) hx
  rw [paramKind, opened, hv, Option.getD_some]
  exact (hm₂.var (hparam x hx) (by rw [hscope, opened, hv])).symm

end Datatype

/-! ### The walk over a group -/

section GroupWalk

variable {ds : List Datatype} {site : Nat} {s s' : Kinding} {leaves : List (List Leaf)}

lemma groupConstraints_nil_eq_ok :
    groupConstraints base [] site s = .ok leaves s' ↔ [] = leaves ∧ s = s' := by
  rw [groupConstraints, pure_eq_ok]

lemma groupConstraints_cons_eq_ok {d : Datatype} :
    groupConstraints base (d :: ds) site s = .ok leaves s' ↔ ∃ own s₁ more,
      d.kindConstraints ⟨base, .refuse, some site⟩ s = .ok own s₁ ∧
        groupConstraints base ds (site + 1) s₁ = .ok more s' ∧ own :: more = leaves := by
  simp only [groupConstraints, bind_eq_ok, pure_eq_ok]
  constructor
  · rintro ⟨own, s₁, hd, more, _, hds, rfl, rfl⟩
    exact ⟨own, s₁, more, hd, hds, rfl⟩
  · rintro ⟨own, s₁, more, hd, hds, rfl⟩
    exact ⟨own, s₁, hd, more, s', hds, rfl, rfl⟩

/-- What the walk over a group comes to, `Δ₀` being the kinds that it gives the parameters of the
datatypes by their position. -/
structure GroupWalk (V : String → Prop) (base : Scope Kind) (ds : List Datatype)
    (leaves : List (List Leaf)) (s s' : Kinding) (Δ₀ : Nat → String → Kind) : Prop where
  leads : Leads V s s'
  bounded : s'.Bounded base
  scope : s'.scope = s.scope
  below : ∀ i x, (Δ₀ i x).Below s'.next
  flat : ∀ own ∈ leaves, ∀ leaf ∈ own, leaf.kind.isFlat
  sound {P : Kind → Prop} {θ : KindVar → Kind} {κ Δ : String → Kind} : (∀ v, P (θ v)) →
    Models V base θ κ Δ s' → ∀ rest, ∃ ds',
      fillDatatypes ds (leaves.flatten.map (fun leaf => bindAll θ leaf.kind) ++ rest) = (ds', rest) ∧
        ∀ i d, ds'[i]? = some d → ∀ t ∈ d.types,
          HasKind P κ (fun x => bindAll θ (Δ₀ i x)) t .atomic
  complete {P : Kind → Prop} {θ : KindVar → Kind} {κ Δ : String → Kind}
    {Δs : Nat → String → Kind} : (∀ k, P k → k.isFlat) → Models V base θ κ Δ s →
    (∀ i x, (Δs i x).isFlat) →
    (∀ i d, ds[i]? = some d → ∀ t ∈ d.types, HasKind P κ (Δs i) t .atomic) →
    ∃ θ', SameBelow s.next θ θ' ∧ Models V base θ' κ Δ s' ∧
      ∀ i d, ds[i]? = some d → ∀ x ∈ d.paramNames, bindAll θ' (Δ₀ i x) = Δs i x

/-- Where no variable is in scope, the kinds of variables are of no account. -/
lemma Kinding.Models.change_var {θ : KindVar → Kind} {κ Δ : String → Kind}
    (hm : Models V base θ κ Δ s) (hV : ∀ x, V x → s.scope.lookup x = none) (Δ' : String → Kind) :
    Models V base θ κ Δ' s :=
  { hm with var := fun hx hk => by rw [hV _ hx] at hk; cases hk }

lemma groupWalk_nil (hs : s.Bounded base) : GroupWalk V base [] [] s s fun _ _ => .atomic where
  leads := .refl s
  bounded := hs
  scope := rfl
  below _ _ := isGround_atomic.below _
  flat := by simp
  sound _ _ rest := ⟨[], rfl, by simp⟩
  complete _ hm _ _ := ⟨_, .refl _ _, hm, by simp⟩

/-- One datatype in front of a group. -/
lemma GroupWalk.cons {d : Datatype} {own : List Leaf} {s₁ : Kinding}
    {Δ₀ : Nat → String → Kind} (hd : Ty.FitsList V d.types) (hs : s.Bounded base)
    (hV : ∀ x, V x → s.scope.lookup x = none)
    (hown : d.kindConstraints ⟨base, .refuse, some site⟩ s = .ok own s₁)
    (h : GroupWalk V base ds leaves s₁ s' Δ₀) :
    GroupWalk V base (d :: ds) (own :: leaves) s s' fun
      | 0 => s.paramKind d
      | i + 1 => Δ₀ i := by
  obtain ⟨hleads, hs₁, hle, hflat⟩ := Datatype.kindConstraints_keeps hd.toAdmitsList hs hown
  have hscope : s₁.scope = s.scope := by
    obtain ⟨_, -, -, rfl⟩ := Datatype.kindConstraints_eq_ok.1 hown
    rfl
  have hV₁ : ∀ x, V x → s₁.scope.lookup x = none := by rwa [hscope]
  refine ⟨hleads.trans h.leads, h.bounded, h.scope.trans hscope, ?below,
    List.forall_mem_cons.2 ⟨hflat, h.flat⟩, ?sound, ?complete⟩
  case below =>
    rintro (_ | i) x
    · exact (hs.paramKind d x).mono (Nat.le_trans hle h.leads.next_le)
    · exact h.below i x
  case sound =>
    intro P θ κ Δ hP hm rest
    obtain ⟨d', hfill, hkinds⟩ := Datatype.kindConstraints_sound hd hs hown hP
      (hm.of_leads h.leads) (leaves.flatten.map (fun leaf => bindAll θ leaf.kind) ++ rest)
    obtain ⟨ds', hfills, hmore⟩ := h.sound hP hm rest
    refine ⟨d' :: ds', ?_, ?_⟩
    · rw [List.flatten_cons, List.map_append, List.append_assoc, fillDatatypes_cons hfill hfills]
    · rintro (_ | i) e he
      · cases he
        exact hkinds
      · exact hmore i e he
  case complete =>
    intro P θ κ Δ Δs hP hm hΔs hkinds
    obtain ⟨θ₁, hsame₁, hm₁, hparams₁⟩ := Datatype.kindConstraints_complete hP hd hs hown
      (hm.change_var hV (Δs 0)) (hΔs 0) (hkinds 0 d rfl)
    obtain ⟨θ₂, hsame₂, hm₂, hparams₂⟩ := h.complete hP (hm₁.change_var hV₁ Δ)
      (fun i => hΔs (i + 1)) fun i e he => hkinds (i + 1) e he
    refine ⟨θ₂, hsame₁.trans hleads.next_le hsame₂, hm₂, ?_⟩
    rintro (_ | i) e he x hx
    · cases he
      rw [← hparams₁ x hx]
      exact hsame₂.bindAll_eq ((hs.paramKind d x).mono hle)
    · exact hparams₂ i e he x hx

lemma groupConstraints_walk (hds : ∀ d ∈ ds, Ty.FitsList V d.types) (hs : s.Bounded base)
    (hV : ∀ x, V x → s.scope.lookup x = none)
    (hrun : groupConstraints base ds site s = .ok leaves s') :
    ∃ Δ₀, GroupWalk V base ds leaves s s' Δ₀ := by
  induction ds generalizing site s leaves with
  | nil =>
    obtain ⟨rfl, rfl⟩ := groupConstraints_nil_eq_ok.1 hrun
    exact ⟨_, groupWalk_nil hs⟩
  | cons d ds ih =>
    obtain ⟨own, s₁, more, hown, hmore, rfl⟩ := groupConstraints_cons_eq_ok.1 hrun
    obtain ⟨hd, hds⟩ := List.forall_mem_cons.1 hds
    obtain ⟨hleads, hs₁, -, -⟩ := Datatype.kindConstraints_keeps hd.toAdmitsList hs hown
    have hV₁ : ∀ x, V x → s₁.scope.lookup x = none := by
      obtain ⟨_, -, -, rfl⟩ := Datatype.kindConstraints_eq_ok.1 hown
      exact hV
    obtain ⟨Δ₀, hwalk⟩ := ih hds hs₁ hV₁ hmore
    exact ⟨_, hwalk.cons hd hs hV hown⟩

lemma Datatype.kindConstraints_isOk_iff {d : Datatype} (hd : Ty.FitsList V d.types)
    (place : Option Nat) :
    (∃ own s', d.kindConstraints ⟨base, .refuse, place⟩ s = .ok own s') ↔
      Ty.Known base s (Ty.constructorNamesList d.types)
        ((Ty.occurrencesList d.types).filter (· ∉ d.paramNames)) := by
  have hdisjoint : ∀ c ∈ Ty.constructorNamesList d.types, c ∉ d.paramNames := fun c hc hparam =>
    hd.con c hc (hd.var c (List.mem_append_left _ (d.paramNames_subset hparam)))
  have hcleared : Ty.Known base (s.opened d) _ (Ty.occurrencesList d.types) ↔ _ :=
    Ty.known_brought hdisjoint
  have hwalk : (∃ s₁, demandAtomic ⟨base, .refuse, place⟩ (.declaration (d.name?.getD "")) [] 0 d.types
      (s.opened d) = .ok () s₁) ↔ _ := Ty.demandAtomic_isOk_iff rfl d.types hd
  refine Iff.trans ?_ (hwalk.trans hcleared)
  simp only [Datatype.kindConstraints_eq_ok]
  exact ⟨fun ⟨_, _, s₁, h, _⟩ => ⟨s₁, h⟩, fun ⟨s₁, h⟩ => ⟨_, _, s₁, h, rfl, rfl⟩⟩

lemma groupConstraints_isOk_iff (hds : ∀ d ∈ ds, Ty.FitsList V d.types) :
    (∃ leaves s', groupConstraints base ds site s = .ok leaves s') ↔
      ∀ d ∈ ds, Ty.Known base s (Ty.constructorNamesList d.types)
        ((Ty.occurrencesList d.types).filter (· ∉ d.paramNames)) := by
  induction ds generalizing site s with
  | nil => simp [groupConstraints_nil_eq_ok]
  | cons d ds ih =>
    obtain ⟨hd, hds⟩ := List.forall_mem_cons.1 hds
    have hscope : ∀ {own s₁}, d.kindConstraints ⟨base, .refuse, some site⟩ s = .ok own s₁ →
        s₁.scope = s.scope := by
      intro own s₁ hown
      obtain ⟨_, -, -, rfl⟩ := Datatype.kindConstraints_eq_ok.1 hown
      rfl
    rw [List.forall_mem_cons, ← Datatype.kindConstraints_isOk_iff hd (some site)]
    simp only [groupConstraints_cons_eq_ok]
    constructor
    · rintro ⟨_, s', own, s₁, more, hown, hmore, -⟩
      refine ⟨⟨own, s₁, hown⟩, fun e he => ?_⟩
      exact (Ty.known_congr (hscope hown)).1 ((ih hds).1 ⟨more, s', hmore⟩ e he)
    · rintro ⟨⟨own, s₁, hown⟩, hknown⟩
      obtain ⟨more, s', hmore⟩ : ∃ more s', groupConstraints base ds (site + 1) s₁ = .ok more s' :=
        (ih hds).2 fun e he => (Ty.known_congr (hscope hown)).2 (hknown e he)
      exact ⟨_, s', own, s₁, more, hown, hmore, rfl⟩

end GroupWalk

end LetPoly
