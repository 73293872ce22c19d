import LetPoly.Proofs.Kinding.Principal
import LetPoly.Proofs.Kinding.Substitution

/-!
# What checked types come to

An ascription that passes its check, and the datatypes of a group whose kinds are inferred, have
kind `*` by the rules once the kinds found are recorded in them (`checkAscription_sound`,
`inferGroup_sound`). What is known of the recorded kinds of variables is then known of the kinds
that a quantifier gives to what it binds (`HasKind.narrow`).
-/

namespace LetPoly

open Kind Kinding

/-! ### Kinds in a scope -/

/-- The kind of a type constructor in a scope. One that is not in scope has a kind that no rule can
use. -/
def Scope.kindOf (scope : Scope Kind) (c : String) : Kind := (scope.lookup c).getD (.var ⟨0⟩)

lemma Scope.kindOf_of_lookup {scope : Scope Kind} {c : String} {k : Kind}
    (h : scope.lookup c = some k) : scope.kindOf c = k := by
  rw [kindOf, h, Option.getD_some]

/-- A type has kind `*` in a scope, for some kinds of its free variables, and for kinds that satisfy
`P` of those that it binds. -/
structure WellKinded (P : Kind → Prop) (scope : Scope Kind) (t : Ty) : Prop where
  known : ∀ c ∈ t.constructorNames, (scope.lookup c).isSome
  kinded : ∃ Δ : String → Kind, (∀ x, P (Δ x)) ∧ HasKind P scope.kindOf Δ t .atomic

namespace KindFrame

variable {F : KindFrame}

mutual
/-- A type of a kind without variables uses only constructors that have such kinds. -/
lemma HasKind.isGround (hcon : ∀ c, (F.con c).IsGround ∨ F.con c = .var ⟨0⟩) : (t : Ty) →
    {Δ : String → Kind} → {k : Kind} → (∀ x, F.Var (Δ x)) → F.HasKind Δ t k → k ≠ .var ⟨0⟩ →
    k.IsGround ∧ ∀ c ∈ t.constructorNames, (F.con c).IsGround
  | .con name slot, _, _, _, h, hk => by
    obtain ⟨_, rfl⟩ := hasKind_con_iff.1 h
    have hground := (hcon name).resolve_right hk
    exact ⟨hground, fun c hc => List.mem_singleton.1 hc ▸ hground⟩
  | .var name sort slot, _, _, hΔ, h, _ => by
    obtain ⟨_, rfl⟩ := hasKind_var_iff.1 h
    exact ⟨(hΔ name).1, fun c hc => by cases hc⟩
  | .app head args, Δ, k, hΔ, h, hk => by
    obtain ⟨kinds, hhead, hargs, hflat⟩ := (hasKind_app hΔ).1 h
    have hkinds := HasKinds.isFlat hΔ hargs
    have hne : Kind.arrows kinds k ≠ .var ⟨0⟩ := by
      cases kinds with
      | nil => exact hk
      | cons a kinds =>
        intro heq
        have hback := congrArg Kind.backArgs heq
        rw [Kind.backArgs_arrows hkinds hflat] at hback
        simp [backArgs] at hback
    obtain ⟨hground, hnames⟩ := HasKind.isGround hcon head hΔ hhead hne
    obtain ⟨hground, hkground⟩ := isGround_of_arrows hkinds hflat hground
    refine ⟨hkground, fun c hc => ?_⟩
    rcases List.mem_append.1 hc with hc | hc
    · exact hnames c hc
    · exact HasKinds.isGround hcon args hΔ hargs hground c hc
  | .scheme vars body, Δ, k, hΔ, h, _ => by
    obtain ⟨⟨Δ₁, hoff, hon, hbody⟩, rfl⟩ := hasKind_scheme_iff.1 h
    exact HasKind.isGround hcon body (var_under hΔ hoff hon) hbody (by simp)

lemma HasKinds.isGround (hcon : ∀ c, (F.con c).IsGround ∨ F.con c = .var ⟨0⟩) : (args : List Ty) →
    {Δ : String → Kind} → {kinds : List Kind} → (∀ x, F.Var (Δ x)) → F.HasKinds Δ args kinds →
    (∀ k ∈ kinds, k.IsGround) → ∀ c ∈ Ty.constructorNamesList args, (F.con c).IsGround
  | [], _, _, _, _, _ => fun c hc => by cases hc
  | a :: args, Δ, kinds, hΔ, h, hkinds => by
    cases h with
    | cons ha hargs =>
      rw [List.forall_mem_cons] at hkinds
      intro c hc
      rcases List.mem_append.1 hc with hc | hc
      · refine (HasKind.isGround hcon a hΔ ha ?_).2 c hc
        rintro rfl
        cases hkinds.1.2
      · exact HasKinds.isGround hcon args hΔ hargs hkinds.2 c hc
end

end KindFrame

/-! ### Recorded kinds of variables -/

namespace Ty

mutual
/-- The slots of the free occurrences of variables, with their names. -/
def freeSlots : Ty → List (String × KindSlot)
  | .con _ _ => []
  | .var name _ slot => [(name, slot)]
  | .app head args => head.freeSlots ++ freeSlotsList args
  | .scheme vars body => body.freeSlots.filter (·.1 ∉ vars)

/-- The slots of the free occurrences of variables in a list of types. -/
def freeSlotsList : List Ty → List (String × KindSlot)
  | [] => []
  | a :: args => a.freeSlots ++ freeSlotsList args
end

mutual
lemma map_fst_freeSlots : (t : Ty) → t.freeSlots.map Prod.fst = t.occurrences
  | .con _ _ => rfl
  | .var _ _ _ => rfl
  | .app head args => by
    rw [freeSlots, List.map_append, map_fst_freeSlots head, map_fst_freeSlotsList args, occurrences]
  | .scheme vars body => by
    rw [freeSlots, occurrences, ← map_fst_freeSlots body, List.filter_map]
    rfl

lemma map_fst_freeSlotsList : (args : List Ty) →
    (freeSlotsList args).map Prod.fst = occurrencesList args
  | [] => rfl
  | a :: args => by
    rw [freeSlotsList, List.map_append, map_fst_freeSlots a, map_fst_freeSlotsList args,
      occurrencesList]
end

/-- Whether all variables, free or bound, have kinds recorded of which `q` holds. -/
def slotsMeet (q : Kind → Bool) (t : Ty) : Bool :=
  t.freeSlots.all (·.2.any q) && t.allSchemes fun _ body => body.freeSlots.all (·.2.any q)

lemma slotsMeet_arrow {q : Kind → Bool} {a b : Ty} :
    (arrow a b).slotsMeet q ↔ a.slotsMeet q ∧ b.slotsMeet q := by
  simp only [slotsMeet, arrow, builtin, freeSlots, freeSlotsList, allSchemes, allSchemesList,
    List.nil_append, List.append_nil, List.all_append, Bool.and_eq_true, and_true, true_and]
  tauto

lemma slotsMeet_function {q : Kind → Bool} {params : List Ty} {result : Ty} :
    (function params result).slotsMeet q ↔
      (∀ t ∈ params, t.slotsMeet q) ∧ result.slotsMeet q := by
  induction params with
  | nil => simp [function]
  | cons t params ih =>
    rw [List.forall_mem_cons, and_assoc, ← ih]
    exact slotsMeet_arrow

end Ty

section Slots

variable {P : Kind → Prop} {κ : String → Kind}

mutual
/-- Free variables have the kinds that are recorded for them. -/
lemma HasKind.freeSlot : (t : Ty) → {Δ : String → Kind} → {k : Kind} → HasKind P κ Δ t k →
    ∀ e ∈ t.freeSlots, ∀ k ∈ e.2, Δ e.1 = k
  | .con _ _, _, _, _ => fun e he => by cases he
  | .var name sort slot, Δ, k, h => by
    obtain ⟨hslot, _⟩ := hasKind_var_iff.1 h
    intro e he
    obtain rfl := List.mem_singleton.1 he
    exact hslot
  | .app head args, Δ, k, h => by
    intro e he
    by_cases harrow : head.isArrowConstructor ∧ args.length = 2
    · obtain ⟨⟨_, hhead⟩, hargs, _⟩ := (hasKind_arrow_iff harrow).1 h
      rcases List.mem_append.1 he with he | he
      · exact hhead.freeSlot head e he
      · exact HasKinds.freeSlot args (hasKinds_atomic_iff.2 hargs) e he
    · obtain ⟨⟨kinds, hhead, hargs⟩, _⟩ := (hasKind_app_iff harrow).1 h
      rcases List.mem_append.1 he with he | he
      · exact hhead.freeSlot head e he
      · exact HasKinds.freeSlot args hargs e he
  | .scheme vars body, Δ, k, h => by
    obtain ⟨⟨Δ', hoff, _, hbody⟩, _⟩ := hasKind_scheme_iff.1 h
    intro e he k hk
    obtain ⟨he, hfree⟩ := List.mem_filter.1 he
    rw [← hoff e.1 (by simpa using hfree)]
    exact hbody.freeSlot body e he k hk

lemma HasKinds.freeSlot : (args : List Ty) → {Δ : String → Kind} → {kinds : List Kind} →
    HasKinds P κ Δ args kinds → ∀ e ∈ Ty.freeSlotsList args, ∀ k ∈ e.2, Δ e.1 = k
  | [], _, _, _ => fun e he => by cases he
  | a :: args, Δ, kinds, h => by
    obtain ⟨_, _, _, ha, hargs⟩ := hasKinds_cons_iff.1 h
    intro e he
    rcases List.mem_append.1 he with he | he
    · exact ha.freeSlot a e he
    · exact HasKinds.freeSlot args hargs e he
end

/-- The kind of a free variable satisfies what the recorded kinds do. -/
lemma HasKind.of_freeSlots {q : Kind → Bool} {t : Ty} {Δ : String → Kind} {k : Kind}
    (h : HasKind P κ Δ t k) (hslots : t.freeSlots.all (·.2.any q)) {x : String}
    (hx : x ∈ t.occurrences) : q (Δ x) := by
  rw [← Ty.map_fst_freeSlots] at hx
  obtain ⟨e, he, rfl⟩ := List.mem_map.1 hx
  obtain ⟨a, ha, hq⟩ := (Option.any_eq_true _ _).1 (List.all_eq_true.1 hslots e he)
  rwa [h.freeSlot t e he a ha]

variable {q : Kind → Bool}

mutual
/-- Quantifiers give what they bind kinds that are recorded, or `*` where none is. -/
lemma HasKind.narrow (hP : P .atomic) (hq : q .atomic) : (t : Ty) → {Δ : String → Kind} →
    {k : Kind} → (t.allSchemes fun _ body => body.freeSlots.all (·.2.any q)) → HasKind P κ Δ t k →
    HasKind (fun k => P k ∧ q k) κ Δ t k
  | .con _ _, _, _, _, h => hasKind_con_iff.2 (hasKind_con_iff.1 h)
  | .var _ _ _, _, _, _, h => hasKind_var_iff.2 (hasKind_var_iff.1 h)
  | .app head args, Δ, k, hall, h => by
    obtain ⟨hhead, hargs⟩ := Ty.allSchemes_app.1 hall
    by_cases harrow : head.isArrowConstructor ∧ args.length = 2
    · obtain ⟨⟨_, hkhead⟩, hkargs, rfl⟩ := (hasKind_arrow_iff harrow).1 h
      refine (hasKind_arrow_iff harrow).2 ⟨⟨_, hkhead.narrow hP hq head hhead⟩, ?_, rfl⟩
      exact hasKinds_atomic_iff.1
        (HasKinds.narrow hP hq args hargs (hasKinds_atomic_iff.2 hkargs))
    · obtain ⟨⟨kinds, hkhead, hkargs⟩, hflat⟩ := (hasKind_app_iff harrow).1 h
      exact (hasKind_app_iff harrow).2 ⟨⟨kinds, hkhead.narrow hP hq head hhead,
        HasKinds.narrow hP hq args hargs hkargs⟩, hflat⟩
  | .scheme vars body, Δ, k, hall, h => by
    obtain ⟨hslots, hbody⟩ := Ty.allSchemes_scheme.1 hall
    obtain ⟨⟨Δ', hoff, hon, hkbody⟩, rfl⟩ := hasKind_scheme_iff.1 h
    have hkbody' := hkbody.narrow hP hq body hbody
    -- What is bound and does not occur may have any kind.
    refine hasKind_scheme_iff.2
      ⟨⟨fun x => if x ∈ vars ∧ x ∉ body.occurrences then .atomic else Δ' x, fun x hx => ?_,
        fun x hx => ?_,
        HasKind.imp (fun _ hk => hk) body (fun _ _ => rfl) (fun x hx => ?_) hkbody'⟩, rfl⟩
    · exact (if_neg fun h => hx h.1).trans (hoff x hx)
    · dsimp only
      split
      · exact ⟨hP, hq⟩
      · rename_i hnot
        exact ⟨hon x hx, hkbody.of_freeSlots hslots (by_contra fun hfree => hnot ⟨hx, hfree⟩)⟩
    · exact if_neg fun h => h.2 hx

lemma HasKinds.narrow (hP : P .atomic) (hq : q .atomic) : (args : List Ty) → {Δ : String → Kind} →
    {kinds : List Kind} → (Ty.allSchemesList (fun _ body => body.freeSlots.all (·.2.any q)) args) →
    HasKinds P κ Δ args kinds → HasKinds (fun k => P k ∧ q k) κ Δ args kinds
  | [], _, _, _, h => by
    cases h
    exact .nil
  | a :: args, Δ, kinds, hall, h => by
    obtain ⟨ha, hargs⟩ := Ty.allSchemesList_cons.1 hall
    cases h with
    | cons hka hkargs =>
      exact .cons (hka.narrow hP hq a ha) (HasKinds.narrow hP hq args hargs hkargs)
end

end Slots

/-! ### Ascriptions -/

section Ascriptions

variable {scope scope' : Scope Kind}

mutual
/-- The walk over a type asks for nothing but the kinds of constructors in scope. -/
lemma Ty.kindConstraints_congr (h : ∀ c, scope'.lookup c = scope.lookup c) (unscoped : Unscoped)
    (site : Option Nat) : (t : Ty) → (place : Place) →
    t.kindConstraints ⟨scope', unscoped, site⟩ place =
      t.kindConstraints ⟨scope, unscoped, site⟩ place
  | .con name slot, _ => by
    simp only [kindConstraints, constructorKind, h]
    rfl
  | .var _ _ _, _ => rfl
  | .app head args, _ => by
    simp only [kindConstraints, kindConstraints_congr h unscoped site head,
      kindConstraintsList_congr h unscoped site args, operandConstraints_congr h unscoped site args]
    rfl
  | .scheme vars body, _ => by
    simp only [kindConstraints, kindConstraints_congr h unscoped site body]
    rfl

lemma Ty.kindConstraintsList_congr (h : ∀ c, scope'.lookup c = scope.lookup c)
    (unscoped : Unscoped) (site : Option Nat) : (args : List Ty) → (place : Place) → (i : Nat) →
    kindConstraintsList ⟨scope', unscoped, site⟩ place i args =
      kindConstraintsList ⟨scope, unscoped, site⟩ place i args
  | [], _, _ => rfl
  | a :: args, _, _ => by
    simp only [kindConstraintsList, kindConstraints_congr h unscoped site a,
      kindConstraintsList_congr h unscoped site args]

lemma Ty.operandConstraints_congr (h : ∀ c, scope'.lookup c = scope.lookup c)
    (unscoped : Unscoped) (site : Option Nat) : (args : List Ty) → (place : Place) → (i : Nat) →
    operandConstraints ⟨scope', unscoped, site⟩ place i args =
      operandConstraints ⟨scope, unscoped, site⟩ place i args
  | [], _, _ => rfl
  | a :: args, _, _ => by
    simp only [operandConstraints, kindConstraints_congr h unscoped site a,
      operandConstraints_congr h unscoped site args]
    rfl
end

lemma checkAscription_congr (h : ∀ c, scope'.lookup c = scope.lookup c) (t : Ty) :
    checkAscription scope' t = checkAscription scope t := by
  simp only [checkAscription, inferAscription, Ty.kindConstraints_congr h]
  rfl

lemma demandAtomic_congr (h : ∀ c, scope'.lookup c = scope.lookup c) (unscoped : Unscoped)
    (site : Option Nat) (origin : KindOrigin) (types : List Ty) (place : Place) (i : Nat) :
    demandAtomic ⟨scope', unscoped, site⟩ origin place i types =
      demandAtomic ⟨scope, unscoped, site⟩ origin place i types := by
  induction types generalizing i with
  | nil => rfl
  | cons t types ih =>
    simp only [demandAtomic, Ty.kindConstraints_congr h unscoped site t, ih]
    rfl

lemma groupConstraints_congr (h : ∀ c, scope'.lookup c = scope.lookup c) (group : List Datatype)
    (site : Nat) : groupConstraints scope' group site = groupConstraints scope group site := by
  induction group generalizing site with
  | nil => rfl
  | cons d group ih =>
    simp only [groupConstraints, Datatype.kindConstraints, demandAtomic_congr h, ih]

/-- What is found out about a group depends on what was declared before through its kinds only. -/
lemma inferGroup_congr (h : ∀ c, scope'.lookup c = scope.lookup c) (group : List Datatype) :
    inferGroup scope' group = inferGroup scope group := by
  simp only [inferGroup, groupConstraints_congr h]

/-- An ascription that passes its check has kind `*` with the kinds that are found for it. -/
lemma checkAscription_sound (hscope : ∀ c k, scope.lookup c = some k → k.IsGround) {t : Ty}
    (ht : t.Fits (· ∈ t.variableNames)) (hclosed : t.allSchemes Ty.closedScheme)
    {found : List Kind} (h : (checkAscription scope t).2 = .ok found) :
    ∃ Δ : String → Kind, (∀ x, (Δ x).IsGround) ∧
      HasKind IsGround scope.kindOf Δ (t.fill found).1 .atomic := by
  obtain ⟨k, s, settled, hrun, hsettle, rfl⟩ := checkAscription_eq_ok h
  obtain ⟨hleads, hs, hk⟩ := Ty.kindConstraints_keeps t ht.toAdmits (bounded_initial hscope) hrun
  have hbounded : (s.equated ⟨scope, .introduce, none⟩ k .atomic .ascription).Bounded scope :=
    hs.equated _ hk (isGround_atomic.below _) _
  obtain ⟨hunified, hsettled⟩ := hbounded.settle_eq_ok hsettle
  generalize hs' : s.equated ⟨scope, .introduce, none⟩ k .atomic .ascription = s' at *
  have hground := hbounded.isGround_solution
  have hsolved : Unified s'.solution s'.equations := hbounded.unified_solution hunified
  -- The solution gives the variables in scope at the end their kinds.
  let Δ : String → Kind := fun x => bindAll s'.solution ((s.scope.lookup x).getD .atomic)
  have hm : Models (· ∈ t.variableNames) scope s'.solution scope.kindOf Δ s := by
    refine ⟨fun v => (hground v).1, fun {c a} hc ha => ?_, fun {x a} _ ha => ?_, fun e he => ?_⟩
    · rw [found?, hleads.new (lookup_initial c) hc, Option.none_or] at ha
      rw [Scope.kindOf_of_lookup ha, (hscope c a ha).bindAll_eq]
    · simp only [Δ, ha, Option.getD_some]
    · refine hsolved e ?_
      rw [← hs']
      exact List.mem_append_left _ he
  obtain ⟨new, hleaves, hdelivers⟩ := Ty.kindConstraints_sound (P := IsGround) t ht
    (fun _ => hclosed) (bounded_initial hscope) hrun
  obtain ⟨t', hfill, hkind⟩ := hdelivers hground hm []
  have hfound : s.leaves.map (fun leaf => settled leaf.kind) =
      new.map (fun leaf => bindAll s'.solution leaf.kind) ++ [] := by
    rw [hleaves, List.append_nil]
    refine List.map_congr_left fun leaf hleaf => hsettled _ ?_
    exact (hs.leaves leaf (by rw [hleaves]; exact List.mem_append_right _ hleaf)).1
  have hatomic : bindAll s'.solution k = .atomic := by
    have hequation := hsolved ⟨k, .atomic, ⟨none, .ascription⟩⟩ (by
      rw [← hs']
      exact List.mem_append_right _ List.mem_cons_self)
    exact hequation
  refine ⟨Δ, fun x => isGround_bindAll hground ?_, ?_⟩
  · cases hx : s.scope.lookup x with
    | none => rfl
    | some a => exact (hs.scope hx).1
  · rw [hfound, hfill, ← hatomic]
    exact hkind

end Ascriptions

/-! ### Groups -/

/-- The datatypes of a group have kind `*` with the kinds that are found for them. -/
lemma inferGroup_sound {base : Scope Kind} {group : List Datatype} (h : IsProper base group)
    {found : GroupKinds} (hok : inferGroup base group = .ok found) :
    ∀ d ∈ (fillDatatypes group found.recorded).1, ∃ Δ : String → Kind, (∀ x, (Δ x).IsGround) ∧
      ∀ t ∈ d.types, HasKind IsGround (base.insertAll found.declared).kindOf Δ t .atomic := by
  obtain ⟨leaves, s, Δ₀, hwalk, hunified, rfl⟩ := inferGroup_eq_ok h hok
  have hground := hwalk.bounded.isGround_solution
  have hsolved := hwalk.bounded.unified_solution hunified
  have hm : Models (IsGroupVariable group) base s.solution
      (base.insertAll (foundKinds group leaves (bindAll s.solution)).declared).kindOf
      (fun _ => .atomic) s := by
    refine ⟨fun v => (hground v).1, fun {c k} _ hk => ?_, fun {x k} hx hk => ?_, hsolved⟩
    · refine Scope.kindOf_of_lookup ?_
      rw [Scope.lookup_insertAll, find?_foundKinds]
      rw [found?, hwalk.scope, Option.or_eq_some_iff] at hk
      rcases hk with hk | ⟨hnone, hk⟩
      · rw [hk]
        rfl
      · rw [hnone, hk, (h.base c k hk).bindAll_eq]
        rfl
    · rw [hwalk.scope, h.not_in_scope x hx] at hk
      cases hk
  obtain ⟨group', hfill, hkinds⟩ := hwalk.sound hground hm []
  have hrecorded : (foundKinds group leaves (bindAll s.solution)).recorded =
      leaves.flatten.map (fun leaf => bindAll s.solution leaf.kind) ++ [] := by
    rw [GroupKinds.recorded, foundKinds, ← List.map_flatten, List.map_map, List.append_nil]
    rfl
  rw [hrecorded, hfill]
  intro d hd
  obtain ⟨i, hi⟩ := List.mem_iff_getElem?.1 hd
  exact ⟨_, fun x => isGround_bindAll hground (hwalk.below i x).1, hkinds i d hi⟩

/-! ### Well-kinded types and inference -/

/-- A datatype with one field. -/
def wrapper (name : String) (t : Ty) : Datatype := ⟨.con name none, [⟨name, [t]⟩], {}⟩

section Wrapper

variable {scope : Scope Kind} {t : Ty} {name : String}

lemma mem_groupTypes_wrapper {u : Ty} :
    u ∈ groupTypes [wrapper name t] ↔ u = .con name none ∨ u = t :=
  List.mem_pair

lemma mem_declaredNames_wrapper {c : String} : c ∈ declaredNames [wrapper name t] ↔ c = name :=
  List.mem_singleton

lemma isProper_wrapper (hscope : ∀ c k, scope.lookup c = some k → k.IsGround)
    (ht : t.Fits (· ∈ t.variableNames)) (hvar : name ∉ t.variableNames) :
    IsProper scope [wrapper name t] := by
  have hvars {x : String} (hx : IsGroupVariable [wrapper name t] x) : x ∈ t.variableNames := by
    obtain ⟨u, hu, hx⟩ := hx
    rcases mem_groupTypes_wrapper.1 hu with rfl | rfl
    · cases hx
    · exact hx
  refine ⟨hscope, fun u hu k hk => ?_, fun u hu c hc hv => ?_⟩
  · rcases mem_groupTypes_wrapper.1 hu with rfl | rfl
    · cases hk
    · exact ht.slot k hk
  · rcases mem_groupTypes_wrapper.1 hu with rfl | rfl
    · obtain rfl := List.mem_singleton.1 hc
      exact hvar (hvars hv)
    · exact ht.con c hc (hvars hv)

lemma WellKinded.isScoped_wrapper (h : WellKinded IsGround scope t) (hclosed : t.occurrences = []) :
    IsScoped scope [wrapper name t] where
  head d hd := by
    obtain rfl := List.mem_singleton.1 hd
    exact ⟨name, none, .inl rfl⟩
  con u hu c hc := by
    rcases mem_groupTypes_wrapper.1 hu with rfl | rfl
    · exact .inl hc
    · exact .inr (h.known c hc)
  var d hd u hu x hx := by
    obtain rfl := List.mem_singleton.1 hd
    rw [Ty.freeVars, NameSet.mem_ofList] at hx
    rcases List.mem_pair.1 hu with rfl | rfl
    · cases hx
    · rw [hclosed] at hx
      cases hx

lemma WellKinded.isAssignment_wrapper (hscope : ∀ c k, scope.lookup c = some k → k.IsGround)
    (h : WellKinded IsGround scope t) (hcon : name ∉ t.constructorNames) :
    ∃ κ Δ, IsAssignment IsGround scope [wrapper name t] κ Δ := by
  obtain ⟨Δ, hΔ, hkind⟩ := h.kinded
  refine ⟨fun c => if c = name then .atomic else (scope.lookup c).getD .atomic, fun _ => Δ,
    fun c => ?_, fun _ => hΔ, fun c hc k hk => ?_, fun i d hd u hu => ?_⟩
  · split
    · exact isGround_atomic
    · cases hk : scope.lookup c with
      | none => exact isGround_atomic
      | some k => exact hscope c k hk
  · rw [if_neg fun heq => hc (mem_declaredNames_wrapper.2 heq), hk, Option.getD_some]
  · obtain rfl := List.mem_singleton.1 (List.mem_of_getElem? hd)
    rcases List.mem_pair.1 hu with rfl | rfl
    · exact hasKind_con_iff.2 ⟨by simp, if_pos rfl⟩
    · refine HasKind.imp (fun _ hk => hk) u (fun c hc => ?_) (fun _ _ => rfl) hkind
      obtain ⟨k, hk⟩ := Option.isSome_iff_exists.1 (h.known c hc)
      have hne : c ≠ name := fun heq => hcon (heq ▸ hc)
      rw [if_neg hne, Scope.kindOf_of_lookup hk, hk, Option.getD_some]

/-- A closed type is well kinded exactly if kind inference accepts a datatype that has it for a
field. -/
lemma wellKinded_iff_inferGroup (hscope : ∀ c k, scope.lookup c = some k → k.IsGround)
    (ht : t.Fits (· ∈ t.variableNames)) (hclosed : t.occurrences = [])
    (hcon : name ∉ t.constructorNames) (hvar : name ∉ t.variableNames) :
    WellKinded IsGround scope t ↔ ∃ found, inferGroup scope [wrapper name t] = .ok found := by
  rw [inferGroup_isOk_iff (isProper_wrapper hscope ht hvar)]
  constructor
  · exact fun h => ⟨h.isScoped_wrapper hclosed, h.isAssignment_wrapper hscope hcon⟩
  · rintro ⟨hscoped, κ, Δ, hassign⟩
    have hdeclared {c : String} (hc : c ∈ t.constructorNames) :
        c ∉ declaredNames [wrapper name t] := fun hmem =>
      hcon (mem_declaredNames_wrapper.1 hmem ▸ hc)
    have hknown : ∀ c ∈ t.constructorNames, (scope.lookup c).isSome := fun c hc =>
      (hscoped.con t (mem_groupTypes_wrapper.2 (.inr rfl)) c hc).resolve_left (hdeclared hc)
    refine ⟨hknown, Δ 0, hassign.var 0, ?_⟩
    refine HasKind.imp (fun _ hk => hk) t (fun c hc => ?_) (fun _ _ => rfl)
      (hassign.atomic 0 _ rfl t (List.mem_pair.2 (.inr rfl)))
    obtain ⟨k, hk⟩ := Option.isSome_iff_exists.1 (hknown c hc)
    rw [Scope.kindOf_of_lookup hk, hassign.base c (hdeclared hc) k hk]

end Wrapper

end LetPoly
