import Mathlib
import LetPoly.Proofs.Kinding.Places

/-!
# Principal kinds

Kind inference for a group of datatypes succeeds exactly if the group is well scoped and some
assignment of ground kinds makes every head and every field a type of kind `*`. It then finds the
most general assignment, with `*` for all that this leaves open.
-/

namespace LetPoly

open Kind Kinding

/-- An assignment of kinds that may be left open, of which all other assignments are instances. -/
structure IsMostGeneral (base : Scope Kind) (group : List Datatype) (κ₀ : String → Kind)
    (Δ₀ : Nat → String → Kind) : Prop where
  assignment : IsAssignment (fun k => k.isFlat) base group κ₀ Δ₀
  general {κ : String → Kind} {Δ : Nat → String → Kind} :
    IsAssignment (fun k => k.isFlat) base group κ Δ → ∃ θ : KindVar → Kind, (∀ v, (θ v).isFlat) ∧
      (∀ name ∈ declaredNames group, bindAll θ (κ₀ name) = κ name) ∧
      ∀ i d, group[i]? = some d → ∀ x ∈ d.paramNames, bindAll θ (Δ₀ i x) = Δ i x

/-! ### Solving -/

namespace Kinding

variable {base : Scope Kind} {s : Kinding}

/-- The most general solution of the equations, with `*` for what it leaves open. -/
def solution (s : Kinding) (v : KindVar) : Kind := (mgu s.equations v).close

lemma Bounded.flat (hs : s.Bounded base) : ∀ e ∈ s.equations, e.Flat := fun e he =>
  ⟨(hs.equations e he).1.1, (hs.equations e he).2.1⟩

lemma Bounded.isGround_solution (hs : s.Bounded base) (v : KindVar) : (s.solution v).IsGround := by
  rw [solution, close_eq_bindAll (isFlat_mgu hs.flat v)]
  exact isGround_bindAll (fun _ => isGround_atomic) (isFlat_mgu hs.flat v)

lemma Bounded.bindAll_solution (hs : s.Bounded base) {k : Kind} (hk : k.isFlat) :
    bindAll s.solution k = (bindAll (mgu s.equations) k).close := by
  have hmgu := isFlat_mgu hs.flat
  rw [close_eq_bindAll (isFlat_bindAll hmgu hk), bindAll_bindAll hmgu (fun _ => rfl) hk]
  exact bindAll_congr k fun v _ => close_eq_bindAll (hmgu v)

lemma Bounded.settle_eq_ok (hs : s.Bounded base) {settled : Kind → Kind}
    (h : s.settle = .ok settled) :
    Unified (mgu s.equations) s.equations ∧ ∀ k, k.isFlat → settled k = bindAll s.solution k := by
  rw [settle] at h
  split at h
  · cases h
  · next hnone =>
    cases h
    refine ⟨mgu_unified hs.flat hnone, fun k hk => ?_⟩
    exact (congrArg close (applyBindings_eq_bindAll hs.flat hk)).trans (hs.bindAll_solution hk).symm

lemma Bounded.settle_of_unified (hs : s.Bounded base) {θ : KindVar → Kind}
    (hθ : ∀ v, (θ v).isFlat) (h : Unified θ s.equations) : ∃ settled, s.settle = .ok settled := by
  rw [settle, solve_of_unified hs.flat hθ h]
  exact ⟨_, rfl⟩

lemma Bounded.unified_solution (hs : s.Bounded base)
    (h : Unified (mgu s.equations) s.equations) : Unified s.solution s.equations := by
  intro e he
  rw [hs.bindAll_solution (hs.flat e he).1, hs.bindAll_solution (hs.flat e he).2, h e he]

end Kinding

/-! ### Heads -/

namespace Kinding

/-- The names that are brought into scope, with their kinds. -/
def broughtKinds (s : Kinding) : List String → List (String × Kind)
  | [] => []
  | name :: names => (name, .var ⟨s.next⟩) :: (s.introduced name).broughtKinds names

lemma isFlat_of_mem_broughtKinds {s : Kinding} {names : List String} {node : String × Kind}
    (h : node ∈ s.broughtKinds names) : node.2.isFlat := by
  induction names generalizing s with
  | nil => cases h
  | cons name names ih =>
    rcases List.mem_cons.1 h with rfl | h
    · rfl
    · exact ih h

lemma scope_brought (s : Kinding) (names : List String) : (s.brought names).scope =
    (s.broughtKinds names).foldl (fun scope entry => scope.insert entry.1 entry.2) s.scope := by
  induction names generalizing s with
  | nil => rfl
  | cons name names ih => exact ih (s.introduced name)

end Kinding

lemma declareHeads_eq_ok {ds : List Datatype} {site : Nat} {s s' : Kinding}
    {heads : List (String × Kind)} :
    declareHeads ds site s = .ok heads s' ↔ (∀ d ∈ ds, d.declaredName?.isSome) ∧
      s.broughtKinds (declaredNames ds) = heads ∧ s.brought (declaredNames ds) = s' := by
  induction ds generalizing site s heads with
  | nil => simp [declareHeads, pure_eq_ok, declaredNames, broughtKinds, brought]
  | cons d ds ih =>
    cases hname : d.declaredName? with
    | none =>
      simp only [declareHeads, hname, List.forall_mem_cons, Option.isSome_none, Bool.false_eq_true,
        false_and, iff_false]
      exact fun h => by cases h
    | some name =>
      have hnames : declaredNames (d :: ds) = name :: declaredNames ds := by
        rw [declaredNames, List.filterMap_cons_some hname]
        rfl
      have hrun : declareHeads (d :: ds) site s = (do
          let heads ← declareHeads ds (site + 1)
          return (name, .var ⟨s.next⟩) :: heads : KindM _) (s.introduced name) := by
        rw [declareHeads, hname]
        rfl
      simp only [hrun, hnames, bind_eq_ok, pure_eq_ok, List.forall_mem_cons, hname,
        Option.isSome_some, true_and, broughtKinds, brought_cons]
      constructor
      · rintro ⟨_, _, hmore, rfl, rfl⟩
        obtain ⟨hvalid, rfl, rfl⟩ := ih.1 hmore
        exact ⟨hvalid, rfl, rfl⟩
      · rintro ⟨hvalid, rfl, rfl⟩
        exact ⟨_, _, ih.2 ⟨hvalid, rfl, rfl⟩, rfl, rfl⟩

lemma Datatype.declaredName?_eq_some {d : Datatype} {name : String} :
    d.declaredName? = some name ↔ ∃ slot, d.head = .con name slot ∨
      ∃ args, d.head = .app (.con name slot) args := by
  rw [Datatype.declaredName?]
  split
  · next name' slot hhead => simp [hhead, eq_comm]
  · next name' slot args hhead => simp [hhead, eq_comm]
  · next hcon happ =>
    refine ⟨nofun, ?_⟩
    rintro ⟨slot, h | ⟨args, h⟩⟩
    · exact absurd h (hcon name slot)
    · exact absurd h (happ name slot args)

lemma mem_constructorNames_of_declared {group : List Datatype} {name : String}
    (h : name ∈ declaredNames group) : ∃ t ∈ groupTypes group, name ∈ t.constructorNames := by
  obtain ⟨d, hd, hname⟩ := List.mem_filterMap.1 h
  refine ⟨d.head, List.mem_flatMap.2 ⟨d, hd, List.mem_cons_self⟩, ?_⟩
  obtain ⟨slot, hhead | ⟨args, hhead⟩⟩ := Datatype.declaredName?_eq_some.1 hname
  · simp [hhead, Ty.constructorNames]
  · simp [hhead, Ty.constructorNames]

/-! ### Groups -/

section Group

variable {base : Scope Kind} {group : List Datatype}

/-- The state once the heads of a group are in scope. -/
def headsDeclared (group : List Datatype) : Kinding := Kinding.initial.brought (declaredNames group)

/-- The names of the variables of a group. -/
def IsGroupVariable (group : List Datatype) (x : String) : Prop :=
  ∃ t ∈ groupTypes group, x ∈ t.variableNames

lemma lookup_initial (x : String) : Kinding.initial.scope.lookup x = none := rfl

lemma bounded_initial (h : ∀ name k, base.lookup name = some k → k.IsGround) :
    Kinding.initial.Bounded base where
  base := h _ _
  scope {x k} hk := by
    rw [lookup_initial] at hk
    cases hk
  equations e he := by cases he
  leaves leaf hleaf := by cases hleaf

/-- Where nothing is in scope, all names may be taken for those of variables. -/
lemma models_initial (base : Scope Kind) : Models (fun _ => True) base (fun _ => .atomic)
    (fun _ => .atomic) (fun _ => .atomic) Kinding.initial where
  flat _ := rfl
  con hc := absurd trivial hc
  var {x k} _ hk := by
    rw [lookup_initial] at hk
    cases hk
  unified e he := by cases he

/-- What a group is made of: variables and constructors have different names, and the kinds recorded
in it and those of the constructors declared before are ground. -/
structure IsProper (base : Scope Kind) (group : List Datatype) : Prop where
  base : ∀ name k, base.lookup name = some k → k.IsGround
  slot : ∀ t ∈ groupTypes group, ∀ k ∈ t.recordedKinds, k.IsGround
  names : ∀ t ∈ groupTypes group, ∀ c ∈ t.constructorNames, ¬ IsGroupVariable group c

namespace IsProper

lemma fits (h : IsProper base group) : ∀ d ∈ group, Ty.FitsList (IsGroupVariable group) d.types := by
  intro d hd
  refine Ty.fitsList_of_forall fun t ht => ?_
  have hmem : t ∈ groupTypes group := List.mem_flatMap.2 ⟨d, hd, ht⟩
  exact ⟨⟨fun x hx => ⟨t, hmem, hx⟩, h.slot t hmem⟩, h.names t hmem⟩

lemma bounded (h : IsProper base group) : (headsDeclared group).Bounded base :=
  (bounded_initial h.base).brought _

lemma not_in_scope (h : IsProper base group) (x : String) (hx : IsGroupVariable group x) :
    (headsDeclared group).scope.lookup x = none := by
  refine lookup_brought_of_not_mem fun hdeclared => ?_
  obtain ⟨t, ht, hc⟩ := mem_constructorNames_of_declared hdeclared
  exact h.names t ht x hc hx

end IsProper

lemma found?_headsDeclared {name : String} (hname : name ∉ declaredNames group) :
    (headsDeclared group).found? base name = base.lookup name := by
  rw [found?, headsDeclared, lookup_brought_of_not_mem hname]
  rfl

/-- The walk over a group succeeds exactly if the group is well scoped. -/
lemma isScoped_iff (h : IsProper base group) :
    ((∀ d ∈ group, d.declaredName?.isSome) ∧
      ∃ leaves s, groupConstraints base group 0 (headsDeclared group) = .ok leaves s) ↔
      IsScoped base group := by
  rw [groupConstraints_isOk_iff h.fits]
  have hcon : ∀ c, ((headsDeclared group).found? base c).isSome ↔
      c ∈ declaredNames group ∨ (base.lookup c).isSome := by
    intro c
    by_cases hc : c ∈ declaredNames group
    · obtain ⟨v, hv⟩ := lookup_brought_of_mem (s := .initial) hc
      simp [found?, headsDeclared, hv, hc]
    · simp [found?_headsDeclared hc, hc]
  constructor
  · rintro ⟨hheads, hknown⟩
    refine ⟨fun d hd => ?_, fun t ht c hc => ?_, fun d hd t ht x hx => ?_⟩
    · obtain ⟨name, hname⟩ := Option.isSome_iff_exists.1 (hheads d hd)
      obtain ⟨slot, hhead⟩ := Datatype.declaredName?_eq_some.1 hname
      exact ⟨name, slot, hhead⟩
    · obtain ⟨d, hd, ht⟩ := List.mem_flatMap.1 ht
      exact (hcon c).1 ((hknown d hd).1 c (Ty.mem_constructorNamesList.2 ⟨t, ht, hc⟩))
    · by_contra hparam
      have hx : x ∈ t.occurrences := NameSet.mem_ofList.1 hx
      have hscope := (hknown d hd).2 x (List.mem_filter.2
        ⟨Ty.mem_occurrencesList.2 ⟨t, ht, hx⟩, decide_eq_true hparam⟩)
      rw [h.not_in_scope x ⟨t, List.mem_flatMap.2 ⟨d, hd, ht⟩,
        Ty.occurrences_subset_variableNames t hx⟩] at hscope
      cases hscope
  · intro hscoped
    refine ⟨fun d hd => ?_, fun d hd => ⟨fun c hc => ?_, fun x hx => ?_⟩⟩
    · obtain ⟨name, slot, hhead⟩ := hscoped.head d hd
      exact Option.isSome_of_eq_some (Datatype.declaredName?_eq_some.2 ⟨slot, hhead⟩)
    · obtain ⟨t, ht, hc⟩ := Ty.mem_constructorNamesList.1 hc
      exact (hcon c).2 (hscoped.con t (List.mem_flatMap.2 ⟨d, hd, ht⟩) c hc)
    · obtain ⟨hx, hparam⟩ := List.mem_filter.1 hx
      obtain ⟨t, ht, hx⟩ := Ty.mem_occurrencesList.1 hx
      exact absurd (hscoped.var d hd t ht x (NameSet.mem_ofList.2 hx)) (of_decide_eq_true hparam)

/-- The kinds that a substitution gives the constructors of a group and those declared before. -/
def constructorKinds (base : Scope Kind) (group : List Datatype) (θ : KindVar → Kind)
    (name : String) : Kind :=
  bindAll θ (((headsDeclared group).found? base name).getD .atomic)

variable {leaves : List (List Leaf)} {s : Kinding} {Δ₀ : Nat → String → Kind}
  {P : Kind → Prop}

/-- A substitution that makes the equations hold makes an assignment of what the walk gives. -/
lemma GroupWalk.isAssignment (h : IsProper base group)
    (hwalk : GroupWalk (IsGroupVariable group) base group leaves (headsDeclared group) s Δ₀)
    {θ : KindVar → Kind} (hθ : ∀ v, (θ v).isFlat) (hP : ∀ k, k.isFlat → P (bindAll θ k))
    (hunified : Unified θ s.equations) :
    IsAssignment P base group (constructorKinds base group θ)
      fun i x => bindAll θ (Δ₀ i x) where
  con name := by
    refine hP _ ?_
    cases hk : (headsDeclared group).found? base name with
    | none => rfl
    | some k => exact (h.bounded.found? hk).1
  var i x := hP _ (hwalk.below i x).1
  base name hname k hk := by
    rw [constructorKinds, found?_headsDeclared hname, hk]
    exact (h.base name k hk).bindAll_eq θ
  atomic i d hd t ht := by
    have hm : Models (IsGroupVariable group) base θ (constructorKinds base group θ)
        (fun _ => .atomic) s := by
      refine ⟨hθ, fun {c k} _ hk => ?_, fun {x k} hx hk => ?_, hunified⟩
      · rw [found?, hwalk.scope, ← found?] at hk
        rw [constructorKinds, hk, Option.getD_some]
      · rw [hwalk.scope, h.not_in_scope x hx] at hk
        cases hk
    have hvar : ∀ v, P (θ v) := fun v => hP (.var v) rfl
    obtain ⟨group', hfill, hkinds⟩ := hwalk.sound hvar hm []
    obtain ⟨d', hd', kinds, rest, hfilled⟩ := fillDatatypes_getElem? hfill hd
    have htypes := d.fillList_types kinds
    rw [hfilled] at htypes
    have := hkinds i d' hd'
    rw [show d'.types = (Ty.fillList d.types kinds).1 by rw [htypes]] at this
    exact HasKind.of_fillList d.types this t ht

/-- An assignment tells of a substitution that makes the equations hold. -/
lemma GroupWalk.exists_unified (h : IsProper base group)
    (hwalk : GroupWalk (IsGroupVariable group) base group leaves (headsDeclared group) s Δ₀)
    {κ : String → Kind} {Δ : Nat → String → Kind} (hP : ∀ k, P k → k.isFlat)
    (hassign : IsAssignment P base group κ Δ) :
    ∃ θ : KindVar → Kind, (∀ v, (θ v).isFlat) ∧ Unified θ s.equations ∧
      (∀ name ∈ declaredNames group, constructorKinds base group θ name = κ name) ∧
      ∀ i d, group[i]? = some d → ∀ x ∈ d.paramNames, bindAll θ (Δ₀ i x) = Δ i x := by
  -- the heads are brought in like variables
  let κ' : String → Kind := fun name => if name ∈ declaredNames group then κ name else .atomic
  have hκ' : ∀ name ∈ declaredNames group, κ' name = κ name := fun name hname => if_pos hname
  have hoff : ∀ name ∉ declaredNames group, κ' name = .atomic := fun name hname => if_neg hname
  obtain ⟨θ₁, -, hheads⟩ := (models_initial base).brought (bounded_initial h.base) hoff fun name hname =>
    ⟨trivial, by rw [hκ' name hname]; exact hP _ (hassign.con name)⟩
  have hm : Models (IsGroupVariable group) base θ₁ κ (fun _ => .atomic) (headsDeclared group) := by
    refine ⟨hheads.flat, fun {c k} _ hk => ?_, fun {x k} hx hk => ?_, hheads.unified⟩
    · by_cases hc : c ∈ declaredNames group
      · obtain ⟨v, hv⟩ := lookup_brought_of_mem (s := .initial) hc
        rw [found?, headsDeclared, hv] at hk
        cases hk
        rw [← hheads.var trivial hv, hκ' c hc]
      · rw [found?_headsDeclared hc] at hk
        rw [hassign.base c hc k hk, (h.base c k hk).bindAll_eq]
    · rw [h.not_in_scope x hx] at hk
      cases hk
  obtain ⟨θ, -, hm', hparams⟩ := hwalk.complete hP hm (fun i x => hP _ (hassign.var i x))
    hassign.atomic
  refine ⟨θ, hm'.flat, hm'.unified, fun name hname => ?_, hparams⟩
  obtain ⟨v, hv⟩ := lookup_brought_of_mem (s := .initial) hname
  have hfound : (headsDeclared group).found? base name = some (.var v) := by
    rw [found?, headsDeclared, hv]
    rfl
  have hname' : ¬ IsGroupVariable group name := by
    obtain ⟨t, ht, hc⟩ := mem_constructorNames_of_declared hname
    exact h.names t ht name hc
  rw [constructorKinds, hfound, Option.getD_some]
  refine (hm'.con hname' ?_).symm
  rwa [found?, hwalk.scope, ← found?]

/-- The walk finds the most general assignment if there is any. -/
lemma GroupWalk.isMostGeneral (h : IsProper base group)
    (hwalk : GroupWalk (IsGroupVariable group) base group leaves (headsDeclared group) s Δ₀)
    (hunified : Unified (mgu s.equations) s.equations) :
    IsMostGeneral base group (constructorKinds base group (mgu s.equations))
      fun i x => bindAll (mgu s.equations) (Δ₀ i x) := by
  have hmgu := isFlat_mgu hwalk.bounded.flat
  refine ⟨hwalk.isAssignment h hmgu (fun k hk => isFlat_bindAll hmgu hk) hunified, ?_⟩
  intro κ Δ hassign
  obtain ⟨θ, hθ, hsolves, hcon, hparam⟩ := hwalk.exists_unified h (fun _ hk => hk) hassign
  -- every solution goes through the most general one
  have hthrough : ∀ k : Kind, k.isFlat → bindAll θ (bindAll (mgu s.equations) k) = bindAll θ k := by
    intro k hk
    rw [bindAll_bindAll hmgu hθ hk]
    exact bindAll_congr k fun v _ => mgu_absorbed hwalk.bounded.flat hθ hsolves v
  refine ⟨θ, hθ, fun name hname => ?_, fun i d hd x hx => ?_⟩
  · rw [← hcon name hname, constructorKinds, constructorKinds, hthrough]
    cases hk : (headsDeclared group).found? base name with
    | none => rfl
    | some k => exact (h.bounded.found? hk).1
  · rw [← hparam i d hd x hx, hthrough _ (hwalk.below i x).1]

/-! ### What inference finds -/

lemma Table.ofList_map {α β : Type} (f : α → β) (l : List (String × α)) :
    Table.ofList (l.map fun entry => (entry.1, f entry.2)) = (Table.ofList l).map f := by
  have hfoldl : ∀ (l : List (String × α)) (t : Table α),
      (l.map fun entry => (entry.1, f entry.2)).foldl (fun t entry => t.insert entry.1 entry.2)
        (t.map f) = (l.foldl (fun t entry => t.insert entry.1 entry.2) t).map f := by
    intro l
    induction l with
    | nil => intro t; rfl
    | cons entry l ih =>
      intro t
      rw [List.map_cons, List.foldl_cons, List.foldl_cons, ← ih, Table.map_insert]
  exact hfoldl l .empty

lemma lookup_headsDeclared (group : List Datatype) (name : String) :
    (headsDeclared group).scope.lookup name =
      (Table.ofList (Kinding.initial.broughtKinds (declaredNames group))).find? name := by
  have hfoldl : ∀ (l : List (String × Kind)) (t : Table Kind),
      l.foldl (fun scope entry => scope.insert entry.1 entry.2) (Scope.ofTable t) =
        Scope.ofTable (l.foldl (fun t entry => t.insert entry.1 entry.2) t) := by
    intro l
    induction l with
    | nil => intro t; rfl
    | cons entry l ih => intro t; exact ih _
  rw [headsDeclared, scope_brought]
  refine (congrArg (·.lookup name) (hfoldl _ .empty)).trans ?_
  rw [Scope.lookup, Scope.ofTable, Scope.tables, List.findSome?_singleton]
  rfl

/-- What is found out about a group once its equations are solved. -/
def foundKinds (group : List Datatype) (leaves : List (List Leaf))
    (settled : Kind → Kind) : GroupKinds :=
  ⟨.ofList ((Kinding.initial.broughtKinds (declaredNames group)).map fun node =>
    (node.1, settled node.2)), leaves.map (·.map (.map settled))⟩

lemma foundKinds_congr (group : List Datatype) {leaves : List (List Leaf)}
    (hflat : ∀ own ∈ leaves, ∀ leaf ∈ own, leaf.kind.isFlat) {settled settled' : Kind → Kind}
    (h : ∀ k, k.isFlat → settled k = settled' k) :
    foundKinds group leaves settled = foundKinds group leaves settled' := by
  rw [foundKinds, foundKinds]
  congr 1
  · congr 1
    refine List.map_congr_left fun node hnode => ?_
    rw [h _ (isFlat_of_mem_broughtKinds hnode)]
  · refine List.map_congr_left fun own hown => List.map_congr_left fun leaf hleaf => ?_
    rw [Leaf.map, Leaf.map, h _ (hflat own hown leaf hleaf)]

lemma find?_foundKinds (group : List Datatype) (leaves : List (List Leaf))
    (settled : Kind → Kind) (name : String) :
    (foundKinds group leaves settled).declared.find? name =
      ((headsDeclared group).scope.lookup name).map settled := by
  rw [lookup_headsDeclared, ← Table.find?_map, ← Table.ofList_map]
  rfl

lemma inferGroup_run (hheads : ∀ d ∈ group, d.declaredName?.isSome)
    (hgroup : groupConstraints base group 0 (headsDeclared group) = .ok leaves s) :
    inferGroup base group = s.settle.map (foundKinds group leaves) := by
  have hwalk : (do
      let heads ← declareHeads group 0
      let leaves ← groupConstraints base group 0
      return (heads, leaves) : KindM _) .initial =
        .ok (Kinding.initial.broughtKinds (declaredNames group), leaves) s := by
    rw [bind_of_ok (declareHeads_eq_ok.2 ⟨hheads, rfl, rfl⟩)]
    exact bind_of_ok hgroup
  rw [inferGroup, hwalk]
  dsimp only
  cases s.settle <;> rfl

lemma walk_of_inferGroup {found : GroupKinds} (h : inferGroup base group = .ok found) :
    (∀ d ∈ group, d.declaredName?.isSome) ∧
      ∃ leaves s, groupConstraints base group 0 (headsDeclared group) = .ok leaves s := by
  rw [inferGroup] at h
  split at h
  · cases h
  · next heads leaves s hwalk =>
    obtain ⟨_, _, hheads, hwalk⟩ := bind_eq_ok.1 hwalk
    obtain ⟨leaves, s, hgroup, -⟩ := bind_eq_ok.1 hwalk
    obtain ⟨hvalid, -, rfl⟩ := declareHeads_eq_ok.1 hheads
    exact ⟨hvalid, leaves, s, hgroup⟩

/-- What a successful inference stands on. -/
lemma inferGroup_eq_ok (h : IsProper base group) {found : GroupKinds}
    (hok : inferGroup base group = .ok found) :
    ∃ leaves s Δ₀, GroupWalk (IsGroupVariable group) base group leaves (headsDeclared group) s Δ₀ ∧
      Unified (mgu s.equations) s.equations ∧
      found = foundKinds group leaves (bindAll s.solution) := by
  obtain ⟨hheads, leaves, s, hgroup⟩ := walk_of_inferGroup hok
  obtain ⟨Δ₀, hwalk⟩ := groupConstraints_walk h.fits h.bounded h.not_in_scope hgroup
  rw [inferGroup_run hheads hgroup] at hok
  cases hsettle : s.settle with
  | error e =>
    rw [hsettle] at hok
    cases hok
  | ok settled =>
    rw [hsettle] at hok
    cases hok
    obtain ⟨hunified, hsettled⟩ := hwalk.bounded.settle_eq_ok hsettle
    exact ⟨leaves, s, Δ₀, hwalk, hunified, foundKinds_congr group hwalk.flat hsettled⟩

/-- Inference succeeds exactly on the groups that are well scoped and well kinded. -/
lemma inferGroup_isOk_iff (h : IsProper base group) :
    (∃ found, inferGroup base group = .ok found) ↔
      IsScoped base group ∧ ∃ κ Δ, IsAssignment IsGround base group κ Δ := by
  constructor
  · rintro ⟨found, hok⟩
    obtain ⟨leaves, s, Δ₀, hwalk, hunified, -⟩ := inferGroup_eq_ok h hok
    have hground := hwalk.bounded.isGround_solution
    exact ⟨(isScoped_iff h).1 (walk_of_inferGroup hok), _, _,
      hwalk.isAssignment h (fun v => (hground v).1) (fun k hk => isGround_bindAll hground hk)
        (hwalk.bounded.unified_solution hunified)⟩
  · rintro ⟨hscoped, κ, Δ, hassign⟩
    obtain ⟨hheads, leaves, s, hgroup⟩ := (isScoped_iff h).2 hscoped
    obtain ⟨Δ₀, hwalk⟩ := groupConstraints_walk h.fits h.bounded h.not_in_scope hgroup
    obtain ⟨θ, hθ, hunified, -⟩ := hwalk.exists_unified h (fun k hk => hk.1) hassign
    obtain ⟨settled, hsettle⟩ := hwalk.bounded.settle_of_unified hθ hunified
    exact ⟨_, by rw [inferGroup_run hheads hgroup, hsettle]; rfl⟩

end Group

/-! ### Principality -/

/-- Kind inference is sound, complete and principal for the kinding rules. -/
theorem inferKinds_principal (base : Scope Kind) (pool : List Datatype) (members : List Nat)
    (hnodup : members.Nodup) (hproper : IsProper base (membersOf pool members)) :
    ((∃ declared, (inferKinds base pool members).2 = .ok declared) ↔
      IsScoped base (membersOf pool members) ∧
        ∃ κ Δ, IsAssignment IsGround base (membersOf pool members) κ Δ) ∧
    ∀ declared, (inferKinds base pool members).2 = .ok declared →
      (∀ name, (declared.find? name).isSome ↔ name ∈ declaredNames (membersOf pool members)) ∧
      (∀ name k, declared.find? name = some k → k.vars = []) ∧
      ∃ κ₀ Δ₀, IsMostGeneral base (membersOf pool members) κ₀ Δ₀ ∧
        (∀ name k, declared.find? name = some k → k = (κ₀ name).close) ∧
        IsAssignment IsGround base (membersOf pool members)
          (fun name => ((declared.find? name).or (base.lookup name)).getD .atomic)
          (fun i x => (Δ₀ i x).close) := by
  refine ⟨?_, fun declared hok => ?_⟩
  · rw [← inferGroup_isOk_iff hproper]
    simp only [inferKinds_eq_ok hnodup]
    exact ⟨fun ⟨_, found, hfound, _⟩ => ⟨found, hfound⟩, fun ⟨found, hfound⟩ => ⟨_, found, hfound, rfl⟩⟩
  obtain ⟨found, hfound, rfl⟩ := (inferKinds_eq_ok hnodup).1 hok
  obtain ⟨leaves, s, Δ₀, hwalk, hunified, rfl⟩ := inferGroup_eq_ok hproper hfound
  have hs := hwalk.bounded
  have hground := hs.isGround_solution
  have hflat : ∀ {name k}, (headsDeclared (membersOf pool members)).scope.lookup name = some k →
      k.isFlat := fun hk => (hproper.bounded.scope hk).1
  refine ⟨fun name => ?_, fun name k hk => ?_, _, _, hwalk.isMostGeneral hproper hunified,
    fun name k hk => ?_, ?_⟩
  · rw [find?_foundKinds, Option.isSome_map]
    by_cases hname : name ∈ declaredNames (membersOf pool members)
    · obtain ⟨v, hv⟩ := lookup_brought_of_mem (s := .initial) hname
      simp [headsDeclared, hv, hname]
    · rw [headsDeclared, lookup_brought_of_not_mem hname, lookup_initial]
      simp [hname]
  · rw [find?_foundKinds, Option.map_eq_some_iff] at hk
    obtain ⟨k, hk, rfl⟩ := hk
    exact (isGround_bindAll hground (hflat hk)).2
  · rw [find?_foundKinds, Option.map_eq_some_iff] at hk
    obtain ⟨k, hk, rfl⟩ := hk
    rw [hs.bindAll_solution (hflat hk), constructorKinds, found?, hk]
    rfl
  · have hassign := hwalk.isAssignment hproper (fun v => (hground v).1)
      (fun k hk => isGround_bindAll hground hk) (hs.unified_solution hunified)
    have hcon : constructorKinds base (membersOf pool members) s.solution = fun name =>
        (((foundKinds (membersOf pool members) leaves (bindAll s.solution)).declared.find? name).or
          (base.lookup name)).getD .atomic := by
      funext name
      rw [find?_foundKinds, constructorKinds, found?]
      cases (headsDeclared (membersOf pool members)).scope.lookup name with
      | some k => rfl
      | none =>
        cases hk : base.lookup name with
        | some k => exact (hproper.base name k hk).bindAll_eq _
        | none => rfl
    rw [← hcon]
    convert hassign using 3 with i x
    exact (hs.bindAll_solution (hwalk.below i x).1).symm

/-- A fixpoint of type constructors next to the lists, in one group. -/
def fixpointAndLists : List Datatype :=
  let f := Ty.rigid "f"
  let a := Ty.rigid "a"
  let fix := Ty.app (.con "Fix" none) [f]
  let list := Ty.app (.con "List" none) [a]
  [⟨fix, [⟨"MkFix", [.app f [fix]]⟩], {}⟩, ⟨list, [⟨"Nil", []⟩, ⟨"Cons", [a, list]⟩], {}⟩]

theorem inferKinds_principal_fixpointAndLists :
    [1, 0].Nodup ∧ IsProper .empty (membersOf fixpointAndLists [1, 0]) ∧
      ∃ κ Δ, IsAssignment IsGround .empty (membersOf fixpointAndLists [1, 0]) κ Δ := by
  have hproper : IsProper .empty (membersOf fixpointAndLists [1, 0]) := by
    refine ⟨fun name k hk => (by cases hk), by decide, ?_⟩
    rintro t ht c hc ⟨t', ht', hx⟩
    revert t ht c hc t' ht' hx
    decide
  have hok : (inferKinds .empty fixpointAndLists [1, 0]).2.isOk := by cbv
  refine ⟨by decide, hproper, ?_⟩
  refine ((inferKinds_principal .empty fixpointAndLists [1, 0] (by decide) hproper).1.1 ?_).2
  cases h : (inferKinds .empty fixpointAndLists [1, 0]).2 with
  | ok declared => exact ⟨declared, rfl⟩
  | error e =>
    rw [h] at hok
    cases hok

end LetPoly
