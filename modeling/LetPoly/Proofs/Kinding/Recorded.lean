import LetPoly.Kinding.Recorded
import LetPoly.Proofs.Kind.Arguments
import LetPoly.Proofs.Kinding.Recording
import LetPoly.Proofs.Ty.Rename

/-!
# Kinds as they are recorded

`HasRecordedKind` states the kinding rules once more, for types with all kinds recorded:
constructors and variables have the kinds in their slots, whatever their names. What has passed kind
inference is well kinded by these rules in all its parts, and `Ty.kindOf`, which looks at no more
than the heads of applications, reads off the kinds that the rules give.
-/

namespace LetPoly

open Kind Kinding

/-! ### The rules -/

mutual
/-- A type has a kind by the kinds that are recorded in it. -/
inductive HasRecordedKind : Ty → Kind → Prop
  | con {name : String} {k : Kind} : HasRecordedKind (.con name (some k)) k
  | var {name : String} {sort : VarSort} {k : Kind} : HasRecordedKind (.var name sort (some k)) k
  | arrow {head a b : Ty} : head.isArrowConstructor → HasRecordedKind head (.ofArity 2) →
    HasRecordedKind a .atomic → HasRecordedKind b .atomic →
    HasRecordedKind (.app head [a, b]) .atomic
  | app {head : Ty} {args : List Ty} {kinds : List Kind} {k : Kind} :
    ¬ (head.isArrowConstructor ∧ args.length = 2) →
    HasRecordedKind head (.function (kinds ++ [k])) → HasRecordedKinds args kinds → k.isFlat →
    HasRecordedKind (.app head args) k
  | scheme {vars : NameSet} {body : Ty} : HasRecordedKind body .atomic →
    HasRecordedKind (.scheme vars body) .atomic

/-- Each type of a list has the kind at its place in the other by the kinds that are recorded in
it. -/
inductive HasRecordedKinds : List Ty → List Kind → Prop
  | nil : HasRecordedKinds [] []
  | cons {a : Ty} {args : List Ty} {k : Kind} {kinds : List Kind} : HasRecordedKind a k →
    HasRecordedKinds args kinds → HasRecordedKinds (a :: args) (k :: kinds)
end

namespace Ty

mutual
/-- The types inside a type, itself included. -/
def parts : Ty → List Ty
  | .con name slot => [.con name slot]
  | .var name sort slot => [.var name sort slot]
  | .app head args => .app head args :: (head.parts ++ partsList args)
  | .scheme vars body => .scheme vars body :: body.parts

/-- The types inside the types of a list, these included. -/
def partsList : List Ty → List Ty
  | [] => []
  | a :: args => a.parts ++ partsList args
end

end Ty

lemma HasRecordedKinds.length_eq {args : List Ty} {kinds : List Kind}
    (h : HasRecordedKinds args kinds) : args.length = kinds.length := by
  induction args generalizing kinds with
  | nil =>
    cases h
    rfl
  | cons a args ih =>
    cases h with
    | cons _ hargs => rw [List.length_cons, List.length_cons, ih hargs]

mutual
/-- All parts of a type that has a kind have one. -/
lemma HasRecordedKind.part {u : Ty} : {t : Ty} → {k : Kind} → HasRecordedKind t k → u ∈ t.parts →
    ∃ k', HasRecordedKind u k'
  | .con _ _, k, h, hu => by
    obtain rfl := List.mem_singleton.1 hu
    exact ⟨k, h⟩
  | .var _ _ _, k, h, hu => by
    obtain rfl := List.mem_singleton.1 hu
    exact ⟨k, h⟩
  | .app head args, k, h, hu => by
    rcases List.mem_cons.1 hu with rfl | hu
    · exact ⟨k, h⟩
    · cases h with
      | arrow _ hhead ha hb =>
        rcases List.mem_append.1 hu with hu | hu
        · exact hhead.part hu
        · exact HasRecordedKinds.part (.cons ha (.cons hb .nil)) hu
      | app _ hhead hargs _ =>
        rcases List.mem_append.1 hu with hu | hu
        · exact hhead.part hu
        · exact hargs.part hu
  | .scheme vars body, k, h, hu => by
    rcases List.mem_cons.1 hu with rfl | hu
    · exact ⟨k, h⟩
    · cases h with
      | scheme hbody => exact hbody.part hu

lemma HasRecordedKinds.part {u : Ty} : {args : List Ty} → {kinds : List Kind} →
    HasRecordedKinds args kinds → u ∈ Ty.partsList args → ∃ k', HasRecordedKind u k'
  | [], _, _, hu => by cases hu
  | a :: args, _, .cons ha hargs, hu => by
    rcases List.mem_append.1 hu with hu | hu
    · exact ha.part hu
    · exact hargs.part hu
end

/-! ### Reading kinds off -/

namespace Kind

lemma right?_arrow (a : Kind) {b : Kind} (hb : b.isFlat) : (arrow a b).right? = some b := by
  obtain ⟨links, hlinks, rfl⟩ : ∃ links, isFlatLinks links ∧ b = function links := by
    cases b with
    | atomic => exact ⟨[.atomic], rfl, rfl⟩
    | var v => exact ⟨[.var v], rfl, rfl⟩
    | chain links =>
      obtain ⟨hlen, hlinks⟩ := isFlat_chain.1 hb
      refine ⟨links, hlinks, ?_⟩
      match links, hlen with
      | k :: k' :: links, _ => rw [function, unnest_of_isFlatLinks hlinks]
  rw [arrow_function a hlinks]
  cases links with
  | nil => exact absurd rfl (ne_nil_of_isFlatLinks hlinks)
  | cons k links => rfl

lemma drop?_arrows {args : List Kind} {k : Kind} (hargs : ∀ a ∈ args, a.isFlat) (hk : k.isFlat) :
    (arrows args k).drop? args.length = some k := by
  induction args with
  | nil => rfl
  | cons a args ih =>
    rw [List.forall_mem_cons] at hargs
    rw [List.length_cons, drop?, arrows_cons, right?_arrow a (isFlat_arrows hargs.2 hk)]
    exact ih hargs.2

end Kind

/-- All kinds that are recorded in a type are flat. -/
def Ty.FlatSlots (t : Ty) : Prop := ∀ k ∈ t.recordedKinds, k.isFlat

lemma HasRecordedKind.isFlat {t : Ty} {k : Kind} (ht : t.FlatSlots) (h : HasRecordedKind t k) :
    k.isFlat := by
  cases h with
  | con => exact ht k List.mem_cons_self
  | var => exact ht k List.mem_cons_self
  | arrow => rfl
  | app _ _ _ hk => exact hk
  | scheme => rfl

lemma HasRecordedKinds.isFlat {args : List Ty} {kinds : List Kind}
    (hargs : ∀ k ∈ Ty.recordedKindsList args, k.isFlat) (h : HasRecordedKinds args kinds) :
    ∀ k ∈ kinds, k.isFlat := by
  induction args generalizing kinds with
  | nil =>
    cases h
    simp
  | cons a args ih =>
    cases h with
    | cons ha hrest =>
      obtain ⟨hflat, hflats⟩ := List.forall_mem_append.1 hargs
      exact List.forall_mem_cons.2 ⟨ha.isFlat hflat, ih hflats hrest⟩

/-- What is read off an application is what its head leaves of its kind. -/
lemma Ty.kindOf_app {head : Ty} {args : List Ty} {headKind k : Kind}
    (hhead : head.kindOf = .ok headKind) (hk : headKind.drop? args.length = some k) :
    (Ty.app head args).kindOf = .ok k := by
  rw [kindOf, hhead]
  simp only [bind, Except.bind, hk]
  rfl

/-- The kind that the rules give a type is the one that is read off. -/
lemma HasRecordedKind.kindOf_eq : {t : Ty} → {k : Kind} → t.FlatSlots → HasRecordedKind t k →
    t.kindOf = .ok k
  | .con _ _, _, _, .con => rfl
  | .var _ _ _, _, _, .var => rfl
  | .app _ _, _, ht, .arrow _ hhead _ _ =>
    Ty.kindOf_app (hhead.kindOf_eq fun k hk => ht k (List.mem_append_left _ hk)) rfl
  | .app _ _, k, ht, .app _ hhead hargs hk => by
    have hkinds := hargs.isFlat fun k hk => ht k (List.mem_append_right _ hk)
    refine Ty.kindOf_app (hhead.kindOf_eq fun k hk => ht k (List.mem_append_left _ hk)) ?_
    rw [function_append hkinds hk, hargs.length_eq]
    exact drop?_arrows hkinds hk
  | .scheme _ body, _, ht, .scheme hbody => HasRecordedKind.kindOf_eq (t := body) ht hbody

mutual
lemma Ty.FlatSlots.part {u : Ty} : {t : Ty} → t.FlatSlots → u ∈ t.parts → u.FlatSlots
  | .con _ _, h, hu => List.mem_singleton.1 hu ▸ h
  | .var _ _ _, h, hu => List.mem_singleton.1 hu ▸ h
  | .app head args, h, hu => by
    obtain ⟨hhead, hargs⟩ := List.forall_mem_append.1 h
    rcases List.mem_cons.1 hu with rfl | hu
    · exact h
    · rcases List.mem_append.1 hu with hu | hu
      · exact FlatSlots.part (t := head) hhead hu
      · exact flatSlots_of_mem_partsList hargs hu
  | .scheme vars body, h, hu => by
    rcases List.mem_cons.1 hu with rfl | hu
    · exact h
    · exact FlatSlots.part (t := body) h hu

lemma Ty.flatSlots_of_mem_partsList {u : Ty} : {args : List Ty} →
    (∀ k ∈ recordedKindsList args, k.isFlat) → u ∈ partsList args → u.FlatSlots
  | [], _, hu => by cases hu
  | a :: args, h, hu => by
    obtain ⟨ha, hargs⟩ := List.forall_mem_append.1 h
    rcases List.mem_append.1 hu with hu | hu
    · exact FlatSlots.part (t := a) ha hu
    · exact flatSlots_of_mem_partsList hargs hu
end

/-- The rules give the type one kind, and that is the one that is read off. -/
def Ty.ReadsKind (t : Ty) : Prop := ∃ k, (∀ k', HasRecordedKind t k' ↔ k' = k) ∧ t.kindOf = .ok k

/-- What is read off a well-kinded type and off its parts is what the rules give. -/
lemma HasRecordedKind.readsKind {t u : Ty} {k : Kind} (ht : t.FlatSlots) (h : HasRecordedKind t k)
    (hu : u ∈ t.parts) : u.ReadsKind := by
  obtain ⟨k', hk'⟩ := h.part hu
  have hread {k : Kind} (hk : HasRecordedKind u k) : u.kindOf = .ok k :=
    hk.kindOf_eq (ht.part hu)
  refine ⟨k', fun k'' => ⟨fun hk'' => ?_, fun heq => heq ▸ hk'⟩, hread hk'⟩
  have := (hread hk'').symm.trans (hread hk')
  cases this
  rfl

/-! ### Types that pass kind inference -/

namespace Ty

section Walk

variable {ctx : KindContext} {θ : KindVar → Kind}

/-- The arrow is not in scope, so that its kind is the one declared before. -/
def ArrowFree (s : Kinding) : Prop := s.scope.lookup arrowName = none

lemma ArrowFree.brought {s : Kinding} (h : ArrowFree s) {names : List String}
    (hnames : arrowName ∉ names) : ArrowFree (s.entered.brought names) := by
  rw [ArrowFree, lookup_brought_of_not_mem hnames]
  exact h

lemma isGround_ofArity_two : (Kind.ofArity 2).IsGround := by decide

/-- The kind of the arrow is the one declared before. -/
lemma ArrowFree.headKind_eq {s s' : Kinding} (h : ArrowFree s)
    (hbase : ctx.base.lookup arrowName = some (.ofArity 2)) {head : Ty}
    (hhead : head.isArrowConstructor) {place : Place} {k : Kind}
    (hrun : head.kindConstraints ctx place s = .ok k s') : k = .ofArity 2 := by
  cases head with
  | con name slot =>
    obtain rfl : name = arrowName := by simpa [isArrowConstructor] using hhead
    obtain ⟨hk, -⟩ := kindConstraints_con_eq_ok.1 hrun
    rw [found?, h, Option.none_or, hbase] at hk
    exact (Option.some.inj hk).symm
  | var _ _ _ => cases hhead
  | app _ _ => cases hhead
  | scheme _ _ => cases hhead

mutual
/-- A walk over a type with all kinds recorded finds it well kinded, if its equations have a
solution. -/
lemma hasRecordedKind_of_run (hθ : ∀ v, (θ v).isFlat)
    (hbase : ctx.base.lookup arrowName = some (.ofArity 2)) : (t : Ty) → {place : Place} →
    t.Admits (· ≠ arrowName) → t.Filled → {s s' : Kinding} → {k : Kind} → s.Bounded ctx.base →
    ArrowFree s → t.kindConstraints ctx place s = .ok k s' → Unified θ s'.equations →
    HasRecordedKind t (Kind.bindAll θ k)
  | .con name slot, _, ht, hfilled, s, s', k, hs, hfree, hrun, hunified => by
    obtain ⟨hk, rfl⟩ := kindConstraints_con_eq_ok.1 hrun
    obtain ⟨a, rfl⟩ := Option.isSome_iff_exists.1 (hfilled slot List.mem_cons_self)
    have heq := hunified _ (List.mem_append_right _ List.mem_cons_self)
    have ha := ht.slot a List.mem_cons_self
    rw [heq, ha.bindAll_eq]
    exact .con
  | .var name sort slot, _, ht, hfilled, s, s', k, hs, hfree, hrun, hunified => by
    obtain ⟨s₁, hk, rfl⟩ := kindConstraints_var_eq_ok.1 hrun
    obtain ⟨a, rfl⟩ := Option.isSome_iff_exists.1 (hfilled slot List.mem_cons_self)
    have heq := hunified _ (List.mem_append_right _ List.mem_cons_self)
    have ha := ht.slot a List.mem_cons_self
    rw [heq, ha.bindAll_eq]
    exact .var
  | .app head args, _, ht, hfilled, s, s', k, hs, hfree, hrun, hunified => by
    obtain ⟨hfhead, hfargs⟩ := filled_app.1 hfilled
    by_cases harrow : head.isArrowConstructor ∧ args.length = 2
    · obtain ⟨headKind, s₁, hhead, hargs, rfl⟩ := (kindConstraints_arrow_eq_ok harrow).1 hrun
      obtain ⟨hl₁, hs₁, -⟩ := kindConstraints_keeps head ht.head hs hhead
      obtain ⟨hl, -⟩ := demandAtomic_keeps args ht.args hs₁ hargs
      have hunified₁ : Unified θ s₁.equations := fun e he => hunified e (hl.equations he)
      have hheadKind := hasRecordedKind_of_run hθ hbase head ht.head hfhead hs hfree hhead hunified₁
      rw [hfree.headKind_eq hbase harrow.1 hhead, isGround_ofArity_two.bindAll_eq] at hheadKind
      have hfree₁ : ArrowFree s₁ := hl₁.new hfree fun h => h rfl
      have hargs' := hasRecordedKind_of_demandAtomic hθ hbase args ht.args hfargs hs₁ hfree₁ hargs
        hunified
      obtain ⟨a, b, rfl⟩ := List.length_eq_two.1 harrow.2
      exact .arrow harrow.1 hheadKind (hargs' a (by simp)) (hargs' b (by simp))
    · obtain ⟨headKind, s₁, kinds, s₂, hhead, hargs, rfl, rfl⟩ :=
        (kindConstraints_app_eq_ok harrow).1 hrun
      obtain ⟨hl₁, hs₁, hk₁⟩ := kindConstraints_keeps head ht.head hs hhead
      obtain ⟨hl₂, hs₂, hks⟩ := kindConstraintsList_keeps args ht.args hs₁ hargs
      have hfree₁ : ArrowFree s₁ := hl₁.new hfree fun h => h rfl
      have hunified₂ : Unified θ s₂.equations := fun e he => hunified e (List.mem_append_left _ he)
      have hunified₁ : Unified θ s₁.equations := fun e he => hunified₂ e (hl₂.equations he)
      have hheadKind := hasRecordedKind_of_run hθ hbase head ht.head hfhead hs hfree hhead hunified₁
      have hargs' := hasRecordedKinds_of_run hθ hbase args ht.args hfargs hs₁ hfree₁ hargs hunified₂
      have heq : Kind.bindAll θ headKind =
          Kind.bindAll θ (.function (kinds ++ [.var ⟨s₂.next⟩])) :=
        hunified _ (List.mem_append_right _ List.mem_cons_self)
      have hflat : ∀ k ∈ kinds ++ [.var ⟨s₂.next⟩], k.isFlat :=
        List.forall_mem_append.2 ⟨fun k hk => (hks k hk).1, by simp [Kind.isFlat]⟩
      rw [bindAll_function hθ (by simp) hflat, List.map_append] at heq
      exact .app harrow (heq ▸ hheadKind) hargs' (hθ _)
  | .scheme vars body, _, ht, hfilled, s, s', k, hs, hfree, hrun, hunified => by
    obtain ⟨bodyKind, s₁, hbody, rfl, rfl⟩ := kindConstraints_scheme_eq_ok.1 hrun
    have hvars : arrowName ∉ vars.names := fun h => ht.var _ (List.mem_append_left _ h) rfl
    have hunified₁ : Unified θ s₁.equations := fun e he => hunified e (List.mem_append_left _ he)
    have hkind := hasRecordedKind_of_run hθ hbase body ht.body hfilled
      (hs.entered.brought vars.names) (hfree.brought hvars) hbody hunified₁
    have heq : Kind.bindAll θ bodyKind = .atomic :=
      hunified _ (List.mem_append_right _ List.mem_cons_self)
    exact .scheme (heq ▸ hkind)

lemma hasRecordedKinds_of_run (hθ : ∀ v, (θ v).isFlat)
    (hbase : ctx.base.lookup arrowName = some (.ofArity 2)) : (args : List Ty) → {place : Place} →
    {i : Nat} →
    AdmitsList (· ≠ arrowName) args → FilledList args → {s s' : Kinding} → {kinds : List Kind} →
    s.Bounded ctx.base → ArrowFree s → kindConstraintsList ctx place i args s = .ok kinds s' →
    Unified θ s'.equations → HasRecordedKinds args (kinds.map (Kind.bindAll θ))
  | [], _, _, _, _, s, s', kinds, _, _, hrun, _ => by
    obtain ⟨rfl, rfl⟩ := kindConstraintsList_nil_eq_ok.1 hrun
    exact .nil
  | a :: args, _, _, ht, hfilled, s, s', kinds, hs, hfree, hrun, hunified => by
    obtain ⟨kind, s₁, rest, ha, hargs, rfl⟩ := kindConstraintsList_cons_eq_ok.1 hrun
    obtain ⟨hfa, hfargs⟩ := filledList_cons.1 hfilled
    obtain ⟨hl₁, hs₁, -⟩ := kindConstraints_keeps a ht.first hs ha
    obtain ⟨hl, -, -⟩ := kindConstraintsList_keeps args ht.rest hs₁ hargs
    have hfree₁ : ArrowFree s₁ := hl₁.new hfree fun h => h rfl
    have hunified₁ : Unified θ s₁.equations := fun e he => hunified e (hl.equations he)
    exact .cons (hasRecordedKind_of_run hθ hbase a ht.first hfa hs hfree ha hunified₁)
      (hasRecordedKinds_of_run hθ hbase args ht.rest hfargs hs₁ hfree₁ hargs hunified)

lemma hasRecordedKind_of_demandAtomic (hθ : ∀ v, (θ v).isFlat)
    (hbase : ctx.base.lookup arrowName = some (.ofArity 2)) : (args : List Ty) → {place : Place} →
    {i : Nat} →
    AdmitsList (· ≠ arrowName) args → FilledList args → {origin : KindOrigin} → {s s' : Kinding} →
    {u : Unit} → s.Bounded ctx.base → ArrowFree s →
    demandAtomic ctx origin place i args s = .ok u s' →
    Unified θ s'.equations → ∀ a ∈ args, HasRecordedKind a .atomic
  | [], _, _, _, _, _, _, _, _, _, _, _, _ => by simp
  | a :: args, _, _, ht, hfilled, origin, s, s', _, hs, hfree, hrun, hunified => by
    obtain ⟨kind, s₁, ha, hargs⟩ := demandAtomic_cons_eq_ok.1 hrun
    obtain ⟨hfa, hfargs⟩ := filledList_cons.1 hfilled
    obtain ⟨hl₁, hs₁, hk⟩ := kindConstraints_keeps a ht.first hs ha
    have hs₂ := hs₁.equated ctx hk (isGround_atomic.below _) origin
    obtain ⟨hl, -⟩ := demandAtomic_keeps args ht.rest hs₂ hargs
    have hfree₁ : ArrowFree s₁ := hl₁.new hfree fun h => h rfl
    have hunified₁ : Unified θ (s₁.equated ctx kind .atomic origin).equations :=
      fun e he => hunified e (hl.equations he)
    have hkind := hasRecordedKind_of_run hθ hbase a ht.first hfa hs hfree ha
      fun e he => hunified₁ e (List.mem_append_left _ he)
    have heq : Kind.bindAll θ kind = .atomic :=
      hunified₁ _ (List.mem_append_right _ List.mem_cons_self)
    refine List.forall_mem_cons.2 ⟨heq ▸ hkind, ?_⟩
    exact hasRecordedKind_of_demandAtomic hθ hbase args ht.rest hfargs hs₂ hfree₁ hargs hunified
end

end Walk

end Ty

/-! ### Groups and ascriptions -/

lemma Ty.Admits.fill {V : String → Prop} {t : Ty} (ht : t.Admits V) {kinds : List Kind}
    (hkinds : ∀ k ∈ kinds, k.IsGround) : (t.fill kinds).1.Admits V where
  var x hx := ht.var x (by rwa [Ty.variableNames_fill] at hx)
  slot := (Ty.recordedKinds_fill t ht.slot hkinds).1

lemma Ty.AdmitsList.fillList {V : String → Prop} {args : List Ty} (h : AdmitsList V args)
    {kinds : List Kind} (hkinds : ∀ k ∈ kinds, k.IsGround) :
    AdmitsList V (Ty.fillList args kinds).1 where
  var x hx := by
    rw [← variableNamesList_unslottedList, unslottedList_fillList,
      variableNamesList_unslottedList] at hx
    exact h.var x hx
  slot := (recordedKindsList_fillList args h.slot hkinds).1

lemma Ty.AdmitsList.arrowName_not_mem {d : Datatype}
    (h : Ty.AdmitsList (· ≠ Ty.arrowName) d.types) : Ty.arrowName ∉ d.paramNames :=
  fun hmem => h.first.var _ (d.paramNames_subset hmem) rfl

section Passes

variable {base : Scope Kind} {s t : Kinding} {θ : KindVar → Kind} {settled : Kind → Kind}

/-- With the kinds recorded that a solution gives, the types of a datatype are of kind `*`. -/
lemma Datatype.hasRecordedKind_fill (hbase : base.lookup Ty.arrowName = some (.ofArity 2))
    (hθ : ∀ v, (θ v).IsGround) (hsettled : ∀ k, k.isFlat → settled k = Kind.bindAll θ k)
    {d : Datatype} (hd : Ty.AdmitsList (· ≠ Ty.arrowName) d.types) (hs : s.Bounded base)
    (hfree : Ty.ArrowFree s) {site : Option Nat} {own : List Leaf}
    (hrun : d.kindConstraints ⟨base, .refuse, site⟩ s = .ok own t)
    (hunified : Unified θ t.equations) :
    ∀ u ∈ (d.fill (own.map fun leaf => settled leaf.kind)).1.types,
      HasRecordedKind u .atomic ∧ u.FlatSlots := by
  obtain ⟨-, -, -, hflat⟩ := Datatype.kindConstraints_keeps hd hs hrun
  have hkinds : ∀ k ∈ own.map (fun leaf => settled leaf.kind), k.IsGround := by
    intro k hk
    obtain ⟨leaf, hleaf, rfl⟩ := List.mem_map.1 hk
    rw [hsettled _ (hflat leaf hleaf)]
    exact isGround_bindAll hθ (hflat leaf hleaf)
  have hfilled := Datatype.filled_fill hrun settled
  have hd' := hd.fillList hkinds
  rw [d.fillList_types] at hd'
  -- The walk over the types with their kinds recorded has the same solutions.
  obtain ⟨d', hfill, hagain⟩ := Datatype.kindConstraints_again settled hrun
  obtain ⟨t', hrun', hrefilled⟩ := hagain (Refilled.cleared_self settled s)
  have heq := hfill []
  rw [List.append_nil] at heq
  rw [heq] at hfilled hd' ⊢
  obtain ⟨-, ht', -⟩ := Datatype.kindConstraints_keeps hd' hs.cleared hrun'
  have hunified' := hrefilled.unified ht' hθ hsettled hunified
  obtain ⟨t₁, hwalk, -, rfl⟩ := Datatype.kindConstraints_eq_ok.1 hrun'
  have hfree' : Ty.ArrowFree (s.cleared.opened d') :=
    Ty.ArrowFree.brought (s := s.cleared.cleared) hfree hd'.arrowName_not_mem
  have hunified₁ : Unified θ t₁.equations := hunified'
  have hkinded := Ty.hasRecordedKind_of_demandAtomic (fun v => (hθ v).1) hbase d'.types hd'
    (Ty.filledList_iff.2 hfilled) (hs.cleared.opened d') hfree' hwalk hunified₁
  exact fun u hu => ⟨hkinded u hu, fun k hk =>
    (hd'.slot k (Ty.mem_recordedKindsList.2 ⟨u, hu, hk⟩)).1⟩

lemma groupConstraints_hasRecordedKind (hbase : base.lookup Ty.arrowName = some (.ofArity 2))
    (hθ : ∀ v, (θ v).IsGround) (hsettled : ∀ k, k.isFlat → settled k = Kind.bindAll θ k)
    {ds : List Datatype} (hds : ∀ d ∈ ds, Ty.AdmitsList (· ≠ Ty.arrowName) d.types)
    (hs : s.Bounded base) (hfree : Ty.ArrowFree s) {site : Nat}
    {leaves : List (List Leaf)} (hrun : groupConstraints base ds site s = .ok leaves t)
    (hunified : Unified θ t.equations) :
    List.Forall₂ (fun d own => ∀ u ∈ (d.fill (own.map fun leaf => settled leaf.kind)).1.types,
      HasRecordedKind u .atomic ∧ u.FlatSlots) ds leaves := by
  induction ds generalizing s site leaves with
  | nil =>
    obtain ⟨rfl, -⟩ := groupConstraints_nil_eq_ok.1 hrun
    exact .nil
  | cons d ds ih =>
    obtain ⟨own, s₁, more, hown, hmore, rfl⟩ := groupConstraints_cons_eq_ok.1 hrun
    obtain ⟨hd, hds⟩ := List.forall_mem_cons.1 hds
    obtain ⟨hleads, hs₁, -, -⟩ := Datatype.kindConstraints_keeps hd hs hown
    obtain ⟨-, hsub, -, -⟩ := groupConstraints_walked (fun d hd => (hds d hd).slot) hs₁ hmore
    have hunified₁ : Unified θ s₁.equations := fun e he => hunified e (hsub he)
    exact .cons (Datatype.hasRecordedKind_fill hbase hθ hsettled hd hs hfree hown hunified₁)
      (ih hds hs₁ (hleads.new hfree fun h => h rfl) hmore)

/-- An ascription with the kinds recorded that are found for it is of kind `*`. -/
lemma hasRecordedKind_of_checkAscription (hground : ∀ c k, base.lookup c = some k → k.IsGround)
    (hbase : base.lookup Ty.arrowName = some (.ofArity 2)) {u : Ty}
    (hu : u.Admits (· ≠ Ty.arrowName)) {found : List Kind}
    (h : (checkAscription base u).2 = .ok found) :
    HasRecordedKind (u.fill found).1 .atomic ∧ (u.fill found).1.FlatSlots := by
  have hfilled := (filled_of_checkAscription h).1
  obtain ⟨k, s, settled, hrun, hsettle, rfl⟩ := checkAscription_eq_ok h
  obtain ⟨-, hs, hk⟩ := Ty.kindConstraints_keeps u hu (bounded_initial hground) hrun
  have hbounded : (s.equated ⟨base, .introduce, none⟩ k .atomic .ascription).Bounded base :=
    hs.equated _ hk (isGround_atomic.below _) _
  have hθ := hbounded.isGround_solution
  obtain ⟨hsolved, hsettled⟩ := hbounded.settle_eq_ok hsettle
  have hunified := hbounded.unified_solution hsolved
  have hkinds : ∀ k ∈ s.leaves.map (fun leaf => settled leaf.kind), k.IsGround := by
    intro k hk
    obtain ⟨leaf, hleaf, rfl⟩ := List.mem_map.1 hk
    rw [hsettled _ (hs.leaves leaf hleaf).1]
    exact isGround_bindAll hθ (hs.leaves leaf hleaf).1
  have hu' := hu.fill hkinds
  obtain ⟨new, u', hleaves, hfill, hagain⟩ := Ty.kindConstraints_again settled u hrun
  obtain rfl : s.leaves = new := hleaves
  obtain ⟨s', hrun', hrefilled⟩ := hagain (.refl rfl)
  have heq := hfill []
  rw [List.append_nil] at heq
  rw [heq] at hfilled hu' ⊢
  obtain ⟨-, hs', -⟩ := Ty.kindConstraints_keeps u' hu' (bounded_initial hground) hrun'
  have hunified' := hrefilled.unified hs' hθ hsettled
    fun e he => hunified e (List.mem_append_left _ he)
  have hkinded := Ty.hasRecordedKind_of_run (fun v => (hθ v).1) hbase u' hu' hfilled
    (bounded_initial hground) (lookup_initial _) hrun' hunified'
  have hatomic : Kind.bindAll
      (s.equated ⟨base, .introduce, none⟩ k .atomic .ascription).solution k = .atomic :=
    hunified _ (List.mem_append_right _ List.mem_cons_self)
  exact ⟨hatomic ▸ hkinded, fun k hk => (hu'.slot k hk).1⟩

end Passes

/-- Reading kinds off agrees with kind inference: once it has succeeded, all heads and fields, resp.
the ascription, are of kind `*`, and of every type inside them the kind that is read off is the one
that the kinding rules give it under the kinds recorded. -/
theorem kindOf_recorded (base : Scope Kind)
    (hground : ∀ c k, base.lookup c = some k → k.IsGround)
    (harrow : base.lookup Ty.arrowName = some (.ofArity 2)) :
    (∀ pool members declared, members.Nodup → (∀ i ∈ members, i < pool.length) →
      Ty.arrowName ∉ declaredNames (membersOf pool members) →
      (∀ t ∈ groupTypes (membersOf pool members), t.Admits (· ≠ Ty.arrowName)) →
      (inferKinds base pool members).2 = .ok declared →
      ∀ i ∈ members, ∃ d, (inferKinds base pool members).1[i]? = some d ∧
        ∀ t ∈ d.types, t.kindOf = .ok .atomic ∧ ∀ u ∈ t.parts, u.ReadsKind) ∧
    ∀ t found, t.Admits (· ≠ Ty.arrowName) → (checkAscription base t).2 = .ok found →
      (checkAscription base t).1.kindOf = .ok .atomic ∧
        ∀ u ∈ (checkAscription base t).1.parts, u.ReadsKind := by
  refine ⟨fun pool members declared hnodup hmembers hnames hgroup hok i hi => ?_,
    fun t found ht hok => ?_⟩
  · obtain ⟨leaves, s, settled, hrun, hsettle, -, hin⟩ := inferKinds_getElem? hnodup hok
    have hgroup' : ∀ d ∈ membersOf pool members, Ty.AdmitsList (· ≠ Ty.arrowName) d.types := by
      refine fun d hd => ⟨fun x hx => ?_, fun k hk => ?_⟩
      · obtain ⟨t, ht, hx⟩ := Ty.mem_variableNamesList.1 hx
        exact (hgroup t (List.mem_flatMap.2 ⟨d, hd, ht⟩)).var x hx
      · obtain ⟨t, ht, hk⟩ := Ty.mem_recordedKindsList.1 hk
        exact (hgroup t (List.mem_flatMap.2 ⟨d, hd, ht⟩)).slot k hk
    have hheads := (bounded_initial hground).brought (declaredNames (membersOf pool members))
    obtain ⟨hs, -⟩ := groupConstraints_walked (fun d hd => (hgroup' d hd).slot) hheads hrun
    obtain ⟨hsolved, hsettled⟩ := hs.settle_eq_ok hsettle
    have hfree : Ty.ArrowFree (headsDeclared (membersOf pool members)) := by
      rw [Ty.ArrowFree, headsDeclared, lookup_brought_of_not_mem hnames, lookup_initial]
    have hkinded := groupConstraints_hasRecordedKind harrow hs.isGround_solution hsettled hgroup'
      hheads hfree hrun (hs.unified_solution hsolved)
    obtain ⟨own, htypes, hd⟩ := hin _ hkinded i hi _ (List.getElem?_eq_getElem (hmembers i hi))
    refine ⟨_, hd, fun t ht => ?_⟩
    obtain ⟨hkind, hflat⟩ := htypes t ht
    exact ⟨hkind.kindOf_eq hflat, fun u hu => hkind.readsKind hflat hu⟩
  · obtain ⟨hkind, hflat⟩ := hasRecordedKind_of_checkAscription hground harrow ht hok
    rw [checkAscription_fst hok]
    exact ⟨hkind.kindOf_eq hflat, fun u hu => hkind.readsKind hflat hu⟩

/-- Folds over a container of unknown contents. -/
def folds : List Datatype :=
  let fold := Ty.app (.con "Fold" none) [.rigid "f", .rigid "a"]
  let contents := Ty.app (.rigid "f") [.rigid "x"]
  let arrow := Ty.con Ty.arrowName none
  [⟨fold, [⟨"MkFold", [.quantified ["x"] (.app arrow [contents, .rigid "a"])]⟩], {}⟩]

theorem kindOf_recorded_folds :
    let base := Scope.empty.insert Ty.arrowName (Kind.ofArity 2)
    (inferKinds base folds [0]).2.isOk = true ∧
      ∃ d, (inferKinds base folds [0]).1[0]? = some d ∧
        ∀ t ∈ d.types, t.kindOf = .ok .atomic ∧ ∀ u ∈ t.parts, u.ReadsKind := by
  intro base
  have hground : ∀ c k, base.lookup c = some k → k.IsGround := by
    intro c k hk
    rw [Scope.lookup_insert] at hk
    split at hk
    · cases hk
      decide
    · cases hk
  have hadmits : ∀ t ∈ groupTypes (membersOf folds [0]), t.Admits (· ≠ Ty.arrowName) := by
    refine fun t ht => ⟨?_, ?_⟩
    · revert t
      decide
    · revert t
      decide
  have hok : (inferKinds base folds [0]).2.isOk = true := by cbv
  refine ⟨hok, ?_⟩
  cases h : (inferKinds base folds [0]).2 with
  | ok declared =>
    exact (kindOf_recorded base hground (by decide)).1 folds [0] declared (by decide) (by decide)
      (by decide) hadmits h 0 (by decide)
  | error e =>
    rw [h] at hok
    cases hok

end LetPoly
