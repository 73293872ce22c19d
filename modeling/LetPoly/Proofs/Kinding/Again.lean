import LetPoly.Proofs.Kinding.Checked
import LetPoly.Proofs.Ty.Slots

/-!
# Checking kinds again

Once the kinds found are recorded, checking an ascription or a group of datatypes again finds the
same and leaves nothing to be recorded (`checkAscription_again`, `inferGroup_again`). The second walk
asks for more than the first: each node has to have the kind that is recorded in it now. The first
solution, with `*` for what it left open, does all that. What it left open cannot come out as
anything else the second time, for an unknown or `*` is all that can become `*`.
-/

namespace LetPoly

open Kind

/-! ### Solutions with `*` for what is open -/

namespace Kind

section Solutions

variable {O : Type} {equations : List (Equation Kind O)}

/-- What the most general solution leaves open it leaves as it is. -/
lemma mgu_of_mem_vars (hflat : ∀ e ∈ equations, e.Flat) (h : Unified (mgu equations) equations)
    {v w : KindVar} (hw : w ∈ (mgu equations v).vars) : mgu equations w = .var w := by
  have hmgu := isFlat_mgu hflat
  have hself := congrArg tree (mgu_absorbed hflat hmgu h v)
  rw [(bindAll_spec hmgu _ (hmgu v)).2] at hself
  have hvar := Tree.bind_eq_bind_iff.1 (hself.trans (Tree.bind_self _).symm) w
    (by rwa [vars_tree])
  exact (tree_injective (hmgu w) rfl).1 hvar

/-- Only `*` and unknowns can become `*`. -/
lemma close_of_bindAll_eq_atomic {θ : KindVar → Kind} (hθ : ∀ v, (θ v).isFlat) {k : Kind}
    (hk : k.isFlat) (h : bindAll θ k = .atomic) : k.close = .atomic := by
  have htree := congrArg tree h
  rw [(bindAll_spec hθ k hk).2] at htree
  have hclose := bindAll_spec (σ := fun _ => .atomic) (fun _ => rfl) k hk
  rw [close_eq_bindAll hk]
  refine (tree_injective hclose.1 rfl).1 (hclose.2.trans ?_)
  cases hshape : k.tree with
  | leaf c => rfl
  | var v => rfl
  | node l r =>
    rw [hshape] at htree
    cases htree

end Solutions

end Kind

/-! ### Walks over types with kinds recorded -/

namespace Kinding

/-- The state of the first walk and that of the walk over the same type with its kinds recorded, as
`settled` gives them. -/
structure Refilled (settled : Kind → Kind) (s s' : Kinding) : Prop where
  next : s'.next = s.next
  scope : s'.scope = s.scope
  leaves : s'.leaves = []
  kept : ∀ e ∈ s.equations, ∃ e' ∈ s'.equations, e'.left = e.left ∧ e'.right = e.right
  new : ∀ e' ∈ s'.equations, (∃ e ∈ s.equations, e'.left = e.left ∧ e'.right = e.right) ∨
    e'.right = settled e'.left

namespace Refilled

variable {settled : Kind → Kind} {s s' : Kinding}

lemma refl (hleaves : s.leaves = []) : Refilled settled s s :=
  ⟨rfl, rfl, hleaves, fun e he => ⟨e, he, rfl, rfl⟩, fun e he => .inl ⟨e, he, rfl, rfl⟩⟩

lemma found? (h : Refilled settled s s') (base : Scope Kind) (name : String) :
    s'.found? base name = s.found? base name := by
  rw [Kinding.found?, Kinding.found?, h.scope]

lemma entered (h : Refilled settled s s') : Refilled settled s.entered s'.entered :=
  { h with scope := congrArg Scope.child h.scope }

lemma bumped (h : Refilled settled s s') : Refilled settled s.bumped s'.bumped :=
  { h with next := congrArg (· + 1) h.next }

lemma introduced (h : Refilled settled s s') (name : String) :
    Refilled settled (s.introduced name) (s'.introduced name) :=
  { h with
    next := congrArg (· + 1) h.next
    scope := by simp only [Kinding.introduced, h.scope, h.next] }

lemma brought (h : Refilled settled s s') (names : List String) :
    Refilled settled (s.brought names) (s'.brought names) := by
  induction names generalizing s s' with
  | nil => exact h
  | cons name names ih => exact ih (h.introduced name)

/-- A scope is left for the one that was in force before. -/
lemma restored {outer outer' : Kinding} (h : Refilled settled s s')
    (houter : Refilled settled outer outer') :
    Refilled settled (s.restored outer) (s'.restored outer') :=
  { h with scope := houter.scope }

lemma cleared (h : Refilled settled s s') : Refilled settled s.cleared s'.cleared :=
  { h with leaves := rfl }

lemma equated (h : Refilled settled s s') (ctx : KindContext) (left right : Kind)
    (origin origin' : KindOrigin) :
    Refilled settled (s.equated ctx left right origin) (s'.equated ctx left right origin') where
  next := h.next
  scope := h.scope
  leaves := h.leaves
  kept e he := by
    rcases List.mem_append.1 he with he | he
    · obtain ⟨e', he', hsides⟩ := h.kept e he
      exact ⟨e', List.mem_append_left _ he', hsides⟩
    · obtain rfl := List.mem_singleton.1 he
      exact ⟨_, List.mem_append_right _ List.mem_cons_self, rfl, rfl⟩
  new e' he' := by
    rcases List.mem_append.1 he' with he' | he'
    · refine (h.new e' he').imp_left ?_
      rintro ⟨e, he, hsides⟩
      exact ⟨e, List.mem_append_left _ he, hsides⟩
    · obtain rfl := List.mem_singleton.1 he'
      exact .inl ⟨_, List.mem_append_right _ List.mem_cons_self, rfl, rfl⟩

/-- A node whose slot was empty has its kind recorded now. -/
lemma noted (h : Refilled settled s s') (ctx : KindContext) (place : Place) (name : String)
    (kind : Kind) : Refilled settled (s.noted ctx place name none kind)
      (s'.noted ctx place name (some (settled kind)) kind) where
  next := h.next
  scope := h.scope
  leaves := h.leaves
  kept e he := by
    obtain ⟨e', he', hsides⟩ := h.kept e he
    exact ⟨e', List.mem_append_left _ he', hsides⟩
  new e' he' := by
    rcases List.mem_append.1 he' with he' | he'
    · exact h.new e' he'
    · obtain rfl := List.mem_singleton.1 he'
      exact .inr rfl

/-- A state with nothing noted is like itself after the kinds are recorded. -/
lemma cleared_self (settled : Kind → Kind) (s : Kinding) : Refilled settled s s.cleared :=
  ⟨rfl, rfl, rfl, fun e he => ⟨e, he, rfl, rfl⟩, fun e he => .inl ⟨e, he, rfl, rfl⟩⟩

/-! #### Solving -/

variable {base : Scope Kind}

/-- A ground solution of the first walk is one of the second, if it settles the kinds recorded. -/
lemma unified (h : Refilled settled s s') (hs' : s'.Bounded base) {θ : KindVar → Kind}
    (hθ : ∀ v, (θ v).IsGround) (hsettled : ∀ k, k.isFlat → settled k = bindAll θ k)
    (hunified : Unified θ s.equations) : Unified θ s'.equations := by
  intro e' he'
  rcases h.new e' he' with ⟨e, he, hleft, hright⟩ | hright
  · rw [hleft, hright]
    exact hunified e he
  · have hflat := (hs'.flat e' he').1
    rw [hright, hsettled _ hflat, (isGround_bindAll hθ hflat).bindAll_eq]

/-- The first solution is one of the second walk. -/
lemma unified_solution (h : Refilled settled s s') (hs : s.Bounded base) (hs' : s'.Bounded base)
    (hsettle : s.settle = .ok settled) : Unified s.solution s'.equations := by
  obtain ⟨hunified, hsettled⟩ := hs.settle_eq_ok hsettle
  exact h.unified hs' hs.isGround_solution hsettled (hs.unified_solution hunified)

/-- The second solution is the first one. -/
lemma solution_eq (h : Refilled settled s s') (hs : s.Bounded base) (hs' : s'.Bounded base)
    (hsettle : s.settle = .ok settled) (v : KindVar) : s'.solution v = s.solution v := by
  obtain ⟨hunified, -⟩ := hs.settle_eq_ok hsettle
  have hsolves := h.unified_solution hs hs' hsettle
  have hflat v := (hs.isGround_solution v).1
  have hunified' : Unified (mgu s'.equations) s'.equations :=
    mgu_unified hs'.flat (solve_of_unified hs'.flat hflat hsolves)
  have hmgu := isFlat_mgu hs.flat
  have hmgu' := isFlat_mgu hs'.flat
  -- The second most general solution is an instance of the first one.
  have hinstance : bindAll (mgu s'.equations) (mgu s.equations v) = mgu s'.equations v := by
    refine mgu_absorbed hs.flat hmgu' (fun e he => ?_) v
    obtain ⟨e', he', hleft, hright⟩ := h.kept e he
    rw [← hleft, ← hright]
    exact hunified' e' he'
  rw [solution, solution, ← hinstance, close_eq_bindAll (isFlat_bindAll hmgu' (hmgu v)),
    bindAll_bindAll hmgu' (fun _ => rfl) (hmgu v), close_eq_bindAll (hmgu v)]
  refine bindAll_congr _ fun w hw => ?_
  -- What the first one leaves open becomes `*` in it, and so in the second one.
  have hopen : s.solution w = .atomic := by
    rw [solution, mgu_of_mem_vars hs.flat hunified hw, close_eq_bindAll rfl]
    rfl
  rw [← close_eq_bindAll (hmgu' w)]
  refine close_of_bindAll_eq_atomic hflat (hmgu' w) ?_
  rw [mgu_absorbed hs'.flat hflat hsolves, hopen]

/-- The second walk settles all kinds as the first one did. -/
lemma settle (h : Refilled settled s s') (hs : s.Bounded base) (hs' : s'.Bounded base)
    (hsettle : s.settle = .ok settled) :
    ∃ settled', s'.settle = .ok settled' ∧ ∀ k, k.isFlat → settled' k = settled k := by
  obtain ⟨-, hsettled⟩ := hs.settle_eq_ok hsettle
  obtain ⟨settled', hsettle'⟩ := hs'.settle_of_unified (fun v => (hs.isGround_solution v).1)
    (h.unified_solution hs hs' hsettle)
  obtain ⟨-, hsettled'⟩ := hs'.settle_eq_ok hsettle'
  refine ⟨settled', hsettle', fun k hk => ?_⟩
  rw [hsettled' k hk, hsettled k hk, funext (h.solution_eq hs hs' hsettle)]

end Refilled

/-- The walk adds leaves whose kinds are those of the empty slots that `fill` fills. What comes of
that can be walked over in its place. -/
def Refills {τ : Type} (settled : Kind → Kind) (s s₁ : Kinding) (fill : List Kind → τ × List Kind)
    (walk : τ → Kinding → Kinding → Prop) : Prop :=
  ∃ new t, s₁.leaves = s.leaves ++ new ∧
    (∀ rest, fill (new.map (fun leaf => settled leaf.kind) ++ rest) = (t, rest)) ∧
    ∀ {s'}, Refilled settled s s' → ∃ s₁', walk t s' s₁' ∧ Refilled settled s₁ s₁'

end Kinding

open Kinding

namespace Ty

variable {ctx : KindContext} (settled : Kind → Kind)

mutual
lemma kindConstraints_again : (t : Ty) → {place : Place} → {s s₁ : Kinding} → {k : Kind} →
    t.kindConstraints ctx place s = .ok k s₁ →
    Refills settled s s₁ t.fill fun t' s' s₁' => t'.kindConstraints ctx place s' = .ok k s₁'
  | .con name slot, _, s, s₁, k, hrun => by
    obtain ⟨hk, rfl⟩ := kindConstraints_con_eq_ok.1 hrun
    cases slot with
    | none =>
      refine ⟨[⟨_, name, k⟩], .con name (some (settled k)), rfl, fun _ => rfl, fun {s'} h =>
        ⟨_, kindConstraints_con_eq_ok.2 ⟨?_, rfl⟩, h.noted ctx _ name k⟩⟩
      rw [h.found?, hk]
    | some a =>
      refine ⟨[], .con name (some a), (List.append_nil _).symm, fun _ => rfl, fun {s'} h =>
        ⟨_, kindConstraints_con_eq_ok.2 ⟨?_, rfl⟩, h.equated ctx ..⟩⟩
      rw [h.found?, hk]
  | .var name sort slot, place, s, s₁, k, hrun => by
    obtain ⟨s₂, hfound, rfl⟩ := kindConstraints_var_eq_ok.1 hrun
    have hagain {s' : Kinding} (h : Refilled settled s s') :
        ∃ s₂', variableKind ctx name s' = .ok k s₂' ∧ Refilled settled s₂ s₂' := by
      rcases variableKind_eq_ok.1 hfound with ⟨hk, rfl⟩ | ⟨hnone, hintro, rfl, rfl⟩
      · exact ⟨s', variableKind_eq_ok.2 (.inl ⟨by rw [h.scope, hk], rfl⟩), h⟩
      · refine ⟨_, variableKind_eq_ok.2 (.inr ⟨?_, hintro, ?_, rfl⟩), h.introduced name⟩
        · rw [h.scope, hnone]
        · rw [h.next]
    have hleaves : s₂.leaves = s.leaves := by
      rcases variableKind_eq_ok.1 hfound with ⟨-, rfl⟩ | ⟨-, -, -, rfl⟩ <;> rfl
    cases slot with
    | none =>
      refine ⟨[⟨place, name, k⟩], .var name sort (some (settled k)), ?_, fun _ => rfl, fun {s'} h => ?_⟩
      · rw [← hleaves]
        rfl
      · obtain ⟨s₂', hfound', h₂⟩ := hagain h
        exact ⟨_, kindConstraints_var_eq_ok.2 ⟨s₂', hfound', rfl⟩, h₂.noted ctx _ name k⟩
    | some a =>
      refine ⟨[], .var name sort (some a), ?_, fun _ => rfl, fun {s'} h => ?_⟩
      · rw [List.append_nil, ← hleaves]
        rfl
      · obtain ⟨s₂', hfound', h₂⟩ := hagain h
        exact ⟨_, kindConstraints_var_eq_ok.2 ⟨s₂', hfound', rfl⟩, h₂.equated ctx ..⟩
  | .app head args, _, s, s₁, k, hrun => by
    by_cases harrow : head.isArrowConstructor ∧ args.length = 2
    · obtain ⟨headKind, s₂, hhead, hargs, rfl⟩ := (kindConstraints_arrow_eq_ok harrow).1 hrun
      obtain ⟨new₁, head', hleaves₁, hfill₁, hagain₁⟩ := kindConstraints_again head hhead
      obtain ⟨new₂, args', hleaves₂, hfill₂, hagain₂⟩ := demandAtomic_again args .arrow hargs
      have harrow' := (isArrow_fill_iff (hfill₁ []) (hfill₂ [])).2 harrow
      refine ⟨new₁ ++ new₂, .app head' args', ?_, fun rest => ?_, fun {s'} h => ?_⟩
      · rw [hleaves₂, hleaves₁, List.append_assoc]
      · rw [List.map_append, List.append_assoc, fill_app, hfill₁, hfill₂ rest]
      · obtain ⟨s₂', hhead', h₂⟩ := hagain₁ h
        obtain ⟨s₁', hargs', h₁⟩ := hagain₂ h₂
        exact ⟨s₁', (kindConstraints_arrow_eq_ok harrow').2 ⟨headKind, s₂', hhead', hargs', rfl⟩, h₁⟩
    · obtain ⟨headKind, s₂, kinds, s₃, hhead, hargs, rfl, rfl⟩ :=
        (kindConstraints_app_eq_ok harrow).1 hrun
      obtain ⟨new₁, head', hleaves₁, hfill₁, hagain₁⟩ := kindConstraints_again head hhead
      obtain ⟨new₂, args', hleaves₂, hfill₂, hagain₂⟩ := kindConstraintsList_again args hargs
      have harrow' := mt (isArrow_fill_iff (hfill₁ []) (hfill₂ [])).1 harrow
      refine ⟨new₁ ++ new₂, .app head' args', ?_, fun rest => ?_, fun {s'} h => ?_⟩
      · rw [← List.append_assoc, ← hleaves₁]
        exact hleaves₂
      · rw [List.map_append, List.append_assoc, fill_app, hfill₁, hfill₂ rest]
      · obtain ⟨s₂', hhead', h₂⟩ := hagain₁ h
        obtain ⟨s₃', hargs', h₃⟩ := hagain₂ h₂
        refine ⟨_, (kindConstraints_app_eq_ok harrow').2
          ⟨headKind, s₂', kinds, s₃', hhead', hargs', by rw [h₃.next], rfl⟩, ?_⟩
        rw [applied, applied, h₃.next]
        exact h₃.bumped.equated ctx ..
  | .scheme vars body, _, s, s₁, k, hrun => by
    obtain ⟨bodyKind, s₂, hbody, rfl, rfl⟩ := kindConstraints_scheme_eq_ok.1 hrun
    obtain ⟨new, body', hleaves, hfill, hagain⟩ := kindConstraints_again body hbody
    rw [leaves_brought] at hleaves
    refine ⟨new, .scheme vars body', hleaves, fun rest => ?_, fun {s'} h => ?_⟩
    · simp [fill, hfill rest]
    · obtain ⟨s₂', hbody', h₂⟩ := hagain (h.entered.brought vars.names)
      exact ⟨_, kindConstraints_scheme_eq_ok.2 ⟨bodyKind, s₂', hbody', rfl, rfl⟩,
        (h₂.equated ctx ..).restored h⟩

lemma kindConstraintsList_again : (args : List Ty) → {place : Place} → {i : Nat} →
    {s s₁ : Kinding} → {kinds : List Kind} →
    kindConstraintsList ctx place i args s = .ok kinds s₁ →
    Refills settled s s₁ (fillList args) fun args' s' s₁' =>
      kindConstraintsList ctx place i args' s' = .ok kinds s₁'
  | [], _, _, s, s₁, kinds, hrun => by
    obtain ⟨rfl, rfl⟩ := kindConstraintsList_nil_eq_ok.1 hrun
    exact ⟨[], [], (List.append_nil _).symm, fun _ => rfl, fun {s'} h =>
      ⟨s', kindConstraintsList_nil_eq_ok.2 ⟨rfl, rfl⟩, h⟩⟩
  | a :: args, _, _, s, s₁, kinds, hrun => by
    obtain ⟨kind, s₂, rest, ha, hargs, rfl⟩ := kindConstraintsList_cons_eq_ok.1 hrun
    obtain ⟨new₁, a', hleaves₁, hfill₁, hagain₁⟩ := kindConstraints_again a ha
    obtain ⟨new₂, args', hleaves₂, hfill₂, hagain₂⟩ := kindConstraintsList_again args hargs
    refine ⟨new₁ ++ new₂, a' :: args', ?_, fun rest => ?_, fun {s'} h => ?_⟩
    · rw [hleaves₂, hleaves₁, List.append_assoc]
    · rw [List.map_append, List.append_assoc, fillList_cons, hfill₁, hfill₂ rest]
    · obtain ⟨s₂', ha', h₂⟩ := hagain₁ h
      obtain ⟨s₁', hargs', h₁⟩ := hagain₂ h₂
      exact ⟨s₁', kindConstraintsList_cons_eq_ok.2 ⟨kind, s₂', rest, ha', hargs', rfl⟩, h₁⟩

lemma demandAtomic_again : (args : List Ty) → {place : Place} → {i : Nat} →
    (origin' : KindOrigin) → {origin : KindOrigin} →
    {s s₁ : Kinding} → {u : Unit} → demandAtomic ctx origin place i args s = .ok u s₁ →
    Refills settled s s₁ (fillList args) fun args' s' s₁' =>
      demandAtomic ctx origin' place i args' s' = .ok u s₁'
  | [], _, _, origin', origin, s, s₁, u, hrun => by
    obtain rfl := demandAtomic_nil_eq_ok.1 hrun
    exact ⟨[], [], (List.append_nil _).symm, fun _ => rfl, fun {s'} h =>
      ⟨s', demandAtomic_nil_eq_ok.2 rfl, h⟩⟩
  | a :: args, _, _, origin', origin, s, s₁, u, hrun => by
    obtain ⟨kind, s₂, ha, hargs⟩ := demandAtomic_cons_eq_ok.1 hrun
    obtain ⟨new₁, a', hleaves₁, hfill₁, hagain₁⟩ := kindConstraints_again a ha
    obtain ⟨new₂, args', hleaves₂, hfill₂, hagain₂⟩ :=
      demandAtomic_again args origin' hargs
    refine ⟨new₁ ++ new₂, a' :: args', ?_, fun rest => ?_, fun {s'} h => ?_⟩
    · rw [← List.append_assoc, ← hleaves₁]
      exact hleaves₂
    · rw [List.map_append, List.append_assoc, fillList_cons, hfill₁, hfill₂ rest]
    · obtain ⟨s₂', ha', h₂⟩ := hagain₁ h
      obtain ⟨s₁', hargs', h₁⟩ := hagain₂ (h₂.equated ctx ..)
      exact ⟨s₁', demandAtomic_cons_eq_ok.2 ⟨kind, s₂', ha', hargs'⟩, h₁⟩
end

mutual
/-- What is true of the kinds recorded and of those to be recorded is true of what is recorded in the
end, and of the kinds left over. -/
lemma recordedKinds_fill {P : Kind → Prop} : (t : Ty) → {kinds : List Kind} →
    (∀ k ∈ t.recordedKinds, P k) → (∀ k ∈ kinds, P k) →
    (∀ k ∈ (t.fill kinds).1.recordedKinds, P k) ∧ ∀ k ∈ (t.fill kinds).2, P k
  | .con _ none, [], ht, hkinds => ⟨ht, hkinds⟩
  | .con _ none, k :: kinds, _, hkinds => by simpa [fill, recordedKinds] using hkinds
  | .con _ (some _), _, ht, hkinds => ⟨ht, hkinds⟩
  | .var _ _ none, [], ht, hkinds => ⟨ht, hkinds⟩
  | .var _ _ none, k :: kinds, _, hkinds => by simpa [fill, recordedKinds] using hkinds
  | .var _ _ (some _), _, ht, hkinds => ⟨ht, hkinds⟩
  | .app head args, kinds, ht, hkinds => by
    obtain ⟨hhead, hargs⟩ := List.forall_mem_append.1 ht
    obtain ⟨hhead', hrest⟩ := recordedKinds_fill head hhead hkinds
    obtain ⟨hargs', hrest'⟩ := recordedKindsList_fillList args hargs hrest
    exact ⟨List.forall_mem_append.2 ⟨hhead', hargs'⟩, hrest'⟩
  | .scheme _ body, _, ht, hkinds => recordedKinds_fill body ht hkinds

lemma recordedKindsList_fillList {P : Kind → Prop} : (args : List Ty) → {kinds : List Kind} →
    (∀ k ∈ recordedKindsList args, P k) → (∀ k ∈ kinds, P k) →
    (∀ k ∈ recordedKindsList (fillList args kinds).1, P k) ∧ ∀ k ∈ (fillList args kinds).2, P k
  | [], _, hargs, hkinds => ⟨hargs, hkinds⟩
  | a :: args, kinds, hargs, hkinds => by
    obtain ⟨ha, hargs⟩ := List.forall_mem_append.1 hargs
    obtain ⟨ha', hrest⟩ := recordedKinds_fill a ha hkinds
    obtain ⟨hargs', hrest'⟩ := recordedKindsList_fillList args hargs hrest
    exact ⟨List.forall_mem_append.2 ⟨ha', hargs'⟩, hrest'⟩
end

end Ty

/-! ### Ascriptions -/

/-- All kinds that have been recorded in a type are ground. -/
def Ty.Grounded (t : Ty) : Prop := ∀ k ∈ t.recordedKinds, k.IsGround

instance : DecidablePred Ty.Grounded := fun t =>
  inferInstanceAs (Decidable (∀ k ∈ t.recordedKinds, k.IsGround))

lemma Ty.Grounded.admits {t : Ty} (ht : t.Grounded) : t.Admits fun _ => True :=
  ⟨fun _ _ => trivial, ht⟩

section Ascriptions

variable {scope : Scope Kind}

lemma checkAscription_run {t : Ty} {k : Kind} {s : Kinding} {settled : Kind → Kind}
    (hrun : t.kindConstraints ⟨scope, .introduce, none⟩ [] .initial = .ok k s)
    (hsettle : (s.equated ⟨scope, .introduce, none⟩ k .atomic .ascription).settle = .ok settled) :
    (checkAscription scope t).2 = .ok (s.leaves.map fun leaf => settled leaf.kind) := by
  have hwalk : (do
      let kind ← t.kindConstraints ⟨scope, .introduce, none⟩ []
      equate ⟨scope, .introduce, none⟩ kind .atomic .ascription : KindM Unit) .initial =
        .ok () (s.equated ⟨scope, .introduce, none⟩ k .atomic .ascription) :=
    bind_of_ok hrun
  have hinfer : inferAscription scope t = .ok (s.leaves.map (.map settled)) := by
    rw [inferAscription, hwalk]
    dsimp only
    rw [hsettle]
    rfl
  rw [checkAscription_of_ok hinfer, List.map_map]
  rfl

/-- An ascription with the kinds recorded that are found for it passes its check again, and there is
nothing more to be recorded. -/
lemma checkAscription_again (hscope : ∀ c k, scope.lookup c = some k → k.IsGround) {t : Ty}
    (ht : t.Grounded) {found : List Kind} (h : (checkAscription scope t).2 = .ok found) :
    ∃ t', (∀ rest, t.fill (found ++ rest) = (t', rest)) ∧ (checkAscription scope t').2 = .ok [] := by
  obtain ⟨k, s, settled, hrun, hsettle, rfl⟩ := checkAscription_eq_ok h
  obtain ⟨-, hs, hk⟩ := Ty.kindConstraints_keeps t ht.admits (bounded_initial hscope) hrun
  have hbounded : (s.equated ⟨scope, .introduce, none⟩ k .atomic .ascription).Bounded scope :=
    hs.equated _ hk (isGround_atomic.below _) _
  obtain ⟨new, t', hleaves, hfill, hagain⟩ := Ty.kindConstraints_again settled t hrun
  obtain ⟨s', hrun', hrefilled⟩ := hagain (.refl rfl)
  obtain rfl : s.leaves = new := hleaves
  -- What is recorded is ground, so that the second walk is bounded as well.
  have hnew : ∀ k ∈ s.leaves.map (fun leaf => settled leaf.kind), k.IsGround := by
    intro k hk
    obtain ⟨leaf, hleaf, rfl⟩ := List.mem_map.1 hk
    rw [(hbounded.settle_eq_ok hsettle).2 _ (hs.leaves leaf hleaf).1]
    exact isGround_bindAll hbounded.isGround_solution (hs.leaves leaf hleaf).1
  have ht' : t'.Grounded := by
    have hfilled := (Ty.recordedKinds_fill t ht hnew).1
    have heq := hfill []
    rw [List.append_nil] at heq
    rwa [heq] at hfilled
  obtain ⟨-, hs', hk'⟩ := Ty.kindConstraints_keeps t' ht'.admits (bounded_initial hscope) hrun'
  obtain ⟨settled', hsettle', -⟩ := (hrefilled.equated ⟨scope, .introduce, none⟩ k .atomic .ascription
    .ascription).settle hbounded (hs'.equated _ hk' (isGround_atomic.below _) _) hsettle
  refine ⟨t', hfill, ?_⟩
  rw [checkAscription_run hrun' hsettle', hrefilled.leaves]
  rfl

end Ascriptions

/-! ### Groups -/

lemma Ty.filterMap_fillList {β : Type} (f : Ty → Option β) (hf : ∀ t kinds, f (t.fill kinds).1 = f t)
    (args : List Ty) (kinds : List Kind) : (fillList args kinds).1.filterMap f = args.filterMap f := by
  induction args generalizing kinds with
  | nil => rfl
  | cons a args ih => simp only [fillList, List.filterMap_cons, hf, ih]

namespace Datatype

variable (d : Datatype) (kinds : List Kind)

lemma declaredName?_fill : (d.fill kinds).1.declaredName? = d.declaredName? := by
  obtain ⟨head, constructors, position⟩ := d
  match head with
  | .con _ none => cases kinds <;> rfl
  | .con _ (some _) => rfl
  | .var _ _ none => cases kinds <;> rfl
  | .var _ _ (some _) => rfl
  | .app (.con _ none) _ => cases kinds <;> rfl
  | .app (.con _ (some _)) _ => rfl
  | .app (.var _ _ none) _ => cases kinds <;> rfl
  | .app (.var _ _ (some _)) _ => rfl
  | .app (.app _ _) _ => rfl
  | .app (.scheme _ _) _ => rfl
  | .scheme _ _ => rfl

lemma paramNames_fill : (d.fill kinds).1.paramNames = d.paramNames := by
  obtain ⟨head, constructors, position⟩ := d
  cases head with
  | con _ slot => cases slot <;> cases kinds <;> rfl
  | var _ _ slot => cases slot <;> cases kinds <;> rfl
  | scheme _ _ => rfl
  | app head args =>
    refine Ty.filterMap_fillList _ (fun t kinds => ?_) args (head.fill kinds).2
    cases t with
    | con _ slot => cases slot <;> cases kinds <;> rfl
    | var _ _ slot => cases slot <;> cases kinds <;> rfl
    | app _ _ => rfl
    | scheme _ _ => rfl

end Datatype

section Groups

variable {base : Scope Kind} (settled : Kind → Kind)

lemma Datatype.kindConstraints_again {d : Datatype} {ctx : KindContext} {s s₁ : Kinding}
    {leaves : List Leaf} (hrun : d.kindConstraints ctx s = .ok leaves s₁) :
    ∃ d', (∀ rest, d.fill (leaves.map (fun leaf => settled leaf.kind) ++ rest) = (d', rest)) ∧
      ∀ {s'}, Refilled settled s s' → ∃ s₁', d'.kindConstraints ctx s' = .ok [] s₁' ∧
        Refilled settled s₁ s₁' := by
  obtain ⟨s₂, hwalk, rfl, rfl⟩ := Datatype.kindConstraints_eq_ok.1 hrun
  obtain ⟨new, types, hleaves, hfill, hagain⟩ := Ty.demandAtomic_again settled d.types
    (.declaration (d.name?.getD "")) hwalk
  rw [opened, leaves_brought] at hleaves
  obtain rfl : s₂.leaves = new := hleaves
  simp only [fillList_types, Prod.mk.injEq] at hfill
  refine ⟨(d.fill (s₂.leaves.map (fun leaf => settled leaf.kind) ++ [])).1, fun rest => ?_,
    fun {s'} h => ?_⟩
  · refine Prod.ext (eq_of_types ?_ ?_) (hfill rest).2
    · rw [shape_fill, shape_fill]
    · rw [(hfill rest).1, (hfill []).1]
  · obtain ⟨s₁', hwalk', h₁⟩ := hagain (h.cleared.entered.brought d.paramNames)
    refine ⟨s₁'.restored s', Datatype.kindConstraints_eq_ok.2 ⟨s₁', ?_, h₁.leaves, rfl⟩,
      h₁.restored h⟩
    rw [(hfill []).1, name?_fill, opened, paramNames_fill]
    exact hwalk'

lemma groupConstraints_again {group : List Datatype} {site : Nat} {s s₁ : Kinding}
    {leaves : List (List Leaf)}
    (hrun : groupConstraints base group site s = .ok leaves s₁) :
    ∃ group', (∀ rest, fillDatatypes group
        (leaves.flatten.map (fun leaf => settled leaf.kind) ++ rest) = (group', rest)) ∧
      ∀ {s'}, Refilled settled s s' → ∃ leaves' s₁',
        groupConstraints base group' site s' = .ok leaves' s₁' ∧ leaves'.flatten = [] ∧
          Refilled settled s₁ s₁' := by
  induction group generalizing site s leaves with
  | nil =>
    obtain ⟨rfl, rfl⟩ := groupConstraints_nil_eq_ok.1 hrun
    exact ⟨[], fun _ => rfl, fun {s'} h => ⟨[], s', groupConstraints_nil_eq_ok.2 ⟨rfl, rfl⟩, rfl, h⟩⟩
  | cons d group ih =>
    obtain ⟨own, s₂, more, hown, hmore, rfl⟩ := groupConstraints_cons_eq_ok.1 hrun
    obtain ⟨d', hfill₁, hagain₁⟩ := Datatype.kindConstraints_again settled hown
    obtain ⟨group', hfill₂, hagain₂⟩ := ih hmore
    refine ⟨d' :: group', fun rest => ?_, fun {s'} h => ?_⟩
    · rw [List.flatten_cons, List.map_append, List.append_assoc,
        fillDatatypes_cons (hfill₁ _) (hfill₂ rest)]
    · obtain ⟨s₂', hown', h₂⟩ := hagain₁ h
      obtain ⟨more', s₁', hmore', hempty, h₁⟩ := hagain₂ h₂
      exact ⟨[] :: more', s₁', groupConstraints_cons_eq_ok.2 ⟨[], s₂', more', hown', hmore', rfl⟩,
        hempty, h₁⟩

/-- The walk over a group is bounded, and the kinds of its leaves are flat. -/
lemma groupConstraints_keeps {group : List Datatype} {site : Nat} {s s₁ : Kinding}
    {leaves : List (List Leaf)} (hgroup : ∀ d ∈ group, ∀ t ∈ d.types, t.Grounded)
    (hs : s.Bounded base) (hrun : groupConstraints base group site s = .ok leaves s₁) :
    s₁.Bounded base ∧ ∀ leaf ∈ leaves.flatten, leaf.kind.isFlat := by
  induction group generalizing site s leaves with
  | nil =>
    obtain ⟨rfl, rfl⟩ := groupConstraints_nil_eq_ok.1 hrun
    exact ⟨hs, by simp⟩
  | cons d group ih =>
    obtain ⟨own, s₂, more, hown, hmore, rfl⟩ := groupConstraints_cons_eq_ok.1 hrun
    obtain ⟨hd, hgroup⟩ := List.forall_mem_cons.1 hgroup
    have hadmits : Ty.AdmitsList (fun _ => True) d.types := by
      refine ⟨fun _ _ => trivial, fun k hk => ?_⟩
      obtain ⟨t, ht, hk⟩ := Ty.mem_recordedKindsList.1 hk
      exact hd t ht k hk
    obtain ⟨-, hs₂, -, hflat⟩ := Datatype.kindConstraints_keeps hadmits hs hown
    obtain ⟨hs₁, hflats⟩ := ih hgroup hs₂ hmore
    exact ⟨hs₁, List.forall_mem_append.2 ⟨hflat, hflats⟩⟩

lemma declaredNames_fill (group : List Datatype) (kinds : List Kind) :
    declaredNames (fillDatatypes group kinds).1 = declaredNames group := by
  induction group generalizing kinds with
  | nil => rfl
  | cons d group ih =>
    rw [declaredNames, declaredNames, fillDatatypes, List.filterMap_cons, List.filterMap_cons,
      Datatype.declaredName?_fill]
    cases d.declaredName? with
    | none => exact ih _
    | some name => exact congrArg (name :: ·) (ih _)

lemma grounded_fillDatatypes {group : List Datatype} {kinds : List Kind}
    (hgroup : ∀ d ∈ group, ∀ t ∈ d.types, t.Grounded) (hkinds : ∀ k ∈ kinds, k.IsGround) :
    ∀ d ∈ (fillDatatypes group kinds).1, ∀ t ∈ d.types, t.Grounded := by
  induction group generalizing kinds with
  | nil => simp [fillDatatypes]
  | cons d group ih =>
    obtain ⟨hd, hgroup⟩ := List.forall_mem_cons.1 hgroup
    have hslots : ∀ k ∈ Ty.recordedKindsList d.types, k.IsGround := by
      intro k hk
      obtain ⟨t, ht, hk⟩ := Ty.mem_recordedKindsList.1 hk
      exact hd t ht k hk
    obtain ⟨hd', hrest⟩ := Ty.recordedKindsList_fillList d.types hslots hkinds
    rw [Datatype.fillList_types] at hd' hrest
    refine List.forall_mem_cons.2 ⟨fun t ht k hk => ?_, ih hgroup hrest⟩
    exact hd' k (Ty.mem_recordedKindsList.2 ⟨t, ht, hk⟩)

/-- What the inference of kinds for a group stands on. -/
lemma inferGroup_settles (hbase : ∀ c k, base.lookup c = some k → k.IsGround)
    {group : List Datatype} (hgroup : ∀ d ∈ group, ∀ t ∈ d.types, t.Grounded) {found : GroupKinds}
    (h : inferGroup base group = .ok found) :
    ∃ leaves s settled, (∀ d ∈ group, d.declaredName?.isSome) ∧
      groupConstraints base group 0 (headsDeclared group) = .ok leaves s ∧ s.Bounded base ∧
      s.settle = .ok settled ∧ (∀ k, k.isFlat → (settled k).IsGround) ∧
      (∀ leaf ∈ leaves.flatten, leaf.kind.isFlat) ∧ found = foundKinds group leaves settled := by
  obtain ⟨hheads, leaves, s, hrun⟩ := walk_of_inferGroup h
  obtain ⟨hs, hflat⟩ := groupConstraints_keeps hgroup ((bounded_initial hbase).brought _) hrun
  rw [inferGroup_run hheads hrun] at h
  cases hsettle : s.settle with
  | error e =>
    rw [hsettle] at h
    cases h
  | ok settled =>
    rw [hsettle] at h
    cases h
    refine ⟨leaves, s, settled, hheads, hrun, hs, hsettle, fun k hk => ?_, hflat, rfl⟩
    rw [(hs.settle_eq_ok hsettle).2 k hk]
    exact isGround_bindAll hs.isGround_solution hk

/-- The kinds found for a group are ground. -/
lemma isGround_of_inferGroup (hbase : ∀ c k, base.lookup c = some k → k.IsGround)
    {group : List Datatype} (hgroup : ∀ d ∈ group, ∀ t ∈ d.types, t.Grounded) {found : GroupKinds}
    (h : inferGroup base group = .ok found) {c : String} {k : Kind}
    (hk : found.declared.find? c = some k) : k.IsGround := by
  obtain ⟨leaves, s, settled, -, -, -, -, hground, -, rfl⟩ := inferGroup_settles hbase hgroup h
  rw [find?_foundKinds] at hk
  obtain ⟨head, hhead, rfl⟩ := Option.map_eq_some_iff.1 hk
  exact hground head (((bounded_initial hbase).brought _).scope hhead).1

lemma recorded_foundKinds (group : List Datatype) (leaves : List (List Leaf))
    (settled : Kind → Kind) :
    (foundKinds group leaves settled).recorded = leaves.flatten.map fun leaf => settled leaf.kind := by
  rw [GroupKinds.recorded, foundKinds, ← List.map_flatten, List.map_map]
  rfl

/-- A group with the kinds recorded that are found for it is found to have the same kinds again, and
there is nothing more to be recorded. -/
lemma inferGroup_again (hbase : ∀ c k, base.lookup c = some k → k.IsGround)
    {group : List Datatype} (hgroup : ∀ d ∈ group, ∀ t ∈ d.types, t.Grounded) {found : GroupKinds}
    (h : inferGroup base group = .ok found) :
    ∃ group' found', (∀ rest, fillDatatypes group (found.recorded ++ rest) = (group', rest)) ∧
      inferGroup base group' = .ok found' ∧ found'.declared = found.declared ∧
      found'.recorded = [] := by
  obtain ⟨leaves, s, settled, hheads, hrun, hs, hsettle, hground, hflat, rfl⟩ :=
    inferGroup_settles hbase hgroup h
  obtain ⟨group', hfill, hagain⟩ := groupConstraints_again settled hrun
  obtain ⟨leaves', s', hrun', hempty, hrefilled⟩ := hagain (.refl (leaves_brought ..))
  rw [← recorded_foundKinds group] at hfill
  have hgroup' : (fillDatatypes group (foundKinds group leaves settled).recorded).1 = group' := by
    have hall := hfill []
    rw [List.append_nil] at hall
    rw [hall]
  -- The second walk starts from the same heads and is bounded, too.
  have hnames : declaredNames group' = declaredNames group := hgroup' ▸ declaredNames_fill group _
  have hheads' : ∀ d ∈ group', d.declaredName?.isSome := by
    intro d' hd'
    rw [← hgroup'] at hd'
    obtain ⟨d, hd, own, rfl⟩ := mem_fillDatatypes hd'
    rw [Datatype.declaredName?_fill]
    exact hheads d hd
  have hgrounded : ∀ d ∈ group', ∀ t ∈ d.types, t.Grounded := by
    rw [← hgroup']
    refine grounded_fillDatatypes hgroup fun k hk => ?_
    rw [recorded_foundKinds] at hk
    obtain ⟨leaf, hleaf, rfl⟩ := List.mem_map.1 hk
    exact hground leaf.kind (hflat leaf hleaf)
  rw [headsDeclared, ← hnames, ← headsDeclared] at hrun'
  obtain ⟨hs', -⟩ := groupConstraints_keeps hgrounded ((bounded_initial hbase).brought _) hrun'
  obtain ⟨settled', hsettle', heq⟩ := hrefilled.settle hs hs' hsettle
  refine ⟨group', foundKinds group' leaves' settled', hfill, ?_, ?_, ?_⟩
  · rw [inferGroup_run hheads' hrun', hsettle']
    rfl
  · rw [foundKinds, foundKinds, hnames]
    refine congrArg Table.ofList (List.map_congr_left fun node hnode => ?_)
    rw [heq _ (isFlat_of_mem_broughtKinds hnode)]
  · rw [recorded_foundKinds, hempty, List.map_nil]

end Groups

end LetPoly
