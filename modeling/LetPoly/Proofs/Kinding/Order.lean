import LetPoly.Proofs.Kinding.Principal
import LetPoly.Proofs.Ty.Slots

/-!
# The order of a group

The kinds that are found for a group of datatypes do not depend on the order in which they are
listed (`inferKinds_perm`). In another order the walk gives out other kind variables and collects
its equations in another order; but what it does to one datatype depends on the kinds of the heads
only, and so every solution of the equations of one order gives one of the other, with the same
kinds for all heads and nodes. Two most general solutions are then instances of each other, and
nothing of the difference is left once the kinds are closed.
-/

namespace LetPoly

open Kind Kinding

variable {θ θ' : KindVar → Kind}

/-! ### Kinds that agree -/

/-- Of two trees that are instances of each other, putting one tree for all variables makes the
same. -/
lemma Tree.bind_const_of_instances {C X Y Z : Type} {t : Tree C X} {u : Tree C Y}
    {σ : X → Tree C Y} {τ : Y → Tree C X} (hσ : t.bind σ = u) (hτ : u.bind τ = t) (c : Tree C Z) :
    u.bind (fun _ => c) = t.bind fun _ => c := by
  have hback : t.bind (fun x => (σ x).bind τ) = t.bind .var := by
    rw [← Tree.bind_bind, hσ, hτ, Tree.bind_self]
  rw [← hσ, Tree.bind_bind]
  refine Tree.bind_congr fun x hx => ?_
  have hx := Tree.bind_eq_bind_iff.1 hback x hx
  -- What is made a variable again is one.
  cases hvalue : σ x with
  | var y => rfl
  | leaf _ => rw [hvalue] at hx; cases hx
  | node _ _ => rw [hvalue] at hx; cases hx

namespace Kind

/-- Two flat kinds of which two substitutions make the same. -/
structure Agree (θ θ' : KindVar → Kind) (k k' : Kind) : Prop where
  left : k.isFlat
  right : k'.isFlat
  eq : bindAll θ k = bindAll θ' k'

lemma IsGround.agree {k : Kind} (hk : k.IsGround) : Agree θ θ' k k :=
  ⟨hk.1, hk.1, (hk.bindAll_eq θ).trans (hk.bindAll_eq θ').symm⟩

lemma Agree.function (hθ : ∀ v, (θ v).isFlat) (hθ' : ∀ v, (θ' v).isFlat)
    {links links' : List Kind} (hne : links ≠ []) (h : List.Forall₂ (Agree θ θ') links links') :
    Agree θ θ' (function links) (function links') := by
  have hspec : (∀ k ∈ links, k.isFlat) ∧ (∀ k ∈ links', k.isFlat) ∧
      links.map (bindAll θ) = links'.map (bindAll θ') := by
    clear hne
    induction h with
    | nil => simp
    | cons hk _ ih =>
      rw [List.forall_mem_cons, List.forall_mem_cons, List.map_cons, List.map_cons, hk.eq, ih.2.2]
      exact ⟨⟨hk.left, ih.1⟩, ⟨hk.right, ih.2.1⟩, rfl⟩
  have hne' : links' ≠ [] := by
    rintro rfl
    exact hne (List.forall₂_nil_right_iff.1 h)
  obtain ⟨hflat, hflat', heq⟩ := hspec
  refine ⟨isFlat_function hne hflat, isFlat_function hne' hflat', ?_⟩
  rw [bindAll_function hθ hne hflat, bindAll_function hθ' hne' hflat', heq]

/-- Kinds that are instances of each other are the same once they are closed. -/
lemma close_eq_of_instances {a b : Kind} (ha : a.isFlat) (hb : b.isFlat)
    (hθ : ∀ v, (θ v).isFlat) (hθ' : ∀ v, (θ' v).isFlat) (hab : bindAll θ a = b)
    (hba : bindAll θ' b = a) : b.close = a.close := by
  have hinst : a.tree.bind (fun v => (θ v).tree) = b.tree := by rw [← (bindAll_spec hθ a ha).2, hab]
  have hinst' : b.tree.bind (fun v => (θ' v).tree) = a.tree := by
    rw [← (bindAll_spec hθ' b hb).2, hba]
  obtain ⟨hflat, htree⟩ := bindAll_spec (σ := fun _ => .atomic) (fun _ => rfl) a ha
  obtain ⟨hflat', htree'⟩ := bindAll_spec (σ := fun _ => .atomic) (fun _ => rfl) b hb
  rw [close_eq_bindAll ha, close_eq_bindAll hb, ← tree_injective hflat' hflat, htree, htree']
  exact Tree.bind_const_of_instances hinst hinst' _

end Kind

/-! ### Two walks over one type -/

namespace Kinding

variable {before : List (Equation Kind (Sited KindOrigin))} {base : Scope Kind} {mode : Unscoped}
  {site site' : Option Nat} {s s' : Kinding}

/-- Nodes at the same places and of the same names, with kinds of which two substitutions make the
same. -/
def NodesAgree (θ θ' : KindVar → Kind) (own own' : List Leaf) : Prop :=
  List.Forall₂ (fun leaf leaf' => leaf.place = leaf'.place ∧ leaf.name = leaf'.name ∧
    Agree θ θ' leaf.kind leaf'.kind) own own'

/-- The states of two walks, if two substitutions make the same of the kinds in scope, of the kinds of
the nodes and of the kind variables to come, and of the two sides of equations that the second walk
has collected beside those in `before`. -/
structure Mirrors (θ θ' : KindVar → Kind) (before : List (Equation Kind (Sited KindOrigin)))
    (s s' : Kinding) : Prop where
  next (i : Nat) : θ ⟨s.next + i⟩ = θ' ⟨s'.next + i⟩
  scope (x : String) : Option.Rel (Agree θ θ') (s.scope.lookup x) (s'.scope.lookup x)
  equations : ∀ e' ∈ s'.equations, e' ∈ before ∨
    ∃ e ∈ s.equations, Agree θ θ' e.left e'.left ∧ Agree θ θ' e.right e'.right
  leaves : NodesAgree θ θ' s.leaves s'.leaves

/-- Two runs both fail, or have related results in states that mirror each other. -/
abbrev Mirrored {α : Type} (θ θ' : KindVar → Kind)
    (before : List (Equation Kind (Sited KindOrigin))) (R : α → α → Prop) (x x' : KindM α)
    (s s' : Kinding) : Prop :=
  Alike (fun _ _ _ _ => True) (fun a t a' t' => R a a' ∧ Mirrors θ θ' before t t') (x s) (x' s')

lemma Mirrors.bumped (h : Mirrors θ θ' before s s') : Mirrors θ θ' before s.bumped s'.bumped := by
  refine { h with next := fun i => ?_ }
  have := h.next (i + 1)
  rwa [show s.next + (i + 1) = s.bumped.next + i by simp [Kinding.bumped]; omega,
    show s'.next + (i + 1) = s'.bumped.next + i by simp [Kinding.bumped]; omega] at this

lemma Mirrors.entered (h : Mirrors θ θ' before s s') : Mirrors θ θ' before s.entered s'.entered :=
  { h with }

lemma mirrored_fresh (h : Mirrors θ θ' before s s') :
    Mirrored θ θ' before (Agree θ θ') fresh fresh s s' :=
  ⟨⟨rfl, rfl, h.next 0⟩, h.bumped⟩

lemma mirrored_bring (name : String) {k k' : Kind} (hk : Agree θ θ' k k')
    (h : Mirrors θ θ' before s s') :
    Mirrored θ θ' before (fun _ _ => True) (bring name k) (bring name k') s s' := by
  refine ⟨trivial, { h with scope := fun x => ?_ }⟩
  rw [Scope.lookup_insert, Scope.lookup_insert]
  split
  · exact .some hk
  · exact h.scope x

lemma mirrored_bringAll (names : List String) (h : Mirrors θ θ' before s s') :
    Mirrored θ θ' before (fun _ _ => True) (bringAll names) (bringAll names) s s' := by
  induction names generalizing s s' with
  | nil => exact ⟨trivial, h⟩
  | cons name names ih =>
    refine (mirrored_fresh h).bind ?_
    rintro k s₁ k' s₁' ⟨hk, h₁⟩
    exact (mirrored_bring name hk h₁).bind fun _ _ _ _ h₂ => ih h₂.2

lemma mirrored_equate {left right left' right' : Kind} (hl : Agree θ θ' left left')
    (hr : Agree θ θ' right right') (origin origin' : KindOrigin) (h : Mirrors θ θ' before s s') :
    Mirrored θ θ' before (fun _ _ => True) (equate ⟨base, mode, site⟩ left right origin)
      (equate ⟨base, mode, site'⟩ left' right' origin') s s' := by
  refine ⟨trivial, { h with equations := fun e' he' => ?_ }⟩
  rcases List.mem_append.1 he' with he' | he'
  · refine (h.equations e' he').imp_right fun he => ?_
    obtain ⟨e, he, hagree⟩ := he
    exact ⟨e, List.mem_append_left _ he, hagree⟩
  · obtain rfl := List.mem_singleton.1 he'
    exact .inr ⟨_, List.mem_append_right _ List.mem_cons_self, hl, hr⟩

lemma mirrored_note (place : Place) (name : String) {slot : KindSlot}
    (hslot : ∀ k ∈ slot, k.IsGround) {k k' : Kind} (hk : Agree θ θ' k k')
    (h : Mirrors θ θ' before s s') :
    Mirrored θ θ' before (fun _ _ => True) (note ⟨base, mode, site⟩ place name slot k)
      (note ⟨base, mode, site'⟩ place name slot k') s s' := by
  cases slot with
  | some assigned => exact mirrored_equate hk (hslot assigned rfl).agree _ _ h
  | none => exact ⟨trivial, { h with leaves := List.rel_append h.leaves (.cons ⟨rfl, rfl, hk⟩ .nil) }⟩

lemma mirrored_constructorKind (hbase : ∀ name k, base.lookup name = some k → k.IsGround)
    (name : String) (h : Mirrors θ θ' before s s') :
    Mirrored θ θ' before (Agree θ θ') (constructorKind ⟨base, mode, site⟩ name)
      (constructorKind ⟨base, mode, site'⟩ name) s s' := by
  rw [Mirrored, constructorKind, constructorKind, bind_get, bind_get]
  have hscope := h.scope name
  generalize s.scope.lookup name = found at hscope ⊢
  generalize s'.scope.lookup name = found' at hscope ⊢
  cases hscope with
  | some hk => exact ⟨hk, h⟩
  | none =>
    cases hk : base.lookup name with
    | some k => exact ⟨(hbase name k hk).agree, h⟩
    | none => trivial

lemma mirrored_variableKind (name : String) (h : Mirrors θ θ' before s s') :
    Mirrored θ θ' before (Agree θ θ') (variableKind ⟨base, mode, site⟩ name)
      (variableKind ⟨base, mode, site'⟩ name) s s' := by
  rw [Mirrored, variableKind, variableKind, bind_get, bind_get]
  have hscope := h.scope name
  generalize s.scope.lookup name = found at hscope ⊢
  generalize s'.scope.lookup name = found' at hscope ⊢
  cases hscope with
  | some hk => exact ⟨hk, h⟩
  | none =>
    cases mode with
    | refuse => trivial
    | introduce =>
      refine (mirrored_fresh h).bind ?_
      rintro k s₁ k' s₁' ⟨hk, h₁⟩
      exact (mirrored_bring name hk h₁).bind fun _ _ _ _ h₂ => ⟨hk, h₂.2⟩

lemma mirrored_inChild {α : Type} {R : α → α → Prop} {x x' : KindM α} (h : Mirrors θ θ' before s s')
    (hx : Mirrored θ θ' before R x x' s.entered s'.entered) :
    Mirrored θ θ' before R (inChild x) (inChild x') s s' :=
  alike_inChild hx (fun _ _ _ _ _ => trivial) fun _ _ _ _ hq => ⟨hq.1, { hq.2 with scope := h.scope }⟩

end Kinding

namespace Ty

variable {before : List (Equation Kind (Sited KindOrigin))} {base : Scope Kind} {mode : Unscoped}
  {site site' : Option Nat}

mutual
/-- The walks over one type from states that mirror each other mirror each other. -/
lemma mirrored_kindConstraints (hθ : ∀ v, (θ v).isFlat) (hθ' : ∀ v, (θ' v).isFlat)
    (hbase : ∀ name k, base.lookup name = some k → k.IsGround) : (t : Ty) →
    {place : Place} → (∀ k ∈ t.recordedKinds, k.IsGround) → {s s' : Kinding} →
    Mirrors θ θ' before s s' →
    Mirrored θ θ' before (Agree θ θ') (t.kindConstraints ⟨base, mode, site⟩ place)
      (t.kindConstraints ⟨base, mode, site'⟩ place) s s'
  | .con name slot, place, hslot, _, _, h => by
    rw [kindConstraints, kindConstraints]
    refine (mirrored_constructorKind hbase name h).bind ?_
    rintro k s₁ k' s₁' ⟨hk, h₁⟩
    refine (mirrored_note place name (fun k hk => hslot k (Option.mem_toList.2 hk)) hk h₁).bind ?_
    exact fun _ _ _ _ h₂ => ⟨hk, h₂.2⟩
  | .var name sort slot, place, hslot, _, _, h => by
    rw [kindConstraints, kindConstraints]
    refine (mirrored_variableKind name h).bind ?_
    rintro k s₁ k' s₁' ⟨hk, h₁⟩
    refine (mirrored_note place name (fun k hk => hslot k (Option.mem_toList.2 hk)) hk h₁).bind ?_
    exact fun _ _ _ _ h₂ => ⟨hk, h₂.2⟩
  | .app head args, _, hslot, _, _, h => by
    have hargs : ∀ k ∈ recordedKindsList args, k.IsGround := fun k hk =>
      hslot k (List.mem_append_right _ hk)
    rw [kindConstraints, kindConstraints]
    refine (mirrored_kindConstraints hθ hθ' hbase head
      (fun k hk => hslot k (List.mem_append_left _ hk)) h).bind ?_
    rintro k s₁ k' s₁' ⟨hk, h₁⟩
    split
    · rw [operandConstraints_eq, operandConstraints_eq]
      exact (mirrored_demandAtomic hθ hθ' hbase args hargs _ h₁).bind
        fun _ _ _ _ h₂ => ⟨isGround_atomic.agree, h₂.2⟩
    · refine (mirrored_kindConstraintsList hθ hθ' hbase args hargs h₁).bind ?_
      rintro ks s₂ ks' s₂' ⟨hks, h₂⟩
      refine (mirrored_fresh h₂).bind ?_
      rintro result s₃ result' s₃' ⟨hresult, h₃⟩
      have happlied := Agree.function hθ hθ' (by simp) (List.rel_append hks (.cons hresult .nil))
      exact (mirrored_equate hk happlied _ _ h₃).bind fun _ _ _ _ h₄ => ⟨hresult, h₄.2⟩
  | .scheme vars body, _, hslot, _, _, h => by
    rw [kindConstraints, kindConstraints]
    refine mirrored_inChild h ((mirrored_bringAll vars.names h.entered).bind ?_)
    rintro _ s₁ _ s₁' ⟨_, h₁⟩
    refine (mirrored_kindConstraints hθ hθ' hbase body hslot h₁).bind ?_
    rintro k s₂ k' s₂' ⟨hk, h₂⟩
    exact (mirrored_equate hk isGround_atomic.agree _ _ h₂).bind
      fun _ _ _ _ h₃ => ⟨isGround_atomic.agree, h₃.2⟩

lemma mirrored_kindConstraintsList (hθ : ∀ v, (θ v).isFlat) (hθ' : ∀ v, (θ' v).isFlat)
    (hbase : ∀ name k, base.lookup name = some k → k.IsGround) : (args : List Ty) →
    {place : Place} → {i : Nat} → (∀ k ∈ recordedKindsList args, k.IsGround) → {s s' : Kinding} →
    Mirrors θ θ' before s s' → Mirrored θ θ' before (List.Forall₂ (Agree θ θ'))
      (kindConstraintsList ⟨base, mode, site⟩ place i args)
      (kindConstraintsList ⟨base, mode, site'⟩ place i args) s s'
  | [], _, _, _, _, _, h => ⟨.nil, h⟩
  | a :: args, _, _, hslot, _, _, h => by
    rw [kindConstraintsList, kindConstraintsList]
    refine (mirrored_kindConstraints hθ hθ' hbase a
      (fun k hk => hslot k (List.mem_append_left _ hk)) h).bind ?_
    rintro k s₁ k' s₁' ⟨hk, h₁⟩
    refine (mirrored_kindConstraintsList hθ hθ' hbase args
      (fun k hk => hslot k (List.mem_append_right _ hk)) h₁).bind ?_
    rintro ks s₂ ks' s₂' ⟨hks, h₂⟩
    exact ⟨.cons hk hks, h₂⟩

lemma mirrored_demandAtomic (hθ : ∀ v, (θ v).isFlat) (hθ' : ∀ v, (θ' v).isFlat)
    (hbase : ∀ name k, base.lookup name = some k → k.IsGround) : (args : List Ty) →
    {place : Place} → {i : Nat} → (∀ k ∈ recordedKindsList args, k.IsGround) →
    (origin : KindOrigin) → {s s' : Kinding} → Mirrors θ θ' before s s' →
    Mirrored θ θ' before (fun _ _ => True) (demandAtomic ⟨base, mode, site⟩ origin place i args)
      (demandAtomic ⟨base, mode, site'⟩ origin place i args) s s'
  | [], _, _, _, _, _, _, h => ⟨trivial, h⟩
  | a :: args, _, _, hslot, origin, _, _, h => by
    rw [demandAtomic, demandAtomic]
    refine (mirrored_kindConstraints hθ hθ' hbase a
      (fun k hk => hslot k (List.mem_append_left _ hk)) h).bind ?_
    rintro k s₁ k' s₁' ⟨hk, h₁⟩
    refine (mirrored_equate hk isGround_atomic.agree _ _ h₁).bind ?_
    exact fun _ _ _ _ h₂ => mirrored_demandAtomic hθ hθ' hbase args
      (fun k hk => hslot k (List.mem_append_right _ hk)) origin h₂.2
end

end Ty

lemma Datatype.mirrored_kindConstraints (hθ : ∀ v, (θ v).isFlat) (hθ' : ∀ v, (θ' v).isFlat)
    {base : Scope Kind} (hbase : ∀ name k, base.lookup name = some k → k.IsGround) {d : Datatype}
    (hslot : ∀ k ∈ Ty.recordedKindsList d.types, k.IsGround) {mode : Unscoped}
    {site site' : Option Nat} {before : List (Equation Kind (Sited KindOrigin))} {s s' : Kinding}
    (hcleared : Mirrors θ θ' before s.cleared s'.cleared) :
    Mirrored θ θ' before (NodesAgree θ θ') (d.kindConstraints ⟨base, mode, site⟩)
      (d.kindConstraints ⟨base, mode, site'⟩) s s' := by
  refine Alike.bind (Q := fun _ t _ t' => t = s.cleared ∧ t' = s'.cleared) ⟨rfl, rfl⟩ ?_
  rintro _ _ _ _ ⟨rfl, rfl⟩
  refine (mirrored_inChild hcleared ((mirrored_bringAll d.paramNames hcleared.entered).bind
    fun _ _ _ _ h₁ => Ty.mirrored_demandAtomic hθ hθ' hbase d.types hslot _ h₁.2)).bind ?_
  exact fun _ t _ t' h₂ => ⟨h₂.2.leaves, h₂.2⟩

/-! ### Two orders of a group -/

section Group

variable {base : Scope Kind} {s s' t : Kinding}

lemma Datatype.admits {d : Datatype} (h : ∀ k ∈ Ty.recordedKindsList d.types, k.IsGround) :
    Ty.AdmitsList (fun _ => True) d.types :=
  ⟨fun _ _ => trivial, h⟩

/-- The datatype is walked over somewhere between `s` and `t`, with `own` for its nodes. -/
def Walked (base : Scope Kind) (s t : Kinding) (d : Datatype) (own : List Leaf) : Prop :=
  ∃ (site : Option Nat) (s₁ t₁ : Kinding), s₁.scope = s.scope ∧ t₁.equations ⊆ t.equations ∧
    d.kindConstraints ⟨base, .refuse, site⟩ s₁ = .ok own t₁

lemma groupConstraints_walked {ds : List Datatype}
    (hds : ∀ d ∈ ds, ∀ k ∈ Ty.recordedKindsList d.types, k.IsGround) (hs : s.Bounded base)
    {site : Nat} {leaves : List (List Leaf)}
    (hrun : groupConstraints base ds site s = .ok leaves t) :
    t.Bounded base ∧ s.equations ⊆ t.equations ∧ List.Forall₂ (Walked base s t) ds leaves ∧
      ∀ own ∈ leaves, ∀ leaf ∈ own, leaf.kind.isFlat := by
  induction ds generalizing s site leaves with
  | nil =>
    obtain ⟨rfl, rfl⟩ := groupConstraints_nil_eq_ok.1 hrun
    exact ⟨hs, List.Subset.refl _, .nil, by simp⟩
  | cons d ds ih =>
    rw [List.forall_mem_cons] at hds
    obtain ⟨own, s₁, more, hd, hmore, rfl⟩ := groupConstraints_cons_eq_ok.1 hrun
    obtain ⟨hleads, hs₁, -, hflat⟩ := Datatype.kindConstraints_keeps (Datatype.admits hds.1) hs hd
    obtain ⟨ht, hsub, hwalked, hflats⟩ := ih hds.2 hs₁ hmore
    have hscope : s₁.scope = s.scope := by
      obtain ⟨_, _, _, rfl⟩ := Datatype.kindConstraints_eq_ok.1 hd
      rfl
    refine ⟨ht, List.Subset.trans hleads.equations hsub,
      .cons ⟨_, s, s₁, rfl, hsub, hd⟩ (hwalked.imp ?_), List.forall_mem_cons.2 ⟨hflat, hflats⟩⟩
    rintro d own ⟨site, s₂, t₂, hscope₂, hrest⟩
    exact ⟨site, s₂, t₂, hscope₂.trans hscope, hrest⟩

/-- The substitution with the values of `θ'` below `n'` and of `θ`, counted from `n`, from there on. -/
def continued (n n' : Nat) (θ θ' : KindVar → Kind) (v : KindVar) : Kind :=
  if v.id < n' then θ' v else θ ⟨n + (v.id - n')⟩

lemma sameBelow_continued (n n' : Nat) (θ θ' : KindVar → Kind) :
    SameBelow n' θ' (continued n n' θ θ') := fun _ hv => if_pos hv

lemma continued_add (n n' : Nat) (θ θ' : KindVar → Kind) (i : Nat) :
    continued n n' θ θ' ⟨n' + i⟩ = θ ⟨n + i⟩ := by
  rw [continued, if_neg (by simp), Nat.add_sub_cancel_left]

lemma isFlat_continued (hθ : ∀ v, (θ v).isFlat) (hθ' : ∀ v, (θ' v).isFlat) (n n' : Nat)
    (v : KindVar) : (continued n n' θ θ' v).isFlat := by
  rw [continued]
  split
  · exact hθ' v
  · exact hθ _

/-- Substitutions make the same of what is in scope in two states. -/
def ScopesAgree (θ θ' : KindVar → Kind) (s s' : Kinding) : Prop :=
  ∀ x, Option.Rel (Agree θ θ') (s.scope.lookup x) (s'.scope.lookup x)

lemma ScopesAgree.change (h : ScopesAgree θ θ' s s') (hs' : s'.Bounded base) {θ'' : KindVar → Kind}
    (hsame : SameBelow s'.next θ' θ'') : ScopesAgree θ θ'' s s' := by
  intro x
  have hx := h x
  have hbelow : ∀ k', s'.scope.lookup x = some k' → k'.Below s'.next := fun _ => hs'.scope
  generalize s.scope.lookup x = found at hx ⊢
  generalize s'.scope.lookup x = found' at hx hbelow ⊢
  cases hx with
  | none => exact .none
  | some hk =>
    exact .some ⟨hk.left, hk.right, hk.eq.trans (hsame.bindAll_eq (hbelow _ rfl)).symm⟩

lemma NodesAgree.change {own own' : List Leaf} (h : NodesAgree θ θ' own own') {n : Nat}
    (hown' : ∀ leaf ∈ own', leaf.kind.Below n) {θ'' : KindVar → Kind} (hsame : SameBelow n θ' θ'') :
    NodesAgree θ θ'' own own' := by
  induction h with
  | nil => exact .nil
  | cons hnode _ ih =>
    rw [List.forall_mem_cons] at hown'
    obtain ⟨hplace, hname, hkind⟩ := hnode
    refine .cons ⟨hplace, hname, hkind.left, hkind.right, ?_⟩ (ih hown'.2)
    exact hkind.eq.trans (hsame.bindAll_eq hown'.1).symm

/-- A substitution goes with a state in which a walk goes on. -/
structure Solving (base : Scope Kind) (θ θ' : KindVar → Kind) (s s' : Kinding) : Prop where
  flat : ∀ v, (θ' v).isFlat
  bounded : s'.Bounded base
  unified : Unified θ' s'.equations
  scope : ScopesAgree θ θ' s s'

/-- Where a solution of the equations of one walk is known, a datatype that it comes to may be walked
over in another state as well, with a solution that makes the same of the nodes. -/
lemma Walked.transfer (hθ : ∀ v, (θ v).isFlat) (hunified : Unified θ t.equations) {d : Datatype}
    (hslot : ∀ k ∈ Ty.recordedKindsList d.types, k.IsGround) {own : List Leaf}
    (h : Walked base s t d own) (hs' : Solving base θ θ' s s') (site : Option Nat) :
    ∃ own' t' θ'', d.kindConstraints ⟨base, .refuse, site⟩ s' = .ok own' t' ∧
      s'.next ≤ t'.next ∧ SameBelow s'.next θ' θ'' ∧ Solving base θ θ'' s t' ∧
      NodesAgree θ θ'' own own' ∧ ∀ leaf ∈ own', leaf.kind.Below t'.next := by
  obtain ⟨site₁, s₁, t₁, hscope, hsub, hrun⟩ := h
  have hsame := sameBelow_continued s₁.next s'.next θ θ'
  have hflat := isFlat_continued hθ hs'.flat s₁.next s'.next
  have hscopes := hs'.scope.change hs'.bounded hsame
  have hmirrors : Mirrors θ (continued s₁.next s'.next θ θ') s'.equations s₁.cleared s'.cleared := by
    refine ⟨fun i => (continued_add _ _ _ _ i).symm, fun x => ?_, fun e' he' => .inl he', .nil⟩
    show Option.Rel _ (s₁.scope.lookup x) (s'.scope.lookup x)
    rw [hscope]
    exact hscopes x
  obtain ⟨own', t', hrun', hnodes, hmirrors'⟩ := (Datatype.mirrored_kindConstraints hθ hflat
    (fun _ _ => hs'.bounded.base) hslot hmirrors).ok_right hrun
  obtain ⟨hleads, ht', -, -⟩ :=
    Datatype.kindConstraints_keeps (Datatype.admits hslot) hs'.bounded hrun'
  obtain ⟨s₂, -, rfl, rfl⟩ := Datatype.kindConstraints_eq_ok.1 hrun'
  refine ⟨_, _, _, hrun', hleads.next_le, hsame, ⟨hflat, ht', fun e' he' => ?_, hscopes⟩, hnodes,
    ht'.leaves⟩
  rcases hmirrors'.equations e' he' with he' | ⟨e, he, hleft, hright⟩
  · obtain ⟨hl, hr⟩ := hs'.bounded.equations e' he'
    rw [hsame.bindAll_eq hl, hsame.bindAll_eq hr, hs'.unified e' he']
  · rw [← hleft.eq, ← hright.eq, hunified e (hsub he)]

lemma groupConstraints_transfer (hθ : ∀ v, (θ v).isFlat) (hunified : Unified θ t.equations)
    {walked : List (Datatype × List Leaf)}
    (hslot : ∀ p ∈ walked, ∀ k ∈ Ty.recordedKindsList p.1.types, k.IsGround)
    (h : ∀ p ∈ walked, Walked base s t p.1 p.2) (hs' : Solving base θ θ' s s') (site : Nat) :
    ∃ leaves' t' θ'', groupConstraints base (walked.map Prod.fst) site s' = .ok leaves' t' ∧
      SameBelow s'.next θ' θ'' ∧ Solving base θ θ'' s t' ∧
      List.Forall₂ (fun p own' => NodesAgree θ θ'' p.2 own') walked leaves' := by
  induction walked generalizing s' θ' site with
  | nil => exact ⟨[], s', θ', rfl, .refl _ _, hs', .nil⟩
  | cons p walked ih =>
    rw [List.forall_mem_cons] at hslot h
    obtain ⟨own', t₁, θ₁, hrun, hle, hsame, hs₁, hnodes, hbelow⟩ :=
      h.1.transfer hθ hunified hslot.1 hs' (some site)
    obtain ⟨leaves', t', θ₂, hruns, hsame₂, hs₂, hleaves⟩ := ih hslot.2 h.2 hs₁ (site + 1)
    exact ⟨own' :: leaves', t', θ₂,
      groupConstraints_cons_eq_ok.2 ⟨own', t₁, leaves', hrun, hruns, rfl⟩, hsame.trans hle hsame₂,
      hs₂, .cons (NodesAgree.change hnodes hbelow hsame₂) hleaves⟩

/-- The heads of two groups that declare the same names may be given the same kinds. -/
lemma exists_solving_heads (hbase : ∀ name k, base.lookup name = some k → k.IsGround)
    (hθ : ∀ v, (θ v).isFlat) {group group' : List Datatype}
    (hnames : ∀ x, x ∈ declaredNames group' ↔ x ∈ declaredNames group) :
    ∃ θ', Solving base θ θ' (headsDeclared group) (headsDeclared group') := by
  let headKind (x : String) : Kind :=
    if x ∈ declaredNames group' then bindAll θ (((headsDeclared group).scope.lookup x).getD .atomic)
    else .atomic
  have hflat {x : String} {k : Kind} (hk : (headsDeclared group).scope.lookup x = some k) :
      k.isFlat := (((bounded_initial hbase).brought _).scope hk).1
  have hkind : ∀ x ∈ declaredNames group', True ∧ (headKind x).isFlat := by
    intro x hx
    simp only [headKind, if_pos hx, true_and]
    cases hk : (headsDeclared group).scope.lookup x with
    | none => rfl
    | some k => exact isFlat_bindAll hθ (hflat hk)
  obtain ⟨θ', -, hm⟩ := (models_initial base).brought (bounded_initial hbase)
    (fun x hx => if_neg hx) hkind
  refine ⟨θ', hm.flat, (bounded_initial hbase).brought _, hm.unified, fun x => ?_⟩
  by_cases hx : x ∈ declaredNames group
  · obtain ⟨v, hv⟩ := lookup_brought_of_mem (s := .initial) hx
    obtain ⟨v', hv'⟩ := lookup_brought_of_mem (s := .initial) ((hnames x).2 hx)
    have hvalue := hm.var trivial hv'
    simp only [if_pos ((hnames x).2 hx), headsDeclared, hv, Option.getD_some] at hvalue
    rw [headsDeclared, headsDeclared, hv, hv']
    exact .some ⟨rfl, rfl, hvalue⟩
  · rw [headsDeclared, headsDeclared, lookup_brought_of_not_mem hx,
      lookup_brought_of_not_mem (mt (hnames x).1 hx), lookup_initial]
    exact .none

/-- What a successful inference stands on. -/
structure GroupRun (base : Scope Kind) (group : List Datatype)
    (leaves : List (List Leaf)) (t : Kinding) : Prop where
  heads : ∀ d ∈ group, d.declaredName?.isSome
  run : groupConstraints base group 0 (headsDeclared group) = .ok leaves t
  unified : Unified (mgu t.equations) t.equations

lemma inferGroup_eq_ok_iff (hbase : ∀ name k, base.lookup name = some k → k.IsGround)
    {group : List Datatype} (hslot : ∀ d ∈ group, ∀ k ∈ Ty.recordedKindsList d.types, k.IsGround)
    {found : GroupKinds} : inferGroup base group = .ok found ↔
      ∃ leaves t, GroupRun base group leaves t ∧ foundKinds group leaves (bindAll t.solution) = found := by
  constructor
  · intro hok
    obtain ⟨hheads, leaves, t, hrun⟩ := walk_of_inferGroup hok
    obtain ⟨ht, -, -, hflat⟩ :=
      groupConstraints_walked hslot ((bounded_initial hbase).brought _) hrun
    rw [inferGroup_run hheads hrun] at hok
    cases hsettle : t.settle with
    | error e =>
      rw [hsettle] at hok
      cases hok
    | ok settled =>
      rw [hsettle] at hok
      cases hok
      obtain ⟨hunified, hsettled⟩ := ht.settle_eq_ok hsettle
      exact ⟨leaves, t, ⟨hheads, hrun, hunified⟩, (foundKinds_congr group hflat hsettled).symm⟩
  · rintro ⟨leaves, t, h, rfl⟩
    obtain ⟨ht, -, -, hflat⟩ :=
      groupConstraints_walked hslot ((bounded_initial hbase).brought _) h.run
    obtain ⟨settled, hsettle⟩ := ht.settle_of_unified (isFlat_mgu ht.flat) h.unified
    rw [inferGroup_run h.heads h.run, hsettle,
      ← foundKinds_congr group hflat (ht.settle_eq_ok hsettle).2]
    rfl

variable {f : Nat → Datatype} {members members' : List Nat}
  {leaves leaves' : List (List Leaf)} {t' : Kinding}

lemma mem_declaredNames_map (hperm : members'.Perm members) (x : String) :
    x ∈ declaredNames (members'.map f) ↔ x ∈ declaredNames (members.map f) :=
  ((hperm.map f).filterMap _).mem_iff

/-- The most general solution of one order gives a solution of the other one that makes the same of
heads and nodes. -/
structure Transfers (f : Nat → Datatype) (members members' : List Nat)
    (leaves leaves' : List (List Leaf)) (t t' : Kinding) (θ' : KindVar → Kind) :
    Prop where
  flat : ∀ v, (θ' v).isFlat
  unified : Unified θ' t'.equations
  heads : ScopesAgree (mgu t.equations) θ' (headsDeclared (members.map f))
    (headsDeclared (members'.map f))
  nodes : ∀ i own', (i, own') ∈ members'.zip leaves' →
    ∃ own, (i, own) ∈ members.zip leaves ∧ NodesAgree (mgu t.equations) θ' own own'

lemma GroupRun.transfers (hbase : ∀ name k, base.lookup name = some k → k.IsGround)
    (hslot : ∀ i ∈ members, ∀ k ∈ Ty.recordedKindsList (f i).types, k.IsGround)
    (hperm : members'.Perm members) (h : GroupRun base (members.map f) leaves t) :
    ∃ leaves' t', GroupRun base (members'.map f) leaves' t' ∧
      ∃ θ', Transfers f members members' leaves leaves' t t' θ' := by
  have hheads : (headsDeclared (members.map f)).Bounded base := (bounded_initial hbase).brought _
  obtain ⟨ht, -, hwalked, -⟩ :=
    groupConstraints_walked (List.forall_mem_map.2 hslot) hheads h.run
  have hmgu := isFlat_mgu ht.flat
  rw [List.forall₂_map_left_iff] at hwalked
  have hkeys : (members.zip leaves).map Prod.fst = members :=
    List.map_fst_zip (Nat.le_of_eq hwalked.length_eq)
  have hown (i : Nat) (hi : i ∈ members) : ∃ own, (i, own) ∈ members.zip leaves ∧
      Walked base (headsDeclared (members.map f)) t (f i) own := by
    rw [← hkeys] at hi
    obtain ⟨⟨_, own⟩, hmem, rfl⟩ := List.mem_map.1 hi
    exact ⟨own, hmem, List.forall₂_zip hwalked hmem⟩
  choose! own hmem hwalks using hown
  -- The datatypes in the other order, each with its nodes in this one.
  let walked := members'.map fun i => (f i, own i)
  have hgroup : walked.map Prod.fst = members'.map f := by simp [walked, Function.comp_def]
  have hslot' : ∀ p ∈ walked, ∀ k ∈ Ty.recordedKindsList p.1.types, k.IsGround :=
    List.forall_mem_map.2 fun i hi => hslot i (hperm.mem_iff.1 hi)
  have hwalked' : ∀ p ∈ walked, Walked base (headsDeclared (members.map f)) t p.1 p.2 :=
    List.forall_mem_map.2 fun i hi => hwalks i (hperm.mem_iff.1 hi)
  obtain ⟨θ₀, hsolving⟩ := exists_solving_heads hbase hmgu (mem_declaredNames_map (f := f) hperm)
  obtain ⟨leaves', t', θ', hrun', hsame, hsolving', hleaves'⟩ :=
    groupConstraints_transfer hmgu h.unified hslot' hwalked' hsolving 0
  rw [hgroup] at hrun'
  have hflat' := hsolving'.bounded.flat
  refine ⟨leaves', t', ⟨fun d hd => h.heads d ((hperm.map f).mem_iff.1 hd), hrun', ?_⟩, θ',
    hsolving'.flat, hsolving'.unified, hsolving.scope.change hsolving.bounded hsame,
    fun i own' hi => ?_⟩
  · exact mgu_unified hflat' (solve_of_unified hflat' hsolving'.flat hsolving'.unified)
  · rw [List.forall₂_map_left_iff] at hleaves'
    exact ⟨own i, hmem i (hperm.mem_iff.1 (List.of_mem_zip hi).1), List.forall₂_zip hleaves' hi⟩

/-- Solutions of two orders, each from the most general one of the other. -/
structure Matched (base : Scope Kind) (f : Nat → Datatype) (members members' : List Nat)
    (leaves leaves' : List (List Leaf)) (t t' : Kinding) (η η' : KindVar → Kind) :
    Prop where
  bounded : t.Bounded base
  bounded' : t'.Bounded base
  forward : Transfers f members members' leaves leaves' t t' η'
  backward : Transfers f members' members leaves' leaves t' t η

namespace Matched

variable {η η' : KindVar → Kind}

lemma symm (h : Matched base f members members' leaves leaves' t t' η η') :
    Matched base f members' members leaves' leaves t' t η' η :=
  ⟨h.bounded', h.bounded, h.backward, h.forward⟩

/-- Kinds that agree in both directions are settled alike. -/
lemma solution_eq (h : Matched base f members members' leaves leaves' t t' η η') {k k' : Kind}
    (hk : Agree (mgu t.equations) η' k k') (hk' : Agree (mgu t'.equations) η k' k) :
    bindAll t'.solution k' = bindAll t.solution k := by
  have hmgu := isFlat_mgu h.bounded.flat
  have hmgu' := isFlat_mgu h.bounded'.flat
  rw [h.bounded.bindAll_solution hk.left, h.bounded'.bindAll_solution hk.right]
  refine close_eq_of_instances (isFlat_bindAll hmgu hk.left) (isFlat_bindAll hmgu' hk.right)
    h.backward.flat h.forward.flat ?_ ?_
  · rw [bindAll_bindAll hmgu h.backward.flat hk.left, bindAll_congr k fun v _ =>
      mgu_absorbed h.bounded.flat h.backward.flat h.backward.unified v, hk'.eq]
  · rw [bindAll_bindAll hmgu' h.forward.flat hk.right, bindAll_congr k' fun v _ =>
      mgu_absorbed h.bounded'.flat h.forward.flat h.forward.unified v, hk.eq]

lemma settled_nodes (h : Matched base f members members' leaves leaves' t t' η η')
    {own own' : List Leaf} (hown : NodesAgree (mgu t.equations) η' own own')
    (hown' : NodesAgree (mgu t'.equations) η own' own) :
    own'.map (Leaf.map (bindAll t'.solution)) = own.map (Leaf.map (bindAll t.solution)) := by
  induction hown with
  | nil => rfl
  | cons hnode _ ih =>
    cases hown' with
    | cons hnode' hown' =>
      obtain ⟨hplace, hname, hkind⟩ := hnode
      rw [List.map_cons, List.map_cons, ih hown', Leaf.map, Leaf.map, hplace, hname,
        h.solution_eq hkind hnode'.2.2]

lemma declared_eq (h : Matched base f members members' leaves leaves' t t' η η') (name : String) :
    (foundKinds (members'.map f) leaves' (bindAll t'.solution)).declared.find? name =
      (foundKinds (members.map f) leaves (bindAll t.solution)).declared.find? name := by
  rw [find?_foundKinds, find?_foundKinds]
  have hname := h.forward.heads name
  have hname' := h.backward.heads name
  generalize (headsDeclared (members.map f)).scope.lookup name = found at hname hname' ⊢
  generalize (headsDeclared (members'.map f)).scope.lookup name = found' at hname hname' ⊢
  cases hname with
  | none => rfl
  | some hk =>
    cases hname' with
    | some hk' => rw [Option.map_some, Option.map_some, h.solution_eq hk hk']

lemma leaves_subset (h : Matched base f members members' leaves leaves' t t' η η')
    (hnodup : members'.Nodup) :
    members'.zip (foundKinds (members'.map f) leaves' (bindAll t'.solution)).leaves ⊆
      members.zip (foundKinds (members.map f) leaves (bindAll t.solution)).leaves := by
  rw [foundKinds, foundKinds, List.zip_map_right, List.zip_map_right]
  intro p hp
  obtain ⟨⟨i, own'⟩, hi', rfl⟩ := List.mem_map.1 hp
  obtain ⟨own, hi, hown⟩ := h.forward.nodes i own' hi'
  obtain ⟨own'', hi'', hown''⟩ := h.backward.nodes i own hi
  obtain rfl : own'' = own' := by
    have hkeys := hnodup.sublist (map_fst_zip_sublist members' leaves')
    exact congrArg Prod.snd (List.inj_on_of_nodup_map hkeys hi'' hi' rfl)
  refine List.mem_map.2 ⟨(i, own), hi, ?_⟩
  rw [Prod.map, Prod.map, h.settled_nodes hown hown'']

end Matched

end Group

/-! ### Recording -/

/-- What becomes of the datatype at one position. -/
lemma getElem?_fillMembers (pool : List Datatype) {members : List (Nat × List Leaf)}
    (hnodup : (members.map Prod.fst).Nodup) (j : Nat) :
    (∀ own, (j, own) ∈ members → (fillMembers pool members)[j]? =
      pool[j]?.map fun d => (d.fill (own.map Leaf.kind)).1) ∧
    (j ∉ members.map Prod.fst → (fillMembers pool members)[j]? = pool[j]?) := by
  induction members generalizing pool with
  | nil => exact ⟨fun _ h => (by cases h), fun _ => rfl⟩
  | cons member members ih =>
    obtain ⟨i, leaves⟩ := member
    obtain ⟨hi, hnodup⟩ := List.nodup_cons.1 hnodup
    obtain ⟨hmem, hout⟩ := ih (pool.modify i fun d => (d.fill (leaves.map Leaf.kind)).1) hnodup
    rw [fillMembers, List.foldl_cons, ← fillMembers, List.map_cons, List.mem_cons, not_or]
    refine ⟨fun own hown => ?_, fun hj => ?_⟩
    · rcases List.mem_cons.1 hown with heq | hown
      · obtain ⟨rfl, rfl⟩ := Prod.mk.inj heq
        exact (hout hi).trans (List.getElem?_modify_eq _ _ _)
      · have hne : i ≠ j := fun h => hi (List.mem_map.2 ⟨_, hown, h.symm⟩)
        rw [hmem own hown, List.getElem?_modify_ne _ _ hne]
    · exact (hout hj.2).trans (List.getElem?_modify_ne _ _ (Ne.symm hj.1))

/-- Filling the same datatypes in another order comes to the same. -/
lemma fillMembers_congr (pool : List Datatype) {members members' : List (Nat × List Leaf)}
    (hnodup : (members.map Prod.fst).Nodup) (hnodup' : (members'.map Prod.fst).Nodup)
    (hsub : members ⊆ members') (hsub' : members' ⊆ members) :
    fillMembers pool members' = fillMembers pool members := by
  refine List.ext_getElem? fun j => ?_
  obtain ⟨hmem, hout⟩ := getElem?_fillMembers pool hnodup j
  obtain ⟨hmem', hout'⟩ := getElem?_fillMembers pool hnodup' j
  by_cases hj : j ∈ members.map Prod.fst
  · obtain ⟨⟨_, own⟩, hown, rfl⟩ := List.mem_map.1 hj
    rw [hmem own hown, hmem' own (hsub hown)]
  · have hj' : j ∉ members'.map Prod.fst := fun h => hj (List.map_subset _ hsub' h)
    rw [hout hj, hout' hj']

section Infer

variable {base : Scope Kind} {pool : List Datatype} {members members' : List Nat}

lemma exists_membersOf_eq_map (h : ∀ i ∈ members, i < pool.length) :
    ∃ f : Nat → Datatype, ∀ {members' : List Nat}, members' ⊆ members →
      membersOf pool members' = members'.map f := by
  refine ⟨fun i => pool[i]?.getD ⟨.con "" none, [], {}⟩, fun {members'} hsub => ?_⟩
  rw [membersOf, ← List.filterMap_eq_map]
  refine List.filterMap_congr fun i hi => ?_
  rw [Function.comp_apply, List.getElem?_eq_getElem (h i (hsub hi)), Option.getD_some]

lemma nodup_of_filterMap {α β : Type} {g : α → Option β} {l : List α}
    (hsome : ∀ x ∈ l, (g x).isSome) (h : (l.filterMap g).Nodup) : l.Nodup := by
  induction l with
  | nil => exact List.nodup_nil
  | cons x l ih =>
    rw [List.forall_mem_cons] at hsome
    obtain ⟨y, hy⟩ := Option.isSome_iff_exists.1 hsome.1
    rw [List.filterMap_cons_some hy, List.nodup_cons] at h
    exact List.nodup_cons.2
      ⟨fun hx => h.1 (List.mem_filterMap.2 ⟨x, hx, hy⟩), ih hsome.2 h.2⟩

/-- What is found in one order is found in every other. -/
lemma inferKinds_perm_of_ok (hmembers : ∀ i ∈ members, i < pool.length)
    (hbase : ∀ name k, base.lookup name = some k → k.IsGround)
    (hslot : ∀ t ∈ groupTypes (membersOf pool members), ∀ k ∈ t.recordedKinds, k.IsGround)
    (hnames : (declaredNames (membersOf pool members)).Nodup) (hperm : members'.Perm members)
    {declared : Table Kind} (hok : (inferKinds base pool members).2 = .ok declared) :
    ∃ declared', (inferKinds base pool members').2 = .ok declared' ∧
      (∀ name, declared'.find? name = declared.find? name) ∧
      (inferKinds base pool members').1 = (inferKinds base pool members).1 := by
  obtain ⟨f, hf⟩ := exists_membersOf_eq_map hmembers
  have hgroup := hf (List.Subset.refl members)
  have hgroup' := hf hperm.subset
  rw [hgroup] at hslot hnames
  have hslots : ∀ i ∈ members, ∀ k ∈ Ty.recordedKindsList (f i).types, k.IsGround := by
    intro i hi k hk
    obtain ⟨t, ht, hk⟩ := Ty.mem_recordedKindsList.1 hk
    exact hslot t (List.mem_flatMap.2 ⟨f i, List.mem_map_of_mem hi, ht⟩) k hk
  have hslots' : ∀ i ∈ members', ∀ k ∈ Ty.recordedKindsList (f i).types, k.IsGround :=
    fun i hi => hslots i (hperm.mem_iff.1 hi)
  cases hfound : inferGroup base (members.map f) with
  | error e =>
    rw [inferKinds_of_error (hgroup ▸ hfound)] at hok
    cases hok
  | ok found =>
    obtain ⟨leaves, t, hrun, rfl⟩ :=
      (inferGroup_eq_ok_iff hbase (List.forall_mem_map.2 hslots)).1 hfound
    obtain ⟨leaves', t', hrun', η', hforward⟩ := hrun.transfers hbase hslots hperm
    obtain ⟨leaves₂, t₂, hrun₂, η, hbackward⟩ := hrun'.transfers hbase hslots' hperm.symm
    obtain ⟨rfl, rfl⟩ : leaves₂ = leaves ∧ t₂ = t := by
      have := hrun₂.run.symm.trans hrun.run
      cases this
      exact ⟨rfl, rfl⟩
    have hmatched : Matched base f members members' leaves₂ leaves' t₂ t' η η' :=
      ⟨(groupConstraints_walked (List.forall_mem_map.2 hslots) ((bounded_initial hbase).brought _)
          hrun.run).1,
        (groupConstraints_walked (List.forall_mem_map.2 hslots') ((bounded_initial hbase).brought _)
          hrun'.run).1, hforward, hbackward⟩
    have hfound' := (inferGroup_eq_ok_iff hbase (List.forall_mem_map.2 hslots')).2
      ⟨leaves', t', hrun', rfl⟩
    have hnodup : members.Nodup := by
      rw [declaredNames, List.filterMap_map] at hnames
      exact nodup_of_filterMap (fun i hi => hrun.heads _ (List.mem_map_of_mem hi)) hnames
    have hnodup' : members'.Nodup := hperm.nodup_iff.2 hnodup
    rw [← hgroup] at hfound
    rw [← hgroup'] at hfound'
    rw [inferKinds_of_ok hnodup hfound] at hok ⊢
    rw [inferKinds_of_ok hnodup' hfound']
    cases hok
    rw [hgroup, hgroup', positionsIn_of_forall hmembers,
      positionsIn_of_forall fun i hi => hmembers i (hperm.mem_iff.1 hi)]
    refine ⟨_, rfl, hmatched.declared_eq, fillMembers_congr pool ?_ ?_ ?_ ?_⟩
    · exact hnodup.sublist (map_fst_zip_sublist ..)
    · exact hnodup'.sublist (map_fst_zip_sublist ..)
    · exact hmatched.symm.leaves_subset hnodup
    · exact hmatched.leaves_subset hnodup'

end Infer

/-- The order in which the datatypes of a group are listed makes no difference: kind inference
succeeds in all orders or in none, finds the same kinds and records them in the same slots. -/
theorem inferKinds_perm (base : Scope Kind) (pool : List Datatype) (members members' : List Nat)
    (hmembers : ∀ i ∈ members, i < pool.length)
    (hbase : ∀ name k, base.lookup name = some k → k.IsGround)
    (hslot : ∀ t ∈ groupTypes (membersOf pool members), ∀ k ∈ t.recordedKinds, k.IsGround)
    (hnames : (declaredNames (membersOf pool members)).Nodup) (hperm : members'.Perm members) :
    ((∃ declared, (inferKinds base pool members').2 = .ok declared) ↔
      ∃ declared, (inferKinds base pool members).2 = .ok declared) ∧
    ∀ declared declared', (inferKinds base pool members).2 = .ok declared →
      (inferKinds base pool members').2 = .ok declared' →
      (∀ name, declared'.find? name = declared.find? name) ∧
        (inferKinds base pool members').1 = (inferKinds base pool members).1 := by
  have hgroup : (membersOf pool members').Perm (membersOf pool members) := hperm.filterMap _
  refine ⟨⟨?_, ?_⟩, fun declared declared' hok hok' => ?_⟩
  · rintro ⟨declared, hok⟩
    obtain ⟨declared', hok', -⟩ := inferKinds_perm_of_ok
      (fun i hi => hmembers i (hperm.mem_iff.1 hi)) hbase
      (fun t ht => hslot t ((hgroup.flatMap_right _).mem_iff.1 ht))
      ((hgroup.filterMap _).nodup_iff.2 hnames) hperm.symm hok
    exact ⟨declared', hok'⟩
  · rintro ⟨declared, hok⟩
    obtain ⟨declared', hok', -⟩ := inferKinds_perm_of_ok hmembers hbase hslot hnames hperm hok
    exact ⟨declared', hok'⟩
  · obtain ⟨_, hok'', hfind, hpool⟩ := inferKinds_perm_of_ok hmembers hbase hslot hnames hperm hok
    cases hok'.symm.trans hok''
    exact ⟨hfind, hpool⟩

/-- Rose trees and their forests, over a container of any kind of branches, and a datatype with a
parameter that is not used. -/
def rosesAndForests : List Datatype :=
  let f := Ty.rigid "f"
  let a := Ty.rigid "a"
  let rose := Ty.app (.con "Rose" none) [f, a]
  let forest := Ty.app (.con "Forest" none) [f, a]
  [⟨rose, [⟨"MkRose", [a, .app f [forest]]⟩], {}⟩, ⟨forest, [⟨"MkForest", [rose]⟩], {}⟩,
    ⟨.app (.con "Tag" none) [a], [⟨"MkTag", []⟩], {}⟩]

/-- In either order the two containers are found to take a type constructor and a type, and the tag
to take a type, and each slot holds its kind: of a head, the constructor and its parameters, and of
a field, what it is made of. -/
theorem inferKinds_perm_rosesAndForests :
    ∃ declared declared',
      (inferKinds .empty rosesAndForests [0, 1, 2]).2 = .ok declared ∧
      (inferKinds .empty rosesAndForests [2, 1, 0]).2 = .ok declared' ∧
      declared'.find? "Rose" = some (.arrow (.ofArity 1) (.ofArity 1)) ∧
      declared'.find? "Forest" = some (.arrow (.ofArity 1) (.ofArity 1)) ∧
      declared'.find? "Tag" = some (.ofArity 1) ∧
      (inferKinds .empty rosesAndForests [2, 1, 0]).1 =
        (inferKinds .empty rosesAndForests [0, 1, 2]).1 ∧
      (groupTypes (inferKinds .empty rosesAndForests [2, 1, 0]).1).map Ty.recordedKinds =
        [[.arrow (.ofArity 1) (.ofArity 1), .ofArity 1, .ofArity 0], [.ofArity 0],
          [.ofArity 1, .arrow (.ofArity 1) (.ofArity 1), .ofArity 1, .ofArity 0],
          [.arrow (.ofArity 1) (.ofArity 1), .ofArity 1, .ofArity 0],
          [.arrow (.ofArity 1) (.ofArity 1), .ofArity 1, .ofArity 0],
          [.ofArity 1, .ofArity 0]] := by
  have hok : (inferKinds .empty rosesAndForests [0, 1, 2]).2 =
      .ok ⟨[("Rose", .arrow (.ofArity 1) (.ofArity 1)),
        ("Forest", .arrow (.ofArity 1) (.ofArity 1)), ("Tag", .ofArity 1)], by decide⟩ := by cbv
  obtain ⟨hiff, hsame⟩ := inferKinds_perm .empty rosesAndForests [0, 1, 2] [2, 1, 0] (by decide)
    (fun name k hk => (by cases hk)) (by decide) (by decide) (by decide)
  obtain ⟨declared', hok'⟩ := hiff.2 ⟨_, hok⟩
  obtain ⟨hfind, hpool⟩ := hsame _ declared' hok hok'
  refine ⟨_, declared', hok, hok', hfind _, hfind _, hfind _, hpool, ?_⟩
  rw [hpool]
  cbv

end LetPoly
