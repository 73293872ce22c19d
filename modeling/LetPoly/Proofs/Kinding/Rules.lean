import LetPoly.Proofs.Kinding.Walk
import LetPoly.Proofs.Ty.Schemes
import Mathlib.Logic.Function.Basic

/-!
# Kind equations and kinding rules

The equations of a walk hold under a substitution exactly if the kinding rules do. Of the two
directions, soundness reads a derivation off a substitution that makes all equations hold, for the
type with the kinds of its nodes recorded; completeness extends a substitution, by the kinds that a
derivation uses, to the kind variables that the walk gives out.
-/

namespace LetPoly

open Kind

/-- Two substitutions agree on the kind variables of numbers below `n`. -/
def Kind.SameBelow (n : Nat) (θ θ' : KindVar → Kind) : Prop := ∀ v, v.id < n → θ' v = θ v

namespace Kind.SameBelow

variable {n m : Nat} {θ θ' θ'' : KindVar → Kind}

lemma refl (n : Nat) (θ : KindVar → Kind) : SameBelow n θ θ := fun _ _ => rfl

lemma trans (h : SameBelow n θ θ') (hnm : n ≤ m) (h' : SameBelow m θ' θ'') : SameBelow n θ θ'' :=
  fun v hv => (h' v (Nat.lt_of_lt_of_le hv hnm)).trans (h v hv)

lemma update (θ : KindVar → Kind) (n : Nat) (k : Kind) :
    SameBelow n θ (Function.update θ ⟨n⟩ k) := by
  intro v hv
  refine Function.update_of_ne ?_ _ _
  rintro rfl
  exact Nat.lt_irrefl n hv

lemma bindAll_eq (h : SameBelow n θ θ') {k : Kind} (hk : k.Below n) :
    bindAll θ' k = bindAll θ k :=
  bindAll_congr k fun v hv => h v (hk.2 v hv)

end Kind.SameBelow

namespace Kinding

variable {V : String → Prop} {base : Scope Kind} {ctx : KindContext} {θ θ' : KindVar → Kind}
  {κ Δ : String → Kind} {s s' : Kinding}

/-- A substitution and an assignment go together: what is known or in scope is assigned the kind
that the substitution makes of its own, and the equations hold. -/
structure Models (V : String → Prop) (base : Scope Kind) (θ : KindVar → Kind) (κ Δ : String → Kind)
    (s : Kinding) : Prop where
  flat : ∀ v, (θ v).isFlat
  con {c : String} {k : Kind} : ¬ V c → s.found? base c = some k → κ c = bindAll θ k
  var {x : String} {k : Kind} : V x → s.scope.lookup x = some k → Δ x = bindAll θ k
  unified : Unified θ s.equations

namespace Models

lemma of_leads (h : Leads V s s') (hm : Models V base θ κ Δ s') : Models V base θ κ Δ s where
  flat := hm.flat
  con {c k} hc hk := by
    refine hm.con hc ?_
    rw [found?, Option.or_eq_some_iff] at hk ⊢
    rcases hk with hk | ⟨hnone, hk⟩
    · exact .inl (h.lookup hk)
    · exact .inr ⟨h.new hnone hc, hk⟩
  var hx hk := hm.var hx (h.lookup hk)
  unified e he := hm.unified e (h.equations he)

/-- What a substitution does to variables not yet given out is of no account. -/
lemma change (hm : Models V base θ κ Δ s) (hs : s.Bounded base) (h : SameBelow s.next θ θ')
    (hflat : ∀ v, (θ' v).isFlat) : Models V base θ' κ Δ s where
  flat := hflat
  con hc hk := by rw [hm.con hc hk, h.bindAll_eq (hs.found? hk)]
  var hx hk := by rw [hm.var hx hk, h.bindAll_eq (hs.scope hk)]
  unified e he := by
    rw [h.bindAll_eq (hs.equations e he).1, h.bindAll_eq (hs.equations e he).2, hm.unified e he]

lemma entered (hm : Models V base θ κ Δ s) : Models V base θ κ Δ s.entered :=
  { hm with }

lemma bumped (hm : Models V base θ κ Δ s) : Models V base θ κ Δ s.bumped :=
  { hm with }

lemma equated (hm : Models V base θ κ Δ s) {left right : Kind}
    (h : bindAll θ left = bindAll θ right) (origin : KindOrigin) :
    Models V base θ κ Δ (s.equated ctx left right origin) :=
  { hm with unified := unified_append.2 ⟨hm.unified, by simpa [Unified] using h⟩ }

lemma equation {left right : Kind} {origin : KindOrigin}
    (hm : Models V base θ κ Δ (s.equated ctx left right origin)) :
    bindAll θ left = bindAll θ right :=
  hm.unified ⟨left, right, _⟩ (List.mem_append_right _ List.mem_cons_self)

lemma noted (hm : Models V base θ κ Δ s) (place : Place) (name : String) {slot : KindSlot}
    {k : Kind} (hground : ∀ a ∈ slot, a.IsGround) (h : ∀ a ∈ slot, bindAll θ k = a) :
    Models V base θ κ Δ (s.noted ctx place name slot k) := by
  cases slot with
  | none => exact { hm with }
  | some a => exact hm.equated (by rw [h a rfl, (hground a rfl).bindAll_eq]) _

/-- A scope that was entered is left again. -/
lemma restored (hm : Models V base θ κ Δ s) {Δ' : String → Kind} (hm' : Models V base θ κ Δ' s') :
    Models V base θ κ Δ (s'.restored s) :=
  { hm with unified := hm'.unified }

lemma isFlat_update (hm : Models V base θ κ Δ s) {k : Kind} (hk : k.isFlat) (v w : KindVar) :
    (Function.update θ v k w).isFlat := by
  by_cases h : w = v
  · rw [h, Function.update_self]
    exact hk
  · rw [Function.update_of_ne h]
    exact hm.flat w

lemma introduced (hm : Models V base θ κ Δ s) (hs : s.Bounded base) {x : String} (hx : V x)
    {k : Kind} (hk : k.isFlat) :
    Models V base (Function.update θ ⟨s.next⟩ k) κ (Function.update Δ x k) (s.introduced x) := by
  have hm' := hm.change hs (.update θ s.next k) (hm.isFlat_update hk _)
  refine { hm' with con := fun {c a} hc ha => hm'.con hc ?_, var := fun {y a} hy ha => ?_ }
  · rw [found?, lookup_introduced, if_neg] at ha
    · exact ha
    · rintro rfl
      exact hc hx
  · rw [lookup_introduced] at ha
    split at ha
    · next h =>
      cases ha
      rw [← h, Function.update_self, bindAll, Function.update_self]
    · next h => rw [Function.update_of_ne (Ne.symm h), hm'.var hy ha]

lemma brought {names : List String} (hm : Models V base θ κ Δ s) (hs : s.Bounded base)
    {Δ' : String → Kind} (hoff : ∀ x ∉ names, Δ' x = Δ x)
    (hon : ∀ x ∈ names, V x ∧ (Δ' x).isFlat) :
    ∃ θ', SameBelow s.next θ θ' ∧ Models V base θ' κ Δ' (s.brought names) := by
  induction names generalizing s θ Δ with
  | nil =>
    obtain rfl : Δ' = Δ := funext fun x => hoff x List.not_mem_nil
    exact ⟨θ, .refl _ _, hm⟩
  | cons x names ih =>
    obtain ⟨hx, hflat⟩ := hon x List.mem_cons_self
    have hoff' : ∀ y ∉ names, Δ' y = Function.update Δ x (Δ' x) y := by
      intro y hy
      by_cases hyx : y = x
      · rw [hyx, Function.update_self]
      · rw [Function.update_of_ne hyx, hoff y (by simp [hyx, hy])]
    obtain ⟨θ', hsame, hm'⟩ := ih (hm.introduced hs hx hflat) (hs.introduced x) hoff'
      fun y hy => hon y (List.mem_cons_of_mem _ hy)
    exact ⟨θ', (SameBelow.update θ s.next (Δ' x)).trans (Nat.le_succ _) hsame, hm'⟩

/-- Inside a quantifier that brings in nothing but its own variables, these are assigned the kinds
that they have in scope. -/
lemma inner {vars : NameSet} {left right : Kind} {origin : KindOrigin} {s₁ : Kinding}
    (hm : Models V base θ κ Δ ((s₁.equated ctx left right origin).restored s))
    (hscope : s₁.scope = (s.entered.brought vars.names).scope) (hvars : ∀ x ∈ vars.names, V x) :
    Models V base θ κ
      (fun x => if x ∈ vars then bindAll θ ((s₁.scope.lookup x).getD .atomic) else Δ x) s₁ where
  flat := hm.flat
  con {c k} hc hk := by
    refine hm.con hc ?_
    rwa [found?, hscope, lookup_brought_of_not_mem fun h => hc (hvars c h)] at hk
  var {x k} hx hk := by
    by_cases h : x ∈ vars
    · rw [if_pos h, hk, Option.getD_some]
    · rw [if_neg h]
      rw [hscope, lookup_brought_of_not_mem h] at hk
      exact hm.var hx hk
  unified e he := hm.unified e (List.mem_append_left _ he)

end Models

/-! ### Soundness -/

/-- The walk adds leaves whose kinds are those of the empty slots that `fill` fills. Under every
model of the state at its end, what comes of that satisfies `R`. -/
def Delivers {τ : Type} (P : Kind → Prop) (V : String → Prop) (base : Scope Kind) (s s' : Kinding)
    (fill : List Kind → τ × List Kind)
    (R : (KindVar → Kind) → (String → Kind) → (String → Kind) → τ → Prop) : Prop :=
  ∃ new, s'.leaves = s.leaves ++ new ∧
    ∀ {θ : KindVar → Kind} {κ Δ : String → Kind}, (∀ v, P (θ v)) → Models V base θ κ Δ s' →
      ∀ rest, ∃ t, fill (new.map (fun leaf => bindAll θ leaf.kind) ++ rest) = (t, rest) ∧ R θ κ Δ t

namespace Delivers

variable {τ τ' : Type} {P : Kind → Prop} {s₁ s₂ : Kinding} {fill : List Kind → τ × List Kind}
  {fill' : List Kind → τ' × List Kind}
  {R : (KindVar → Kind) → (String → Kind) → (String → Kind) → τ → Prop}
  {R' : (KindVar → Kind) → (String → Kind) → (String → Kind) → τ' → Prop}

/-- There is nothing to be walked over. -/
lemma done {t : τ} (hfill : ∀ kinds, fill kinds = (t, kinds)) (h : ∀ θ κ Δ, R θ κ Δ t) :
    Delivers P V base s s fill R :=
  ⟨[], (List.append_nil _).symm, fun _ _ rest => ⟨t, hfill rest, h _ _ _⟩⟩

lemma mono {R' : (KindVar → Kind) → (String → Kind) → (String → Kind) → τ → Prop}
    (h : Delivers P V base s s' fill R)
    (hR : ∀ {θ κ Δ t}, Models V base θ κ Δ s' → R θ κ Δ t → R' θ κ Δ t) :
    Delivers P V base s s' fill R' := by
  obtain ⟨new, hnew, h⟩ := h
  refine ⟨new, hnew, fun hP hm rest => ?_⟩
  obtain ⟨t, ht, hRt⟩ := h hP hm rest
  exact ⟨t, ht, hR hm hRt⟩

/-- One walk after another. -/
lemma pair (h : Delivers P V base s s₁ fill R) (hl : Leads V s₁ s₂)
    (h' : Delivers P V base s₁ s₂ fill' R') :
    Delivers P V base s s₂
      (fun kinds => (((fill kinds).1, (fill' (fill kinds).2).1), (fill' (fill kinds).2).2))
      fun θ κ Δ p => R θ κ Δ p.1 ∧ R' θ κ Δ p.2 := by
  obtain ⟨new, hleaves, h⟩ := h
  obtain ⟨new', hleaves', h'⟩ := h'
  refine ⟨new ++ new', by rw [hleaves', hleaves, List.append_assoc], fun {θ κ Δ} hP hm rest => ?_⟩
  obtain ⟨t, hfill, ht⟩ := h hP (hm.of_leads hl)
    (new'.map (fun leaf => bindAll θ leaf.kind) ++ rest)
  obtain ⟨t', hfill', ht'⟩ := h' hP hm rest
  exact ⟨(t, t'), by simp only [List.map_append, List.append_assoc, hfill, hfill'], ht, ht'⟩

/-- A walk, and then steps that add no leaves. -/
lemma andThen (h : Delivers P V base s s₁ fill R) (hleaves : s₂.leaves = s₁.leaves)
    (hl : Leads V s₁ s₂) (f : τ → τ')
    (hfill : ∀ kinds, fill' kinds = (f (fill kinds).1, (fill kinds).2))
    (hR : ∀ {θ κ Δ} kinds, Models V base θ κ Δ s₂ → R θ κ Δ (fill kinds).1 →
      R' θ κ Δ (f (fill kinds).1)) :
    Delivers P V base s s₂ fill' R' := by
  obtain ⟨new, hnew, h⟩ := h
  refine ⟨new, hleaves.trans hnew, fun hP hm rest => ?_⟩
  obtain ⟨t, ht, hRt⟩ := h hP (hm.of_leads hl) rest
  refine ⟨f t, by rw [hfill, ht], ?_⟩
  have hf := hR (new.map (fun leaf => bindAll _ leaf.kind) ++ rest) hm (by rwa [ht])
  rwa [ht] at hf

end Delivers

end Kinding

namespace Ty

open Kinding

variable {V : String → Prop} {ctx : KindContext} {P : Kind → Prop} {s s₁ s' : Kinding} {k : Kind}

lemma isArrowConstructor_fill (t : Ty) (kinds : List Kind) :
    (t.fill kinds).1.isArrowConstructor = t.isArrowConstructor := by
  cases t with
  | con _ slot => cases slot <;> cases kinds <;> rfl
  | var _ _ slot => cases slot <;> cases kinds <;> rfl
  | app _ _ => rfl
  | scheme _ _ => rfl

lemma fill_app (head : Ty) (args : List Ty) (kinds : List Kind) :
    (Ty.app head args).fill kinds = (.app (head.fill kinds).1 (fillList args (head.fill kinds).2).1,
      (fillList args (head.fill kinds).2).2) := by
  rw [fill]

lemma fill_scheme (vars : NameSet) (body : Ty) (kinds : List Kind) :
    (Ty.scheme vars body).fill kinds = (.scheme vars (body.fill kinds).1, (body.fill kinds).2) := by
  rw [fill]

lemma fillList_cons (a : Ty) (args : List Ty) (kinds : List Kind) :
    fillList (a :: args) kinds = ((a.fill kinds).1 :: (fillList args (a.fill kinds).2).1,
      (fillList args (a.fill kinds).2).2) := by
  rw [fillList]

lemma length_fillList (args : List Ty) (kinds : List Kind) :
    (fillList args kinds).1.length = args.length := by
  induction args generalizing kinds with
  | nil => rfl
  | cons a args ih => simp [fillList, ih]

/-- Recording kinds keeps a function type one. -/
lemma isArrow_fill_iff {head head' : Ty} {args args' : List Ty} {kinds kinds' rest rest' : List Kind}
    (hhead : head.fill kinds = (head', rest)) (hargs : fillList args kinds' = (args', rest')) :
    (head'.isArrowConstructor ∧ args'.length = 2) ↔
      (head.isArrowConstructor ∧ args.length = 2) := by
  rw [← isArrowConstructor_fill head kinds, ← length_fillList args kinds', hhead, hargs]

/-- A node that is taken note of gets the kind found, or has it recorded already. -/
lemma delivers_noted (node : KindSlot → Ty) {slot : KindSlot} {place : Place} {name : String}
    (hnone : ∀ a kinds, (node none).fill (a :: kinds) = (node (some a), kinds))
    (hsome : ∀ a kinds, (node (some a)).fill kinds = (node (some a), kinds))
    (hground : ∀ a ∈ slot, a.IsGround) (hleaves : s₁.leaves = s.leaves) :
    Delivers P V ctx.base s (s₁.noted ctx place name slot k) (node slot).fill
      fun θ _ _ t' => t' = node (some (Kind.bindAll θ k)) := by
  cases slot with
  | none => exact ⟨[⟨place, name, k⟩], by rw [← hleaves]; rfl, fun _ _ _ => ⟨_, hnone .., rfl⟩⟩
  | some a =>
    refine ⟨[], by rw [List.append_nil, ← hleaves]; rfl, fun {θ _ _} _ hm _ => ⟨_, hsome .., ?_⟩⟩
    have hk : Kind.bindAll θ k = a := by rw [hm.equation, (hground a rfl).bindAll_eq]
    simp only [hk]

/-- The walk over a function type, from those over its head and its sides. -/
lemma delivers_arrow {head : Ty} {args : List Ty} {headKind : Kind}
    (harrow : head.isArrowConstructor ∧ args.length = 2) (hleads : Leads V s₁ s')
    (hhead : Delivers P V ctx.base s s₁ head.fill fun θ κ Δ t' =>
      HasKind P κ Δ t' (Kind.bindAll θ headKind))
    (hargs : Delivers P V ctx.base s₁ s' (fillList args) fun _ κ Δ args' =>
      ∀ a ∈ args', HasKind P κ Δ a .atomic) :
    Delivers P V ctx.base s s' (Ty.app head args).fill fun θ κ Δ t' =>
      HasKind P κ Δ t' (Kind.bindAll θ .atomic) :=
  (hhead.pair hleads hargs).andThen rfl (.refl _) (fun p => .app p.1 p.2) (fill_app head args)
    fun _ _ h => (hasKind_arrow_iff ((isArrow_fill_iff rfl rfl).2 harrow)).2 ⟨⟨_, h.1⟩, h.2, rfl⟩

/-- The walk over an application, from those over its head and its arguments: the equation of the
application gives the kind of the head. -/
lemma delivers_applied {head : Ty} {args : List Ty} {headKind : Kind} {kinds : List Kind}
    (harrow : ¬ (head.isArrowConstructor ∧ args.length = 2)) (hleads : Leads V s₁ s')
    (hkinds : ∀ k ∈ kinds, k.isFlat)
    (hhead : Delivers P V ctx.base s s₁ head.fill fun θ κ Δ t' =>
      HasKind P κ Δ t' (Kind.bindAll θ headKind))
    (hargs : Delivers P V ctx.base s₁ s' (fillList args) fun θ κ Δ args' =>
      HasKinds P κ Δ args' (kinds.map (Kind.bindAll θ))) :
    Delivers P V ctx.base s (applied ctx head headKind kinds s') (Ty.app head args).fill
      fun θ κ Δ t' => HasKind P κ Δ t' (Kind.bindAll θ (.var ⟨s'.next⟩)) := by
  refine (hhead.pair hleads hargs).andThen rfl ((Leads.bumped s').equated ..)
    (fun p => .app p.1 p.2) (fill_app head args) fun {θ κ Δ} kinds' hm h => ?_
  refine (hasKind_app_iff (mt (isArrow_fill_iff rfl rfl).1 harrow)).2 ⟨⟨_, ?_, h.2⟩, hm.flat _⟩
  have hflat : ∀ k ∈ kinds ++ [.var ⟨s'.next⟩], k.isFlat :=
    List.forall_mem_append.2 ⟨hkinds, List.forall_mem_singleton.2 rfl⟩
  have heq := hm.equation
  rw [Kind.bindAll_function hm.flat (by simp) hflat, List.map_append] at heq
  exact heq ▸ h.1

/-- Under a quantifier nothing is brought in but its variables, unless variables that are out of
scope are. -/
lemma scope_scheme {vars : NameSet} {body : Ty} {place : Place} {bodyKind : Kind}
    (hclosed : ctx.unscoped = .introduce → closedScheme vars body)
    (hbody : body.kindConstraints ctx place (s.entered.brought vars.names) = .ok bodyKind s₁) :
    s₁.scope = (s.entered.brought vars.names).scope := by
  refine scope_kindConstraints body ?_ hbody
  cases hmode : ctx.unscoped with
  | refuse => exact .inl rfl
  | introduce =>
    refine .inr fun x hx => ?_
    obtain ⟨k, hk⟩ := lookup_brought_of_mem (s := s.entered)
      (closedScheme_iff.1 (hclosed hmode) x hx)
    rw [hk]
    rfl

/-- The walk over a quantified type, from that over its body. -/
lemma delivers_scheme {vars : NameSet} {body : Ty} {bodyKind : Kind}
    (hscope : s₁.scope = (s.entered.brought vars.names).scope) (hvars : ∀ x ∈ vars.names, V x)
    (hbody : Delivers P V ctx.base (s.entered.brought vars.names) s₁ body.fill fun θ κ Δ t' =>
      HasKind P κ Δ t' (Kind.bindAll θ bodyKind)) :
    Delivers P V ctx.base s ((s₁.equated ctx bodyKind .atomic .scheme).restored s)
      (Ty.scheme vars body).fill fun θ κ Δ t' => HasKind P κ Δ t' (Kind.bindAll θ .atomic) := by
  obtain ⟨new, hleaves, h⟩ := hbody
  rw [leaves_brought] at hleaves
  refine ⟨new, hleaves, fun {θ κ Δ} hP hm rest => ?_⟩
  obtain ⟨body', hfill, hk⟩ := h hP (hm.inner hscope hvars) rest
  have hatomic : Kind.bindAll θ bodyKind = .atomic :=
    hm.unified ⟨bodyKind, .atomic, _⟩ (List.mem_append_right _ List.mem_cons_self)
  refine ⟨.scheme vars body', by rw [fill_scheme, hfill],
    hasKind_scheme_iff.2 ⟨⟨_, fun x hx => if_neg hx, fun x hx => ?_, hatomic ▸ hk⟩, rfl⟩⟩
  obtain ⟨v, hv⟩ := lookup_brought_of_mem (s := s.entered) hx
  rw [if_pos hx, hscope, hv]
  exact hP v

mutual
/-- Under a substitution that makes the equations hold, the type has by the rules the kind that the
walk returned. Where variables may be brought in, they have to come in outside of quantifiers, for
what is brought in under one is forgotten at its end. -/
lemma kindConstraints_sound : (t : Ty) → {place : Place} → t.Fits V →
    (ctx.unscoped = .introduce → t.allSchemes closedScheme) → {s s' : Kinding} → {k : Kind} →
    s.Bounded ctx.base → t.kindConstraints ctx place s = .ok k s' →
    Delivers P V ctx.base s s' t.fill fun θ κ Δ t' => HasKind P κ Δ t' (Kind.bindAll θ k)
  | .con name slot, _, ht, _, s, s', k, _, hrun => by
    obtain ⟨hk, rfl⟩ := kindConstraints_con_eq_ok.1 hrun
    have hV : ¬ V name := ht.con name (by simp [constructorNames])
    refine Delivers.mono (delivers_noted (Ty.con name) (fun _ _ => rfl) (fun _ _ => by simp [fill])
      (fun a ha => ht.slot a (Option.mem_toList.2 ha)) rfl) ?_
    rintro θ κ Δ _ hm rfl
    have hκ := (hm.of_leads ((Leads.refl s).noted ..)).con hV hk
    exact hasKind_con_iff.2 ⟨fun a ha => by rw [hκ, Option.mem_some_iff.1 ha], hκ⟩
  | .var name sort slot, _, ht, _, s, s', k, _, hrun => by
    obtain ⟨s₁, hfound, rfl⟩ := kindConstraints_var_eq_ok.1 hrun
    have hV : V name := ht.var name (by simp [variableNames])
    obtain ⟨hleaves, hk⟩ : s₁.leaves = s.leaves ∧ s₁.scope.lookup name = some k := by
      rcases variableKind_eq_ok.1 hfound with ⟨hk, rfl⟩ | ⟨-, -, rfl, rfl⟩
      · exact ⟨rfl, hk⟩
      · exact ⟨rfl, by rw [lookup_introduced, if_pos rfl]⟩
    refine Delivers.mono (delivers_noted (Ty.var name sort) (fun _ _ => rfl)
      (fun _ _ => by simp [fill]) (fun a ha => ht.slot a (Option.mem_toList.2 ha)) hleaves) ?_
    rintro θ κ Δ _ hm rfl
    have hΔ := (hm.of_leads ((Leads.refl s₁).noted ..)).var hV hk
    exact hasKind_var_iff.2 ⟨fun a ha => by rw [hΔ, Option.mem_some_iff.1 ha], hΔ⟩
  | .app head args, _, ht, hclosed, s, s', k, hs, hrun => by
    have hclosed₁ := fun h => (allSchemes_app.1 (hclosed h)).1
    have hclosed₂ := fun h => (allSchemes_app.1 (hclosed h)).2
    by_cases harrow : head.isArrowConstructor ∧ args.length = 2
    · obtain ⟨headKind, s₁, hhead, hargs, rfl⟩ := (kindConstraints_arrow_eq_ok harrow).1 hrun
      obtain ⟨-, hs₁, -⟩ := kindConstraints_keeps head ht.head.toAdmits hs hhead
      obtain ⟨hleads, -⟩ := demandAtomic_keeps args ht.args.toAdmitsList hs₁ hargs
      exact delivers_arrow harrow hleads (kindConstraints_sound head ht.head hclosed₁ hs hhead)
        (demandAtomic_sound args ht.args hclosed₂ hs₁ hargs)
    · obtain ⟨headKind, s₁, kinds, s₂, hhead, hargs, rfl, rfl⟩ :=
        (kindConstraints_app_eq_ok harrow).1 hrun
      obtain ⟨-, hs₁, -⟩ := kindConstraints_keeps head ht.head.toAdmits hs hhead
      obtain ⟨hleads, -, hkinds⟩ := kindConstraintsList_keeps args ht.args.toAdmitsList hs₁ hargs
      exact delivers_applied harrow hleads (fun k hk => (hkinds k hk).1)
        (kindConstraints_sound head ht.head hclosed₁ hs hhead)
        (kindConstraintsList_sound args ht.args hclosed₂ hs₁ hargs)
  | .scheme vars body, _, ht, hclosed, s, s', k, hs, hrun => by
    obtain ⟨bodyKind, s₁, hbody, rfl, rfl⟩ := kindConstraints_scheme_eq_ok.1 hrun
    exact delivers_scheme
      (scope_scheme (fun h => (allSchemes_scheme.1 (hclosed h)).1) hbody)
      (fun x hx => ht.var x (List.mem_append_left _ hx))
      (kindConstraints_sound body ht.body (fun h => (allSchemes_scheme.1 (hclosed h)).2)
        (hs.entered.brought vars.names) hbody)

lemma kindConstraintsList_sound : (args : List Ty) → {place : Place} → {i : Nat} →
    FitsList V args → (ctx.unscoped = .introduce → allSchemesList closedScheme args) →
    {s s' : Kinding} → {kinds : List Kind} → s.Bounded ctx.base →
    kindConstraintsList ctx place i args s = .ok kinds s' →
    Delivers P V ctx.base s s' (fillList args) fun θ κ Δ args' =>
      HasKinds P κ Δ args' (kinds.map (Kind.bindAll θ))
  | [], _, _, _, _, s, s', kinds, _, hrun => by
    obtain ⟨rfl, rfl⟩ := kindConstraintsList_nil_eq_ok.1 hrun
    exact .done (fun _ => rfl) fun _ _ _ => .nil
  | a :: args, _, _, ht, hclosed, s, s', kinds, hs, hrun => by
    obtain ⟨kind, s₁, rest, ha, hargs, rfl⟩ := kindConstraintsList_cons_eq_ok.1 hrun
    obtain ⟨-, hs₁, -⟩ := kindConstraints_keeps a ht.first.toAdmits hs ha
    obtain ⟨hleads, -, -⟩ := kindConstraintsList_keeps args ht.rest.toAdmitsList hs₁ hargs
    have h₁ := kindConstraints_sound a ht.first
      (fun h => (allSchemesList_cons.1 (hclosed h)).1) hs ha
    have h₂ := kindConstraintsList_sound args ht.rest
      (fun h => (allSchemesList_cons.1 (hclosed h)).2) hs₁ hargs
    exact (h₁.pair hleads h₂).andThen rfl (.refl _) (fun p => p.1 :: p.2) (fillList_cons a args)
      fun _ _ h => .cons h.1 h.2

lemma demandAtomic_sound : (args : List Ty) → {place : Place} → {i : Nat} → FitsList V args →
    (ctx.unscoped = .introduce → allSchemesList closedScheme args) → {origin : KindOrigin} →
    {s s' : Kinding} → {u : Unit} → s.Bounded ctx.base →
    demandAtomic ctx origin place i args s = .ok u s' →
    Delivers P V ctx.base s s' (fillList args) fun _ κ Δ args' =>
      ∀ a ∈ args', HasKind P κ Δ a .atomic
  | [], _, _, _, _, _, s, s', _, _, hrun => by
    obtain rfl := demandAtomic_nil_eq_ok.1 hrun
    exact .done (fun _ => rfl) fun _ _ _ => nofun
  | a :: args, _, _, ht, hclosed, origin, s, s', _, hs, hrun => by
    obtain ⟨kind, s₁, ha, hargs⟩ := demandAtomic_cons_eq_ok.1 hrun
    obtain ⟨-, hs₁, hkind⟩ := kindConstraints_keeps a ht.first.toAdmits hs ha
    have hs₂ := hs₁.equated ctx hkind (isGround_atomic.below _) origin
    obtain ⟨hleads, -⟩ := demandAtomic_keeps args ht.rest.toAdmitsList hs₂ hargs
    have h₁ := kindConstraints_sound a ht.first
      (fun h => (allSchemesList_cons.1 (hclosed h)).1) hs ha
    have hatomic : Delivers P V ctx.base s (s₁.equated ctx kind .atomic origin) a.fill
        fun _ κ Δ t' => HasKind P κ Δ t' .atomic :=
      h₁.andThen rfl ((Leads.refl s₁).equated ..) id (fun _ => rfl) fun _ hm h => by
        rwa [hm.equation] at h
    have h₂ := demandAtomic_sound args ht.rest
      (fun h => (allSchemesList_cons.1 (hclosed h)).2) hs₂ hargs
    exact (hatomic.pair hleads h₂).andThen rfl (.refl _) (fun p => p.1 :: p.2)
      (fillList_cons a args) fun _ _ h => List.forall_mem_cons.2 h
end

/-! ### Completeness -/

mutual
/-- A derivation by the rules tells how to extend a model of the state before the walk to one of the
state after it. -/
lemma kindConstraints_complete (hP : ∀ k, P k → k.isFlat) : (t : Ty) → {place : Place} → t.Fits V →
    {s s' : Kinding} → {k : Kind} → s.Bounded ctx.base → t.kindConstraints ctx place s = .ok k s' →
    {θ : KindVar → Kind} → {κ Δ : String → Kind} → {k₀ : Kind} → Models V ctx.base θ κ Δ s →
    (∀ x, (Δ x).isFlat) → HasKind P κ Δ t k₀ →
    ∃ θ', SameBelow s.next θ θ' ∧ Models V ctx.base θ' κ Δ s' ∧ Kind.bindAll θ' k = k₀
  | .con name slot, _, ht, s, s', k, _, hrun, θ, κ, Δ, k₀, hm, _, hkind => by
    obtain ⟨hk, rfl⟩ := kindConstraints_con_eq_ok.1 hrun
    obtain ⟨hslot, rfl⟩ := hasKind_con_iff.1 hkind
    have heq := hm.con (ht.con name (by simp [constructorNames])) hk
    refine ⟨θ, .refl _ _, hm.noted _ name (fun a ha => ?_) (fun a ha => ?_), heq.symm⟩
    · exact ht.slot a (Option.mem_toList.2 ha)
    · rw [← heq, hslot a ha]
  | .var name sort slot, _, ht, s, s', k, hs, hrun, θ, κ, Δ, k₀, hm, hΔ, hkind => by
    obtain ⟨s₁, hfound, rfl⟩ := kindConstraints_var_eq_ok.1 hrun
    obtain ⟨hslot, rfl⟩ := hasKind_var_iff.1 hkind
    have hV : V name := ht.var name (by simp [variableNames])
    obtain ⟨θ', hsame, hm', heq⟩ : ∃ θ', SameBelow s.next θ θ' ∧ Models V ctx.base θ' κ Δ s₁ ∧
        Kind.bindAll θ' k = Δ name := by
      rcases variableKind_eq_ok.1 hfound with ⟨hk, rfl⟩ | ⟨-, -, rfl, rfl⟩
      · exact ⟨θ, .refl _ _, hm, (hm.var hV hk).symm⟩
      · have hm' := hm.introduced hs hV (hΔ name)
        rw [Function.update_eq_self] at hm'
        exact ⟨_, .update θ s.next _, hm', by rw [Kind.bindAll, Function.update_self]⟩
    refine ⟨θ', hsame, hm'.noted _ name (fun a ha => ?_) (fun a ha => ?_), heq⟩
    · exact ht.slot a (Option.mem_toList.2 ha)
    · rw [heq, hslot a ha]
  | .app head args, _, ht, s, s', k, hs, hrun, θ, κ, Δ, k₀, hm, hΔ, hkind => by
    by_cases harrow : head.isArrowConstructor ∧ args.length = 2
    · obtain ⟨headKind, s₁, hhead, hargs, rfl⟩ := (kindConstraints_arrow_eq_ok harrow).1 hrun
      obtain ⟨⟨headKind₀, hhead₀⟩, hargs₀, rfl⟩ := (hasKind_arrow_iff harrow).1 hkind
      obtain ⟨hleads, hs₁, -⟩ := kindConstraints_keeps head ht.head.toAdmits hs hhead
      obtain ⟨θ₁, hsame₁, hm₁, -⟩ :=
        kindConstraints_complete hP head ht.head hs hhead hm hΔ hhead₀
      obtain ⟨θ₂, hsame₂, hm₂⟩ :=
        demandAtomic_complete hP args ht.args hs₁ hargs hm₁ hΔ hargs₀
      exact ⟨θ₂, hsame₁.trans hleads.next_le hsame₂, hm₂, rfl⟩
    · obtain ⟨headKind, s₁, kinds, s₂, hhead, hargs, rfl, rfl⟩ :=
        (kindConstraints_app_eq_ok harrow).1 hrun
      obtain ⟨⟨kinds₀, hhead₀, hargs₀⟩, hflat⟩ := (hasKind_app_iff harrow).1 hkind
      obtain ⟨hleads₁, hs₁, hheadKind⟩ := kindConstraints_keeps head ht.head.toAdmits hs hhead
      obtain ⟨hleads₂, hs₂, hkinds⟩ := kindConstraintsList_keeps args ht.args.toAdmitsList hs₁ hargs
      obtain ⟨θ₁, hsame₁, hm₁, heq₁⟩ :=
        kindConstraints_complete hP head ht.head hs hhead hm hΔ hhead₀
      obtain ⟨θ₂, hsame₂, hm₂, heq₂⟩ :=
        kindConstraintsList_complete hP args ht.args hs₁ hargs hm₁ hΔ hargs₀
      -- the new variable stands for the kind of the whole
      have hsame₃ := SameBelow.update θ₂ s₂.next k₀
      have hm₃ := hm₂.change hs₂ hsame₃ (hm₂.isFlat_update hflat _)
      refine ⟨_, (hsame₁.trans hleads₁.next_le hsame₂).trans (hleads₁.trans hleads₂).next_le hsame₃,
        hm₃.bumped.equated ?_ _, by rw [Kind.bindAll, Function.update_self]⟩
      have hargKinds : kinds.map (Kind.bindAll (Function.update θ₂ ⟨s₂.next⟩ k₀)) = kinds₀ := by
        rw [← heq₂]
        exact List.map_congr_left fun k hk => hsame₃.bindAll_eq (hkinds k hk)
      rw [hsame₃.bindAll_eq (hheadKind.mono hleads₂.next_le), hsame₂.bindAll_eq hheadKind, heq₁,
        Kind.bindAll_function hm₃.flat (by simp), List.map_append, hargKinds, List.map_singleton,
        Kind.bindAll, Function.update_self]
      intro k hk
      rcases List.mem_append.1 hk with hk | hk
      · exact (hkinds k hk).1
      · rw [List.mem_singleton.1 hk]
        rfl
  | .scheme vars body, _, ht, s, s', k, hs, hrun, θ, κ, Δ, k₀, hm, hΔ, hkind => by
    obtain ⟨bodyKind, s₁, hbody, rfl, rfl⟩ := kindConstraints_scheme_eq_ok.1 hrun
    obtain ⟨⟨Δ', hoff, hon, hbody₀⟩, rfl⟩ := hasKind_scheme_iff.1 hkind
    obtain ⟨θ₁, hsame₁, hm₁⟩ := hm.entered.brought hs.entered hoff
      fun x (hx : x ∈ vars) => ⟨ht.var x (List.mem_append_left _ hx), hP _ (hon x hx)⟩
    have hΔ' : ∀ x, (Δ' x).isFlat := by
      intro x
      by_cases hx : x ∈ vars
      · exact hP _ (hon x hx)
      · rw [hoff x hx]
        exact hΔ x
    obtain ⟨θ₂, hsame₂, hm₂, heq₂⟩ := kindConstraints_complete hP body ht.body
      (hs.entered.brought vars.names) hbody hm₁ hΔ' hbody₀
    have hsame : SameBelow s.next θ θ₂ := hsame₁.trans (next_le_brought s.entered _) hsame₂
    exact ⟨θ₂, hsame, (hm.change hs hsame hm₂.flat).restored (hm₂.equated heq₂ _), rfl⟩

lemma kindConstraintsList_complete (hP : ∀ k, P k → k.isFlat) : (args : List Ty) →
    {place : Place} → {i : Nat} →
    FitsList V args → {s s' : Kinding} → {kinds : List Kind} → s.Bounded ctx.base →
    kindConstraintsList ctx place i args s = .ok kinds s' → {θ : KindVar → Kind} →
    {κ Δ : String → Kind} → {kinds₀ : List Kind} → Models V ctx.base θ κ Δ s →
    (∀ x, (Δ x).isFlat) → HasKinds P κ Δ args kinds₀ →
    ∃ θ', SameBelow s.next θ θ' ∧ Models V ctx.base θ' κ Δ s' ∧ kinds.map (Kind.bindAll θ') = kinds₀
  | [], _, _, _, s, s', kinds, _, hrun, θ, κ, Δ, kinds₀, hm, _, hkinds => by
    obtain ⟨rfl, rfl⟩ := kindConstraintsList_nil_eq_ok.1 hrun
    obtain rfl := hasKinds_nil_iff.1 hkinds
    exact ⟨θ, .refl _ _, hm, rfl⟩
  | a :: args, _, _, ht, s, s', kinds, hs, hrun, θ, κ, Δ, kinds₀, hm, hΔ, hkinds => by
    obtain ⟨kind, s₁, rest, ha, hargs, rfl⟩ := kindConstraintsList_cons_eq_ok.1 hrun
    obtain ⟨kind₀, rest₀, rfl, ha₀, hargs₀⟩ := hasKinds_cons_iff.1 hkinds
    obtain ⟨hleads, hs₁, hkind⟩ := kindConstraints_keeps a ht.first.toAdmits hs ha
    obtain ⟨θ₁, hsame₁, hm₁, heq₁⟩ := kindConstraints_complete hP a ht.first hs ha hm hΔ ha₀
    obtain ⟨θ₂, hsame₂, hm₂, heq₂⟩ :=
      kindConstraintsList_complete hP args ht.rest hs₁ hargs hm₁ hΔ hargs₀
    refine ⟨θ₂, hsame₁.trans hleads.next_le hsame₂, hm₂, ?_⟩
    rw [List.map_cons, heq₂, hsame₂.bindAll_eq hkind, heq₁]

lemma demandAtomic_complete (hP : ∀ k, P k → k.isFlat) : (args : List Ty) → {place : Place} →
    {i : Nat} →
    FitsList V args → {origin : KindOrigin} → {s s' : Kinding} → {u : Unit} → s.Bounded ctx.base →
    demandAtomic ctx origin place i args s = .ok u s' → {θ : KindVar → Kind} → {κ Δ : String →
    Kind} →
    Models V ctx.base θ κ Δ s → (∀ x, (Δ x).isFlat) → (∀ a ∈ args, HasKind P κ Δ a .atomic) →
    ∃ θ', SameBelow s.next θ θ' ∧ Models V ctx.base θ' κ Δ s'
  | [], _, _, _, _, s, s', _, _, hrun, θ, κ, Δ, hm, _, _ => by
    obtain rfl := demandAtomic_nil_eq_ok.1 hrun
    exact ⟨θ, .refl _ _, hm⟩
  | a :: args, _, _, ht, origin, s, s', _, hs, hrun, θ, κ, Δ, hm, hΔ, hatomic => by
    obtain ⟨kind, s₁, ha, hargs⟩ := demandAtomic_cons_eq_ok.1 hrun
    obtain ⟨ha₀, hargs₀⟩ := List.forall_mem_cons.1 hatomic
    obtain ⟨hleads, hs₁, hkind⟩ := kindConstraints_keeps a ht.first.toAdmits hs ha
    obtain ⟨θ₁, hsame₁, hm₁, heq₁⟩ := kindConstraints_complete hP a ht.first hs ha hm hΔ ha₀
    obtain ⟨θ₂, hsame₂, hm₂⟩ := demandAtomic_complete hP args ht.rest
      (hs₁.equated ctx hkind (isGround_atomic.below _) _) hargs (hm₁.equated heq₁ _) hΔ hargs₀
    exact ⟨θ₂, hsame₁.trans hleads.next_le hsame₂, hm₂⟩
end

end Ty

end LetPoly
