import LetPoly.Proofs.Kind.Arguments
import LetPoly.Proofs.Kinding.Declarative
import LetPoly.Proofs.Ty.Stable

/-!
# Kinding and substitution

A type keeps its kind when types are put for its variables that have the kinds of these variables
(`HasKind.subst`, `HasKind.substAll`), as long as no name is caught by a quantifier inside.

A `KindFrame` fixes the kinds of the type constructors. All of them, and all variables, agree in the
kinds of their arguments, counted from the last: so a head that takes as many arguments to the same
kind takes the same arguments.
-/

namespace LetPoly

/-! ### What the rules depend on -/

section Imp

variable {P P' : Kind → Prop} {κ κ' : String → Kind}

lemma hasKinds_atomic_iff {Δ : String → Kind} {args : List Ty} :
    HasKinds P κ Δ args (args.map fun _ => .atomic) ↔ ∀ a ∈ args, HasKind P κ Δ a .atomic := by
  induction args with
  | nil => simp [hasKinds_nil_iff]
  | cons a args ih =>
    rw [List.map_cons, List.forall_mem_cons, ← ih]
    constructor
    · intro h
      cases h with
      | cons ha hargs => exact ⟨ha, hargs⟩
    · exact fun h => .cons h.1 h.2

mutual
/-- A kinding depends on the kinds of the constructors and of the free variables of the type only. -/
lemma HasKind.imp (hP : ∀ k, P k → P' k) : (t : Ty) → {Δ Δ' : String → Kind} → {k : Kind} →
    (∀ c ∈ t.constructorNames, κ' c = κ c) → (∀ x ∈ t.occurrences, Δ' x = Δ x) →
    HasKind P κ Δ t k → HasKind P' κ' Δ' t k
  | .con name slot, _, _, _, hκ, _, h => by
    have hname := hκ name List.mem_cons_self
    rw [hasKind_con_iff] at h ⊢
    rwa [hname]
  | .var name sort slot, _, _, _, _, hΔ, h => by
    have hname := hΔ name List.mem_cons_self
    rw [hasKind_var_iff] at h ⊢
    rwa [hname]
  | .app head args, Δ, Δ', k, hκ, hΔ, h => by
    have hκhead : ∀ c ∈ head.constructorNames, κ' c = κ c := fun c hc =>
      hκ c (List.mem_append_left _ hc)
    have hκargs : ∀ c ∈ Ty.constructorNamesList args, κ' c = κ c := fun c hc =>
      hκ c (List.mem_append_right _ hc)
    have hΔhead : ∀ x ∈ head.occurrences, Δ' x = Δ x := fun x hx =>
      hΔ x (List.mem_append_left _ hx)
    have hΔargs : ∀ x ∈ Ty.occurrencesList args, Δ' x = Δ x := fun x hx =>
      hΔ x (List.mem_append_right _ hx)
    by_cases harrow : head.isArrowConstructor ∧ args.length = 2
    · rw [hasKind_arrow_iff harrow, ← hasKinds_atomic_iff] at h ⊢
      obtain ⟨⟨headKind, hhead⟩, hargs, hk⟩ := h
      exact ⟨⟨headKind, HasKind.imp hP head hκhead hΔhead hhead⟩,
        HasKinds.imp hP args hκargs hΔargs hargs, hk⟩
    · rw [hasKind_app_iff harrow] at h ⊢
      obtain ⟨⟨kinds, hhead, hargs⟩, hflat⟩ := h
      exact ⟨⟨kinds, HasKind.imp hP head hκhead hΔhead hhead,
        HasKinds.imp hP args hκargs hΔargs hargs⟩, hflat⟩
  | .scheme vars body, Δ, Δ', _, hκ, hΔ, h => by
    rw [hasKind_scheme_iff] at h ⊢
    obtain ⟨⟨Δ₁, hoff, hon, hbody⟩, hk⟩ := h
    refine ⟨⟨fun x => if x ∈ vars then Δ₁ x else Δ' x, fun x hx => if_neg hx, fun x hx => ?_,
      HasKind.imp hP body hκ (fun x hx => ?_) hbody⟩, hk⟩
    · dsimp only
      rw [if_pos hx]
      exact hP _ (hon x hx)
    · by_cases hmem : x ∈ vars
      · rw [if_pos hmem]
      · rw [if_neg hmem, hoff x hmem]
        exact hΔ x (List.mem_filter.2 ⟨hx, by simpa using hmem⟩)

lemma HasKinds.imp (hP : ∀ k, P k → P' k) : (args : List Ty) → {Δ Δ' : String → Kind} →
    {kinds : List Kind} → (∀ c ∈ Ty.constructorNamesList args, κ' c = κ c) →
    (∀ x ∈ Ty.occurrencesList args, Δ' x = Δ x) → HasKinds P κ Δ args kinds →
    HasKinds P' κ' Δ' args kinds
  | [], _, _, _, _, _, h => by
    cases h
    exact .nil
  | a :: args, _, _, _, hκ, hΔ, h => by
    cases h with
    | cons ha hargs =>
      exact .cons
        (HasKind.imp hP a (fun c hc => hκ c (List.mem_append_left _ hc))
          (fun x hx => hΔ x (List.mem_append_left _ hx)) ha)
        (HasKinds.imp hP args (fun c hc => hκ c (List.mem_append_right _ hc))
          (fun x hx => hΔ x (List.mem_append_right _ hx)) hargs)
end

end Imp

/-! ### Frames -/

/-- The kinds of the type constructors, and the kinds of arguments, from the last on, in which they
agree. -/
structure KindFrame where
  con : String → Kind
  args : List Kind
  flat (c : String) : (con c).isFlat
  agrees (c : String) : (con c).backArgs <+: args ∨ args <+: (con c).backArgs
  arrow : con Ty.arrowName = .ofArity 2

namespace KindFrame

variable {F : KindFrame} {Δ Δ' : String → Kind}

/-- The kinds of variables: they agree with those of the constructors as well, and take no more
arguments than agree. -/
def Var (F : KindFrame) (k : Kind) : Prop := k.IsGround ∧ k.backArgs <+: F.args

/-- A type has a kind, by the rules, for kinds of variables as they may be. -/
abbrev HasKind (F : KindFrame) (Δ : String → Kind) (t : Ty) (k : Kind) : Prop :=
  LetPoly.HasKind F.Var F.con Δ t k

/-- Each type of a list has the kind at its place in the other. -/
abbrev HasKinds (F : KindFrame) (Δ : String → Kind) (args : List Ty) (kinds : List Kind) : Prop :=
  LetPoly.HasKinds F.Var F.con Δ args kinds

lemma var_atomic : F.Var .atomic := ⟨Kind.isGround_atomic, List.nil_prefix⟩

lemma HasKind.isFlat (hΔ : ∀ x, F.Var (Δ x)) {t : Ty} {k : Kind} (h : F.HasKind Δ t k) :
    k.isFlat := by
  cases h with
  | con _ => exact F.flat _
  | var _ => exact (hΔ _).1.1
  | arrow _ _ _ _ => rfl
  | app _ _ _ hflat => exact hflat
  | scheme _ _ _ => rfl

lemma HasKinds.isFlat (hΔ : ∀ x, F.Var (Δ x)) {args : List Ty} {kinds : List Kind}
    (h : F.HasKinds Δ args kinds) : ∀ k ∈ kinds, k.isFlat := by
  induction args generalizing kinds with
  | nil =>
    cases h
    simp
  | cons a args ih =>
    cases h with
    | cons ha hargs => exact List.forall_mem_cons.2 ⟨HasKind.isFlat hΔ ha, ih hargs⟩

lemma HasKinds.length_eq {args : List Ty} {kinds : List Kind} (h : F.HasKinds Δ args kinds) :
    args.length = kinds.length := by
  induction args generalizing kinds with
  | nil =>
    cases h
    rfl
  | cons a args ih =>
    cases h with
    | cons _ hargs => rw [List.length_cons, List.length_cons, ih hargs]

lemma hasKinds_append {as bs : List Ty} {kinds : List Kind} : F.HasKinds Δ (as ++ bs) kinds ↔
    ∃ ka kb, kinds = ka ++ kb ∧ F.HasKinds Δ as ka ∧ F.HasKinds Δ bs kb := by
  induction as generalizing kinds with
  | nil =>
    refine ⟨fun h => ⟨[], kinds, rfl, .nil, h⟩, ?_⟩
    rintro ⟨_, kb, rfl, has, hbs⟩
    cases has
    exact hbs
  | cons a as ih =>
    constructor
    · intro h
      cases h with
      | cons ha hrest =>
        obtain ⟨ka, kb, rfl, has, hbs⟩ := ih.1 hrest
        exact ⟨_ :: ka, kb, rfl, .cons ha has, hbs⟩
    · rintro ⟨_, kb, rfl, has, hbs⟩
      cases has with
      | cons ha has => exact .cons ha (ih.2 ⟨_, _, rfl, has, hbs⟩)

/-- The rule for function types is no exception: their constructor has a kind that fits. -/
lemma hasKind_app (hΔ : ∀ x, F.Var (Δ x)) {head : Ty} {args : List Ty} {k : Kind} :
    F.HasKind Δ (.app head args) k ↔
      ∃ kinds, F.HasKind Δ head (.arrows kinds k) ∧ F.HasKinds Δ args kinds ∧ k.isFlat := by
  by_cases harrow : head.isArrowConstructor ∧ args.length = 2
  · obtain ⟨hhead, hlen⟩ := harrow
    refine (hasKind_arrow_iff ⟨hhead, hlen⟩).trans ?_
    cases head with
    | con name slot =>
      obtain rfl : name = Ty.arrowName := by simpa [Ty.isArrowConstructor] using hhead
      constructor
      · rintro ⟨⟨headKind, hcon⟩, hargs, rfl⟩
        rw [← hasKinds_atomic_iff] at hargs
        refine ⟨_, ?_, hargs, rfl⟩
        obtain ⟨hslot, rfl⟩ := hasKind_con_iff.1 hcon
        refine hasKind_con_iff.2 ⟨hslot, ?_⟩
        match args, hlen with
        | [a, b], _ => exact F.arrow
      · rintro ⟨kinds, hcon, hargs, hk⟩
        obtain ⟨hslot, heq⟩ := hasKind_con_iff.1 hcon
        have hlen' : [Kind.atomic, Kind.atomic].length = kinds.length := by
          rw [← HasKinds.length_eq hargs, hlen]
          rfl
        obtain ⟨rfl, rfl⟩ := Kind.arrows_injective (k := .atomic) (by simp [Kind.isFlat])
          (HasKinds.isFlat hΔ hargs) rfl hk hlen' (F.arrow.symm.trans heq)
        refine ⟨⟨_, hcon⟩, ?_, rfl⟩
        rw [← hasKinds_atomic_iff]
        match args, hlen with
        | [a, b], _ => exact hargs
    | var _ _ _ => cases hhead
    | app _ _ => cases hhead
    | scheme _ _ => cases hhead
  · refine (hasKind_app_iff harrow).trans ?_
    constructor
    · rintro ⟨⟨kinds, hhead, hargs⟩, hk⟩
      refine ⟨kinds, ?_, hargs, hk⟩
      rwa [← Kind.function_append (HasKinds.isFlat hΔ hargs) hk]
    · rintro ⟨kinds, hhead, hargs, hk⟩
      refine ⟨⟨kinds, ?_, hargs⟩, hk⟩
      rwa [Kind.function_append (HasKinds.isFlat hΔ hargs) hk]

/-- Applying a type follows the same rule, whether its head is an application or not. -/
lemma hasKind_apply (hΔ : ∀ x, F.Var (Δ x)) {head : Ty} {args : List Ty} {k : Kind} :
    F.HasKind Δ (.apply head args) k ↔
      ∃ kinds, F.HasKind Δ head (.arrows kinds k) ∧ F.HasKinds Δ args kinds ∧ k.isFlat := by
  unfold Ty.apply
  split
  · constructor
    · exact fun h => ⟨[], h, .nil, HasKind.isFlat hΔ h⟩
    · rintro ⟨kinds, h, hargs, _⟩
      cases hargs
      exact h
  · rw [hasKind_app hΔ]
    constructor
    · rintro ⟨kinds, hhead, hargs, hk⟩
      obtain ⟨ka, kb, rfl, hfirst, hargs⟩ := hasKinds_append.1 hargs
      rw [Kind.arrows_append] at hhead
      exact ⟨kb, (hasKind_app hΔ).2 ⟨ka, hhead, hfirst,
        Kind.isFlat_arrows (HasKinds.isFlat hΔ hargs) hk⟩, hargs, hk⟩
    · rintro ⟨kb, happ, hargs, hk⟩
      obtain ⟨ka, hhead, hfirst, _⟩ := (hasKind_app hΔ).1 happ
      rw [← Kind.arrows_append] at hhead
      exact ⟨ka ++ kb, hhead, hasKinds_append.2 ⟨ka, kb, rfl, hfirst, hargs⟩, hk⟩
  · exact hasKind_app hΔ

/-! ### Substitution -/

/-- The kinds under a quantifier are kinds of variables. -/
lemma var_under {vars : NameSet} {Δ₁ : String → Kind} (hΔ : ∀ x, F.Var (Δ x))
    (hoff : ∀ x, x ∉ vars → Δ₁ x = Δ x) (hon : ∀ x ∈ vars, F.Var (Δ₁ x)) (x : String) :
    F.Var (Δ₁ x) := by
  by_cases hx : x ∈ vars
  · exact hon x hx
  · exact hoff x hx ▸ hΔ x

/-- A substitution puts types for variables that have the kinds of these, and the free names of which
satisfy `q`. Other variables keep their kinds. -/
structure Puts (F : KindFrame) (q : String → Bool) (Δ Δ' : String → Kind) (σ : String → Option Ty)
    (names : List String) : Prop where
  put {x : String} {u : Ty} : x ∈ names → σ x = some u →
    F.HasKind Δ' u (Δ x) ∧ ∀ y ∈ u.occurrences, q y
  keep {x : String} : x ∈ names → σ x = none → Δ' x = Δ x

variable {q : String → Bool}

lemma Puts.subset {σ : String → Option Ty} {names names' : List String}
    (h : F.Puts q Δ Δ' σ names) (hsub : names' ⊆ names) : F.Puts q Δ Δ' σ names' :=
  ⟨fun hx => h.put (hsub hx), fun hx => h.keep (hsub hx)⟩

/-- Under a quantifier that avoids the names put, these keep their kinds. -/
lemma Puts.under {σ : String → Option Ty} {vars : NameSet} {body : Ty} {Δ₁ : String → Kind}
    (h : F.Puts q Δ Δ' σ (Ty.scheme vars body).occurrences) (havoids : avoids q vars body)
    (hoff : ∀ x, x ∉ vars → Δ₁ x = Δ x) :
    F.Puts q Δ₁ (fun x => if x ∈ vars then Δ₁ x else Δ' x) (fun x => if x ∈ vars then none else σ x)
      body.occurrences where
  put {x u} hx hσ := by
    by_cases hmem : x ∈ vars
    · rw [if_pos hmem] at hσ
      cases hσ
    · rw [if_neg hmem] at hσ
      have hfree : x ∈ (Ty.scheme vars body).occurrences :=
        List.mem_filter.2 ⟨hx, by simpa using hmem⟩
      obtain ⟨hu, hnames⟩ := h.put hfree hσ
      refine ⟨?_, hnames⟩
      rw [hoff x hmem]
      refine HasKind.imp (fun _ hk => hk) u (fun _ _ => rfl) (fun y hy => if_neg fun hy' => ?_) hu
      rcases avoids_iff.1 havoids with hclosed | hplain
      · exact hmem (hclosed x hx)
      · have hq := hplain y hy'
        rw [hnames y hy] at hq
        cases hq
  keep {x} hx hσ := by
    by_cases hmem : x ∈ vars
    · rw [if_pos hmem]
    · rw [if_neg hmem] at hσ ⊢
      rw [hoff x hmem]
      exact h.keep (List.mem_filter.2 ⟨hx, by simpa using hmem⟩) hσ

mutual
/-- Types of the right kinds may be put for all variables at once. -/
lemma HasKind.substAll : (t : Ty) → {σ : String → Option Ty} → {Δ Δ' : String → Kind} → {k : Kind} →
    (∀ x, F.Var (Δ x)) → (∀ x, F.Var (Δ' x)) → t.allSchemes (avoids q) →
    F.Puts q Δ Δ' σ t.occurrences → F.HasKind Δ t k → F.HasKind Δ' (t.substAll σ) k
  | .con name slot, _, _, _, _, _, _, _, _, h => by
    exact hasKind_con_iff.2 (hasKind_con_iff.1 h)
  | .var name sort slot, σ, Δ, Δ', k, _, _, _, hputs, h => by
    obtain ⟨hslot, rfl⟩ := hasKind_var_iff.1 h
    rw [Ty.substAll]
    cases hσ : σ name with
    | some u => exact (hputs.put List.mem_cons_self hσ).1
    | none =>
      have hsame := hputs.keep List.mem_cons_self hσ
      exact hasKind_var_iff.2 ⟨fun k hk => hsame.trans (hslot k hk), hsame⟩
  | .app head args, σ, Δ, Δ', k, hΔ, hΔ', hall, hputs, h => by
    obtain ⟨hhead, hargs⟩ := Ty.allSchemes_app.1 hall
    obtain ⟨kinds, hkhead, hkargs, hk⟩ := (hasKind_app hΔ).1 h
    rw [Ty.substAll]
    exact (hasKind_apply hΔ').2 ⟨kinds,
      HasKind.substAll head hΔ hΔ' hhead (hputs.subset (List.subset_append_left _ _)) hkhead,
      HasKinds.substAllList args hΔ hΔ' hargs (hputs.subset (List.subset_append_right _ _)) hkargs, hk⟩
  | .scheme vars body, σ, Δ, Δ', k, hΔ, hΔ', hall, hputs, h => by
    obtain ⟨havoids, hbody⟩ := Ty.allSchemes_scheme.1 hall
    obtain ⟨⟨Δ₁, hoff, hon, hkbody⟩, rfl⟩ := hasKind_scheme_iff.1 h
    have hon' : ∀ x ∈ vars, F.Var (if x ∈ vars then Δ₁ x else Δ' x) := fun x hx => by
      rw [if_pos hx]
      exact hon x hx
    have hoff' : ∀ x, x ∉ vars → (if x ∈ vars then Δ₁ x else Δ' x) = Δ' x := fun x hx => if_neg hx
    rw [Ty.substAll]
    exact .scheme hoff' hon' (HasKind.substAll body (var_under hΔ hoff hon)
      (var_under hΔ' hoff' hon') hbody (hputs.under havoids hoff) hkbody)

lemma HasKinds.substAllList : (args : List Ty) → {σ : String → Option Ty} →
    {Δ Δ' : String → Kind} → {kinds : List Kind} → (∀ x, F.Var (Δ x)) → (∀ x, F.Var (Δ' x)) →
    Ty.allSchemesList (avoids q) args → F.Puts q Δ Δ' σ (Ty.occurrencesList args) →
    F.HasKinds Δ args kinds → F.HasKinds Δ' (Ty.substAllList σ args) kinds
  | [], _, _, _, _, _, _, _, _, h => by
    cases h
    exact .nil
  | a :: args, σ, Δ, Δ', kinds, hΔ, hΔ', hall, hputs, h => by
    obtain ⟨ha, hargs⟩ := Ty.allSchemesList_cons.1 hall
    cases h with
    | cons hka hkargs =>
      exact .cons (HasKind.substAll a hΔ hΔ' ha (hputs.subset (List.subset_append_left _ _)) hka)
        (HasKinds.substAllList args hΔ hΔ' hargs (hputs.subset (List.subset_append_right _ _)) hkargs)
end

mutual
/-- A type of the right kind may be put for a variable. -/
lemma HasKind.subst {v : String} {u : Ty} (hnames : ∀ y ∈ u.occurrences, q y) : (t : Ty) →
    {Δ : String → Kind} → {k : Kind} → (∀ x, F.Var (Δ x)) → t.allSchemes (avoids q) →
    (v ∈ t.occurrences → F.HasKind Δ u (Δ v)) → F.HasKind Δ t k → F.HasKind Δ (Ty.subst v u t) k
  | .con name slot, _, _, _, _, _, h => h
  | .var name .rigid slot, _, _, _, _, _, h => h
  | .var name .solvable slot, Δ, k, _, _, hu, h => by
    rw [Ty.subst]
    split
    · next heq =>
      obtain ⟨_, rfl⟩ := hasKind_var_iff.1 h
      exact heq ▸ hu (heq ▸ List.mem_cons_self)
    · exact h
  | .app head args, Δ, k, hΔ, hall, hu, h => by
    obtain ⟨hhead, hargs⟩ := Ty.allSchemes_app.1 hall
    obtain ⟨kinds, hkhead, hkargs, hk⟩ := (hasKind_app hΔ).1 h
    rw [Ty.subst]
    exact (hasKind_apply hΔ).2 ⟨kinds,
      HasKind.subst hnames head hΔ hhead (fun hv => hu (List.mem_append_left _ hv)) hkhead,
      HasKinds.substList hnames args hΔ hargs (fun hv => hu (List.mem_append_right _ hv)) hkargs, hk⟩
  | .scheme vars body, Δ, k, hΔ, hall, hu, h => by
    obtain ⟨havoids, hbody⟩ := Ty.allSchemes_scheme.1 hall
    obtain ⟨⟨Δ₁, hoff, hon, hkbody⟩, rfl⟩ := hasKind_scheme_iff.1 h
    rw [Ty.subst]
    split
    · exact h
    · next hv =>
      refine .scheme hoff hon
        (HasKind.subst hnames body (var_under hΔ hoff hon) hbody (fun hmem => ?_) hkbody)
      rw [hoff v hv]
      refine HasKind.imp (fun _ hk => hk) u (fun _ _ => rfl) (fun y hy => hoff y fun hy' => ?_)
        (hu (List.mem_filter.2 ⟨hmem, by simpa using hv⟩))
      rcases avoids_iff.1 havoids with hclosed | hplain
      · exact hv (hclosed v hmem)
      · have hq := hplain y hy'
        rw [hnames y hy] at hq
        cases hq

lemma HasKinds.substList {v : String} {u : Ty} (hnames : ∀ y ∈ u.occurrences, q y) :
    (args : List Ty) → {Δ : String → Kind} → {kinds : List Kind} → (∀ x, F.Var (Δ x)) →
    Ty.allSchemesList (avoids q) args →
    (v ∈ Ty.occurrencesList args → F.HasKind Δ u (Δ v)) → F.HasKinds Δ args kinds →
    F.HasKinds Δ (Ty.substList v u args) kinds
  | [], _, _, _, _, _, h => h
  | a :: args, Δ, kinds, hΔ, hall, hu, h => by
    obtain ⟨ha, hargs⟩ := Ty.allSchemesList_cons.1 hall
    cases h with
    | cons hka hkargs =>
      exact .cons (HasKind.subst hnames a hΔ ha (fun hv => hu (List.mem_append_left _ hv)) hka)
        (HasKinds.substList hnames args hΔ hargs (fun hv => hu (List.mem_append_right _ hv)) hkargs)
end

end KindFrame

end LetPoly
