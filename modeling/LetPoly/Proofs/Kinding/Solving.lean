import LetPoly.Proofs.Kinding.Substitution
import LetPoly.Proofs.Unification.Resolved

/-!
# Solving keeps kinds

Solving type equations does not look at kinds. Where all type constructors and variables agree in
the kinds of their arguments, counted from the last, the parts of two applications of one kind have
the same kinds none the less, and every variable is bound to a type of its own kind
(`KindFrame.solve_fits`). For two constructors at the heads of applications this needs that solving
succeeds: then they are the same.
-/

namespace LetPoly

/-! ### The roots of types -/

namespace Ty

/-- The type constructor at the root of a type, under any number of applications. -/
def root? : Ty → Option String
  | .con name _ => some name
  | .app head _ => head.root?
  | .var _ _ _ => none
  | .scheme _ _ => none

lemma root?_apply (head : Ty) (args : List Ty) : (apply head args).root? = head.root? := by
  unfold apply
  split <;> rfl

mutual
lemma root?_of_same : (a b : Ty) → same a b → a.root? = b.root?
  | .con a _, .con b _, h => by
    rw [same, beq_iff_eq] at h
    rw [root?, root?, h]
  | .app f as, .app g bs, h => by
    rw [same, Bool.and_eq_true] at h
    rw [root?, root?, root?_of_same f g h.1]
  | .var _ _ _, .var _ _ _, _ => rfl
  | .scheme _ _, .scheme _ _, _ => rfl
end

end Ty

lemma Ty.root?_of_var? {t : Ty} {v : String} (h : Term.var? t = some v) : t.root? = none := by
  cases t with
  | var _ _ _ => rfl
  | con _ _ => cases h
  | app _ _ => cases h
  | scheme _ _ => cases h

/-- The roots of two types are taken to pieces at last. -/
lemma Ty.root?_decompose {a b : Ty} {pairs : List (Ty × Ty)} (h : decompose a b = some pairs)
    (hab : a.root? ≠ b.root?) :
    ∃ p rest, pairs = p :: rest ∧ p.1.root? = a.root? ∧ p.2.root? = b.root? := by
  unfold decompose at h
  split at h
  · split at h
    · rename_i heq
      exact absurd (congrArg some heq) hab
    · cases h
  · cases h
    exact ⟨_, _, rfl, root?_apply _ _, root?_apply _ _⟩
  · cases h

/-- Taking types to pieces frees no variable. -/
lemma Ty.occurrences_decompose {a b : Ty} {pairs : List (Ty × Ty)} (h : decompose a b = some pairs) :
    ∀ p ∈ pairs, p.1.occurrences ⊆ a.occurrences ∧ p.2.occurrences ⊆ b.occurrences := by
  have htake (f : Ty) (as : List Ty) (n : Nat) :
      (apply f (as.take n)).occurrences ⊆ (Ty.app f as).occurrences := by
    have hlist := occurrencesList_append (as.take n) (as.drop n)
    rw [List.take_append_drop] at hlist
    rw [occurrences_apply, occurrences, hlist, ← List.append_assoc]
    exact List.subset_append_left _ _
  have hdrop (f : Ty) (as : List Ty) (n : Nat) {t : Ty} (ht : t ∈ as.drop n) :
      t.occurrences ⊆ (Ty.app f as).occurrences := by
    obtain ⟨before, after, heq⟩ := List.append_of_mem (List.mem_of_mem_drop ht)
    rw [occurrences, heq, occurrencesList_append, occurrencesList]
    exact fun x hx => List.mem_append_right _
      (List.mem_append_right _ (List.mem_append_left _ hx))
  unfold decompose at h
  split at h
  · split at h <;> cases h
    simp
  · cases h
    intro p hp
    rcases List.mem_cons.1 hp with rfl | hp
    · exact ⟨htake _ _ _, htake _ _ _⟩
    · exact ⟨hdrop _ _ _ (List.of_mem_zip hp).1, hdrop _ _ _ (List.of_mem_zip hp).2⟩
  · cases h

/-- If solving succeeds, the constructors at the roots of the two sides of the first equation are the
same. -/
lemma root?_eq_of_solve {O : Type} {queue : List (Equation Ty O)}
    (hok : (solve queue).failure = none) {e : Equation Ty O} (he : queue.head? = some e)
    {a b : String} (ha : e.left.root? = some a) (hb : e.right.root? = some b) : a = b := by
  fun_induction solve queue generalizing e with
  | case1 => cases he
  | case2 e rest h ih =>
    cases he
    have hroot := Ty.root?_of_same _ _ (Equation.same_of_step_drop h)
    rw [ha, hb] at hroot
    exact Option.some.inj hroot
  | case3 e rest v t h ih =>
    cases he
    rcases Equation.sides_of_step_bind h with ⟨hvar, _⟩ | ⟨hvar, _⟩
    · rw [Ty.root?_of_var? hvar] at ha
      cases ha
    · rw [Ty.root?_of_var? hvar] at hb
      cases hb
  | case4 e rest pairs h ih =>
    cases he
    by_contra hne
    obtain ⟨p, pairs', rfl, hleft, hright⟩ := Ty.root?_decompose
      (Equation.decompose_of_step_split h) (by rw [ha, hb]; simpa using hne)
    exact hne (ih hok (e := e.part p) rfl (hleft.trans ha) (hright.trans hb))
  | case5 e rest error h => cases hok

/-! ### Heads of one kind -/

namespace KindFrame

variable {F : KindFrame} {Δ : String → Kind}

/-- The kind of a type is what is left of the kind of the constructor at its root. -/
lemma HasKind.root (hΔ : ∀ x, F.Var (Δ x)) {t : Ty} {k : Kind} {c : String} (h : F.HasKind Δ t k)
    (hroot : t.root? = some c) :
    ∃ args, (∀ a ∈ args, a.isFlat) ∧ F.con c = .arrows args k := by
  match t with
  | .con name slot =>
    cases hroot
    exact ⟨[], by simp, (hasKind_con_iff.1 h).2⟩
  | .app head args =>
    obtain ⟨kinds, hhead, hargs, _⟩ := (hasKind_app hΔ).1 h
    obtain ⟨more, hmore, heq⟩ := HasKind.root hΔ hhead hroot
    refine ⟨more ++ kinds, List.forall_mem_append.2 ⟨hmore, HasKinds.isFlat hΔ hargs⟩, ?_⟩
    rw [heq, Kind.arrows_append]

/-- Without a constructor at its root, a type has the kind of a variable. -/
lemma HasKind.backArgs_prefix (hΔ : ∀ x, F.Var (Δ x)) {t : Ty} {k : Kind} (h : F.HasKind Δ t k)
    (hroot : t.root? = none) : k.backArgs <+: F.args := by
  match t with
  | .var name sort slot =>
    obtain ⟨_, rfl⟩ := hasKind_var_iff.1 h
    exact (hΔ name).2
  | .scheme vars body =>
    obtain ⟨_, rfl⟩ := hasKind_scheme_iff.1 h
    exact List.nil_prefix
  | .app head args =>
    obtain ⟨kinds, hhead, hargs, hk⟩ := (hasKind_app hΔ).1 h
    have hprefix := HasKind.backArgs_prefix hΔ hhead hroot
    rw [Kind.backArgs_arrows (HasKinds.isFlat hΔ hargs) hk] at hprefix
    exact (List.prefix_append _ _).trans hprefix

lemma HasKind.agrees (hΔ : ∀ x, F.Var (Δ x)) {t : Ty} {k : Kind} (h : F.HasKind Δ t k) :
    k.backArgs <+: F.args ∨ F.args <+: k.backArgs := by
  cases hroot : t.root? with
  | none => exact .inl (HasKind.backArgs_prefix hΔ h hroot)
  | some c =>
    obtain ⟨args, hargs, heq⟩ := HasKind.root hΔ h hroot
    have hagrees := F.agrees c
    rw [heq, Kind.backArgs_arrows hargs (HasKind.isFlat hΔ h)] at hagrees
    rcases hagrees with hprefix | hprefix
    · exact .inl ((List.prefix_append _ _).trans hprefix)
    · exact List.prefix_or_prefix_of_prefix (List.prefix_append _ _) hprefix

lemma eq_of_agrees {l l' args : List Kind} (h : l <+: args) (h' : l' <+: args ∨ args <+: l')
    (hlen : l.length = l'.length) : l = l' := by
  rcases h' with h' | h'
  · exact (List.prefix_of_prefix_length_le h h' hlen.le).eq_of_length hlen
  · exact (h.trans h').eq_of_length hlen

/-- Two heads that take as many arguments to one kind take arguments of the same kinds, if they are
not headed by different constructors. -/
lemma heads_agree (hΔ : ∀ x, F.Var (Δ x)) {f g : Ty} {ka kb : List Kind} {k : Kind}
    (hf : F.HasKind Δ f (.arrows ka k)) (hg : F.HasKind Δ g (.arrows kb k))
    (hka : ∀ a ∈ ka, a.isFlat) (hkb : ∀ b ∈ kb, b.isFlat) (hk : k.isFlat)
    (hlen : ka.length = kb.length)
    (hroot : ∀ a b, f.root? = some a → g.root? = some b → a = b) : ka = kb := by
  have hback : (Kind.arrows ka k).backArgs.length = (Kind.arrows kb k).backArgs.length := by
    rw [Kind.backArgs_arrows hka hk, Kind.backArgs_arrows hkb hk]
    simp [hlen]
  have hsame : (Kind.arrows ka k).backArgs = (Kind.arrows kb k).backArgs := by
    cases ha : f.root? with
    | none => exact eq_of_agrees (HasKind.backArgs_prefix hΔ hf ha) (HasKind.agrees hΔ hg) hback
    | some a =>
      cases hb : g.root? with
      | none =>
        exact (eq_of_agrees (HasKind.backArgs_prefix hΔ hg hb) (HasKind.agrees hΔ hf) hback.symm).symm
      | some b =>
        obtain rfl := hroot a b ha hb
        obtain ⟨as, has, heq⟩ := HasKind.root hΔ hf ha
        obtain ⟨bs, hbs, heq'⟩ := HasKind.root hΔ hg hb
        have hargs := congrArg Kind.backArgs (heq.symm.trans heq')
        rw [Kind.backArgs_arrows has (HasKind.isFlat hΔ hf),
          Kind.backArgs_arrows hbs (HasKind.isFlat hΔ hg)] at hargs
        exact (List.append_inj hargs hback).1
  rw [Kind.backArgs_arrows hka hk, Kind.backArgs_arrows hkb hk] at hsame
  exact List.reverse_injective (List.append_cancel_left hsame)

/-! ### Solving -/

/-- A type of the given kind in which only names are free of which `N` holds, and no quantifier inside
catches names of which `q` holds. -/
structure Fits (F : KindFrame) (N : String → Prop) (q : String → Bool) (Δ : String → Kind) (t : Ty)
    (k : Kind) : Prop where
  kinded : F.HasKind Δ t k
  names : ∀ x ∈ t.occurrences, N x
  schemes : t.allSchemes (avoids q)

variable {N : String → Prop} {q : String → Bool}

lemma Fits.assign (hΔ : ∀ x, F.Var (Δ x)) (hq : ∀ x, N x → q x) {v : String} {u t : Ty} {k : Kind}
    (hu : F.Fits N q Δ u (Δ v)) (ht : F.Fits N q Δ t k) : F.Fits N q Δ (Term.assign v u t) k := by
  rw [Term.assign]
  split
  · refine ⟨HasKind.subst (fun y hy => hq y (hu.names y hy)) t hΔ ht.schemes (fun _ => hu.kinded)
      ht.kinded, fun x hx => ?_, Ty.allSchemes_subst (stableScheme_avoids q) hu.schemes t ht.schemes⟩
    rcases Ty.mem_occurrences_subst t hx with hx | ⟨_, hx⟩
    · exact ht.names x hx
    · exact hu.names x hx
  · exact ht

lemma HasKinds.of_mem_zip {as bs : List Ty} {kinds : List Kind} (has : F.HasKinds Δ as kinds)
    (hbs : F.HasKinds Δ bs kinds) {p : Ty × Ty} (hp : p ∈ as.zip bs) :
    ∃ k, F.HasKind Δ p.1 k ∧ F.HasKind Δ p.2 k := by
  induction as generalizing bs kinds with
  | nil => cases hp
  | cons a as ih =>
    cases has with
    | cons ha has =>
      cases hbs with
      | cons hb hbs =>
        rcases List.mem_cons.1 hp with rfl | hp
        · exact ⟨_, ha, hb⟩
        · exact ih has hbs hp

/-- The parts of two types of one kind have the same kinds, if the first two of them are not headed
by different constructors. -/
lemma HasKind.decompose (hΔ : ∀ x, F.Var (Δ x)) {a b : Ty} {k : Kind} (ha : F.HasKind Δ a k)
    (hb : F.HasKind Δ b k) {pairs : List (Ty × Ty)} (h : Ty.decompose a b = some pairs)
    (hroot : ∀ p, pairs.head? = some p → ∀ c d, p.1.root? = some c → p.2.root? = some d → c = d) :
    ∀ p ∈ pairs, ∃ k, F.HasKind Δ p.1 k ∧ F.HasKind Δ p.2 k := by
  unfold Ty.decompose at h
  split at h
  · split at h <;> cases h
    simp
  · rename_i f as g bs
    cases h
    -- The arguments that are left over stay with their heads.
    have hsplit (f : Ty) (as : List Ty) (n : Nat) (h : F.HasKind Δ (.app f as) k) :
        ∃ kinds, F.HasKind Δ (.apply f (as.take n)) (.arrows kinds k) ∧
          F.HasKinds Δ (as.drop n) kinds ∧ k.isFlat := by
      obtain ⟨kinds, hf, hargs, hk⟩ := (hasKind_app hΔ).1 h
      rw [← List.take_append_drop n as] at hargs
      obtain ⟨kept, kinds, rfl, htake, hdrop⟩ := hasKinds_append.1 hargs
      rw [Kind.arrows_append] at hf
      exact ⟨kinds, (hasKind_apply hΔ).2 ⟨kept, hf, htake,
        Kind.isFlat_arrows (HasKinds.isFlat hΔ hdrop) hk⟩, hdrop, hk⟩
    obtain ⟨ka, hf, has, hk⟩ := hsplit f as (as.length - bs.length) ha
    obtain ⟨kb, hg, hbs, _⟩ := hsplit g bs (bs.length - as.length) hb
    have hlen : ka.length = kb.length := by
      rw [← HasKinds.length_eq has, ← HasKinds.length_eq hbs, List.length_drop, List.length_drop]
      omega
    obtain rfl := heads_agree hΔ hf hg (HasKinds.isFlat hΔ has) (HasKinds.isFlat hΔ hbs) hk hlen
      (hroot _ rfl)
    intro p hp
    rcases List.mem_cons.1 hp with rfl | hp
    · exact ⟨_, hf, hg⟩
    · exact has.of_mem_zip hbs hp
  · cases h

lemma HasKind.eq_of_var? {t : Ty} {k : Kind} (h : F.HasKind Δ t k) {v : String}
    (hv : Term.var? t = some v) : Δ v = k := by
  match t with
  | .var _ .solvable _ =>
    cases hv
    exact (hasKind_var_iff.1 h).2
  | .var _ .rigid _ => cases hv
  | .con _ _ => cases hv
  | .app _ _ => cases hv
  | .scheme _ _ => cases hv

/-- If solving succeeds, every variable is bound to a type of its kind. -/
lemma solve_fits {O : Type} (hΔ : ∀ x, F.Var (Δ x)) (hq : ∀ x, N x → q x)
    {queue : List (Equation Ty O)} (hok : (solve queue).failure = none)
    (hqueue : ∀ e ∈ queue, ∃ k, F.Fits N q Δ e.left k ∧ F.Fits N q Δ e.right k) :
    ∀ b ∈ (solve queue).bindings, F.Fits N q Δ b.2 (Δ b.1) := by
  fun_induction solve queue with
  | case1 => simp
  | case2 e rest h ih => exact ih hok fun e' he' => hqueue e' (List.mem_cons_of_mem _ he')
  | case3 e rest v t h ih =>
    rw [List.forall_mem_cons] at hqueue
    obtain ⟨⟨k, hleft, hright⟩, hrest⟩ := hqueue
    have ht : F.Fits N q Δ t (Δ v) := by
      rcases Equation.sides_of_step_bind h with ⟨hvar, rfl⟩ | ⟨hvar, rfl⟩
      · rwa [HasKind.eq_of_var? hleft.kinded hvar]
      · rwa [HasKind.eq_of_var? hright.kinded hvar]
    refine List.forall_mem_cons.2 ⟨ht, ih hok fun e' he' => ?_⟩
    obtain ⟨e'', he'', rfl⟩ := List.mem_map.1 he'
    obtain ⟨k', hleft', hright'⟩ := hrest e'' he''
    exact ⟨k', ht.assign hΔ hq hleft', ht.assign hΔ hq hright'⟩
  | case4 e rest pairs h ih =>
    rw [List.forall_mem_cons] at hqueue
    obtain ⟨⟨k, hleft, hright⟩, hrest⟩ := hqueue
    have hdecompose := Equation.decompose_of_step_split h
    have hkinds := HasKind.decompose hΔ hleft.kinded hright.kinded hdecompose fun p hp c d hc hd =>
      root?_eq_of_solve hok (e := e.part p) (by
        cases pairs with
        | nil => cases hp
        | cons _ _ =>
          cases hp
          rfl) hc hd
    refine ih hok fun e' he' => ?_
    rcases List.mem_append.1 he' with he' | he'
    · obtain ⟨p, hp, rfl⟩ := List.mem_map.1 he'
      obtain ⟨k', hp₁, hp₂⟩ := hkinds p hp
      obtain ⟨hnames₁, hnames₂⟩ := Ty.occurrences_decompose hdecompose p hp
      obtain ⟨hall₁, hall₂⟩ := Ty.allSchemes_decompose hdecompose hleft.schemes hright.schemes p hp
      exact ⟨k', ⟨hp₁, fun x hx => hleft.names x (hnames₁ hx), hall₁⟩,
        ⟨hp₂, fun x hx => hright.names x (hnames₂ hx), hall₂⟩⟩
    · exact hrest e' he'
  | case5 e rest error h => cases hok

end KindFrame

end LetPoly
