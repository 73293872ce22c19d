import LetPoly.Proofs.Ty.Poly

/-!
# Types whose free variables inference made up

A variable is issued if it is a solvable or rigid variable of a number below a bound. Inference
keeps flat types with issued variables (`Ty.Simple`) and schemes that catch no issued variable
(`Ty.Proper`). On these the bindings of a run of unification read as a substitution of names
(`nameSubst`), also below quantifiers.
-/

namespace LetPoly

/-- Variables of a number below `n`. -/
def TyVar.Issued (n : Nat) (v : TyVar) : Prop :=
  match v.sort with
  | .solvable => ∃ k < n, v.name = Ty.freshName k
  | .rigid => ∃ x, ∃ k < n, v.name = Ty.skolemName x k

namespace TyVar

lemma issued_fresh {n k : Nat} (h : k < n) : Issued n ⟨Ty.freshName k, .solvable⟩ := ⟨k, h, rfl⟩

lemma issued_skolem {n k : Nat} (h : k < n) (x : String) : Issued n ⟨Ty.skolemName x k, .rigid⟩ :=
  ⟨x, k, h, rfl⟩

lemma Issued.mono {n m : Nat} (h : n ≤ m) {v : TyVar} (hv : v.Issued n) : v.Issued m := by
  obtain ⟨name, sort⟩ := v
  cases sort with
  | solvable =>
    obtain ⟨k, hk, hname⟩ := hv
    exact ⟨k, by omega, hname⟩
  | rigid =>
    obtain ⟨x, k, hk, hname⟩ := hv
    exact ⟨x, k, by omega, hname⟩

lemma Issued.not_plainName {n : Nat} {v : TyVar} (hv : v.Issued n) : ¬ PlainName v.name := by
  obtain ⟨name, sort⟩ := v
  cases sort with
  | solvable =>
    obtain ⟨k, _, rfl⟩ := hv
    exact Ty.not_plainName_freshName k
  | rigid =>
    obtain ⟨x, k, _, rfl⟩ := hv
    exact Ty.not_plainName_skolemName x k

/-- The name of an issued variable tells its sort. -/
lemma Issued.eq_fresh {n k : Nat} {v : TyVar} (hv : v.Issued n) (h : v.name = Ty.freshName k) :
    v = ⟨Ty.freshName k, .solvable⟩ := by
  obtain ⟨name, sort⟩ := v
  cases sort with
  | solvable => exact congrArg (TyVar.mk · .solvable) h
  | rigid =>
    obtain ⟨x, m, _, hname⟩ := hv
    exact absurd (h.symm.trans hname) (Ty.freshName_ne_skolemName k x m)

lemma Issued.lt_of_fresh {n k : Nat} {v : TyVar} (hv : v.Issued n)
    (h : v.name = Ty.freshName k) : k < n := by
  rw [hv.eq_fresh h] at hv
  obtain ⟨m, hm, hname⟩ := hv
  rwa [Ty.freshName_injective hname]

lemma Issued.lt_of_skolem {n k : Nat} {x : String} {v : TyVar} (hv : v.Issued n)
    (h : v.name = Ty.skolemName x k) : k < n := by
  obtain ⟨name, sort⟩ := v
  cases sort with
  | solvable =>
    obtain ⟨m, _, hname⟩ := hv
    exact absurd (hname.symm.trans h) (Ty.freshName_ne_skolemName m x k)
  | rigid =>
    obtain ⟨y, m, hm, hname⟩ := hv
    rwa [(Ty.skolemName_injective (h.symm.trans hname)).2]

end TyVar

namespace Ty

/-- Flat types whose variables are issued. -/
def Simple (n : Nat) (t : Ty) : Prop := t.isFlat ∧ ∀ v ∈ t.tree.vars, v.Issued n

/-- Prenex types whose free variables are issued. A scheme with free variables binds names without
apostrophes only. -/
def Proper (n : Nat) : Ty → Prop
  | .scheme vars body => body.isFlat ∧ (∀ v ∈ body.tree.vars, v.name ∈ vars ∨ v.Issued n) ∧
      ((Ty.scheme vars body).poly.Closed ∨ ∀ x ∈ vars, PlainName x)
  | t => t.Simple n

lemma Simple.mono_le {n m : Nat} (h : n ≤ m) {t : Ty} (ht : t.Simple n) : t.Simple m :=
  ⟨ht.1, fun v hv => (ht.2 v hv).mono h⟩

lemma Proper.mono_le {n m : Nat} (h : n ≤ m) {t : Ty} (ht : t.Proper n) : t.Proper m := by
  cases t with
  | scheme vars body =>
    exact ⟨ht.1, fun v hv => (ht.2.1 v hv).imp_right (·.mono h), ht.2.2⟩
  | con _ _ => exact Simple.mono_le h ht
  | var _ _ _ => exact Simple.mono_le h ht
  | app _ _ => exact Simple.mono_le h ht

lemma Simple.proper {n : Nat} {t : Ty} (h : t.Simple n) : t.Proper n := by
  cases t with
  | scheme _ _ => exact absurd h.1 (by simp [isFlat])
  | con _ _ => exact h
  | var _ _ _ => exact h
  | app _ _ => exact h

lemma Proper.simple {n : Nat} {t : Ty} (h : t.Proper n) (hflat : t.isFlat) : t.Simple n := by
  cases t with
  | scheme _ _ => simp [isFlat] at hflat
  | con _ _ => exact h
  | var _ _ _ => exact h
  | app _ _ => exact h

lemma Proper.isPrenex {n : Nat} {t : Ty} (h : t.Proper n) : t.isPrenex := by
  cases t with
  | scheme _ _ => exact h.1
  | con _ _ => exact h.1
  | var _ _ _ => exact h.1
  | app _ _ => exact h.1

lemma mem_vars_mono {t : Ty} {x : String} : x ∈ t.mono.vars ↔ ∃ v ∈ t.tree.vars, v.name = x := by
  rw [mono_eq_map_tree, Tree.mem_vars_map]

/-- Free variables of proper types are issued. -/
lemma Proper.issued_of_free {n : Nat} {t : Ty} (h : t.Proper n) {x : String}
    (hx : t.poly.Free x) : ∃ v : TyVar, v.Issued n ∧ v.name = x := by
  rcases isFlat_or_scheme h.isPrenex with hflat | ⟨vars, body, rfl, hbody⟩
  · rw [poly_of_isFlat hflat, Poly.free_ofMono] at hx
    obtain ⟨v, hv, hname⟩ := mem_vars_mono.1 hx
    exact ⟨v, (h.simple hflat).2 v hv, hname⟩
  · rw [poly, Poly.free_close] at hx
    obtain ⟨v, hv, hname⟩ := mem_vars_mono.1 hx.1
    exact ⟨v, (h.2.1 v hv).resolve_left fun hmem => hx.2 (hname ▸ hmem), hname⟩

lemma simple_of_closed {t : Ty} (hflat : t.isFlat) (h : t.poly.Closed) (n : Nat) : t.Simple n := by
  refine ⟨hflat, fun v hv => absurd ?_ (h v.name)⟩
  rw [poly_of_isFlat hflat, Poly.free_ofMono]
  exact mem_vars_mono.2 ⟨v, hv, rfl⟩

lemma proper_of_closed {t : Ty} (hprenex : t.isPrenex) (h : t.poly.Closed) (n : Nat) :
    t.Proper n := by
  rcases isFlat_or_scheme hprenex with hflat | ⟨vars, body, rfl, hbody⟩
  · exact (simple_of_closed hflat h n).proper
  · refine ⟨hbody, fun v hv => Or.inl ?_, Or.inl h⟩
    by_contra hmem
    exact h v.name (Poly.free_close.2 ⟨mem_vars_mono.2 ⟨v, hv, rfl⟩, hmem⟩)

lemma simple_fresh {n k : Nat} (h : k < n) : (fresh k).Simple n := by
  refine ⟨rfl, fun v hv => ?_⟩
  obtain rfl := List.mem_singleton.1 hv
  exact TyVar.issued_fresh h

lemma simple_arrow {n : Nat} {a b : Ty} (ha : a.Simple n) (hb : b.Simple n) :
    (arrow a b).Simple n := by
  refine ⟨isFlat_arrow.2 ⟨ha.1, hb.1⟩, fun v hv => ?_⟩
  rw [arrow, tree_app, Tree.vars_foldl_node] at hv
  simp only [builtin, tree, curry, Tree.vars_leaf, List.nil_append, List.map_cons, List.map_nil,
    List.flatMap_cons, List.flatMap_nil, List.append_nil, List.mem_append] at hv
  exact hv.elim (ha.2 v) (hb.2 v)

lemma simple_function {n : Nat} {params : List Ty} {result : Ty} (hp : ∀ a ∈ params, a.Simple n)
    (hr : result.Simple n) : (function params result).Simple n := by
  induction params with
  | nil => exact hr
  | cons a params ih =>
    exact simple_arrow (hp a List.mem_cons_self)
      (ih fun b hb => hp b (List.mem_cons_of_mem _ hb))

/-! ### Substitution -/

/-- Substituting for a name that only solvable variables bear. -/
lemma mono_subst {v : String} {u s : Ty} (h : ∀ w ∈ s.tree.vars, w.name = v → w.sort = .solvable) :
    (subst v u s).mono = s.mono.bind (Tree.single v u.mono) := by
  rw [mono_eq_map_tree, tree_subst, Tree.map_bind, mono_eq_map_tree s, Tree.bind_map]
  refine Tree.bind_congr fun w hw => ?_
  by_cases hname : w.name = v
  · have hwv : w = ⟨v, .solvable⟩ := by
      obtain ⟨name, sort⟩ := w
      rw [TyVar.mk.injEq]
      exact ⟨hname, h _ hw hname⟩
    rw [hwv, Tree.single_self, Tree.single_self, mono_eq_map_tree]
  · have hwv : w ≠ ⟨v, .solvable⟩ := fun hwv => hname (congrArg TyVar.name hwv)
    rw [Tree.single_of_ne hwv, Tree.single_of_ne hname, Tree.map_var]

lemma mem_vars_tree_subst {v : String} {u s : Ty} {w : TyVar}
    (h : w ∈ (subst v u s).tree.vars) : w ∈ s.tree.vars ∨ w ∈ u.tree.vars := by
  rw [tree_subst, Tree.mem_vars_bind] at h
  obtain ⟨z, hz, hw⟩ := h
  rcases Tree.mem_vars_single hw with rfl | hw
  · exact Or.inl hz
  · exact Or.inr hw

lemma Simple.subst {n k : Nat} {u s : Ty} (hs : s.Simple n) (hu : u.Simple n) :
    (subst (freshName k) u s).Simple n ∧
      (subst (freshName k) u s).mono = s.mono.bind (Tree.single (freshName k) u.mono) := by
  refine ⟨⟨isFlat_subst hu.1 s hs.1, fun w hw => ?_⟩, mono_subst fun w hw hname => ?_⟩
  · exact (mem_vars_tree_subst hw).elim (hs.2 w) (hu.2 w)
  · rw [(hs.2 w hw).eq_fresh hname]

lemma Proper.subst {n k : Nat} {u s : Ty} (hs : s.Proper n) (hu : u.Simple n) :
    (subst (freshName k) u s).Proper n ∧
      (subst (freshName k) u s).poly = s.poly.subst (Tree.single (freshName k) u.mono) := by
  rcases isFlat_or_scheme hs.isPrenex with hflat | ⟨vars, body, rfl, hbody⟩
  · obtain ⟨hsimple, hmono⟩ := (hs.simple hflat).subst (k := k) hu
    rw [poly_of_isFlat hsimple.1, poly_of_isFlat hflat, hmono, Poly.subst_ofMono]
    exact ⟨hsimple.proper, rfl⟩
  · rw [Ty.subst]
    by_cases hv : freshName k ∈ vars
    · -- A bound name is not free, so nothing happens.
      rw [if_pos hv, Poly.subst_congr (η := .var) fun x hx => ?_, Poly.subst_var]
      · exact ⟨hs, rfl⟩
      · refine Tree.single_of_ne ?_ _
        rintro rfl
        exact (Poly.free_close.1 hx).2 hv
    · rw [if_neg hv]
      have hsolvable : ∀ w ∈ body.tree.vars, w.name = freshName k → w.sort = .solvable := by
        intro w hw hname
        have hissued := (hs.2.1 w hw).resolve_left fun hmem => hv (hname ▸ hmem)
        rw [hissued.eq_fresh hname]
      have hpoly : (scheme vars (Ty.subst (freshName k) u body)).poly =
          (scheme vars body).poly.subst (Tree.single (freshName k) u.mono) := by
        rw [poly, poly, mono_subst hsolvable]
        refine Poly.subst_close rfl vars.nodup (fun x y hxy => ?_) fun x hx hvars => ⟨rfl, ?_⟩
        · obtain ⟨i, hi, hi'⟩ := List.mem_iff_getElem.1 hxy
          rw [List.getElem_zip, Prod.mk.injEq] at hi'
          rw [← hi'.2, ← hi'.1]
          refine Tree.single_of_ne (fun h => hv ?_) _
          rw [← h]
          exact List.getElem_mem _
        · -- No name that is put below the quantifier is caught by it.
          intro y hy hmem
          by_cases hxk : x = freshName k
          · rcases hs.2.2 with hclosed | hplain
            · exact hclosed x (Poly.free_close.2 ⟨hx, hvars⟩)
            · rw [hxk, Tree.single_self] at hy
              obtain ⟨w, hw, rfl⟩ := mem_vars_mono.1 hy
              exact (hu.2 w hw).not_plainName (hplain _ hmem)
          · rw [Tree.single_of_ne hxk, Tree.vars_var, List.mem_singleton] at hy
            exact hvars (hy ▸ hmem)
      refine ⟨⟨isFlat_subst hu.1 body hbody, fun w hw => ?_, hs.2.2.imp_left fun hclosed => ?_⟩,
        hpoly⟩
      · exact (mem_vars_tree_subst hw).elim (hs.2.1 w) fun hw => Or.inr (hu.2 w hw)
      · rw [hpoly, hclosed.subst]
        exact hclosed

lemma not_free_of_not_mem_unknowns {n k : Nat} {s : Ty} (hs : s.Proper n)
    (h : freshName k ∉ s.unknowns) : ¬ s.poly.Free (freshName k) := by
  intro hfree
  rcases isFlat_or_scheme hs.isPrenex with hflat | ⟨vars, body, rfl, hbody⟩
  · rw [poly_of_isFlat hflat, Poly.free_ofMono] at hfree
    obtain ⟨w, hw, hname⟩ := mem_vars_mono.1 hfree
    rw [((hs.simple hflat).2 w hw).eq_fresh hname] at hw
    exact h ((mem_unknowns_iff s hflat).2 hw)
  · rw [poly, Poly.free_close] at hfree
    obtain ⟨w, hw, hname⟩ := mem_vars_mono.1 hfree.1
    have hissued := (hs.2.1 w hw).resolve_left fun hmem => hfree.2 (hname ▸ hmem)
    rw [hissued.eq_fresh hname] at hw
    refine h (List.mem_filter.2 ⟨(mem_unknowns_iff body hbody).2 hw, ?_⟩)
    simpa using hfree.2

lemma Proper.assign {n k : Nat} {u s : Ty} (hs : s.Proper n) (hu : u.Simple n) :
    (Term.assign (freshName k) u s).Proper n ∧
      (Term.assign (freshName k) u s).poly = s.poly.subst (Tree.single (freshName k) u.mono) := by
  rw [Term.assign]
  split
  · exact hs.subst hu
  · rename_i hoccurs
    have hfree := not_free_of_not_mem_unknowns hs (by simpa [Term.occurs, Term.vars] using hoccurs)
    rw [Poly.subst_congr (η := .var) fun x hx => ?_, Poly.subst_var]
    · exact ⟨hs, rfl⟩
    · refine Tree.single_of_ne ?_ _
      rintro rfl
      exact hfree hx

end Ty

/-! ### Bindings -/

/-- The substitution of names that bindings, carried out one after the other, amount to. -/
def nameSubst : List (String × Ty) → String → Mono
  | [], x => .var x
  | (v, u) :: bindings, x => (Tree.single v u.mono x).bind (nameSubst bindings)

/-- Bindings of issued variables to simple types. -/
def IssuedBindings (n : Nat) (bindings : List (String × Ty)) : Prop :=
  ∀ b ∈ bindings, TyVar.Issued n ⟨b.1, .solvable⟩ ∧ b.2.Simple n

lemma IssuedBindings.tail {n : Nat} {b : String × Ty} {bindings : List (String × Ty)}
    (h : IssuedBindings n (b :: bindings)) : IssuedBindings n bindings :=
  fun b' hb' => h b' (List.mem_cons_of_mem _ hb')

lemma Ty.Proper.applyBindings {n : Nat} {bindings : List (String × Ty)}
    (hb : IssuedBindings n bindings) {s : Ty} (hs : s.Proper n) :
    (applyBindings bindings s).Proper n ∧
      (applyBindings bindings s).poly = s.poly.subst (nameSubst bindings) := by
  induction bindings generalizing s with
  | nil => exact ⟨hs, (Poly.subst_var s.poly).symm⟩
  | cons b bindings ih =>
    obtain ⟨v, u⟩ := b
    obtain ⟨⟨k, _, hk⟩, hu⟩ := hb (v, u) List.mem_cons_self
    obtain rfl : v = Ty.freshName k := hk
    obtain ⟨hassign, hpoly⟩ := hs.assign (k := k) hu
    obtain ⟨hproper, hpoly'⟩ := ih hb.tail hassign
    rw [applyBindings_cons, hpoly', hpoly, Poly.subst_subst]
    exact ⟨hproper, rfl⟩

/-- Forgetting sorts turns the substitution of trees into that of names, on every variable whose sort
fits its name. -/
lemma map_bindingSubst {n : Nat} {bindings : List (String × Ty)} (hb : IssuedBindings n bindings)
    {v : TyVar} (hv : ∀ k, v.name = Ty.freshName k → v = ⟨Ty.freshName k, .solvable⟩) :
    (bindingSubst bindings v).map TyVar.name = nameSubst bindings v.name := by
  induction bindings generalizing v with
  | nil => rfl
  | cons b bindings ih =>
    obtain ⟨x, u⟩ := b
    obtain ⟨⟨k, _, hk⟩, hu⟩ := hb (x, u) List.mem_cons_self
    obtain rfl : x = Ty.freshName k := hk
    rw [bindingSubst, nameSubst, Tree.map_bind]
    by_cases hname : v.name = Ty.freshName k
    · rw [hv k hname]
      show (Tree.single (TyVar.mk (Ty.freshName k) .solvable) u.tree _).bind _ = _
      rw [Tree.single_self, Tree.single_self, Ty.mono_eq_map_tree, Tree.bind_map]
      exact Tree.bind_congr fun w hw => ih hb.tail fun _ => (hu.2 w hw).eq_fresh
    · have hne : v ≠ Curried.unknown Ty (Ty.freshName k) := fun h => hname (congrArg TyVar.name h)
      rw [Tree.single_of_ne hne, Tree.single_of_ne hname, Tree.bind_var, Tree.bind_var]
      exact ih hb.tail hv

lemma nameSubst_skolem {n : Nat} {bindings : List (String × Ty)} (hb : IssuedBindings n bindings)
    (x : String) (k : Nat) :
    nameSubst bindings (Ty.skolemName x k) = .var (Ty.skolemName x k) := by
  induction bindings with
  | nil => rfl
  | cons b bindings ih =>
    obtain ⟨v, u⟩ := b
    obtain ⟨⟨m, _, hm⟩, hu⟩ := hb (v, u) List.mem_cons_self
    obtain rfl : v = Ty.freshName m := hm
    rw [nameSubst, Tree.single_of_ne (Ty.freshName_ne_skolemName m x k).symm, Tree.bind_var,
      ih hb.tail]

end LetPoly
