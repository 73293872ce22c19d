import LetPoly.Proofs.Ty.Curried
import Mathlib.Data.Fintype.EquivFin
import Mathlib.Data.List.GetD
import Mathlib.Data.Set.Finite.List

/-!
# Monotypes and polytypes

A `Mono` is a type without quantifiers, over named variables. A `Poly` is quantified at the top: its
bound variables are numbers and its free variables are names, so polytypes that differ in the
names or the presence of idle bound variables are equal. `Poly.Instance` relates a polytype to the
monotypes that stand for it, and `Poly.Below` says that all instances of one are instances of the
other.
-/

namespace LetPoly

/-- Types without quantifiers. -/
abbrev Mono := Tree TyAtom String

/-- Types that are quantified at the top, if at all. -/
abbrev Poly := Tree TyAtom (Nat ⊕ String)

namespace Mono

/-- The type of functions from `a` to `b`. -/
def arrow (a b : Mono) : Mono := .node (.node (.leaf (.con Ty.arrowName)) a) b

/-- The type of functions of several parameters, curried. -/
def function (params : List Mono) (result : Mono) : Mono := params.foldr arrow result

lemma bind_arrow (θ : String → Mono) (a b : Mono) :
    (arrow a b).bind θ = arrow (a.bind θ) (b.bind θ) := rfl

lemma bind_function (θ : String → Mono) (params : List Mono) (result : Mono) :
    (function params result).bind θ = function (params.map (Tree.bind θ)) (result.bind θ) := by
  induction params with
  | nil => rfl
  | cons a params ih =>
    rw [List.map_cons, function, List.foldr_cons, bind_arrow, ← function, ih]
    rfl

end Mono

namespace Poly

/-- A monotype as a polytype that binds nothing. -/
def ofMono (τ : Mono) : Poly := τ.map .inr

/-- Put monotypes for the bound variables. -/
def inst (ρ : Nat → Mono) (p : Poly) : Mono := p.bind (Sum.elim ρ .var)

/-- Put monotypes for the free variables. -/
def subst (θ : String → Mono) (p : Poly) : Poly :=
  p.bind (Sum.elim (fun i => .var (.inl i)) fun x => ofMono (θ x))

/-- Bind the names of a list, each by its place in the list. -/
def close (names : List String) (τ : Mono) : Poly :=
  τ.bind fun x => if x ∈ names then .var (.inl (names.idxOf x)) else .var (.inr x)

/-- The monotypes that a polytype stands for. -/
def Instance (p : Poly) (τ : Mono) : Prop := ∃ ρ, inst ρ p = τ

/-- Every instance of the first polytype is one of the second. -/
def Below (p q : Poly) : Prop := ∀ τ, Instance p τ → Instance q τ

/-- Free variables. -/
def Free (x : String) (p : Poly) : Prop := .inr x ∈ p.vars

/-- Polytypes without free variables. -/
def Closed (p : Poly) : Prop := ∀ x, ¬ Free x p

@[simp] lemma inst_ofMono (ρ : Nat → Mono) (τ : Mono) : inst ρ (ofMono τ) = τ := by
  rw [inst, ofMono, Tree.bind_map]
  exact Tree.bind_self τ

@[simp] lemma subst_ofMono (θ : String → Mono) (τ : Mono) :
    subst θ (ofMono τ) = ofMono (τ.bind θ) := by
  rw [subst, ofMono, Tree.bind_map, ofMono, Tree.map_bind]
  rfl

lemma ofMono_injective {τ τ' : Mono} (h : ofMono τ = ofMono τ') : τ = τ' := by
  rw [← inst_ofMono (fun _ => τ) τ, h, inst_ofMono]

lemma inst_subst (ρ : Nat → Mono) (θ : String → Mono) (p : Poly) :
    inst ρ (subst θ p) = p.bind (Sum.elim ρ θ) := by
  rw [inst, subst, Tree.bind_bind]
  refine Tree.bind_congr fun v _ => ?_
  cases v with
  | inl i => rfl
  | inr x => exact inst_ofMono ρ (θ x)

lemma bind_inst (θ : String → Mono) (ρ : Nat → Mono) (p : Poly) :
    (inst ρ p).bind θ = inst (fun i => (ρ i).bind θ) (subst θ p) := by
  rw [inst_subst, inst, Tree.bind_bind]
  refine Tree.bind_congr fun v _ => ?_
  cases v with
  | inl i => rfl
  | inr x => rfl

lemma subst_subst (θ η : String → Mono) (p : Poly) :
    subst η (subst θ p) = subst (fun x => (θ x).bind η) p := by
  rw [subst, subst, Tree.bind_bind]
  refine Tree.bind_congr fun v _ => ?_
  cases v with
  | inl i => rfl
  | inr x => exact subst_ofMono η (θ x)

lemma subst_congr {θ η : String → Mono} {p : Poly} (h : ∀ x, Free x p → θ x = η x) :
    subst θ p = subst η p := by
  refine Tree.bind_congr fun v hv => ?_
  cases v with
  | inl i => rfl
  | inr x => exact congrArg ofMono (h x hv)

@[simp] lemma subst_var (p : Poly) : subst .var p = p := by
  refine Tree.bind_eq_self fun v _ => ?_
  cases v with
  | inl i => rfl
  | inr x => rfl

lemma Closed.subst {p : Poly} (h : Closed p) (θ : String → Mono) : Poly.subst θ p = p := by
  rw [subst_congr (η := .var) fun x hx => absurd hx (h x), subst_var]

lemma free_ofMono {x : String} {τ : Mono} : Free x (ofMono τ) ↔ x ∈ τ.vars := by
  rw [Free, ofMono, Tree.mem_vars_map]
  simp

lemma free_subst {x : String} {θ : String → Mono} {p : Poly} :
    Free x (subst θ p) ↔ ∃ y, Free y p ∧ x ∈ (θ y).vars := by
  rw [Free, subst, Tree.mem_vars_bind]
  constructor
  · rintro ⟨i | y, hv, hx⟩
    · simp at hx
    · exact ⟨y, hv, free_ofMono.1 hx⟩
  · rintro ⟨y, hv, hx⟩
    exact ⟨.inr y, hv, free_ofMono.2 hx⟩

lemma free_close {x : String} {names : List String} {τ : Mono} :
    Free x (close names τ) ↔ x ∈ τ.vars ∧ x ∉ names := by
  rw [Free, close, Tree.mem_vars_bind]
  constructor
  · rintro ⟨y, hy, hx⟩
    by_cases hn : y ∈ names
    · simp [hn] at hx
    · rw [if_neg hn, Tree.vars_var, List.mem_singleton, Sum.inr.injEq] at hx
      exact hx ▸ ⟨hy, hn⟩
  · rintro ⟨hx, hn⟩
    exact ⟨x, hx, by simp [hn]⟩

lemma close_nil (τ : Mono) : close [] τ = ofMono τ := rfl

lemma inst_close (ρ : Nat → Mono) (names : List String) (τ : Mono) :
    inst ρ (close names τ) =
      τ.bind fun x => if x ∈ names then ρ (names.idxOf x) else .var x := by
  rw [inst, close, Tree.bind_bind]
  refine Tree.bind_congr fun x _ => ?_
  by_cases hx : x ∈ names
  · simp [hx]
  · simp [hx]

/-- Closing after giving the bound names other names: what stands for the rest must not mention
them. -/
lemma subst_close {θ η : String → Mono} {names names' : List String} {τ : Mono}
    (hlen : names.length = names'.length) (hnodup : names'.Nodup)
    (hbound : ∀ x y, (x, y) ∈ names.zip names' → η x = .var y)
    (hfree : ∀ x ∈ τ.vars, x ∉ names → η x = θ x ∧ ∀ y ∈ (θ x).vars, y ∉ names') :
    close names' (τ.bind η) = subst θ (close names τ) := by
  rw [close, close, subst, Tree.bind_bind, Tree.bind_bind]
  refine Tree.bind_congr fun x hx => ?_
  by_cases hn : x ∈ names
  · have hi := List.idxOf_lt_length_of_mem hn
    have hi' : names.idxOf x < names'.length := hlen ▸ hi
    have hmem : (x, names'[names.idxOf x]) ∈ names.zip names' :=
      List.mem_iff_getElem.2 ⟨names.idxOf x, by rw [List.length_zip]; omega, by simp⟩
    rw [hbound _ _ hmem, if_pos hn, Tree.bind_var, if_pos (List.getElem_mem _), Tree.bind_var,
      Sum.elim_inl, hnodup.idxOf_getElem]
  · obtain ⟨hη, hθ⟩ := hfree x hx hn
    rw [hη, if_neg hn, Tree.bind_var, Sum.elim_inr, ofMono, Tree.map]
    exact Tree.bind_congr fun y hy => if_neg (hθ y hy)

lemma Below.refl (p : Poly) : Below p p := fun _ h => h

/-- A more general polytype has no more free variables. -/
lemma Below.free {p q : Poly} (h : Below p q) {x : String} (hx : Free x q) : Free x p := by
  -- An instance of the first with constants for what it binds shows all free variables of both.
  obtain ⟨ρ, hρ⟩ := h (inst (fun _ => .leaf .quantified) p) ⟨_, rfl⟩
  have hvars : x ∈ (inst ρ q).vars := Tree.mem_vars_bind.2 ⟨.inr x, hx, by simp⟩
  rw [hρ] at hvars
  obtain ⟨i | y, hv, hy⟩ := Tree.mem_vars_bind.1 hvars
  · simp at hy
  · rw [Sum.elim_inr, Tree.vars_var, List.mem_singleton] at hy
    exact hy ▸ hv

/-- A type is closed over at least as much as its instance if what stays free in it stands for
types in which all stays free. -/
lemma close_below {θ : String → Mono} {names names' : List String} {τ : Mono}
    (h : ∀ x ∈ τ.vars, x ∉ names' → ∀ y ∈ (θ x).vars, y ∉ names) :
    Below (close names (τ.bind θ)) (subst θ (close names' τ)) := by
  rintro _ ⟨ρ, rfl⟩
  rw [inst_close, Tree.bind_bind]
  generalize hη : (fun x => if x ∈ names then ρ (names.idxOf x) else Tree.var x) = η
  refine ⟨fun i => (θ (names'.getD i "")).bind η, ?_⟩
  rw [inst_subst, close, Tree.bind_bind]
  refine Tree.bind_congr fun x hx => ?_
  by_cases hmem : x ∈ names'
  · rw [if_pos hmem, Tree.bind_var, Sum.elim_inl, List.getD_eq_getElem _ _ (List.idxOf_lt_length_of_mem hmem),
      List.getElem_idxOf]
  · rw [if_neg hmem, Tree.bind_var, Sum.elim_inr, ← Tree.bind_self (θ x), Tree.bind_bind]
    refine (Tree.bind_congr fun y hy => ?_).symm
    rw [← hη, Tree.bind_var]
    exact if_neg (h x hx hmem y hy)

/-- Put names for the bound variables of a polytype. -/
def instNames (names : List String) (p : Poly) : Mono := p.inst fun i => .var (names.getD i "")

lemma mem_of_vars_instNames {names : List String} {p : Poly} (hclosed : Closed p)
    (hbound : ∀ i, .inl i ∈ p.vars → i < names.length) {x : String}
    (h : x ∈ (p.instNames names).vars) : x ∈ names := by
  obtain ⟨i | y, hv, hx⟩ := Tree.mem_vars_bind.1 h
  · rw [Sum.elim_inl, List.getD_eq_getElem _ _ (hbound i hv), Tree.vars_var, List.mem_singleton] at hx
    exact hx ▸ List.getElem_mem _
  · exact absurd hv (hclosed y)

/-- The names put for bound variables can be changed afterwards. -/
lemma bind_instNames {η : String → Mono} {names names' : List String} {p : Poly} (hclosed : Closed p)
    (hlen : names.length = names'.length)
    (hbound : ∀ i, .inl i ∈ p.vars → i < names.length)
    (hη : ∀ x y, (x, y) ∈ names.zip names' → η x = .var y) :
    (p.instNames names).bind η = p.instNames names' := by
  rw [instNames, bind_inst, hclosed.subst]
  refine Tree.bind_congr fun v hv => ?_
  cases v with
  | inr x => exact absurd hv (hclosed x)
  | inl i =>
    have hi := hbound i hv
    have hi' : i < names'.length := hlen ▸ hi
    show η (names.getD i "") = .var (names'.getD i "")
    rw [List.getD_eq_getElem _ _ hi, List.getD_eq_getElem _ _ hi']
    refine hη _ _ (List.mem_iff_getElem.2 ⟨i, ?_, List.getElem_zip⟩)
    rw [List.length_zip]
    exact lt_min hi hi'

lemma lt_of_bound_close {names : List String} {τ : Mono} {i : Nat}
    (h : .inl i ∈ (close names τ).vars) : i < names.length := by
  obtain ⟨x, _, hx⟩ := Tree.mem_vars_bind.1 h
  by_cases hmem : x ∈ names
  · rw [if_pos hmem, Tree.vars_var, List.mem_singleton, Sum.inl.injEq] at hx
    exact hx ▸ List.idxOf_lt_length_of_mem hmem
  · rw [if_neg hmem, Tree.vars_var, List.mem_singleton] at hx
    cases hx

end Poly

/-! ### Renaming -/

/-- Any number of names that differ from each other and from those of a list. -/
lemma exists_fresh_names (n : Nat) (avoid : List String) :
    ∃ names : List String, names.length = n ∧ names.Nodup ∧ ∀ x ∈ names, x ∉ avoid := by
  have hinf : {x : String | x ∉ avoid}.Infinite :=
    (List.finite_toSet avoid).infinite_compl
  obtain ⟨names, hsubset, hcard⟩ := hinf.exists_subset_card_eq n
  refine ⟨names.toList, by rw [Finset.length_toList, hcard], names.nodup_toList, fun x hx => ?_⟩
  exact hsubset (Finset.mem_toList.1 hx)

/-- The valuation that puts the second names for the first and agrees with another elsewhere. -/
def renamed (names names' : List String) (θ : String → Mono) (x : String) : Mono :=
  if x ∈ names then .var (names'.getD (names.idxOf x) "") else θ x

lemma renamed_of_not_mem {names names' : List String} {θ : String → Mono} {x : String}
    (h : x ∉ names) : renamed names names' θ x = θ x :=
  if_neg h

lemma renamed_of_mem_zip {names names' : List String} {θ : String → Mono} (hnodup : names.Nodup)
    {x y : String} (h : (x, y) ∈ names.zip names') : renamed names names' θ x = .var y := by
  obtain ⟨i, hi, heq⟩ := List.mem_iff_getElem.1 h
  rw [List.length_zip, lt_min_iff] at hi
  rw [List.getElem_zip, Prod.mk.injEq] at heq
  rw [renamed, if_pos (heq.1 ▸ List.getElem_mem hi.1), ← heq.1, hnodup.idxOf_getElem,
    List.getD_eq_getElem _ _ hi.2, heq.2]

lemma exists_renamed {names names' : List String} (hlen : names'.length = names.length)
    (θ : String → Mono) {x : String} (h : x ∈ names) :
    ∃ y ∈ names', renamed names names' θ x = .var y := by
  have hlt : names.idxOf x < names'.length := hlen ▸ List.idxOf_lt_length_of_mem h
  rw [renamed, if_pos h, List.getD_eq_getElem _ _ hlt]
  exact ⟨_, List.getElem_mem hlt, rfl⟩

lemma renamed_injective {names names' : List String} (hlen : names'.length = names.length)
    (hnodup : names'.Nodup) {θ : String → Mono} {x y : String} (hx : x ∈ names) (hy : y ∈ names)
    (h : renamed names names' θ x = renamed names names' θ y) : x = y := by
  have hltx : names.idxOf x < names'.length := hlen ▸ List.idxOf_lt_length_of_mem hx
  have hlty : names.idxOf y < names'.length := hlen ▸ List.idxOf_lt_length_of_mem hy
  rw [renamed, renamed, if_pos hx, if_pos hy, List.getD_eq_getElem _ _ hltx,
    List.getD_eq_getElem _ _ hlty, Tree.var.injEq, hnodup.getElem_inj_iff] at h
  exact (List.idxOf_inj hx).1 h

end LetPoly
