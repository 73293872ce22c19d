import LetPoly.Proofs.Unification.MostGeneral
import LetPoly.Proofs.Unification.Resolved
import LetPoly.Proofs.Unification.Store
import Mathlib.Algebra.Group.End
import Mathlib.Data.Fintype.Sum
import Mathlib.Data.List.Permutation

/-!
# The order of equations

Whether a queue can be worked off does not depend on the order of its equations, and neither does the
outcome, but for the names of the variables that stay: two orders give most general unifiers of the
same equations, and each of them goes through the other (`Acts.exists_perm_solve`). Once the same
closed term has been put for all variables that stay, nothing of the order is left
(`Unifier.solve_perm`).
-/

namespace LetPoly

open Curried Term

/-- What is injective on a finite set agrees there with a permutation that moves nothing but this
set and its image. -/
lemma exists_perm_extending {α : Type} [DecidableEq α] {r : α → α} {s : Finset α}
    (hr : Set.InjOn r s) : ∃ p : Equiv.Perm α, (∀ x ∈ s, p x = r x) ∧
      (∀ x ∉ s ∪ s.image r, p x = x) ∧ ∀ x ∈ s ∪ s.image r, p x ∈ s ∪ s.image r := by
  have hmaps : Set.MapsTo (fun x : {x // x ∈ s ∪ s.image r} => r x.1) {x | x.1 ∈ s}
      (s ∪ s.image r : Finset α) := fun x hx =>
    Finset.mem_union_right _ (Finset.mem_image_of_mem r hx)
  obtain ⟨e, he⟩ := hmaps.exists_equiv_extend_of_card_eq (by simp)
    fun x hx y hy hxy => Subtype.ext (hr hx hy hxy)
  refine ⟨Equiv.Perm.ofSubtype e, fun x hx => ?_, fun x hx => ?_, fun x hx => ?_⟩
  · have hmem : x ∈ s ∪ s.image r := Finset.mem_union_left _ hx
    rw [Equiv.Perm.ofSubtype_apply_of_mem _ hmem]
    exact he ⟨x, hmem⟩ hx
  · exact Equiv.Perm.ofSubtype_apply_of_not_mem _ hx
  · rw [Equiv.Perm.ofSubtype_apply_of_mem _ hx]
    exact (e ⟨x, hx⟩).2

variable {T V C X O : Type} [Term T V] [BEq T] [DecidableEq X] [Curried T V C X]

lemma Solves.of_subset {queue queue' : List (Equation T O)} {Y : Type} {θ : X → Tree C Y}
    (h : Solves θ queue) (hsub : queue' ⊆ queue) : Solves θ queue' :=
  fun e he => h e (hsub he)

/-! ### Two most general unifiers -/

section Solve

variable [DecidableEq V] [LawfulTerm T V] {flat : T → Bool} {act : (V → T) → T → T} {var : V → T}
  {lift : (V → T) → X → Tree C X} {queue queue' : List (Equation T O)}

/-- A variable that one run leaves is made a variable by the other, and back. -/
lemma exists_counterpart (hqueue' : ∀ e ∈ queue', e.Flat)
    (hok : Solves (bindingSubst (solve queue).bindings) queue') {v : V}
    (hv : bindingSubst (solve queue).bindings (unknown T v) = .var (unknown T v)) :
    ∃ w : V, bindingSubst (solve queue').bindings (unknown T v) = .var (unknown T w) ∧
      bindingSubst (solve queue).bindings (unknown T w) = .var (unknown T v) := by
  have habsorbed := solve_absorbed hqueue' hok (unknown T v)
  rw [hv] at habsorbed
  cases hvalue : bindingSubst (solve queue').bindings (unknown T v) with
  | leaf c => rw [hvalue] at habsorbed; cases habsorbed
  | node l r => rw [hvalue] at habsorbed; cases habsorbed
  | var x =>
    rw [hvalue, Tree.bind_var] at habsorbed
    by_cases hx : ∃ w, x = unknown T w
    · obtain ⟨w, rfl⟩ := hx
      exact ⟨w, rfl, habsorbed⟩
    · -- A rigid variable is left alone by both.
      rw [bindingSubst_eq_var fun b _ hb => hx ⟨b.1, hb⟩] at habsorbed
      exact absurd ⟨v, Tree.var.inj habsorbed⟩ hx

/-- A queue in another order is worked off iff the queue is. -/
lemma Acts.failure_perm (h : Acts flat act var lift) (hqueue : ∀ e ∈ queue, e.Flat)
    (hperm : queue'.Perm queue) :
    (solve queue').failure = none ↔ (solve queue).failure = none := by
  have hqueue' : ∀ e ∈ queue', e.Flat := fun e he => hqueue e (hperm.mem_iff.1 he)
  rw [← h.unifiable_iff hqueue, ← h.unifiable_iff hqueue']
  exact ⟨fun hu => hu.of_subset hperm.symm.subset, fun hu => hu.of_subset hperm.subset⟩

/-- What a queue in another order makes of finitely many terms is what the queue makes of them, with
the variables renamed. -/
lemma Acts.exists_perm_solve (h : Acts flat act var lift) (hqueue : ∀ e ∈ queue, e.Flat)
    (hperm : queue'.Perm queue) (hok : (solve queue).failure = none) {terms : List T}
    (hterms : ∀ t ∈ terms, Flat t) : ∃ ρ : Equiv.Perm V, ∀ t ∈ terms,
      read (applyBindings (solve queue').bindings t) =
        (read (applyBindings (solve queue).bindings t)).bind (lift fun v => var (ρ v)) := by
  have hqueue' : ∀ e ∈ queue', e.Flat := fun e he => hqueue e (hperm.mem_iff.1 he)
  have hsolves := solve_solves hqueue hok
  have hsolves' := solve_solves hqueue' ((h.failure_perm hqueue hperm).2 hok)
  -- The variables that are left by the one run, each with what the other makes of it.
  let left := (terms.flatMap fun t => vars (applyBindings (solve queue).bindings t)).toFinset
  have hleft {v : V} (hv : v ∈ left) : ∃ w : V,
      bindingSubst (solve queue').bindings (Curried.unknown T v) = .var (Curried.unknown T w) ∧
        bindingSubst (solve queue).bindings (Curried.unknown T w) = .var (Curried.unknown T v) := by
    obtain ⟨t, -, hv⟩ := List.mem_flatMap.1 (List.mem_toFinset.1 hv)
    refine exists_counterpart hqueue' (hsolves.of_subset hperm.subset) (bindingSubst_eq_var ?_)
    intro b hb heq
    obtain rfl := unknown_injective heq
    exact (mem_vars_applyBindings_solve hv).1 (List.mem_map_of_mem hb)
  choose! r hr hback using fun v (hv : v ∈ left) => hleft hv
  have hinj : Set.InjOn r left := by
    intro v hv w hw hvw
    have := hback v hv
    rw [hvw, hback w hw] at this
    exact (unknown_injective (Tree.var.inj this)).symm
  obtain ⟨ρ, hρ, -, -⟩ := exists_perm_extending hinj
  refine ⟨ρ, fun t ht => ?_⟩
  have hread := read_applyBindings (solve_flat hqueue) (hterms t ht)
  have hflat := LetPoly.flat_applyBindings (solve_flat hqueue) (hterms t ht)
  calc read (applyBindings (solve queue').bindings t)
      = (read t).bind (bindingSubst (solve queue').bindings) :=
        read_applyBindings (solve_flat hqueue') (hterms t ht)
    _ = (read (applyBindings (solve queue).bindings t)).bind
          (bindingSubst (solve queue').bindings) := by
        rw [hread, Tree.bind_bind]
        exact Tree.bind_congr fun x _ =>
          (solve_absorbed hqueue (hsolves'.of_subset hperm.symm.subset) x).symm
    _ = _ := by
        refine Tree.bind_congr fun x hx => ?_
        by_cases hunknown : ∃ v, x = Curried.unknown T v
        · obtain ⟨v, rfl⟩ := hunknown
          have hv : v ∈ left := List.mem_toFinset.2
            (List.mem_flatMap.2 ⟨t, ht, (mem_vars hflat).2 hx⟩)
          rw [hr v hv, h.unknown, (h.var _).2, hρ v hv]
        · rw [h.rigid _ fun v hv => hunknown ⟨v, hv⟩,
            bindingSubst_eq_var fun b _ hb => hunknown ⟨b.1, hb⟩]

/-! ### Defaults -/

/-- Put one term for variables, one after the other. -/
def assignAll (d : T) (vs : List V) (t : T) : T := vs.foldl (fun t v => assign v d t) t

/-- One closed term is put for all variables at once. -/
lemma Acts.read_assignAll (h : Acts flat act var lift) {d : T} (hd : Flat d)
    (hclosed : vars d = []) {vs : List V} {t : T} (ht : Flat t) (hvars : vars t ⊆ vs) :
    Flat (assignAll d vs t) ∧ read (assignAll d vs t) = (read t).bind (lift fun _ => d) := by
  have hself {s : T} (hs : Flat s) (hnil : vars s = []) : (read s).bind (lift fun _ => d) = read s := by
    refine Tree.bind_eq_self fun x hx => h.rigid _ fun v hv => ?_
    have hmem := (mem_vars hs).2 (hv ▸ hx)
    rw [hnil] at hmem
    cases hmem
  induction vs generalizing t with
  | nil => exact ⟨ht, (hself ht (List.subset_nil.1 hvars)).symm⟩
  | cons v vs ih =>
    have hvars' : vars (assign v d t) ⊆ vs := by
      intro w hw
      rcases mem_vars_assign hw with ⟨hw, hne⟩ | hw
      · exact (List.mem_cons.1 (hvars hw)).resolve_left hne
      · rw [hclosed] at hw
        cases hw
    obtain ⟨hflat, hread⟩ := ih (flat_assign hd ht) hvars'
    refine ⟨hflat, hread.trans ?_⟩
    rw [read_assign hd ht, Tree.bind_bind]
    refine Tree.bind_congr fun x _ => Tree.single_bind ?_ x
    rw [h.unknown, hself hd hclosed]

omit [DecidableEq V] [LawfulTerm T V] in
/-- The names of variables are lost once one term has been put for all of them. -/
lemma Acts.bind_lift_rename (h : Acts flat act var lift) (ρ : V → V) (d : T) (t : Tree C X) :
    (t.bind (lift fun v => var (ρ v))).bind (lift fun _ => d) = t.bind (lift fun _ => d) := by
  rw [Tree.bind_bind]
  refine Tree.bind_congr fun x _ => ?_
  by_cases hx : ∃ v, x = Curried.unknown T v
  · obtain ⟨v, rfl⟩ := hx
    rw [h.unknown, h.unknown, (h.var _).2, Tree.bind_var, h.unknown]
  · have hrigid : IsRigid T x := fun v hv => hx ⟨v, hv⟩
    rw [h.rigid _ hrigid, h.rigid _ hrigid, Tree.bind_var, h.rigid _ hrigid]

end Solve

namespace Unifier

variable [DecidableEq V]

omit [BEq T] [DecidableEq X] [Curried T V C X] in
lemma live_foldl_resolve (d : T) (vs : List V) (u : Unifier T V O) :
    (vs.foldl (fun u v => u.resolve v d) u).live = u.live.map (assignAll d vs) := by
  induction vs generalizing u with
  | nil => exact u.live.map_id.symm
  | cons v vs ih =>
    rw [List.foldl_cons, ih, resolve, Store.map_map]
    rfl

omit [BEq T] [DecidableEq X] [Curried T V C X] in
lemma term?_foldl_resolve (d : T) (vs : List V) (u : Unifier T V O) (h : Handle) :
    (vs.foldl (fun u v => u.resolve v d) u).term? h = (u.term? h).map (assignAll d vs) := by
  rw [term?, live_foldl_resolve, Store.get?_map]
  rfl

omit [BEq T] [DecidableEq X] [Curried T V C X] in
lemma term?_defaulted (u : Unifier T V O) (d : T) (h : Handle) :
    (u.defaultUnresolved fun _ => d).term? h = (u.term? h).map (assignAll d u.unresolved) :=
  term?_foldl_resolve d u.unresolved u h

omit [BEq T] [DecidableEq X] [Curried T V C X] in
lemma vars_subset_unresolved {u : Unifier T V O} {h : Handle} {t : T} (ht : u.term? h = some t) :
    vars t ⊆ u.unresolved := fun _ hv =>
  List.mem_eraseDups.2 (List.mem_flatMap.2 ⟨t, Store.mem_terms_of_get? ht, hv⟩)

variable [LawfulTerm T V]

/-- Two unifiers come to the same: both are solved or none is, and if they are, one renaming of the
variables makes the live terms of the one those of the other. Once a closed term has been put for
whatever is left, the live terms are equal. -/
structure SameOutcome (flat : T → Bool) (act : (V → T) → T → T) (var : V → T)
    (u u' : Unifier T V O) : Prop where
  ok_iff : u.solve.2 = none ↔ u'.solve.2 = none
  renamed : u.solve.2 = none → ∃ ρ : Equiv.Perm V, ∀ h,
    Option.Rel (fun t t' => (t' == act (fun v => var (ρ v)) t) = true)
      (u.solve.1.term? h) (u'.solve.1.term? h)
  defaulted {d : T} : u.solve.2 = none → flat d → vars d = [] → ∀ h,
    Option.Rel (fun t t' => (t == t') = true)
      ((u.solve.1.defaultUnresolved fun _ => d).term? h)
      ((u'.solve.1.defaultUnresolved fun _ => d).term? h)

variable {flat : T → Bool} {act : (V → T) → T → T} {var : V → T} {lift : (V → T) → X → Tree C X}

lemma sameOutcome_of_perm (hacts : Acts flat act var lift) {u : Unifier T V O}
    (hlive : ∀ h t, u.term? h = some t → Flat t) (hqueue : ∀ e ∈ u.queue, e.Flat)
    {queue' : List (Equation T O)} (hperm : queue'.Perm u.queue) :
    SameOutcome flat act var u { u with queue := queue' } := by
  have hqueue' : ∀ e ∈ queue', e.Flat := fun e he => hqueue e (hperm.mem_iff.1 he)
  have hterms : ∀ t ∈ u.live.terms, Flat t := fun t ht =>
    (Store.exists_get?_of_mem_terms ht).elim fun h ht => hlive h t ht
  have hrenamed (hok : u.solve.2 = none) := hacts.exists_perm_solve hqueue hperm hok hterms
  refine ⟨(hacts.failure_perm hqueue hperm).symm, fun hok => ?_, fun {d} hok hd hclosed h => ?_⟩
  · obtain ⟨ρ, hρ⟩ := hrenamed hok
    refine ⟨ρ, fun h => ?_⟩
    rw [term?_solve, term?_solve]
    show Option.Rel _ ((u.term? h).map _) ((u.term? h).map _)
    cases ht : u.term? h with
    | none => exact .none
    | some t =>
      refine .some ((hacts.act_beq_iff (fun v => (hacts.var _).1) ?_ ?_).2
        (hρ t (Store.mem_terms_of_get? ht)))
      · exact LetPoly.flat_applyBindings (solve_flat hqueue) (hlive h t ht)
      · exact LetPoly.flat_applyBindings (solve_flat hqueue') (hlive h t ht)
  · obtain ⟨ρ, hρ⟩ := hrenamed hok
    have hd := (hacts.flat_iff d).1 hd
    have hsolved := term?_solve u h
    have hsolved' := term?_solve { u with queue := queue' } h
    rw [term?_defaulted, term?_defaulted]
    change _ = (u.term? h).map _ at hsolved hsolved'
    cases ht : u.term? h with
    | none =>
      rw [ht, Option.map_none] at hsolved hsolved'
      rw [hsolved, hsolved']
      exact .none
    | some t =>
      rw [ht, Option.map_some] at hsolved hsolved'
      obtain ⟨hflat, hread⟩ := hacts.read_assignAll hd hclosed
        (LetPoly.flat_applyBindings (solve_flat hqueue) (hlive h t ht))
        (vars_subset_unresolved hsolved)
      obtain ⟨hflat', hread'⟩ := hacts.read_assignAll hd hclosed
        (LetPoly.flat_applyBindings (solve_flat hqueue') (hlive h t ht))
        (vars_subset_unresolved hsolved')
      rw [hsolved, hsolved']
      refine .some ((beq_iff hflat hflat').2 ?_)
      rw [hread, hread', hρ t (Store.mem_terms_of_get? ht), hacts.bind_lift_rename]

/-- The order of the equations makes no difference to what is solved, over kinds and over types. -/
theorem solve_perm :
    (∀ (O : Type) (u : Unifier Kind KindVar O), (∀ h k, u.term? h = some k → k.isFlat) →
      (∀ e ∈ u.queue, e.left.isFlat ∧ e.right.isFlat) → ∀ queue', queue'.Perm u.queue →
        SameOutcome Kind.isFlat Kind.bindAll Kind.var u { u with queue := queue' }) ∧
    (∀ (O : Type) (u : Unifier Ty String O), (∀ h t, u.term? h = some t → t.isFlat) →
      (∀ e ∈ u.queue, e.left.isFlat ∧ e.right.isFlat) → ∀ queue', queue'.Perm u.queue →
        SameOutcome Ty.isFlat Ty.bindAll (fun v => .var v .solvable none) u
          { u with queue := queue' }) :=
  ⟨fun _ _ hlive hqueue _ => sameOutcome_of_perm Kind.acts hlive hqueue,
    fun _ _ hlive hqueue _ => sameOutcome_of_perm Ty.acts hlive hqueue⟩

/-- `List(x)` live under `x ≐ y` and `x ≐ z`: in this order `z` is left, in the other one `y`. -/
def forkedTypes : Unifier Ty String Nat :=
  ⟨⟨[.live 0 (.app (.con "List" none) [.var "x" .solvable none])], 1⟩,
    [⟨.var "x" .solvable none, .var "y" .solvable none, 0⟩,
      ⟨.var "x" .solvable none, .var "z" .solvable none, 1⟩], []⟩

/-- `K -> *` live under `K ≐ L` and `K ≐ M`. -/
def forkedKinds : Unifier Kind KindVar Nat :=
  ⟨⟨[.live 0 (.chain [.var ⟨0⟩, .atomic])], 1⟩,
    [⟨.var ⟨0⟩, .var ⟨1⟩, 0⟩, ⟨.var ⟨0⟩, .var ⟨2⟩, 1⟩], []⟩

theorem solve_perm_forked :
    (forkedTypes.solve.2 = none ∧ forkedTypes.solve.1.unresolved = ["z"] ∧
      ({ forkedTypes with queue := forkedTypes.queue.reverse }).solve.1.unresolved = ["y"] ∧
      SameOutcome Ty.isFlat Ty.bindAll (fun v => .var v .solvable none) forkedTypes
        { forkedTypes with queue := forkedTypes.queue.reverse }) ∧
    forkedKinds.solve.2 = none ∧ forkedKinds.solve.1.unresolved = [⟨2⟩] ∧
      ({ forkedKinds with queue := forkedKinds.queue.reverse }).solve.1.unresolved = [⟨1⟩] ∧
      SameOutcome Kind.isFlat Kind.bindAll Kind.var forkedKinds
        { forkedKinds with queue := forkedKinds.queue.reverse } := by
  refine ⟨⟨by cbv, by cbv, by cbv, solve_perm.2 Nat _ (fun h t ht => ?_) (by decide) _
      (List.reverse_perm _)⟩, by cbv, by cbv, by cbv,
    solve_perm.1 Nat _ (fun h k hk => ?_) (by decide) _ (List.reverse_perm _)⟩
  · obtain rfl := List.mem_singleton.1 (Store.mem_terms_of_get? ht)
    decide
  · obtain rfl := List.mem_singleton.1 (Store.mem_terms_of_get? hk)
    decide

end Unifier

end LetPoly
