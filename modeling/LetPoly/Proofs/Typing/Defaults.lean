import LetPoly.Proofs.Ty.Defaults
import LetPoly.Proofs.Typing.TopLevel

/-!
# What defaults leave

Unresolved variables are listed once and get their default one after the other, in terms that change
meanwhile. With a default that has no variables of its own this comes to a replacement of all of them
at once, whatever the order, and leaves none (`Unifier.DefaultsAtOnce`). So a program is never
reported to have a type with a solvable variable in it, not even if the types of the prelude have
some.
-/

namespace LetPoly

open Curried Term

section Terms

variable {T V : Type} [Term T V] [DecidableEq V] [LawfulTerm T V]

/-- Of the variables of a term those are left that did not get their turn. -/
lemma mem_vars_assignAll {d : T} (hclosed : vars d = []) {vs : List V} {t : T} {w : V}
    (hw : w ∈ vars (assignAll d vs t)) : w ∈ vars t ∧ w ∉ vs := by
  induction vs generalizing t with
  | nil => exact ⟨hw, List.not_mem_nil⟩
  | cons v vs ih =>
    obtain ⟨hmem, hvs⟩ := ih hw
    rcases mem_vars_assign hmem with ⟨ht, hne⟩ | hd
    · exact ⟨ht, List.not_mem_cons_of_ne_of_not_mem hne hvs⟩
    · rw [hclosed] at hd
      cases hd

end Terms

lemma Kind.assignAll_eq {d k : Kind} (hd : d.isFlat) (hclosed : d.vars = []) (hk : k.isFlat)
    {vs : List KindVar} (hvs : k.vars ⊆ vs) : assignAll d vs k = Kind.bindAll (fun _ => d) k := by
  obtain ⟨hflat, hread⟩ := Kind.acts.read_assignAll hd hclosed hk hvs
  obtain ⟨hflat', hread'⟩ := Kind.acts.spec (fun _ => hd) hk
  exact (Kind.tree_injective hflat hflat').1 (hread.trans hread'.symm)

namespace Unifier

variable {T V O : Type} [Term T V] [DecidableEq V] {act : T → T} {d : T} {u : Unifier T V O}

/-- Giving every unresolved variable the default `d` leaves none. The live handles stay, each with
what `act` makes of its term, and it does not matter in which order the variables are listed. -/
structure DefaultsAtOnce (act : T → T) (d : T) (u : Unifier T V O) : Prop where
  unresolved : (u.defaultUnresolved fun _ => d).unresolved = []
  term? (h : Handle) : (u.defaultUnresolved fun _ => d).term? h = (u.term? h).map act
  order {vs : List V} : u.unresolved ⊆ vs → ∀ h,
    (vs.foldl (fun u v => u.resolve v d) u).term? h = (u.defaultUnresolved fun _ => d).term? h

lemma exists_term?_of_mem_unresolved {v : V} (hv : v ∈ u.unresolved) :
    ∃ h t, u.term? h = some t ∧ v ∈ vars t := by
  obtain ⟨t, ht, hv⟩ := List.mem_flatMap.1 (List.mem_eraseDups.1 hv)
  obtain ⟨h, ht⟩ := Store.exists_get?_of_mem_terms ht
  exact ⟨h, t, ht, hv⟩

variable [LawfulTerm T V]

/-- Whatever the shape of the terms, nothing stays unresolved. -/
lemma unresolved_defaulted (hclosed : vars d = []) (u : Unifier T V O) :
    (u.defaultUnresolved fun _ => d).unresolved = [] := by
  refine List.eq_nil_iff_forall_not_mem.2 fun v hv => ?_
  obtain ⟨h, t, ht, hv⟩ := exists_term?_of_mem_unresolved hv
  rw [term?_defaulted] at ht
  obtain ⟨t₀, ht₀, rfl⟩ := Option.map_eq_some_iff.1 ht
  obtain ⟨hv, hnot⟩ := mem_vars_assignAll hclosed hv
  exact hnot (vars_subset_unresolved ht₀ hv)

/-- It is enough to know what becomes of a single term. -/
lemma defaultsAtOnce (hclosed : vars d = []) (hact : ∀ h t, u.term? h = some t →
    ∀ vs, vars t ⊆ vs → assignAll d vs t = act t) : u.DefaultsAtOnce act d := by
  have hfold {vs : List V} (hvs : u.unresolved ⊆ vs) (h : Handle) :
      (vs.foldl (fun u v => u.resolve v d) u).term? h = (u.term? h).map act := by
    rw [term?_foldl_resolve]
    cases ht : u.term? h with
    | none => rfl
    | some t =>
      exact congrArg some (hact h t ht vs (List.Subset.trans (vars_subset_unresolved ht) hvs))
  have hdefault := hfold (List.Subset.refl u.unresolved)
  exact ⟨u.unresolved_defaulted hclosed, hdefault, fun hvs h => (hfold hvs h).trans (hdefault h).symm⟩

end Unifier

/-! ### Programs -/

open Inference Session

/-- Defaults without variables are put for all unresolved variables at once, over flat kinds and over
normal types with quantifiers anywhere, and programs are reported without solvable variables. -/
theorem defaultUnresolved_atOnce :
    (∀ (O : Type) (u : Unifier Kind KindVar O), (∀ h k, u.term? h = some k → k.isFlat) →
      ∀ d : Kind, d.isFlat → d.vars = [] → u.DefaultsAtOnce (Kind.bindAll fun _ => d) d) ∧
    (∀ (O : Type) (u : Unifier Ty String O), (∀ h t, u.term? h = some t → t.isNormal) →
      ∀ d : Ty, d.isNormal → d.unknowns = [] →
        u.DefaultsAtOnce (Ty.putWhere (fun _ => true) d) d) ∧
    ∀ (config : Config) (decls : List Decl) (typed : Typed), config.defaultTy.unknowns = [] →
      (checkProgram config decls).2 = .ok typed → ∀ e ∈ typed.values.entries, e.2.unknowns = [] := by
  refine ⟨fun O u hlive d hd hclosed => ?_, fun O u hlive d hd hclosed => ?_,
    fun config decls typed hclosed hok e he => ?_⟩
  · exact Unifier.defaultsAtOnce hclosed fun h k hk vs hvs =>
      Kind.assignAll_eq hd hclosed (hlive h k hk) hvs
  · exact Unifier.defaultsAtOnce hclosed fun h t ht vs hvs =>
      Ty.assignAll_eq hd hclosed (hlive h t ht) hvs
  · obtain ⟨_, _, s, _, _, _, _, hclose⟩ := checkProgram_eq_ok hok
    obtain ⟨h, -, ht⟩ := (closeProgram_reads hclose).2.2 e he
    have hnone := s.inference.settled.unifier.unresolved_defaulted (d := config.defaultTy) hclosed
    exact List.subset_nil.1 (hnone ▸ Unifier.vars_subset_unresolved ht)

/-- `?k1 -> ?k0` and `?k0`. -/
def openKinds : Unifier Kind KindVar Nat :=
  ⟨⟨[.live 0 (.chain [.var ⟨1⟩, .var ⟨0⟩]), .live 1 (.var ⟨0⟩)], 2⟩, [], []⟩

/-- `f(x)`, and `forall x. x -> f` in which `x` is another one, behind a vacant place. -/
def openTypes : Unifier Ty String Nat :=
  ⟨⟨[.vacant 1, .live 0 (.app (.solvable "f") [.solvable "x"]),
    .live 2 (.scheme (.ofList ["x"]) (.arrow (.solvable "x") (.solvable "f")))], 3⟩, [], []⟩

/-- A prelude with a value of unknown type. -/
def openPrelude : Config := { prelude := Prelude.standard.withValue "p" (.solvable "q") }

/-- The lists of integers. -/
def listOfInt : Ty := .app (.con "List" none) [.int]

/-- The arguments of a default come before those of the variable that it replaces as a head. -/
theorem defaultUnresolved_atOnce_open :
    openKinds.DefaultsAtOnce (Kind.bindAll fun _ => .ofArity 1) (.ofArity 1) ∧
    (openTypes.DefaultsAtOnce (Ty.putWhere (fun _ => true) listOfInt) listOfInt ∧
      (openTypes.defaultUnresolved fun _ => listOfInt).term? ⟨1, 0⟩ =
        some (.app (.con "List" none) [.int, listOfInt]) ∧
      (openTypes.defaultUnresolved fun _ => listOfInt).term? ⟨2, 2⟩ =
        some (.scheme (.ofList ["x"]) (.arrow (.solvable "x") listOfInt))) ∧
    ∃ typed, (checkProgram openPrelude [.value "y" none (.ident "p") {}]).2 = .ok typed ∧
      typed.values.find? "y" = some .unit ∧ ∀ e ∈ typed.values.entries, e.2.unknowns = [] := by
  obtain ⟨hkinds, htypes, hprogram⟩ := defaultUnresolved_atOnce
  refine ⟨hkinds Nat _ (fun h k hk => ?_) _ (by decide) (by decide), ⟨?_, by cbv, by cbv⟩, ?_⟩
  · have hall : ∀ k ∈ openKinds.live.terms, k.isFlat := by decide
    exact hall k (Store.mem_terms_of_get? hk)
  · refine htypes Nat _ (fun h t ht => ?_) _ (by decide) (by decide)
    have hall : ∀ t ∈ openTypes.live.terms, t.isNormal := by decide
    exact hall t (Store.mem_terms_of_get? ht)
  · have hrun : (checkProgram openPrelude [.value "y" none (.ident "p") {}]).2 =
        .ok ⟨.empty, .ofList [("y", .unit)]⟩ := by cbv
    exact ⟨_, hrun, rfl, hprogram _ _ _ (by decide) hrun⟩

end LetPoly
