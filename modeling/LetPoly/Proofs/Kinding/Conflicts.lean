import LetPoly.Proofs.Kinding.Collected
import LetPoly.Proofs.Kinding.Order
import LetPoly.Proofs.Unification.Blame

/-!
# Reported conflicts are real

An error of kind inference that reports two kinds reports two that no substitution makes equal
(`Kind.Apart`), and one that reports an infinite kind reports a variable inside a larger kind. For
the clash of an equation that is the failure of its last step. For an application the two kinds are
those of the whole, after the bindings made on the way, so there it is the whole run that counts
(`not_solved_of_failure`).
-/

namespace LetPoly

open Kind Kinding

/-! ### Kinds that cannot be made equal -/

namespace Kind

/-- No substitution makes two kinds equal. The chain without links, which no operation on kinds
builds, is not put for a variable: in the place of `?0` it would make `*` of `* -> ?0`. -/
def Apart (a b : Kind) : Prop :=
  ∀ σ : KindVar → Kind, (∀ v, σ v ≠ .chain []) → bindAll σ a ≠ bindAll σ b

variable {a b : Kind}

lemma Apart.symm (h : a.Apart b) : b.Apart a := fun σ hσ heq => h σ hσ heq.symm

lemma Apart.ne (h : a.Apart b) : a ≠ b := by
  rintro rfl
  exact h (fun _ => .atomic) (fun _ => nofun) rfl

/-- Flat kinds are apart if their trees are. -/
lemma apart_of_tree (ha : a.isFlat) (hb : b.isFlat)
    (h : ∀ θ : KindVar → Tree Unit KindVar, a.tree.bind θ ≠ b.tree.bind θ) : a.Apart b := by
  intro σ hσ heq
  refine h (fun v => (σ v).tree) ?_
  rw [← (tree_bindAll hσ a ha).2, ← (tree_bindAll hσ b hb).2, heq]

/-- Kinds have no rigid variables. -/
lemma faithful {Y : Type} (θ : KindVar → Tree Unit Y) (S : KindVar → Prop) :
    Faithful Kind θ S :=
  ⟨fun {x} _ hx => absurd rfl (hx x), fun {x _} _ _ hx => absurd rfl (hx x)⟩

lemma eq_var_of_var? {k : Kind} {v : KindVar} (h : Term.var? k = some v) : k = .var v := by
  cases k with
  | var w =>
    cases h
    rfl
  | atomic => cases h
  | chain _ => cases h

end Kind

/-! ### Runs that fail -/

namespace Equation

variable {O : Type} {e : Equation Kind O}

/-- A step fails at two sides that clash, or at a variable that stands inside the other side. -/
lemma step_error_cases {error : UnifyError Kind KindVar} (h : e.step = .error error) :
    error = .mismatch e.left e.right ∨
      ∃ v k, error = .occursCheck v k ∧ v ∈ k.vars ∧ k ≠ .var v := by
  unfold step at h
  split at h
  · cases h
  · rename_i hne
    split at h
    · rename_i v hv
      unfold Step.bind? at h
      split at h
      · rename_i hocc
        cases h
        refine .inr ⟨v, e.right, rfl, of_decide_eq_true hocc, fun hright => hne ?_⟩
        rw [beq_iff_eq, hright, eq_var_of_var? hv]
      · cases h
    · rename_i v _ hv
      unfold Step.bind? at h
      split at h
      · rename_i hocc
        cases h
        refine .inr ⟨v, e.left, rfl, of_decide_eq_true hocc, fun hleft => hne ?_⟩
        rw [beq_iff_eq, hleft, eq_var_of_var? hv]
      · cases h
    · split at h
      · cases h
      · cases h
        exact .inl rfl

end Equation

section Run

variable {O : Type} {queue : List (Equation Kind O)} {failure : Unsolved Kind KindVar O}

/-- What a run ends with is a clash, or an infinite kind. -/
lemma error_of_failure (hflat : ∀ e ∈ queue, e.Flat) (h : (solve queue).failure = some failure) :
    (∃ left right, failure.error = .mismatch left right ∧ right.Apart left) ∨
      ∃ v k, failure.error = .occursCheck v k ∧ v ∈ k.vars ∧ k ≠ .var v := by
  obtain ⟨e, he, hstep⟩ := step_of_failure hflat h
  refine (Equation.step_error_cases hstep).imp_left fun heq => ⟨_, _, heq, Apart.symm ?_⟩
  exact apart_of_tree he.1 he.2 fun θ =>
    Equation.not_solved_of_step_error he hstep (faithful θ _)

/-- The bindings of the run make kinds that are apart of the two sides of the equation blamed. -/
lemma apart_of_failure (hflat : ∀ e ∈ queue, e.Flat) (h : (solve queue).failure = some failure) :
    ∃ e ∈ queue, failure.origin = e.origin ∧
      Apart (applyBindings (solve queue).bindings e.left)
        (applyBindings (solve queue).bindings e.right) := by
  obtain ⟨e, he, horigin, hunsolved⟩ := not_solved_of_failure hflat h
  have hbindings := solve_flat hflat
  refine ⟨e, he, horigin, apart_of_tree (flat_applyBindings hbindings (hflat e he).1)
    (flat_applyBindings hbindings (hflat e he).2) fun θ heq => hunsolved θ (faithful θ _) ?_⟩
  have hleft := read_applyBindings hbindings (hflat e he).1
  have hright := read_applyBindings hbindings (hflat e he).2
  rw [Equation.Solved, ← Tree.bind_bind, ← Tree.bind_bind, ← hleft, ← hright]
  exact heq

end Run

/-! ### Errors -/

/-- The kinds that an error reports are in conflict. -/
def KindError.IsConflict : KindError → Prop
  | .arityMismatch _ expected found => expected ≠ found ∧ expected.Apart found
  | .kindMismatch expected found _ => expected ≠ found ∧ expected.Apart found
  | .infiniteKind v k => v ∈ k.vars ∧ k ≠ .var v
  | _ => True

lemma KindError.isConflict_of_ofWalk {e : KindError} (h : e.ofWalk) : e.IsConflict := by
  cases e <;> trivial

/-- Failures to solve equations that accord with their origins are reported as conflicts. -/
lemma Kinding.isConflict_of_settle {s : Kinding} {e : Sited KindError}
    (hflat : ∀ e ∈ s.equations, e.Flat)
    (haccords : ∀ e ∈ s.equations, e.origin.item.Accords e.left e.right)
    (h : s.settle = .error e) : e.item.IsConflict := by
  rw [settle] at h
  split at h
  · rename_i unsolved hfailure
    cases h
    obtain ⟨e, he, horigin, hapart⟩ := apart_of_failure hflat hfailure
    have herror := error_of_failure hflat hfailure
    obtain ⟨⟨site, origin⟩, error⟩ := unsolved
    rcases herror with ⟨left, right, rfl, hclash⟩ | ⟨v, k, rfl, hv, hk⟩
    · cases origin with
      | application constructor head applied =>
        -- the origin has the sides of the whole equation, of which the clash may be a part
        have haccord := haccords e he
        rw [← horigin] at haccord
        obtain ⟨rfl, rfl⟩ := haccord
        exact ⟨hapart.ne, hapart⟩
      | declaration _ => exact ⟨hclash.ne, hclash⟩
      | arrow => exact ⟨hclash.ne, hclash⟩
      | scheme => exact ⟨hclash.ne, hclash⟩
      | ascription => exact ⟨hclash.ne, hclash⟩
      | assigned _ => exact ⟨hclash.ne, hclash⟩
    · exact ⟨hv, hk⟩
  · cases h

/-- Errors of inference that records kinds are those of the group, or come from a datatype listed
twice. -/
lemma inferKinds_eq_error {base : Scope Kind} {pool : List Datatype} {members : List Nat}
    {e : KindError} (h : (inferKinds base pool members).2 = .error e) :
    (∃ site, inferGroup base (membersOf pool members) = .error ⟨site, e⟩) ∨
      ∃ name k, e = .alreadyAssigned name k := by
  cases hfound : inferGroup base (membersOf pool members) with
  | error e' =>
    rw [inferKinds_of_error hfound] at h
    cases h
    exact .inl ⟨e'.site, rfl⟩
  | ok kinds =>
    rw [inferKinds, recordGroup, ← membersOf, hfound] at h
    simp only at h
    split at h
    · next hrecord =>
      split at hrecord
      · next hloop =>
        cases hrecord
        cases h
        exact .inr (recordLeaves_eq_error (congrArg Prod.snd hloop))
      · cases hrecord
    · cases h

/-- Whenever kind inference for a group or for an ascription reports kinds in conflict, no
substitution makes them equal, and so they are different kinds. A variable for which it reports an
infinite kind stands inside this kind. -/
theorem reported_kinds_conflict (base : Scope Kind)
    (hbase : ∀ name k, base.lookup name = some k → k.IsGround) :
    (∀ pool members e,
      (∀ t ∈ groupTypes (membersOf pool members), ∀ k ∈ t.recordedKinds, k.IsGround) →
      (inferKinds base pool members).2 = .error e → e.IsConflict) ∧
    ∀ t e, (∀ k ∈ t.recordedKinds, k.IsGround) → (checkAscription base t).2 = .error e →
      e.IsConflict := by
  refine ⟨fun pool members e hslot h => ?_, fun t e hslot h => ?_⟩
  · obtain ⟨site, hfound⟩ | ⟨name, k, rfl⟩ := inferKinds_eq_error h
    · obtain hwalk | ⟨leaves, s, hrun, haccords, hsettle⟩ := inferGroup_eq_error hfound
      · exact KindError.isConflict_of_ofWalk hwalk
      · have hkinds : ∀ d ∈ membersOf pool members, ∀ k ∈ Ty.recordedKindsList d.types,
            k.IsGround := by
          intro d hd k hk
          obtain ⟨t, ht, hk⟩ := Ty.mem_recordedKindsList.1 hk
          exact hslot t (List.mem_flatMap.2 ⟨d, hd, ht⟩) k hk
        have hs := (groupConstraints_walked hkinds ((bounded_initial hbase).brought _) hrun).1
        exact isConflict_of_settle hs.flat haccords hsettle
    · trivial
  · obtain hwalk | ⟨k, s, s', site, hrun, rfl, haccords, hsettle⟩ := checkAscription_eq_error h
    · exact KindError.isConflict_of_ofWalk hwalk
    · have ht : t.Admits fun _ => True := ⟨fun _ _ => trivial, hslot⟩
      obtain ⟨-, hs, hk⟩ := Ty.kindConstraints_keeps t ht (bounded_initial hbase) hrun
      have hs' := hs.equated ⟨base, .introduce, none⟩ hk (isGround_atomic.below _) .ascription
      exact isConflict_of_settle hs'.flat haccords hsettle

/-- Integers and lists. -/
def listKinds : Scope Kind := (Scope.empty.insert "Int" .atomic).insert "List" (.ofArity 1)

/-- A datatype with a field of its parameter applied to itself. -/
def selfApplied : List Datatype :=
  [⟨.app (.con "Self" none) [.rigid "f"], [⟨"MkSelf", [.app (.rigid "f") [.rigid "f"]]⟩], {}⟩]

theorem reported_kinds_conflict_lists :
    ((checkAscription listKinds (.app (.con "List" none) [.con "List" none])).2 =
        .error (.arityMismatch "List" (.ofArity 1) (.chain [.ofArity 1, .var ⟨0⟩])) ∧
      (Kind.ofArity 1).Apart (.chain [.ofArity 1, .var ⟨0⟩])) ∧
    ((checkAscription listKinds (.con "List" none)).2 =
        .error (.kindMismatch .atomic (.ofArity 1) "type annotation") ∧
      Kind.atomic.Apart (.ofArity 1)) ∧
    (inferKinds listKinds selfApplied [0]).2 =
        .error (.infiniteKind ⟨1⟩ (.chain [.var ⟨1⟩, .var ⟨3⟩])) ∧
      ⟨1⟩ ∈ (Kind.chain [.var ⟨1⟩, .var ⟨3⟩]).vars := by
  have hbase : ∀ name k, listKinds.lookup name = some k → k.IsGround := by
    intro name k hk
    rw [listKinds, Scope.lookup_insert, Scope.lookup_insert] at hk
    split at hk
    · cases hk
      decide
    · split at hk
      · cases hk
        decide
      · cases hk
  have harity : (checkAscription listKinds (.app (.con "List" none) [.con "List" none])).2 =
      .error (.arityMismatch "List" (.ofArity 1) (.chain [.ofArity 1, .var ⟨0⟩])) := by cbv
  have hkind : (checkAscription listKinds (.con "List" none)).2 =
      .error (.kindMismatch .atomic (.ofArity 1) "type annotation") := by cbv
  have hinfinite : (inferKinds listKinds selfApplied [0]).2 =
      .error (.infiniteKind ⟨1⟩ (.chain [.var ⟨1⟩, .var ⟨3⟩])) := by cbv
  obtain ⟨hgroups, hascriptions⟩ := reported_kinds_conflict listKinds hbase
  exact ⟨⟨harity, (hascriptions _ _ (by decide) harity).2⟩,
    ⟨hkind, (hascriptions _ _ (by decide) hkind).2⟩, hinfinite,
    (hgroups _ _ _ (by decide) hinfinite).1⟩

end LetPoly
