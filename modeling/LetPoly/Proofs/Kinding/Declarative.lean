import LetPoly.Kinding.Group
import LetPoly.Proofs.Kind.Substitution

/-!
# The kinding rules

`HasKind` states the rules by which a type has a kind, with no mention of equations or unknowns:
an assignment gives every type constructor and every type variable a kind, and the rules say what
follows for the types built from them. A group of datatypes is well kinded under an assignment
(`IsAssignment`) if every head and every field has kind `*`.

The rules are given for a class `P` of kinds that the variables of quantifiers range over: all flat
kinds, where kinds may be left open, or only the ground ones.
-/

namespace LetPoly

/-! ### Names in types -/

namespace Ty

mutual
/-- The names of the type constructors in a type. -/
def constructorNames : Ty → List String
  | .con name _ => [name]
  | .var _ _ _ => []
  | .app head args => head.constructorNames ++ constructorNamesList args
  | .scheme _ body => body.constructorNames

/-- The names of the type constructors in a list of types. -/
def constructorNamesList : List Ty → List String
  | [] => []
  | a :: args => a.constructorNames ++ constructorNamesList args
end

mutual
/-- The names of the variables in a type, those that are bound included. -/
def variableNames : Ty → List String
  | .con _ _ => []
  | .var name _ _ => [name]
  | .app head args => head.variableNames ++ variableNamesList args
  | .scheme vars body => vars.names ++ body.variableNames

/-- The names of the variables in a list of types. -/
def variableNamesList : List Ty → List String
  | [] => []
  | a :: args => a.variableNames ++ variableNamesList args
end

mutual
/-- The kinds that have been recorded in a type. -/
def recordedKinds : Ty → List Kind
  | .con _ slot => slot.toList
  | .var _ _ slot => slot.toList
  | .app head args => head.recordedKinds ++ recordedKindsList args
  | .scheme _ body => body.recordedKinds

/-- The kinds that have been recorded in a list of types. -/
def recordedKindsList : List Ty → List Kind
  | [] => []
  | a :: args => a.recordedKinds ++ recordedKindsList args
end

mutual
lemma occurrences_subset_variableNames : (t : Ty) → t.occurrences ⊆ t.variableNames
  | .con _ _ => List.nil_subset _
  | .var _ _ _ => List.Subset.refl _
  | .app head args => List.append_subset.2
    ⟨List.subset_append_of_subset_left _ (occurrences_subset_variableNames head),
      List.subset_append_of_subset_right _ (occurrencesList_subset_variableNamesList args)⟩
  | .scheme _ body => List.subset_append_of_subset_right _
    (List.Subset.trans List.filter_sublist.subset (occurrences_subset_variableNames body))

lemma occurrencesList_subset_variableNamesList : (args : List Ty) →
    occurrencesList args ⊆ variableNamesList args
  | [] => List.nil_subset _
  | a :: args => List.append_subset.2
    ⟨List.subset_append_of_subset_left _ (occurrences_subset_variableNames a),
      List.subset_append_of_subset_right _ (occurrencesList_subset_variableNamesList args)⟩
end

end Ty

/-! ### The rules -/

mutual
/-- A type has a kind, if constructors have the kinds that `κ` gives them and variables those that
`Δ` gives them. The variables that a quantifier binds have kinds that satisfy `P`. -/
inductive HasKind (P : Kind → Prop) (κ : String → Kind) : (String → Kind) → Ty → Kind → Prop
  | con {Δ : String → Kind} {name : String} {slot : KindSlot} :
    (∀ k ∈ slot, κ name = k) → HasKind P κ Δ (.con name slot) (κ name)
  | var {Δ : String → Kind} {name : String} {sort : VarSort} {slot : KindSlot} :
    (∀ k ∈ slot, Δ name = k) → HasKind P κ Δ (.var name sort slot) (Δ name)
  -- A function type asks nothing of the kind of its constructor but that it be the recorded one.
  | arrow {Δ : String → Kind} {head a b : Ty} {k : Kind} :
    head.isArrowConstructor → HasKind P κ Δ head k → HasKind P κ Δ a .atomic →
    HasKind P κ Δ b .atomic → HasKind P κ Δ (.app head [a, b]) .atomic
  | app {Δ : String → Kind} {head : Ty} {args : List Ty} {kinds : List Kind} {k : Kind} :
    ¬ (head.isArrowConstructor ∧ args.length = 2) →
    HasKind P κ Δ head (.function (kinds ++ [k])) → HasKinds P κ Δ args kinds → k.isFlat →
    HasKind P κ Δ (.app head args) k
  | scheme {Δ Δ' : String → Kind} {vars : NameSet} {body : Ty} :
    (∀ x, x ∉ vars → Δ' x = Δ x) → (∀ x ∈ vars, P (Δ' x)) → HasKind P κ Δ' body .atomic →
    HasKind P κ Δ (.scheme vars body) .atomic

/-- Each type of a list has the kind at its place in the other. -/
inductive HasKinds (P : Kind → Prop) (κ : String → Kind) :
    (String → Kind) → List Ty → List Kind → Prop
  | nil {Δ : String → Kind} : HasKinds P κ Δ [] []
  | cons {Δ : String → Kind} {a : Ty} {args : List Ty} {k : Kind} {kinds : List Kind} :
    HasKind P κ Δ a k → HasKinds P κ Δ args kinds → HasKinds P κ Δ (a :: args) (k :: kinds)
end

section Inversion

variable {P : Kind → Prop} {κ Δ : String → Kind}

lemma hasKind_con_iff {name : String} {slot : KindSlot} {k : Kind} :
    HasKind P κ Δ (.con name slot) k ↔ (∀ k ∈ slot, κ name = k) ∧ κ name = k := by
  constructor
  · intro h
    cases h with
    | con h => exact ⟨h, rfl⟩
  · rintro ⟨h, rfl⟩
    exact .con h

lemma hasKind_var_iff {name : String} {sort : VarSort} {slot : KindSlot} {k : Kind} :
    HasKind P κ Δ (.var name sort slot) k ↔ (∀ k ∈ slot, Δ name = k) ∧ Δ name = k := by
  constructor
  · intro h
    cases h with
    | var h => exact ⟨h, rfl⟩
  · rintro ⟨h, rfl⟩
    exact .var h

/-- A function type, whose operands come as the list of arguments. -/
lemma hasKind_arrow_iff {head : Ty} {args : List Ty} {k : Kind}
    (h : head.isArrowConstructor ∧ args.length = 2) :
    HasKind P κ Δ (.app head args) k ↔
      (∃ headKind, HasKind P κ Δ head headKind) ∧ (∀ a ∈ args, HasKind P κ Δ a .atomic) ∧
        Kind.atomic = k := by
  constructor
  · intro hk
    cases hk with
    | arrow _ hhead ha hb => exact ⟨⟨_, hhead⟩, by simp [ha, hb], rfl⟩
    | app hnot => exact absurd h hnot
  · rintro ⟨⟨_, hhead⟩, hargs, rfl⟩
    match args, h with
    | [a, b], h => exact .arrow h.1 hhead (hargs a (by simp)) (hargs b (by simp))

lemma hasKind_app_iff {head : Ty} {args : List Ty} {k : Kind}
    (h : ¬ (head.isArrowConstructor ∧ args.length = 2)) :
    HasKind P κ Δ (.app head args) k ↔
      (∃ kinds, HasKind P κ Δ head (.function (kinds ++ [k])) ∧ HasKinds P κ Δ args kinds) ∧
        k.isFlat := by
  constructor
  · intro hk
    cases hk with
    | arrow harrow => exact absurd ⟨harrow, rfl⟩ h
    | app _ hhead hargs hflat => exact ⟨⟨_, hhead, hargs⟩, hflat⟩
  · rintro ⟨⟨kinds, hhead, hargs⟩, hflat⟩
    exact .app h hhead hargs hflat

lemma hasKind_scheme_iff {vars : NameSet} {body : Ty} {k : Kind} :
    HasKind P κ Δ (.scheme vars body) k ↔
      (∃ Δ', (∀ x, x ∉ vars → Δ' x = Δ x) ∧ (∀ x ∈ vars, P (Δ' x)) ∧
        HasKind P κ Δ' body .atomic) ∧ Kind.atomic = k := by
  constructor
  · intro h
    cases h with
    | scheme hoff hon hbody => exact ⟨⟨_, hoff, hon, hbody⟩, rfl⟩
  · rintro ⟨⟨Δ', hoff, hon, hbody⟩, rfl⟩
    exact .scheme hoff hon hbody

lemma hasKinds_nil_iff {kinds : List Kind} : HasKinds P κ Δ [] kinds ↔ [] = kinds := by
  constructor
  · intro h
    cases h
    rfl
  · rintro rfl
    exact .nil

lemma hasKinds_cons_iff {a : Ty} {args : List Ty} {kinds : List Kind} :
    HasKinds P κ Δ (a :: args) kinds ↔
      ∃ k ks, k :: ks = kinds ∧ HasKind P κ Δ a k ∧ HasKinds P κ Δ args ks := by
  constructor
  · intro h
    cases h with
    | cons ha hargs => exact ⟨_, _, rfl, ha, hargs⟩
  · rintro ⟨k, ks, rfl, ha, hargs⟩
    exact .cons ha hargs

end Inversion

/-! ### Groups of datatypes -/

/-- The types that the datatypes of a group mention, all of which have to have kind `*`. -/
def groupTypes (group : List Datatype) : List Ty := group.flatMap Datatype.types

/-- The names of the type constructors that a group declares. -/
def declaredNames (group : List Datatype) : List String := group.filterMap Datatype.declaredName?

/-- What a group uses is there: each head is a constructor or the application of one, each
constructor is declared in the group or was declared before, and each variable is a parameter of its
datatype or bound where it stands. -/
structure IsScoped (base : Scope Kind) (group : List Datatype) : Prop where
  head : ∀ d ∈ group, ∃ name slot, d.head = .con name slot ∨ ∃ args, d.head = .app (.con name slot) args
  con : ∀ t ∈ groupTypes group, ∀ c ∈ t.constructorNames,
    c ∈ declaredNames group ∨ (base.lookup c).isSome
  var : ∀ d ∈ group, ∀ t ∈ d.types, ∀ x ∈ t.freeVars, x ∈ d.paramNames

/-- Under the kinds that `κ` gives the constructors, and `Δ` the parameters of each datatype, every
head and every field of the group has kind `*`. Constructors declared before keep their kinds. -/
structure IsAssignment (P : Kind → Prop) (base : Scope Kind) (group : List Datatype)
    (κ : String → Kind) (Δ : Nat → String → Kind) : Prop where
  con : ∀ name, P (κ name)
  var : ∀ i x, P (Δ i x)
  base : ∀ name ∉ declaredNames group, ∀ k, base.lookup name = some k → κ name = k
  atomic : ∀ i d, group[i]? = some d → ∀ t ∈ d.types, HasKind P κ (Δ i) t .atomic

end LetPoly
