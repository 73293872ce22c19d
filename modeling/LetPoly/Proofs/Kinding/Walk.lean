import LetPoly.Proofs.Alike
import LetPoly.Proofs.Kinding.Declarative

/-!
# What the walk over a type comes to

For each step of the walk that collects kind equations, the state that it leads to. `Leads` and
`Bounded` say what every walk keeps: names stay in scope with their kinds, equations are only
added, and all kinds are flat and made of variables that have been given out.
-/

namespace LetPoly

open Kind

namespace Kinding

variable {ctx : KindContext} {s s' : Kinding}

/-! ### Single steps -/

/-- The kind under which a type constructor is known. -/
def found? (base : Scope Kind) (s : Kinding) (name : String) : Option Kind :=
  (s.scope.lookup name).or (base.lookup name)

/-- Once a name is in scope under a new kind variable. -/
def introduced (s : Kinding) (name : String) : Kinding :=
  { s with next := s.next + 1, scope := s.scope.insert name (.var ⟨s.next⟩) }

/-- Once the names of a list are in scope, each under a new kind variable. -/
def brought (s : Kinding) (names : List String) : Kinding := names.foldl introduced s

/-- Once a scope inside the current one is entered. -/
def entered (s : Kinding) : Kinding := { s with scope := s.scope.child }

/-- Once a scope is left for the one that was in force in `outer`. -/
def restored (s outer : Kinding) : Kinding := { s with scope := outer.scope }

/-- Once a new kind variable is given out. -/
def bumped (s : Kinding) : Kinding := { s with next := s.next + 1 }

/-- Once two kinds are asked to be equal. -/
def equated (s : Kinding) (ctx : KindContext) (left right : Kind) (origin : KindOrigin) : Kinding :=
  { s with equations := s.equations ++ [⟨left, right, ⟨ctx.site, origin⟩⟩] }

/-- Once a node is taken note of. -/
def noted (s : Kinding) (ctx : KindContext) (place : Place) (name : String) (slot : KindSlot)
    (kind : Kind) : Kinding :=
  match slot with
  | some assigned => s.equated ctx kind assigned (.assigned name)
  | none => { s with leaves := s.leaves ++ [⟨place, name, kind⟩] }

lemma note_run (place : Place) (name : String) (slot : KindSlot) (kind : Kind) :
    note ctx place name slot kind s = .ok () (s.noted ctx place name slot kind) := by
  cases slot <;> rfl

lemma bringAll_run (names : List String) (s : Kinding) :
    bringAll names s = .ok () (s.brought names) := by
  induction names generalizing s with
  | nil => rfl
  | cons name names ih => exact ih (s.introduced name)

lemma constructorKind_eq_ok {name : String} {k : Kind} :
    constructorKind ctx name s = .ok k s' ↔ s.found? ctx.base name = some k ∧ s = s' := by
  rw [constructorKind, bind_get, found?]
  cases s.scope.lookup name with
  | some kind => simpa using pure_eq_ok
  | none =>
    cases ctx.base.lookup name with
    | some kind => simpa using pure_eq_ok
    | none => exact ⟨fun h => (by cases h), fun h => (by cases h.1)⟩

/-- A variable has the kind that it has in scope, or a new one under which it is then in scope. -/
lemma variableKind_eq_ok {name : String} {k : Kind} :
    variableKind ctx name s = .ok k s' ↔ (s.scope.lookup name = some k ∧ s = s') ∨
      (s.scope.lookup name = none ∧ ctx.unscoped = .introduce ∧ .var ⟨s.next⟩ = k ∧
        s.introduced name = s') := by
  rw [variableKind, bind_get]
  cases s.scope.lookup name with
  | some kind => simpa using pure_eq_ok
  | none =>
    cases ctx.unscoped with
    | refuse => exact ⟨fun h => (by cases h), by simp⟩
    | introduce =>
      show EStateM.Result.ok (Kind.var ⟨s.next⟩) (s.introduced name) = _ ↔ _
      simp

lemma inChild_eq_ok {α : Type} {x : KindM α} {a : α} :
    inChild x s = .ok a s' ↔
      ∃ s₁, x s.entered = .ok a s₁ ∧ s₁.restored s = s' := by
  rw [inChild, ← entered]
  cases x s.entered with
  | ok b s₁ =>
    constructor
    · rintro h
      cases h
      exact ⟨s₁, rfl, rfl⟩
    · rintro ⟨_, h, rfl⟩
      cases h
      rfl
  | error e s₁ => simp

/-- Actions that are alike in scopes inside the current ones are alike in these. -/
lemma alike_inChild {α : Type} {E : Sited KindError → Kinding → Sited KindError → Kinding → Prop}
    {Q Q' : α → Kinding → α → Kinding → Prop} {x x' : KindM α}
    (hx : Alike E Q (x s.entered) (x' s'.entered))
    (hE : ∀ e t e' t', E e t e' t' → E e (t.restored s) e' (t'.restored s'))
    (hQ : ∀ a t a' t', Q a t a' t' → Q' a (t.restored s) a' (t'.restored s')) :
    Alike E Q' (inChild x s) (inChild x' s') := by
  rw [inChild, inChild, ← entered, ← entered]
  obtain ⟨a, t, a', t', hrun, hrun', h⟩ | ⟨e, t, e', t', hrun, hrun', h⟩ := hx.cases_run
  · rw [hrun, hrun']
    exact hQ a t a' t' h
  · rw [hrun, hrun']
    exact hE e t e' t' h

end Kinding

/-! ### Types -/

namespace Ty

open Kinding

variable {ctx : KindContext} {place : Place} {i : Nat} {s s' : Kinding} {k : Kind}

lemma kindConstraints_con_eq_ok {name : String} {slot : KindSlot} :
    (Ty.con name slot).kindConstraints ctx place s = .ok k s' ↔
      s.found? ctx.base name = some k ∧ s.noted ctx place name slot k = s' := by
  simp only [kindConstraints, bind_eq_ok, constructorKind_eq_ok, note_run,
    EStateM.Result.ok.injEq, pure_eq_ok]
  constructor
  · rintro ⟨_, _, ⟨hk, rfl⟩, _, _, ⟨-, rfl⟩, rfl, rfl⟩
    exact ⟨hk, rfl⟩
  · rintro ⟨hk, rfl⟩
    exact ⟨k, s, ⟨hk, rfl⟩, (), _, ⟨trivial, rfl⟩, rfl, rfl⟩

lemma kindConstraints_var_eq_ok {name : String} {sort : VarSort} {slot : KindSlot} :
    (Ty.var name sort slot).kindConstraints ctx place s = .ok k s' ↔
      ∃ s₁, variableKind ctx name s = .ok k s₁ ∧ s₁.noted ctx place name slot k = s' := by
  simp only [kindConstraints, bind_eq_ok, note_run, EStateM.Result.ok.injEq, pure_eq_ok]
  constructor
  · rintro ⟨_, s₁, hk, _, _, ⟨-, rfl⟩, rfl, rfl⟩
    exact ⟨s₁, hk, rfl⟩
  · rintro ⟨s₁, hk, rfl⟩
    exact ⟨k, s₁, hk, (), _, ⟨trivial, rfl⟩, rfl, rfl⟩

/-- The sides of a function type are types that have to have kind `*`. -/
lemma operandConstraints_eq (ctx : KindContext) (place : Place) (i : Nat) (args : List Ty) :
    operandConstraints ctx place i args = demandAtomic ctx .arrow place i args := by
  induction args generalizing i with
  | nil => rw [operandConstraints, demandAtomic]
  | cons a args ih => rw [operandConstraints, demandAtomic, ih]

lemma kindConstraints_arrow_eq_ok {head : Ty} {args : List Ty}
    (h : head.isArrowConstructor ∧ args.length = 2) :
    (Ty.app head args).kindConstraints ctx place s = .ok k s' ↔
      ∃ headKind s₁, head.kindConstraints ctx (place ++ [0]) s = .ok headKind s₁ ∧
        demandAtomic ctx .arrow place 1 args s₁ = .ok () s' ∧ .atomic = k := by
  simp only [kindConstraints, h.1, h.2, beq_self_eq_true, Bool.and_self, if_true, bind_eq_ok,
    pure_eq_ok, operandConstraints_eq]
  constructor
  · rintro ⟨headKind, s₁, hhead, _, _, hargs, rfl, rfl⟩
    exact ⟨headKind, s₁, hhead, hargs, rfl⟩
  · rintro ⟨headKind, s₁, hhead, hargs, rfl⟩
    exact ⟨headKind, s₁, hhead, (), s', hargs, rfl, rfl⟩

/-- The state at the end of an application that is no function type. -/
def applied (ctx : KindContext) (head : Ty) (headKind : Kind) (argKinds : List Kind) (s : Kinding) :
    Kinding :=
  let applied := Kind.function (argKinds ++ [.var ⟨s.next⟩])
  s.bumped.equated ctx headKind applied
    (.application head.render headKind applied)

lemma kindConstraints_app_eq_ok {head : Ty} {args : List Ty}
    (h : ¬ (head.isArrowConstructor ∧ args.length = 2)) :
    (Ty.app head args).kindConstraints ctx place s = .ok k s' ↔
      ∃ headKind s₁ argKinds s₂, head.kindConstraints ctx (place ++ [0]) s = .ok headKind s₁ ∧
        kindConstraintsList ctx place 1 args s₁ = .ok argKinds s₂ ∧ .var ⟨s₂.next⟩ = k ∧
        applied ctx head headKind argKinds s₂ = s' := by
  have hif : (head.isArrowConstructor && args.length == 2) = false := by
    rw [Bool.eq_false_iff, Ne, Bool.and_eq_true, beq_iff_eq]
    exact h
  simp only [kindConstraints, hif, Bool.false_eq_true, if_false, bind_eq_ok, pure_eq_ok]
  constructor
  · rintro ⟨headKind, s₁, hhead, argKinds, s₂, hargs, _, _, hfresh, _, _, heq, rfl, rfl⟩
    cases hfresh
    cases heq
    exact ⟨headKind, s₁, argKinds, s₂, hhead, hargs, rfl, rfl⟩
  · rintro ⟨headKind, s₁, argKinds, s₂, hhead, hargs, rfl, rfl⟩
    exact ⟨headKind, s₁, hhead, argKinds, s₂, hargs, _, _, rfl, (), _, rfl, rfl, rfl⟩

lemma kindConstraints_scheme_eq_ok {vars : NameSet} {body : Ty} :
    (Ty.scheme vars body).kindConstraints ctx place s = .ok k s' ↔
      ∃ bodyKind s₁,
        body.kindConstraints ctx (place ++ [0]) (s.entered.brought vars.names) = .ok bodyKind s₁ ∧
        .atomic = k ∧ (s₁.equated ctx bodyKind .atomic .scheme).restored s = s' := by
  simp only [kindConstraints, inChild_eq_ok, bind_eq_ok, bringAll_run, EStateM.Result.ok.injEq,
    pure_eq_ok]
  constructor
  · rintro ⟨_, ⟨_, _, ⟨-, rfl⟩, bodyKind, s₁, hbody, _, _, heq, rfl, rfl⟩, rfl⟩
    cases heq
    exact ⟨bodyKind, s₁, hbody, rfl, rfl⟩
  · rintro ⟨bodyKind, s₁, hbody, rfl, rfl⟩
    exact ⟨_, ⟨(), _, ⟨trivial, rfl⟩, bodyKind, s₁, hbody, (), _, rfl, rfl, rfl⟩, rfl⟩

lemma kindConstraintsList_nil_eq_ok {kinds : List Kind} :
    kindConstraintsList ctx place i [] s = .ok kinds s' ↔ [] = kinds ∧ s = s' := by
  rw [kindConstraintsList, pure_eq_ok]

lemma kindConstraintsList_cons_eq_ok {a : Ty} {args : List Ty} {kinds : List Kind} :
    kindConstraintsList ctx place i (a :: args) s = .ok kinds s' ↔
      ∃ kind s₁ rest, a.kindConstraints ctx (place ++ [i]) s = .ok kind s₁ ∧
        kindConstraintsList ctx place (i + 1) args s₁ = .ok rest s' ∧ kind :: rest = kinds := by
  simp only [kindConstraintsList, bind_eq_ok, pure_eq_ok]
  constructor
  · rintro ⟨kind, s₁, ha, rest, _, hargs, rfl, rfl⟩
    exact ⟨kind, s₁, rest, ha, hargs, rfl⟩
  · rintro ⟨kind, s₁, rest, ha, hargs, rfl⟩
    exact ⟨kind, s₁, ha, rest, s', hargs, rfl, rfl⟩

lemma demandAtomic_nil_eq_ok {origin : KindOrigin} {u : Unit} :
    demandAtomic ctx origin place i [] s = .ok u s' ↔ s = s' := by
  simp [demandAtomic, pure_eq_ok]

lemma demandAtomic_cons_eq_ok {origin : KindOrigin} {a : Ty} {args : List Ty} {u : Unit} :
    demandAtomic ctx origin place i (a :: args) s = .ok u s' ↔
      ∃ kind s₁, a.kindConstraints ctx (place ++ [i]) s = .ok kind s₁ ∧
        demandAtomic ctx origin place (i + 1) args (s₁.equated ctx kind .atomic origin) =
          .ok u s' := by
  simp only [demandAtomic, bind_eq_ok]
  constructor
  · rintro ⟨kind, s₁, ha, _, _, heq, hargs⟩
    cases heq
    exact ⟨kind, s₁, ha, hargs⟩
  · rintro ⟨kind, s₁, ha, hargs⟩
    exact ⟨kind, s₁, ha, (), _, rfl, hargs⟩

end Ty

/-! ### What every walk keeps -/

namespace Kinding

variable {V : String → Prop} {s s' s'' : Kinding}

/-- Names in scope stay in scope with their kinds, only variables come in, and equations are only
added. `V` holds of the names of variables. -/
structure Leads (V : String → Prop) (s s' : Kinding) : Prop where
  next_le : s.next ≤ s'.next
  lookup {x : String} {k : Kind} : s.scope.lookup x = some k → s'.scope.lookup x = some k
  new {x : String} : s.scope.lookup x = none → ¬ V x → s'.scope.lookup x = none
  equations : s.equations ⊆ s'.equations

/-- All kinds in use are flat, and their variables have been given out. The kinds of the constructors
declared before have none. -/
structure Bounded (base : Scope Kind) (s : Kinding) : Prop where
  base {x : String} {k : Kind} : base.lookup x = some k → k.IsGround
  scope {x : String} {k : Kind} : s.scope.lookup x = some k → k.Below s.next
  equations : ∀ e ∈ s.equations, e.left.Below s.next ∧ e.right.Below s.next
  leaves : ∀ leaf ∈ s.leaves, leaf.kind.Below s.next

namespace Leads

lemma refl (s : Kinding) : Leads V s s := ⟨Nat.le_refl _, id, fun h _ => h, List.Subset.refl _⟩

lemma trans (h : Leads V s s') (h' : Leads V s' s'') : Leads V s s'' where
  next_le := Nat.le_trans h.next_le h'.next_le
  lookup hk := h'.lookup (h.lookup hk)
  new hk hV := h'.new (h.new hk hV) hV
  equations := List.Subset.trans h.equations h'.equations

lemma equated (h : Leads V s s') (ctx : KindContext) (left right : Kind) (origin : KindOrigin) :
    Leads V s (s'.equated ctx left right origin) :=
  { h with equations := List.Subset.trans h.equations (List.subset_append_left _ _) }

lemma noted (h : Leads V s s') (ctx : KindContext) (place : Place) (name : String) (slot : KindSlot)
    (kind : Kind) : Leads V s (s'.noted ctx place name slot kind) := by
  cases slot with
  | none => exact { h with }
  | some assigned => exact h.equated ctx _ _ _

/-- A scope that was entered is left again. -/
lemma restored (h : s.next ≤ s'.next) (heq : s.equations ⊆ s'.equations) :
    Leads V s (s'.restored s) :=
  ⟨h, id, fun hk _ => hk, heq⟩

lemma bumped (s : Kinding) : Leads V s s.bumped :=
  ⟨Nat.le_succ _, id, fun h _ => h, List.Subset.refl _⟩

end Leads

lemma lookup_introduced (s : Kinding) (name x : String) :
    (s.introduced name).scope.lookup x =
      if name = x then some (.var ⟨s.next⟩) else s.scope.lookup x :=
  Scope.lookup_insert ..

lemma brought_cons (s : Kinding) (name : String) (names : List String) :
    s.brought (name :: names) = (s.introduced name).brought names := rfl

lemma next_le_brought (s : Kinding) (names : List String) : s.next ≤ (s.brought names).next := by
  induction names generalizing s with
  | nil => exact Nat.le_refl _
  | cons name names ih => exact Nat.le_trans (Nat.le_succ _) (ih (s.introduced name))

lemma equations_brought (s : Kinding) (names : List String) :
    (s.brought names).equations = s.equations := by
  induction names generalizing s with
  | nil => rfl
  | cons name names ih => exact ih (s.introduced name)

lemma leaves_brought (s : Kinding) (names : List String) :
    (s.brought names).leaves = s.leaves := by
  induction names generalizing s with
  | nil => rfl
  | cons name names ih => exact ih (s.introduced name)

lemma lookup_brought_of_not_mem {names : List String} {x : String} (h : x ∉ names) :
    (s.brought names).scope.lookup x = s.scope.lookup x := by
  induction names generalizing s with
  | nil => rfl
  | cons name names ih =>
    rw [List.mem_cons, not_or] at h
    rw [brought_cons, ih h.2, lookup_introduced, if_neg (Ne.symm h.1)]

lemma lookup_brought_of_mem {names : List String} {x : String} (h : x ∈ names) :
    ∃ v, (s.brought names).scope.lookup x = some (.var v) := by
  induction names generalizing s with
  | nil => cases h
  | cons name names ih =>
    by_cases hx : x ∈ names
    · exact ih hx
    · obtain rfl : x = name := (List.mem_cons.1 h).resolve_right hx
      exact ⟨_, by rw [brought_cons, lookup_brought_of_not_mem hx, lookup_introduced, if_pos rfl]⟩

namespace Bounded

variable {base : Scope Kind}

lemma entered (h : s.Bounded base) : s.entered.Bounded base := { h with }

lemma introduced (h : s.Bounded base) (name : String) : (s.introduced name).Bounded base where
  base := h.base
  scope {x k} hk := by
    rw [lookup_introduced] at hk
    split at hk
    · cases hk
      exact below_var (Nat.lt_succ_self _)
    · exact (h.scope hk).mono (Nat.le_succ _)
  equations e he :=
    ⟨(h.equations e he).1.mono (Nat.le_succ _), (h.equations e he).2.mono (Nat.le_succ _)⟩
  leaves leaf hleaf := (h.leaves leaf hleaf).mono (Nat.le_succ _)

lemma brought (h : s.Bounded base) (names : List String) : (s.brought names).Bounded base := by
  induction names generalizing s with
  | nil => exact h
  | cons name names ih => exact ih (h.introduced name)

lemma equated (h : s.Bounded base) (ctx : KindContext) {left right : Kind} (hl : left.Below s.next)
    (hr : right.Below s.next) (origin : KindOrigin) : (s.equated ctx left right origin).Bounded base where
  base := h.base
  scope := h.scope
  equations e he := by
    rcases List.mem_append.1 he with he | he
    · exact h.equations e he
    · cases List.mem_singleton.1 he
      exact ⟨hl, hr⟩
  leaves := h.leaves

lemma noted (h : s.Bounded base) (ctx : KindContext) (place : Place) (name : String)
    {slot : KindSlot} {kind : Kind} (hk : kind.Below s.next) (hslot : ∀ k ∈ slot, k.IsGround) :
    (s.noted ctx place name slot kind).Bounded base := by
  cases slot with
  | none =>
    refine { h with leaves := fun leaf hleaf => ?_ }
    rcases List.mem_append.1 hleaf with hleaf | hleaf
    · exact h.leaves leaf hleaf
    · cases List.mem_singleton.1 hleaf
      exact hk
  | some assigned => exact h.equated ctx hk ((hslot assigned rfl).below _) _

/-- A scope that was entered is left again. -/
lemma restored (h : s.Bounded base) (h' : s'.Bounded base) (hle : s.next ≤ s'.next) :
    (s'.restored s).Bounded base :=
  ⟨h.base, fun hk => (h.scope hk).mono hle, h'.equations, h'.leaves⟩

lemma bumped (h : s.Bounded base) : s.bumped.Bounded base where
  base := h.base
  scope hk := (h.scope hk).mono (Nat.le_succ _)
  equations e he :=
    ⟨(h.equations e he).1.mono (Nat.le_succ _), (h.equations e he).2.mono (Nat.le_succ _)⟩
  leaves leaf hleaf := (h.leaves leaf hleaf).mono (Nat.le_succ _)

lemma found? (h : s.Bounded base) {c : String} {k : Kind}
    (hk : s.found? base c = some k) : k.Below s.next := by
  rw [Kinding.found?, Option.or_eq_some_iff] at hk
  rcases hk with hk | ⟨-, hk⟩
  · exact h.scope hk
  · exact (h.base hk).below _

end Bounded

@[simp] lemma scope_equated (s : Kinding) (ctx : KindContext) (left right : Kind)
    (origin : KindOrigin) : (s.equated ctx left right origin).scope = s.scope := rfl

@[simp] lemma next_equated (s : Kinding) (ctx : KindContext) (left right : Kind)
    (origin : KindOrigin) : (s.equated ctx left right origin).next = s.next := rfl

@[simp] lemma scope_noted (s : Kinding) (ctx : KindContext) (place : Place) (name : String)
    (slot : KindSlot) (kind : Kind) : (s.noted ctx place name slot kind).scope = s.scope := by
  cases slot <;> rfl

@[simp] lemma next_noted (s : Kinding) (ctx : KindContext) (place : Place) (name : String)
    (slot : KindSlot) (kind : Kind) : (s.noted ctx place name slot kind).next = s.next := by
  cases slot <;> rfl

end Kinding

namespace Ty

open Kinding

variable {V : String → Prop} {ctx : KindContext}

/-- The names of variables satisfy `V`, and the kinds that have been recorded are ground. -/
structure Admits (V : String → Prop) (t : Ty) : Prop where
  var : ∀ x ∈ t.variableNames, V x
  slot : ∀ k ∈ t.recordedKinds, k.IsGround

/-- Each type of a list is admitted. -/
structure AdmitsList (V : String → Prop) (args : List Ty) : Prop where
  var : ∀ x ∈ variableNamesList args, V x
  slot : ∀ k ∈ recordedKindsList args, k.IsGround

lemma Admits.head {head : Ty} {args : List Ty} (h : (Ty.app head args).Admits V) : head.Admits V where
  var x hx := h.var x (List.mem_append_left _ hx)
  slot k hk := h.slot k (List.mem_append_left _ hk)

lemma Admits.args {head : Ty} {args : List Ty} (h : (Ty.app head args).Admits V) :
    AdmitsList V args where
  var x hx := h.var x (List.mem_append_right _ hx)
  slot k hk := h.slot k (List.mem_append_right _ hk)

lemma Admits.body {vars : NameSet} {body : Ty} (h : (Ty.scheme vars body).Admits V) :
    body.Admits V where
  var x hx := h.var x (List.mem_append_right _ hx)
  slot := h.slot

lemma AdmitsList.first {a : Ty} {args : List Ty} (h : AdmitsList V (a :: args)) : a.Admits V where
  var x hx := h.var x (List.mem_append_left _ hx)
  slot k hk := h.slot k (List.mem_append_left _ hk)

lemma AdmitsList.rest {a : Ty} {args : List Ty} (h : AdmitsList V (a :: args)) :
    AdmitsList V args where
  var x hx := h.var x (List.mem_append_right _ hx)
  slot k hk := h.slot k (List.mem_append_right _ hk)

/-- A type that is admitted, with names of constructors that do not satisfy `V`. -/
structure Fits (V : String → Prop) (t : Ty) : Prop extends t.Admits V where
  con : ∀ c ∈ t.constructorNames, ¬ V c

/-- Each type of a list fits. -/
structure FitsList (V : String → Prop) (args : List Ty) : Prop extends AdmitsList V args where
  con : ∀ c ∈ constructorNamesList args, ¬ V c

lemma Fits.head {head : Ty} {args : List Ty} (h : (Ty.app head args).Fits V) : head.Fits V :=
  ⟨h.toAdmits.head, fun c hc => h.con c (List.mem_append_left _ hc)⟩

lemma Fits.args {head : Ty} {args : List Ty} (h : (Ty.app head args).Fits V) : FitsList V args :=
  ⟨h.toAdmits.args, fun c hc => h.con c (List.mem_append_right _ hc)⟩

lemma Fits.body {vars : NameSet} {body : Ty} (h : (Ty.scheme vars body).Fits V) : body.Fits V :=
  ⟨h.toAdmits.body, h.con⟩

lemma FitsList.first {a : Ty} {args : List Ty} (h : FitsList V (a :: args)) : a.Fits V :=
  ⟨h.toAdmitsList.first, fun c hc => h.con c (List.mem_append_left _ hc)⟩

lemma FitsList.rest {a : Ty} {args : List Ty} (h : FitsList V (a :: args)) : FitsList V args :=
  ⟨h.toAdmitsList.rest, fun c hc => h.con c (List.mem_append_right _ hc)⟩

mutual
lemma kindConstraints_keeps : (t : Ty) → {place : Place} → t.Admits V → {s s' : Kinding} →
    {k : Kind} → s.Bounded ctx.base →
    t.kindConstraints ctx place s = .ok k s' → Leads V s s' ∧ s'.Bounded ctx.base ∧ k.Below s'.next
  | .con name slot, _, ht, s, s', k, hs, hrun => by
    obtain ⟨hk, rfl⟩ := kindConstraints_con_eq_ok.1 hrun
    have hbelow := hs.found? hk
    refine ⟨(Leads.refl s).noted .., hs.noted ctx _ name hbelow fun k hk => ?_, by simpa using hbelow⟩
    exact ht.slot k (Option.mem_toList.2 hk)
  | .var name sort slot, _, ht, s, s', k, hs, hrun => by
    obtain ⟨s₁, hk, rfl⟩ := kindConstraints_var_eq_ok.1 hrun
    have hslot : ∀ k ∈ slot, k.IsGround := fun k hk => ht.slot k (Option.mem_toList.2 hk)
    rcases variableKind_eq_ok.1 hk with ⟨hk', rfl⟩ | ⟨hnone, -, rfl, rfl⟩
    · exact ⟨(Leads.refl s).noted .., hs.noted ctx _ name (hs.scope hk') hslot,
        by simpa using hs.scope hk'⟩
    · have hbelow : (Kind.var ⟨s.next⟩).Below (s.introduced name).next :=
        below_var (Nat.lt_succ_self _)
      refine ⟨Leads.noted ?_ .., (hs.introduced name).noted ctx _ name hbelow hslot,
        by simpa using hbelow⟩
      refine ⟨Nat.le_succ _, fun {x k} hk => ?_, fun {x} hk hV => ?_, List.Subset.refl _⟩
      · rw [lookup_introduced, if_neg, hk]
        rintro rfl
        rw [hnone] at hk
        cases hk
      · rw [lookup_introduced, if_neg, hk]
        rintro rfl
        exact hV (ht.var _ (by simp [variableNames]))
  | .app head args, _, ht, s, s', k, hs, hrun => by
    by_cases harrow : head.isArrowConstructor ∧ args.length = 2
    · obtain ⟨headKind, s₁, hhead, hargs, rfl⟩ := (kindConstraints_arrow_eq_ok harrow).1 hrun
      obtain ⟨hl₁, hs₁, -⟩ := kindConstraints_keeps head ht.head hs hhead
      obtain ⟨hl, hs'⟩ := demandAtomic_keeps args ht.args hs₁ hargs
      exact ⟨hl₁.trans hl, hs', isGround_atomic.below _⟩
    · obtain ⟨headKind, s₁, kinds, s₂, hhead, hargs, rfl, rfl⟩ :=
        (kindConstraints_app_eq_ok harrow).1 hrun
      obtain ⟨hl₁, hs₁, hk₁⟩ := kindConstraints_keeps head ht.head hs hhead
      obtain ⟨hl₂, hs₂, hks⟩ := kindConstraintsList_keeps args ht.args hs₁ hargs
      have hnew : (Kind.var ⟨s₂.next⟩).Below (s₂.next + 1) := below_var (Nat.lt_succ_self _)
      refine ⟨(hl₁.trans hl₂).trans ((Leads.bumped s₂).equated ..), hs₂.bumped.equated ctx ?_ ?_ _,
        hnew⟩
      · exact hk₁.mono (Nat.le_succ_of_le hl₂.next_le)
      · refine below_function (by simp) fun k hk => ?_
        rcases List.mem_append.1 hk with hk | hk
        · exact (hks k hk).mono (Nat.le_succ _)
        · exact List.mem_singleton.1 hk ▸ hnew
  | .scheme vars body, _, ht, s, s', k, hs, hrun => by
    obtain ⟨bodyKind, s₁, hbody, rfl, rfl⟩ := kindConstraints_scheme_eq_ok.1 hrun
    obtain ⟨hl, hs₁, hk⟩ :=
      kindConstraints_keeps body ht.body (hs.entered.brought vars.names) hbody
    have hle : s.next ≤ s₁.next := Nat.le_trans (next_le_brought s.entered vars.names) hl.next_le
    have hsub : s.equations ⊆ (s₁.equated ctx bodyKind .atomic .scheme).equations := by
      have hsub := hl.equations
      rw [equations_brought] at hsub
      exact List.Subset.trans hsub (List.subset_append_left _ _)
    exact ⟨.restored hle hsub, hs.restored (hs₁.equated ctx hk (isGround_atomic.below _) _) hle,
      isGround_atomic.below _⟩

lemma kindConstraintsList_keeps : (args : List Ty) → {place : Place} → {i : Nat} →
    AdmitsList V args → {s s' : Kinding} →
    {kinds : List Kind} → s.Bounded ctx.base →
    kindConstraintsList ctx place i args s = .ok kinds s' →
    Leads V s s' ∧ s'.Bounded ctx.base ∧ ∀ k ∈ kinds, k.Below s'.next
  | [], _, _, _, s, s', kinds, hs, hrun => by
    obtain ⟨rfl, rfl⟩ := kindConstraintsList_nil_eq_ok.1 hrun
    exact ⟨.refl s, hs, by simp⟩
  | a :: args, _, _, ht, s, s', kinds, hs, hrun => by
    obtain ⟨kind, s₁, rest, ha, hargs, rfl⟩ := kindConstraintsList_cons_eq_ok.1 hrun
    obtain ⟨hl₁, hs₁, hk⟩ := kindConstraints_keeps a ht.first hs ha
    obtain ⟨hl, hs', hks⟩ := kindConstraintsList_keeps args ht.rest hs₁ hargs
    exact ⟨hl₁.trans hl, hs', List.forall_mem_cons.2 ⟨hk.mono hl.next_le, hks⟩⟩

lemma demandAtomic_keeps : (args : List Ty) → {place : Place} → {i : Nat} → AdmitsList V args →
    {origin : KindOrigin} →
    {s s' : Kinding} → {u : Unit} → s.Bounded ctx.base →
    demandAtomic ctx origin place i args s = .ok u s' → Leads V s s' ∧ s'.Bounded ctx.base
  | [], _, _, _, _, s, s', _, hs, hrun => by
    obtain rfl := demandAtomic_nil_eq_ok.1 hrun
    exact ⟨.refl s, hs⟩
  | a :: args, _, _, ht, origin, s, s', _, hs, hrun => by
    obtain ⟨kind, s₁, ha, hargs⟩ := demandAtomic_cons_eq_ok.1 hrun
    obtain ⟨hl₁, hs₁, hk⟩ := kindConstraints_keeps a ht.first hs ha
    obtain ⟨hl, hs'⟩ := demandAtomic_keeps args ht.rest
      (hs₁.equated ctx hk (isGround_atomic.below _) _) hargs
    exact ⟨(hl₁.equated ..).trans hl, hs'⟩
end

/-! ### When the walk succeeds -/

section Scope

variable {s s' : Kinding}

mutual
/-- The walk brings in only what is not in scope, and nothing at all where that is refused. -/
lemma scope_kindConstraints : (t : Ty) → {place : Place} → {s s' : Kinding} → {k : Kind} →
    (ctx.unscoped = .refuse ∨ ∀ x ∈ t.occurrences, (s.scope.lookup x).isSome) →
    t.kindConstraints ctx place s = .ok k s' → s'.scope = s.scope
  | .con name slot, _, s, s', k, _, hrun => by
    obtain ⟨-, rfl⟩ := kindConstraints_con_eq_ok.1 hrun
    exact scope_noted ..
  | .var name sort slot, _, s, s', k, h, hrun => by
    obtain ⟨s₁, hk, rfl⟩ := kindConstraints_var_eq_ok.1 hrun
    rw [scope_noted]
    rcases variableKind_eq_ok.1 hk with ⟨-, rfl⟩ | ⟨hnone, hintro, -, -⟩
    · rfl
    · rcases h with h | h
      · rw [hintro] at h
        cases h
      · simp [occurrences, hnone] at h
  | .app head args, _, s, s', k, h, hrun => by
    have hhd : ctx.unscoped = .refuse ∨ ∀ x ∈ head.occurrences, (s.scope.lookup x).isSome :=
      h.imp_right fun h x hx => h x (List.mem_append_left _ hx)
    have htl : ctx.unscoped = .refuse ∨ ∀ x ∈ occurrencesList args, (s.scope.lookup x).isSome :=
      h.imp_right fun h x hx => h x (List.mem_append_right _ hx)
    by_cases harrow : head.isArrowConstructor ∧ args.length = 2
    · obtain ⟨headKind, s₁, hhead, hargs, rfl⟩ := (kindConstraints_arrow_eq_ok harrow).1 hrun
      have h₁ := scope_kindConstraints head hhd hhead
      rw [scope_demandAtomic args (by rwa [h₁]) hargs, h₁]
    · obtain ⟨headKind, s₁, kinds, s₂, hhead, hargs, rfl, rfl⟩ :=
        (kindConstraints_app_eq_ok harrow).1 hrun
      have h₁ := scope_kindConstraints head hhd hhead
      exact (scope_kindConstraintsList args (by rwa [h₁]) hargs).trans h₁
  | .scheme vars body, _, s, s', k, _, hrun => by
    obtain ⟨bodyKind, s₁, hbody, rfl, rfl⟩ := kindConstraints_scheme_eq_ok.1 hrun
    rfl

lemma scope_kindConstraintsList : (args : List Ty) → {place : Place} → {i : Nat} →
    {s s' : Kinding} → {kinds : List Kind} →
    (ctx.unscoped = .refuse ∨ ∀ x ∈ occurrencesList args, (s.scope.lookup x).isSome) →
    kindConstraintsList ctx place i args s = .ok kinds s' → s'.scope = s.scope
  | [], _, _, s, s', kinds, _, hrun => by
    obtain ⟨rfl, rfl⟩ := kindConstraintsList_nil_eq_ok.1 hrun
    rfl
  | a :: args, _, _, s, s', kinds, h, hrun => by
    obtain ⟨kind, s₁, rest, ha, hargs, rfl⟩ := kindConstraintsList_cons_eq_ok.1 hrun
    have h₁ := scope_kindConstraints a (h.imp_right fun h x hx => h x (List.mem_append_left _ hx)) ha
    rw [scope_kindConstraintsList args ?_ hargs, h₁]
    exact h.imp_right fun h x hx => h₁ ▸ h x (List.mem_append_right _ hx)

lemma scope_demandAtomic : (args : List Ty) → {place : Place} → {i : Nat} →
    {origin : KindOrigin} → {s s' : Kinding} → {u : Unit} →
    (ctx.unscoped = .refuse ∨ ∀ x ∈ occurrencesList args, (s.scope.lookup x).isSome) →
    demandAtomic ctx origin place i args s = .ok u s' → s'.scope = s.scope
  | [], _, _, _, s, s', _, _, hrun => by
    obtain rfl := demandAtomic_nil_eq_ok.1 hrun
    rfl
  | a :: args, _, _, origin, s, s', _, h, hrun => by
    obtain ⟨kind, s₁, ha, hargs⟩ := demandAtomic_cons_eq_ok.1 hrun
    have h₁ := scope_kindConstraints a (h.imp_right fun h x hx => h x (List.mem_append_left _ hx)) ha
    rw [scope_demandAtomic args ?_ hargs, scope_equated, h₁]
    exact h.imp_right fun h x hx => h₁ ▸ h x (List.mem_append_right _ hx)
end

end Scope

/-- All constructors of a list are known and all variables of another are in scope. -/
def Known (base : Scope Kind) (s : Kinding) (constructors vars : List String) : Prop :=
  (∀ c ∈ constructors, (s.found? base c).isSome) ∧ ∀ x ∈ vars, (s.scope.lookup x).isSome

lemma known_append {base : Scope Kind} {s : Kinding} {cs cs' xs xs' : List String} :
    Known base s (cs ++ cs') (xs ++ xs') ↔ Known base s cs xs ∧ Known base s cs' xs' := by
  simp only [Known, List.forall_mem_append]
  exact and_and_and_comm

lemma known_congr {base : Scope Kind} {s s' : Kinding} (h : s'.scope = s.scope)
    {cs xs : List String} : Known base s' cs xs ↔ Known base s cs xs := by
  simp only [Known, found?, h]

/-- Once names are brought in, they are known besides. -/
lemma known_brought {base : Scope Kind} {s : Kinding} {names cs xs : List String}
    (hdisjoint : ∀ c ∈ cs, c ∉ names) :
    Known base (s.entered.brought names) cs xs ↔ Known base s cs (xs.filter (· ∉ names)) := by
  refine and_congr (forall₂_congr fun c hc => ?_) ?_
  · rw [found?, lookup_brought_of_not_mem (hdisjoint c hc)]
    rfl
  · constructor
    · intro h x hx
      obtain ⟨hx, hnames⟩ := List.mem_filter.1 hx
      have := h x hx
      rwa [lookup_brought_of_not_mem (of_decide_eq_true hnames)] at this
    · intro h x hx
      by_cases hnames : x ∈ names
      · obtain ⟨v, hv⟩ := lookup_brought_of_mem (s := s.entered) hnames
        rw [hv]
        rfl
      · rw [lookup_brought_of_not_mem hnames]
        exact h x (List.mem_filter.2 ⟨hx, decide_eq_true hnames⟩)

mutual
lemma kindConstraints_isOk_iff (hrefuse : ctx.unscoped = .refuse) : (t : Ty) → (place : Place) →
    t.Fits V →
    {s : Kinding} → ((∃ k s', t.kindConstraints ctx place s = .ok k s') ↔
      Known ctx.base s t.constructorNames t.occurrences)
  | .con name slot, _, _, s => by
    simp [Known, constructorNames, occurrences, kindConstraints_con_eq_ok, Option.isSome_iff_exists]
  | .var name sort slot, _, _, s => by
    simp only [Known, constructorNames, occurrences, kindConstraints_var_eq_ok, variableKind_eq_ok,
      hrefuse, List.forall_mem_singleton, Option.isSome_iff_exists]
    constructor
    · rintro ⟨k, _, _, ⟨hk, -⟩ | ⟨-, h, -⟩, -⟩
      · exact ⟨nofun, k, hk⟩
      · cases h
    · rintro ⟨-, k, hk⟩
      exact ⟨k, _, s, .inl ⟨hk, rfl⟩, rfl⟩
  | .app head args, place, ht, s => by
    rw [constructorNames, occurrences, known_append,
      ← kindConstraints_isOk_iff hrefuse head (place ++ [0]) ht.head]
    by_cases harrow : head.isArrowConstructor ∧ args.length = 2
    · simp only [kindConstraints_arrow_eq_ok harrow]
      constructor
      · rintro ⟨_, s', headKind, s₁, hhead, hargs, -⟩
        have h₁ := scope_kindConstraints head (.inl hrefuse) hhead
        exact ⟨⟨headKind, s₁, hhead⟩,
          (known_congr h₁).1 ((demandAtomic_isOk_iff hrefuse args ht.args).1 ⟨s', hargs⟩)⟩
      · rintro ⟨⟨headKind, s₁, hhead⟩, hknown⟩
        have h₁ := scope_kindConstraints head (.inl hrefuse) hhead
        obtain ⟨s', hargs⟩ :=
          (demandAtomic_isOk_iff hrefuse args ht.args).2 ((known_congr h₁).2 hknown)
        exact ⟨_, s', headKind, s₁, hhead, hargs, rfl⟩
    · simp only [kindConstraints_app_eq_ok harrow]
      constructor
      · rintro ⟨_, _, headKind, s₁, kinds, s₂, hhead, hargs, -, -⟩
        have h₁ := scope_kindConstraints head (.inl hrefuse) hhead
        exact ⟨⟨headKind, s₁, hhead⟩, (known_congr h₁).1
          ((kindConstraintsList_isOk_iff hrefuse args ht.args).1 ⟨kinds, s₂, hargs⟩)⟩
      · rintro ⟨⟨headKind, s₁, hhead⟩, hknown⟩
        have h₁ := scope_kindConstraints head (.inl hrefuse) hhead
        obtain ⟨kinds, s₂, hargs⟩ :=
          (kindConstraintsList_isOk_iff hrefuse args ht.args).2 ((known_congr h₁).2 hknown)
        exact ⟨_, _, headKind, s₁, kinds, s₂, hhead, hargs, rfl, rfl⟩
  | .scheme vars body, place, ht, s => by
    have hdisjoint : ∀ c ∈ body.constructorNames, c ∉ vars.names := fun c hc hvars =>
      ht.con c hc (ht.var c (List.mem_append_left _ hvars))
    have hbody := kindConstraints_isOk_iff hrefuse body (place ++ [0]) ht.body
      (s := s.entered.brought vars.names)
    refine Iff.trans ?_ (hbody.trans (known_brought hdisjoint))
    simp only [kindConstraints_scheme_eq_ok]
    exact ⟨fun ⟨_, _, bodyKind, s₁, h, _⟩ => ⟨bodyKind, s₁, h⟩,
      fun ⟨bodyKind, s₁, h⟩ => ⟨_, _, bodyKind, s₁, h, rfl, rfl⟩⟩

lemma kindConstraintsList_isOk_iff (hrefuse : ctx.unscoped = .refuse) : (args : List Ty) →
    {place : Place} → {i : Nat} →
    FitsList V args → {s : Kinding} →
    ((∃ kinds s', kindConstraintsList ctx place i args s = .ok kinds s') ↔
      Known ctx.base s (constructorNamesList args) (occurrencesList args))
  | [], _, _, _, s => by
    simp [Known, constructorNamesList, occurrencesList, kindConstraintsList_nil_eq_ok]
  | a :: args, place, i, ht, s => by
    rw [constructorNamesList, occurrencesList, known_append,
      ← kindConstraints_isOk_iff hrefuse a (place ++ [i]) ht.first]
    simp only [kindConstraintsList_cons_eq_ok]
    constructor
    · rintro ⟨_, s', kind, s₁, rest, ha, hargs, -⟩
      have h₁ := scope_kindConstraints a (.inl hrefuse) ha
      exact ⟨⟨kind, s₁, ha⟩, (known_congr h₁).1
        ((kindConstraintsList_isOk_iff hrefuse args ht.rest).1 ⟨rest, s', hargs⟩)⟩
    · rintro ⟨⟨kind, s₁, ha⟩, hknown⟩
      have h₁ := scope_kindConstraints a (.inl hrefuse) ha
      obtain ⟨rest, s', hargs⟩ :=
        (kindConstraintsList_isOk_iff hrefuse args ht.rest).2 ((known_congr h₁).2 hknown)
      exact ⟨_, s', kind, s₁, rest, ha, hargs, rfl⟩

lemma demandAtomic_isOk_iff (hrefuse : ctx.unscoped = .refuse) : (args : List Ty) →
    {place : Place} → {i : Nat} →
    FitsList V args → {origin : KindOrigin} → {s : Kinding} →
    ((∃ s', demandAtomic ctx origin place i args s = .ok () s') ↔
      Known ctx.base s (constructorNamesList args) (occurrencesList args))
  | [], _, _, _, _, s => by
    simp [Known, constructorNamesList, occurrencesList, demandAtomic_nil_eq_ok]
  | a :: args, place, i, ht, origin, s => by
    rw [constructorNamesList, occurrencesList, known_append,
      ← kindConstraints_isOk_iff hrefuse a (place ++ [i]) ht.first]
    simp only [demandAtomic_cons_eq_ok]
    constructor
    · rintro ⟨s', kind, s₁, ha, hargs⟩
      have h₁ : (s₁.equated ctx kind .atomic origin).scope = s.scope :=
        (scope_equated ..).trans (scope_kindConstraints a (.inl hrefuse) ha)
      exact ⟨⟨kind, s₁, ha⟩, (known_congr h₁).1
        ((demandAtomic_isOk_iff hrefuse args ht.rest).1 ⟨s', hargs⟩)⟩
    · rintro ⟨⟨kind, s₁, ha⟩, hknown⟩
      have h₁ : (s₁.equated ctx kind .atomic origin).scope = s.scope :=
        (scope_equated ..).trans (scope_kindConstraints a (.inl hrefuse) ha)
      obtain ⟨s', hargs⟩ := (demandAtomic_isOk_iff hrefuse args ht.rest).2
        ((known_congr h₁).2 hknown)
      exact ⟨s', kind, s₁, ha, hargs⟩
end

end Ty

end LetPoly
