import LetPoly.Proofs.Ty.Rename
import LetPoly.Unification.Unifier
import Mathlib.Data.List.Forall2

/-!
# Maps of terms

A `TermMap` is a map of terms, with a map of their variables, that respects everything unification
asks of terms. The images of equations are solved like the equations themselves, by the images of
their bindings (`solve_map`). Neither the names of variables nor the origins of equations make a
difference to what is solved. `Store.Pairs` keeps the live terms of two unifiers side by side.
-/

namespace LetPoly

open Term

variable {T V O P : Type}

/-- A map of terms that respects what unification asks of them. -/
structure TermMap (T V : Type) [BEq T] [Term T V] where
  term : T → T
  var : V → V
  injective : Function.Injective var
  var? (t : T) : Term.var? (term t) = (Term.var? t).map var
  vars (t : T) : Term.vars (term t) = (Term.vars t).map var
  subst (v : V) (t s : T) : term (Term.subst v t s) = Term.subst (var v) (term t) (term s)
  decompose (a b : T) : Term.decompose (term a) (term b) =
    (Term.decompose a b).map (List.map (Prod.map term term))
  beq (a b : T) : (term a == term b) = (a == b)

/-- Map the terms of an equation, and its origin. -/
def Equation.map (f : T → T) (o : O → P) (e : Equation T O) : Equation T P :=
  ⟨f e.left, f e.right, o e.origin⟩

/-- Map the terms and the variables of an error. -/
def UnifyError.map (f : T → T) (g : V → V) : UnifyError T V → UnifyError T V
  | .mismatch left right => .mismatch (f left) (f right)
  | .occursCheck var term => .occursCheck (g var) (f term)

/-- Map what is left of an equation that could not be solved. -/
def Unsolved.map (f : T → T) (g : V → V) (o : O → P) (u : Unsolved T V O) : Unsolved T V P :=
  ⟨o u.origin, u.error.map f g⟩

/-- Map the bindings and the failure of a solution. -/
def Solution.map (f : T → T) (g : V → V) (o : O → P) (s : Solution T V O) : Solution T V P :=
  ⟨s.bindings.map (Prod.map g f), s.failure.map (Unsolved.map f g o)⟩

/-- Map what an equation asks for. -/
def Step.map (f : T → T) (g : V → V) : Step T V → Step T V
  | .drop => .drop
  | .bind v t => .bind (g v) (f t)
  | .split pairs => .split (pairs.map (Prod.map f f))

namespace TermMap

variable [BEq T] [Term T V]

/-- The map that changes nothing. -/
def refl : TermMap T V where
  term := id
  var := id
  injective := Function.injective_id
  var? t := by simp
  vars t := by simp
  subst _ _ _ := rfl
  decompose a b := by simp
  beq _ _ := rfl

variable [DecidableEq V] (φ : TermMap T V)

lemma occurs_map (v : V) (t : T) : occurs (φ.var v) (φ.term t) = occurs v t := by
  rw [occurs, occurs, φ.vars]
  simp only [List.mem_map_of_injective φ.injective]

lemma term_assign (v : V) (t s : T) :
    φ.term (assign v t s) = assign (φ.var v) (φ.term t) (φ.term s) := by
  rw [assign, assign, occurs_map]
  split
  · exact φ.subst v t s
  · rfl

lemma term_applyBindings (bindings : List (V × T)) (t : T) : φ.term (applyBindings bindings t) =
    applyBindings (bindings.map (Prod.map φ.var φ.term)) (φ.term t) := by
  rw [applyBindings, applyBindings]
  induction bindings generalizing t with
  | nil => rfl
  | cons b bindings ih =>
    rw [List.foldl_cons, ih, term_assign]
    rfl

lemma bind?_map (v : V) (t : T) : Step.bind? (φ.var v) (φ.term t) =
    ((Step.bind? v t).map (Step.map φ.term φ.var)).mapError (UnifyError.map φ.term φ.var) := by
  rw [Step.bind?, Step.bind?, occurs_map]
  split <;> rfl

lemma step_map (o : O → P) (e : Equation T O) : (e.map φ.term o).step =
    (e.step.map (Step.map φ.term φ.var)).mapError (UnifyError.map φ.term φ.var) := by
  rw [Equation.step, Equation.step, Equation.map, φ.beq]
  split
  · rfl
  · simp only [φ.var?, φ.decompose]
    cases Term.var? e.left with
    | some v => exact φ.bind?_map v e.right
    | none =>
      cases Term.var? e.right with
      | some v => exact φ.bind?_map v e.left
      | none => cases Term.decompose e.left e.right <;> rfl

lemma assignQueue_map (o : O → P) (v : V) (t : T) (queue : List (Equation T O)) :
    assignQueue (φ.var v) (φ.term t) (queue.map (Equation.map φ.term o)) =
      (assignQueue v t queue).map (Equation.map φ.term o) := by
  rw [assignQueue, assignQueue, List.map_map, List.map_map]
  refine List.map_congr_left fun e _ => ?_
  simp only [Function.comp_apply, Equation.map, Equation.assign, term_assign]

omit [DecidableEq V] in
lemma map_part (o : O → P) (e : Equation T O) (pairs : List (T × T)) :
    (pairs.map (Prod.map φ.term φ.term)).map (e.map φ.term o).part =
      (pairs.map e.part).map (Equation.map φ.term o) := by
  rw [List.map_map, List.map_map]
  rfl

/-- The images of equations are solved by the images of bindings. -/
lemma solve_map [LawfulTerm T V] (o : O → P) (queue : List (Equation T O)) :
    solve (queue.map (Equation.map φ.term o)) = (solve queue).map φ.term φ.var o := by
  fun_induction solve queue with
  | case1 => rw [List.map_nil, solve]; rfl
  | case2 e rest hstep ih => rw [List.map_cons, solve_cons, φ.step_map, hstep]; exact ih
  | case3 e rest v t hstep ih =>
    rw [List.map_cons, solve_cons, φ.step_map, hstep]
    show (solve (assignQueue (φ.var v) (φ.term t) _)).after _ _ = _
    rw [φ.assignQueue_map, ih]
    rfl
  | case4 e rest pairs hstep ih =>
    rw [List.map_cons, solve_cons, φ.step_map, hstep]
    show solve ((pairs.map _).map (e.map φ.term o).part ++ _) = _
    rw [φ.map_part, ← List.map_append, ih]
  | case5 e rest error hstep => rw [List.map_cons, solve_cons, φ.step_map, hstep]; rfl

end TermMap

/-- The origins of equations make no difference to the bindings that solve them. -/
lemma solve_congr_origins [BEq T] [Term T V] [DecidableEq V] [LawfulTerm T V]
    {queue : List (Equation T O)} {queue' : List (Equation T P)}
    (h : queue'.map (fun e => (e.left, e.right)) = queue.map fun e => (e.left, e.right)) :
    (solve queue').bindings = (solve queue).bindings ∧
      ((solve queue').failure = none ↔ (solve queue).failure = none) := by
  have hforget : queue'.map (Equation.map id fun _ => ()) = queue.map (Equation.map id fun _ => ()) := by
    have hmap := congrArg (List.map fun p : T × T => Equation.mk p.1 p.2 ()) h
    rwa [List.map_map, List.map_map] at hmap
  have hsolve := TermMap.refl.solve_map (fun _ : O => ()) queue
  have hsolve' := TermMap.refl.solve_map (fun _ : P => ()) queue'
  have heq := hsolve'.symm.trans ((congrArg solve hforget).trans hsolve)
  rw [Solution.map, Solution.map, Solution.mk.injEq] at heq
  obtain ⟨hbindings, hfailure⟩ := heq
  have hid : Prod.map (TermMap.refl (T := T)).var (TermMap.refl (T := T)).term = id := rfl
  rw [hid, List.map_id, List.map_id] at hbindings
  refine ⟨hbindings, ?_⟩
  rw [← Option.map_eq_none_iff (f := Unsolved.map _ _ _), hfailure, Option.map_eq_none_iff]

/-! ### Stores side by side -/

/-- Cells with the same stamps, and with terms as `R` says. -/
inductive Cell.Pairs (R : T → T → Prop) : Cell T → Cell T → Prop
  | live {t t' : T} (stamp : Nat) : R t t' → Pairs R (.live stamp t) (.live stamp t')
  | vacant (since : Nat) : Pairs R (.vacant since) (.vacant since)

/-- Stores that give out the same handles, and hold terms as `R` says. -/
structure Store.Pairs (R : T → T → Prop) (s s' : Store T) : Prop where
  clock : s'.clock = s.clock
  cells : List.Forall₂ (Cell.Pairs R) s.cells s'.cells

namespace Store

variable {R : T → T → Prop} {s s' : Store T}

lemma lastVacated_eq {cells cells' : List (Cell T)} (h : List.Forall₂ (Cell.Pairs R) cells cells')
    (place : Nat) : lastVacated cells' place = lastVacated cells place := by
  induction h generalizing place with
  | nil => rfl
  | cons hcell _ ih =>
    cases hcell with
    | live stamp _ => exact ih (place + 1)
    | vacant since => rw [lastVacated, lastVacated, ih]

lemma forall₂_set {α β : Type} {S : α → β → Prop} {l : List α} {l' : List β}
    (h : List.Forall₂ S l l') {a : α} {b : β} (hab : S a b) (i : Nat) :
    List.Forall₂ S (l.set i a) (l'.set i b) := by
  induction h generalizing i with
  | nil => exact .nil
  | cons hcell hrest ih =>
    cases i with
    | zero => exact .cons hab hrest
    | succ i => exact .cons hcell (ih i)

namespace Pairs

lemma empty : Pairs R (.empty : Store T) .empty := ⟨rfl, .nil⟩

/-- Terms that are taken in together get the same handle. -/
lemma insert (h : Pairs R s s') {t t' : T} (ht : R t t') :
    (s'.insert t').2 = (s.insert t).2 ∧ Pairs R (s.insert t).1 (s'.insert t').1 := by
  have hcell : Cell.Pairs R (.live s.clock t) (.live s.clock t') := .live _ ht
  rw [Store.insert, Store.insert, lastVacated_eq h.cells, h.clock]
  cases lastVacated s.cells 0 with
  | some last => exact ⟨rfl, rfl, forall₂_set h.cells hcell _⟩
  | none =>
    refine ⟨?_, rfl, List.rel_append h.cells (.cons hcell .nil)⟩
    rw [h.cells.length_eq]

lemma get? (h : Pairs R s s') (k : Handle) : Option.Rel R (s.get? k) (s'.get? k) := by
  obtain ⟨place, stamp⟩ := k
  rw [Store.get?, Store.get?]
  dsimp only
  have hcells := h.cells
  generalize s.cells = cells at hcells
  generalize s'.cells = cells' at hcells
  induction hcells generalizing place with
  | nil => exact .none
  | cons hcell _ ih =>
    cases place with
    | zero =>
      cases hcell with
      | live old ht =>
        show Option.Rel R (if old = stamp then some _ else none) (if old = stamp then some _ else none)
        split
        · exact .some ht
        · exact .none
      | vacant since => exact .none
    | succ place => exact ih place

lemma get?_none (h : Pairs R s s') {k : Handle} (hk : s.get? k = none) : s'.get? k = none := by
  have hrel := h.get? k
  rw [hk] at hrel
  cases hk' : s'.get? k with
  | none => rfl
  | some t' => rw [hk'] at hrel; cases hrel

lemma get?_some (h : Pairs R s s') {k : Handle} {t : T} (hk : s.get? k = some t) :
    ∃ t', s'.get? k = some t' ∧ R t t' := by
  have hrel := h.get? k
  rw [hk] at hrel
  cases hk' : s'.get? k with
  | none => rw [hk'] at hrel; cases hrel
  | some t' =>
    rw [hk'] at hrel
    cases hrel with
    | some ht => exact ⟨t', rfl, ht⟩

lemma replace (h : Pairs R s s') (k : Handle) {t t' : T} (ht : R t t') :
    Pairs R (s.replace k t) (s'.replace k t') := by
  rw [Store.replace, Store.replace]
  cases hk : s.get? k with
  | none =>
    rw [h.get?_none hk]
    exact h
  | some old =>
    obtain ⟨old', hk', _⟩ := h.get?_some hk
    rw [hk']
    exact ⟨h.clock, forall₂_set h.cells (.live _ ht) _⟩

lemma release (h : Pairs R s s') (k : Handle) : Pairs R (s.release k).1 (s'.release k).1 := by
  rw [Store.release, Store.release]
  cases hk : s.get? k with
  | none =>
    rw [h.get?_none hk]
    exact h
  | some old =>
    obtain ⟨old', hk', _⟩ := h.get?_some hk
    rw [hk', h.clock]
    exact ⟨rfl, forall₂_set h.cells (.vacant _) _⟩

lemma map (h : Pairs R s s') {f f' : T → T} (hf : ∀ t t', R t t' → R (f t) (f' t')) :
    Pairs R (s.map f) (s'.map f') := by
  refine ⟨h.clock, List.forall₂_map_left_iff.2 (List.forall₂_map_right_iff.2 (h.cells.imp ?_))⟩
  rintro _ _ (⟨stamp, ht⟩ | ⟨since⟩)
  · exact .live stamp (hf _ _ ht)
  · exact .vacant since

end Pairs

end Store

/-! ### Renamings -/

/-- An injective renaming of the variables of types. -/
def Ty.renaming {f : String → String} (hf : Function.Injective f) : TermMap Ty String where
  term := rename f
  var := f
  injective := hf
  var? t := by
    match t with
    | .var _ .solvable _ | .var _ .rigid _ | .con _ _ | .app _ _ | .scheme _ _ => rfl
  vars := unknowns_rename hf
  subst := rename_subst hf
  decompose := decompose_rename f
  beq := same_rename hf

end LetPoly
