import Mathlib.Tactic.Lemma

/-!
# Curried terms

A `Tree` is a term over constants `C` and variables `X` in which everything is applied to one
argument at a time. Function kinds and applied types are both read as trees: a chain of links as
nested arrows, and an application as its head applied to one argument after the other.

`Tree.bind` puts trees for all variables at once.
-/

namespace LetPoly

/-- Terms with one binary constructor. -/
inductive Tree (C X : Type) where
  | leaf (c : C)
  | var (x : X)
  | node (l r : Tree C X)

namespace Tree

variable {C X Y Z : Type}

/-- Put trees for the variables. -/
def bind (θ : X → Tree C Y) : Tree C X → Tree C Y
  | .leaf c => .leaf c
  | .var x => θ x
  | .node l r => .node (l.bind θ) (r.bind θ)

@[simp] lemma bind_leaf (θ : X → Tree C Y) (c : C) : (leaf c).bind θ = leaf c := rfl

@[simp] lemma bind_var (θ : X → Tree C Y) (x : X) : (var x).bind θ = θ x := rfl

@[simp] lemma bind_node (θ : X → Tree C Y) (l r : Tree C X) :
    (node l r).bind θ = node (l.bind θ) (r.bind θ) := rfl

@[simp] lemma bind_self (t : Tree C X) : t.bind var = t := by
  induction t with
  | leaf c => rfl
  | var x => rfl
  | node l r ihl ihr => rw [bind_node, ihl, ihr]

lemma bind_bind (t : Tree C X) (θ : X → Tree C Y) (η : Y → Tree C Z) :
    (t.bind θ).bind η = t.bind fun x => (θ x).bind η := by
  induction t with
  | leaf c => rfl
  | var x => rfl
  | node l r ihl ihr => rw [bind_node, bind_node, bind_node, ihl, ihr]

/-- The variables in order of occurrence, with repetitions. -/
def vars : Tree C X → List X
  | .leaf _ => []
  | .var x => [x]
  | .node l r => l.vars ++ r.vars

@[simp] lemma vars_leaf (c : C) : (leaf c : Tree C X).vars = [] := rfl

@[simp] lemma vars_var (x : X) : (var x : Tree C X).vars = [x] := rfl

@[simp] lemma vars_node (l r : Tree C X) : (node l r).vars = l.vars ++ r.vars := rfl

/-- Two substitutions have the same effect on a tree iff they agree on its variables. -/
lemma bind_eq_bind_iff {t : Tree C X} {θ η : X → Tree C Y} :
    t.bind θ = t.bind η ↔ ∀ x ∈ t.vars, θ x = η x := by
  induction t with
  | leaf c => simp
  | var x => simp
  | node l r ihl ihr =>
    rw [bind_node, bind_node, node.injEq, ihl, ihr, vars_node]
    constructor
    · rintro ⟨hl, hr⟩ x hx
      exact (List.mem_append.1 hx).elim (hl x) (hr x)
    · intro h
      exact ⟨fun x hx => h x (List.mem_append_left _ hx),
        fun x hx => h x (List.mem_append_right _ hx)⟩

lemma bind_congr {t : Tree C X} {θ η : X → Tree C Y} (h : ∀ x ∈ t.vars, θ x = η x) :
    t.bind θ = t.bind η :=
  bind_eq_bind_iff.2 h

lemma bind_eq_self {t : Tree C X} {θ : X → Tree C X} (h : ∀ x ∈ t.vars, θ x = var x) :
    t.bind θ = t := by
  rw [bind_congr h, bind_self]

lemma mem_vars_bind {t : Tree C X} {θ : X → Tree C Y} {y : Y} :
    y ∈ (t.bind θ).vars ↔ ∃ x ∈ t.vars, y ∈ (θ x).vars := by
  induction t with
  | leaf c => simp
  | var x => simp
  | node l r ihl ihr =>
    rw [bind_node, vars_node, vars_node, List.mem_append, ihl, ihr]
    constructor
    · rintro (⟨x, hx, hy⟩ | ⟨x, hx, hy⟩)
      · exact ⟨x, List.mem_append_left _ hx, hy⟩
      · exact ⟨x, List.mem_append_right _ hx, hy⟩
    · rintro ⟨x, hx, hy⟩
      exact (List.mem_append.1 hx).imp (fun hx => ⟨x, hx, hy⟩) fun hx => ⟨x, hx, hy⟩

/-- Rename the variables. -/
def map (f : X → Y) (t : Tree C X) : Tree C Y := t.bind fun x => var (f x)

@[simp] lemma map_leaf (f : X → Y) (c : C) : (leaf c).map f = leaf c := rfl

@[simp] lemma map_var (f : X → Y) (x : X) : (var x : Tree C X).map f = var (f x) := rfl

@[simp] lemma map_node (f : X → Y) (l r : Tree C X) :
    (node l r).map f = node (l.map f) (r.map f) := rfl

lemma bind_map (t : Tree C X) (f : X → Y) (θ : Y → Tree C Z) :
    (t.map f).bind θ = t.bind fun x => θ (f x) := by
  rw [map, bind_bind]
  rfl

lemma map_bind (t : Tree C X) (θ : X → Tree C Y) (f : Y → Z) :
    (t.bind θ).map f = t.bind fun x => (θ x).map f := by
  rw [map, bind_bind]
  rfl

lemma mem_vars_map {t : Tree C X} {f : X → Y} {y : Y} :
    y ∈ (t.map f).vars ↔ ∃ x ∈ t.vars, f x = y := by
  rw [map, mem_vars_bind]
  simp [eq_comm]

/-- Whether the tree is an application. -/
def isNode : Tree C X → Bool
  | .node _ _ => true
  | _ => false

/-- The number of leaves, variables and nodes. -/
def size : Tree C X → Nat
  | .leaf _ => 1
  | .var _ => 1
  | .node l r => l.size + r.size + 1

lemma size_le_size_bind {t : Tree C X} {x : X} (h : x ∈ t.vars) (θ : X → Tree C Y) :
    (θ x).size ≤ (t.bind θ).size := by
  induction t with
  | leaf c => simp at h
  | var y =>
    obtain rfl := List.mem_singleton.1 h
    exact Nat.le_refl _
  | node l r ihl ihr =>
    rw [bind_node, size]
    rcases List.mem_append.1 h with h | h
    · have := ihl h
      omega
    · have := ihr h
      omega

/-- No substitution makes a variable equal to a larger tree that contains it. -/
lemma bind_ne_of_mem_vars {t : Tree C X} {x : X} (h : x ∈ t.vars) (hne : t ≠ var x)
    (θ : X → Tree C Y) : θ x ≠ t.bind θ := by
  intro heq
  cases t with
  | leaf c => simp at h
  | var y =>
    rw [vars_var, List.mem_singleton] at h
    exact hne (h ▸ rfl)
  | node l r =>
    have hsize : (θ x).size = (l.bind θ).size + (r.bind θ).size + 1 := by
      rw [heq, bind_node, size]
    rcases List.mem_append.1 h with h | h
    · have := size_le_size_bind h θ
      omega
    · have := size_le_size_bind h θ
      omega

section Single

variable [DecidableEq X]

/-- Put one tree for one variable. -/
def single (x : X) (t : Tree C X) (y : X) : Tree C X := if y = x then t else var y

@[simp] lemma single_self (x : X) (t : Tree C X) : single x t x = t := if_pos rfl

lemma single_of_ne {x y : X} (h : y ≠ x) (t : Tree C X) : single x t y = var y := if_neg h

lemma bind_single_of_not_mem {x : X} {s : Tree C X} (h : x ∉ s.vars) (t : Tree C X) :
    s.bind (single x t) = s :=
  bind_eq_self fun _ hy => single_of_ne (ne_of_mem_of_not_mem hy h) t

/-- A substitution that makes a variable equal to a tree is not changed by putting the tree for
the variable first. -/
lemma single_bind {x : X} {t : Tree C X} {θ : X → Tree C Y} (h : θ x = t.bind θ) (y : X) :
    (single x t y).bind θ = θ y := by
  by_cases hy : y = x
  · rw [hy, single_self, h]
  · rw [single_of_ne hy, bind_var]

lemma mem_vars_single {x y z : X} {t : Tree C X} (h : z ∈ (single x t y).vars) :
    z = y ∨ z ∈ t.vars := by
  by_cases hy : y = x
  · rw [hy, single_self] at h
    exact Or.inr h
  · rw [single_of_ne hy, vars_var, List.mem_singleton] at h
    exact Or.inl h

end Single

end Tree

end LetPoly
