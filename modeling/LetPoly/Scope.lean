import LetPoly.Table

/-!
# Lexical scopes

A `Scope` is a chain of tables, the innermost first. Names are looked up from the inside out
and entered in the innermost table, so that an inner entry hides an outer one of its name.
-/

namespace LetPoly

/-- A chain of tables: the innermost one and those that enclose it, from the inside out. -/
structure Scope (α : Type) where
  innermost : Table α
  enclosing : List (Table α)

namespace Scope

variable {α : Type}

/-- The outermost scope over one table. -/
def ofTable (t : Table α) : Scope α := ⟨t, []⟩

/-- The outermost scope without entries. -/
def empty : Scope α := ofTable .empty

/-- A new empty scope inside this one. -/
def child (s : Scope α) : Scope α := ⟨.empty, s.innermost :: s.enclosing⟩

/-- The scope around this one, if there is one. -/
def parent? (s : Scope α) : Option (Scope α) :=
  match s.enclosing with
  | [] => none
  | t :: ts => some ⟨t, ts⟩

/-- All tables of the chain, from the inside out. -/
def tables (s : Scope α) : List (Table α) := s.innermost :: s.enclosing

/-- The value under `name` in the innermost table that has one. -/
def lookup (s : Scope α) (name : String) : Option α :=
  s.tables.findSome? (·.find? name)

/-- Enter `value` under `name` in the innermost table. -/
def insert (s : Scope α) (name : String) (value : α) : Scope α :=
  { s with innermost := s.innermost.insert name value }

/-- Enter every entry of a table in the innermost table. -/
def insertAll (s : Scope α) (t : Table α) : Scope α :=
  t.entries.foldl (fun s entry => s.insert entry.1 entry.2) s

@[simp] theorem parent?_child (s : Scope α) : s.child.parent? = some s := rfl

theorem lookup_child (s : Scope α) (x : String) : s.child.lookup x = s.lookup x := rfl

theorem lookup_insert (s : Scope α) (name x : String) (value : α) :
    (s.insert name value).lookup x = if name = x then some value else s.lookup x := by
  simp only [lookup, tables, insert, List.findSome?_cons, Table.find?_insert]
  by_cases h : name = x <;> simp [h]

end Scope

end LetPoly
