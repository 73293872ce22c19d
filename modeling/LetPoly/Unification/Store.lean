/-!
# Stores of live terms

A `Store` keeps terms in numbered places and hands out a `Handle` for each. A new term takes the
place that was vacated last, or a place after all others if none is vacant. A handle bears the
stamp of its term, so that it stays dead once the term is released, whoever takes the place.

Terms are listed in the order of their places.
-/

namespace LetPoly

/-- The right to read a term of a store: its place, and the stamp it got there. -/
structure Handle where
  place : Nat
  stamp : Nat
  deriving DecidableEq

/-- A place of a store: a term with its stamp, or a vacancy with the time since when. -/
inductive Cell (T : Type) where
  | live (stamp : Nat) (term : T)
  | vacant (since : Nat)

namespace Cell

variable {T : Type}

/-- The term in a cell. -/
def term? : Cell T → Option T
  | .live _ term => some term
  | .vacant _ => none

/-- The term in a cell, if it bears that stamp. -/
def stamped? (stamp : Nat) : Cell T → Option T
  | .live s term => if s = stamp then some term else none
  | .vacant _ => none

/-- Change the term in a cell. -/
def map (f : T → T) : Cell T → Cell T
  | .live stamp term => .live stamp (f term)
  | .vacant since => .vacant since

end Cell

/-- Live terms in their places, and a clock that stamps what comes and goes. -/
structure Store (T : Type) where
  cells : List (Cell T)
  clock : Nat

namespace Store

variable {T : Type}

/-- The store without any place. -/
def empty : Store T := ⟨[], 0⟩

/-- The place among `cells` vacated last, with the time of it, the first cell being number
`place`. -/
def lastVacated : List (Cell T) → Nat → Option (Nat × Nat)
  | [], _ => none
  | .live _ _ :: cells, place => lastVacated cells (place + 1)
  | .vacant since :: cells, place =>
    match lastVacated cells (place + 1) with
    | some (place', since') => if since < since' then some (place', since') else some (place, since)
    | none => some (place, since)

/-- Take a term in. -/
def insert (s : Store T) (term : T) : Store T × Handle :=
  match lastVacated s.cells 0 with
  | some (place, _) =>
    (⟨s.cells.set place (.live s.clock term), s.clock + 1⟩, ⟨place, s.clock⟩)
  | none => (⟨s.cells ++ [.live s.clock term], s.clock + 1⟩, ⟨s.cells.length, s.clock⟩)

/-- The term of a handle, if it has not been released. -/
def get? (s : Store T) (h : Handle) : Option T := s.cells[h.place]?.bind (·.stamped? h.stamp)

/-- Put another term in the place of a handle. Nothing happens if its term has been released. -/
def replace (s : Store T) (h : Handle) (term : T) : Store T :=
  match s.get? h with
  | some _ => { s with cells := s.cells.set h.place (.live h.stamp term) }
  | none => s

/-- Release the term of a handle and vacate its place. -/
def release (s : Store T) (h : Handle) : Store T × Option T :=
  match s.get? h with
  | some term => (⟨s.cells.set h.place (.vacant s.clock), s.clock + 1⟩, some term)
  | none => (s, none)

/-- The live terms in the order of their places. -/
def terms (s : Store T) : List T := s.cells.filterMap Cell.term?

/-- The number of live terms. -/
def size (s : Store T) : Nat := s.terms.length

/-- Change every live term. -/
def map (f : T → T) (s : Store T) : Store T := { s with cells := s.cells.map (Cell.map f) }

/-- Reading commutes with a change of all terms. -/
@[simp] theorem get?_map (f : T → T) (s : Store T) (h : Handle) :
    (s.map f).get? h = (s.get? h).map f := by
  simp only [get?, map, List.getElem?_map]
  cases s.cells[h.place]? with
  | none => rfl
  | some cell =>
    cases cell with
    | live stamp term => by_cases hs : stamp = h.stamp <;> simp [Cell.map, Cell.stamped?, hs]
    | vacant since => rfl

end Store

end LetPoly
