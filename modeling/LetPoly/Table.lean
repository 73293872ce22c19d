/-!
# Tables in order of entry

A `Table` maps names to values and lists its entries in the order in which their names first
came in. Entering a name again replaces its value and keeps its place.
-/

namespace LetPoly

/-- A table of values under names, no name twice, in the order of first entry. -/
structure Table (α : Type) where
  entries : List (String × α)
  nodup : (entries.map Prod.fst).Nodup

namespace Table

variable {α : Type}

/-- Enter `value` under `name` in a list of entries: in place of the entry of that name, or at
the end if there is none. -/
def enter (name : String) (value : α) : List (String × α) → List (String × α)
  | [] => [(name, value)]
  | (key, old) :: rest =>
    if key = name then (name, value) :: rest else (key, old) :: enter name value rest

/-- The value of the first entry under `name`. -/
def lookup (name : String) : List (String × α) → Option α
  | [] => none
  | (key, value) :: rest => if key = name then some value else lookup name rest

theorem mem_keys_enter {name x : String} {value : α} {l : List (String × α)} :
    x ∈ (enter name value l).map Prod.fst ↔ x = name ∨ x ∈ l.map Prod.fst := by
  induction l with
  | nil => simp [enter]
  | cons entry l ih =>
    obtain ⟨key, old⟩ := entry
    by_cases h : key = name
    · simp [enter, h]
    · simp only [enter, h, if_false, List.map_cons, List.mem_cons, ih]
      exact or_left_comm

theorem nodup_keys_enter {name : String} {value : α} {l : List (String × α)}
    (h : (l.map Prod.fst).Nodup) : ((enter name value l).map Prod.fst).Nodup := by
  induction l with
  | nil => simp [enter]
  | cons entry l ih =>
    obtain ⟨key, old⟩ := entry
    rw [List.map_cons, List.nodup_cons] at h
    by_cases hk : key = name
    · rw [enter, if_pos hk, List.map_cons, List.nodup_cons]
      exact hk ▸ h
    · rw [enter, if_neg hk, List.map_cons, List.nodup_cons, mem_keys_enter]
      exact ⟨fun hm => hm.elim hk h.1, ih h.2⟩

/-- The table without entries. -/
def empty : Table α := ⟨[], List.nodup_nil⟩

/-- Enter `value` under `name`; an entry of that name is replaced where it stands. -/
def insert (t : Table α) (name : String) (value : α) : Table α :=
  ⟨enter name value t.entries, nodup_keys_enter t.nodup⟩

/-- The value under `name`. -/
def find? (t : Table α) (name : String) : Option α := lookup name t.entries

/-- Enter the pairs of a list one after the other. -/
def ofList (l : List (String × α)) : Table α :=
  l.foldl (fun t entry => t.insert entry.1 entry.2) empty

/-- The names, in order of first entry. -/
def names (t : Table α) : List String := t.entries.map Prod.fst

/-- The values, in the order of their names. -/
def values (t : Table α) : List α := t.entries.map Prod.snd

theorem lookup_enter (name x : String) (value : α) (l : List (String × α)) :
    lookup x (enter name value l) = if name = x then some value else lookup x l := by
  induction l with
  | nil => rfl
  | cons entry l ih =>
    obtain ⟨key, old⟩ := entry
    by_cases hk : key = name
    · by_cases hx : name = x <;> simp [enter, lookup, hk, hx]
    · by_cases hx : key = x
      · subst hx
        simp [enter, lookup, hk, Ne.symm hk]
      · simp [enter, lookup, hk, hx, ih]

/-- The value just entered is found under its name, and no other name is touched. -/
theorem find?_insert (t : Table α) (name x : String) (value : α) :
    (t.insert name value).find? x = if name = x then some value else t.find? x :=
  lookup_enter name x value t.entries

end Table

end LetPoly
