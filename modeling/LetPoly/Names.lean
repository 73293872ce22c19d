/-!
# Ordered sets of names

A `NameSet` holds each of its names once, in the order in which they were first met. The
order is the one in which names are printed and instantiated; two sets are the same
(`NameSet.same`) when they have the same members, whatever their order.
-/

namespace LetPoly

/-- Erasing later repetitions leaves no repetition. -/
theorem nodup_eraseDups {α : Type} [BEq α] [LawfulBEq α] (l : List α) : l.eraseDups.Nodup := by
  match l with
  | [] => simp
  | a :: l =>
    rw [List.eraseDups_cons, List.nodup_cons]
    exact ⟨by simp [List.mem_eraseDups], nodup_eraseDups _⟩
termination_by l.length
decreasing_by exact Nat.lt_succ_of_le (List.length_filter_le _ _)

/-- Names without repetition, in order of first occurrence. -/
structure NameSet where
  names : List String
  nodup : names.Nodup
  deriving DecidableEq

namespace NameSet

instance : Membership String NameSet := ⟨fun s x => x ∈ s.names⟩

instance (x : String) (s : NameSet) : Decidable (x ∈ s) :=
  inferInstanceAs (Decidable (x ∈ s.names))

@[simp] theorem mem_names {x : String} {s : NameSet} : x ∈ s.names ↔ x ∈ s := Iff.rfl

/-- The set of the names in a list. -/
def ofList (l : List String) : NameSet := ⟨l.eraseDups, nodup_eraseDups l⟩

@[simp] theorem mem_ofList {x : String} {l : List String} : x ∈ ofList l ↔ x ∈ l :=
  List.mem_eraseDups

/-- The set without names. -/
def empty : NameSet := ⟨[], List.nodup_nil⟩

/-- The names that satisfy `p`, in the same order. -/
def filter (p : String → Bool) (s : NameSet) : NameSet :=
  ⟨s.names.filter p, s.nodup.filter p⟩

@[simp] theorem mem_filter {x : String} {p : String → Bool} {s : NameSet} :
    x ∈ s.filter p ↔ x ∈ s ∧ p x = true :=
  List.mem_filter

/-- Whether there is no name at all. -/
def isEmpty (s : NameSet) : Bool := s.names.isEmpty

/-- Whether two sets have the same members. As neither repeats a name, it is enough that they
are of one length and the second holds every name of the first. -/
def same (s t : NameSet) : Bool :=
  s.names.length == t.names.length && s.names.all (· ∈ t)

end NameSet

end LetPoly
