import LetPoly.Unification.Store
import Mathlib.Tactic.Lemma

/-!
# Stores as finite maps

Seen through `Store.get?`, a store is a map from handles to terms: taking a term in adds one entry
under a handle that was dead, releasing a handle removes its entry, replacing a term changes one
entry, and nothing else is touched.
-/

namespace LetPoly

namespace Store

variable {T : Type}

lemma get?_eq (s : Store T) (h : Handle) :
    s.get? h = s.cells[h.place]?.bind (·.stamped? h.stamp) := rfl

/-- The place vacated last is vacant. -/
lemma lastVacated_vacant {cells : List (Cell T)} {start place since : Nat}
    (h : lastVacated cells start = some (place, since)) :
    start ≤ place ∧ cells[place - start]? = some (.vacant since) := by
  induction cells generalizing start place since with
  | nil => cases h
  | cons cell cells ih =>
    -- A place further on has the same number as in the whole list.
    have hlater {p t : Nat} (h : lastVacated cells (start + 1) = some (p, t)) :
        start ≤ p ∧ (cell :: cells)[p - start]? = some (.vacant t) := by
      obtain ⟨hle, hcell⟩ := ih h
      have hidx : p - start = p - (start + 1) + 1 := by omega
      refine ⟨by omega, ?_⟩
      rw [hidx, List.getElem?_cons_succ, hcell]
    cases cell with
    | live stamp term => exact hlater h
    | vacant time =>
      rw [lastVacated] at h
      cases hrest : lastVacated cells (start + 1) with
      | none =>
        rw [hrest] at h
        cases h
        exact ⟨Nat.le_refl _, by simp⟩
      | some later =>
        obtain ⟨p, t⟩ := later
        rw [hrest] at h
        dsimp only at h
        split at h
        · cases h
          exact hlater hrest
        · cases h
          exact ⟨Nat.le_refl _, by simp⟩

/-- Taking a term in adds an entry under a dead handle. -/
lemma get?_insert (s : Store T) (term : T) :
    s.get? (s.insert term).2 = none ∧
      ∀ h, (s.insert term).1.get? h = if h = (s.insert term).2 then some term else s.get? h := by
  rw [insert]
  cases hlast : lastVacated s.cells 0 with
  | none =>
    refine ⟨by simp [get?], fun h => ?_⟩
    obtain ⟨place, stamp⟩ := h
    by_cases hplace : place < s.cells.length
    · rw [if_neg (by simp; omega), get?_eq, get?_eq, List.getElem?_append_left hplace]
    · by_cases hend : place = s.cells.length
      · by_cases hstamp : s.clock = stamp
        · simp [get?, hend, hstamp, Cell.stamped?]
        · simp [get?, hend, Cell.stamped?, hstamp, Ne.symm hstamp]
      · have hlong : s.cells.length + 1 ≤ place := by omega
        rw [if_neg (by simp [hend]), get?_eq, get?_eq, List.getElem?_eq_none (by simpa using hlong),
          List.getElem?_eq_none (Nat.le_of_succ_le hlong)]
  | some last =>
    obtain ⟨place, since⟩ := last
    obtain ⟨_, hcell⟩ := lastVacated_vacant hlast
    rw [Nat.sub_zero] at hcell
    have hlt : place < s.cells.length := (List.getElem?_eq_some_iff.1 hcell).1
    refine ⟨by simp [get?, hcell, Cell.stamped?], fun h => ?_⟩
    obtain ⟨place', stamp⟩ := h
    by_cases hplace : place' = place
    · subst hplace
      by_cases hstamp : s.clock = stamp
      · simp [get?, hlt, hstamp, Cell.stamped?]
      · rw [if_neg (by simpa using Ne.symm hstamp), get?_eq, get?_eq, hcell,
          List.getElem?_set_self hlt]
        simp [Cell.stamped?, hstamp]
    · rw [if_neg (by simp [hplace]), get?_eq, get?_eq, List.getElem?_set_ne (Ne.symm hplace)]

/-- Another content for the place of a live handle leaves all other handles as they are. -/
lemma get?_set_of_ne {s : Store T} {h h' : Handle} {term : T} {clock : Nat} {cell : Cell T}
    (hlive : s.get? h = some term) (hne : h' ≠ h)
    (hcell : ∀ stamp, stamp ≠ h.stamp → cell.stamped? stamp = none) :
    get? ⟨s.cells.set h.place cell, clock⟩ h' = s.get? h' := by
  obtain ⟨place, stamp⟩ := h
  obtain ⟨place', stamp'⟩ := h'
  by_cases hplace : place' = place
  · subst hplace
    have hstamp : stamp' ≠ stamp := fun h => hne (by rw [h])
    obtain ⟨old, hold, hterm⟩ := Option.bind_eq_some_iff.1 hlive
    have hlt : place' < s.cells.length := (List.getElem?_eq_some_iff.1 hold).1
    cases old with
    | vacant since => cases hterm
    | live old term' =>
      rw [Cell.stamped?] at hterm
      split at hterm
      · rename_i hold'
        rw [get?_eq, get?_eq, List.getElem?_set_self hlt, hold, Option.bind_some,
          Option.bind_some, hcell stamp' hstamp, Cell.stamped?, hold', if_neg (Ne.symm hstamp)]
      · cases hterm
  · rw [get?_eq, get?_eq, List.getElem?_set_ne (Ne.symm hplace)]

lemma place_lt_of_get? {s : Store T} {h : Handle} {term : T} (hlive : s.get? h = some term) :
    h.place < s.cells.length := by
  obtain ⟨old, hold, _⟩ := Option.bind_eq_some_iff.1 hlive
  exact (List.getElem?_eq_some_iff.1 hold).1

lemma get?_release (s : Store T) (h h' : Handle) :
    (s.release h).1.get? h' = if h' = h then none else s.get? h' := by
  rw [release]
  cases hlive : s.get? h with
  | none =>
    by_cases heq : h' = h
    · rw [if_pos heq, heq]
      exact hlive
    · rw [if_neg heq]
  | some term =>
    by_cases heq : h' = h
    · rw [if_pos heq, heq, get?_eq, List.getElem?_set_self (place_lt_of_get? hlive)]
      rfl
    · rw [if_neg heq]
      exact get?_set_of_ne hlive heq fun _ _ => rfl

lemma release_snd (s : Store T) (h : Handle) : (s.release h).2 = s.get? h := by
  rw [release]
  cases s.get? h with
  | none => rfl
  | some term => rfl

lemma get?_replace {s : Store T} {h : Handle} {old : T} (hlive : s.get? h = some old) (term : T)
    (h' : Handle) : (s.replace h term).get? h' = if h' = h then some term else s.get? h' := by
  rw [replace, hlive]
  by_cases heq : h' = h
  · rw [if_pos heq, heq, get?_eq, List.getElem?_set_self (place_lt_of_get? hlive)]
    simp [Cell.stamped?]
  · rw [if_neg heq]
    exact get?_set_of_ne hlive heq fun stamp hstamp => if_neg (Ne.symm hstamp)

lemma mem_terms_of_get? {s : Store T} {h : Handle} {term : T} (hlive : s.get? h = some term) :
    term ∈ s.terms := by
  obtain ⟨cell, hcell, hterm⟩ := Option.bind_eq_some_iff.1 hlive
  refine List.mem_filterMap.2 ⟨cell, List.mem_of_getElem? hcell, ?_⟩
  cases cell with
  | vacant since => cases hterm
  | live stamp term' =>
    rw [Cell.stamped?] at hterm
    split at hterm
    · exact hterm
    · cases hterm

lemma exists_get?_of_mem_terms {s : Store T} {term : T} (h : term ∈ s.terms) :
    ∃ h, s.get? h = some term := by
  obtain ⟨cell, hcell, hterm⟩ := List.mem_filterMap.1 h
  obtain ⟨place, hplace⟩ := List.mem_iff_getElem?.1 hcell
  cases cell with
  | vacant since => cases hterm
  | live stamp term' =>
    cases hterm
    exact ⟨⟨place, stamp⟩, by simp [get?, hplace, Cell.stamped?]⟩

/-! ### The clock -/

lemma stamp_insert (s : Store T) (term : T) : (s.insert term).2.stamp = s.clock := by
  rw [insert]
  split <;> rfl

lemma clock_insert (s : Store T) (term : T) : (s.insert term).1.clock = s.clock + 1 := by
  rw [insert]
  split <;> rfl

lemma clock_le_release (s : Store T) (h : Handle) : s.clock ≤ (s.release h).1.clock := by
  rw [release]
  split
  · exact Nat.le_succ _
  · exact Nat.le_refl _

lemma clock_replace (s : Store T) (h : Handle) (term : T) : (s.replace h term).clock = s.clock := by
  rw [replace]
  split <;> rfl

/-! ### Changes of all terms -/

lemma map_id (s : Store T) : s.map id = s := by
  have hcell : Cell.map (id : T → T) = id := by
    funext cell
    cases cell <;> rfl
  simp only [map, hcell, List.map_id]

lemma map_map (f g : T → T) (s : Store T) : (s.map f).map g = s.map (g ∘ f) := by
  simp only [map, List.map_map, Store.mk.injEq, and_true]
  refine List.map_congr_left fun cell _ => ?_
  cases cell <;> rfl

end Store

end LetPoly
