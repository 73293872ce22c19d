import LetPoly.Proofs.Kinding.Recorded
import LetPoly.Proofs.Ty.Exact

/-!
# What can be quantified

`Ty.quantifyExcept` refuses a type for a scheme anywhere inside that binds what its body does not
mention, and a scheme for the variables that it leaves free. Nothing else is refused, and what comes
out is quantified for good: its free variables are the fixed ones, and quantifying it once more
changes nothing.

The variables are found and the schemes are checked in one pass (`Ty.gather`), which keeps the
variables that it has met so far. It finds what `Ty.freeVars` finds, in the same order.
-/

namespace LetPoly

/-! ### Sets of names -/

lemma eraseDups_filter {α : Type} [BEq α] [LawfulBEq α] (p : α → Bool) (l : List α) :
    (l.filter p).eraseDups = l.eraseDups.filter p := by
  match l with
  | [] => rfl
  | a :: l =>
    have hcomm : (l.filter p).filter (fun b => !b == a) = (l.filter fun b => !b == a).filter p := by
      simp only [List.filter_filter, Bool.and_comm]
    by_cases ha : p a
    · rw [List.filter_cons_of_pos ha, List.eraseDups_cons, hcomm, eraseDups_filter p (l.filter _),
        List.eraseDups_cons, List.filter_cons_of_pos ha]
    · have hself : (l.filter p).filter (fun b => !b == a) = l.filter p := by
        refine List.filter_eq_self.2 fun b hb => ?_
        have hne : b ≠ a := fun h => ha (h ▸ (List.mem_filter.1 hb).2)
        simpa using hne
      rw [List.filter_cons_of_neg ha, List.eraseDups_cons, List.filter_cons_of_neg ha,
        ← eraseDups_filter p (l.filter _), ← hcomm, hself]
termination_by l.length
decreasing_by all_goals exact Nat.lt_succ_of_le (List.length_filter_le _ _)

namespace NameSet

/-- Put names at the end of a set, those that are not in it yet. -/
def add (s : NameSet) (names : List String) : NameSet := .ofList (s.names ++ names)

lemma add_ofList (l names : List String) : (ofList l).add names = ofList (l ++ names) := by
  refine eq_of_names ?_
  show (l.eraseDups ++ names).eraseDups = (l ++ names).eraseDups
  have hrest : names.removeAll l.eraseDups = names.removeAll l :=
    List.filter_congr fun x _ => by simp [List.mem_eraseDups]
  rw [List.eraseDups_append, List.eraseDups_append, hrest]
  exact congrArg (· ++ _) (names_ofList (nodup_eraseDups l))

lemma filter_ofList (p : String → Bool) (l : List String) :
    (ofList l).filter p = ofList (l.filter p) :=
  eq_of_names (eraseDups_filter p l).symm

/-- Repetitions in what is put at the end do not count. -/
lemma ofList_append_names (l names : List String) :
    ofList (l ++ (ofList names).names) = ofList (l ++ names) := by
  refine eq_of_names ?_
  show (l ++ names.eraseDups).eraseDups = (l ++ names).eraseDups
  rw [List.eraseDups_append, List.eraseDups_append, List.removeAll, List.removeAll,
    ← eraseDups_filter]
  exact congrArg (_ ++ ·) (names_ofList (nodup_eraseDups _))

lemma isEmpty_iff {s : NameSet} : s.isEmpty ↔ ∀ x, x ∉ s := by
  rw [isEmpty, List.isEmpty_iff, List.eq_nil_iff_forall_not_mem]
  exact Iff.rfl

end NameSet

namespace Ty

/-! ### One pass -/

mutual
/-- Add the free variables of a type to those met so far. A scheme is checked for variables that its
body does not mention once the body has been gone through on its own. -/
def gather : Ty → NameSet → Except QuantifyError NameSet
  | .con _ _, seen => return seen
  | .var name _ _, seen => return seen.add [name]
  | .app head args, seen => do gatherList args (← head.gather seen)
  | .scheme vars body, seen => do
    let inner ← body.gather .empty
    match vars.names.filter (· ∉ inner) with
    | [] => return seen.add (inner.filter (· ∉ vars)).names
    | idle => throw (.unusedQuantified idle)

/-- Add the free variables of the types of a list to those met so far. -/
def gatherList : List Ty → NameSet → Except QuantifyError NameSet
  | [], seen => return seen
  | a :: args, seen => do gatherList args (← a.gather seen)
end

/-- The outcome of a pass: the first idle variables, or all variables met. -/
def gathered (idle : Option (List String)) (met : List String) : Except QuantifyError NameSet :=
  match idle with
  | some vars => .error (.unusedQuantified vars)
  | none => .ok (.ofList met)

mutual
lemma gather_ofList : (t : Ty) → (met : List String) →
    t.gather (.ofList met) = gathered t.idleVars? (met ++ t.occurrences)
  | .con _ _, met => by
    rw [gather, idleVars?, occurrences, List.append_nil]
    rfl
  | .var name _ _, met => by
    rw [gather, NameSet.add_ofList]
    rfl
  | .app head args, met => by
    rw [gather, gather_ofList head met, idleVars?, occurrences]
    cases head.idleVars? with
    | some vars => rfl
    | none => exact (gatherList_ofList args _).trans (by rw [List.append_assoc])
  | .scheme vars body, met => by
    rw [gather, show NameSet.empty = .ofList [] from rfl, gather_ofList body [], idleVars?]
    cases body.idleVars? with
    | some idle => rfl
    | none =>
      show (match vars.names.filter (· ∉ body.freeVars) with
        | [] => Except.ok ((NameSet.ofList met).add (body.freeVars.filter (· ∉ vars)).names)
        | idle => Except.error (QuantifyError.unusedQuantified idle)) = _
      cases vars.names.filter (· ∉ body.freeVars) with
      | nil =>
        show Except.ok _ = Except.ok _
        rw [NameSet.add_ofList, freeVars, NameSet.filter_ofList, NameSet.ofList_append_names,
          occurrences]
      | cons _ _ => rfl

lemma gatherList_ofList : (args : List Ty) → (met : List String) →
    gatherList args (.ofList met) = gathered (idleVarsList? args) (met ++ occurrencesList args)
  | [], met => by
    rw [gatherList, idleVarsList?, occurrencesList, List.append_nil]
    rfl
  | a :: args, met => by
    rw [gatherList, gather_ofList a met, idleVarsList?, occurrencesList]
    cases a.idleVars? with
    | some vars => rfl
    | none => exact (gatherList_ofList args _).trans (by rw [List.append_assoc])
end

/-- The pass finds the free variables of a type and what is wrong with its schemes. -/
lemma checkedFreeVars_eq_gather (t : Ty) : t.checkedFreeVars = t.gather .empty :=
  (gather_ofList t []).symm

/-! ### Idle variables -/

/-- Some scheme in a type, which may be the type itself, binds a variable that is not free in its
body. -/
def HasIdle (t : Ty) : Prop :=
  ∃ vars body, .scheme vars body ∈ t.parts ∧ ∃ x ∈ vars, x ∉ body.freeVars

lemma mem_parts_self (t : Ty) : t ∈ t.parts := by
  cases t <;> simp [parts]

mutual
/-- Idle variables are found only where a scheme inside has some. -/
lemma hasIdle_of_idleVars? {idle : List String} : (t : Ty) → t.idleVars? = some idle → t.HasIdle
  | .con _ _, h => by cases h
  | .var _ _ _, h => by cases h
  | .app head args, h => by
    rw [idleVars?] at h
    cases hhead : head.idleVars? with
    | some vars =>
      obtain ⟨vars, body, hmem, hidle⟩ := hasIdle_of_idleVars? head hhead
      exact ⟨vars, body, List.mem_cons_of_mem _ (List.mem_append_left _ hmem), hidle⟩
    | none =>
      rw [hhead] at h
      obtain ⟨vars, body, hmem, hidle⟩ := hasIdle_of_idleVarsList? args h
      exact ⟨vars, body, List.mem_cons_of_mem _ (List.mem_append_right _ hmem), hidle⟩
  | .scheme vars body, h => by
    rw [idleVars?] at h
    cases hbody : body.idleVars? with
    | some _ =>
      obtain ⟨vars, body, hmem, hidle⟩ := hasIdle_of_idleVars? body hbody
      exact ⟨vars, body, List.mem_cons_of_mem _ hmem, hidle⟩
    | none =>
      rw [hbody] at h
      cases hfilter : vars.names.filter (· ∉ body.freeVars) with
      | nil =>
        rw [hfilter] at h
        cases h
      | cons x rest =>
        have hx : x ∈ vars.names.filter (· ∉ body.freeVars) := hfilter ▸ List.mem_cons_self
        obtain ⟨hx, hfree⟩ := List.mem_filter.1 hx
        exact ⟨vars, body, mem_parts_self _, x, hx, by simpa using hfree⟩

lemma hasIdle_of_idleVarsList? {idle : List String} : (args : List Ty) →
    idleVarsList? args = some idle →
      ∃ vars body, .scheme vars body ∈ partsList args ∧ ∃ x ∈ vars, x ∉ body.freeVars
  | [], h => by cases h
  | a :: args, h => by
    rw [idleVarsList?] at h
    cases ha : a.idleVars? with
    | some vars =>
      obtain ⟨vars, body, hmem, hidle⟩ := hasIdle_of_idleVars? a ha
      exact ⟨vars, body, List.mem_append_left _ hmem, hidle⟩
    | none =>
      rw [ha] at h
      obtain ⟨vars, body, hmem, hidle⟩ := hasIdle_of_idleVarsList? args h
      exact ⟨vars, body, List.mem_append_right _ hmem, hidle⟩
end

mutual
/-- Where no idle variable is found in a type, none is found in its parts. -/
lemma idleVars?_part {u : Ty} : (t : Ty) → t.idleVars? = none → u ∈ t.parts → u.idleVars? = none
  | .con _ _, h, hu => by
    obtain rfl := List.mem_singleton.1 hu
    exact h
  | .var _ _ _, h, hu => by
    obtain rfl := List.mem_singleton.1 hu
    exact h
  | .app head args, h, hu => by
    rcases List.mem_cons.1 hu with rfl | hu
    · exact h
    · rw [idleVars?] at h
      split at h
      · cases h
      · rename_i hhead
        exact (List.mem_append.1 hu).elim (idleVars?_part head hhead) (idleVarsList?_part args h)
  | .scheme vars body, h, hu => by
    rcases List.mem_cons.1 hu with rfl | hu
    · exact h
    · rw [idleVars?] at h
      split at h
      · cases h
      · rename_i hbody
        exact idleVars?_part body hbody hu

lemma idleVarsList?_part {u : Ty} : (args : List Ty) → idleVarsList? args = none →
    u ∈ partsList args → u.idleVars? = none
  | [], _, hu => by cases hu
  | a :: args, h, hu => by
    rw [idleVarsList?] at h
    split at h
    · cases h
    · rename_i ha
      exact (List.mem_append.1 hu).elim (idleVars?_part a ha) (idleVarsList?_part args h)
end

lemma idleVars?_eq_none_iff {t : Ty} : t.idleVars? = none ↔ ¬ t.HasIdle := by
  constructor
  · rintro h ⟨vars, body, hmem, x, hx, hfree⟩
    have hbody := mem_occurrences_of_idleVars? (idleVars?_part t h hmem) hx
    exact hfree (NameSet.mem_ofList.2 hbody)
  · intro h
    cases hidle : t.idleVars? with
    | none => rfl
    | some idle => exact absurd (hasIdle_of_idleVars? t hidle) h

/-! ### Quantifying -/

/-- Quantifying a type fails for its first idle variables or else, if it is a scheme, for the
variables that it leaves free. -/
lemma quantifyExcept_eq_error {t : Ty} {fixed : List String} {e : QuantifyError} :
    t.quantifyExcept fixed = .error e ↔
      (∃ idle, t.idleVars? = some idle ∧ e = .unusedQuantified idle) ∨
        t.idleVars? = none ∧ t.isScheme ∧ (t.bindable fixed).isEmpty = false ∧
          e = .notQuantified (t.bindable fixed).names := by
  cases hidle : t.idleVars? with
  | some idle =>
    rw [quantifyExcept, checkedFreeVars, hidle]
    show Except.error (QuantifyError.unusedQuantified idle) = Except.error e ↔ _
    constructor
    · rintro ⟨⟩
      exact .inl ⟨idle, rfl, rfl⟩
    · rintro (⟨_, ⟨⟩, rfl⟩ | ⟨⟨⟩, _⟩)
      rfl
  | none =>
    rw [quantifyExcept_of_used hidle]
    by_cases hempty : (t.bindable fixed).isEmpty
    · simp [hempty]
    · cases hscheme : t.isScheme <;> simp [hempty, eq_comm]

lemma bindable_isEmpty {t : Ty} {fixed : List String} :
    (t.bindable fixed).isEmpty ↔ ∀ x ∈ t.freeVars, x ∈ fixed := by
  simp [NameSet.isEmpty_iff, mem_bindable, freeVars]

/-- What is left free in a quantified type are its fixed variables. -/
lemma mem_freeVars_quantifyExcept {t r : Ty} {fixed : List String}
    (h : t.quantifyExcept fixed = .ok r) {x : String} :
    x ∈ r.freeVars ↔ x ∈ t.freeVars ∧ x ∈ fixed := by
  obtain ⟨_, hcase⟩ := quantifyExcept_eq_ok.1 h
  split at hcase
  · rename_i hempty
    subst hcase
    exact ⟨fun hx => ⟨hx, bindable_isEmpty.1 hempty x hx⟩, fun hx => hx.1⟩
  · obtain ⟨_, rfl⟩ := hcase
    simp only [freeVars, NameSet.mem_ofList, occurrences, List.mem_filter, mem_bindable]
    simp only [decide_eq_true_eq, not_and, not_not]
    exact ⟨fun hx => ⟨hx.1, hx.2 hx.1⟩, fun hx => ⟨hx.1, fun _ => hx.2⟩⟩

/-- A quantified type has no idle variables. -/
lemma idleVars?_quantifyExcept {t r : Ty} {fixed : List String}
    (h : t.quantifyExcept fixed = .ok r) : r.idleVars? = none := by
  obtain ⟨hidle, hcase⟩ := quantifyExcept_eq_ok.1 h
  split at hcase
  · exact hcase ▸ hidle
  · obtain ⟨_, rfl⟩ := hcase
    have hused : (t.bindable fixed).names.filter (· ∉ t.freeVars) = [] := by
      refine List.filter_eq_nil_iff.2 fun x hx => ?_
      have hfree : x ∈ t.freeVars := NameSet.mem_ofList.2 (mem_bindable.1 hx).1
      simpa using hfree
    rw [idleVars?, hidle]
    simp only [hused]

/-- Quantifying a quantified type changes nothing. -/
lemma quantifyExcept_quantifyExcept {t r : Ty} {fixed : List String}
    (h : t.quantifyExcept fixed = .ok r) : r.quantifyExcept fixed = .ok r := by
  refine quantifyExcept_eq_ok.2 ⟨idleVars?_quantifyExcept h, ?_⟩
  rw [if_pos (bindable_isEmpty.2 fun x hx => ((mem_freeVars_quantifyExcept h).1 hx).2)]

/-- A type is refused for idle variables if and only if a scheme in it has some. It is refused for
free variables if and only if it is a scheme without idle variables in it that leaves some free that
are not fixed, and these are reported in order. All other types are quantified, over the free
variables that are not fixed, and quantified types stay as they are. One pass checks the schemes and
finds the free variables, in their order. -/
theorem quantifyExcept_closes (t : Ty) (fixed : List String) :
    ((∃ idle, t.quantifyExcept fixed = .error (.unusedQuantified idle)) ↔ t.HasIdle) ∧
    (¬ t.HasIdle →
      ((∃ free, t.quantifyExcept fixed = .error (.notQuantified free)) ↔
        t.isScheme ∧ ∃ x ∈ t.freeVars, x ∉ fixed) ∧
      (∀ free, t.quantifyExcept fixed = .error (.notQuantified free) →
        free = t.freeVars.names.filter (· ∉ fixed)) ∧
      (¬ (t.isScheme ∧ ∃ x ∈ t.freeVars, x ∉ fixed) →
        ∃ r, t.quantifyExcept fixed = .ok r ∧
          (∀ x, x ∈ r.freeVars ↔ x ∈ t.freeVars ∧ x ∈ fixed) ∧
          ((∀ x ∈ t.freeVars, x ∈ fixed) ∧ r = t ∨
            ∃ vars : NameSet, vars.names = t.freeVars.names.filter (· ∉ fixed) ∧
              vars.names ≠ [] ∧ r = .scheme vars t) ∧
          r.quantifyExcept fixed = .ok r)) ∧
    t.checkedFreeVars = t.gather .empty ∧
    ∀ free, t.gather .empty = .ok free → free.names = t.freeVars.names := by
  have hopen : (∃ x ∈ t.freeVars, x ∉ fixed) ↔ (t.bindable fixed).isEmpty = false := by
    rw [← Bool.not_eq_true, bindable_isEmpty]
    push Not
    rfl
  refine ⟨?_, fun hidle => ⟨?_, fun free h => ?_, fun hclosed => ?_⟩,
    checkedFreeVars_eq_gather t, fun free h => ?_⟩
  · rw [← not_iff_not, ← idleVars?_eq_none_iff]
    cases hidle : t.idleVars? <;> simp [quantifyExcept_eq_error, hidle]
  · rw [← idleVars?_eq_none_iff] at hidle
    simp [quantifyExcept_eq_error, hidle, hopen]
  · obtain ⟨idle, _, heq⟩ | ⟨_, _, _, heq⟩ := quantifyExcept_eq_error.1 h
    · cases heq
    · cases heq
      rfl
  · rw [← idleVars?_eq_none_iff] at hidle
    by_cases hempty : (t.bindable fixed).isEmpty
    · have hok : t.quantifyExcept fixed = .ok t :=
        quantifyExcept_eq_ok.2 ⟨hidle, by rw [if_pos hempty]⟩
      exact ⟨t, hok, fun x => mem_freeVars_quantifyExcept hok,
        .inl ⟨bindable_isEmpty.1 hempty, rfl⟩, hok⟩
    · have hscheme : t.isScheme = false := by
        rw [← Bool.not_eq_true]
        exact fun hscheme => hclosed ⟨hscheme, hopen.2 (by simpa using hempty)⟩
      have hok : t.quantifyExcept fixed = .ok (.scheme (t.bindable fixed) t) :=
        quantifyExcept_eq_ok.2 ⟨hidle, by rw [if_neg hempty]; exact ⟨hscheme, rfl⟩⟩
      refine ⟨_, hok, fun x => mem_freeVars_quantifyExcept hok, .inr ⟨_, rfl, ?_, rfl⟩,
        quantifyExcept_quantifyExcept hok⟩
      simpa [NameSet.isEmpty] using hempty
  · rw [← checkedFreeVars_eq_gather, checkedFreeVars] at h
    split at h
    · cases h
    · cases h
      rfl

/-- A pair of a scheme with the free variable `a` and the fixed variable `c` is quantified over
`a`. -/
theorem quantifyExcept_closes_pair :
    let t : Ty := .app (.con "Pair" none)
      [.quantified ["b"] (.arrow (.rigid "b") (.rigid "a")), .rigid "c"]
    ¬ t.HasIdle ∧ ¬ (t.isScheme ∧ ∃ x ∈ t.freeVars, x ∉ ["c"]) ∧
      ∃ r, t.quantifyExcept ["c"] = .ok r ∧ (∀ x, x ∈ r.freeVars ↔ x ∈ t.freeVars ∧ x ∈ ["c"]) ∧
        r.quantifyExcept ["c"] = .ok r := by
  intro t
  have hidle : ¬ t.HasIdle := idleVars?_eq_none_iff.1 (by decide)
  have hclosed : ¬ (t.isScheme ∧ ∃ x ∈ t.freeVars, x ∉ ["c"]) := fun h => by cases h.1
  obtain ⟨r, hok, hfree, _, hagain⟩ := ((quantifyExcept_closes t ["c"]).2.1 hidle).2.2 hclosed
  exact ⟨hidle, hclosed, r, hok, hfree, hagain⟩

end Ty

end LetPoly
