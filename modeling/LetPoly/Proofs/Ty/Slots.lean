import LetPoly.Proofs.Ty.Schemes
import LetPoly.Syntax.Fill

/-!
# Kind slots

Recording kinds in a type changes its slots and nothing else: with all slots empty
(`Ty.unslotted`) the type is what it was before. So whatever does not look at the slots is the same
of a type and of the type with kinds recorded.
-/

namespace LetPoly

namespace Ty

mutual
/-- The type with all slots empty. -/
def unslotted : Ty → Ty
  | .con name _ => .con name none
  | .var name sort _ => .var name sort none
  | .app head args => .app head.unslotted (unslottedList args)
  | .scheme vars body => .scheme vars body.unslotted

/-- The types of a list with all slots empty. -/
def unslottedList : List Ty → List Ty
  | [] => []
  | a :: args => a.unslotted :: unslottedList args
end

mutual
@[simp] lemma unslotted_fill : (t : Ty) → (kinds : List Kind) →
    (t.fill kinds).1.unslotted = t.unslotted
  | .con _ none, [] => rfl
  | .con _ none, _ :: _ => rfl
  | .con _ (some _), _ => rfl
  | .var _ _ none, [] => rfl
  | .var _ _ none, _ :: _ => rfl
  | .var _ _ (some _), _ => rfl
  | .app head args, kinds => by
    simp only [fill, unslotted, unslotted_fill head, unslottedList_fillList args]
  | .scheme vars body, kinds => by simp only [fill, unslotted, unslotted_fill body]

@[simp] lemma unslottedList_fillList : (args : List Ty) → (kinds : List Kind) →
    unslottedList (fillList args kinds).1 = unslottedList args
  | [], _ => rfl
  | a :: args, kinds => by
    simp only [fillList, unslottedList, unslotted_fill a, unslottedList_fillList args]
end

mutual
lemma unknowns_unslotted : (t : Ty) → t.unslotted.unknowns = t.unknowns
  | .con _ _ => rfl
  | .var _ .solvable _ => rfl
  | .var _ .rigid _ => rfl
  | .app head args => by
    simp only [unslotted, unknowns, unknowns_unslotted head, unknownsList_unslottedList args]
  | .scheme vars body => by simp only [unslotted, unknowns, unknowns_unslotted body]

lemma unknownsList_unslottedList : (args : List Ty) →
    unknownsList (unslottedList args) = unknownsList args
  | [] => rfl
  | a :: args => by
    simp only [unslottedList, unknownsList, unknowns_unslotted a, unknownsList_unslottedList args]
end

mutual
lemma occurrences_unslotted : (t : Ty) → t.unslotted.occurrences = t.occurrences
  | .con _ _ => rfl
  | .var _ _ _ => rfl
  | .app head args => by
    simp only [unslotted, occurrences, occurrences_unslotted head,
      occurrencesList_unslottedList args]
  | .scheme vars body => by simp only [unslotted, occurrences, occurrences_unslotted body]

lemma occurrencesList_unslottedList : (args : List Ty) →
    occurrencesList (unslottedList args) = occurrencesList args
  | [] => rfl
  | a :: args => by
    simp only [unslottedList, occurrencesList, occurrences_unslotted a,
      occurrencesList_unslottedList args]
end

lemma unknowns_fill (t : Ty) (kinds : List Kind) : (t.fill kinds).1.unknowns = t.unknowns := by
  rw [← unknowns_unslotted, unslotted_fill, unknowns_unslotted]

lemma occurrences_fill (t : Ty) (kinds : List Kind) :
    (t.fill kinds).1.occurrences = t.occurrences := by
  rw [← occurrences_unslotted, unslotted_fill, occurrences_unslotted]

mutual
/-- Without kinds there is nothing to record. -/
lemma fill_nil : (t : Ty) → t.fill [] = (t, [])
  | .con _ none => rfl
  | .con _ (some _) => rfl
  | .var _ _ none => rfl
  | .var _ _ (some _) => rfl
  | .app head args => by simp only [fill, fill_nil head, fillList_nil args]
  | .scheme vars body => by simp only [fill, fill_nil body]

lemma fillList_nil : (args : List Ty) → fillList args [] = (args, [])
  | [] => rfl
  | a :: args => by simp only [fillList, fill_nil a, fillList_nil args]
end

lemma headName?_fill : (t : Ty) → (kinds : List Kind) → (t.fill kinds).1.headName? = t.headName?
  | .con _ none, [] => rfl
  | .con _ none, _ :: _ => rfl
  | .con _ (some _), _ => rfl
  | .var _ _ none, [] => rfl
  | .var _ _ none, _ :: _ => rfl
  | .var _ _ (some _), _ => rfl
  | .app head _, kinds => headName?_fill head kinds
  | .scheme _ _, _ => rfl

lemma mem_fillList {t : Ty} {args : List Ty} {kinds : List Kind} (h : t ∈ (fillList args kinds).1) :
    ∃ a ∈ args, ∃ own, t = (a.fill own).1 := by
  induction args generalizing kinds with
  | nil => cases h
  | cons a args ih =>
    rcases List.mem_cons.1 h with rfl | h
    · exact ⟨a, List.mem_cons_self, kinds, rfl⟩
    · obtain ⟨b, hb, own, rfl⟩ := ih h
      exact ⟨b, List.mem_cons_of_mem _ hb, own, rfl⟩

end Ty

/-! ### Datatypes -/

lemma mem_fillConstructors {c : Constructor} {constructors : List Constructor} {kinds : List Kind}
    (h : c ∈ (fillConstructors constructors kinds).1) :
    ∃ c' ∈ constructors, ∃ own, c.fields = (Ty.fillList c'.fields own).1 := by
  induction constructors generalizing kinds with
  | nil => cases h
  | cons c' constructors ih =>
    rcases List.mem_cons.1 h with rfl | h
    · exact ⟨c', List.mem_cons_self, kinds, rfl⟩
    · obtain ⟨c'', hc'', own, heq⟩ := ih h
      exact ⟨c'', List.mem_cons_of_mem _ hc'', own, heq⟩

lemma mem_fillDatatypes {d : Datatype} {ds : List Datatype} {kinds : List Kind}
    (h : d ∈ (fillDatatypes ds kinds).1) : ∃ d' ∈ ds, ∃ own, d = (d'.fill own).1 := by
  induction ds generalizing kinds with
  | nil => cases h
  | cons d' ds ih =>
    rcases List.mem_cons.1 h with rfl | h
    · exact ⟨d', List.mem_cons_self, kinds, rfl⟩
    · obtain ⟨d'', hd'', own, heq⟩ := ih h
      exact ⟨d'', List.mem_cons_of_mem _ hd'', own, heq⟩

lemma fillConstructors_nil (constructors : List Constructor) :
    fillConstructors constructors [] = (constructors, []) := by
  induction constructors with
  | nil => rfl
  | cons c constructors ih => simp only [fillConstructors, Ty.fillList_nil, ih]

lemma fillDatatypes_nil (ds : List Datatype) : fillDatatypes ds [] = (ds, []) := by
  induction ds with
  | nil => rfl
  | cons d ds ih => simp only [fillDatatypes, Datatype.fill, Ty.fill_nil, fillConstructors_nil, ih]

/-- What does not depend on slots is the same of each datatype with kinds recorded. -/
lemma map_fillDatatypes {γ : Type} {f : Datatype → γ} (hf : ∀ d kinds, f (d.fill kinds).1 = f d)
    (ds : List Datatype) (kinds : List Kind) : (fillDatatypes ds kinds).1.map f = ds.map f := by
  induction ds generalizing kinds with
  | nil => rfl
  | cons d ds ih => simp only [fillDatatypes, List.map_cons, hf, ih]

lemma length_fillDatatypes (ds : List Datatype) (kinds : List Kind) :
    (fillDatatypes ds kinds).1.length = ds.length := by
  have hmap := congrArg List.length (map_fillDatatypes (f := fun _ => ()) (fun _ _ => rfl) ds kinds)
  rwa [List.length_map, List.length_map] at hmap

lemma Datatype.name?_fill (d : Datatype) (kinds : List Kind) : (d.fill kinds).1.name? = d.name? :=
  d.head.headName?_fill kinds

/-- What is true of all types of a datatype. -/
structure Datatype.All (P : Ty → Prop) (d : Datatype) : Prop where
  head : P d.head
  field {c : Constructor} : c ∈ d.constructors → ∀ t ∈ c.fields, P t

lemma Datatype.all_iff {P : Ty → Prop} {d : Datatype} :
    d.All P ↔ P d.head ∧ ∀ c ∈ d.constructors, ∀ t ∈ c.fields, P t :=
  ⟨fun h => ⟨h.head, fun _ hc => h.field hc⟩, fun h => ⟨h.1, fun hc => h.2 _ hc⟩⟩

instance {P : Ty → Prop} [DecidablePred P] {d : Datatype} : Decidable (d.All P) :=
  decidable_of_iff' _ Datatype.all_iff

/-- What does not depend on slots stays true of a datatype with kinds recorded. -/
lemma Datatype.All.fill {P : Ty → Prop} {d : Datatype} (h : d.All P)
    (hP : ∀ t kinds, P t → P (t.fill kinds).1) (kinds : List Kind) : (d.fill kinds).1.All P where
  head := hP _ _ h.head
  field := by
    intro c hc t ht
    obtain ⟨c', hc', own, heq⟩ := mem_fillConstructors hc
    rw [heq] at ht
    obtain ⟨a, ha, own', rfl⟩ := Ty.mem_fillList ht
    exact hP _ _ (h.field hc' a ha)

end LetPoly
