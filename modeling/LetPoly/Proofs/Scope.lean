import LetPoly.Prelude
import Mathlib.Data.List.Forall2
import Mathlib.Data.List.Nodup
import Mathlib.Tactic.Lemma

/-!
# Scopes as functions of their entries

Mapping the values of a scope commutes with all that is done to scopes, and whoever is entered in a
scope was either there before or is the new value. `Scope.Rel` puts scopes of different values side
by side, name by name.
-/

namespace LetPoly

variable {α β : Type}

namespace Table

lemma map_enter (f : α → β) (name : String) (value : α) (l : List (String × α)) :
    (enter name value l).map (fun e => (e.1, f e.2)) =
      enter name (f value) (l.map fun e => (e.1, f e.2)) := by
  induction l with
  | nil => rfl
  | cons entry l ih =>
    rw [enter, List.map_cons, enter]
    split
    · rfl
    · rw [List.map_cons, ih]

lemma lookup_map (f : α → β) (name : String) (l : List (String × α)) :
    lookup name (l.map fun e => (e.1, f e.2)) = (lookup name l).map f := by
  induction l with
  | nil => rfl
  | cons entry l ih =>
    rw [List.map_cons, lookup, lookup]
    split
    · rfl
    · exact ih

lemma filter_enter (name : String) (value : α) (l : List (String × α)) :
    (enter name value l).filter (·.1 != name) = l.filter (·.1 != name) := by
  induction l with
  | nil => simp [enter]
  | cons entry l ih =>
    obtain ⟨key, old⟩ := entry
    rw [enter]
    split
    · rename_i h
      simp [h]
    · rename_i h
      simp [h, ih]

lemma mem_enter {name : String} {value : α} {l : List (String × α)} {entry : String × α}
    (h : entry ∈ enter name value l) : entry = (name, value) ∨ entry ∈ l := by
  induction l with
  | nil => exact Or.inl (List.mem_singleton.1 h)
  | cons e l ih =>
    rw [enter] at h
    split at h
    · exact (List.mem_cons.1 h).imp id (List.mem_cons_of_mem e)
    · rcases List.mem_cons.1 h with h | h
      · exact Or.inr (h ▸ List.mem_cons_self)
      · exact (ih h).imp id (List.mem_cons_of_mem e)

/-- The value that is replaced does not matter. -/
lemma enter_congr {f g : α → β} {name : String} {value : β} {l : List (String × α)}
    (hnodup : (l.map Prod.fst).Nodup) (h : ∀ e ∈ l.filter (·.1 != name), f e.2 = g e.2) :
    enter name value (l.map fun e => (e.1, f e.2)) =
      enter name value (l.map fun e => (e.1, g e.2)) := by
  induction l with
  | nil => rfl
  | cons e l ih =>
    rw [List.map_cons, List.nodup_cons] at hnodup
    rw [List.map_cons, List.map_cons, enter, enter]
    by_cases he : e.1 = name
    · rw [if_pos he, if_pos he]
      congr 1
      refine List.map_congr_left fun e' he' => ?_
      have hne : e'.1 ≠ name := by
        rw [← he]
        exact ne_of_mem_of_not_mem (List.mem_map_of_mem he') hnodup.1
      rw [h e' (List.mem_filter.2 ⟨List.mem_cons_of_mem _ he', by simpa using hne⟩)]
    · rw [if_neg he, if_neg he, h e (List.mem_filter.2 ⟨List.mem_cons_self, by simpa using he⟩),
        ih hnodup.2 fun e' he' => h e' (List.mem_filter.2
          ⟨List.mem_cons_of_mem _ (List.mem_filter.1 he').1, (List.mem_filter.1 he').2⟩)]

lemma mem_of_lookup {name : String} {value : α} {l : List (String × α)}
    (h : lookup name l = some value) : (name, value) ∈ l := by
  induction l with
  | nil => cases h
  | cons e l ih =>
    rw [lookup] at h
    split at h
    · rename_i he
      rw [← Option.some.inj h, ← he]
      exact List.mem_cons_self
    · exact List.mem_cons_of_mem _ (ih h)

/-- Change every value. -/
def map (f : α → β) (t : Table α) : Table β where
  entries := t.entries.map fun e => (e.1, f e.2)
  nodup := by
    rw [List.map_map]
    exact t.nodup

lemma eq_of_entries_eq {t t' : Table α} (h : t.entries = t'.entries) : t = t' := by
  cases t
  cases h
  rfl

lemma map_insert (f : α → β) (t : Table α) (name : String) (value : α) :
    (t.insert name value).map f = (t.map f).insert name (f value) := by
  simp only [map, insert, map_enter]

lemma find?_map (f : α → β) (t : Table α) (name : String) :
    (t.map f).find? name = (t.find? name).map f :=
  lookup_map f name t.entries

lemma values_map (f : α → β) (t : Table α) : (t.map f).values = t.values.map f := by
  simp [map, values]

lemma map_congr {f g : α → β} {t : Table α} (h : ∀ a ∈ t.values, f a = g a) :
    t.map f = t.map g := by
  simp only [map, mk.injEq]
  exact List.map_congr_left fun e he => by rw [h e.2 (List.mem_map_of_mem he)]

end Table

namespace Scope

/-- Change every value. -/
def map (f : α → β) (s : Scope α) : Scope β := ⟨s.innermost.map f, s.enclosing.map (·.map f)⟩

/-- All values of all tables. -/
def values (s : Scope α) : List α := s.innermost.values ++ s.enclosing.flatMap (·.values)

/-- All values but the innermost one of a name. -/
def others (s : Scope α) (name : String) : List α :=
  (s.innermost.entries.filter (·.1 != name)).map Prod.snd ++ s.enclosing.flatMap (·.values)

/-- What was entered last is found first. -/
lemma lookup_insertAll (s : Scope α) (t : Table α) (name : String) :
    (s.insertAll t).lookup name = (t.find? name).or (s.lookup name) := by
  have hfoldl : ∀ (l : List (String × α)) (s : Scope α), (l.map Prod.fst).Nodup →
      (l.foldl (fun s entry => s.insert entry.1 entry.2) s).lookup name =
        (Table.lookup name l).or (s.lookup name) := by
    intro l
    induction l with
    | nil => intro s _; rfl
    | cons e l ih =>
      intro s hnodup
      obtain ⟨hnew, hnodup⟩ := List.nodup_cons.1 hnodup
      rw [List.foldl_cons, ih _ hnodup, lookup_insert, Table.lookup]
      split
      · rename_i heq
        cases hl : Table.lookup name l with
        | none => rfl
        | some v =>
          exact absurd (heq ▸ List.mem_map_of_mem (f := Prod.fst) (Table.mem_of_lookup hl)) hnew
      · rfl
  exact hfoldl t.entries s t.nodup

lemma map_child (f : α → β) (s : Scope α) : s.child.map f = (s.map f).child := rfl

lemma map_insert (f : α → β) (s : Scope α) (name : String) (value : α) :
    (s.insert name value).map f = (s.map f).insert name (f value) := by
  simp only [map, insert, Table.map_insert]

lemma lookup_map (f : α → β) (s : Scope α) (name : String) :
    (s.map f).lookup name = (s.lookup name).map f := by
  have htables : (s.map f).tables = s.tables.map (·.map f) := rfl
  rw [lookup, lookup, htables]
  induction s.tables with
  | nil => rfl
  | cons t ts ih =>
    rw [List.map_cons, List.findSome?_cons, List.findSome?_cons, Table.find?_map, ih]
    cases t.find? name with
    | none => rfl
    | some a => rfl

lemma mem_of_lookup {s : Scope α} {name : String} {value : α} (h : s.lookup name = some value) :
    value ∈ s.values := by
  obtain ⟨t, ht, hv⟩ := List.exists_of_findSome?_eq_some h
  have hmem : value ∈ t.values := List.mem_map_of_mem (f := Prod.snd) (Table.mem_of_lookup hv)
  rcases List.mem_cons.1 ht with rfl | ht
  · exact List.mem_append_left _ hmem
  · exact List.mem_append_right _ (List.mem_flatMap.2 ⟨t, ht, hmem⟩)

lemma values_map (f : α → β) (s : Scope α) : (s.map f).values = s.values.map f := by
  rw [values, values, List.map_append, List.map_flatMap, map, Table.values_map, List.flatMap_map]
  simp only [Table.values_map]

lemma values_child (s : Scope α) : s.child.values = s.values := rfl

lemma others_subset (s : Scope α) (name : String) : s.others name ⊆ s.values := by
  refine List.append_subset.2 ⟨fun v hv => ?_, List.subset_append_right _ _⟩
  obtain ⟨e, he, rfl⟩ := List.mem_map.1 hv
  exact List.mem_append_left _ (List.mem_map_of_mem (List.mem_filter.1 he).1)

lemma others_insert (s : Scope α) (name : String) (value : α) :
    (s.insert name value).others name = s.others name := by
  rw [others, others, insert, Table.insert, Table.filter_enter]

lemma mem_values_insert {s : Scope α} {name : String} {value v : α}
    (h : v ∈ (s.insert name value).values) : v = value ∨ v ∈ s.values := by
  rcases List.mem_append.1 h with h | h
  · obtain ⟨e, he, rfl⟩ := List.mem_map.1 h
    rcases Table.mem_enter he with rfl | he
    · exact Or.inl rfl
    · exact Or.inr (List.mem_append_left _ (List.mem_map_of_mem he))
  · exact Or.inr (List.mem_append_right _ h)

lemma map_congr {f g : α → β} {s : Scope α} (h : ∀ a ∈ s.values, f a = g a) :
    s.map f = s.map g := by
  rw [map, map, mk.injEq]
  refine ⟨Table.map_congr fun a ha => h a (List.mem_append_left _ ha), ?_⟩
  exact List.map_congr_left fun t ht => Table.map_congr fun a ha =>
    h a (List.mem_append_right _ (List.mem_flatMap.2 ⟨t, ht, ha⟩))

lemma insert_congr {f g : α → β} {s : Scope α} {name : String} (value : β)
    (h : ∀ a ∈ s.others name, f a = g a) :
    (s.map f).insert name value = (s.map g).insert name value := by
  rw [insert, insert, mk.injEq]
  constructor
  · simp only [Table.insert, Table.mk.injEq]
    exact Table.enter_congr s.innermost.nodup fun e he =>
      h e.2 (List.mem_append_left _ (List.mem_map_of_mem he))
  · exact List.map_congr_left fun t ht => Table.map_congr fun a ha =>
      h a (List.mem_append_right _ (List.mem_flatMap.2 ⟨t, ht, ha⟩))

end Scope

namespace Config

lemma map_bind (c : Config) (f : α → β) (name : String) (value : α) (s : Scope α) :
    (c.bind name value s).map f = c.bind name (f value) (s.map f) := by
  rw [bind, bind]
  split
  · rfl
  · exact s.map_insert f name value

lemma mem_values_bind {c : Config} {name : String} {value v : α} {s : Scope α}
    (h : v ∈ (c.bind name value s).values) : v = value ∨ v ∈ s.values := by
  rw [bind] at h
  split at h
  · exact Or.inr h
  · exact Scope.mem_values_insert h

lemma enclosing_bind (c : Config) (name : String) (value : α) (s : Scope α) :
    (c.bind name value s).enclosing = s.enclosing := by
  rw [bind]
  split <;> rfl

lemma mem_innermost_bind {c : Config} {name : String} {value : α} {s : Scope α}
    {entry : String × α} (h : entry ∈ (c.bind name value s).innermost.entries) :
    entry = (name, value) ∧ name ≠ c.ignoreName ∨ entry ∈ s.innermost.entries := by
  rw [bind] at h
  split at h
  · exact Or.inr h
  · rename_i hname
    exact (Table.mem_enter h).imp_left fun h => ⟨h, by simpa [isIgnored] using hname⟩

end Config

/-! ### Scopes side by side -/

lemma forall₂_imp_of_mem {R S : α → β → Prop} {l : List α} {l' : List β} (h : List.Forall₂ R l l')
    (himp : ∀ a, ∀ b ∈ l', R a b → S a b) : List.Forall₂ S l l' := by
  induction h with
  | nil => exact .nil
  | cons hab _ ih =>
    exact .cons (himp _ _ List.mem_cons_self hab)
      (ih fun a b hb => himp a b (List.mem_cons_of_mem _ hb))

lemma exists_of_mem_forall₂ {R : α → β → Prop} {l : List α} {l' : List β} (h : List.Forall₂ R l l')
    {b : β} (hb : b ∈ l') : ∃ a ∈ l, R a b := by
  induction h with
  | nil => cases hb
  | @cons a _ _ _ hab _ ih =>
    rcases List.mem_cons.1 hb with rfl | hb
    · exact ⟨a, List.mem_cons_self, hab⟩
    · obtain ⟨a', ha', h⟩ := ih hb
      exact ⟨a', List.mem_cons_of_mem _ ha', h⟩

/-- Tables with the same names in the same order, and related values. -/
def Table.Rel {α β : Type} (R : α → β → Prop) (t : Table α) (t' : Table β) : Prop :=
  List.Forall₂ (fun a b => a.1 = b.1 ∧ R a.2 b.2) t.entries t'.entries

/-- Scopes with the same names in the same order, and related values. -/
structure Scope.Rel {α β : Type} (R : α → β → Prop) (s : Scope α) (s' : Scope β) : Prop where
  innermost : s.innermost.Rel R s'.innermost
  enclosing : List.Forall₂ (Table.Rel R) s.enclosing s'.enclosing

namespace Table

variable {α β : Type} {R R' : α → β → Prop} {l : List (String × α)} {l' : List (String × β)}

lemma forall₂_enter {name : String} {v : α} {v' : β}
    (h : List.Forall₂ (fun a b => a.1 = b.1 ∧ R a.2 b.2) l l') (hnodup : (l'.map Prod.fst).Nodup)
    (himp : ∀ v, ∀ e ∈ l', e.1 ≠ name → R v e.2 → R' v e.2) (hv : R' v v') :
    List.Forall₂ (fun a b => a.1 = b.1 ∧ R' a.2 b.2) (enter name v l) (enter name v' l') := by
  induction h with
  | nil => exact .cons ⟨rfl, hv⟩ .nil
  | @cons a b l l' hab hrest ih =>
    rw [List.map_cons, List.nodup_cons] at hnodup
    obtain ⟨ha, hR⟩ := hab
    by_cases hname : b.1 = name
    · rw [enter, enter, if_pos hname, if_pos (ha.trans hname)]
      refine .cons ⟨rfl, hv⟩ (forall₂_imp_of_mem hrest fun w e he hw => ⟨hw.1, ?_⟩)
      refine himp w.2 e (List.mem_cons_of_mem _ he) (fun heq => hnodup.1 ?_) hw.2
      rw [hname, ← heq]
      exact List.mem_map_of_mem he
    · rw [enter, enter, if_neg hname, if_neg fun h => hname (ha ▸ h)]
      exact .cons ⟨ha, himp _ b List.mem_cons_self hname hR⟩
        (ih hnodup.2 fun w e he => himp w e (List.mem_cons_of_mem _ he))

lemma lookup_of_forall₂ {name : String} {v : α}
    (h : List.Forall₂ (fun a b => a.1 = b.1 ∧ R a.2 b.2) l l') (hv : lookup name l = some v) :
    ∃ v', lookup name l' = some v' ∧ R v v' := by
  induction h with
  | nil => cases hv
  | @cons a b l l' hab hrest ih =>
    obtain ⟨ha, hR⟩ := hab
    rw [lookup] at hv ⊢
    rw [← ha]
    split at hv
    · rename_i hname
      cases hv
      exact ⟨b.2, if_pos hname, hR⟩
    · rename_i hname
      rw [if_neg hname]
      exact ih hv

lemma lookup_eq_none_of_forall₂ {name : String}
    (h : List.Forall₂ (fun a b => a.1 = b.1 ∧ R a.2 b.2) l l') (hv : lookup name l = none) :
    lookup name l' = none := by
  induction h with
  | nil => rfl
  | @cons a b l l' hab hrest ih =>
    rw [lookup] at hv ⊢
    rw [← hab.1]
    split at hv
    · cases hv
    · rename_i hname
      rw [if_neg hname]
      exact ih hv

end Table

namespace Scope.Rel

lemma refl {α : Type} {R : α → α → Prop} {s : Scope α} (h : ∀ v ∈ s.values, R v v) : Rel R s s where
  innermost := List.forall₂_same.2 fun e he =>
    ⟨rfl, h e.2 (List.mem_append_left _ (List.mem_map_of_mem he))⟩
  enclosing := List.forall₂_same.2 fun t ht => List.forall₂_same.2 fun e he =>
    ⟨rfl, h e.2 (List.mem_append_right _ (List.mem_flatMap.2 ⟨t, ht, List.mem_map_of_mem he⟩))⟩

variable {α β : Type} {R R' : α → β → Prop} {s : Scope α} {s' : Scope β}

lemma child (h : Rel R s s') : Rel R s.child s'.child := ⟨.nil, .cons h.innermost h.enclosing⟩

lemma imp (h : Rel R s s') (himp : ∀ v, ∀ v' ∈ s'.values, R v v' → R' v v') : Rel R' s s' where
  innermost := forall₂_imp_of_mem h.innermost fun a e he hab =>
    ⟨hab.1, himp a.2 e.2 (List.mem_append_left _ (List.mem_map_of_mem he)) hab.2⟩
  enclosing := forall₂_imp_of_mem h.enclosing fun _ t' ht' hrel =>
    forall₂_imp_of_mem hrel fun a e he hab => ⟨hab.1, himp a.2 e.2 (List.mem_append_right _
      (List.mem_flatMap.2 ⟨t', ht', List.mem_map_of_mem he⟩)) hab.2⟩

lemma map_right {γ : Type} {f : γ → β} {s'' : Scope γ} :
    Rel R s (s''.map f) ↔ Rel (fun a c => R a (f c)) s s'' := by
  have htable (t : Table α) (t' : Table γ) :
      t.Rel R (t'.map f) ↔ t.Rel (fun a c => R a (f c)) t' := List.forall₂_map_right_iff
  constructor
  · intro h
    refine ⟨(htable _ _).1 h.innermost, (List.forall₂_map_right_iff.1 h.enclosing).imp ?_⟩
    exact fun t t' => (htable t t').1
  · intro h
    refine ⟨(htable _ _).2 h.innermost, List.forall₂_map_right_iff.2 (h.enclosing.imp ?_)⟩
    exact fun t t' => (htable t t').2

/-- Values other than the one entered keep their partners. -/
lemma insert_of (h : Rel R s s') {name : String} {v : α} {v' : β} (hv : R' v v')
    (himp : ∀ w, ∀ w' ∈ s'.others name, R w w' → R' w w') :
    Rel R' (s.insert name v) (s'.insert name v') where
  innermost := Table.forall₂_enter h.innermost s'.innermost.nodup (fun w e he hname =>
    himp w e.2 (List.mem_append_left _ (List.mem_map_of_mem (f := Prod.snd)
      (List.mem_filter.2 ⟨he, by simpa using hname⟩)))) hv
  enclosing := forall₂_imp_of_mem h.enclosing fun _ t' ht' hrel =>
    forall₂_imp_of_mem hrel fun a e he hab => ⟨hab.1, himp a.2 e.2 (List.mem_append_right _
      (List.mem_flatMap.2 ⟨t', ht', List.mem_map_of_mem he⟩)) hab.2⟩

lemma insert (h : Rel R s s') (name : String) {v : α} {v' : β} (hv : R v v') :
    Rel R (s.insert name v) (s'.insert name v') :=
  h.insert_of hv fun _ _ _ => id

lemma bind (h : Rel R s s') (config : Config) (name : String) {v : α} {v' : β} (hv : R v v') :
    Rel R (config.bind name v s) (config.bind name v' s') := by
  rw [Config.bind, Config.bind]
  split
  · exact h
  · exact h.insert name hv

lemma lookup (h : Rel R s s') {name : String} {v : α} (hv : s.lookup name = some v) :
    ∃ v', s'.lookup name = some v' ∧ R v v' := by
  have htables : List.Forall₂ (Table.Rel R) s.tables s'.tables := .cons h.innermost h.enclosing
  rw [Scope.lookup] at hv ⊢
  generalize s.tables = tables, s'.tables = tables' at htables hv ⊢
  induction htables with
  | nil => cases hv
  | @cons t t' ts ts' ht _ ih =>
    rw [List.findSome?_cons] at hv ⊢
    cases hfind : t.find? name with
    | some w =>
      rw [hfind, Option.some.injEq] at hv
      obtain ⟨w', hw', hR⟩ := Table.lookup_of_forall₂ ht hfind
      rw [show t'.find? name = some w' from hw']
      exact ⟨w', rfl, hv ▸ hR⟩
    | none =>
      rw [hfind] at hv
      rw [show t'.find? name = none from Table.lookup_eq_none_of_forall₂ ht hfind]
      exact ih hv

lemma exists_others (h : Rel R s s') {name : String} {v' : β} (hv' : v' ∈ s'.others name) :
    ∃ v ∈ s.others name, R v v' := by
  rcases List.mem_append.1 hv' with hv' | hv'
  · obtain ⟨e, he, rfl⟩ := List.mem_map.1 hv'
    obtain ⟨he, hname⟩ := List.mem_filter.1 he
    obtain ⟨a, ha, hfst, hR⟩ := exists_of_mem_forall₂ h.innermost he
    refine ⟨a.2, List.mem_append_left _ (List.mem_map_of_mem (f := Prod.snd) ?_), hR⟩
    exact List.mem_filter.2 ⟨ha, by rwa [hfst]⟩
  · obtain ⟨t', ht', hv'⟩ := List.mem_flatMap.1 hv'
    obtain ⟨e, he, rfl⟩ := List.mem_map.1 hv'
    obtain ⟨t, ht, hrel⟩ := exists_of_mem_forall₂ h.enclosing ht'
    obtain ⟨a, ha, _, hR⟩ := exists_of_mem_forall₂ hrel he
    exact ⟨a.2, List.mem_append_right _ (List.mem_flatMap.2 ⟨t, ht, List.mem_map_of_mem ha⟩), hR⟩

end Scope.Rel

end LetPoly
