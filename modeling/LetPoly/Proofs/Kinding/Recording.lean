import LetPoly.Proofs.Kinding.Again
import LetPoly.Proofs.Kinding.Collected
import LetPoly.Proofs.Kinding.Order

/-!
# What is recorded, and when

Kinds are recorded only once a group of datatypes or an ascription has passed as a whole, and only
where nothing was recorded before. After that no slot is empty. The walk takes note of every node
whose slot is empty, and of each one once: its leaves stand at the places that `Ty.vacancies` lists.
So recording them is `Ty.fill` with as many kinds as there are empty slots, and it meets no slot
that is filled already.

The new kinds are closed, whatever the kinds they were made from.
-/

namespace LetPoly

open Kind Kinding

/-! ### Slots -/

namespace Ty

mutual
/-- The slots of the constructors and variables in a type, from left to right. Heads of applications
and bodies of quantified types count as well. -/
def slots : Ty → List KindSlot
  | .con _ slot => [slot]
  | .var _ _ slot => [slot]
  | .app head args => head.slots ++ slotsList args
  | .scheme _ body => body.slots

/-- The slots in a list of types, from left to right. -/
def slotsList : List Ty → List KindSlot
  | [] => []
  | a :: args => a.slots ++ slotsList args
end

/-- No slot is empty. -/
def Filled (t : Ty) : Prop := ∀ slot ∈ t.slots, slot.isSome

/-- No slot in a list of types is empty. -/
def FilledList (args : List Ty) : Prop := ∀ slot ∈ slotsList args, slot.isSome

lemma filled_app {head : Ty} {args : List Ty} :
    (app head args).Filled ↔ head.Filled ∧ FilledList args :=
  List.forall_mem_append

lemma filledList_cons {a : Ty} {args : List Ty} :
    FilledList (a :: args) ↔ a.Filled ∧ FilledList args :=
  List.forall_mem_append

lemma filledList_iff {args : List Ty} : FilledList args ↔ ∀ a ∈ args, a.Filled := by
  induction args with
  | nil => simp [FilledList, slotsList]
  | cons a args ih => rw [filledList_cons, ih, List.forall_mem_cons]

/-- The second type is the first one with kinds recorded in some of its empty slots. -/
structure Records (t t' : Ty) : Prop where
  shape : t'.unslotted = t.unslotted
  slots : List.Forall₂ (fun slot slot' => ∀ k ∈ slot, k ∈ slot') t.slots t'.slots

mutual
lemma slots_fill : (t : Ty) → (kinds : List Kind) →
    List.Forall₂ (fun slot slot' => ∀ k ∈ slot, k ∈ slot') t.slots (t.fill kinds).1.slots
  | .con _ none, [] => .cons (fun _ h => h) .nil
  | .con _ none, _ :: _ => .cons (fun _ h => (by cases h)) .nil
  | .con _ (some _), _ => .cons (fun _ h => h) .nil
  | .var _ _ none, [] => .cons (fun _ h => h) .nil
  | .var _ _ none, _ :: _ => .cons (fun _ h => (by cases h)) .nil
  | .var _ _ (some _), _ => .cons (fun _ h => h) .nil
  | .app head args, kinds => List.rel_append (slots_fill head kinds) (slotsList_fillList args _)
  | .scheme _ body, kinds => slots_fill body kinds

lemma slotsList_fillList : (args : List Ty) → (kinds : List Kind) →
    List.Forall₂ (fun slot slot' => ∀ k ∈ slot, k ∈ slot') (slotsList args)
      (slotsList (fillList args kinds).1)
  | [], _ => .nil
  | a :: args, kinds => List.rel_append (slots_fill a kinds) (slotsList_fillList args _)
end

lemma records_fill (t : Ty) (kinds : List Kind) : t.Records (t.fill kinds).1 :=
  ⟨unslotted_fill t kinds, slots_fill t kinds⟩

lemma records_fillList (args : List Ty) (kinds : List Kind) :
    List.Forall₂ Records args (fillList args kinds).1 := by
  induction args generalizing kinds with
  | nil => exact .nil
  | cons a args ih => exact .cons (records_fill a kinds) (ih _)

end Ty

/-- The second datatype is the first one with kinds recorded in some of its empty slots. -/
structure Datatype.Records (d d' : Datatype) : Prop where
  head : d.head.Records d'.head
  constructors : List.Forall₂
    (fun c c' => c'.name = c.name ∧ List.Forall₂ Ty.Records c.fields c'.fields)
    d.constructors d'.constructors
  position : d'.position = d.position

lemma Datatype.records_fill (d : Datatype) (kinds : List Kind) : d.Records (d.fill kinds).1 := by
  refine ⟨d.head.records_fill kinds, ?_, rfl⟩
  show List.Forall₂ _ d.constructors (fillConstructors d.constructors (d.head.fill kinds).2).1
  generalize (d.head.fill kinds).2 = rest
  induction d.constructors generalizing rest with
  | nil => exact .nil
  | cons c constructors ih => exact .cons ⟨rfl, Ty.records_fillList c.fields rest⟩ (ih _)

/-! ### Filling all empty slots -/

namespace Ty

mutual
/-- With a kind for each empty slot no slot is left empty, and the kinds that remain are those over
and above. -/
lemma filled_fill : (t : Ty) → (kinds : List Kind) → t.vacancies.length ≤ kinds.length →
    (t.fill kinds).1.Filled ∧ (t.fill kinds).2.length + t.vacancies.length = kinds.length
  | .con _ none, k :: kinds, _ => ⟨List.forall_mem_singleton.2 rfl, rfl⟩
  | .con _ (some _), _, _ => ⟨List.forall_mem_singleton.2 rfl, rfl⟩
  | .var _ _ none, k :: kinds, _ => ⟨List.forall_mem_singleton.2 rfl, rfl⟩
  | .var _ _ (some _), _, _ => ⟨List.forall_mem_singleton.2 rfl, rfl⟩
  | .app head args, kinds, h => by
    rw [vacancies, List.length_append, List.length_map] at h ⊢
    obtain ⟨hhead, hrest⟩ := filled_fill head kinds (by omega)
    obtain ⟨hargs, hrest'⟩ := filledList_fill args 1 (head.fill kinds).2 (by omega)
    rw [fill_app]
    exact ⟨filled_app.2 ⟨hhead, hargs⟩, by dsimp only; omega⟩
  | .scheme vars body, kinds, h => by
    rw [vacancies, List.length_map] at h ⊢
    exact filled_fill body kinds h

lemma filledList_fill : (args : List Ty) → (i : Nat) → (kinds : List Kind) →
    (vacanciesFrom i args).length ≤ kinds.length → FilledList (fillList args kinds).1 ∧
      (fillList args kinds).2.length + (vacanciesFrom i args).length = kinds.length
  | [], _, _, _ => ⟨nofun, rfl⟩
  | a :: args, i, kinds, h => by
    rw [vacanciesFrom, List.length_append, List.length_map] at h ⊢
    obtain ⟨ha, hrest⟩ := filled_fill a kinds (by omega)
    obtain ⟨hargs, hrest'⟩ := filledList_fill args (i + 1) (a.fill kinds).2 (by omega)
    rw [fillList_cons]
    exact ⟨filledList_cons.2 ⟨ha, hargs⟩, by dsimp only; omega⟩
end

end Ty

/-- With the kinds recorded that the walk over a datatype came to, no slot of it is empty. -/
lemma Datatype.filled_fill {d : Datatype} {ctx : KindContext} {s s₁ : Kinding} {own : List Leaf}
    (hrun : d.kindConstraints ctx s = .ok own s₁) (settled : Kind → Kind) :
    ∀ t ∈ (d.fill (own.map fun leaf => settled leaf.kind)).1.types, t.Filled := by
  have hplaces := congrArg List.length (Datatype.places_kindConstraints hrun)
  rw [List.length_map] at hplaces
  have hfilled := (Ty.filledList_fill d.types 0 (own.map fun leaf => settled leaf.kind)
    (by rw [List.length_map, hplaces])).1
  rw [d.fillList_types] at hfilled
  exact Ty.filledList_iff.1 hfilled

/-! ### New kinds are closed -/

namespace Kind

lemma vars_close (k : Kind) : k.close.vars = [] := by
  have hfold : ∀ (vs : List KindVar) (k : Kind) (w : KindVar),
      w ∈ (vs.foldl (fun k v => Term.assign v Kind.atomic k) k).vars → w ∈ k.vars ∧ w ∉ vs := by
    intro vs
    induction vs with
    | nil => exact fun k w hw => ⟨hw, List.not_mem_nil⟩
    | cons v vs ih =>
      intro k w hw
      obtain ⟨hmem, hnot⟩ := ih _ w hw
      rcases Term.mem_vars_assign (T := Kind) hmem with ⟨hk, hne⟩ | hatomic
      · exact ⟨hk, List.not_mem_cons_of_ne_of_not_mem hne hnot⟩
      · cases hatomic
  refine List.eq_nil_iff_forall_not_mem.2 fun w hw => ?_
  obtain ⟨hmem, hnot⟩ := hfold _ k w hw
  exact hnot (List.mem_eraseDups.2 hmem)

end Kind

lemma Kinding.vars_settle {s : Kinding} {settled : Kind → Kind} (h : s.settle = .ok settled)
    (k : Kind) : (settled k).vars = [] := by
  rw [settle] at h
  split at h
  · cases h
  · cases h
    exact vars_close _

/-! ### Errors -/

/-- The errors that inference has, unlike recording kinds and reading them. -/
def KindError.ofInference : KindError → Bool
  | .alreadyAssigned _ _ | .unassigned _ | .overApplied _ => false
  | _ => true

lemma KindError.ofInference_of_ofWalk {e : KindError} (h : e.ofWalk) : e.ofInference := by
  cases e <;> first | rfl | cases h

lemma ofInference_explainKinds (bindings : List (KindVar × Kind))
    (unsolved : Unsolved Kind KindVar (Sited KindOrigin)) :
    (explainKinds bindings unsolved).item.ofInference := by
  fun_cases explainKinds bindings unsolved <;> rfl

lemma Kinding.ofInference_of_settle {s : Kinding} {e : Sited KindError} (h : s.settle = .error e) :
    e.item.ofInference := by
  rw [settle] at h
  split at h
  · cases h
    exact ofInference_explainKinds _ _
  · cases h

lemma ofInference_of_inferGroup {base : Scope Kind} {group : List Datatype} {e : Sited KindError}
    (h : inferGroup base group = .error e) : e.item.ofInference := by
  obtain hwalk | ⟨_, _, _, _, hsettle⟩ := inferGroup_eq_error h
  · exact KindError.ofInference_of_ofWalk hwalk
  · exact ofInference_of_settle hsettle

lemma ofInference_of_checkAscription {base : Scope Kind} {t : Ty} {e : KindError}
    (h : (checkAscription base t).2 = .error e) : e.ofInference := by
  obtain hwalk | ⟨_, _, _, _, _, _, _, hsettle⟩ := checkAscription_eq_error h
  · exact KindError.ofInference_of_ofWalk hwalk
  · exact ofInference_of_settle hsettle

/-! ### Ascriptions -/

/-- With the kinds recorded that are found for an ascription, no slot of it is empty, and the new
kinds are closed. -/
lemma filled_of_checkAscription {base : Scope Kind} {t : Ty} {found : List Kind}
    (h : (checkAscription base t).2 = .ok found) :
    (t.fill found).1.Filled ∧ ∀ k ∈ found, k.vars = [] := by
  obtain ⟨k, s, settled, hrun, hsettle, rfl⟩ := checkAscription_eq_ok h
  have hplaces := congrArg List.length (Ty.places_kindConstraints t hrun)
  simp only [Kinding.initial, List.map_nil, List.nil_append, List.length_map] at hplaces
  refine ⟨(Ty.filled_fill t _ (by rw [List.length_map, hplaces])).1, fun k hk => ?_⟩
  obtain ⟨leaf, -, rfl⟩ := List.mem_map.1 hk
  exact vars_settle hsettle leaf.kind

/-! ### Groups -/

section Groups

variable {base : Scope Kind} {pool : List Datatype} {members : List Nat}

lemma groupConstraints_runs {ds : List Datatype} {site : Nat} {s t : Kinding}
    {leaves : List (List Leaf)} (hrun : groupConstraints base ds site s = .ok leaves t) :
    List.Forall₂ (fun d own => ∃ ctx s₁ t₁, Datatype.kindConstraints ctx d s₁ = .ok own t₁) ds
      leaves := by
  induction ds generalizing site s leaves with
  | nil =>
    obtain ⟨rfl, -⟩ := groupConstraints_nil_eq_ok.1 hrun
    exact .nil
  | cons d ds ih =>
    obtain ⟨own, s₁, more, hd, hmore, rfl⟩ := groupConstraints_cons_eq_ok.1 hrun
    exact .cons ⟨_, s, s₁, hd⟩ (ih hmore)

/-- What is found for a group is found for each of its members. -/
lemma exists_own_of_mem {R : Datatype → List Leaf → Prop} {leaves : List (List Leaf)}
    (h : List.Forall₂ R (membersOf pool members) leaves) {i : Nat} (hi : i ∈ members) {d : Datatype}
    (hd : pool[i]? = some d) :
    ∃ own, (i, own) ∈ (positionsIn pool members).zip leaves ∧ R d own := by
  have hposition : i ∈ positionsIn pool members :=
    List.mem_filter.2 ⟨hi, decide_eq_true (List.getElem?_eq_some_iff.1 hd).1⟩
  have hlength : (positionsIn pool members).length = leaves.length :=
    (forall₂_positionsIn pool members).length_eq.trans h.length_eq
  obtain ⟨⟨_, own⟩, hown, rfl⟩ :=
    List.mem_map.1 ((List.map_fst_zip hlength.le).symm ▸ hposition)
  obtain ⟨d', hd', hR⟩ := forall_zip_positionsIn h _ hown
  cases hd.symm.trans hd'
  exact ⟨own, hown, hR⟩

/-- What inference for the members of a pool stands on, and what it records in each datatype. -/
lemma inferKinds_getElem? (hnodup : members.Nodup) {declared : Table Kind}
    (h : (inferKinds base pool members).2 = .ok declared) :
    ∃ leaves s settled,
      groupConstraints base (membersOf pool members) 0 (headsDeclared (membersOf pool members)) =
        .ok leaves s ∧
      s.settle = .ok settled ∧
      (∀ i ∉ members, (inferKinds base pool members).1[i]? = pool[i]?) ∧
      ∀ R, List.Forall₂ R (membersOf pool members) leaves →
        ∀ i ∈ members, ∀ d, pool[i]? = some d → ∃ own, R d own ∧
          (inferKinds base pool members).1[i]? =
            some (d.fill (own.map fun leaf => settled leaf.kind)).1 := by
  obtain ⟨found, hfound, -⟩ := (inferKinds_eq_ok hnodup).1 h
  obtain ⟨hheads, leaves, s, hrun⟩ := walk_of_inferGroup hfound
  have hsettled := hfound
  rw [inferGroup_run hheads hrun] at hsettled
  cases hsettle : s.settle with
  | error e =>
    rw [hsettle] at hsettled
    cases hsettled
  | ok settled =>
    rw [hsettle] at hsettled
    cases hsettled
    have hkeys := map_fst_zip_sublist (positionsIn pool members)
      (foundKinds (membersOf pool members) leaves settled).leaves
    have hdistinct := (hnodup.filter _).sublist hkeys
    refine ⟨leaves, s, settled, hrun, hsettle, fun i hi => ?_, fun R hR i hi d hd => ?_⟩
    · rw [inferKinds_of_ok hnodup hfound]
      exact (getElem?_fillMembers pool hdistinct i).2
        fun hmem => hi (List.mem_of_mem_filter (hkeys.subset hmem))
    · obtain ⟨own, hown, hR⟩ := exists_own_of_mem hR hi hd
      refine ⟨own, hR, ?_⟩
      have hmem : (i, own.map (Leaf.map settled)) ∈ (positionsIn pool members).zip
          (foundKinds (membersOf pool members) leaves settled).leaves := by
        rw [foundKinds, List.zip_map_right]
        exact List.mem_map.2 ⟨(i, own), hown, rfl⟩
      rw [inferKinds_of_ok hnodup hfound, (getElem?_fillMembers pool hdistinct i).1 _ hmem, hd,
        Option.map_some, List.map_map]
      rfl

end Groups

/-! ### Slots are written once -/

/-- No kind that is recorded in a type has a variable. -/
def Ty.Closed (t : Ty) : Prop := ∀ k ∈ t.recordedKinds, k.vars = []

/-- What is true of the kinds recorded in a datatype and of those to be recorded is true of all that
is recorded in the end. -/
lemma Datatype.recordedKinds_fill {P : Kind → Prop} {d : Datatype} {kinds : List Kind}
    (hd : ∀ t ∈ d.types, ∀ k ∈ t.recordedKinds, P k) (hkinds : ∀ k ∈ kinds, P k) :
    ∀ t ∈ (d.fill kinds).1.types, ∀ k ∈ t.recordedKinds, P k := by
  have hslots : ∀ k ∈ Ty.recordedKindsList d.types, P k := by
    intro k hk
    obtain ⟨t, ht, hk⟩ := Ty.mem_recordedKindsList.1 hk
    exact hd t ht k hk
  have hfilled := (Ty.recordedKindsList_fillList d.types hslots hkinds).1
  rw [d.fillList_types] at hfilled
  exact fun t ht k hk => hfilled k (Ty.mem_recordedKindsList.2 ⟨t, ht, hk⟩)

/-- The second type is the first one with kinds recorded in all its empty slots. No variable comes
in with them. -/
structure Ty.Completes (t t' : Ty) : Prop where
  records : t.Records t'
  filled : t'.Filled
  closed : t.Closed → t'.Closed

/-- The second datatype is the first one with kinds recorded in all its empty slots. No variable
comes in with them. -/
structure Datatype.Completes (d d' : Datatype) : Prop where
  records : d.Records d'
  filled : ∀ t ∈ d'.types, t.Filled
  closed : (∀ t ∈ d.types, t.Closed) → ∀ t ∈ d'.types, t.Closed

lemma KindError.ne_alreadyAssigned {e : KindError} (h : e.ofInference) (name : String) (k : Kind) :
    e ≠ .alreadyAssigned name k := by
  rintro rfl
  cases h

/-- Slots are written once, and by passes that succeed: no pass finds a slot filled that it is about
to write, a pass that fails has written nothing, and one that succeeds has filled all slots that
were empty and left the others alone. -/
theorem slots_written_once (base : Scope Kind) :
    (∀ pool members, members.Nodup →
      (∀ e, (inferKinds base pool members).2 = .error e →
        (∀ name k, e ≠ .alreadyAssigned name k) ∧ (inferKinds base pool members).1 = pool) ∧
      ∀ declared, (inferKinds base pool members).2 = .ok declared →
        (∀ i ∉ members, (inferKinds base pool members).1[i]? = pool[i]?) ∧
        ∀ i ∈ members, ∀ d, pool[i]? = some d →
          ∃ d', (inferKinds base pool members).1[i]? = some d' ∧ d.Completes d') ∧
    ∀ t,
      (∀ e, (checkAscription base t).2 = .error e →
        (∀ name k, e ≠ .alreadyAssigned name k) ∧ (checkAscription base t).1 = t) ∧
      ∀ found, (checkAscription base t).2 = .ok found →
        t.Completes (checkAscription base t).1 := by
  refine ⟨fun pool members hnodup => ⟨fun e he => ?_, fun declared hok => ?_⟩, fun t => ?_⟩
  · cases hfound : inferGroup base (membersOf pool members) with
    | error e' =>
      rw [inferKinds_of_error hfound] at he ⊢
      cases he
      exact ⟨KindError.ne_alreadyAssigned (ofInference_of_inferGroup hfound), rfl⟩
    | ok found =>
      rw [inferKinds_of_ok hnodup hfound] at he
      cases he
  · obtain ⟨leaves, s, settled, hrun, hsettle, hout, hin⟩ := inferKinds_getElem? hnodup hok
    refine ⟨hout, fun i hi d hd => ?_⟩
    obtain ⟨own, ⟨ctx, s₁, t₁, hwalk⟩, hd'⟩ := hin _ (groupConstraints_runs hrun) i hi d hd
    refine ⟨_, hd', d.records_fill _, Datatype.filled_fill hwalk settled, fun hclosed => ?_⟩
    refine Datatype.recordedKinds_fill hclosed fun k hk => ?_
    obtain ⟨leaf, -, rfl⟩ := List.mem_map.1 hk
    exact vars_settle hsettle leaf.kind
  · refine ⟨fun e he => ?_, fun found hok => ?_⟩
    · refine ⟨KindError.ne_alreadyAssigned (ofInference_of_checkAscription he), ?_⟩
      rw [checkAscription_of_error (inferAscription_of_error he)]
    · obtain ⟨hfilled, hclosed⟩ := filled_of_checkAscription hok
      rw [checkAscription_fst hok]
      exact ⟨t.records_fill found, hfilled, fun ht => (Ty.recordedKinds_fill t ht hclosed).1⟩

/-- Trees over a container of branches, of which the kind is recorded in one place. -/
def trees : List Datatype :=
  let f := Ty.var "f" .rigid
  let tree slot := Ty.app (.con "Tree" none) [f slot, .rigid "a"]
  [⟨tree (some (.ofArity 1)), [⟨"Node", [.rigid "a", .app (f none) [tree none]]⟩], {}⟩]

theorem slots_written_once_trees :
    (inferKinds .empty trees [0]).2.isOk = true ∧
      ∃ d d', trees[0]? = some d ∧ (inferKinds .empty trees [0]).1[0]? = some d' ∧
        d.Completes d' := by
  have hok : (inferKinds .empty trees [0]).2.isOk = true := by cbv
  refine ⟨hok, ?_⟩
  cases h : (inferKinds .empty trees [0]).2 with
  | ok declared =>
    obtain ⟨-, hmember⟩ := ((slots_written_once .empty).1 trees [0] (by decide)).2 declared h
    obtain ⟨d', hd', hcompletes⟩ := hmember 0 (by decide) _ rfl
    exact ⟨_, d', rfl, hd', hcompletes⟩
  | error e =>
    rw [h] at hok
    cases hok

-- Only the members' being distinct keeps the second round from slots that the first one filled.
example : (inferKinds .empty trees [0, 0]).2 =
    .error (.alreadyAssigned "Tree" (.arrow (.ofArity 1) (.ofArity 1))) := by cbv

end LetPoly
