import LetPoly.Proofs.Kinding.Groups

/-!
# Kinds recorded by place

The walk over a type takes note of its empty slots, each of them once and from left to right
(`Ty.places_kindConstraints`). So when the kinds that it came to are recorded place by place, each
of them finds its slot empty, and what comes of it is the type with all empty slots filled from
left to right (`Ty.recordLeaves_vacancies`). The same is true of datatypes and of the members of a
group, if none of them is listed twice.
-/

namespace LetPoly

open Kind Kinding Slotted

section Loop

variable {α β : Type} [Slotted α] [Slotted β] {a a' : α} {leaf : Leaf} {leaves leaves' : List Leaf}

lemma recordLeaves_cons_of_none (h : slotAt a leaf.place = none) :
    recordLeaves (leaf :: leaves) a = recordLeaves leaves (putSlot a leaf.place (some leaf.kind)) := by
  rw [recordLeaves, h]
  rfl

lemma recordLeaves_cons_of_some {k : Kind} (h : slotAt a leaf.place = some k) :
    recordLeaves (leaf :: leaves) a = (a, .error (.alreadyAssigned leaf.name k)) := by
  rw [recordLeaves, h]
  rfl

lemma recordLeaves_append (h : recordLeaves leaves a = (a', .ok ())) :
    recordLeaves (leaves ++ leaves') a = recordLeaves leaves' a' := by
  induction leaves generalizing a with
  | nil =>
    cases h
    rfl
  | cons leaf leaves ih =>
    rw [List.cons_append]
    cases hslot : slotAt a leaf.place with
    | none =>
      rw [recordLeaves_cons_of_none hslot] at h ⊢
      exact ih h
    | some k =>
      rw [recordLeaves_cons_of_some hslot] at h
      cases h

/-- There is one thing that can go wrong. -/
lemma recordLeaves_eq_error {e : KindError} (h : (recordLeaves leaves a).2 = .error e) :
    ∃ name k, e = .alreadyAssigned name k := by
  induction leaves generalizing a with
  | nil => cases h
  | cons leaf leaves ih =>
    cases hslot : slotAt a leaf.place with
    | none =>
      rw [recordLeaves_cons_of_none hslot] at h
      exact ih h
    | some k =>
      rw [recordLeaves_cons_of_some hslot] at h
      cases h
      exact ⟨leaf.name, k, rfl⟩

/-- The same node, found at another place. -/
def Leaf.moved (f : Place → Place) (leaf : Leaf) : Leaf := { leaf with place := f leaf.place }

lemma kinds_moved (f : Place → Place) (leaves : List Leaf) :
    (leaves.map (.moved f)).map Leaf.kind = leaves.map Leaf.kind :=
  List.map_map

/-- Leaves whose places are images are moved ones. -/
lemma exists_moved {f : Place → Place} {places : List Place}
    (h : leaves.map Leaf.place = places.map f) :
    ∃ own : List Leaf, leaves = own.map (.moved f) ∧ own.map Leaf.place = places := by
  induction places generalizing leaves with
  | nil => exact ⟨[], List.map_eq_nil_iff.1 h, rfl⟩
  | cons p places ih =>
    obtain ⟨leaf, leaves, rfl, hleaf, hleaves⟩ := List.map_eq_cons_iff.1 h
    obtain ⟨own, rfl, rfl⟩ := ih hleaves
    exact ⟨{ leaf with place := p } :: own, by rw [List.map_cons, Leaf.moved, ← hleaf], rfl⟩

/-- What is built from a part has its slots, the one at place `p` of the part at `f p`. -/
structure Embeds (build : β → α) (f : Place → Place) : Prop where
  slotAt_eq (b : β) (p : Place) : slotAt (build b) (f p) = slotAt b p
  putSlot_eq (b : β) (p : Place) (kind : KindSlot) :
    putSlot (build b) (f p) kind = build (putSlot b p kind)

/-- To record kinds in a part is to record them in the whole. -/
lemma Embeds.recordLeaves_eq {build : β → α} {f : Place → Place} (h : Embeds build f)
    (leaves : List Leaf) (b : β) : recordLeaves (leaves.map (.moved f)) (build b) =
      (build (recordLeaves leaves b).1, (recordLeaves leaves b).2) := by
  induction leaves generalizing b with
  | nil => rfl
  | cons leaf leaves ih =>
    have hslot' := h.slotAt_eq b leaf.place
    rw [List.map_cons]
    cases hslot : slotAt b leaf.place with
    | none =>
      rw [recordLeaves_cons_of_none hslot, ← ih, ← h.putSlot_eq]
      exact recordLeaves_cons_of_none (hslot'.trans hslot)
    | some k =>
      rw [recordLeaves_cons_of_some hslot]
      exact recordLeaves_cons_of_some (hslot'.trans hslot)

/-- Recording the kinds of leaves one by one succeeds and comes to the same as filling all empty
slots with them. -/
def FillsAll (fill : α → List Kind → α × List Kind) (leaves : List Leaf) (a a' : α) : Prop :=
  recordLeaves leaves a = (a', .ok ()) ∧
    ∀ rest, fill a (leaves.map Leaf.kind ++ rest) = (a', rest)

end Loop

/-! ### Types -/

/-- The same place below the next child. -/
def Place.shift : Place → Place
  | [] => []
  | i :: place => (i + 1) :: place

lemma embeds_first {α : Type} [Slotted α] (as : List α) : Embeds (fun a => a :: as) (0 :: ·) :=
  ⟨fun _ _ => rfl, fun _ _ _ => rfl⟩

lemma embeds_rest {α : Type} [Slotted α] (a : α) : Embeds (fun as => a :: as) Place.shift where
  slotAt_eq _
    | [] => rfl
    | _ :: _ => rfl
  putSlot_eq _
    | [], _ => rfl
    | _ :: _, _ => rfl

namespace Ty

lemma embeds_head (args : List Ty) : Embeds (fun head => Ty.app head args) (0 :: ·) :=
  ⟨fun _ _ => rfl, fun _ _ _ => rfl⟩

lemma embeds_args (head : Ty) : Embeds (fun args => Ty.app head args) Place.shift where
  slotAt_eq _
    | [] => rfl
    | _ :: _ => rfl
  putSlot_eq _
    | [], _ => rfl
    | _ :: _, _ => rfl

lemma embeds_body (vars : NameSet) : Embeds (fun body => Ty.scheme vars body) (0 :: ·) :=
  ⟨fun _ _ => rfl, fun _ _ _ => rfl⟩

mutual
/-- The places of the empty slots of a type, from left to right. -/
def vacancies : Ty → List Place
  | .con _ slot => if slot.isNone then [[]] else []
  | .var _ _ slot => if slot.isNone then [[]] else []
  | .app head args => head.vacancies.map (0 :: ·) ++ vacanciesFrom 1 args
  | .scheme _ body => body.vacancies.map (0 :: ·)

/-- The places of the empty slots of types that are children of one node, the first of them number
`i`. -/
def vacanciesFrom (i : Nat) : List Ty → List Place
  | [] => []
  | a :: args => a.vacancies.map (i :: ·) ++ vacanciesFrom (i + 1) args
end

lemma vacanciesFrom_succ (i : Nat) (args : List Ty) :
    vacanciesFrom (i + 1) args = (vacanciesFrom i args).map Place.shift := by
  induction args generalizing i with
  | nil => rfl
  | cons a args ih =>
    rw [vacanciesFrom, vacanciesFrom, ih, List.map_append, List.map_map]
    rfl

/-- What is recorded in a part and then in another one is recorded in the whole. -/
lemma fillsAll_parts {α β γ : Type} [Slotted α] [Slotted β] [Slotted γ]
    {fill : α → List Kind → α × List Kind} {fill' : β → List Kind → β × List Kind}
    {fillBoth : γ → List Kind → γ × List Kind} {join : α → β → γ} {f : Place → Place} {a : α} {b : β}
    {places places' : List Place} {leaves : List Leaf}
    (hfirst : ∀ b, Embeds (join · b) f) (hrest : ∀ a, Embeds (join a ·) Place.shift)
    (hfill : ∀ a b kinds, fillBoth (join a b) kinds =
      (join (fill a kinds).1 (fill' b (fill a kinds).2).1, (fill' b (fill a kinds).2).2))
    (ha : ∀ {own : List Leaf}, own.map Leaf.place = places → ∃ a', FillsAll fill own a a')
    (hb : ∀ {own : List Leaf}, own.map Leaf.place = places' → ∃ b', FillsAll fill' own b b')
    (hleaves : leaves.map Leaf.place = places.map f ++ places'.map Place.shift) :
    ∃ c, FillsAll fillBoth leaves (join a b) c := by
  obtain ⟨_, _, rfl, hown, hmore⟩ := List.map_eq_append_iff.1 hleaves
  obtain ⟨own, rfl, hplaces⟩ := exists_moved hown
  obtain ⟨more, rfl, hplaces'⟩ := exists_moved hmore
  obtain ⟨a', hrun, hfilled⟩ := ha hplaces
  obtain ⟨b', hrun', hfilled'⟩ := hb hplaces'
  refine ⟨join a' b', ?_, fun rest => ?_⟩
  · have hstep : recordLeaves (own.map (.moved f)) (join a b) = (join a' b, .ok ()) := by
      rw [(hfirst b).recordLeaves_eq own a, hrun]
    rw [recordLeaves_append hstep, (hrest a').recordLeaves_eq more b, hrun']
  · rw [hfill, List.map_append, kinds_moved, kinds_moved, List.append_assoc, hfilled, hfilled']

mutual
/-- The kinds of all empty slots are recorded without an error, and fill the type. -/
lemma exists_fillsAll : (t : Ty) → {leaves : List Leaf} → leaves.map Leaf.place = t.vacancies →
    ∃ t', FillsAll fill leaves t t'
  | .con name none, leaves, h => by
    obtain ⟨leaf, rfl, hplace⟩ := List.map_eq_singleton_iff.1 h
    refine ⟨.con name (some leaf.kind), ?_, fun _ => rfl⟩
    rw [recordLeaves_cons_of_none (by rw [hplace]; rfl), hplace]
    rfl
  | .con name (some k), leaves, h => by
    obtain rfl := List.map_eq_nil_iff.1 h
    exact ⟨.con name (some k), rfl, fun _ => by simp [fill]⟩
  | .var name sort none, leaves, h => by
    obtain ⟨leaf, rfl, hplace⟩ := List.map_eq_singleton_iff.1 h
    refine ⟨.var name sort (some leaf.kind), ?_, fun _ => rfl⟩
    rw [recordLeaves_cons_of_none (by rw [hplace]; rfl), hplace]
    rfl
  | .var name sort (some k), leaves, h => by
    obtain rfl := List.map_eq_nil_iff.1 h
    exact ⟨.var name sort (some k), rfl, fun _ => by simp [fill]⟩
  | .app head args, leaves, h => by
    rw [vacancies, vacanciesFrom_succ] at h
    exact fillsAll_parts embeds_head embeds_args fill_app (exists_fillsAll head)
      (exists_fillsAll_list args) h
  | .scheme vars body, leaves, h => by
    obtain ⟨own, rfl, hown⟩ := exists_moved h
    obtain ⟨body', hrun, hfilled⟩ := exists_fillsAll body hown
    refine ⟨.scheme vars body', ?_, fun rest => ?_⟩
    · rw [(embeds_body vars).recordLeaves_eq own body, hrun]
    · rw [fill_scheme, kinds_moved, hfilled]

lemma exists_fillsAll_list : (args : List Ty) → {leaves : List Leaf} →
    leaves.map Leaf.place = vacanciesFrom 0 args → ∃ args', FillsAll fillList leaves args args'
  | [], leaves, h => by
    obtain rfl := List.map_eq_nil_iff.1 h
    exact ⟨[], rfl, fun _ => rfl⟩
  | a :: args, leaves, h => by
    rw [vacanciesFrom, vacanciesFrom_succ] at h
    exact fillsAll_parts embeds_first embeds_rest fillList_cons (exists_fillsAll a)
      (exists_fillsAll_list args) h
end

/-! ### The walk -/

variable {ctx : KindContext}

lemma places_noted (s : Kinding) (place : Place) (name : String) (slot : KindSlot) (k : Kind) :
    (s.noted ctx place name slot k).leaves.map Leaf.place = s.leaves.map Leaf.place ++
      (if slot.isNone then [[]] else []).map (place ++ ·) := by
  cases slot with
  | none => simp [noted]
  | some _ => simp [noted, equated]

mutual
/-- The walk takes note of the empty slots, each of them once and from left to right. -/
lemma places_kindConstraints : (t : Ty) → {place : Place} → {s s' : Kinding} → {k : Kind} →
    t.kindConstraints ctx place s = .ok k s' →
    s'.leaves.map Leaf.place = s.leaves.map Leaf.place ++ t.vacancies.map (place ++ ·)
  | .con name slot, place, s, s', k, hrun => by
    obtain ⟨-, rfl⟩ := kindConstraints_con_eq_ok.1 hrun
    exact places_noted s place name slot k
  | .var name sort slot, place, s, s', k, hrun => by
    obtain ⟨s₁, hk, rfl⟩ := kindConstraints_var_eq_ok.1 hrun
    rcases variableKind_eq_ok.1 hk with ⟨-, rfl⟩ | ⟨-, -, -, rfl⟩
    · exact places_noted s place name slot k
    · exact places_noted (s.introduced name) place name slot k
  | .app head args, place, s, s', k, hrun => by
    rw [vacancies, List.map_append, List.map_map, ← List.append_assoc]
    by_cases harrow : head.isArrowConstructor ∧ args.length = 2
    · obtain ⟨headKind, s₁, hhead, hargs, -⟩ := (kindConstraints_arrow_eq_ok harrow).1 hrun
      rw [places_demandAtomic args hargs, places_kindConstraints head hhead]
      simp [Function.comp_def]
    · obtain ⟨headKind, s₁, kinds, s₂, hhead, hargs, -, rfl⟩ :=
        (kindConstraints_app_eq_ok harrow).1 hrun
      have hplaces : (applied ctx head headKind kinds s₂).leaves.map Leaf.place = _ :=
        (places_kindConstraintsList args hargs :)
      rw [hplaces, places_kindConstraints head hhead]
      simp [Function.comp_def]
  | .scheme vars body, place, s, s', k, hrun => by
    obtain ⟨bodyKind, s₁, hbody, -, rfl⟩ := kindConstraints_scheme_eq_ok.1 hrun
    have hplaces := places_kindConstraints body hbody
    rw [leaves_brought] at hplaces
    refine Eq.trans hplaces ?_
    simp [vacancies, Function.comp_def, entered]

lemma places_kindConstraintsList : (args : List Ty) → {place : Place} → {i : Nat} →
    {s s' : Kinding} → {kinds : List Kind} → kindConstraintsList ctx place i args s = .ok kinds s' →
    s'.leaves.map Leaf.place = s.leaves.map Leaf.place ++ (vacanciesFrom i args).map (place ++ ·)
  | [], _, _, s, s', kinds, hrun => by
    obtain ⟨-, rfl⟩ := kindConstraintsList_nil_eq_ok.1 hrun
    simp [vacanciesFrom]
  | a :: args, place, i, s, s', kinds, hrun => by
    obtain ⟨kind, s₁, rest, ha, hargs, -⟩ := kindConstraintsList_cons_eq_ok.1 hrun
    rw [places_kindConstraintsList args hargs, places_kindConstraints a ha]
    simp [vacanciesFrom, Function.comp_def]

lemma places_demandAtomic : (args : List Ty) → {place : Place} → {i : Nat} →
    {origin : KindOrigin} → {s s' : Kinding} → {u : Unit} →
    demandAtomic ctx origin place i args s = .ok u s' →
    s'.leaves.map Leaf.place = s.leaves.map Leaf.place ++ (vacanciesFrom i args).map (place ++ ·)
  | [], _, _, _, s, s', _, hrun => by
    obtain rfl := demandAtomic_nil_eq_ok.1 hrun
    simp [vacanciesFrom]
  | a :: args, place, i, origin, s, s', _, hrun => by
    obtain ⟨kind, s₁, ha, hargs⟩ := demandAtomic_cons_eq_ok.1 hrun
    have hequated : (s₁.equated ctx kind .atomic origin).leaves.map Leaf.place = _ :=
      (places_kindConstraints a ha :)
    rw [places_demandAtomic args hargs, hequated]
    simp [vacanciesFrom, Function.comp_def]
end

end Ty

/-! ### Datatypes -/

namespace Datatype

/-- All of a datatype but its types. -/
def shape (d : Datatype) : Span × List (String × Nat) :=
  (d.position, d.constructors.map fun c => (c.name, c.fields.length))

lemma eq_of_types {d d' : Datatype} (hshape : d.shape = d'.shape) (htypes : d.types = d'.types) :
    d = d' := by
  have hconstructors : ∀ cs cs' : List Constructor,
      cs.map (fun c => (c.name, c.fields.length)) = cs'.map (fun c => (c.name, c.fields.length)) →
      cs.flatMap (·.fields) = cs'.flatMap (·.fields) → cs = cs' := by
    intro cs
    induction cs with
    | nil => exact fun cs' h _ => (List.map_eq_nil_iff.1 h.symm).symm
    | cons c cs ih =>
      intro cs' h hfields
      obtain ⟨c', cs', rfl, hc, hcs⟩ := List.map_eq_cons_iff.1 h.symm
      obtain ⟨hname, hlength⟩ := Prod.mk.inj hc
      obtain ⟨hown, hmore⟩ := List.append_inj hfields hlength.symm
      obtain rfl : c = c' := by
        obtain ⟨name, fields⟩ := c
        obtain ⟨name', fields'⟩ := c'
        cases hname
        cases hown
        rfl
      rw [ih cs' hcs.symm hmore]
  obtain ⟨head, constructors, position⟩ := d
  obtain ⟨head', constructors', position'⟩ := d'
  obtain ⟨hposition, hnames⟩ := Prod.mk.inj hshape
  obtain ⟨hhead, hfields⟩ := List.cons.inj htypes
  cases hposition
  cases hhead
  cases hconstructors _ _ hnames hfields
  rfl

lemma shape_fill (d : Datatype) (kinds : List Kind) : (d.fill kinds).1.shape = d.shape := by
  have hconstructors : ∀ (cs : List Constructor) (kinds : List Kind),
      (fillConstructors cs kinds).1.map (fun c => (c.name, c.fields.length)) =
        cs.map fun c => (c.name, c.fields.length) := by
    intro cs
    induction cs with
    | nil => exact fun _ => rfl
    | cons c cs ih => intro kinds; simp [fillConstructors, Ty.length_fillList, ih]
  exact congrArg (d.position, ·) (hconstructors d.constructors _)

lemma shape_modifyType (f : Ty → Ty) (d : Datatype) (n : Nat) :
    (d.modifyType f n).shape = d.shape := by
  have hconstructors : ∀ (cs : List Constructor) (n : Nat),
      (modifyField f cs n).map (fun c => (c.name, c.fields.length)) =
        cs.map fun c => (c.name, c.fields.length) := by
    intro cs
    induction cs with
    | nil => exact fun _ => rfl
    | cons c cs ih =>
      intro n
      rw [modifyField]
      split
      · simp
      · simp [ih]
  cases n with
  | zero => rfl
  | succ n => exact congrArg (d.position, ·) (hconstructors d.constructors n)

lemma types_modifyType (f : Ty → Ty) (d : Datatype) (n : Nat) :
    (d.modifyType f n).types = d.types.modify n f := by
  have hconstructors : ∀ (cs : List Constructor) (n : Nat),
      (modifyField f cs n).flatMap (·.fields) = (cs.flatMap (·.fields)).modify n f := by
    intro cs
    induction cs with
    | nil => simp [modifyField]
    | cons c cs ih =>
      intro n
      rw [modifyField, List.flatMap_cons]
      refine List.ext_getElem? fun j => ?_
      split <;> grind
  cases n with
  | zero => rfl
  | succ n => exact congrArg (d.head :: ·) (hconstructors d.constructors n)

/-- Recording in a datatype is recording in its types. -/
lemma embeds_types : Embeds types id where
  slotAt_eq _ _ := rfl
  putSlot_eq d
    | [], _ => rfl
    | n :: place, kind => (d.types_modifyType (putSlot · place kind) n).symm

lemma shape_recordLeaves (leaves : List Leaf) (d : Datatype) :
    (recordLeaves leaves d).1.shape = d.shape := by
  induction leaves generalizing d with
  | nil => rfl
  | cons leaf leaves ih =>
    cases hslot : slotAt d leaf.place with
    | some k => rw [recordLeaves_cons_of_some hslot]
    | none =>
      rw [recordLeaves_cons_of_none hslot, ih]
      cases leaf.place with
      | nil => rfl
      | cons n place => exact d.shape_modifyType _ n

/-- The kinds of all empty slots are recorded without an error, and fill the datatype. -/
lemma exists_fillsAll {d : Datatype} {leaves : List Leaf}
    (h : leaves.map Leaf.place = Ty.vacanciesFrom 0 d.types) :
    ∃ d', FillsAll fill leaves d d' := by
  obtain ⟨types', hrun, hfilled⟩ := Ty.exists_fillsAll_list d.types h
  have hmoved : leaves.map (.moved id) = leaves := List.map_id _
  have hrun' := embeds_types.recordLeaves_eq leaves d
  rw [hmoved, hrun, Prod.mk.injEq] at hrun'
  refine ⟨(recordLeaves leaves d).1, Prod.ext rfl hrun'.2.symm, fun rest => ?_⟩
  have hfilled := hfilled rest
  rw [fillList_types, Prod.mk.injEq] at hfilled
  refine Prod.ext (eq_of_types ?_ (hfilled.1.trans hrun'.1)) hfilled.2
  rw [shape_fill, shape_recordLeaves]

lemma places_kindConstraints {d : Datatype} {ctx : KindContext} {s s' : Kinding}
    {leaves : List Leaf} (h : d.kindConstraints ctx s = .ok leaves s') :
    leaves.map Leaf.place = Ty.vacanciesFrom 0 d.types := by
  obtain ⟨s₁, hwalk, rfl, -⟩ := kindConstraints_eq_ok.1 h
  rw [Ty.places_demandAtomic d.types hwalk, opened, leaves_brought]
  simp [entered, cleared]

end Datatype

/-! ### Groups -/

/-- In a pool, the datatypes are the children of the root. -/
lemma embeds_set {pool : List Datatype} {i : Nat} (h : i < pool.length) :
    Embeds (fun d => pool.set i d) (i :: ·) where
  slotAt_eq d p := by
    show (pool.set i d)[i]?.bind (slotAt · p) = slotAt d p
    rw [List.getElem?_set_self h, Option.bind_some]
  putSlot_eq d p kind := by
    show (pool.set i d).modify i (putSlot · p kind) = pool.set i (putSlot d p kind)
    refine List.ext_getElem? fun j => ?_
    grind

/-- Fill datatypes of a pool, each with the kinds of its own leaves. -/
def fillMembers (pool : List Datatype) (members : List (Nat × List Leaf)) : List Datatype :=
  members.foldl (fun pool member =>
    pool.modify member.1 fun d => (d.fill (member.2.map Leaf.kind)).1) pool

/-- The kinds of the members of a pool are recorded without an error, and fill them. -/
lemma recordLeaves_members {pool : List Datatype} {members : List (Nat × List Leaf)}
    (hnodup : (members.map Prod.fst).Nodup)
    (h : ∀ member ∈ members, ∃ d, pool[member.1]? = some d ∧
      member.2.map Leaf.place = Ty.vacanciesFrom 0 d.types) :
    recordLeaves (members.flatMap fun (i, own) => own.map (·.under i)) pool =
      (fillMembers pool members, .ok ()) := by
  induction members generalizing pool with
  | nil => rfl
  | cons member members ih =>
    obtain ⟨i, own⟩ := member
    obtain ⟨⟨d, hd, hplaces⟩, hmembers⟩ := List.forall_mem_cons.1 h
    obtain ⟨hi, hnodup⟩ := List.nodup_cons.1 hnodup
    obtain ⟨hlt, rfl⟩ := List.getElem?_eq_some_iff.1 hd
    obtain ⟨d', hrun, hfilled⟩ := Datatype.exists_fillsAll hplaces
    have hfill : (pool[i].fill (own.map Leaf.kind)).1 = d' := by
      rw [← List.append_nil (own.map _), hfilled]
    have hset : pool.modify i (fun d => (d.fill (own.map Leaf.kind)).1) = pool.set i d' := by
      refine List.ext_getElem? fun j => ?_
      grind
    have hstep : recordLeaves (own.map (·.under i)) pool = (pool.set i d', .ok ()) := by
      have := (embeds_set hlt).recordLeaves_eq own pool[i]
      rwa [List.set_getElem_self, hrun] at this
    rw [List.flatMap_cons, recordLeaves_append hstep, fillMembers, List.foldl_cons, hset]
    refine ih hnodup fun member hmember => ?_
    obtain ⟨e, he, hplaces'⟩ := hmembers member hmember
    have hne : i ≠ member.1 := fun h => hi (List.mem_map.2 ⟨member, hmember, h.symm⟩)
    exact ⟨e, by rwa [List.getElem?_set_ne hne], hplaces'⟩

lemma places_groupConstraints {base : Scope Kind} {ds : List Datatype} {site : Nat}
    {s s' : Kinding} {leaves : List (List Leaf)}
    (h : groupConstraints base ds site s = .ok leaves s') :
    List.Forall₂ (fun d own => own.map Leaf.place = Ty.vacanciesFrom 0 d.types) ds leaves := by
  induction ds generalizing site s leaves with
  | nil =>
    obtain ⟨rfl, -⟩ := groupConstraints_nil_eq_ok.1 h
    exact .nil
  | cons d ds ih =>
    obtain ⟨own, s₁, more, hd, hmore, rfl⟩ := groupConstraints_cons_eq_ok.1 h
    exact .cons (Datatype.places_kindConstraints hd) (ih hmore)

/-- What is found for a group has the places of its empty slots. -/
lemma places_inferGroup {base : Scope Kind} {group : List Datatype} {found : GroupKinds}
    (h : inferGroup base group = .ok found) :
    List.Forall₂ (fun d own => own.map Leaf.place = Ty.vacanciesFrom 0 d.types) group
      found.leaves := by
  rw [inferGroup] at h
  split at h
  · cases h
  · next heads leaves s hwalk =>
    obtain ⟨_, _, -, hrest⟩ := bind_eq_ok.1 hwalk
    obtain ⟨leaves', s', hgroup, hpure⟩ := bind_eq_ok.1 hrest
    obtain ⟨hpair, rfl⟩ := pure_eq_ok.1 hpure
    cases hpair
    cases hsettle : s'.settle with
    | error e =>
      rw [hsettle] at h
      cases h
    | ok settled =>
      rw [hsettle] at h
      cases h
      rw [List.forall₂_map_right_iff]
      refine (places_groupConstraints hgroup).imp fun d own hown => ?_
      rw [List.map_map]
      exact hown

/-- The datatypes of a pool at the positions of a list. -/
def membersOf (pool : List Datatype) (members : List Nat) : List Datatype :=
  members.filterMap (pool[·]?)

/-- The positions of a list that are positions in a pool. -/
def positionsIn (pool : List Datatype) (members : List Nat) : List Nat :=
  members.filter (· < pool.length)

lemma positionsIn_of_forall {pool : List Datatype} {members : List Nat}
    (h : ∀ i ∈ members, i < pool.length) : positionsIn pool members = members :=
  List.filter_eq_self.2 fun i hi => decide_eq_true (h i hi)

lemma forall₂_positionsIn (pool : List Datatype) (members : List Nat) :
    List.Forall₂ (fun i d => pool[i]? = some d) (positionsIn pool members)
      (membersOf pool members) := by
  induction members with
  | nil => exact .nil
  | cons i members ih =>
    rw [positionsIn, membersOf, List.filter_cons]
    by_cases h : i < pool.length
    · rw [if_pos (decide_eq_true h), List.filterMap_cons_some (List.getElem?_eq_getElem h)]
      exact .cons (List.getElem?_eq_getElem h) ih
    · rw [if_neg (by simpa using h),
        List.filterMap_cons_none (List.getElem?_eq_none (Nat.le_of_not_lt h))]
      exact ih

/-- What is true of the datatypes of a group and of what is found for them is true of the datatypes
at the positions of its members. -/
lemma forall_zip_positionsIn {R : Datatype → List Leaf → Prop} {pool : List Datatype}
    {members : List Nat} {leaves : List (List Leaf)}
    (h : List.Forall₂ R (membersOf pool members) leaves) :
    ∀ member ∈ (positionsIn pool members).zip leaves,
      ∃ d, pool[member.1]? = some d ∧ R d member.2 := by
  have hpositions := forall₂_positionsIn pool members
  generalize positionsIn pool members = positions, membersOf pool members = group at *
  induction hpositions generalizing leaves with
  | nil => simp
  | cons hd _ ih =>
    cases h with
    | cons hown hmore => exact List.forall_mem_cons.2 ⟨⟨_, hd, hown⟩, ih hmore⟩

lemma map_fst_zip_sublist {α β : Type} (l : List α) (l' : List β) :
    List.Sublist ((l.zip l').map Prod.fst) l := by
  induction l generalizing l' with
  | nil => simp
  | cons a l ih =>
    cases l' with
    | nil => simp
    | cons b l' => simpa using ih l'

section Record

variable {base : Scope Kind} {pool : List Datatype} {members : List Nat}

/-- The kinds found for a group that lists no datatype twice are recorded without an error. -/
lemma recordGroup_of_ok {found : GroupKinds} (hnodup : members.Nodup)
    (h : inferGroup base (membersOf pool members) = .ok found) : recordGroup base pool members =
      (fillMembers pool ((positionsIn pool members).zip found.leaves), .ok found) := by
  have hmembers := forall_zip_positionsIn (places_inferGroup h)
  have hkeys : (((positionsIn pool members).zip found.leaves).map Prod.fst).Nodup :=
    (hnodup.filter _).sublist (map_fst_zip_sublist ..)
  have hrecord := recordLeaves_members hkeys hmembers
  rw [recordGroup, ← membersOf, h]
  simp only
  rw [GroupKinds.placed, ← positionsIn, hrecord]

lemma recordGroup_of_error {e : Sited KindError}
    (h : inferGroup base (membersOf pool members) = .error e) :
    recordGroup base pool members = (pool, .error e) := by
  rw [recordGroup, ← membersOf, h]

lemma inferKinds_of_ok {found : GroupKinds} (hnodup : members.Nodup)
    (h : inferGroup base (membersOf pool members) = .ok found) : inferKinds base pool members =
      (fillMembers pool ((positionsIn pool members).zip found.leaves), .ok found.declared) := by
  rw [inferKinds, recordGroup_of_ok hnodup h]

lemma inferKinds_of_error {e : Sited KindError}
    (h : inferGroup base (membersOf pool members) = .error e) :
    inferKinds base pool members = (pool, .error e.item) := by
  rw [inferKinds, recordGroup_of_error h]

lemma inferKinds_eq_ok (hnodup : members.Nodup) {declared : Table Kind} :
    (inferKinds base pool members).2 = .ok declared ↔
      ∃ found, inferGroup base (membersOf pool members) = .ok found ∧ found.declared = declared := by
  cases h : inferGroup base (membersOf pool members) with
  | error e => simp [inferKinds_of_error h]
  | ok found => simp [inferKinds_of_ok hnodup h]

end Record

/-! ### A group by itself -/

/-- Filling each datatype of a group with its own kinds is filling them one after the other. -/
lemma fillMembers_range {group : List Datatype} {leaves : List (List Leaf)}
    (h : List.Forall₂ (fun d own => own.map Leaf.place = Ty.vacanciesFrom 0 d.types) group leaves) :
    fillMembers group ((List.range group.length).zip leaves) =
      (fillDatatypes group (leaves.flatten.map Leaf.kind)).1 := by
  have hfrom : ∀ filled : List Datatype,
      fillMembers (filled ++ group) ((List.range' filled.length group.length).zip leaves) =
        filled ++ (fillDatatypes group (leaves.flatten.map Leaf.kind)).1 := by
    induction h with
    | nil => simp [fillMembers, fillDatatypes]
    | @cons d own ds more hown _ ih =>
      intro filled
      obtain ⟨d', -, hfill⟩ := Datatype.exists_fillsAll hown
      have hown' : (d.fill (own.map Leaf.kind)).1 = d' := by
        rw [← List.append_nil (own.map _), hfill]
      have hmodify : (filled ++ d :: ds).modify filled.length
          (fun d => (d.fill (own.map Leaf.kind)).1) = (filled ++ [d']) ++ ds := by
        refine List.ext_getElem? fun j => ?_
        grind
      have hrest := ih (filled ++ [d'])
      rw [List.length_append, List.length_singleton] at hrest
      rw [List.length_cons, List.range'_succ, List.zip_cons_cons, fillMembers, List.foldl_cons,
        hmodify, ← fillMembers, hrest, List.flatten_cons, List.map_append,
        fillDatatypes_cons (hfill _) rfl, List.append_assoc]
      rfl
  have hall := hfrom []
  rwa [List.nil_append, List.nil_append, List.length_nil, ← List.range_eq_range'] at hall

section Group

variable {base : Scope Kind} {group : List Datatype}

lemma membersOf_range (group : List Datatype) : membersOf group (.range group.length) = group := by
  induction group with
  | nil => rfl
  | cons d group ih =>
    rw [membersOf, List.length_cons, List.range_succ_eq_map,
      List.filterMap_cons_some (List.getElem?_cons_zero ..), List.filterMap_map]
    exact congrArg (d :: ·) ih

lemma recordGroup_range_of_ok {found : GroupKinds} (h : inferGroup base group = .ok found) :
    recordGroup base group (.range group.length) =
      ((fillDatatypes group found.recorded).1, .ok found) := by
  rw [recordGroup_of_ok List.nodup_range ((membersOf_range group).symm ▸ h),
    positionsIn_of_forall fun i hi => List.mem_range.1 hi, fillMembers_range (places_inferGroup h),
    GroupKinds.recorded]

lemma recordGroup_range_of_error {e : Sited KindError} (h : inferGroup base group = .error e) :
    recordGroup base group (.range group.length) = (group, .error e) :=
  recordGroup_of_error ((membersOf_range group).symm ▸ h)

end Group

/-! ### Ascriptions -/

section Ascriptions

variable {scope : Scope Kind} {t : Ty} {leaves : List Leaf} {found : List Kind}

lemma inferAscription_eq_ok (h : inferAscription scope t = .ok leaves) :
    ∃ k s settled, t.kindConstraints ⟨scope, .introduce, none⟩ [] .initial = .ok k s ∧
      (s.equated ⟨scope, .introduce, none⟩ k .atomic .ascription).settle = .ok settled ∧
      leaves = s.leaves.map (.map settled) := by
  rw [inferAscription] at h
  split at h
  · cases h
  · next hwalk =>
    obtain ⟨k, s, hrun, hequate⟩ := bind_eq_ok.1 hwalk
    cases hequate
    split at h
    · cases h
    · next settled hsettle =>
      cases h
      exact ⟨k, s, settled, hrun, hsettle, rfl⟩

/-- The kinds found for an ascription are recorded without an error. -/
lemma checkAscription_of_ok (h : inferAscription scope t = .ok leaves) : checkAscription scope t =
    ((t.fill (leaves.map Leaf.kind)).1, .ok (leaves.map Leaf.kind)) := by
  obtain ⟨k, s, settled, hrun, -, hleaves⟩ := inferAscription_eq_ok h
  have hplaces : leaves.map Leaf.place = t.vacancies := by
    rw [hleaves, List.map_map]
    refine (Ty.places_kindConstraints t hrun).trans ?_
    simp [Kinding.initial]
  obtain ⟨t', hrecord, hfill⟩ := t.exists_fillsAll hplaces
  have hfilled := hfill []
  rw [List.append_nil] at hfilled
  rw [checkAscription, h]
  simp only [hrecord, hfilled]
  rfl

lemma checkAscription_of_error {e : KindError} (h : inferAscription scope t = .error e) :
    checkAscription scope t = (t, .error e) := by
  rw [checkAscription, h]

lemma inferAscription_of_ok (h : (checkAscription scope t).2 = .ok found) :
    ∃ leaves, inferAscription scope t = .ok leaves ∧ found = leaves.map Leaf.kind := by
  cases hinfer : inferAscription scope t with
  | error e =>
    rw [checkAscription_of_error hinfer] at h
    cases h
  | ok leaves =>
    rw [checkAscription_of_ok hinfer] at h
    cases h
    exact ⟨leaves, rfl, rfl⟩

lemma inferAscription_of_error {e : KindError} (h : (checkAscription scope t).2 = .error e) :
    inferAscription scope t = .error e := by
  cases hinfer : inferAscription scope t with
  | error e' =>
    rw [checkAscription_of_error hinfer] at h
    cases h
    rfl
  | ok leaves =>
    rw [checkAscription_of_ok hinfer] at h
    cases h

/-- A checked ascription has the kinds found in its empty slots. -/
lemma checkAscription_fst (h : (checkAscription scope t).2 = .ok found) :
    (checkAscription scope t).1 = (t.fill found).1 := by
  obtain ⟨leaves, hinfer, rfl⟩ := inferAscription_of_ok h
  rw [checkAscription_of_ok hinfer]

/-- What a checked ascription stands on. -/
lemma checkAscription_eq_ok (h : (checkAscription scope t).2 = .ok found) :
    ∃ k s settled, t.kindConstraints ⟨scope, .introduce, none⟩ [] .initial = .ok k s ∧
      (s.equated ⟨scope, .introduce, none⟩ k .atomic .ascription).settle = .ok settled ∧
      found = s.leaves.map fun leaf => settled leaf.kind := by
  obtain ⟨leaves, hinfer, rfl⟩ := inferAscription_of_ok h
  obtain ⟨k, s, settled, hrun, hsettle, rfl⟩ := inferAscription_eq_ok hinfer
  exact ⟨k, s, settled, hrun, hsettle, List.map_map⟩

end Ascriptions

end LetPoly
