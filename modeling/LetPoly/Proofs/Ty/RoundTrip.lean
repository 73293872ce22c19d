import LetPoly.Proofs.Ty.Canonical
import LetPoly.Proofs.Ty.Quantification

/-!
# Closing and opening types

Closing an instance of a closed scheme gives the scheme back, up to the names of what it binds. In
the other direction an instance of the closure of a type is the type itself with other names for the
variables that are not fixed. Both hold for flat types, and for all distinct names to be put in.

A canonical form does not depend on the names that stand for the variables in a body
(`Scheme.canonical_of_puts`). That is why the letters that closing an instance gives are those of
the scheme.
-/

namespace LetPoly

/-! ### Names in the place of names -/

/-- The name in `names` at the place that a name has in `vars`. -/
def standIn (vars names : List String) (x : String) : String := (names[vars.idxOf x]?).getD x

section StandIn

variable {vars names : List String}

lemma getElem?_idxOf (hlen : names.length = vars.length) {x : String} (hx : x ∈ vars) :
    names[vars.idxOf x]? = some (standIn vars names x) := by
  have hi : vars.idxOf x < names.length := hlen ▸ List.idxOf_lt_length_of_mem hx
  rw [standIn, List.getElem?_eq_getElem hi, Option.getD_some]

lemma standIn_mem (hlen : names.length = vars.length) {x : String} (hx : x ∈ vars) :
    standIn vars names x ∈ names :=
  List.mem_of_getElem? (getElem?_idxOf hlen hx)

lemma standIn_inj (hlen : names.length = vars.length) (hnames : names.Nodup) {x y : String}
    (hx : x ∈ vars) (hy : y ∈ vars) (h : standIn vars names x = standIn vars names y) : x = y := by
  refine (List.idxOf_inj hx).1 ((List.getElem?_inj ?_ hnames).1 ?_)
  · rw [hlen]
    exact List.idxOf_lt_length_of_mem hx
  · rw [getElem?_idxOf hlen hx, getElem?_idxOf hlen hy, h]

lemma substOf_zip_map (hvars : vars.Nodup) (hlen : names.length = vars.length)
    (mk : String → Ty) (x : String) : substOf (vars.zip (names.map mk)) x =
      if x ∈ vars then some (mk (standIn vars names x)) else none := by
  rw [substOf_zip hvars (by rw [List.length_map, hlen])]
  split
  · rename_i hx
    rw [List.getElem?_map, getElem?_idxOf hlen hx, Option.map_some]
  · rfl

end StandIn

namespace Ty

/-- A solvable variable of unknown kind. -/
def solvable (name : String) : Ty := .var name .solvable none

/-- The names that a type quantifies over. -/
def boundNames : Ty → List String
  | .scheme vars _ => vars.names
  | _ => []

/-- The instance of a type with solvable variables of the given names for what it quantifies over. A
type that is not quantified stands for itself. -/
def opened (t : Ty) (names : List String) : Ty :=
  match t with
  | .scheme vars body => Scheme.instantiate ⟨vars, body⟩ (names.map solvable)
  | t => t

/-! ### One substitution after the other -/

lemma apply_append (head : Ty) (as bs : List Ty) :
    apply (apply head as) bs = apply head (as ++ bs) := by
  cases as with
  | nil => rfl
  | cons a as =>
    cases bs with
    | nil => rw [List.append_nil]; rfl
    | cons b bs =>
      cases head with
      | app head first => simp [apply]
      | con _ _ => rfl
      | var _ _ _ => rfl
      | scheme _ _ => rfl

lemma substAllList_append (σ : String → Option Ty) (as bs : List Ty) :
    substAllList σ (as ++ bs) = substAllList σ as ++ substAllList σ bs := by
  induction as with
  | nil => rfl
  | cons a as ih => rw [List.cons_append, substAllList, substAllList, ih, List.cons_append]

lemma substAll_apply (σ : String → Option Ty) (head : Ty) (args : List Ty) :
    substAll σ (apply head args) = apply (substAll σ head) (substAllList σ args) := by
  cases args with
  | nil => rfl
  | cons a args =>
    cases head with
    | app head first =>
      show substAll σ (.app head (first ++ a :: args)) = _
      rw [substAll, substAll, substAllList_append, apply_append]
    | con _ _ => rfl
    | var _ _ _ => rfl
    | scheme _ _ => rfl

section Composition

variable {σ τ υ : String → Option Ty}

mutual
/-- Two substitutions after each other are a third one if they are so on variables. -/
lemma substAll_substAll : (t : Ty) → t.isFlat →
    (∀ x ∈ t.occurrences, ∀ sort slot,
      substAll τ (substAll σ (.var x sort slot)) = substAll υ (.var x sort slot)) →
    substAll τ (substAll σ t) = substAll υ t
  | .con _ _, _, _ => rfl
  | .var x sort slot, _, h => h x (List.mem_singleton_self x) sort slot
  | .app head args, hflat, h => by
    obtain ⟨hatom, -, hargs⟩ := isFlat_app.1 hflat
    rw [substAll, substAll_apply,
      substAll_substAll head (isFlat_of_isAtom hatom) fun x hx => h x (List.mem_append_left _ hx),
      substAllList_substAllList args hargs fun x hx => h x (List.mem_append_right _ hx), ← substAll]
  | .scheme _ _, hflat, _ => by simp [isFlat] at hflat

lemma substAllList_substAllList : (args : List Ty) → (∀ a ∈ args, a.isFlat) →
    (∀ x ∈ occurrencesList args, ∀ sort slot,
      substAll τ (substAll σ (.var x sort slot)) = substAll υ (.var x sort slot)) →
    substAllList τ (substAllList σ args) = substAllList υ args
  | [], _, _ => rfl
  | a :: args, hflat, h => by
    rw [substAllList, substAllList, substAllList,
      substAll_substAll a (hflat a List.mem_cons_self) fun x hx => h x (List.mem_append_left _ hx),
      substAllList_substAllList args (fun b hb => hflat b (List.mem_cons_of_mem _ hb))
        fun x hx => h x (List.mem_append_right _ hx)]
end

end Composition

/-! ### Variables in the place of variables -/

/-- Of the names in a list, a substitution puts a variable named `f x` in `ws` for each `x` in `vs`.
The others are not in `ws` and stay. -/
def Puts (σ : String → Option Ty) (f : String → String) (vs ws : NameSet) (l : List String) :
    Prop :=
  ∀ x ∈ l, (x ∈ vs ∧ f x ∈ ws ∧ ∃ sort slot, σ x = some (.var (f x) sort slot)) ∨
    (x ∉ vs ∧ x ∉ ws ∧ σ x = none)

section Puts

variable {σ : String → Option Ty} {f : String → String} {vs ws : NameSet}

lemma Puts.isAtom {head : Ty} (h : Puts σ f vs ws head.occurrences) (hatom : head.isAtom) :
    (substAll σ head).isAtom := by
  cases head with
  | con _ _ => rfl
  | var x sort slot =>
    rw [substAll]
    rcases h x (List.mem_singleton_self x) with ⟨-, -, sort', slot', hx⟩ | ⟨-, -, hx⟩
    · rw [hx]
      rfl
    · rw [hx]
      rfl
  | app _ _ => cases hatom
  | scheme _ _ => cases hatom

mutual
lemma Puts.carries : {t : Ty} → Puts σ f vs ws t.occurrences → t.isFlat →
    t.Carries f vs ws (substAll σ t)
  | .con _ _, _, _ => by rw [substAll, Carries]
  | .var x sort slot, h, _ => by
    rw [substAll]
    rcases h x (List.mem_singleton_self x) with ⟨hvs, hws, sort', slot', hx⟩ | ⟨hvs, hws, hx⟩
    · rw [hx, Option.getD_some, Carries]
      exact .inl ⟨hvs, hws, rfl⟩
    · rw [hx, Option.getD_none, Carries]
      exact .inr ⟨hvs, hws, rfl, rfl⟩
  | .app head args, h, hflat => by
    obtain ⟨hatom, hne, hargs⟩ := isFlat_app.1 hflat
    have hhead : Puts σ f vs ws head.occurrences := fun x hx => h x (List.mem_append_left _ hx)
    have hrest : Puts σ f vs ws (occurrencesList args) :=
      fun x hx => h x (List.mem_append_right _ hx)
    rw [substAll_app_of_isAtom (hhead.isAtom hatom) hne, Carries]
    exact ⟨hhead.carries (isFlat_of_isAtom hatom), hrest.carriesList hargs⟩
  | .scheme _ _, _, hflat => by simp [isFlat] at hflat

lemma Puts.carriesList : {args : List Ty} → Puts σ f vs ws (occurrencesList args) →
    (∀ a ∈ args, a.isFlat) → CarriesList f vs ws args (substAllList σ args)
  | [], _, _ => by rw [substAllList, CarriesList]; trivial
  | a :: args, h, hflat => by
    have ha : Puts σ f vs ws a.occurrences := fun x hx => h x (List.mem_append_left _ hx)
    have hrest : Puts σ f vs ws (occurrencesList args) :=
      fun x hx => h x (List.mem_append_right _ hx)
    rw [substAllList, CarriesList]
    exact ⟨ha.carries (hflat a List.mem_cons_self),
      hrest.carriesList fun b hb => hflat b (List.mem_cons_of_mem _ hb)⟩
end

end Puts

end Ty

/-! ### Canonical forms -/

namespace Scheme

lemma letterFor_eq_standIn (s : Scheme) (x : String) : s.letterFor x =
    if x ∈ s.usedVars then some (.rigid (standIn s.usedVars s.letters x)) else none :=
  substOf_zip_map s.nodup_usedVars s.length_letters Ty.rigid x

lemma letterFor_of_not_mem {s : Scheme} {x : String} (h : x ∉ s.vars) : s.letterFor x = none :=
  s.letterFor_eq_none fun hused => h (mem_usedVars.1 hused).2

/-- The canonical form looks at which variables of the body are bound, not at their order. -/
lemma canonical_congr {vs ws : NameSet} {body : Ty}
    (h : ∀ x ∈ body.occurrences, x ∈ vs ↔ x ∈ ws) :
    (Scheme.mk vs body).canonical = (Scheme.mk ws body).canonical := by
  have hbound : body.freeVars.names.filter (· ∈ vs) = body.freeVars.names.filter (· ∈ ws) :=
    List.filter_congr fun x hx => decide_eq_decide.2 (h x (List.mem_eraseDups.1 hx))
  have hfree : body.freeVars.names.filter (· ∉ vs) = body.freeVars.names.filter (· ∉ ws) :=
    List.filter_congr fun x hx => decide_eq_decide.2 (h x (List.mem_eraseDups.1 hx)).not
  simp only [canonical, hbound, hfree]

/-- Bodies that differ in the variables that stand for the bound ones have one canonical form. -/
lemma canonical_of_puts {s t : Scheme} {σ : String → Option Ty} {f : String → String}
    (hs : s.body.isFlat) (hputs : Ty.Puts σ f s.vars t.vars s.body.occurrences)
    (ht : t.body = s.body.substAll σ)
    (hinj : ∀ x ∈ s.usedVars, ∀ y ∈ s.usedVars, f x = f y → x = y) :
    t.canonical = s.canonical := by
  have hbody : s.body.Carries f s.vars t.vars t.body := ht ▸ hputs.carries hs
  have hsubst : t.body.substAll t.letterFor = s.body.substAll s.letterFor := by
    rw [ht]
    refine Ty.substAll_substAll _ hs fun x hx sort slot => ?_
    rcases hputs x hx with ⟨hvs, -, sort', slot', hsome⟩ | ⟨hvs, hws, hnone⟩
    · obtain ⟨y, -, hy⟩ := letterFor_isSome (mem_usedVars.2 ⟨hx, hvs⟩)
      have hy' := letterFor_of_carries hbody hinj (mem_usedVars.2 ⟨hx, hvs⟩)
      rw [Ty.substAll, hsome, Option.getD_some, Ty.substAll, Ty.substAll, hy', hy,
        Option.getD_some, Option.getD_some]
    · rw [Ty.substAll, hnone, Option.getD_none, Ty.substAll, Ty.substAll, letterFor_of_not_mem hvs,
        letterFor_of_not_mem hws]
  rw [canonical_eq, canonical_eq, hsubst, letters_of_carries hbody hinj]

lemma puts_letterFor (s : Scheme) : Ty.Puts s.letterFor (standIn s.usedVars s.letters) s.vars
    s.canonical.vars s.body.occurrences := by
  intro x hx
  rw [letterFor_eq_standIn, canonical_eq, NameSet.mem_ofList, NameSet.mem_ofList]
  by_cases hvs : x ∈ s.vars
  · have hused : x ∈ s.usedVars := mem_usedVars.2 ⟨hx, hvs⟩
    rw [if_pos hused]
    exact .inl ⟨hvs, standIn_mem s.length_letters hused, _, _, rfl⟩
  · rw [if_neg fun hused => hvs (mem_usedVars.1 hused).2]
    exact .inr ⟨hvs, not_mem_letters hx hvs, rfl⟩

/-- The canonical form of a canonical form is itself. -/
lemma canonical_canonical {s : Scheme} (hs : s.body.isFlat) :
    s.canonical.canonical = s.canonical :=
  canonical_of_puts hs s.puts_letterFor rfl
    fun _ hx _ hy => standIn_inj s.length_letters s.nodup_letters hx hy

lemma alphaEq_canonical {s : Scheme} (hs : s.body.isFlat) : s.canonical.alphaEq s := by
  have hflat := isFlat_canonical hs
  rw [alphaEq, canonical_canonical hs]
  show (s.canonical.vars.same s.canonical.vars && Ty.same s.canonical.body s.canonical.body) = true
  rw [Bool.and_eq_true, NameSet.same_iff, Ty.same_iff _ _ hflat hflat]
  exact ⟨fun _ => Iff.rfl, rfl⟩

end Scheme

/-! ### Closures of flat types -/

namespace Ty

variable {t : Ty} {fixed : List String}

lemma generalize_of_isEmpty (ht : t.isFlat) (h : (t.bindable fixed).isEmpty) :
    t.generalize fixed = .ok t := by
  rw [generalize, quantifyExcept_eq_ok.2 ⟨idleVars?_of_isFlat t ht, by rw [if_pos h]⟩]
  cases t with
  | scheme _ _ => cases ht
  | con _ _ => rfl
  | var _ _ _ => rfl
  | app _ _ => rfl

lemma generalize_of_not_isEmpty (ht : t.isFlat) (h : ¬ (t.bindable fixed).isEmpty) :
    t.generalize fixed = .ok (Scheme.canonical ⟨t.bindable fixed, t⟩).toTy := by
  have hok : t.quantifyExcept fixed = .ok (.scheme (t.bindable fixed) t) :=
    quantifyExcept_eq_ok.2 ⟨idleVars?_of_isFlat t ht, by simp [h, isScheme_of_isFlat ht]⟩
  rw [generalize, hok]
  rfl

lemma name_mem_occurrences (ht : t.isFlat) {v : TyVar} (hv : v ∈ t.tree.vars) :
    v.name ∈ t.occurrences := by
  rw [occurrences_eq_vars_mono t ht, mono_eq_map_tree, Tree.mem_vars_map]
  exact ⟨v, hv, rfl⟩

end Ty

/-! ### There and back -/

namespace Scheme

variable {s : Scheme} {names : List String}

/-- Closing an instance of a closed scheme gives the canonical form of the scheme. -/
lemma generalize_instantiate (hs : s.body.isFlat) (hvars : s.vars.names ≠ [])
    (hexact : ∀ x, x ∈ s.vars ↔ x ∈ s.body.freeVars) (hnames : names.Nodup)
    (hlen : names.length = s.vars.names.length) :
    (s.instantiate (names.map Ty.solvable)).generalize [] = .ok s.canonical.toTy := by
  have hbound {x : String} (hx : x ∈ s.body.occurrences) : x ∈ s.vars :=
    (hexact x).2 (NameSet.mem_ofList.2 hx)
  have hputs : Ty.Puts (substOf (s.vars.names.zip (names.map Ty.solvable)))
      (standIn s.vars.names names) s.vars (.ofList names) s.body.occurrences := by
    intro x hx
    rw [substOf_zip_map s.vars.nodup hlen, if_pos (NameSet.mem_names.2 (hbound hx)),
      NameSet.mem_ofList]
    exact .inl ⟨hbound hx, standIn_mem hlen (hbound hx), _, _, rfl⟩
  have hcanonical : (Scheme.mk (.ofList names) (s.instantiate (names.map Ty.solvable))).canonical =
      s.canonical :=
    canonical_of_puts hs hputs rfl fun x hx y hy =>
      standIn_inj hlen hnames (mem_usedVars.1 hx).2 (mem_usedVars.1 hy).2
  have hocc : (s.instantiate (names.map Ty.solvable)).occurrences = s.body.occurrences.map _ :=
    (hputs.carries hs).occurrences_eq
  have hopen : ¬ ((s.instantiate (names.map Ty.solvable)).bindable []).isEmpty := by
    obtain ⟨x, hx⟩ := List.exists_mem_of_ne_nil _ hvars
    have hmem := List.mem_map_of_mem (f := Ty.carried (standIn s.vars.names names) s.vars)
      (NameSet.mem_ofList.1 ((hexact x).1 hx))
    rw [← hocc] at hmem
    intro hempty
    cases Ty.bindable_isEmpty.1 hempty _ (NameSet.mem_ofList.2 hmem)
  have hflat : (s.instantiate (names.map Ty.solvable)).isFlat := by
    refine isFlat_instantiate hs fun t ht => ?_
    obtain ⟨x, -, rfl⟩ := List.mem_map.1 ht
    rfl
  rw [Ty.generalize_of_not_isEmpty hflat hopen, ← hcanonical]
  refine congrArg (fun s => Except.ok (toTy s)) (canonical_congr fun x hx => ?_)
  rw [Ty.mem_bindable, NameSet.mem_ofList]
  refine iff_of_true ⟨hx, by simp⟩ ?_
  rw [hocc] at hx
  obtain ⟨y, hy, rfl⟩ := List.mem_map.1 hx
  rw [Ty.carried, if_pos (hbound hy)]
  exact standIn_mem hlen (hbound hy)

/-- What stands for a variable of a scheme in an instance of its canonical form. -/
def respelled (s : Scheme) (names : List String) (v : TyVar) : TyVar :=
  if v.name ∈ s.vars then
    ⟨standIn s.letters names (standIn s.usedVars s.letters v.name), .solvable⟩
  else v

lemma tree_opened_canonical (hs : s.body.isFlat) (hlen : names.length = s.letters.length) :
    (s.canonical.toTy.opened names).tree = s.body.tree.map (s.respelled names) := by
  show ((s.body.substAll s.letterFor).substAll
    (substOf ((NameSet.ofList s.letters).names.zip (names.map Ty.solvable)))).tree = _
  rw [NameSet.names_ofList s.nodup_letters, Ty.tree, Ty.curry_substAll, Ty.curry_substAll,
    Ty.curry_eq_bind_tree, Tree.map]
  refine Tree.bind_congr fun v hv => ?_
  have hocc := Ty.name_mem_occurrences hs hv
  rw [letterFor_eq_standIn, respelled]
  by_cases hbound : v.name ∈ s.vars
  · have hused : v.name ∈ s.usedVars := mem_usedVars.2 ⟨hocc, hbound⟩
    rw [if_pos hused, if_pos hbound, Option.map_some, Option.getD_some, Ty.rigid, Ty.curry,
      substOf_zip_map s.nodup_letters hlen, if_pos (standIn_mem s.length_letters hused)]
    rfl
  -- a variable that is not bound is no letter, so that it stays when the letters are replaced
  · rw [if_neg fun hused => hbound (mem_usedVars.1 hused).2, if_neg hbound, Option.map_none,
      Option.getD_none, substOf_zip_map s.nodup_letters hlen, if_neg (not_mem_letters hocc hbound)]
    rfl

lemma respelled_mem (hs : s.body.isFlat) (hlen : names.length = s.letters.length) {v : TyVar}
    (hv : v ∈ s.body.tree.vars) (hbound : v.name ∈ s.vars) :
    (s.respelled names v).sort = .solvable ∧ (s.respelled names v).name ∈ names := by
  have hused : v.name ∈ s.usedVars := mem_usedVars.2 ⟨Ty.name_mem_occurrences hs hv, hbound⟩
  rw [respelled, if_pos hbound]
  exact ⟨rfl, standIn_mem hlen (standIn_mem s.length_letters hused)⟩

/-- Names that do not occur keep variables of different names apart. -/
lemma name_eq_of_respelled (hs : s.body.isFlat) (hlen : names.length = s.letters.length)
    (hnames : names.Nodup) (hnew : ∀ x ∈ names, x ∉ s.body.freeVars) {v w : TyVar}
    (hv : v ∈ s.body.tree.vars) (hw : w ∈ s.body.tree.vars)
    (h : s.respelled names v = s.respelled names w) : v.name = w.name := by
  have hkept {u u' : TyVar} (hu : u ∈ s.body.tree.vars) (hbound : u.name ∈ s.vars)
      (hu' : u' ∈ s.body.tree.vars) (hfree : u'.name ∉ s.vars) :
      s.respelled names u ≠ s.respelled names u' := by
    intro heq
    have hmem := (respelled_mem hs hlen hu hbound).2
    rw [heq, respelled, if_neg hfree] at hmem
    exact hnew _ hmem (NameSet.mem_ofList.2 (Ty.name_mem_occurrences hs hu'))
  by_cases hvb : v.name ∈ s.vars <;> by_cases hwb : w.name ∈ s.vars
  · have hvused : v.name ∈ s.usedVars := mem_usedVars.2 ⟨Ty.name_mem_occurrences hs hv, hvb⟩
    have hwused : w.name ∈ s.usedVars := mem_usedVars.2 ⟨Ty.name_mem_occurrences hs hw, hwb⟩
    rw [respelled, respelled, if_pos hvb, if_pos hwb, TyVar.mk.injEq] at h
    exact standIn_inj s.length_letters s.nodup_letters hvused hwused
      (standIn_inj hlen hnames (standIn_mem s.length_letters hvused)
        (standIn_mem s.length_letters hwused) h.1)
  · exact absurd h (hkept hv hvb hw hwb)
  · exact absurd h.symm (hkept hw hwb hv hvb)
  · rw [respelled, respelled, if_neg hvb, if_neg hwb] at h
    rw [h]

end Scheme

/-- No name is that of both a solvable and a rigid variable of a type. -/
def Ty.OneSorted (t : Ty) : Prop :=
  ∀ x, ¬ (⟨x, .solvable⟩ ∈ t.tree.vars ∧ ⟨x, .rigid⟩ ∈ t.tree.vars)

lemma Ty.OneSorted.eq {t : Ty} (h : t.OneSorted) {v w : TyVar} (hv : v ∈ t.tree.vars)
    (hw : w ∈ t.tree.vars) (hname : v.name = w.name) : v = w := by
  obtain ⟨x, sort⟩ := v
  obtain ⟨y, sort'⟩ := w
  obtain rfl : x = y := hname
  cases sort <;> cases sort' <;> first | rfl | exact absurd ⟨‹_›, ‹_›⟩ (h x)

namespace Ty

/-- An instance of the closure of a type is the type with other names for the variables that are not
fixed. -/
lemma opened_generalize {t : Ty} {fixed : List String} (ht : t.isFlat) (hsort : t.OneSorted) :
    ∃ g, t.generalize fixed = .ok g ∧
      ∀ names : List String, names.Nodup → names.length = g.boundNames.length →
        (∀ x ∈ names, x ∉ t.freeVars) →
        (g.opened names).isFlat ∧ ∃ ρ : TyVar → TyVar, Set.InjOn ρ {v | v ∈ t.tree.vars} ∧
          (∀ v ∈ t.tree.vars, v.name ∈ fixed → ρ v = v) ∧
          (∀ v ∈ t.tree.vars, v.name ∉ fixed → (ρ v).sort = .solvable ∧ (ρ v).name ∈ names) ∧
          (g.opened names).tree = t.tree.map ρ := by
  by_cases hempty : (t.bindable fixed).isEmpty
  · refine ⟨t, generalize_of_isEmpty ht hempty, fun names _ _ _ => ?_⟩
    have hself : t.opened names = t := by
      cases t with
      | scheme _ _ => cases ht
      | con _ _ => rfl
      | var _ _ _ => rfl
      | app _ _ => rfl
    rw [hself]
    refine ⟨ht, id, Function.injective_id.injOn, fun _ _ _ => rfl, fun v hv hfixed => ?_,
      (Tree.bind_self _).symm⟩
    exact absurd (bindable_isEmpty.1 hempty _ (NameSet.mem_ofList.2 (name_mem_occurrences ht hv)))
      hfixed
  · refine ⟨_, generalize_of_not_isEmpty ht hempty, fun names hnames hlen hnew => ?_⟩
    have hlen : names.length = (Scheme.mk (t.bindable fixed) t).letters.length := by
      rw [hlen, Scheme.toTy, boundNames, Scheme.canonical_eq]
      simp only [NameSet.names_ofList (Scheme.nodup_letters _)]
    refine ⟨?_, Scheme.respelled ⟨t.bindable fixed, t⟩ names, ?_, fun v _ hfixed => ?_,
      fun v hv hfixed => ?_, Scheme.tree_opened_canonical ht hlen⟩
    · refine Scheme.isFlat_instantiate (Scheme.isFlat_canonical ht) fun u hu => ?_
      obtain ⟨x, -, rfl⟩ := List.mem_map.1 hu
      rfl
    · exact fun v hv w hw heq =>
        hsort.eq hv hw (Scheme.name_eq_of_respelled ht hlen hnames hnew hv hw heq)
    · exact if_neg fun hbound => (mem_bindable.1 hbound).2 hfixed
    · exact Scheme.respelled_mem ht hlen hv
        (mem_bindable.2 ⟨name_mem_occurrences ht hv, hfixed⟩)

end Ty

/-- Closing undoes instantiation. Closing any instance of a closed scheme by distinct solvable
variables gives its canonical form, which is α-equivalent to the scheme. Conversely an instance of
the closure of a type by distinct variables that do not occur in the type is the type with its
variables renamed: injectively, with the new variables for those that are not fixed, and with the
fixed ones unchanged. -/
theorem generalize_undoes_instantiate :
    (∀ (s : Scheme) (names : List String), s.body.isFlat → s.vars.names ≠ [] →
      (∀ x, x ∈ s.vars ↔ x ∈ s.body.freeVars) → names.Nodup →
      names.length = s.vars.names.length →
      ∃ g : Scheme, (s.instantiate (names.map Ty.solvable)).generalize [] = .ok g.toTy ∧
        g = s.canonical ∧ g.alphaEq s) ∧
    ∀ (t : Ty) (fixed : List String), t.isFlat → t.OneSorted →
      ∃ g, t.generalize fixed = .ok g ∧
        ∀ names : List String, names.Nodup → names.length = g.boundNames.length →
          (∀ x ∈ names, x ∉ t.freeVars) →
          (g.opened names).isFlat ∧ ∃ ρ : TyVar → TyVar, Set.InjOn ρ {v | v ∈ t.tree.vars} ∧
            (∀ v ∈ t.tree.vars, v.name ∈ fixed → ρ v = v) ∧
            (∀ v ∈ t.tree.vars, v.name ∉ fixed → (ρ v).sort = .solvable ∧ (ρ v).name ∈ names) ∧
            (g.opened names).tree = t.tree.map ρ := by
  refine ⟨fun s names hs hvars hexact hnames hlen => ?_, fun t fixed ht hsort => ?_⟩
  · exact ⟨s.canonical, Scheme.generalize_instantiate hs hvars hexact hnames hlen, rfl,
      Scheme.alphaEq_canonical hs⟩
  · exact Ty.opened_generalize ht hsort

/-- `∀ x y. y → x → y`. -/
def constScheme : Scheme := ⟨.ofList ["x", "y"], .function [.rigid "y", .rigid "x"] (.rigid "y")⟩

/-- A type with one variable to be solved for and one given. -/
def halfOpen : Ty := .function [.solvable "'t5", .rigid "k"] (.solvable "'t5")

theorem generalize_undoes_instantiate_const :
    (∃ g : Scheme,
      (constScheme.instantiate (["'t0", "'t1"].map Ty.solvable)).generalize [] = .ok g.toTy ∧
        g = constScheme.canonical ∧ g.alphaEq constScheme) ∧
    ∃ g, halfOpen.generalize ["k"] = .ok g ∧ ∃ ρ : TyVar → TyVar,
      ρ ⟨"k", .rigid⟩ = ⟨"k", .rigid⟩ ∧ (ρ ⟨"'t5", .solvable⟩).name ∈ ["'t9"] ∧
        (g.opened ["'t9"]).tree = halfOpen.tree.map ρ := by
  have hexact (x : String) : x ∈ constScheme.vars ↔ x ∈ constScheme.body.freeVars := by
    show x ∈ ["x", "y"] ↔ x ∈ ["y", "x"]
    simp [or_comm]
  have hvars : halfOpen.tree.vars = [⟨"'t5", .solvable⟩, ⟨"k", .rigid⟩, ⟨"'t5", .solvable⟩] := rfl
  have hsort : halfOpen.OneSorted := by
    intro x
    rw [hvars]
    simp +contextual
  refine ⟨generalize_undoes_instantiate.1 constScheme ["'t0", "'t1"] (by decide) (by decide) hexact
    (by decide) (by decide), ?_⟩
  obtain ⟨g, hg, h⟩ := generalize_undoes_instantiate.2 halfOpen ["k"] (by decide) hsort
  have hopen : halfOpen.generalize ["k"] =
      .ok (Scheme.canonical ⟨halfOpen.bindable ["k"], halfOpen⟩).toTy :=
    Ty.generalize_of_not_isEmpty (by decide) (by decide)
  obtain rfl := Except.ok.inj (hg.symm.trans hopen)
  obtain ⟨-, ρ, -, hfixed, hnew, htree⟩ := h ["'t9"] (by decide) (by decide +kernel) (by decide)
  refine ⟨_, hg, ρ, hfixed _ ?_ (by decide), (hnew _ ?_ (by decide)).2, htree⟩ <;> simp [hvars]

end LetPoly
