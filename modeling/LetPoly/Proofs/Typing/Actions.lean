import LetPoly.Proofs.Kinding.Places
import LetPoly.Proofs.Typing.Declarative
import LetPoly.Proofs.Typing.State

/-!
# Compound actions of inference

What the actions that make up inference return and which state they lead to: new variables,
instances of types, rigid variables for ascriptions, the last reading of several handles, and the
free variables of what is in scope.
-/

namespace LetPoly

/-! ### Steps on the plain stage -/

section Steps

variable {α β : Type} {values : Scope Handle} {a : α}

lemma step_plain (values : Scope Handle) (x : InferM α) : Stage.step values x = x := rfl

lemma step_of_ok {x : InferM α} {f : α → InferM β} {s s' : Inference} (hx : x s = .ok a s') :
    (Stage.step values x >>= f) s = f a s' :=
  bind_of_ok hx

lemma stepIn_of_ok {x : DeclM α} {f : α → DeclM β} {s s' : Session} (hx : x s = .ok a s') :
    (Stage.stepIn x >>= f) s = f a s' :=
  bind_of_ok hx

end Steps

/-! ### Instances -/

lemma Scheme.vars_instantiate {s : Scheme} {types : List Ty}
    (hlen : types.length = s.vars.names.length) {v : TyVar}
    (h : v ∈ (s.instantiate types).tree.vars) :
    (∃ t ∈ types, v ∈ t.tree.vars) ∨ v ∈ s.body.tree.vars ∧ v.name ∉ s.vars := by
  rw [instantiate, Ty.tree, Ty.curry_substAll, Ty.curry_eq_bind_tree, Tree.mem_vars_bind] at h
  obtain ⟨w, hw, hv⟩ := h
  rw [substOf_zip s.vars.nodup hlen] at hv
  by_cases hmem : w.name ∈ s.vars.names
  · have hi : s.vars.names.idxOf w.name < types.length :=
      hlen ▸ List.idxOf_lt_length_of_mem hmem
    rw [if_pos hmem, List.getElem?_eq_getElem hi] at hv
    exact Or.inl ⟨_, List.getElem_mem hi, hv⟩
  · rw [if_neg hmem, Option.map_none, Option.getD_none, Tree.vars_var, List.mem_singleton] at hv
    rw [hv]
    exact Or.inr ⟨hw, hmem⟩

lemma Scheme.simple_instantiate {n m : Nat} {s : Scheme} (hs : s.toTy.Proper n) (hnm : n ≤ m)
    {types : List Ty} (hlen : types.length = s.vars.names.length)
    (ht : ∀ t ∈ types, t.Simple m) : (s.instantiate types).Simple m := by
  refine ⟨isFlat_instantiate hs.1 fun t h => (ht t h).1, fun v hv => ?_⟩
  rcases vars_instantiate hlen hv with ⟨t, hmem, hv⟩ | ⟨hv, hname⟩
  · exact (ht t hmem).2 v hv
  · exact ((hs.2.1 v hv).resolve_left hname).mono hnm

namespace Ty

/-- The number of quantified variables. -/
def boundCount : Ty → Nat
  | .scheme vars _ => vars.names.length
  | _ => 0

/-- The body with solvable variables, numbered from `n` on, for the quantified ones. -/
def instanceAt (n : Nat) : Ty → Ty
  | .scheme vars body => ((Scheme.mk vars body).freshInstance n).1
  | t => t

lemma instanceAt_of_isFlat {t : Ty} (h : t.isFlat) (n : Nat) : t.instanceAt n = t := by
  cases t with
  | scheme _ _ => simp [isFlat] at h
  | con _ _ => rfl
  | var _ _ _ => rfl
  | app _ _ => rfl

lemma boundCount_of_isFlat {t : Ty} (h : t.isFlat) : t.boundCount = 0 := by
  cases t with
  | scheme _ _ => simp [isFlat] at h
  | con _ _ => rfl
  | var _ _ _ => rfl
  | app _ _ => rfl

lemma Proper.simple_instanceAt {n : Nat} {t : Ty} (h : t.Proper n) :
    (t.instanceAt n).Simple (n + t.boundCount) := by
  rcases isFlat_or_scheme h.isPrenex with hflat | ⟨vars, body, rfl, hbody⟩
  · rw [instanceAt_of_isFlat hflat, boundCount_of_isFlat hflat]
    exact h.simple hflat
  · refine Scheme.simple_instantiate (s := ⟨vars, body⟩) h (Nat.le_add_right _ _) (by simp) ?_
    intro t ht
    obtain ⟨k, hk, rfl⟩ := List.mem_map.1 ht
    have := List.mem_range'_1.1 hk
    exact simple_fresh this.2

lemma mono_instanceAt {t : Ty} (h : t.isPrenex) (n : Nat) :
    (t.instanceAt n).mono = t.poly.inst fun i => .var (freshName (n + i)) := by
  rcases isFlat_or_scheme h with hflat | ⟨vars, body, rfl, hbody⟩
  · rw [instanceAt_of_isFlat hflat, poly_of_isFlat hflat, Poly.inst_ofMono]
  · refine Scheme.mono_instantiate ⟨vars, body⟩ (by simp) fun i hi => ?_
    simp only [List.getElem_map, List.getElem_range']
    rw [Nat.one_mul]
    rfl

end Ty

namespace Inference

variable {s₀ s : Inference}

lemma instantiate_run (t : Ty) (s : Inference) :
    instantiate t s = .ok (t.instanceAt s.next) (s.bump t.boundCount) := by
  cases t with
  | scheme _ _ => rfl
  | con _ _ => rfl
  | var _ _ _ => rfl
  | app _ _ => rfl

lemma freshList_run (count : Nat) (s : Inference) :
    freshList count s = .ok ((List.range' s.next count).map Ty.fresh) (s.bump count) := by
  induction count generalizing s with
  | zero => rfl
  | succ count ih =>
    rw [freshList, bind_of_ok (fresh_run s), bind_of_ok (ih (s.bump 1)), List.range'_succ]
    show EStateM.Result.ok _ _ = _
    rw [show (s.bump 1).bump count = s.bump (count + 1) by simp [bump]; omega]
    rfl

/-! ### Rigid variables -/

/-- The names of rigid variables, numbered from `n` on, that stand for the names of a list. -/
def skolemNames (n : Nat) : List String → List String
  | [] => []
  | x :: names => Ty.skolemName x n :: skolemNames (n + 1) names

lemma length_skolemNames (n : Nat) (names : List String) :
    (skolemNames n names).length = names.length := by
  induction names generalizing n with
  | nil => rfl
  | cons x names ih => rw [skolemNames, List.length_cons, ih, List.length_cons]

lemma mem_skolemNames {n : Nat} {names : List String} {y : String} (h : y ∈ skolemNames n names) :
    ∃ x k, y = Ty.skolemName x k ∧ n ≤ k ∧ k < n + names.length := by
  induction names generalizing n with
  | nil => cases h
  | cons x names ih =>
    rcases List.mem_cons.1 h with rfl | h
    · exact ⟨x, n, rfl, Nat.le_refl _, by simp⟩
    · obtain ⟨x', k, rfl, hle, hlt⟩ := ih h
      exact ⟨x', k, rfl, by omega, by rw [List.length_cons]; omega⟩

lemma nodup_skolemNames (n : Nat) (names : List String) : (skolemNames n names).Nodup := by
  induction names generalizing n with
  | nil => exact List.nodup_nil
  | cons x names ih =>
    refine List.nodup_cons.2 ⟨fun h => ?_, ih (n + 1)⟩
    obtain ⟨x', k, heq, hle, _⟩ := mem_skolemNames h
    have := (Ty.skolemName_injective heq).2
    omega

lemma skolems_run (names : List String) (s : Inference) :
    skolems names s = .ok (skolemNames s.next names) (s.bump names.length) := by
  induction names generalizing s with
  | nil => rfl
  | cons x names ih =>
    rw [skolems, bind_of_ok (show nextId s = .ok s.next (s.bump 1) from rfl),
      bind_of_ok (ih (s.bump 1))]
    show EStateM.Result.ok _ _ = _
    rw [show (s.bump 1).bump names.length = s.bump (x :: names).length by simp [bump]; omega]
    rfl

/-- The body of a scheme with rigid variables, numbered from `n` on, for the quantified ones. -/
def rigidInstance (sc : Scheme) (n : Nat) : Ty :=
  sc.instantiate ((skolemNames n sc.vars.names).map Ty.rigid)

lemma skolemize_run (sc : Scheme) (s : Inference) :
    skolemize sc s = .ok (rigidInstance sc s.next, sc.vars.names.zip (skolemNames s.next sc.vars.names))
      (s.bump sc.vars.names.length) := by
  rw [skolemize, bind_of_ok (skolems_run _ s)]
  rfl

lemma simple_rigidInstance {n : Nat} {sc : Scheme} (h : sc.toTy.Proper n) :
    (rigidInstance sc n).Simple (n + sc.vars.names.length) := by
  refine Scheme.simple_instantiate h (Nat.le_add_right _ _)
    (by rw [List.length_map, length_skolemNames]) fun t ht => ?_
  obtain ⟨y, hy, rfl⟩ := List.mem_map.1 ht
  obtain ⟨x, k, rfl, _, hlt⟩ := mem_skolemNames hy
  refine ⟨rfl, fun v hv => ?_⟩
  obtain rfl := List.mem_singleton.1 hv
  exact TyVar.issued_skolem hlt x

lemma mono_rigidInstance (sc : Scheme) (n : Nat) :
    (rigidInstance sc n).mono = sc.toTy.poly.instNames (skolemNames n sc.vars.names) := by
  refine Scheme.mono_instantiate sc (by rw [List.length_map, length_skolemNames]) fun i hi => ?_
  rw [List.length_map] at hi
  rw [List.getElem_map, List.getD_eq_getElem?_getD, List.getElem?_eq_getElem hi]
  rfl

/-! ### Releasing several handles -/

/-- The state after several handles have been released. -/
def releasedAll (s : Inference) (hs : List Handle) : Inference := hs.foldl released s

lemma releaseAll_run {values : Scope Handle} (hs : List Handle) (s : Inference) :
    releaseAll values hs s = .ok () (s.releasedAll hs) := by
  induction hs generalizing s with
  | nil => rfl
  | cons h hs ih =>
    rw [releaseAll, step_of_ok (release_run s h), ih]
    rfl

lemma term?_releasedAll {s : Inference} {hs : List Handle} {h : Handle} (hh : h ∉ hs) :
    (s.releasedAll hs).term? h = s.term? h := by
  induction hs generalizing s with
  | nil => rfl
  | cons h' hs ih =>
    rw [List.mem_cons, not_or] at hh
    show ((s.released h').releasedAll hs).term? h = _
    rw [ih hh.2, term?_released_of_ne hh.1]

lemma queue_releasedAll (s : Inference) (hs : List Handle) :
    (s.releasedAll hs).unifier.queue = s.unifier.queue := by
  induction hs generalizing s with
  | nil => rfl
  | cons h hs ih => exact ih (s.released h)

lemma next_releasedAll (s : Inference) (hs : List Handle) :
    (s.releasedAll hs).next = s.next := by
  induction hs generalizing s with
  | nil => rfl
  | cons h hs ih => exact ih (s.released h)

lemma sol_releasedAll {hs : List Handle} {θ : String → Mono} :
    (s.releasedAll hs).Sol θ ↔ s.Sol θ := by
  rw [Sol, Sol, queue_releasedAll]

lemma polyAt_releasedAll {hs : List Handle} {h : Handle} (hh : h ∉ hs) (θ : String → Mono) :
    (s.releasedAll hs).polyAt θ h = s.polyAt θ h :=
  polyAt_congr (term?_releasedAll hh) θ

lemma Reaches.releasedAll (hr : s₀.Reaches s) {hs : List Handle}
    (hdead : ∀ h ∈ hs, ¬ s₀.Live h) : s₀.Reaches (s.releasedAll hs) := by
  induction hs generalizing s with
  | nil => exact hr
  | cons h hs ih =>
    exact ih (hr.released (hdead h List.mem_cons_self))
      fun h' hh' => hdead h' (List.mem_cons_of_mem _ hh')

/-- Several different handles are read for the last time. -/
lemma takeAll_run {values : Scope Handle} {s : Inference} {hs : List Handle} {types : List Ty}
    (hnodup : hs.Nodup) (hterms : hs.map s.term? = types.map some) :
    takeAll values hs s = .ok types (s.releasedAll hs) := by
  induction hs generalizing s types with
  | nil =>
    cases types with
    | nil => rfl
    | cons t types => cases hterms
  | cons h hs ih =>
    cases types with
    | nil => cases hterms
    | cons t types =>
      obtain ⟨hmem, hnodup⟩ := List.nodup_cons.1 hnodup
      rw [List.map_cons, List.map_cons, List.cons.injEq] at hterms
      have hrest : hs.map (s.released h).term? = types.map some := by
        rw [← hterms.2]
        exact List.map_congr_left fun h' hh' =>
          term?_released_of_ne (ne_of_mem_of_not_mem hh' hmem)
      rw [takeAll, step_of_ok (take_run hterms.1), bind_of_ok (ih hnodup hrest)]
      rfl

/-! ### Free variables of what is in scope -/

lemma freeVarsOf_run {s : Inference} (hs : List Handle) (hlive : ∀ h ∈ hs, s.Live h) :
    ∃ names, freeVarsOf hs s = .ok names s ∧
      ∀ x, x ∈ names ↔ ∃ h ∈ hs, ∃ t, s.term? h = some t ∧ x ∈ t.freeVars := by
  induction hs with
  | nil => exact ⟨[], rfl, by simp⟩
  | cons h hs ih =>
    obtain ⟨t, ht⟩ := hlive h List.mem_cons_self
    obtain ⟨names, hrun, hnames⟩ := ih fun h' hh' => hlive h' (List.mem_cons_of_mem _ hh')
    refine ⟨t.freeVars.names ++ names, ?_, fun x => ?_⟩
    · rw [freeVarsOf, bind_of_ok (current_run ht), bind_of_ok hrun]
      rfl
    · rw [List.mem_append, hnames]
      constructor
      · rintro (hx | ⟨h', hh', hx⟩)
        · exact ⟨h, List.mem_cons_self, t, ht, hx⟩
        · exact ⟨h', List.mem_cons_of_mem _ hh', hx⟩
      · rintro ⟨h', hh', t', ht', hx⟩
        rcases List.mem_cons.1 hh' with rfl | hh'
        · rw [ht] at ht'
          cases ht'
          exact Or.inl hx
        · exact Or.inr ⟨h', hh', t', ht', hx⟩

/-- The free variables of what is in scope, one name apart, are those of the polytypes there. -/
lemma Proper.envVars_run (hp : s.Proper) {values : Scope Handle}
    (hlive : ∀ h ∈ values.values, s.Live h) (name : String) :
    ∃ fixed, envVars values name s = .ok fixed s ∧
      ∀ x, x ∈ fixed ↔ ∃ h ∈ values.others name, ∃ t, s.term? h = some t ∧ t.poly.Free x := by
  obtain ⟨fixed, hrun, hfixed⟩ := freeVarsOf_run (values.others name)
    fun h hh => hlive h (values.others_subset name hh)
  refine ⟨fixed, hrun, fun x => (hfixed x).trans ?_⟩
  refine exists_congr fun h => and_congr_right fun _ => exists_congr fun t =>
    and_congr_right fun ht => ?_
  exact (Ty.free_poly_iff (hp.live ht).isPrenex).symm

/-! ### Ascriptions -/

lemma ascribe_of_ok {kinds : Scope Kind} {ty : Ty} {found : List Kind}
    (h : (checkAscription kinds ty).2 = .ok found) : ascribe kinds ty = (do
      record found
      return (ty.fill found).1) := by
  have hcheck : checkAscription kinds ty = ((ty.fill found).1, .ok found) :=
    Prod.ext (checkAscription_fst h) h
  rw [ascribe, hcheck]

lemma ascribe_of_error {kinds : Scope Kind} {ty : Ty} {e : KindError}
    (h : (checkAscription kinds ty).2 = .error e) : ascribe kinds ty = fail (.kind e) := by
  have hcheck : checkAscription kinds ty = (ty, .error e) :=
    checkAscription_of_error (inferAscription_of_error h)
  rw [ascribe, hcheck]

lemma ascribe_run {kinds : Scope Kind} {ty : Ty} {found : List Kind}
    (h : (checkAscription kinds ty).2 = .ok found) (s : Inference) :
    ascribe kinds ty s = .ok (ty.fill found).1 (s.noted found) := by
  rw [ascribe_of_ok h]
  rfl

lemma ascribe_eq_ok {kinds : Scope Kind} {ty t : Ty} {s s' : Inference}
    (h : ascribe kinds ty s = .ok t s') : ∃ found,
      (checkAscription kinds ty).2 = .ok found ∧ t = (ty.fill found).1 ∧ s' = s.noted found := by
  cases hcheck : (checkAscription kinds ty).2 with
  | error e =>
    rw [ascribe_of_error hcheck] at h
    cases h
  | ok found =>
    rw [ascribe_run hcheck] at h
    cases h
    exact ⟨found, rfl, rfl, rfl⟩

lemma quantify_eq_ok {t q : Ty} {s s' : Inference} (h : Inference.quantify t s = .ok q s') :
    t.quantify = .ok q ∧ s' = s := by
  rw [Inference.quantify] at h
  cases hq : t.quantify with
  | error e =>
    rw [hq] at h
    cases h
  | ok q' =>
    rw [hq] at h
    cases h
    exact ⟨rfl, rfl⟩

lemma quantify_run {t q : Ty} (h : t.quantify = .ok q) (s : Inference) :
    Inference.quantify t s = .ok q s := by
  rw [Inference.quantify, h]
  rfl

end Inference

end LetPoly
