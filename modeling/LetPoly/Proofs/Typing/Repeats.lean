import LetPoly.Proofs.Kinding.Again
import LetPoly.Proofs.Typing.Driver

/-!
# Runs that repeat themselves

A run records kinds, and what was run is filled with them. The run repeats itself if, run again on
what it was filled with, it has the same outcome and records nothing (`Repeats`). Actions that
neither record kinds nor look at those recorded (`Steady`) do so without ado, and a sequence of
actions does so if each of them does.
-/

namespace LetPoly

variable {ε ε' σ α β γ δ : Type}

/-- States in which kinds are recorded. -/
class Recording (σ : Type) where
  recorded : σ → List Kind
  rerecord : List Kind → σ → σ
  /-- The kinds in scope have no unknowns. -/
  GroundScope : σ → Prop
  recorded_rerecord (kinds : List Kind) (s : σ) : recorded (rerecord kinds s) = kinds
  rerecord_recorded (s : σ) : rerecord (recorded s) s = s

instance : Recording Inference where
  recorded s := s.recorded
  rerecord kinds s := { s with recorded := kinds }
  GroundScope _ := True
  recorded_rerecord _ _ := rfl
  rerecord_recorded _ := rfl

/-- The kinds in scope have no unknowns. -/
def Env.GroundKinds (env : Env) : Prop := ∀ c k, env.kinds.lookup c = some k → k.IsGround

instance : Recording Session where
  recorded s := s.inference.recorded
  rerecord kinds s := { s with inference := { s.inference with recorded := kinds } }
  GroundScope s := s.env.GroundKinds
  recorded_rerecord _ _ := rfl
  rerecord_recorded _ := rfl

open Recording

variable [Recording σ]

/-- An outcome with other kinds recorded. -/
def rerecordResult (kinds : List Kind) : EStateM.Result ε σ α → EStateM.Result ε σ α
  | .ok a s => .ok a (rerecord kinds s)
  | .error e s => .error e (rerecord kinds s)

/-- The action does the same whatever is recorded. -/
structure Steady (x : EStateM ε σ α) : Prop where
  same (kinds : List Kind) (s : σ) : x (rerecord kinds s) = rerecordResult kinds (x s)
  keeps {s s' : σ} {a : α} : GroundScope s → x s = .ok a s' → GroundScope s'

/-- If the action succeeds, `fill` uses up exactly the kinds that it records, and running it again on
what comes of that has the same outcome, but records nothing. If it fails, so does running it again.
Results satisfy `Q`. -/
structure Repeats (x : EStateM ε σ α) (fill : List Kind → β × List Kind) (again : β → EStateM ε σ α)
    (Q : α → Prop) : Prop where
  keeps {s s' : σ} {a : α} : GroundScope s → x s = .ok a s' → GroundScope s' ∧ Q a
  of_ok {s s' : σ} {a : α} : GroundScope s → x s = .ok a s' →
    ∃ new b, recorded s' = recorded s ++ new ∧ (∀ rest, fill (new ++ rest) = (b, rest)) ∧
      ∀ kinds, again b (rerecord kinds s) = .ok a (rerecord kinds s')
  of_error {s s' : σ} {e : ε} : GroundScope s → x s = .error e s' →
    ∃ new, recorded s' = recorded s ++ new ∧
      ∀ kinds, again (fill new).1 (rerecord kinds s) = .error e (rerecord kinds s')

/-- Fill one thing and then another, which may depend on the first. -/
def fillThen (fill : List Kind → β × List Kind) (fill' : β → List Kind → δ × List Kind)
    (kinds : List Kind) : (β × δ) × List Kind :=
  let (b, kinds) := fill kinds
  let (d, kinds) := fill' b kinds
  ((b, d), kinds)

lemma fillThen_of_eq {fill : List Kind → β × List Kind} {fill' : β → List Kind → δ × List Kind}
    {kinds kinds' : List Kind} {b : β} (hfill : fill kinds = (b, kinds')) :
    fillThen fill fill' kinds = ((b, (fill' b kinds').1), (fill' b kinds').2) := by
  simp only [fillThen, hfill]

/-! ### Steady actions -/

namespace Steady

variable {x : EStateM ε σ α} {f : α → EStateM ε σ β} {s s' : σ}

lemma of_ok (hx : Steady x) {a : α} (hrun : x s = .ok a s') (kinds : List Kind) :
    x (rerecord kinds s) = .ok a (rerecord kinds s') := by
  rw [hx.same, hrun, rerecordResult]

lemma of_error (hx : Steady x) {e : ε} (hrun : x s = .error e s') (kinds : List Kind) :
    x (rerecord kinds s) = .error e (rerecord kinds s') := by
  rw [hx.same, hrun, rerecordResult]

lemma recorded_of_ok (hx : Steady x) {a : α} (hrun : x s = .ok a s') :
    recorded s' = recorded s := by
  have hsame := hx.of_ok hrun (recorded s)
  rw [rerecord_recorded, hrun] at hsame
  rw [(EStateM.Result.ok.inj hsame).2, recorded_rerecord]

lemma recorded_of_error (hx : Steady x) {e : ε} (hrun : x s = .error e s') :
    recorded s' = recorded s := by
  have hsame := hx.of_error hrun (recorded s)
  rw [rerecord_recorded, hrun] at hsame
  rw [(EStateM.Result.error.inj hsame).2, recorded_rerecord]

lemma pure (a : α) : Steady (Pure.pure a : EStateM ε σ α) where
  same _ _ := rfl
  keeps hs hrun := by
    obtain ⟨_, rfl⟩ := pure_eq_ok.1 hrun
    exact hs

lemma throw (e : ε) : Steady (MonadExcept.throw e : EStateM ε σ α) where
  same _ _ := rfl
  keeps _ hrun := by cases hrun

lemma bind (hx : Steady x) (hf : ∀ a, Steady (f a)) : Steady (x >>= f) where
  same kinds s := by
    cases hrun : x s with
    | ok a s₁ => rw [bind_of_ok hrun, bind_of_ok (hx.of_ok hrun kinds), (hf a).same]
    | error e s₁ =>
      rw [bind_of_error hrun, bind_of_error (hx.of_error hrun kinds), rerecordResult]
  keeps hs hrun := by
    obtain ⟨a, s₁, hrun₁, hrun₂⟩ := bind_eq_ok.1 hrun
    exact (hf a).keeps (hx.keeps hs hrun₁) hrun₂

lemma adaptExcept (hx : Steady x) (f : ε → ε') : Steady (x.adaptExcept f) where
  same kinds s := by
    cases hrun : x s with
    | ok a s₁ =>
      rw [adaptExcept_eq_ok.2 hrun, adaptExcept_eq_ok.2 (hx.of_ok hrun kinds), rerecordResult]
    | error e s₁ =>
      rw [adaptExcept_of_error hrun, adaptExcept_of_error (hx.of_error hrun kinds), rerecordResult]
  keeps hs hrun := hx.keeps hs (adaptExcept_eq_ok.1 hrun)

/-- Of actions that see no scopes nothing is asked but that they do the same. -/
lemma of_same {x : InferM α} (hsame : ∀ kinds s, x (rerecord kinds s) = rerecordResult kinds (x s)) :
    Steady x where
  same := hsame
  keeps _ _ := trivial

lemma of_get {f : Inference → InferM α}
    (hsame : ∀ kinds s, f (rerecord kinds s) (rerecord kinds s) = rerecordResult kinds (f s s)) :
    Steady (get >>= f) :=
  .of_same hsame

lemma lift {x : InferM α} (hx : Steady x) : Steady (liftM x : DeclM α) where
  same kinds := by
    rintro ⟨s, env⟩
    cases hrun : x s with
    | ok a s₁ => rw [liftM_of_ok hrun]; exact liftM_of_ok (hx.of_ok hrun kinds)
    | error e s₁ => rw [liftM_of_error hrun]; exact liftM_of_error (hx.of_error hrun kinds)
  keeps {s s' a} hs hrun := by
    obtain ⟨s, env⟩ := s
    obtain ⟨_, _, rfl⟩ := liftM_eq_ok hrun
    exact hs

end Steady

/-! ### Actions that repeat themselves -/

/-- A steady action repeats itself, and nothing is filled. -/
lemma Steady.repeats {x : EStateM ε σ α} (hx : Steady x) {fill : List Kind → β × List Kind}
    {again : β → EStateM ε σ α} {b : β} (hfill : ∀ kinds, fill kinds = (b, kinds))
    (hagain : again b = x) : Repeats x fill again fun _ => True where
  keeps hs hrun := ⟨hx.keeps hs hrun, trivial⟩
  of_ok _ hrun := by
    refine ⟨[], b, by rw [hx.recorded_of_ok hrun, List.append_nil], hfill, fun kinds => ?_⟩
    rw [hagain, hx.of_ok hrun]
  of_error _ hrun := by
    refine ⟨[], by rw [hx.recorded_of_error hrun, List.append_nil], fun kinds => ?_⟩
    rw [hfill, hagain, hx.of_error hrun]

lemma Steady.repeats_unit {x : EStateM ε σ α} (hx : Steady x) :
    Repeats x (fun kinds => ((), kinds)) (fun _ => x) fun _ => True :=
  hx.repeats (fun _ => rfl) rfl

namespace Repeats

variable {x : EStateM ε σ α} {fill : List Kind → β × List Kind} {again : β → EStateM ε σ α}
  {Q R : α → Prop}

/-- What is filled may be part of something else. -/
lemma map {fill' : List Kind → γ × List Kind} {again' : γ → EStateM ε σ α} (g : β → γ)
    (hfill : ∀ kinds, fill' kinds = (g (fill kinds).1, (fill kinds).2))
    (hagain : ∀ kinds, again' (g (fill kinds).1) = again (fill kinds).1)
    (hx : Repeats x fill again Q) : Repeats x fill' again' Q where
  keeps := hx.keeps
  of_ok {s s' a} hs hrun := by
    obtain ⟨new, b, hnew, hfilled, hrepeat⟩ := hx.of_ok hs hrun
    refine ⟨new, g b, hnew, fun rest => by rw [hfill, hfilled], fun kinds => ?_⟩
    have hgb : again' (g b) = again b := by
      have hgfill := hagain (new ++ [])
      rwa [hfilled] at hgfill
    rw [hgb, hrepeat]
  of_error {s s' e} hs hrun := by
    obtain ⟨new, hnew, hrepeat⟩ := hx.of_error hs hrun
    refine ⟨new, hnew, fun kinds => ?_⟩
    rw [hfill, hagain, hrepeat]

lemma bind {f : α → EStateM ε σ γ} {fill' : β → List Kind → δ × List Kind}
    {again' : α → δ → EStateM ε σ γ} {R : γ → Prop} (hx : Repeats x fill again Q)
    (hf : ∀ a, Q a → ∀ b, Repeats (f a) (fill' b) (again' a) R) :
    Repeats (x >>= f) (fillThen fill fill') (fun p => again p.1 >>= fun a => again' a p.2) R where
  keeps hs hrun := by
    obtain ⟨a, s₁, hrun₁, hrun₂⟩ := bind_eq_ok.1 hrun
    obtain ⟨hs₁, ha⟩ := hx.keeps hs hrun₁
    obtain ⟨_, b, -⟩ := hx.of_ok hs hrun₁
    exact (hf a ha b).keeps hs₁ hrun₂
  of_ok {s s' c} hs hrun := by
    obtain ⟨a, s₁, hrun₁, hrun₂⟩ := bind_eq_ok.1 hrun
    obtain ⟨hs₁, ha⟩ := hx.keeps hs hrun₁
    obtain ⟨new, b, hnew, hfill, hagain⟩ := hx.of_ok hs hrun₁
    obtain ⟨new', d, hnew', hfill', hagain'⟩ := (hf a ha b).of_ok hs₁ hrun₂
    refine ⟨new ++ new', (b, d), by rw [hnew', hnew, List.append_assoc], fun rest => ?_,
      fun kinds => ?_⟩
    · rw [List.append_assoc, fillThen_of_eq (hfill _), hfill']
    · rw [bind_of_ok (hagain kinds), hagain']
  of_error {s s' e} hs hrun := by
    cases hrun₁ : x s with
    | ok a s₁ =>
      rw [bind_of_ok hrun₁] at hrun
      obtain ⟨hs₁, ha⟩ := hx.keeps hs hrun₁
      obtain ⟨new, b, hnew, hfill, hagain⟩ := hx.of_ok hs hrun₁
      obtain ⟨new', hnew', hagain'⟩ := (hf a ha b).of_error hs₁ hrun
      refine ⟨new ++ new', by rw [hnew', hnew, List.append_assoc], fun kinds => ?_⟩
      rw [fillThen_of_eq (hfill _), bind_of_ok (hagain kinds), hagain']
    | error e' s₁ =>
      rw [bind_of_error hrun₁] at hrun
      cases hrun
      obtain ⟨new, hnew, hagain⟩ := hx.of_error hs hrun₁
      refine ⟨new, hnew, fun kinds => ?_⟩
      rw [fillThen_of_eq (Prod.eta _).symm]
      exact bind_of_error (hagain kinds)

lemma bind_steady {f : α → EStateM ε σ γ} (hx : Repeats x fill again Q)
    (hf : ∀ a, Steady (f a)) : Repeats (x >>= f) fill (fun b => again b >>= f) fun _ => True :=
  .map Prod.fst (fun _ => rfl) (fun _ => rfl)
    (hx.bind fun a _ _ => (hf a).repeats_unit)

/-- The error of a failure may be told by what is filled, as long as filling does not change it. -/
lemma adaptExcept {f : ε → ε'} {f' : β → ε → ε'} (hx : Repeats x fill again Q)
    (hf : ∀ kinds e, f' (fill kinds).1 e = f e) :
    Repeats (x.adaptExcept f) fill (fun b => (again b).adaptExcept (f' b)) Q where
  keeps hs hrun := hx.keeps hs (adaptExcept_eq_ok.1 hrun)
  of_ok hs hrun := by
    obtain ⟨new, b, hnew, hfill, hagain⟩ := hx.of_ok hs (adaptExcept_eq_ok.1 hrun)
    exact ⟨new, b, hnew, hfill, fun kinds => adaptExcept_eq_ok.2 (hagain kinds)⟩
  of_error {s s' e} hs hrun := by
    cases hrun₁ : x s with
    | ok a s₁ =>
      rw [adaptExcept_eq_ok.2 hrun₁] at hrun
      cases hrun
    | error e' s₁ =>
      rw [adaptExcept_of_error hrun₁] at hrun
      cases hrun
      obtain ⟨new, hnew, hagain⟩ := hx.of_error hs hrun₁
      refine ⟨new, hnew, fun kinds => ?_⟩
      rw [adaptExcept_of_error (hagain kinds), hf]

lemma lift {x : InferM α} {again : β → InferM α} (hx : Repeats x fill again Q) :
    Repeats (liftM x : DeclM α) fill (fun b => liftM (again b)) Q where
  keeps {s s' a} hs hrun := by
    obtain ⟨s, env⟩ := s
    obtain ⟨s₁, hrun₁, rfl⟩ := liftM_eq_ok hrun
    exact ⟨hs, (hx.keeps trivial hrun₁).2⟩
  of_ok {s s' a} hs hrun := by
    obtain ⟨s, env⟩ := s
    obtain ⟨s₁, hrun₁, rfl⟩ := liftM_eq_ok hrun
    obtain ⟨new, b, hnew, hfill, hagain⟩ := hx.of_ok trivial hrun₁
    exact ⟨new, b, hnew, hfill, fun kinds => liftM_of_ok (hagain kinds)⟩
  of_error {s s' e} hs hrun := by
    obtain ⟨s, env⟩ := s
    cases hrun₁ : x s with
    | ok a s₁ =>
      rw [liftM_of_ok hrun₁] at hrun
      cases hrun
    | error e' s₁ =>
      rw [liftM_of_error hrun₁] at hrun
      cases hrun
      obtain ⟨new, hnew, hagain⟩ := hx.of_error trivial hrun₁
      exact ⟨new, hnew, fun kinds => liftM_of_error (hagain kinds)⟩

/-- What is declared in a scope of its own. -/
lemma within {env : Env} {x : DeclM Unit} {again : β → DeclM Unit} {Q : Unit → Prop}
    (henv : env.GroundKinds) (hx : Repeats x fill again Q) :
    Repeats (Session.within env x) fill (fun b => Session.within env (again b))
      Env.GroundKinds where
  keeps _ hrun := ⟨trivial, (hx.keeps henv (within_eq_ok.1 hrun)).1⟩
  of_ok _ hrun := by
    obtain ⟨new, b, hnew, hfill, hagain⟩ := hx.of_ok henv (within_eq_ok.1 hrun)
    exact ⟨new, b, hnew, hfill, fun kinds => within_eq_ok.2 (hagain kinds)⟩
  of_error {s s' e} _ hrun := by
    cases hrun₁ : x ⟨s, env⟩ with
    | ok a s₁ =>
      rw [within_eq_ok.2 hrun₁] at hrun
      cases hrun
    | error e' s₁ =>
      rw [within_of_error hrun₁] at hrun
      cases hrun
      obtain ⟨new, hnew, hagain⟩ := hx.of_error henv hrun₁
      exact ⟨new, hnew, fun kinds => within_of_error (hagain kinds)⟩

end Repeats

lemma Steady.bind_repeats {x : EStateM ε σ α} {f : α → EStateM ε σ γ}
    {fill : List Kind → β × List Kind} {again : α → β → EStateM ε σ γ} {Q : γ → Prop}
    (hx : Steady x) (hf : ∀ a, Repeats (f a) fill (again a) Q) :
    Repeats (x >>= f) fill (fun b => x >>= fun a => again a b) Q :=
  .map Prod.snd (fun _ => rfl) (fun _ => rfl)
    (hx.repeats_unit.bind fun a _ _ => hf a)

/-! ### Steps of inference -/

section Inference

open Inference

lemma unifier_rerecord (kinds : List Kind) (s : Inference) :
    (rerecord kinds s).unifier = s.unifier := rfl

lemma steady_fail (e : TypeError) : Steady (fail e : InferM α) := .throw _

lemma steady_nextId : Steady nextId := .of_same fun _ _ => rfl

lemma steady_fresh : Steady fresh := steady_nextId.bind fun _ => .pure _

lemma steady_freshList (count : Nat) : Steady (freshList count) := by
  induction count with
  | zero => exact .pure _
  | succ count ih => exact steady_fresh.bind fun _ => ih.bind fun _ => .pure _

lemma steady_track (ty : Ty) : Steady (track ty) := .of_same fun _ _ => rfl

lemma steady_current (h : Handle) : Steady (current h) := by
  refine .of_get fun kinds s => ?_
  rw [unifier_rerecord]
  cases s.unifier.term? h <;> rfl

lemma steady_replace (h : Handle) (ty : Ty) : Steady (replace h ty) := .of_same fun _ _ => rfl

lemma steady_release (h : Handle) : Steady (release h) := .of_same fun _ _ => rfl

lemma steady_releaseAll (values : Scope Handle) (hs : List Handle) :
    Steady (releaseAll values hs : InferM Unit) := by
  induction hs with
  | nil => exact .pure _
  | cons h hs ih => exact (steady_release h).bind fun _ => ih

lemma steady_take (h : Handle) : Steady (take h) := by
  refine .of_get fun kinds s => ?_
  rw [unifier_rerecord]
  obtain ⟨unifier, _ | ty⟩ := s.unifier.release h <;> rfl

lemma steady_takeAll (values : Scope Handle) (hs : List Handle) :
    Steady (takeAll values hs : InferM (List Ty)) := by
  induction hs with
  | nil => exact .pure _
  | cons h hs ih => exact (steady_take h).bind fun _ => ih.bind fun _ => .pure _

lemma steady_equate (expected found : Ty) (origin : TypeOrigin) :
    Steady (equate expected found origin) :=
  .of_same fun _ _ => rfl

lemma steady_solve : Steady Inference.solve := by
  refine .of_get fun kinds s => ?_
  rw [unifier_rerecord]
  obtain ⟨unifier, _ | unsolved⟩ := s.unifier.solve <;> rfl

lemma steady_giveDefaults (config : Config) : Steady (giveDefaults config) :=
  .of_same fun _ _ => rfl

lemma steady_instantiate (ty : Ty) : Steady (instantiate ty) := by
  refine .of_same fun kinds s => ?_
  cases ty <;> rfl

lemma steady_instance (h : Handle) : Steady (do instantiate (← current h)) :=
  (steady_current h).bind steady_instantiate

lemma steady_skolems (names : List String) : Steady (skolems names) := by
  induction names with
  | nil => exact .pure _
  | cons name names ih => exact steady_nextId.bind fun _ => ih.bind fun _ => .pure _

lemma steady_skolemize (s : Scheme) : Steady (skolemize s) :=
  (steady_skolems _).bind fun _ => .pure _

lemma steady_quantify (ty : Ty) : Steady (Inference.quantify ty) := by
  rw [Inference.quantify]
  split
  · exact .pure _
  · exact steady_fail _

lemma steady_generalize (ty : Ty) (fixed : List String) :
    Steady (Inference.generalize ty fixed) := by
  rw [Inference.generalize]
  split
  · exact .pure _
  · exact steady_fail _

lemma steady_freeVarsOf (hs : List Handle) : Steady (freeVarsOf hs) := by
  induction hs with
  | nil => exact .pure _
  | cons h hs ih => exact (steady_current h).bind fun _ => ih.bind fun _ => .pure _

end Inference

/-! ### Declarations and patterns -/

section Declarations

open Inference Session

lemma steady_modifyValues (f : Scope Handle → Scope Handle) : Steady (modifyValues f) where
  same _ _ := rfl
  keeps hs hrun := by
    cases hrun
    exact hs

lemma steady_registerEach (d : Datatype) (constructors : List Constructor) :
    Steady (registerEach d constructors : DeclM Unit) := by
  induction constructors with
  | nil => exact .pure _
  | cons c constructors ih =>
    exact (steady_quantify _).lift.bind fun ty => (steady_track ty).lift.bind fun h =>
      (steady_modifyValues _).bind fun _ => ih

lemma steady_registerAll (ds : List Datatype) : Steady (registerAll ds : DeclM Unit) := by
  induction ds with
  | nil => exact .pure _
  | cons d ds ih => exact (steady_registerEach d _).bind fun _ => ih

lemma steady_provisionalTy (ascribed : Option Ty) : Steady (provisionalTy ascribed) := by
  cases ascribed with
  | some ty => exact .pure _
  | none => exact steady_fresh

lemma steady_demandedTy (h : Handle) (ascribed : Option Ty) : Steady (demandedTy h ascribed) := by
  unfold demandedTy
  split
  · exact steady_skolemize _
  · exact (steady_current h).bind fun _ => .pure _

lemma steady_refuseEscape (values : Scope Handle) (name : String) (rigid : List (String × String)) :
    Steady (refuseEscape values name rigid) := by
  unfold refuseEscape
  split
  · exact .pure _
  · refine (steady_freeVarsOf _).bind fun fixed => ?_
    split
    · exact steady_fail _
    · exact .pure _

lemma steady_closeTy (values : Scope Handle) (name : String) (h : Handle) (ascribed : Option Ty) :
    Steady (closeTy values name h ascribed) := by
  cases ascribed with
  | some ty => exact .pure _
  | none =>
    exact (steady_freeVarsOf _).bind fun fixed => (steady_current h).bind fun ty =>
      (steady_generalize ty fixed).bind (steady_replace h)

lemma steady_settleTy (values : Scope Handle) (name : String) (ascribed : Option Ty) (h : Handle)
    (found : Ty) : Steady (settleTy values name ascribed h found : InferM Unit) := by
  refine (steady_demandedTy h ascribed).bind fun ⟨demanded, rigid⟩ => ?_
  exact (steady_equate demanded found _).bind fun _ => steady_solve.bind fun _ =>
    (steady_refuseEscape values name rigid).bind fun _ => steady_closeTy values name h ascribed

lemma steady_constructorInstance (scope : Scope Handle) (name : String) :
    Steady (constructorInstance scope name) := by
  rw [constructorInstance]
  split
  · exact steady_instance _
  · exact steady_fail _

lemma steady_bindCaptures (config : Config) (captures : List (String × Ty))
    (scope : Scope Handle) :
    Steady (bindCaptures config captures scope : InferM (Scope Handle)) := by
  induction captures generalizing scope with
  | nil => exact .pure _
  | cons capture captures ih => exact (steady_track _).bind fun h => ih _

lemma steady_bindPattern (config : Config) (scrutinee : Handle) (scope : Scope Handle)
    (pattern : Pattern) :
    Steady (bindPattern config scrutinee scope pattern : InferM (Scope Handle)) := by
  cases pattern with
  | capture name => exact .pure _
  | literal value =>
    exact (steady_current _).bind fun ty => (steady_equate _ _ _).bind fun _ => .pure _
  | constructor name =>
    exact (steady_constructorInstance scope name).bind fun found =>
      (steady_current _).bind fun ty => (steady_equate _ _ _).bind fun _ => .pure _
  | data name captures =>
    refine (steady_constructorInstance scope name).bind fun found => ?_
    have hrest : Steady (do
        let fields ← freshList captures.length
        equate (.function fields (← current scrutinee)) found (.constructor name)
        bindCaptures config (captures.zip fields) scope : InferM (Scope Handle)) :=
      (steady_freshList _).bind fun fields => (steady_current _).bind fun ty =>
        (steady_equate _ _ _).bind fun _ => steady_bindCaptures config _ scope
    split
    · exact (steady_fail _).bind fun _ => hrest
    · exact (Steady.pure ()).bind fun _ => hrest

lemma steady_bringValues (values : List (String × Ty)) : Steady (bringValues values) := by
  induction values with
  | nil => exact .pure _
  | cons value values ih =>
    exact (steady_track _).lift.bind fun h => (steady_modifyValues _).bind fun _ => ih

lemma steady_readValues (values : List (String × Handle)) : Steady (readValues values) := by
  induction values with
  | nil => exact .pure _
  | cons value values ih => exact (steady_current _).bind fun ty => ih.bind fun types => .pure _

lemma steady_checkConstructors (ds : List Datatype) : Steady (checkConstructors ds) := by
  induction ds with
  | nil => exact .pure _
  | cons d ds ih => exact ((steady_registerEach d _).adaptExcept _).bind fun _ => ih

end Declarations

end LetPoly
