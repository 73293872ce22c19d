import LetPoly.Proofs.Typing.CompleteDecls
import LetPoly.Proofs.Typing.Program

/-!
# Principal types

While a program is checked, each value that has some type under the polytypes found so far is
brought into scope, and the polytype found for it has all of its types as instances. A value with an
ascription is brought into scope as soon as it has the ascribed type.
-/

namespace LetPoly

open Inference Session

/-! ### Programs that can be checked -/

/-- What is known of the names of the prelude: none of them is a constructor. -/
def Prelude.outline (p : Prelude) : Outline :=
  ⟨(Scope.ofTable (p.values.map fun _ => none)).child, p.kindScope⟩

/-- Whether the datatypes, ascriptions and patterns of a program are in order. -/
def Decl.isAdmissibleProgram (config : Config) (program : List Decl) : Bool :=
  match inferGroup config.prelude.kindScope (Decl.datatypes program) with
  | .error _ => false
  | .ok found => Decl.areAdmissible config
      (config.prelude.outline.enter (Decl.datatypes program) found) program

lemma Decl.areAdmissible_append (config : Config) (o : Outline) (decls decls' : List Decl) :
    Decl.areAdmissible config o (decls ++ decls') = (Decl.areAdmissible config o decls &&
      Decl.areAdmissible config (o.hide config (Decl.valueNames decls)) decls') := by
  induction decls generalizing o with
  | nil => rfl
  | cons d decls ih =>
    cases d with
    | value name ascription value position =>
      rw [List.cons_append, areAdmissible, areAdmissible, ih, ← Bool.and_assoc]
      rfl
    | datatype d => exact ih o
    | fixity f => exact ih o

lemma Decl.isRankOneList_append (decls decls' : List Decl) : Decl.isRankOneList (decls ++ decls') =
    (Decl.isRankOneList decls && Decl.isRankOneList decls') := by
  induction decls with
  | nil => rfl
  | cons d decls ih =>
    cases d with
    | value name ascription value position =>
      rw [List.cons_append, isRankOneList, isRankOneList, ih, ← Bool.and_assoc]
    | datatype d => rw [List.cons_append, isRankOneList, isRankOneList, ih, ← Bool.and_assoc]
    | fixity f => exact ih

lemma Prelude.outline_rel (p : Prelude) :
    p.outline.arities.Rel (fun a q => ∀ n, a = some n → q.HasArity n) p.scope := by
  refine Scope.Rel.child ⟨?_, .nil⟩
  refine List.forall₂_map_left_iff.2 (List.forall₂_map_right_iff.2 (List.forall₂_same.2 ?_))
  exact fun e _ => ⟨rfl, fun n hn => by cases hn⟩

/-! ### Sessions of a check -/

/-- The polytypes of what is in scope. -/
def SessionOn.schemes (S : Session) : Scope Poly := S.inference.envAt .var S.env.values

/-- A session after some of the values of a program. -/
def checkBefore (config : Config) (group : List Datatype) (before : List Decl) : CheckM Unit := do
  let _ ← openProgram config group
  checkValues config before

/-- A program that is open is ready for its values. -/
lemma Ready.of_openProgram {config : Config} {group : List Datatype}
    (hprelude : config.prelude.isRankOne) (hrank : ∀ d ∈ group, d.isRankOne) {found : GroupKinds}
    (hfound : inferGroup config.prelude.kindScope group = .ok found) {kinds : Table Kind}
    {S : Session} (hrun : openProgram config group (.start config) = .ok kinds S) :
    S.inference.unifier.queue = [] ∧ (∀ h ∈ S.env.values.values, S.inference.ClosedAt h) ∧
      (∀ θ, S.inference.envAt θ S.env.values = enterDatatypes group config.prelude.scope) ∧
      Ready config (config.prelude.outline.enter group found) S.env
        (enterDatatypes group config.prelude.scope) S.inference .var := by
  obtain ⟨s, values, hrun', hqueue, hproper, hscope, hclosed, henv⟩ :=
    openProgram_run hprelude hrank hfound
  rw [hrun', EStateM.Result.ok.injEq] at hrun
  obtain ⟨_, rfl⟩ := hrun
  refine ⟨hqueue, hclosed, henv, hproper, ?_, ?_, hscope, fun {h} hh t ht => ?_, ?_, ?_, rfl⟩
  · rw [Sol, hqueue]
    exact fun e he => by cases he
  · rw [SoftQueue, hqueue]
    exact fun e he => by cases he
  · obtain ⟨t', ht', hclosed'⟩ := hclosed h hh
    rw [ht] at ht'
    cases ht'
    exact Ty.soft_of_closed hclosed'
  · refine (Scope.Rel.map_right (R := Poly.Below)).1 ?_
    rw [show values.map (s.polyAt .var) = _ from henv .var]
    exact .refl fun p _ => .refl p
  · exact Outline.rel_enter hrank config.prelude.outline_rel (fun h hh => hscope.live hh)
      (henv .var) found

/-- After some of its values a program is ready for the next one, under the polytypes found. -/
lemma Ready.of_checkBefore {config : Config} {group : List Datatype} {before : List Decl}
    (hprelude : config.prelude.isRankOne) (hgroup : ∀ d ∈ group, d.isRankOne)
    (hrank : Decl.isRankOneList before) {found : GroupKinds}
    (hfound : inferGroup config.prelude.kindScope group = .ok found)
    (hadmissible : Decl.areAdmissible config (config.prelude.outline.enter group found) before)
    {S : Session} (hrun : checkBefore config group before (.start config) = .ok () S) :
    (∀ h ∈ S.env.values.values, S.inference.ClosedAt h) ∧ ∃ θ,
      Ready config ((config.prelude.outline.enter group found).hide config (Decl.valueNames before))
        S.env S.schemes S.inference θ := by
  obtain ⟨kinds, ⟨s₀, env₀⟩, hopen, hvalues⟩ := bind_eq_ok.1 hrun
  obtain ⟨hqueue, hclosed, henv, hready⟩ := Ready.of_openProgram hprelude hgroup hfound hopen
  have hvalues := checkValues_eq_ok.1 hvalues
  obtain ⟨values, s, rfl, hD⟩ := Decl.sound hprelude before hrank hready.proper hready.inScope hvalues
  have hsol : s.Sol .var := by
    rw [Sol, hD.settled hqueue]
    exact fun e he => by cases he
  -- What was found so far is derivable, so inference finds something as general on its way here.
  have htyped := hD.typed hsol
  obtain ⟨θ₀, _, hsame⟩ := hD.reaches.back hsol
  rw [envAt_back hready.inScope hsame, henv] at htyped
  obtain ⟨env', s', θ', hrun', _, hready'⟩ :=
    Decl.complete hprelude before hrank hready hadmissible htyped
  rw [hvalues, EStateM.Result.ok.injEq] at hrun'
  obtain ⟨_, heq⟩ := hrun'
  cases heq
  exact ⟨hD.closed hclosed, θ', hready'⟩

/-- A value has some type under the polytypes of what is in scope: in its own definition it has that
type only, or else the whole ascribed one. -/
def HasBinding (config : Config) (Γ : Scope Poly) (name : String) (value : Expr) : Option Ty → Prop
  | none => ∃ τ, HasType config (config.bind name (.ofMono τ) Γ) value τ
  | some t => ∃ names : List String, names.Nodup ∧ names.length = t.toScheme.vars.names.length ∧
      (∀ x ∈ names, ¬ (config.bind name t.signature Γ).Free x) ∧
      HasType config (config.bind name t.signature Γ) value (t.signature.instNames names)

lemma SessionOn.lookup_schemes_bindValue {config : Config} {name : String}
    (hname : config.isIgnored name = false) (s : Inference) (env : Env) (h : Handle) :
    (⟨s, env.bindValue config name h⟩ : Session).schemes.lookup name = some (s.polyAt .var h) := by
  rw [schemes, envAt, Scope.lookup_map, Env.bindValue, Config.bind, hname]
  simp [Scope.lookup_insert]

lemma Env.bindValue_injective {config : Config} {name : String}
    (hname : config.isIgnored name = false) {env : Env} {h h' : Handle}
    (heq : env.bindValue config name h = env.bindValue config name h') : h = h' := by
  have hlookup := congrArg (fun env => env.values.lookup name) heq
  simpa [Env.bindValue, Config.bind, hname, Scope.lookup_insert] using hlookup

/-- Whatever is derivable of a value is an instance of the polytype that it is given. -/
lemma bindValue_infer_instance {config : Config} {value : Expr} (hsound : value.Sound config)
    (hcomplete : value.Complete config) {name : String} {o : Outline} {S : Session}
    {θ : String → Mono} (hready : Ready config o S.env S.schemes S.inference θ)
    (hclosed : ∀ h ∈ S.env.values.values, S.inference.ClosedAt h)
    (hadmissible : value.isAdmissible config (o.hide config [name])) {τ : Mono}
    (htyped : HasType config (config.bind name (.ofMono τ) S.schemes) value τ) :
    ∃ S' : Session, bindValue config name none value S = .ok () S' ∧ (config.isIgnored name = false →
      ∃ p, S'.schemes.lookup name = some p ∧ p.Instance τ) := by
  obtain ⟨h, s', θ', hrun, _, _, _, hbelow⟩ :=
    complete_bindValue_infer hcomplete hready hadmissible htyped
  refine ⟨_, hrun, fun hname => ⟨_, SessionOn.lookup_schemes_bindValue hname s' S.env h, ?_⟩⟩
  obtain ⟨h', s'', heq, _, _, _, _, hclosed', _⟩ :=
    sound_bindValue_infer hsound hready.proper hready.inScope hrun
  obtain ⟨rfl, henv⟩ := SessionOn.mk.injEq .. ▸ heq
  obtain rfl := Env.bindValue_injective hname henv
  -- The type is closed, so it stands for the same polytype under all valuations.
  obtain ⟨t, ht, ht'⟩ := hclosed' hclosed
  have hτ := hbelow [] (fun x hx => by cases hx) τ ⟨fun _ => τ, Poly.inst_ofMono _ τ⟩
  rw [polyAt_eq ht, ht'.subst] at hτ ⊢
  exact hτ

/-- While a program is checked, a value that has some type is brought into scope, and all of its
types are instances of the polytype that it then has. -/
theorem bindValue_principal (config : Config) (before after : List Decl) (name : String)
    (ascription : Option Ty) (value : Expr) (position : Span) (S : Session)
    (hprelude : config.prelude.isRankOne)
    (hrank : Decl.isRankOneList (before ++ .value name ascription value position :: after))
    (hadmissible : Decl.isAdmissibleProgram config
      (before ++ .value name ascription value position :: after))
    (hbefore : checkBefore config
      (Decl.datatypes (before ++ .value name ascription value position :: after)) before
      (.start config) = .ok () S)
    (htyped : HasBinding config S.schemes name value ascription) :
    ∃ S' : Session, bindValue config name ascription value S = .ok () S' ∧
      (ascription = none → config.isIgnored name = false →
        ∃ p, S'.schemes.lookup name = some p ∧
          ∀ τ, HasType config (config.bind name (.ofMono τ) S.schemes) value τ → p.Instance τ) := by
  have hgroup := Decl.isRankOne_of_mem_datatypes hrank
  generalize hprogram : Decl.datatypes (before ++ .value name ascription value position :: after) =
    group at *
  rw [Decl.isRankOneList_append, Bool.and_eq_true, Decl.isRankOneList, Bool.and_eq_true,
    Bool.and_eq_true] at hrank
  obtain ⟨hrank, ⟨hprenex, hvalue⟩, _⟩ := hrank
  rw [Decl.isAdmissibleProgram, hprogram] at hadmissible
  cases hfound : inferGroup config.prelude.kindScope group with
  | error e =>
    rw [hfound] at hadmissible
    cases hadmissible
  | ok found =>
    rw [hfound] at hadmissible
    dsimp only at hadmissible
    rw [Decl.areAdmissible_append, Bool.and_eq_true, Decl.areAdmissible, Bool.and_eq_true,
      Bool.and_eq_true] at hadmissible
    obtain ⟨hadmissible, ⟨hsignature, hadmissible'⟩, _⟩ := hadmissible
    obtain ⟨hclosed, θ, hready⟩ :=
      Ready.of_checkBefore hprelude hgroup hrank hfound hadmissible hbefore
    have hcomplete := value.complete hprelude hvalue
    cases ascription with
    | none =>
      have hinstance {τ : Mono}
          (hτ : HasType config (config.bind name (.ofMono τ) S.schemes) value τ) :=
        bindValue_infer_instance (value.sound hprelude hvalue) hcomplete hready hclosed hadmissible'
          hτ
      obtain ⟨τ₀, hτ₀⟩ := htyped
      obtain ⟨S', hrun, hp⟩ := hinstance hτ₀
      refine ⟨S', hrun, fun _ hname => ?_⟩
      obtain ⟨p, hlookup, _⟩ := hp hname
      refine ⟨p, hlookup, fun τ hτ => ?_⟩
      obtain ⟨S'', hrun', hp'⟩ := hinstance hτ
      rw [hrun, EStateM.Result.ok.injEq] at hrun'
      obtain ⟨_, rfl⟩ := hrun'
      obtain ⟨p', hlookup', hinst⟩ := hp' hname
      rw [hlookup, Option.some.injEq] at hlookup'
      rwa [hlookup']
    | some t =>
      obtain ⟨names, hnodup, hlen, hfree, hτ⟩ := htyped
      obtain ⟨h, s', θ', hrun, _⟩ := complete_bindValue_check hcomplete hprenex hready hsignature
        hadmissible' hnodup hlen hfree hτ
      exact ⟨_, hrun, fun hnone => by cases hnone⟩

/-- A function applied to what the identity gives. -/
def applyToId : List Decl :=
  [.value "id" none (.lambda ["x"] (.ident "x")) {},
    .value "apply" none (.lambda ["f", "x"] (.app (.ident "f") (.app (.ident "id") (.ident "x")))) {}]

/-- The session in which the identity is known. -/
def knowsId : Session :=
  match checkBefore {} [] (applyToId.take 1) (.start {}) with
  | .ok _ S => S
  | .error _ S => S

/-- The function may be one on numbers, so all types of the application are instances of what is
found. -/
theorem bindValue_principal_applyToId :
    checkBefore {} [] (applyToId.take 1) (.start {}) = .ok () knowsId ∧
    ∃ (S' : Session) (p : Poly), bindValue {} "apply" none
        (.lambda ["f", "x"] (.app (.ident "f") (.app (.ident "id") (.ident "x")))) knowsId =
          .ok () S' ∧ S'.schemes.lookup "apply" = some p ∧
      ∀ τ, HasType {} (({} : Config).bind "apply" (.ofMono τ) knowsId.schemes)
        (.lambda ["f", "x"] (.app (.ident "f") (.app (.ident "id") (.ident "x")))) τ →
        p.Instance τ := by
  have hbefore : checkBefore {} [] (applyToId.take 1) (.start {}) = .ok () knowsId := by cbv
  have hid : knowsId.schemes.lookup "id" = some (.close ["a"] (.arrow (.var "a") (.var "a"))) := by
    cbv
  have htyped (Γ : Scope Poly) (τ₀ : Mono)
      (hΓ : Γ.lookup "id" = some (.close ["a"] (.arrow (.var "a") (.var "a")))) :
      HasType {} (({} : Config).bind "apply" (.ofMono τ₀) Γ)
        (.lambda ["f", "x"] (.app (.ident "f") (.app (.ident "id") (.ident "x"))))
        (.function [.arrow Ty.int.mono Ty.int.mono, Ty.int.mono] Ty.int.mono) := by
    refine .function (.cons (fun t ht => by cases ht) (.cons (fun t ht => by cases ht) .nil)) ?_
    refine .app (.ident rfl ⟨fun _ => Ty.int.mono, rfl⟩)
      (.app (.ident (p := .close ["a"] (.arrow (.var "a") (.var "a"))) ?_ ⟨fun _ => Ty.int.mono, rfl⟩)
        (.ident rfl ⟨fun _ => Ty.int.mono, rfl⟩))
    simpa [bindMonos, Config.bind, Config.isIgnored, Scope.lookup_insert, Scope.lookup_child] using hΓ
  obtain ⟨S', hrun, hprincipal⟩ := bindValue_principal {} (applyToId.take 1) [] "apply" none _ {}
    knowsId (by decide) (by decide) (by cbv) hbefore ⟨_, htyped _ _ hid⟩
  obtain ⟨p, hlookup, hp⟩ := hprincipal rfl (by decide)
  exact ⟨hbefore, S', p, hrun, hlookup, hp⟩

/-! ### Values that have a type and are refused -/

/-- The session that a program with the given datatypes starts its values in. -/
def openedWith (group : List Datatype) : Session :=
  match checkBefore {} group [] (.start {}) with
  | .ok _ S => S
  | .error _ S => S

/-- The first value of a program with the given datatypes has a type, but is refused. -/
def RefusesTyped (group : List Datatype) (name : String) (value : Expr) (ascription : Option Ty) :
    Prop :=
  checkBefore {} group [] (.start {}) = .ok () (openedWith group) ∧
    HasBinding {} (openedWith group).schemes name value ascription ∧
    ¬ ∃ S', bindValue {} name ascription value (openedWith group) = .ok () S'

lemma refusesTyped_of {group : List Datatype} {name : String} {value : Expr}
    {ascription : Option Ty}
    (hopen : checkBefore {} group [] (.start {}) = .ok () (openedWith group))
    (htyped : HasBinding {} (openedWith group).schemes name value ascription)
    (hrun : (match bindValue {} name ascription value (openedWith group) with
      | .ok _ _ => true
      | .error _ _ => false) = false) : RefusesTyped group name value ascription := by
  refine ⟨hopen, htyped, ?_⟩
  rintro ⟨S', hok⟩
  rw [hok] at hrun
  cases hrun

/-- An ascribed polytype binds a variable that it does not use. -/
lemma refusesTyped_idle :
    RefusesTyped [] "x" (.literal (.int 1)) (some (.scheme (.ofList ["a"]) .int)) := by
  refine refusesTyped_of (by cbv) ⟨["b"], by simp, rfl, ?_, .literal _ _⟩ (by cbv)
  rintro x _ ⟨p, hp, hfree⟩
  have hvalues : (({} : Config).bind "x" (Ty.scheme (.ofList ["a"]) Ty.int).signature
      (openedWith []).schemes).values = [.ofMono Ty.int.mono] := by cbv
  rw [hvalues, List.mem_singleton] at hp
  rw [hp] at hfree
  cases hfree

/-- Two datatypes that differ in the name of a quantified variable inside of their heads. -/
def renamedHeads : List Datatype :=
  [⟨.app (.con "T" none) [.scheme (.ofList ["a"]) (.var "a" .rigid none)], [⟨"C", []⟩], {}⟩,
    ⟨.app (.con "T" none) [.scheme (.ofList ["b"]) (.var "b" .rigid none)], [⟨"D", []⟩], {}⟩]

lemma refusesTyped_renamedHeads : RefusesTyped renamedHeads "y"
    (.guards [(.literal (.bool true), .ident "C")] (.ident "D")) none := by
  refine refusesTyped_of (by cbv)
    ⟨.node (.leaf (.con "T")) (.leaf .quantified), .guards (.cons (.literal _ _) ?_ (.nil _ _)) ?_⟩
    (by cbv)
  · refine .ident (p := .node (.leaf (.con "T")) (.leaf .quantified)) (by cbv) ⟨.var ∘ Nat.repr, rfl⟩
  · refine .ident (p := .node (.leaf (.con "T")) (.leaf .quantified)) (by cbv) ⟨.var ∘ Nat.repr, rfl⟩

/-- A datatype of functions. -/
def functionHead : List Datatype :=
  [⟨.app (.con "->" none) [.var "a" .rigid none, .var "b" .rigid none], [⟨"F", [.int]⟩], {}⟩]

lemma refusesTyped_functionHead : RefusesTyped functionHead "y"
    (.lambda ["f"] (.cases (.ident "f") [(.data "F" ["n"], .ident "n")])) none := by
  have hf : (openedWith functionHead).schemes.lookup "F" =
      some (.close ["a", "b"] (.function [Ty.int.mono, .var "a"] (.var "b"))) := by cbv
  refine refusesTyped_of (by cbv) ⟨.function [.arrow Ty.int.mono Ty.int.mono] Ty.int.mono,
    .function (.cons (fun t ht => by cases ht) .nil) ?_⟩ (by cbv)
  generalize (openedWith functionHead).schemes = Γ at hf
  refine .cases (σ := .arrow Ty.int.mono Ty.int.mono) (.ident rfl ⟨fun _ => Ty.int.mono, rfl⟩) ?_
  refine .cons (.data (p := .close ["a", "b"] (.function [Ty.int.mono, .var "a"] (.var "b"))) ?_
    (show [Ty.int.mono].length = _ from rfl) ⟨fun _ => Ty.int.mono, rfl⟩)
    (.ident rfl ⟨fun _ => Ty.int.mono, rfl⟩) (.nil _ _ _)
  simpa [bindMonos, Config.bind, Config.isIgnored, Scope.lookup_insert, Scope.lookup_child] using hf

/-- Inference refuses values that have a type where an ascription binds variables in vain, where
datatypes have quantifiers in their heads, and where a constructor takes more arguments than it has
fields. -/
theorem bindValue_refuses_typed :
    ({} : Config).prelude.isRankOne ∧
    ((Ty.scheme (.ofList ["a"]) .int).isPrenex ∧
      (Ty.scheme (.ofList ["a"]) .int).hasKind Prelude.standard.kindScope ∧
      RefusesTyped [] "x" (.literal (.int 1)) (some (.scheme (.ofList ["a"]) .int))) ∧
    ((renamedHeads.all fun d => d.constructors.all fun c => c.fields.all Ty.isFlat) ∧
      RefusesTyped renamedHeads "y"
        (.guards [(.literal (.bool true), .ident "C")] (.ident "D")) none) ∧
    (functionHead.all Datatype.isRankOne ∧
      (functionHead.all fun d => d.constructors.all fun c => c.fields.length == ["n"].length) ∧
      RefusesTyped functionHead "y"
        (.lambda ["f"] (.cases (.ident "f") [(.data "F" ["n"], .ident "n")])) none) :=
  ⟨by decide, ⟨by decide, by cbv, refusesTyped_idle⟩, ⟨by decide, refusesTyped_renamedHeads⟩,
    by decide, by decide, refusesTyped_functionHead⟩

end LetPoly
