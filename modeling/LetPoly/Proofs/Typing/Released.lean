import LetPoly.Proofs.Typing.Ledger
import LetPoly.Proofs.Typing.Parameters

/-!
# What inference lets go

Types are tracked while an expression is walked and let go when the walk is done with them. For
functions the walk keeps a list of the handles that it has to let go. For match arms and `let` it goes
by what is in the innermost scope at the end, and misses the handles that are not there: those of
names that bind nothing and of names that were bound again. How many these are can be read off the
expression (`Expr.leaks`), and but for them the live handles are the same before and after
(`Expr.inferSolved_live`).
-/

namespace LetPoly

open Inference Session

/-! ### Names that keep no handle -/

/-- How many of the handles that are given out for names are not in scope in the end. Each name keeps
the last of its handles, and of the names `names` those that are ignored keep none. -/
def Config.unkept (config : Config) (always names : List String) : Nat :=
  always.length + names.length - distinct (always ++ names.filter (!config.isIgnored ·))

/-- The number of handles that stay behind when a match arm is left. -/
def Pattern.leaks (config : Config) : Pattern → Nat
  | .data _ captures => config.unkept [] captures
  | _ => 0

mutual
/-- The number of handles that stay behind when the type of an expression has been inferred. -/
def Expr.leaks (config : Config) : Expr → Nat
  | .literal _ => 0
  | .ident _ => 0
  | .internal _ => 0
  | .app func arg => func.leaks config + arg.leaks config
  | .function _ body => body.leaks config
  | .guards branches otherwise => Expr.leaksBranches config branches + otherwise.leaks config
  | .cases scrutinee arms => scrutinee.leaks config + Expr.leaksArms config arms
  | .letIn decls body =>
    config.unkept (Datatype.constructorNames (Decl.datatypes decls)) (Decl.valueNames decls) +
      Decl.leaks config decls + body.leaks config

/-- The number of handles that stay behind in guarded branches. -/
def Expr.leaksBranches (config : Config) : List (Expr × Expr) → Nat
  | [] => 0
  | (condition, branch) :: branches =>
    condition.leaks config + branch.leaks config + Expr.leaksBranches config branches

/-- The number of handles that stay behind in match arms. -/
def Expr.leaksArms (config : Config) : List (Pattern × Expr) → Nat
  | [] => 0
  | (pattern, body) :: arms =>
    pattern.leaks config + body.leaks config + Expr.leaksArms config arms

/-- The number of handles that stay behind in the values of declarations. -/
def Decl.leaks (config : Config) : List Decl → Nat
  | [] => 0
  | .value _ _ value _ :: decls => value.leaks config + Decl.leaks config decls
  | .datatype _ :: decls => Decl.leaks config decls
  | .fixity _ :: decls => Decl.leaks config decls
end

/-- Whether each name keeps the handle that is given out for it: no name is bound twice, and none of
`names` is ignored. -/
def Config.keepsAll (config : Config) (always names : List String) : Bool :=
  decide (always ++ names).Nodup && names.all (!config.isIgnored ·)

/-- Whether each name that a pattern captures keeps its handle. -/
def Pattern.isTidy (config : Config) : Pattern → Bool
  | .data _ captures => config.keepsAll [] captures
  | _ => true

mutual
/-- Whether each name bound in a pattern or a `let` keeps its handle. -/
def Expr.isTidy (config : Config) : Expr → Bool
  | .literal _ => true
  | .ident _ => true
  | .internal _ => true
  | .app func arg => func.isTidy config && arg.isTidy config
  | .function _ body => body.isTidy config
  | .guards branches otherwise => Expr.areTidyBranches config branches && otherwise.isTidy config
  | .cases scrutinee arms => scrutinee.isTidy config && Expr.areTidyArms config arms
  | .letIn decls body =>
    config.keepsAll (Datatype.constructorNames (Decl.datatypes decls)) (Decl.valueNames decls) &&
      Decl.areTidy config decls && body.isTidy config

/-- Whether guarded branches are tidy. -/
def Expr.areTidyBranches (config : Config) : List (Expr × Expr) → Bool
  | [] => true
  | (condition, branch) :: branches =>
    condition.isTidy config && branch.isTidy config && Expr.areTidyBranches config branches

/-- Whether match arms are tidy. -/
def Expr.areTidyArms (config : Config) : List (Pattern × Expr) → Bool
  | [] => true
  | (pattern, body) :: arms =>
    pattern.isTidy config && body.isTidy config && Expr.areTidyArms config arms

/-- Whether the values of declarations are tidy. -/
def Decl.areTidy (config : Config) : List Decl → Bool
  | [] => true
  | .value _ _ value _ :: decls => value.isTidy config && Decl.areTidy config decls
  | .datatype _ :: decls => Decl.areTidy config decls
  | .fixity _ :: decls => Decl.areTidy config decls
end

lemma distinct_le_length (l : List String) : distinct l ≤ l.length :=
  (nodup_eraseDups l).length_le_of_subset fun _ hx => List.mem_eraseDups.1 hx

lemma distinct_eq_length_iff {l : List String} : distinct l = l.length ↔ l.Nodup := by
  have hsubperm : l.eraseDups.Subperm l :=
    (nodup_eraseDups l).subperm fun _ hx => List.mem_eraseDups.1 hx
  constructor
  · intro hlength
    exact (hsubperm.perm_of_length_le hlength.ge).nodup_iff.1 (nodup_eraseDups l)
  · intro hnodup
    refine Nat.le_antisymm (distinct_le_length l) (hnodup.length_le_of_subset fun x hx => ?_)
    exact List.mem_eraseDups.2 hx

section Names

variable (config : Config) (always names : List String)

lemma distinct_bound_le :
    distinct (always ++ names.filter (!config.isIgnored ·)) ≤ always.length + names.length := by
  have hle := distinct_le_length (always ++ names.filter (!config.isIgnored ·))
  rw [List.length_append] at hle
  exact Nat.le_trans hle (Nat.add_le_add_left (List.length_filter_le _ names) _)

lemma Config.unkept_eq_zero_iff :
    config.unkept always names = 0 ↔ config.keepsAll always names := by
  rw [unkept, keepsAll, Bool.and_eq_true, decide_eq_true_eq, List.all_eq_true, Nat.sub_eq_zero_iff_le]
  constructor
  · intro hle
    have hdistinct := distinct_le_length (always ++ names.filter (!config.isIgnored ·))
    rw [List.length_append] at hdistinct
    have hfilter : (names.filter (!config.isIgnored ·)).length = names.length :=
      Nat.le_antisymm (List.length_filter_le _ names) (by omega)
    have hall := List.length_filter_eq_length_iff.1 hfilter
    rw [List.filter_eq_self.2 hall] at hle
    refine ⟨distinct_eq_length_iff.1 (Nat.le_antisymm (distinct_le_length _) ?_), hall⟩
    rwa [List.length_append]
  · rintro ⟨hnodup, hall⟩
    rw [List.filter_eq_self.2 hall, distinct_eq_length_iff.2 hnodup, List.length_append]

end Names

lemma Pattern.leaks_eq_zero_iff (config : Config) (p : Pattern) :
    p.leaks config = 0 ↔ p.isTidy config := by
  cases p with
  | data name captures => exact config.unkept_eq_zero_iff [] captures
  | capture _ => simp [leaks, isTidy]
  | literal _ => simp [leaks, isTidy]
  | constructor _ => simp [leaks, isTidy]

mutual
/-- Tidy expressions are those that lose no handle. -/
lemma Expr.leaks_eq_zero_iff (config : Config) : (e : Expr) →
    (e.leaks config = 0 ↔ e.isTidy config)
  | .literal _ => by simp [Expr.leaks, Expr.isTidy]
  | .ident _ => by simp [Expr.leaks, Expr.isTidy]
  | .internal _ => by simp [Expr.leaks, Expr.isTidy]
  | .app func arg => by
    rw [Expr.leaks, Expr.isTidy, Nat.add_eq_zero_iff, Bool.and_eq_true, func.leaks_eq_zero_iff,
      arg.leaks_eq_zero_iff]
  | .function _ body => by rw [Expr.leaks, Expr.isTidy, body.leaks_eq_zero_iff]
  | .guards branches otherwise => by
    rw [Expr.leaks, Expr.isTidy, Nat.add_eq_zero_iff, Bool.and_eq_true,
      Expr.leaksBranches_eq_zero_iff config branches, otherwise.leaks_eq_zero_iff]
  | .cases scrutinee arms => by
    rw [Expr.leaks, Expr.isTidy, Nat.add_eq_zero_iff, Bool.and_eq_true,
      scrutinee.leaks_eq_zero_iff, Expr.leaksArms_eq_zero_iff config arms]
  | .letIn decls body => by
    rw [Expr.leaks, Expr.isTidy, Nat.add_eq_zero_iff, Nat.add_eq_zero_iff, Bool.and_eq_true,
      Bool.and_eq_true, Config.unkept_eq_zero_iff, Decl.leaks_eq_zero_iff config decls,
      body.leaks_eq_zero_iff]

lemma Expr.leaksBranches_eq_zero_iff (config : Config) : (branches : List (Expr × Expr)) →
    (Expr.leaksBranches config branches = 0 ↔ Expr.areTidyBranches config branches)
  | [] => by simp [Expr.leaksBranches, Expr.areTidyBranches]
  | (condition, branch) :: branches => by
    rw [Expr.leaksBranches, Expr.areTidyBranches, Nat.add_eq_zero_iff, Nat.add_eq_zero_iff,
      Bool.and_eq_true, Bool.and_eq_true, condition.leaks_eq_zero_iff, branch.leaks_eq_zero_iff,
      Expr.leaksBranches_eq_zero_iff config branches]

lemma Expr.leaksArms_eq_zero_iff (config : Config) : (arms : List (Pattern × Expr)) →
    (Expr.leaksArms config arms = 0 ↔ Expr.areTidyArms config arms)
  | [] => by simp [Expr.leaksArms, Expr.areTidyArms]
  | (pattern, body) :: arms => by
    rw [Expr.leaksArms, Expr.areTidyArms, Nat.add_eq_zero_iff, Nat.add_eq_zero_iff,
      Bool.and_eq_true, Bool.and_eq_true, pattern.leaks_eq_zero_iff, body.leaks_eq_zero_iff,
      Expr.leaksArms_eq_zero_iff config arms]

lemma Decl.leaks_eq_zero_iff (config : Config) : (decls : List Decl) →
    (Decl.leaks config decls = 0 ↔ Decl.areTidy config decls)
  | [] => by simp [Decl.leaks, Decl.areTidy]
  | .value _ _ value _ :: decls => by
    rw [Decl.leaks, Decl.areTidy, Nat.add_eq_zero_iff, Bool.and_eq_true, value.leaks_eq_zero_iff,
      Decl.leaks_eq_zero_iff config decls]
  | .datatype _ :: decls => by
    rw [Decl.leaks, Decl.areTidy, Decl.leaks_eq_zero_iff config decls]
  | .fixity _ :: decls => by
    rw [Decl.leaks, Decl.areTidy, Decl.leaks_eq_zero_iff config decls]
end

/-! ### Parameters and patterns -/

section Walk

variable {config : Config} {s₀ s s' : Inference} {held : List Handle} {n : Nat}

lemma adds_bindParams {kinds : Scope Kind} {params : List Param} {scope : Scope Handle}
    {r : Scope Handle × List Handle} (hs : s₀.Adds held n s)
    (hrun : bindParams config kinds params scope s = .ok r s') : s₀.Adds (r.2 ++ held) n s' := by
  induction params generalizing scope s held r with
  | nil =>
    obtain ⟨rfl, rfl⟩ := pure_eq_ok.1 hrun
    exact hs
  | cons p params ih =>
    rw [bindParams] at hrun
    obtain ⟨t, s₁, hparam, hrun⟩ := bind_eq_ok.1 hrun
    rw [step_of_ok (track_run _ _)] at hrun
    obtain ⟨r', s₂, hrest, hpure⟩ := bind_eq_ok.1 hrun
    obtain ⟨rfl, rfl⟩ := pure_eq_ok.1 hpure
    exact (ih ((hs.keeps (.paramTy kinds p) hparam).tracked t) hrest).perm List.perm_middle

lemma fills_bindCaptures {names : List String} {given : Nat} {captures : List (String × Ty)}
    {scope scope' : Scope Handle} (hs : s₀.Fills names given scope s)
    (hrun : bindCaptures config captures scope s = .ok scope' s') :
    s₀.Fills (names ++ (captures.map Prod.fst).filter (!config.isIgnored ·))
      (given + captures.length) scope' s' := by
  induction captures generalizing names given scope s with
  | nil =>
    obtain ⟨rfl, rfl⟩ := pure_eq_ok.1 hrun
    simpa using hs
  | cons capture captures ih =>
    obtain ⟨name, t⟩ := capture
    rw [bindCaptures, step_of_ok (track_run _ _)] at hrun
    have hrest := ih (hs.bind config name t) hrun
    rw [List.append_assoc, ← List.filter_append] at hrest
    rwa [List.length_cons, Nat.add_comm captures.length, ← Nat.add_assoc]

/-- After a pattern, the handles in its scope other than the scrutinee are the ones to be let go. -/
lemma adds_bindPattern {scrutinee : Handle} {values scope : Scope Handle} {pattern : Pattern}
    (hrun : bindPattern config scrutinee values.child pattern s = .ok scope s') :
    s.Adds (scope.innermost.values.filter (· ≠ scrutinee)) (pattern.leaks config) s' := by
  cases pattern with
  | capture name =>
    obtain ⟨rfl, rfl⟩ := pure_eq_ok.1 hrun
    have hnone : (config.bind name scrutinee values.child).innermost.values.filter
        (· ≠ scrutinee) = [] := by
      rw [Config.bind]
      split
      · rfl
      · exact List.filter_cons_of_neg (by simp)
    rw [hnone]
    exact .refl s
  | literal value =>
    obtain ⟨t, s₁, hcurrent, hrun⟩ := bind_eq_ok.1 hrun
    obtain ⟨_, s₂, hequate, hpure⟩ := bind_eq_ok.1 hrun
    obtain ⟨rfl, rfl⟩ := pure_eq_ok.1 hpure
    exact ((Adds.refl s).keeps (.current _) hcurrent).keeps (.equate _ _ _) hequate
  | constructor name =>
    obtain ⟨found, s₁, hfound, hrun⟩ := bind_eq_ok.1 hrun
    obtain ⟨t, s₂, hcurrent, hrun⟩ := bind_eq_ok.1 hrun
    obtain ⟨_, s₃, hequate, hpure⟩ := bind_eq_ok.1 hrun
    obtain ⟨rfl, rfl⟩ := pure_eq_ok.1 hpure
    exact (((Adds.refl s).keeps (.constructorInstance _ _) hfound).keeps (.current _) hcurrent).keeps
      (.equate _ _ _) hequate
  | data name captures =>
    rw [bindPattern] at hrun
    obtain ⟨found, s₁, hfound, hrun⟩ := bind_eq_ok.1 hrun
    split at hrun
    · cases hrun
    · beta_reduce at hrun
      obtain ⟨fields, s₂, hfresh, hrun⟩ := bind_eq_ok.1 hrun
      obtain ⟨t, s₃, hcurrent, hrun⟩ := bind_eq_ok.1 hrun
      obtain ⟨_, s₄, hequate, hrun⟩ := bind_eq_ok.1 hrun
      have hstart := ((Fills.start s values).keeps (.constructorInstance _ _) hfound).keeps
        (.freshList _) hfresh
      have hlen : fields.length = captures.length := by
        rw [step_plain, freshList_run] at hfresh
        cases hfresh
        simp
      have hheld := (fills_bindCaptures ((hstart.keeps (.current _) hcurrent).keeps
        (.equate _ _ _) hequate) hrun).held
      -- The scrutinee was there before, so it is none of the handles given out.
      have hscrutinee : s.Live scrutinee :=
        hstart.held.live_iff.1 ⟨t, (current_eq_ok hcurrent).1⟩
      have hall : scope.innermost.values.filter (· ≠ scrutinee) = scope.innermost.values :=
        List.filter_eq_self.2 fun h hh => by
          simpa using fun heq : h = scrutinee => hheld.dead hh (heq ▸ hscrutinee)
      rw [List.map_fst_zip hlen.ge, List.length_zip, hlen, Nat.min_self] at hheld
      rw [hall]
      exact hheld

/-! ### Declarations -/

lemma fills_registerEach {names : List String} {given : Nat} {d : Datatype}
    {constructors : List Constructor} {S S' : Session} {u : Unit}
    (hs : s₀.Fills names given S.env.values S.inference)
    (hrun : registerEach d constructors S = .ok u S') :
    s₀.Fills (names ++ constructors.map (·.name)) (given + constructors.length) S'.env.values
      S'.inference := by
  induction constructors generalizing names given S with
  | nil =>
    obtain ⟨_, rfl⟩ := pure_eq_ok.1 hrun
    simpa using hs
  | cons c constructors ih =>
    obtain ⟨t, S₁, hquantify, hrun⟩ := bind_eq_ok.1 hrun
    obtain ⟨s₁, hquantify', rfl⟩ := liftM_eq_ok hquantify
    obtain ⟨_, rfl⟩ := quantify_eq_ok hquantify'
    have hrest := ih (hs.insert c.name t) hrun
    rw [List.append_assoc] at hrest
    rwa [List.length_cons, Nat.add_comm constructors.length, ← Nat.add_assoc]

lemma fills_registerAll {names : List String} {given : Nat} {ds : List Datatype} {S S' : Session}
    {u : Unit} (hs : s₀.Fills names given S.env.values S.inference)
    (hrun : registerAll ds S = .ok u S') :
    s₀.Fills (names ++ Datatype.constructorNames ds) (given + (Datatype.constructorNames ds).length)
      S'.env.values S'.inference := by
  induction ds generalizing names given S with
  | nil =>
    obtain ⟨_, rfl⟩ := pure_eq_ok.1 hrun
    simpa [Datatype.constructorNames, Datatype.constructorsOf] using hs
  | cons d ds ih =>
    obtain ⟨_, S₁, hd, hds⟩ := bind_eq_ok.1 hrun
    have hrest := ih (fills_registerEach hs hd) hds
    rw [Datatype.constructorNames_cons, List.length_append, List.length_map, ← List.append_assoc,
      ← Nat.add_assoc]
    exact hrest

/-- The handle of a value stays as it is given out, whatever becomes of its type. -/
lemma fills_bindValueWith {names : List String} {given m : Nat} {name : String}
    {ascription : Option Ty} {inferValue : Env → InferM Ty} {S S' : Session} {u : Unit}
    (hs : s₀.Fills names given S.env.values S.inference)
    (hvalue : ∀ env s t s', inferValue env s = .ok t s' → s.Adds [] m s')
    (hrun : bindValueWith config name ascription inferValue S = .ok u S') :
    s₀.Fills (names ++ [name].filter (!config.isIgnored ·)) (given + 1 + m) S'.env.values
      S'.inference := by
  cases ascription with
  | none =>
    obtain ⟨found, s₁, s₂, hinfer, hsettle, rfl⟩ := bindValueWith_infer_eq_ok.1 hrun
    have hbound := (hs.keeps .fresh (fresh_run _)).bind config name (.fresh S.inference.next)
    exact (hbound.trans (hvalue _ _ _ _ hinfer)).keeps (.settleTy _ _ _ _ _) hsettle
  | some t =>
    obtain ⟨kinds, q, hkinds, _, found, s₁, s₂, hinfer, hsettle, rfl⟩ :=
      bindValueWith_check_eq_ok.1 hrun
    have hbound := (hs.keeps (.ascribe _ _) (ascribe_run hkinds _)).bind config name q
    exact (hbound.trans (hvalue _ _ _ _ hinfer)).keeps (.settleTy _ _ _ _ _) hsettle

end Walk

/-! ### Expressions -/

mutual
/-- Inferring the type of an expression loses as many handles as the expression says. -/
lemma Expr.adds_infer (config : Config) (env : Env) : (e : Expr) → {s s' : Inference} → {t : Ty} →
    e.infer config env s = .ok t s' → s.Adds [] (e.leaks config) s'
  | .literal _, _, _, _, hrun => by
    obtain ⟨_, rfl⟩ := pure_eq_ok.1 hrun
    exact .refl _
  | .ident name, s, _, _, hrun => by
    rw [Expr.infer] at hrun
    cases hlookup : env.values.lookup name with
    | none => rw [hlookup] at hrun; cases hrun
    | some h =>
      rw [hlookup] at hrun
      exact (Adds.refl s).keeps ((KeepsLive.current h).bind KeepsLive.instantiate) hrun
  | .internal name, s, _, _, hrun => by
    rw [Expr.infer] at hrun
    cases hfind : config.prelude.internals.find? name with
    | none => rw [hfind] at hrun; cases hrun
    | some t =>
      rw [hfind] at hrun
      exact (Adds.refl s).keeps (.instantiate t) hrun
  | .app func arg, s, _, _, hrun => by
    rw [Expr.infer] at hrun
    obtain ⟨tf, s₁, hfunc, hrun⟩ := bind_eq_ok.1 hrun
    rw [step_of_ok (track_run _ _)] at hrun
    obtain ⟨ta, s₂, harg, hrun⟩ := bind_eq_ok.1 hrun
    obtain ⟨result, s₃, hfresh, hrun⟩ := bind_eq_ok.1 hrun
    obtain ⟨t, s₄, htake, hrun⟩ := bind_eq_ok.1 hrun
    have hboth := ((func.adds_infer config env hfunc).tracked tf).trans
      (arg.adds_infer config env harg)
    exact ((hboth.keeps .fresh hfresh).take htake).keeps
      ((KeepsLive.equate _ _ _).bind fun _ => .pure _) hrun
  | .function params body, s, _, _, hrun => by
    rw [Expr.infer] at hrun
    obtain ⟨⟨scope, handles⟩, s₁, hparams, hrun⟩ := bind_eq_ok.1 hrun
    obtain ⟨tb, s₂, hbody, hrun⟩ := bind_eq_ok.1 hrun
    obtain ⟨types, s₃, htake, hpure⟩ := bind_eq_ok.1 hrun
    obtain ⟨_, rfl⟩ := pure_eq_ok.1 hpure
    have hbound := (adds_bindParams (Adds.refl s) hparams).trans (body.adds_infer config _ hbody)
    rw [List.append_nil, Nat.zero_add] at hbound
    exact hbound.takeAll htake
  | .guards branches otherwise, s, _, _, hrun => by
    rw [Expr.infer] at hrun
    obtain ⟨tr, s₁, hfresh, hrun⟩ := bind_eq_ok.1 hrun
    rw [step_of_ok (track_run _ _)] at hrun
    obtain ⟨_, s₂, hbranches, hrun⟩ := bind_eq_ok.1 hrun
    obtain ⟨te, s₃, hotherwise, hrun⟩ := bind_eq_ok.1 hrun
    obtain ⟨t, s₄, hcurrent, hrun⟩ := bind_eq_ok.1 hrun
    obtain ⟨_, s₅, hequate, htake⟩ := bind_eq_ok.1 hrun
    have hall := ((((Adds.refl s).keeps .fresh hfresh).tracked tr).trans
      (Expr.adds_inferBranches config env _ branches hbranches)).trans
      (otherwise.adds_infer config env hotherwise)
    rw [Nat.zero_add] at hall
    exact ((hall.keeps (.current _) hcurrent).keeps (.equate _ _ _) hequate).take htake
  | .cases scrutinee arms, s, _, _, hrun => by
    rw [Expr.infer] at hrun
    obtain ⟨ts, s₁, hscrutinee, hrun⟩ := bind_eq_ok.1 hrun
    rw [step_of_ok (track_run _ _)] at hrun
    obtain ⟨tr, s₂, hfresh, hrun⟩ := bind_eq_ok.1 hrun
    rw [step_of_ok (track_run _ _)] at hrun
    obtain ⟨_, s₃, harms, hrun⟩ := bind_eq_ok.1 hrun
    rw [step_of_ok (release_run _ _)] at hrun
    have hall := (((((scrutinee.adds_infer config env hscrutinee).tracked ts).keeps .fresh
      hfresh).tracked tr).trans (Expr.adds_inferArms config env _ _ arms harms)).perm (.swap _ _ _)
    exact hall.released.take hrun
  | .letIn decls body, s, s', _, hrun => by
    rw [Expr.infer] at hrun
    obtain ⟨inner, s₁, hinner, hrun⟩ := bind_eq_ok.1 hrun
    obtain ⟨tb, s₂, hbody, hrun⟩ := bind_eq_ok.1 hrun
    rw [bind_of_ok (releaseAll_run _ _)] at hrun
    obtain ⟨_, rfl⟩ := pure_eq_ok.1 hrun
    obtain ⟨_, S₁, hdatatypes, hvalues⟩ := bind_eq_ok.1 (within_eq_ok.1 hinner)
    obtain ⟨⟨kinds, group⟩, S₀, htypes, hregister⟩ := bind_eq_ok.1 hdatatypes
    obtain ⟨found, _, hgroup, rfl⟩ := declareTypes_eq_ok.1 (adaptExcept_eq_ok.1 htypes)
    cases hgroup
    have hstart : s.Fills [] 0 env.values.child (s.noted found.recorded) :=
      (Fills.start s env.values).keeps (.of_run (record_run · found.recorded) fun _ _ => Iff.rfl)
        (record_run s found.recorded)
    have hfilled := Decl.fills_bindAll config decls (fills_registerAll hstart hregister) hvalues
    rw [Datatype.constructorNames_fillDatatypes] at hfilled
    have hheld := hfilled.held.trans (body.adds_infer config inner hbody)
    have hle := distinct_bound_le config (Datatype.constructorNames (Decl.datatypes decls))
      (Decl.valueNames decls)
    rw [List.nil_append, Nat.zero_add, Nat.sub_add_comm hle] at hheld
    exact hheld.releasedAll

lemma Expr.adds_inferBranches (config : Config) (env : Env) (result : Handle) :
    (branches : List (Expr × Expr)) → {s s' : Inference} → {u : Unit} →
    Expr.inferBranches config env result branches s = .ok u s' →
    s.Adds [] (Expr.leaksBranches config branches) s'
  | [], _, _, _, hrun => by
    obtain ⟨_, rfl⟩ := pure_eq_ok.1 hrun
    exact .refl _
  | (condition, branch) :: branches, s, _, _, hrun => by
    rw [Expr.inferBranches] at hrun
    obtain ⟨tc, s₁, hcondition, hrun⟩ := bind_eq_ok.1 hrun
    obtain ⟨_, s₂, hbool, hrun⟩ := bind_eq_ok.1 hrun
    obtain ⟨tb, s₃, hbranch, hrun⟩ := bind_eq_ok.1 hrun
    obtain ⟨tr, s₄, hcurrent, hrun⟩ := bind_eq_ok.1 hrun
    obtain ⟨_, s₅, hequate, hrest⟩ := bind_eq_ok.1 hrun
    have hone := (((condition.adds_infer config env hcondition).keeps (.equate _ _ _) hbool).trans
      (branch.adds_infer config env hbranch)).keeps (.current _) hcurrent
    exact (hone.keeps (.equate _ _ _) hequate).trans
      (Expr.adds_inferBranches config env result branches hrest)

lemma Expr.adds_inferArms (config : Config) (env : Env) (scrutinee result : Handle) :
    (arms : List (Pattern × Expr)) → {s s' : Inference} → {u : Unit} →
    Expr.inferArms config env scrutinee result arms s = .ok u s' →
    s.Adds [] (Expr.leaksArms config arms) s'
  | [], _, _, _, hrun => by
    obtain ⟨_, rfl⟩ := pure_eq_ok.1 hrun
    exact .refl _
  | (pattern, body) :: arms, s, _, _, hrun => by
    rw [Expr.inferArms] at hrun
    obtain ⟨scope, s₁, hpattern, hrun⟩ := bind_eq_ok.1 hrun
    obtain ⟨tb, s₂, hbody, hrun⟩ := bind_eq_ok.1 hrun
    obtain ⟨tr, s₃, hcurrent, hrun⟩ := bind_eq_ok.1 hrun
    obtain ⟨_, s₄, hequate, hrun⟩ := bind_eq_ok.1 hrun
    rw [bind_of_ok (releaseAll_run _ _)] at hrun
    have hone := (((adds_bindPattern hpattern).trans (body.adds_infer config _ hbody)).keeps
      (.current _) hcurrent).keeps (.equate _ _ _) hequate
    exact hone.releasedAll.trans (Expr.adds_inferArms config env scrutinee result arms hrun)

lemma Decl.fills_bindAll (config : Config) : (decls : List Decl) → {s₀ : Inference} →
    {names : List String} → {given : Nat} → {S S' : Session} → {u : Unit} →
    s₀.Fills names given S.env.values S.inference → Decl.bindAll config decls S = .ok u S' →
    s₀.Fills (names ++ (Decl.valueNames decls).filter (!config.isIgnored ·))
      (given + (Decl.valueNames decls).length + Decl.leaks config decls) S'.env.values S'.inference
  | [], _, _, _, _, _, _, hs, hrun => by
    obtain ⟨_, rfl⟩ := pure_eq_ok.1 hrun
    simpa [Decl.valueNames, Decl.leaks] using hs
  | .value name ascription value _ :: decls, _, _, given, _, _, _, hs, hrun => by
    rw [Decl.bindAll] at hrun
    obtain ⟨_, S₁, hbind, hrest⟩ := bind_eq_ok.1 hrun
    have hbound := fills_bindValueWith hs (fun env _ _ _ => value.adds_infer config env) hbind
    have hfilled := Decl.fills_bindAll config decls hbound hrest
    have hcount : given + 1 + value.leaks config + (Decl.valueNames decls).length +
        Decl.leaks config decls = given + ((Decl.valueNames decls).length + 1) +
          (value.leaks config + Decl.leaks config decls) := by omega
    rw [List.append_assoc, ← List.filter_append, hcount] at hfilled
    exact hfilled
  | .datatype _ :: decls, _, _, _, _, _, _, hs, hrun => Decl.fills_bindAll config decls hs hrun
  | .fixity _ :: decls, _, _, _, _, _, _, hs, hrun => Decl.fills_bindAll config decls hs hrun
end

/-- Inferring the type of an expression leaves the live handles as they were, but for those that the
expression loses. They are all as they were iff no pattern and no `let` in it ignores a name or binds
one twice. -/
theorem Expr.inferSolved_live (config : Config) (env : Env) (e : Expr) {s s' : Inference} {t : Ty}
    (hrun : e.inferSolved config env s = .ok t s') :
    (∃ lost : List Handle, lost.Nodup ∧ lost.length = e.leaks config ∧ (∀ h ∈ lost, ¬ s.Live h) ∧
      ∀ h, s'.Live h ↔ s.Live h ∨ h ∈ lost) ∧
    ((∀ h, s'.Live h ↔ s.Live h) ↔ e.isTidy config) := by
  rw [inferSolved] at hrun
  obtain ⟨found, s₁, hinfer, hrun⟩ := bind_eq_ok.1 hrun
  rw [step_of_ok (track_run _ _)] at hrun
  obtain ⟨_, s₂, hsolve, htake⟩ := bind_eq_ok.1 hrun
  obtain ⟨lost, hlength, hgains⟩ :=
    (((e.adds_infer config env hinfer).tracked found).keeps .solve hsolve).take htake
  refine ⟨⟨lost, hgains.nodup, hlength, hgains.dead, hgains.live⟩, ?_⟩
  rw [← e.leaks_eq_zero_iff config, ← hlength, List.length_eq_zero_iff,
    List.eq_nil_iff_forall_not_mem]
  refine forall_congr' fun h => ?_
  rw [hgains.live]
  exact ⟨fun hiff hh => hgains.dead h hh (hiff.1 (.inr hh)), fun hh => or_iff_left hh⟩

/-- `C : forall a. a -> T`. -/
def boxTy : Ty := .quantified ["a"] (.arrow (.rigid "a") (.con "T" none))

/-- A state in which `C` and `t : T` are tracked. -/
def boxState : Inference := (Inference.initial.tracked boxTy).tracked (.con "T" none)

/-- A scope that holds `C` and `t`. -/
def boxEnv : Env :=
  ⟨.ofTable (.ofList [("C", ⟨0, 0⟩), ("t", ⟨1, 1⟩)]), Prelude.standard.kindScope⟩

/-- `match t { C(name) => 1 }`. -/
def matchBox (name : String) : Expr :=
  .cases (.ident "t") [(.data "C" [name], .literal (.int 1))]

/-- `let x = 1; x = x; _ = match t { C(y) => 1 } in match t { C(_) => 1 }`. -/
def wasteful : Expr :=
  .letIn [.value "x" none (.literal (.int 1)) {}, .value "x" none (.ident "x") {},
    .value "_" none (matchBox "y") {}] (matchBox "_")

/-- Two handles are lost by the `let` and one by the second match. The first match loses none. -/
theorem Expr.inferSolved_live_wasteful :
    (∃ s', wasteful.inferSolved {} boxEnv boxState = .ok .int s' ∧
      ∃ lost : List Handle, lost.Nodup ∧ lost.length = 3 ∧ (∀ h ∈ lost, ¬ boxState.Live h) ∧
        ∀ h, s'.Live h ↔ boxState.Live h ∨ h ∈ lost) ∧
    ∃ s', (matchBox "y").inferSolved {} boxEnv boxState = .ok .int s' ∧
      ∀ h, s'.Live h ↔ boxState.Live h := by
  have hwasteful : ∃ s', wasteful.inferSolved {} boxEnv boxState = .ok .int s' := ⟨_, by cbv⟩
  have htidy : ∃ s', (matchBox "y").inferSolved {} boxEnv boxState = .ok .int s' := ⟨_, by cbv⟩
  obtain ⟨s₁, hwasteful⟩ := hwasteful
  obtain ⟨s₂, htidy⟩ := htidy
  exact ⟨⟨s₁, hwasteful, (inferSolved_live {} boxEnv wasteful hwasteful).1⟩,
    s₂, htidy, (inferSolved_live {} boxEnv (matchBox "y") htidy).2.2 (by decide)⟩

/-- The handles of ignored names stay live, in a match and in a `let`, although everything in scope
was live to begin with. -/
theorem Expr.inferSolved_keeps_ignored :
    (∀ h ∈ boxEnv.values.values, boxState.Live h) ∧
    (∃ s' h, (matchBox "_").inferSolved {} boxEnv boxState = .ok .int s' ∧ s'.Live h ∧
      ¬ boxState.Live h) ∧
    ∃ s' h, (Expr.letIn [.value "_" none (.literal (.int 1)) {}] (.literal (.int 2))).inferSolved {}
      boxEnv boxState = .ok .int s' ∧ s'.Live h ∧ ¬ boxState.Live h := by
  refine ⟨?_, ⟨_, ⟨4, 4⟩, by cbv, ⟨_, by cbv⟩, ?_⟩, _, ⟨2, 2⟩, by cbv, ⟨_, by cbv⟩, ?_⟩
  · have hvalues : boxEnv.values.values = [⟨0, 0⟩, ⟨1, 1⟩] := rfl
    rw [hvalues, List.forall_mem_cons, List.forall_mem_singleton]
    exact ⟨⟨_, by cbv⟩, ⟨_, by cbv⟩⟩
  · rintro ⟨t, ht⟩
    cases ht
  · rintro ⟨t, ht⟩
    cases ht

end LetPoly
