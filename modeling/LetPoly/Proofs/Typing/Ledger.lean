import LetPoly.Proofs.Typing.Settle

/-!
# The handles that a run gives out

A run gives out handles and lets handles go. `Inference.Gains` lists the handles that are live at its
end and were not at its start; `Inference.Adds` tells those of them that are still to be let go from
those that are lost, and counts the latter. `Inference.Fills` does so for a run that fills a scope:
the handles in the innermost scope are to be let go, and the others are lost.
-/

namespace LetPoly

open Inference Session

/-! ### Actions that give out nothing -/

namespace Inference

variable {α β : Type} {s s₀ s' : Inference}

lemma live_tracked (s : Inference) (t : Ty) (h : Handle) :
    (s.tracked t).Live h ↔ h = s.newHandle t ∨ s.Live h := by
  rw [Live, term?_tracked]
  split
  · rename_i heq
    simp [heq]
  · rename_i hne
    simp [hne, Live]

lemma live_released (s : Inference) (h h' : Handle) :
    (s.released h).Live h' ↔ h' ≠ h ∧ s.Live h' := by
  rw [Live, term?_released]
  split
  · rename_i heq
    simp [heq]
  · rename_i hne
    simp [hne, Live]

lemma live_settled (s : Inference) (h : Handle) : s.settled.Live h ↔ s.Live h := by
  have hterm : s.settled.term? h = (s.term? h).map _ := Unifier.term?_solve s.unifier h
  rw [Live, Live, hterm]
  simp

lemma live_replaced (s : Inference) (h : Handle) (t : Ty) (h' : Handle) :
    (s.replaced h t).Live h' ↔ s.Live h' := by
  by_cases hlive : s.Live h
  · obtain ⟨old, hold⟩ := hlive
    rw [Live, term?_replaced hold]
    split
    · rename_i heq
      simp [heq, Live, hold]
    · exact Iff.rfl
  · have hdead : s.unifier.live.get? h = none := by
      simpa [Live, term?, Unifier.term?, Option.eq_none_iff_forall_ne_some] using hlive
    have hsame : s.replaced h t = s := by
      rw [replaced, Unifier.replace, Store.replace, hdead]
    rw [hsame]

/-- The action neither gives out handles nor lets any go. -/
def KeepsLive (x : InferM α) : Prop :=
  ∀ s a s', x s = .ok a s' → ∀ h, s'.Live h ↔ s.Live h

namespace KeepsLive

lemma of_run {x : InferM α} {f : Inference → α} {g : Inference → Inference}
    (hrun : ∀ s, x s = .ok (f s) (g s)) (hlive : ∀ s h, (g s).Live h ↔ s.Live h) : KeepsLive x := by
  intro s a s' hx h
  rw [hrun] at hx
  cases hx
  exact hlive s h

lemma pure (a : α) : KeepsLive (Pure.pure a : InferM α) :=
  of_run (fun _ => rfl) fun _ _ => Iff.rfl

lemma fail (e : TypeError) : KeepsLive (Inference.fail e : InferM α) := by
  intro s a s' hx
  cases hx

lemma bind {x : InferM α} {f : α → InferM β} (hx : KeepsLive x) (hf : ∀ a, KeepsLive (f a)) :
    KeepsLive (x >>= f) := by
  intro s b s' hrun h
  obtain ⟨a, s₁, hxs, hfs⟩ := bind_eq_ok.1 hrun
  exact (hf a s₁ b s' hfs h).trans (hx s a s₁ hxs h)

lemma fresh : KeepsLive fresh := of_run fresh_run fun _ _ => Iff.rfl

lemma equate (a b : Ty) (origin : TypeOrigin) : KeepsLive (equate a b origin) :=
  of_run (fun s => equate_run s a b origin) fun _ _ => Iff.rfl

lemma replace (h : Handle) (t : Ty) : KeepsLive (replace h t) :=
  of_run (fun s => replace_run s h t) fun s h' => s.live_replaced h t h'

lemma instantiate (t : Ty) : KeepsLive (instantiate t) :=
  of_run (instantiate_run t) fun _ _ => Iff.rfl

lemma freshList (count : Nat) : KeepsLive (freshList count) :=
  of_run (freshList_run count) fun _ _ => Iff.rfl

lemma skolemize (sc : Scheme) : KeepsLive (skolemize sc) :=
  of_run (skolemize_run sc) fun _ _ => Iff.rfl

lemma current (h : Handle) : KeepsLive (current h) := by
  intro s t s' hrun
  obtain ⟨_, rfl⟩ := current_eq_ok hrun
  exact fun _ => Iff.rfl

lemma solve : KeepsLive Inference.solve := by
  intro s u s' hrun
  obtain ⟨_, rfl⟩ := solve_eq_ok hrun
  exact s.live_settled

lemma ascribe (kinds : Scope Kind) (t : Ty) : KeepsLive (ascribe kinds t) := by
  intro s t' s' hrun
  obtain ⟨_, _, _, rfl⟩ := ascribe_eq_ok hrun
  exact fun _ => Iff.rfl

lemma generalize (t : Ty) (fixed : List String) : KeepsLive (Inference.generalize t fixed) := by
  rw [Inference.generalize]
  cases t.generalize fixed with
  | ok g => exact .pure g
  | error e => exact .fail _

lemma freeVarsOf (hs : List Handle) : KeepsLive (freeVarsOf hs) := by
  induction hs with
  | nil => exact .pure []
  | cons h hs ih => exact (current h).bind fun _ => ih.bind fun _ => .pure _

lemma paramTy (kinds : Scope Kind) (p : Param) : KeepsLive (paramTy kinds p) := by
  rw [LetPoly.paramTy]
  cases p.ascription with
  | none => exact fresh
  | some t => exact ascribe kinds t

lemma constructorInstance (scope : Scope Handle) (name : String) :
    KeepsLive (constructorInstance scope name) := by
  rw [LetPoly.constructorInstance]
  cases scope.lookup name with
  | none => exact .fail _
  | some h => exact (current h).bind instantiate

lemma demandedTy (h : Handle) (ascribed : Option Ty) : KeepsLive (demandedTy h ascribed) := by
  have hcurrent : KeepsLive (do let ty ← Inference.current h; return (ty, []) :
      InferM (Ty × List (String × String))) := (current h).bind fun _ => .pure _
  match ascribed with
  | some (.scheme vars body) => exact skolemize ⟨vars, body⟩
  | none => exact hcurrent
  | some (.con _ _) => exact hcurrent
  | some (.var _ _ _) => exact hcurrent
  | some (.app _ _) => exact hcurrent

lemma refuseEscape (values : Scope Handle) (name : String) (rigid : List (String × String)) :
    KeepsLive (refuseEscape values name rigid) := by
  cases rigid with
  | nil => exact .pure ()
  | cons r rigid =>
    rw [LetPoly.refuseEscape]
    · refine (freeVarsOf _).bind fun fixed => ?_
      split
      · exact .fail _
      · exact .pure ()
    · simp

lemma closeTy (values : Scope Handle) (name : String) (h : Handle) (ascribed : Option Ty) :
    KeepsLive (closeTy values name h ascribed) := by
  cases ascribed with
  | some t => exact .pure ()
  | none =>
    exact (freeVarsOf _).bind fun fixed => (current h).bind fun t =>
      (generalize t fixed).bind fun g => replace h g

lemma settleTy (values : Scope Handle) (name : String) (ascribed : Option Ty) (h : Handle)
    (found : Ty) : KeepsLive (settleTy values name ascribed h found) :=
  (demandedTy h ascribed).bind fun _ => (equate _ _ _).bind fun _ => solve.bind fun _ =>
    (refuseEscape values name _).bind fun _ => closeTy values name h ascribed

end KeepsLive

/-! ### Handles given out -/

/-- Since `s₀` the handles `new` have become live, all different and none of them live before, and
nothing else has changed. -/
structure Gains (s₀ : Inference) (new : List Handle) (s : Inference) : Prop where
  nodup : new.Nodup
  dead : ∀ h ∈ new, ¬ s₀.Live h
  live (h : Handle) : s.Live h ↔ s₀.Live h ∨ h ∈ new

namespace Gains

variable {new new' : List Handle}

lemma refl (s : Inference) : s.Gains [] s := ⟨List.nodup_nil, by simp, by simp⟩

lemma perm (hs : s₀.Gains new s) (hperm : new.Perm new') : s₀.Gains new' s where
  nodup := hperm.nodup_iff.1 hs.nodup
  dead h hh := hs.dead h (hperm.mem_iff.2 hh)
  live h := by rw [hs.live, hperm.mem_iff]

lemma congr (hs : s₀.Gains new s) (hlive : ∀ h, s'.Live h ↔ s.Live h) : s₀.Gains new s' :=
  ⟨hs.nodup, hs.dead, fun h => (hlive h).trans (hs.live h)⟩

lemma tracked (hs : s₀.Gains new s) (t : Ty) : s₀.Gains (s.newHandle t :: new) (s.tracked t) where
  nodup := List.nodup_cons.2
    ⟨fun hmem => s.not_live_newHandle t ((hs.live _).2 (.inr hmem)), hs.nodup⟩
  dead := List.forall_mem_cons.2
    ⟨fun hlive => s.not_live_newHandle t ((hs.live _).2 (.inl hlive)), hs.dead⟩
  live h := by rw [live_tracked, hs.live, List.mem_cons, or_left_comm]

lemma released {h : Handle} (hs : s₀.Gains (h :: new) s) : s₀.Gains new (s.released h) where
  nodup := (List.nodup_cons.1 hs.nodup).2
  dead h' hh' := hs.dead h' (List.mem_cons_of_mem h hh')
  live h' := by
    rw [live_released, hs.live, List.mem_cons]
    constructor
    · rintro ⟨hne, hlive | heq | hmem⟩
      · exact .inl hlive
      · exact absurd heq hne
      · exact .inr hmem
    · rintro (hlive | hmem)
      · exact ⟨fun heq => hs.dead h List.mem_cons_self (heq ▸ hlive), .inl hlive⟩
      · exact ⟨ne_of_mem_of_not_mem hmem (List.nodup_cons.1 hs.nodup).1, .inr (.inr hmem)⟩

lemma trans (hs : s₀.Gains new s) (hs' : s.Gains new' s') : s₀.Gains (new ++ new') s' where
  nodup := List.nodup_append.2 ⟨hs.nodup, hs'.nodup, fun h hh h' hh' heq =>
    hs'.dead h' hh' ((hs.live h').2 (.inr (heq ▸ hh)))⟩
  dead h hh := (List.mem_append.1 hh).elim (hs.dead h) fun hh' hlive =>
    hs'.dead h hh' ((hs.live h).2 (.inl hlive))
  live h := by rw [hs'.live, hs.live, List.mem_append, or_assoc]

end Gains

/-- Since `s₀` the handles `held` have become live, which are to be let go, and `n` others. -/
def Adds (s₀ : Inference) (held : List Handle) (n : Nat) (s : Inference) : Prop :=
  ∃ lost : List Handle, lost.length = n ∧ s₀.Gains (held ++ lost) s

namespace Adds

variable {held : List Handle} {n m : Nat}

lemma refl (s : Inference) : s.Adds [] 0 s := ⟨[], rfl, .refl s⟩

lemma perm {held' : List Handle} (hs : s₀.Adds held n s) (hperm : held.Perm held') :
    s₀.Adds held' n s := by
  obtain ⟨lost, hn, hgains⟩ := hs
  exact ⟨lost, hn, hgains.perm (hperm.append_right lost)⟩

lemma keeps (hs : s₀.Adds held n s) {x : InferM α} (hx : KeepsLive x) {a : α}
    (hrun : x s = .ok a s') : s₀.Adds held n s' := by
  obtain ⟨lost, hn, hgains⟩ := hs
  exact ⟨lost, hn, hgains.congr (hx s a s' hrun)⟩

lemma tracked (hs : s₀.Adds held n s) (t : Ty) :
    s₀.Adds (s.newHandle t :: held) n (s.tracked t) := by
  obtain ⟨lost, hn, hgains⟩ := hs
  exact ⟨lost, hn, hgains.tracked t⟩

lemma released {h : Handle} (hs : s₀.Adds (h :: held) n s) : s₀.Adds held n (s.released h) := by
  obtain ⟨lost, hn, hgains⟩ := hs
  exact ⟨lost, hn, hgains.released⟩

/-- A handle that was to be let go is lost. -/
lemma lose {h : Handle} (hs : s₀.Adds (h :: held) n s) : s₀.Adds held (n + 1) s := by
  obtain ⟨lost, rfl, hgains⟩ := hs
  exact ⟨h :: lost, rfl, hgains.perm List.perm_middle.symm⟩

lemma trans (hs : s₀.Adds held n s) (hs' : s.Adds [] m s') : s₀.Adds held (n + m) s' := by
  obtain ⟨lost, rfl, hgains⟩ := hs
  obtain ⟨lost', rfl, hgains'⟩ := hs'
  refine ⟨lost ++ lost', List.length_append, ?_⟩
  rw [← List.append_assoc]
  exact hgains.trans hgains'

lemma live {h : Handle} (hs : s₀.Adds held n s) (hh : h ∈ held) : s.Live h := by
  obtain ⟨lost, -, hgains⟩ := hs
  exact (hgains.live h).2 (.inr (List.mem_append_left lost hh))

lemma dead {h : Handle} (hs : s₀.Adds held n s) (hh : h ∈ held) : ¬ s₀.Live h := by
  obtain ⟨lost, -, hgains⟩ := hs
  exact hgains.dead h (List.mem_append_left lost hh)

/-- With nothing to be let go and nothing lost, the live handles are the same. -/
lemma live_iff {h : Handle} (hs : s₀.Adds [] 0 s) : s.Live h ↔ s₀.Live h := by
  obtain ⟨lost, hn, hgains⟩ := hs
  rw [hgains.live, List.length_eq_zero_iff.1 hn]
  simp

lemma take {h : Handle} {t : Ty} (hs : s₀.Adds (h :: held) n s) (hrun : take h s = .ok t s') :
    s₀.Adds held n s' := by
  obtain ⟨t', ht'⟩ := hs.live List.mem_cons_self
  rw [take_run ht'] at hrun
  cases hrun
  exact hs.released

lemma takeAll {values : Scope Handle} {types : List Ty} (hs : s₀.Adds held n s)
    (hrun : takeAll values held s = .ok types s') :
    s₀.Adds [] n s' := by
  induction held generalizing s types with
  | nil =>
    obtain ⟨_, rfl⟩ := pure_eq_ok.1 hrun
    exact hs
  | cons h held ih =>
    obtain ⟨t, s₁, htake, hrun⟩ := bind_eq_ok.1 hrun
    obtain ⟨types', s₂, hrest, hpure⟩ := bind_eq_ok.1 hrun
    obtain ⟨_, rfl⟩ := pure_eq_ok.1 hpure
    exact ih (hs.take htake) hrest

lemma releasedAll (hs : s₀.Adds held n s) : s₀.Adds [] n (s.releasedAll held) := by
  induction held generalizing s with
  | nil => exact hs
  | cons h held ih => exact ih hs.released

end Adds

end Inference

/-! ### Handles in scope -/

/-- A name that is entered again gives up its value, and no other name does. -/
lemma Table.perm_values_enter {α : Type} (name : String) (value : α) (l : List (String × α)) :
    (name ∉ l.map Prod.fst ∧
      ((enter name value l).map Prod.snd).Perm (value :: l.map Prod.snd)) ∨
    name ∈ l.map Prod.fst ∧ ∃ old rest, (l.map Prod.snd).Perm (old :: rest) ∧
      ((enter name value l).map Prod.snd).Perm (value :: rest) := by
  induction l with
  | nil => exact .inl ⟨List.not_mem_nil, .refl _⟩
  | cons entry l ih =>
    obtain ⟨key, old⟩ := entry
    by_cases hkey : key = name
    · refine .inr ⟨by simp [hkey], old, l.map Prod.snd, .refl _, ?_⟩
      rw [enter, if_pos hkey]
      exact .refl _
    · rw [enter, if_neg hkey]
      rcases ih with ⟨hname, hperm⟩ | ⟨hname, old', rest, hold, hperm⟩
      · exact .inl ⟨by simpa [Ne.symm hkey] using hname, (hperm.cons old).trans (.swap _ _ _)⟩
      · exact .inr ⟨List.mem_cons_of_mem key hname, old', old :: rest,
          (hold.cons old).trans (.swap _ _ _), (hperm.cons old).trans (.swap _ _ _)⟩

/-- Since `s₀` the innermost scope has been filled: `given` handles have been given out, those in it
are among them, and its names are `names`. -/
structure Inference.Fills (s₀ : Inference) (names : List String) (given : Nat)
    (values : Scope Handle) (s : Inference) : Prop where
  adds : ∃ n, s₀.Adds values.innermost.values n s ∧ n + values.innermost.values.length = given
  names (x : String) : x ∈ values.innermost.names ↔ x ∈ names

namespace Inference.Fills

variable {config : Config} {s₀ s s' : Inference} {names : List String} {given m : Nat}
  {values : Scope Handle}

lemma start (s : Inference) (values : Scope Handle) : s.Fills [] 0 values.child s :=
  ⟨⟨0, .refl s, rfl⟩, fun _ => Iff.rfl⟩

lemma insert (hs : s₀.Fills names given values s) (name : String) (t : Ty) :
    s₀.Fills (names ++ [name]) (given + 1) (values.insert name (s.newHandle t)) (s.tracked t) where
  adds := by
    obtain ⟨n, hadds, hgiven⟩ := hs.adds
    have htracked := hadds.tracked t
    rcases Table.perm_values_enter name (s.newHandle t) values.innermost.entries with
      ⟨_, hperm⟩ | ⟨_, old, rest, hold, hperm⟩
    · refine ⟨n, htracked.perm hperm.symm, ?_⟩
      rw [← hgiven]
      exact congrArg (n + ·) hperm.length_eq
    · -- The handle that the name had before is in scope no more.
      refine ⟨n + 1, ((htracked.perm (hold.cons _)).perm (.swap _ _ _)).lose.perm hperm.symm, ?_⟩
      rw [← hgiven, Nat.add_right_comm, show values.innermost.values.length = _ from hold.length_eq]
      exact congrArg (n + · + 1) hperm.length_eq
  names x := by
    rw [List.mem_append, List.mem_singleton, ← hs.names, or_comm]
    exact Table.mem_keys_enter

lemma ignore (hs : s₀.Fills names given values s) (t : Ty) :
    s₀.Fills names (given + 1) values (s.tracked t) where
  adds := by
    obtain ⟨n, hadds, hgiven⟩ := hs.adds
    exact ⟨n + 1, (hadds.tracked t).lose, by omega⟩
  names := hs.names

lemma bind (hs : s₀.Fills names given values s) (config : Config) (name : String) (t : Ty) :
    s₀.Fills (names ++ [name].filter (!config.isIgnored ·)) (given + 1)
      (config.bind name (s.newHandle t) values) (s.tracked t) := by
  rw [Config.bind]
  split
  · rename_i hignored
    rw [List.filter_cons_of_neg (by simp [hignored]), List.filter_nil, List.append_nil]
    exact hs.ignore t
  · rename_i hbound
    rw [List.filter_cons_of_pos (by simpa using hbound), List.filter_nil]
    exact hs.insert name t

lemma trans (hs : s₀.Fills names given values s) (hs' : s.Adds [] m s') :
    s₀.Fills names (given + m) values s' where
  adds := by
    obtain ⟨n, hadds, hgiven⟩ := hs.adds
    exact ⟨n + m, hadds.trans hs', by omega⟩
  names := hs.names

lemma keeps {α : Type} (hs : s₀.Fills names given values s) {x : InferM α} (hx : KeepsLive x) {a : α}
    (hrun : x s = .ok a s') : s₀.Fills names given values s' :=
  hs.trans ((Adds.refl s).keeps hx hrun)

/-- Every name keeps one handle. -/
lemma length_values (hs : s₀.Fills names given values s) :
    values.innermost.values.length = distinct names := by
  have hperm : values.innermost.names.Perm names.eraseDups :=
    (List.perm_ext_iff_of_nodup values.innermost.nodup (nodup_eraseDups names)).2 fun x =>
      (hs.names x).trans List.mem_eraseDups.symm
  rw [distinct, ← hperm.length_eq, Table.values, Table.names, List.length_map, List.length_map]

/-- What is left once the handles in scope are let go. -/
lemma held (hs : s₀.Fills names given values s) :
    s₀.Adds values.innermost.values (given - distinct names) s := by
  obtain ⟨n, hadds, hgiven⟩ := hs.adds
  rw [hs.length_values] at hgiven
  rwa [show given - distinct names = n by omega]

end Inference.Fills

end LetPoly
