import LetPoly.Proofs.Kind.Curried
import LetPoly.Proofs.Ty.Names

/-!
# The written form of kinds is unambiguous

A kind is written as the row of its links, with arrows between them and chains among them in
parentheses. A row of links can be read in one way only, whatever its links are: the digits of a
variable go on until something else comes, and a parenthesis is closed where the row inside of it
has no arrow left (`Kind.rowText_injective`). Among flat kinds the row determines the kind
(`Kind.eq_of_render_eq`).
-/

namespace LetPoly

/-! ### Where a text ends -/

/-- Texts that do not begin with a digit. -/
def StopsDigits (r : List Char) : Prop := ∀ c, r.head? = some c → c.isDigit = false

/-- Texts that may follow a row of links: nothing, or what comes after a closing parenthesis. -/
inductive ClosesRow : List Char → Prop
  | nothing : ClosesRow []
  | parenthesis (r : List Char) : ClosesRow (')' :: r)

lemma stopsDigits_cons {c : Char} (h : c.isDigit = false) (r : List Char) : StopsDigits (c :: r) :=
  fun _ hc => Option.some.inj hc ▸ h

lemma ClosesRow.stopsDigits {r : List Char} (h : ClosesRow r) : StopsDigits r := by
  cases h with
  | nothing => exact fun _ hc => (by cases hc)
  | parenthesis r => exact stopsDigits_cons (by decide) r

/-- A longer number would go on with a digit. -/
lemma nil_of_toDigits_append {m : Nat} {l l' r : List Char} (h : Nat.toDigits 10 m = l ++ l')
    (hr : StopsDigits (l' ++ r)) : l' = [] := by
  cases l' with
  | nil => rfl
  | cons c l' =>
    have hdigit : c.isDigit = true :=
      Nat.isDigit_of_mem_toDigits (b := 10) (n := m) (by omega) (by omega) (by simp [h])
    rw [hr c rfl] at hdigit
    cases hdigit

lemma toDigits_append_inj {m n : Nat} {r r' : List Char} (hr : StopsDigits r)
    (hr' : StopsDigits r') (h : Nat.toDigits 10 m ++ r = Nat.toDigits 10 n ++ r') :
    m = n ∧ r = r' := by
  rcases List.append_eq_append_iff.1 h with ⟨l, hn, rfl⟩ | ⟨l, hm, rfl⟩
  · obtain rfl := nil_of_toDigits_append hn hr
    exact ⟨toDigits_injective (by simpa using hn.symm), rfl⟩
  · obtain rfl := nil_of_toDigits_append hm hr'
    exact ⟨toDigits_injective (by simpa using hm), rfl⟩

namespace Kind

/-! ### Rows of links -/

/-- The written form of a link. -/
def linkText (k : Kind) : List Char := (parenthesize k.isChain k.render).toList

/-- The written form of a row of links. -/
def rowText (links : List Kind) : List Char := (chain links).render.toList

/-- The row of links that a kind is written as. -/
def row : Kind → List Kind
  | .chain links => links
  | k => [k]

lemma linkText_atomic : linkText .atomic = ['*'] := rfl

lemma linkText_var (v : KindVar) : linkText (.var v) = '?' :: 'k' :: Nat.toDigits 10 v.id := by
  show ("?k" ++ toString v.id).toList = _
  rw [String.toList_append, toList_toString]
  rfl

lemma linkText_chain (links : List Kind) :
    linkText (.chain links) = '(' :: (rowText links ++ [')']) := by
  show ("(" ++ (chain links).render ++ ")").toList = _
  rw [String.toList_append, String.toList_append]
  rfl

lemma rowText_nil : rowText [] = [] := rfl

lemma rowText_singleton (k : Kind) : rowText [k] = linkText k := by
  rw [rowText, render, renderLinks, renderLinks, String.toList_intercalate, List.map_singleton,
    List.intercalate_singleton, linkText]

lemma rowText_cons_cons (k k' : Kind) (links : List Kind) :
    rowText (k :: k' :: links) = linkText k ++ ' ' :: '-' :: '>' :: ' ' :: rowText (k' :: links) := by
  rw [rowText, rowText, render, render, renderLinks, renderLinks, String.intercalate_cons_cons,
    String.toList_append, String.toList_append, linkText, List.append_assoc]
  rfl

lemma toList_render (k : Kind) : k.render.toList = rowText k.row := by
  cases k with
  | atomic => exact (rowText_singleton .atomic).symm
  | var v => exact (rowText_singleton (.var v)).symm
  | chain links => rfl

/-- A link never begins with a closing parenthesis. -/
lemma not_closesRow_linkText (k : Kind) (r : List Char) : ¬ ClosesRow (linkText k ++ r) := by
  intro h
  cases k with
  | atomic => rw [linkText_atomic] at h; cases h
  | var v => rw [linkText_var] at h; cases h
  | chain links => rw [linkText_chain] at h; cases h

lemma not_closesRow_rowText {links : List Kind} (hne : links ≠ []) (r : List Char) :
    ¬ ClosesRow (rowText links ++ r) := by
  match links with
  | [] => exact absurd rfl hne
  | [k] =>
    rw [rowText_singleton]
    exact not_closesRow_linkText k r
  | k :: k' :: links =>
    rw [rowText_cons_cons, List.append_assoc]
    exact not_closesRow_linkText k _

/-! ### Reading -/

-- What follows is read off along the way, so that the induction can go on behind a link.
mutual
lemma linkText_append_inj : (k k' : Kind) → {r r' : List Char} → StopsDigits r → StopsDigits r' →
    linkText k ++ r = linkText k' ++ r' → k = k' ∧ r = r'
  | .atomic, .atomic, _, _, _, _, h => ⟨rfl, by simpa [linkText_atomic] using h⟩
  | .var v, .var w, _, _, hr, hr', h => by
    rw [linkText_var, linkText_var] at h
    obtain ⟨hid, hrest⟩ := toDigits_append_inj hr hr' (by simpa using h)
    exact ⟨congrArg (fun id => var ⟨id⟩) hid, hrest⟩
  | .chain links, .chain links', r, r', _, _, h => by
    rw [linkText_chain, linkText_chain] at h
    have hrow : rowText links ++ ')' :: r = rowText links' ++ ')' :: r' := by simpa using h
    obtain ⟨hlinks, hrest⟩ := rowText_append_inj links links' (.parenthesis r) (.parenthesis r') hrow
    exact ⟨congrArg chain hlinks, (List.cons.inj hrest).2⟩
  | .atomic, .var _, _, _, _, _, h | .var _, .atomic, _, _, _, _, h => by
    simp [linkText_atomic, linkText_var] at h
  | .atomic, .chain _, _, _, _, _, h | .chain _, .atomic, _, _, _, _, h => by
    simp [linkText_atomic, linkText_chain] at h
  | .var _, .chain _, _, _, _, _, h | .chain _, .var _, _, _, _, _, h => by
    simp [linkText_var, linkText_chain] at h

lemma rowText_append_inj : (links links' : List Kind) → {r r' : List Char} → ClosesRow r →
    ClosesRow r' → rowText links ++ r = rowText links' ++ r' → links = links' ∧ r = r'
  | [], [], _, _, _, _, h => ⟨rfl, h⟩
  | [], k :: links, r, r', hr, _, h => by
    rw [rowText_nil, List.nil_append] at h
    exact absurd (h ▸ hr) (not_closesRow_rowText (List.cons_ne_nil k links) r')
  | k :: links, [], r, r', _, hr', h => by
    rw [rowText_nil, List.nil_append] at h
    exact absurd (h ▸ hr') (not_closesRow_rowText (List.cons_ne_nil k links) r)
  | [k], [k'], _, _, hr, hr', h => by
    rw [rowText_singleton, rowText_singleton] at h
    obtain ⟨hk, hrest⟩ := linkText_append_inj k k' hr.stopsDigits hr'.stopsDigits h
    exact ⟨congrArg (fun k => [k]) hk, hrest⟩
  | [k], k' :: k'' :: links, r, r', hr, _, h => by
    -- an arrow would have to close the row
    rw [rowText_singleton, rowText_cons_cons, List.append_assoc] at h
    obtain ⟨_, rfl⟩ := linkText_append_inj k k' hr.stopsDigits (stopsDigits_cons (by decide) _) h
    cases hr
  | k :: k'' :: links, [k'], r, r', _, hr', h => by
    rw [rowText_singleton, rowText_cons_cons, List.append_assoc] at h
    obtain ⟨_, rfl⟩ := linkText_append_inj k k' (stopsDigits_cons (by decide) _) hr'.stopsDigits h
    cases hr'
  | k :: k₁ :: links, k' :: k₁' :: links', r, r', hr, hr', h => by
    rw [rowText_cons_cons, rowText_cons_cons, List.append_assoc, List.append_assoc] at h
    obtain ⟨rfl, hrest⟩ := linkText_append_inj k k' (stopsDigits_cons (by decide) _)
      (stopsDigits_cons (by decide) _) h
    obtain ⟨hlinks, hend⟩ := rowText_append_inj (k₁ :: links) (k₁' :: links') hr hr'
      (by simpa using hrest)
    exact ⟨congrArg (k :: ·) hlinks, hend⟩
end

lemma rowText_injective : Function.Injective rowText := fun links links' h =>
  (rowText_append_inj links links' .nothing .nothing (by rw [h])).1

/-- A chain of a single link would be written as the link is. -/
lemma ne_singleton_of_isFlat {links : List Kind} (h : (chain links).isFlat) (k : Kind) :
    links ≠ [k] := by
  rintro rfl
  exact absurd (isFlat_chain.1 h).1 (by simp)

lemma row_injective {a b : Kind} (ha : a.isFlat) (hb : b.isFlat) (h : a.row = b.row) : a = b := by
  cases a with
  | chain links =>
    cases b with
    | chain links' => exact congrArg chain h
    | atomic => exact absurd h (ne_singleton_of_isFlat ha _)
    | var w => exact absurd h (ne_singleton_of_isFlat ha _)
  | atomic =>
    cases b with
    | chain links' => exact absurd h.symm (ne_singleton_of_isFlat hb _)
    | atomic => rfl
    | var w => exact List.singleton_inj.1 h
  | var v =>
    cases b with
    | chain links' => exact absurd h.symm (ne_singleton_of_isFlat hb _)
    | atomic => exact List.singleton_inj.1 h
    | var w => exact List.singleton_inj.1 h

/-- Flat kinds that are written alike are the same. -/
theorem eq_of_render_eq {a b : Kind} (ha : a.isFlat) (hb : b.isFlat) (h : a.render = b.render) :
    a = b := by
  have htext : rowText a.row = rowText b.row := by rw [← toList_render, ← toList_render, h]
  exact row_injective ha hb (rowText_injective htext)

/-- `(* -> ?k12) -> ?k1 -> *`, written out and put together from arrows. -/
theorem eq_of_render_eq_nested :
    (chain [chain [.atomic, .var ⟨12⟩], .var ⟨1⟩, .atomic]).isFlat ∧
    (arrow (arrow .atomic (.var ⟨12⟩)) (arrow (.var ⟨1⟩) .atomic)).isFlat ∧
    (arrow (arrow .atomic (.var ⟨12⟩)) (arrow (.var ⟨1⟩) .atomic)).render =
      "(* -> ?k12) -> ?k1 -> *" ∧
    chain [chain [.atomic, .var ⟨12⟩], .var ⟨1⟩, .atomic] =
      arrow (arrow .atomic (.var ⟨12⟩)) (arrow (.var ⟨1⟩) .atomic) :=
  ⟨by decide, by decide, by decide, eq_of_render_eq (by decide) (by decide) (by decide)⟩

/-- A chain of one link is not flat, and it is written as its link is. -/
example : (chain [.atomic]).render = (atomic).render := by decide

end Kind

end LetPoly
