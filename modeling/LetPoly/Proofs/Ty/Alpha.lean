import LetPoly.Proofs.Ty.Rename

/-!
# α-equivalence

Types are α-equivalent if they are the same but for the names of bound variables. As with equality
of types, kinds do not count. `Scheme.alphaEq` compares the outermost quantifiers of two types in
this way and everything inside by name; `Ty.alphaEq` looks at all quantifiers. A type without free
variables is α-equivalent to all of its injective renamings (`Ty.alphaEq_rename`).
-/

namespace LetPoly

/-- Whether two variables are the same, if `pairs` are the bound variables of the two sides, those
bound last first: neither is bound and they have one name, or both are bound at the same place. -/
def sameVariable : List (String × String) → String → String → Bool
  | [], x, y => x == y
  | (a, b) :: pairs, x, y =>
    if a = x ∨ b = y then a == x && b == y else sameVariable pairs x y

namespace Ty

mutual
/-- Whether two types are α-equivalent, if `pairs` are the bound variables of the two sides. -/
def alphaEqIn (pairs : List (String × String)) : Ty → Ty → Bool
  | .con a _, .con b _ => a == b
  | .var a s _, .var b t _ => sameVariable pairs a b && s == t
  | .app f as, .app g bs => f.alphaEqIn pairs g && alphaEqInList pairs as bs
  | .scheme vs a, .scheme ws b =>
    vs.names.length == ws.names.length && a.alphaEqIn (vs.names.zip ws.names ++ pairs) b
  | _, _ => false

/-- Whether the types of two lists are α-equivalent, if `pairs` are the bound variables of the two
sides. -/
def alphaEqInList (pairs : List (String × String)) : List Ty → List Ty → Bool
  | [], [] => true
  | a :: as, b :: bs => a.alphaEqIn pairs b && alphaEqInList pairs as bs
  | _, _ => false
end

/-- Whether two types are α-equivalent. -/
def alphaEq (s t : Ty) : Bool := s.alphaEqIn [] t

end Ty

/-! ### Renamings -/

variable {f : String → String}

/-- Names with those that they are renamed to. -/
def renamedPairs (f : String → String) (names : List String) : List (String × String) :=
  names.map fun x => (x, f x)

lemma zip_map_eq_renamedPairs (f : String → String) (names : List String) :
    names.zip (names.map f) = renamedPairs f names := by
  induction names with
  | nil => rfl
  | cons x names ih =>
    rw [List.map_cons, List.zip_cons_cons, ih]
    rfl

lemma sameVariable_renamedPairs (hf : Function.Injective f) {names : List String} {x : String}
    (hx : x ∈ names) : sameVariable (renamedPairs f names) x (f x) := by
  induction names with
  | nil => cases hx
  | cons y names ih =>
    show (if y = x ∨ f y = f x then y == x && f y == f x else _) = true
    by_cases heq : y = x
    · rw [if_pos (.inl heq), heq, beq_self_eq_true, beq_self_eq_true, Bool.and_self]
    · rw [if_neg (by simp [heq, hf.eq_iff])]
      exact ih ((List.mem_cons.1 hx).resolve_left (Ne.symm heq))

namespace Ty

mutual
/-- A type is α-equivalent to its renaming if all of its variables are bound. -/
lemma alphaEqIn_rename (hf : Function.Injective f) : (t : Ty) → {bound : List String} →
    t.occurrences ⊆ bound → t.alphaEqIn (renamedPairs f bound) (t.rename f)
  | .con _ _, _, _ => by rw [rename, alphaEqIn, beq_self_eq_true]
  | .var x _ _, _, h => by
    rw [rename, alphaEqIn, beq_self_eq_true, Bool.and_true]
    exact sameVariable_renamedPairs hf (h (List.mem_singleton_self x))
  | .app head args, _, h => by
    obtain ⟨hhead, hargs⟩ := List.append_subset.1 h
    rw [rename, alphaEqIn, alphaEqIn_rename hf head hhead, alphaEqInList_renameList hf args hargs,
      Bool.and_self]
  | .scheme vars body, bound, h => by
    have hbody : body.occurrences ⊆ vars.names ++ bound := by
      intro x hx
      by_cases hmem : x ∈ vars
      · exact List.mem_append_left _ hmem
      · exact List.mem_append_right _ (h (List.mem_filter.2 ⟨hx, by simpa using hmem⟩))
    rw [rename, alphaEqIn, NameSet.names_rename hf, List.length_map, beq_self_eq_true,
      Bool.true_and, zip_map_eq_renamedPairs, renamedPairs, renamedPairs, ← List.map_append]
    exact alphaEqIn_rename hf body hbody

lemma alphaEqInList_renameList (hf : Function.Injective f) : (args : List Ty) →
    {bound : List String} → occurrencesList args ⊆ bound →
    alphaEqInList (renamedPairs f bound) args (renameList f args)
  | [], _, _ => rfl
  | a :: args, _, h => by
    obtain ⟨ha, hargs⟩ := List.append_subset.1 h
    rw [renameList, alphaEqInList, alphaEqIn_rename hf a ha, alphaEqInList_renameList hf args hargs,
      Bool.and_self]
end

/-- A type without free variables is α-equivalent to its renamings. -/
lemma alphaEq_rename (hf : Function.Injective f) {t : Ty} (hclosed : t.occurrences = []) :
    t.alphaEq (t.rename f) := by
  have hbound : t.occurrences ⊆ [] := by rw [hclosed]; exact List.Subset.refl []
  exact alphaEqIn_rename hf t hbound

end Ty

end LetPoly
