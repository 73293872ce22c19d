import LetPoly.Ty.Basic

/-!
# Type schemes

A `Scheme` is a type quantified over names. `Scheme.instantiate` puts given types for
its variables, and `Scheme.canonical` gives the variables the letters `a`, `b`, ... in the order in
which they first occur, so that schemes that differ in the names of their variables only have
one canonical form.
-/

namespace LetPoly

/-- A quantified type. -/
structure Scheme where
  vars : NameSet
  body : Ty

/-- The letter name of number `index`: `a` to `z`, then `a1` to `z1`, and so on. -/
def letterName (index : Nat) : String :=
  let letter := String.singleton (Char.ofNat ('a'.toNat + index % 26))
  if index < 26 then letter else letter ++ toString (index / 26)

/-- The first `count` letter names that are not taken. Among `taken.length + count` different
names there are that many. -/
def freeLetters (taken : List String) (count : Nat) : List String :=
  (((List.range (taken.length + count)).map letterName).filter (· ∉ taken)).take count

/-- The substitution that puts the types of a list for its names. The last entry of a name
counts. -/
def substOf (pairs : List (String × Ty)) (name : String) : Option Ty :=
  (pairs.reverse.find? (·.1 == name)).map Prod.snd

namespace Scheme

/-- The scheme as a type. -/
def toTy (s : Scheme) : Ty := .scheme s.vars s.body

/-- The body with types put for the variables, in their order. -/
def instantiate (s : Scheme) (types : List Ty) : Ty :=
  s.body.substAll (substOf (s.vars.names.zip types))

/-- The body with new solvable variables for the quantified ones, numbered from `next` on. Gives
the next free number as well. -/
def freshInstance (s : Scheme) (next : Nat) : Ty × Nat :=
  let count := s.vars.names.length
  (s.instantiate ((List.range' next count).map Ty.fresh), next + count)

/-- The scheme with letters for its variables in order of first occurrence. Variables that do
not occur are dropped, and letters that are free in the body are passed over. -/
def canonical (s : Scheme) : Scheme :=
  let free := s.body.freeVars.names
  let bound := free.filter (· ∈ s.vars)
  let letters := freeLetters (free.filter (· ∉ s.vars)) bound.length
  { vars := .ofList letters
    body := s.body.substAll (substOf (bound.zip (letters.map Ty.rigid))) }

/-- Whether two schemes have the same canonical form. -/
def alphaEq (s t : Scheme) : Bool := s.canonical.toTy == t.canonical.toTy

end Scheme

end LetPoly
