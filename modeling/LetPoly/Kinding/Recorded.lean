import LetPoly.Kinding.Error

/-!
# Recorded kinds

`Ty.kindOf` reads the kind of a type off the kinds recorded in its nodes. It takes it on trust that
the arguments of an application fit its head.
-/

namespace LetPoly

/-- What is left of a kind once `n` arguments are supplied. -/
def Kind.drop? : Nat → Kind → Option Kind
  | 0, kind => some kind
  | n + 1, kind => kind.right?.bind (Kind.drop? n)

/-- The kind of a type by the kinds recorded in its nodes. -/
def Ty.kindOf : Ty → Except KindError Kind
  | .con name slot => slot.elim (.error (.unassigned name)) .ok
  | .var name _ slot => slot.elim (.error (.unassigned name)) .ok
  | .app head args => do
    let kind ← head.kindOf
    match kind.drop? args.length with
    | some kind => return kind
    | none => throw (.overApplied (.app head args))
  | .scheme _ body => body.kindOf

end LetPoly
