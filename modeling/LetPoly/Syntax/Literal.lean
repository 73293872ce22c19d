import LetPoly.Ty.Basic

/-!
# Literals

Literals are integers of 64 bits, floating-point numbers, texts, truth values and the unit value.
Numbers are compared as numbers: a NaN differs from itself, and the two zeros are equal.
-/

namespace LetPoly

/-- A floating-point number of 64 bits in its binary interchange format. -/
structure Binary64 where
  bits : UInt64

namespace Binary64

/-- The bits other than the sign. -/
def magnitude (x : Binary64) : UInt64 := x.bits &&& 0x7fffffffffffffff

/-- Whether the bits stand for no number: the exponent is all ones and the fraction is not zero. -/
def isNaN (x : Binary64) : Bool := x.magnitude > 0x7ff0000000000000

/-- Equality of numbers. -/
def same (x y : Binary64) : Bool :=
  !x.isNaN && !y.isNaN && (x.bits == y.bits || (x.magnitude == 0 && y.magnitude == 0))

end Binary64

/-- A literal. -/
inductive Literal where
  | int (value : Int64)
  | float (value : Binary64)
  | string (value : String)
  | bool (value : Bool)
  | unit

namespace Literal

/-- The type of a literal. -/
def ty : Literal → Ty
  | .int _ => .int
  | .float _ => .float
  | .string _ => .string
  | .bool _ => .bool
  | .unit => .unit

/-- Equality of literals, numbers being compared as numbers. -/
def same : Literal → Literal → Bool
  | .int a, .int b => a == b
  | .float a, .float b => a.same b
  | .string a, .string b => a == b
  | .bool a, .bool b => a == b
  | .unit, .unit => true
  | _, _ => false

end Literal

end LetPoly
