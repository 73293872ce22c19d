import LetPoly.Scope
import LetPoly.Ty.Basic

/-!
# What programs start from

A `Prelude` lists the type constructors, internal values and named values that every program may
use. A `Config` adds the name that binds nothing and the type for whatever inference leaves open.
-/

namespace LetPoly

/-- What is there before a program declares anything. -/
structure Prelude where
  /-- The kinds of the type constructors. -/
  kinds : Table Kind
  /-- The types of the internal values. -/
  internals : Table Ty
  /-- The types of the named values. -/
  values : Table Ty

namespace Prelude

/-- The builtin type constructors and no values. -/
def core : Prelude where
  kinds := .ofList [("Int", .atomic), ("Float", .atomic), ("String", .atomic), ("Unit", .atomic),
    ("Bool", .atomic), (Ty.arrowName, .ofArity 2)]
  internals := .empty
  values := .empty

/-- The builtin type constructors and integer arithmetic. -/
def standard : Prelude :=
  let binary := Ty.function [.int, .int] .int
  { core with
    internals := .ofList (["add", "sub", "times", "div", "mod", "pow"].map fun name =>
      (name, binary)) }

/-- The prelude with one more type constructor. -/
def withKind (p : Prelude) (name : String) (kind : Kind) : Prelude :=
  { p with kinds := p.kinds.insert name kind }

/-- The prelude with one more internal value. -/
def withInternal (p : Prelude) (name : String) (ty : Ty) : Prelude :=
  { p with internals := p.internals.insert name ty }

/-- The prelude with one more named value. -/
def withValue (p : Prelude) (name : String) (ty : Ty) : Prelude :=
  { p with values := p.values.insert name ty }

/-- The scope of the type constructors. -/
def kindScope (p : Prelude) : Scope Kind := .ofTable p.kinds

end Prelude

/-- The choices under which a program is checked. -/
structure Config where
  prelude : Prelude := .standard
  /-- The name that binds nothing. -/
  ignoreName : String := "_"
  /-- The type for what inference leaves open. -/
  defaultTy : Ty := .unit

namespace Config

/-- Whether binding the name has no effect. -/
def isIgnored (c : Config) (name : String) : Bool := name == c.ignoreName

/-- Enter a value under a name, unless the name binds nothing. -/
def bind {α : Type} (c : Config) (name : String) (value : α) (scope : Scope α) : Scope α :=
  if c.isIgnored name then scope else scope.insert name value

end Config

end LetPoly
