import LetPoly.Syntax.Literal
import LetPoly.Syntax.Span

/-!
# Programs

Expressions and declarations, which contain each other, and the patterns, parameters and datatypes
they are made of. Equality of syntax trees looks neither at source positions nor at the kinds
recorded in types.
-/

namespace LetPoly

/-- What the scrutinee of a match is compared with. -/
inductive Pattern where
  /-- Matches anything and gives it a name. -/
  | capture (name : String)
  | literal (value : Literal)
  /-- A constructor without fields. -/
  | constructor (name : String)
  /-- A constructor with a name for each of its fields. -/
  | data (constructor : String) (captures : List String)

/-- Equality of patterns. -/
def Pattern.same : Pattern → Pattern → Bool
  | .capture a, .capture b => a == b
  | .literal a, .literal b => a.same b
  | .constructor a, .constructor b => a == b
  | .data a as, .data b bs => a == b && as == bs
  | _, _ => false

/-- A parameter of a function. -/
structure Param where
  name : String
  ascription : Option Ty

/-- Equality of parameters. -/
def Param.same (p q : Param) : Bool := p.name == q.name && p.ascription == q.ascription

/-- A constructor of a datatype with the types of its fields. -/
structure Constructor where
  name : String
  fields : List Ty

/-- Equality of constructors. -/
def Constructor.same (c d : Constructor) : Bool := c.name == d.name && c.fields == d.fields

/-- The declaration of a datatype. Its head is the type constructor applied to the parameters. -/
structure Datatype where
  head : Ty
  constructors : List Constructor
  position : Span

namespace Datatype

/-- The name of the type constructor. -/
def name? (d : Datatype) : Option String := d.head.headName?

/-- The parameters, as they stand in the head. -/
def params (d : Datatype) : List Ty :=
  match d.head with
  | .app _ args => args
  | _ => []

/-- The types that a datatype is made of: its head, and then its fields in their order. -/
def types (d : Datatype) : List Ty := d.head :: d.constructors.flatMap (·.fields)

/-- Equality of datatypes. -/
def same (c d : Datatype) : Bool :=
  c.head == d.head && c.constructors.length == d.constructors.length &&
    (c.constructors.zip d.constructors).all fun p => p.1.same p.2

end Datatype

/-- To which side operators of equal precedence are grouped. -/
inductive Associativity where
  | left
  | right
  deriving DecidableEq

/-- How an operator is read. -/
structure Fixity where
  operator : String
  associativity : Associativity
  precedence : UInt8
  position : Span

/-- Equality of fixities. -/
def Fixity.same (f g : Fixity) : Bool :=
  f.operator == g.operator && f.associativity == g.associativity && f.precedence == g.precedence

mutual
/-- Expressions. -/
inductive Expr where
  | literal (value : Literal)
  | ident (name : String)
  /-- A value that the environment of the language provides. -/
  | internal (name : String)
  | app (func arg : Expr)
  | function (params : List Param) (body : Expr)
  /-- Conditions with their branches, tried in order, and the branch for when all fail. -/
  | guards (branches : List (Expr × Expr)) (otherwise : Expr)
  | cases (scrutinee : Expr) (arms : List (Pattern × Expr))
  | letIn (decls : List Decl) (body : Expr)

/-- Declarations. -/
inductive Decl where
  | value (name : String) (ascription : Option Ty) (value : Expr) (position : Span)
  | datatype (d : Datatype)
  | fixity (f : Fixity)
end

namespace Expr

/-- Apply a function to arguments, one after the other. -/
def apply (func : Expr) (args : List Expr) : Expr := args.foldl app func

/-- Apply a named function to arguments. -/
def call (name : String) (args : List Expr) : Expr := (ident name).apply args

/-- A function of parameters without ascriptions. -/
def lambda (params : List String) (body : Expr) : Expr :=
  .function (params.map fun name => ⟨name, none⟩) body

end Expr

namespace Decl

/-- The name that the declaration is about. -/
def name? : Decl → Option String
  | .value name _ _ _ => some name
  | .datatype d => d.name?
  | .fixity f => some f.operator

/-- Where the declaration stands. -/
def position : Decl → Span
  | .value _ _ _ position => position
  | .datatype d => d.position
  | .fixity f => f.position

/-- The datatypes of a list of declarations. -/
def datatypes (decls : List Decl) : List Datatype :=
  decls.filterMap fun
    | .datatype d => some d
    | _ => none

end Decl

mutual
/-- Equality of expressions. -/
def Expr.same : Expr → Expr → Bool
  | .literal a, .literal b => a.same b
  | .ident a, .ident b => a == b
  | .internal a, .internal b => a == b
  | .app f a, .app g b => f.same g && a.same b
  | .function ps a, .function qs b =>
    ps.length == qs.length && (ps.zip qs).all (fun p => p.1.same p.2) && a.same b
  | .guards bs a, .guards cs b => Expr.sameBranches bs cs && a.same b
  | .cases s as, .cases t bs => s.same t && Expr.sameArms as bs
  | .letIn ds a, .letIn es b => Decl.sameList ds es && a.same b
  | _, _ => false

/-- Equality of lists of guarded branches. -/
def Expr.sameBranches : List (Expr × Expr) → List (Expr × Expr) → Bool
  | [], [] => true
  | (c, b) :: bs, (c', b') :: bs' => c.same c' && b.same b' && Expr.sameBranches bs bs'
  | _, _ => false

/-- Equality of lists of match arms. -/
def Expr.sameArms : List (Pattern × Expr) → List (Pattern × Expr) → Bool
  | [], [] => true
  | (p, b) :: arms, (q, c) :: arms' => p.same q && b.same c && Expr.sameArms arms arms'
  | _, _ => false

/-- Equality of declarations. -/
def Decl.same : Decl → Decl → Bool
  | .value a s e _, .value b t e' _ => a == b && s == t && e.same e'
  | .datatype c, .datatype d => c.same d
  | .fixity f, .fixity g => f.same g
  | _, _ => false

/-- Equality of lists of declarations. -/
def Decl.sameList : List Decl → List Decl → Bool
  | [], [] => true
  | d :: ds, e :: es => d.same e && Decl.sameList ds es
  | _, _ => false
end

end LetPoly
