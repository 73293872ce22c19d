import LetPoly.Syntax.Expr

/-!
# Recording kinds in programs

The functions here put kinds into the empty slots of the types in a syntax tree, from left to right
in the order in which inference comes to them, as long as there are kinds, and give the kinds that
are left over. In a list of declarations the datatypes come first, each with its head and then its
fields, and then the values, each with its ascription and then its expression.
-/

namespace LetPoly

/-- Record kinds in an ascription, if there is one. -/
def fillAscription (ty : Option Ty) (kinds : List Kind) : Option Ty × List Kind :=
  match ty with
  | some ty =>
    let (ty, kinds) := ty.fill kinds
    (some ty, kinds)
  | none => (none, kinds)

/-- Record kinds in the ascriptions of parameters. -/
def fillParams : List Param → List Kind → List Param × List Kind
  | [], kinds => ([], kinds)
  | ⟨name, ty⟩ :: params, kinds =>
    let (ty, kinds) := fillAscription ty kinds
    let (params, kinds) := fillParams params kinds
    (⟨name, ty⟩ :: params, kinds)

/-- Record kinds in the fields of constructors. -/
def fillConstructors : List Constructor → List Kind → List Constructor × List Kind
  | [], kinds => ([], kinds)
  | ⟨name, fields⟩ :: constructors, kinds =>
    let (fields, kinds) := Ty.fillList fields kinds
    let (constructors, kinds) := fillConstructors constructors kinds
    (⟨name, fields⟩ :: constructors, kinds)

/-- Record kinds in the head and the fields of a datatype. -/
def Datatype.fill (d : Datatype) (kinds : List Kind) : Datatype × List Kind :=
  let (head, kinds) := d.head.fill kinds
  let (constructors, kinds) := fillConstructors d.constructors kinds
  ({ d with head, constructors }, kinds)

/-- Record kinds in each datatype of a list. -/
def fillDatatypes : List Datatype → List Kind → List Datatype × List Kind
  | [], kinds => ([], kinds)
  | d :: ds, kinds =>
    let (d, kinds) := d.fill kinds
    let (ds, kinds) := fillDatatypes ds kinds
    (d :: ds, kinds)

mutual
/-- Record kinds in the types of an expression. -/
def Expr.fill : Expr → List Kind → Expr × List Kind
  | .literal value, kinds => (.literal value, kinds)
  | .ident name, kinds => (.ident name, kinds)
  | .internal name, kinds => (.internal name, kinds)
  | .app func arg, kinds =>
    let (func, kinds) := func.fill kinds
    let (arg, kinds) := arg.fill kinds
    (.app func arg, kinds)
  | .function params body, kinds =>
    let (params, kinds) := fillParams params kinds
    let (body, kinds) := body.fill kinds
    (.function params body, kinds)
  | .guards branches otherwise, kinds =>
    let (branches, kinds) := Expr.fillBranches branches kinds
    let (otherwise, kinds) := otherwise.fill kinds
    (.guards branches otherwise, kinds)
  | .cases scrutinee arms, kinds =>
    let (scrutinee, kinds) := scrutinee.fill kinds
    let (arms, kinds) := Expr.fillArms arms kinds
    (.cases scrutinee arms, kinds)
  | .letIn decls body, kinds =>
    let (datatypes, kinds) := fillDatatypes (Decl.datatypes decls) kinds
    let (decls, kinds) := Decl.fillValues decls datatypes kinds
    let (body, kinds) := body.fill kinds
    (.letIn decls body, kinds)

/-- Record kinds in the types of guarded branches. -/
def Expr.fillBranches : List (Expr × Expr) → List Kind → List (Expr × Expr) × List Kind
  | [], kinds => ([], kinds)
  | (condition, branch) :: branches, kinds =>
    let (condition, kinds) := condition.fill kinds
    let (branch, kinds) := branch.fill kinds
    let (branches, kinds) := Expr.fillBranches branches kinds
    ((condition, branch) :: branches, kinds)

/-- Record kinds in the types of match arms. -/
def Expr.fillArms : List (Pattern × Expr) → List Kind → List (Pattern × Expr) × List Kind
  | [], kinds => ([], kinds)
  | (pattern, body) :: arms, kinds =>
    let (body, kinds) := body.fill kinds
    let (arms, kinds) := Expr.fillArms arms kinds
    ((pattern, body) :: arms, kinds)

/-- Record kinds in the values of a list of declarations, and put the given datatypes in the places
of its own. -/
def Decl.fillValues : List Decl → List Datatype → List Kind → List Decl × List Kind
  | [], _, kinds => ([], kinds)
  | .value name ty value position :: decls, datatypes, kinds =>
    let (ty, kinds) := fillAscription ty kinds
    let (value, kinds) := value.fill kinds
    let (decls, kinds) := Decl.fillValues decls datatypes kinds
    (.value name ty value position :: decls, kinds)
  | .datatype _ :: decls, d :: datatypes, kinds =>
    let (decls, kinds) := Decl.fillValues decls datatypes kinds
    (.datatype d :: decls, kinds)
  | decl :: decls, datatypes, kinds =>
    let (decls, kinds) := Decl.fillValues decls datatypes kinds
    (decl :: decls, kinds)
end

/-- Record kinds in the types of a list of declarations. -/
def Decl.fillAll (decls : List Decl) (kinds : List Kind) : List Decl :=
  let (datatypes, kinds) := fillDatatypes (Decl.datatypes decls) kinds
  (Decl.fillValues decls datatypes kinds).1

end LetPoly
