import LetPoly.Syntax.Fill
import LetPoly.Typing.Infer

/-!
# Checking programs

`checkProgram` finds the kinds of all type constructors and the types of all values that a program
declares: first the kinds of its datatypes, as one group, then the types of their constructors,
then the values in order. The first error ends it and is laid to the declaration it arose in.
-/

namespace LetPoly

open Inference

/-- What checking finds out about a program, in the order of its declarations. -/
structure Typed where
  /-- The kinds of the type constructors declared. -/
  kinds : Table Kind
  /-- The types of the constructors and values declared. -/
  values : Table Ty

/-- An error and the declaration that it arose in. -/
structure CheckError where
  declaration : Option String
  span : Span
  error : TypeError

/-- The wording of an error: below the stretch of source it stands in, if that is known. None if
that stretch does not fit its source. -/
def CheckError.message? (e : CheckError) : Option String :=
  let text :=
    match e.declaration with
    | some name => "in '" ++ name ++ "': " ++ e.error.message
    | none => e.error.message
  if e.span.source.isEmpty then some ("Type error: " ++ text) else e.span.render? text

/-- Actions of checking. -/
abbrev CheckM := EStateM (Fault CheckError) Session

/-- Lay the errors of an action to a declaration. -/
def blame {α : Type} (declaration : Option String) (span : Span) (x : DeclM α) : CheckM α :=
  x.adaptExcept (Fault.map (⟨declaration, span, ·⟩))

/-- The datatype that an error of a group is laid to: its own, or else the first one. -/
def culprit? (group : List Datatype) (site : Option Nat) : Option Datatype :=
  match site.bind (group[·]?) with
  | some d => some d
  | none => group.head?

/-- The error of a program that an error of a group of datatypes is. -/
def blameGroup (group : List Datatype) (e : Sited KindError) : CheckError :=
  match culprit? group e.site with
  | some d => ⟨d.name?, d.position, .kind e.item⟩
  | none => ⟨none, {}, .kind e.item⟩

/-- Bring the constructors of datatypes into scope. -/
def checkConstructors : List Datatype → CheckM Unit
  | [] => return ()
  | d :: ds => do
    blame d.name? d.position (registerConstructors d)
    checkConstructors ds

/-- Bring values into scope. -/
def checkValues (config : Config) : List Decl → CheckM Unit
  | [] => return ()
  | .value name ascription value position :: decls => do
    blame (some name) position (bindValue config name ascription value)
    checkValues config decls
  | .datatype _ :: decls => checkValues config decls
  | .fixity _ :: decls => checkValues config decls

/-- Bring named values into scope. -/
def bringValues : List (String × Ty) → DeclM Unit
  | [] => return ()
  | (name, ty) :: values => do
    let h ← track ty
    Session.modifyValues (·.insert name h)
    bringValues values

/-- Read the types of a list of names. -/
def readValues : List (String × Handle) → InferM (List (String × Ty))
  | [] => return []
  | (name, h) :: values => do
    let ty ← current h
    let types ← readValues values
    return (name, ty) :: types

/-- Check the declarations of a program. -/
def checkDecls (config : Config) (decls : List Decl) : CheckM Typed := do
  let group := Decl.datatypes decls
  let (kinds, group) ← (declareTypes group).adaptExcept fun e => .error (blameGroup group e)
  blame none {} do
    bringValues config.prelude.values.entries
    Session.modifyValues Scope.child
  checkConstructors group
  checkValues config decls
  blame none {} do
    finish config
    let values ← readValues (← Session.scopes).values.innermost.entries
    return ⟨kinds, .ofList values⟩

/-- Check a program. Gives the program with the kinds recorded that were found before the end, and
what was found out about it. -/
def checkProgram (config : Config) (decls : List Decl) :
    List Decl × Except (Fault CheckError) Typed :=
  let start : Session := ⟨.initial, ⟨.empty, config.prelude.kindScope⟩⟩
  match checkDecls config decls start with
  | .ok typed s => (Decl.fillAll decls s.inference.recorded, .ok typed)
  | .error e s => (Decl.fillAll decls s.inference.recorded, .error e)

end LetPoly
