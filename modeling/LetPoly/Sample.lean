import LetPoly.Check

/-!
# A sample program

Operators on integers and lists, the function that maps a list, and a list of squares.
-/

namespace LetPoly.Sample

/-- An operator for an internal function. -/
def operator (name internal : String) (associativity : Associativity) (precedence : UInt8) :
    List Decl :=
  [.fixity ⟨name, associativity, precedence, {}⟩, .value name none (.internal internal) {}]

/-- The lists with elements of type `a`. -/
def listOf : Ty := .apply (.con "List" none) [.rigid "a"]

/-- The datatype of lists. -/
def list : Datatype :=
  ⟨listOf, [⟨"Nil", []⟩, ⟨"Cons", [.rigid "a", listOf]⟩], {}⟩

/-- The function that applies another one to each element of a list. -/
def map : Expr :=
  .lambda ["f", "list"] <| .cases (.ident "list")
    [(.constructor "Nil", .ident "Nil"),
     (.data "Cons" ["head", "tail"],
      .call "::" [.call "f" [.ident "head"], .call "map" [.ident "f", .ident "tail"]])]

/-- The list of the integers from one to five. -/
def numbers : Expr :=
  [1, 2, 3, 4, 5].foldr (fun n tail => .call "::" [.literal (.int n), tail]) (.ident "Nil")

/-- The squares of the integers from one to five. -/
def squares : Expr :=
  .letIn
    [.value "numbers" none numbers {},
     .value "squared" none (.lambda ["x"] (.call "^" [.ident "x", .literal (.int 2)])) {}]
    (.call "map" [.ident "squared", .ident "numbers"])

/-- The sample program. -/
def program : List Decl :=
  operator "+" "add" .left 6 ++ operator "-" "sub" .left 6 ++ operator "*" "times" .left 7 ++
  operator "/" "div" .left 7 ++ operator "%" "mod" .left 7 ++ operator "^" "pow" .right 8 ++
  [.datatype list,
   .fixity ⟨"::", .right, 5, {}⟩,
   .value "::" none (.ident "Cons") {},
   .value "map" none map {},
   .value "main" none squares {}]

/-- A name and what it is declared as. -/
def signature (name text : String) : String := name ++ " : " ++ text

/-- The kinds and types that a program declares, a line for each. -/
def report (typed : Typed) : List String :=
  typed.kinds.entries.map (fun entry => signature entry.1 entry.2.render) ++
  typed.values.entries.map (fun entry => signature entry.1 entry.2.render)

/-- What a run on the sample program comes to: the lines to print, or else the complaint. -/
def outcome : Except String (List String) :=
  match (checkProgram {} program).2 with
  | .ok typed => .ok (report typed)
  | .error (.error e) => .error ((e.message?).getD "")
  | .error (.released _) => .error ""

end LetPoly.Sample
