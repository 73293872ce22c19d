/-!
# Source positions

A `Span` is a stretch of a source text. `Span.render?` shows it to the user: the lines around it
with a message below, in the margin the number of its first line and that of the message.
-/

namespace LetPoly

/-- A place in a text: a line and a byte within it, both counted from zero. -/
structure Position where
  line : Nat := 0
  column : Nat := 0

/-- A stretch of a source text. -/
structure Span where
  start : Position := {}
  stop : Position := {}
  source : String := ""

/-- Cut a text at line ends, with the characters of the current line in reverse at hand. A carriage
return before a line feed belongs to the line end, and the last line need not have one. -/
def cutLines : List Char → List Char → List String
  | [], [] => []
  | [], line => [String.ofList line.reverse]
  | '\n' :: rest, '\r' :: line => String.ofList line.reverse :: cutLines rest []
  | '\n' :: rest, line => String.ofList line.reverse :: cutLines rest []
  | c :: rest, line => cutLines rest (c :: line)

/-- The lines of a text. -/
def linesOf (text : String) : List String := cutLines text.toList []

/-- Whether a character of the text begins at byte `n` in UTF-8, or the text ends there. -/
def startsAt : List Char → Nat → Bool
  | _, 0 => true
  | [], _ + 1 => false
  | c :: rest, n + 1 => c.utf8Size ≤ n + 1 && startsAt rest (n + 1 - c.utf8Size)

namespace Span

/-- As many blanks as a number has digits. -/
def margin (n : Nat) : String := String.ofList (List.replicate (toString n).length ' ')

/-- The lines of the source that the span shows: the one before it, if any, its first line and the
others up to its last. None if the source has no such lines. -/
def shownLines? (s : Span) : Option (String × String × List String) := do
  let lines := linesOf s.source
  let before ← if s.start.line = 0 then some "" else lines[s.start.line - 1]?
  let first ← lines[s.start.line]?
  if s.stop.line ≤ s.start.line then return (before, first, [])
  else if s.stop.line < lines.length then
    return (before, first, (lines.drop (s.start.line + 1)).take (s.stop.line - s.start.line))
  else none

/-- Whether the columns of the span fit its first line: the span starts between two characters and,
if it ends on the same line, ends between two characters, not before its start. No span ends before
the first column. -/
def columnsFit (s : Span) (first : String) : Bool :=
  startsAt first.toList s.start.column &&
    (s.start.line != s.stop.line ||
      (s.start.column ≤ s.stop.column && startsAt first.toList s.stop.column)) &&
    s.stop.column != 0

/-- The span with a message below it. None if the span does not fit its source. -/
def render? (s : Span) (message : String) : Option String := do
  let (before, first, more) ← s.shownLines?
  if s.columnsFit first then
    let pad := margin s.stop.line
    let indent := String.ofList (List.replicate (s.stop.column - 1) ' ')
    return "\n".intercalate <|
      [pad ++ " |", pad ++ " |" ++ before ++ " ", toString (s.start.line + 1) ++ " |" ++ first] ++
      more.map (fun line => pad ++ " |" ++ line) ++
      [toString (s.stop.line + 2) ++ " |" ++ indent ++ "^--- " ++ message, pad ++ " |"]
  else none

end Span

end LetPoly
