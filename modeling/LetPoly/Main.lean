import LetPoly.Sample

/-!
# The command line

Checks the sample program and prints what it declares.
-/

/-- Print the kinds and types of the sample program. -/
def main : IO UInt32 := do
  match LetPoly.Sample.outcome with
  | .ok lines =>
    lines.forM IO.println
    return 0
  | .error complaint =>
    IO.eprintln ("Error: " ++ complaint)
    return 1
