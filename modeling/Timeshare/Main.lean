import Timeshare.Demo

/-!
# The command line

The program runs the demonstration and prints its lines.
-/

/-- Prints the demonstration. -/
def main : IO UInt32 := do
  match Timeshare.Demo.output with
  | .ok lines =>
    for line in lines do
      IO.println line
    return 0
  | .error e =>
    IO.eprintln e.message
    return 1
