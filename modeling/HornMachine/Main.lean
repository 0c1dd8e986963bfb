import HornMachine.Demo

/-!
This module contains the command line: it shows the demonstration.
-/

open HornMachine in
def main : IO UInt32 := do
  match Demo.lines with
  | .ok lines =>
    lines.forM IO.println
    return 0
  | .error fault =>
    IO.eprintln s!"error: {fault.message}"
    return 1
