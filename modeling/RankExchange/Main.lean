import RankExchange.CommandLine

/-!
# Program

Runs diffusion on a ring with the options of the command line and prints the
total heat.
-/

open RankExchange

def main (arguments : List String) : IO UInt32 := do
  let printed := CommandLine.run Arithmetic.machine arguments
  printed.lines.forM (IO.println ·)
  printed.complaint.forM (fun text => IO.eprintln s!"error: {text}")
  return printed.status.toUInt32
