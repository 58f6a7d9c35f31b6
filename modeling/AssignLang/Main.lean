/-
# The program

Reads the file that the arguments name, runs it and prints the outcome.
-/
import AssignLang.CommandLine

namespace AssignLang

/-- The bytes of a file, if it can be read. -/
def readFile? (path : String) : IO (Option ByteArray) := do
  try
    let bytes ← IO.FS.readBinFile path
    return some bytes
  catch _ => return none

/-- Runs the file that the options name. -/
def Options.start (o : Options) : IO UInt32 := do
  let file ← readFile? o.path
  let outcome := o.run file
  IO.print outcome.stdout
  IO.eprint outcome.stderr
  return outcome.code.toUInt32

end AssignLang

def main (args : List String) : IO UInt32 := do
  match AssignLang.Options.ofArgs? args with
  | some o => o.start
  | none =>
    IO.eprintln "Usage: [--tokens] [--ast] [-v|--verbose] [PATH]"
    return 2
