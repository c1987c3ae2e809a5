import SchemaWire.Command.Outcome

/-!
# The program

Reads the command line and the file that it names, and prints the outcome.
-/

namespace SchemaWire.Command

/-- Print an outcome and end with its code. -/
def finish (outcome : Outcome) : IO UInt32 := do
  IO.print outcome.output
  match outcome.failure with
  | some e => IO.eprintln ("Error: " ++ e.report)
  | none => if outcome.code = 2 then IO.eprintln "the command line does not fit; try --help"
  return outcome.code.toUInt32

end SchemaWire.Command

open SchemaWire

/-- The program. -/
def main (arguments : List String) : IO UInt32 := do
  let request := Command.Request.ofArguments? arguments
  match request.bind Command.Request.file? with
  | none => Command.finish (Command.outcome request [])
  | some path =>
    match ← (IO.FS.readBinFile path).toBaseIO with
    | .ok content => Command.finish (Command.outcome request content.data.toList)
    | .error e =>
      IO.eprintln ("Error: " ++ toString e)
      return 1
