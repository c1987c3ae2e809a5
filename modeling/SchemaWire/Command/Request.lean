import SchemaWire.Command.Help
import SchemaWire.Message.Config
import SchemaWire.Name.Scheme
import SchemaWire.Varint

/-!
# Requests

What the program can be asked for: how a name is written, the digest of a text, how a
number is written, and the structure of a message in a file. A command line asks for one of
these, or for help.
-/

namespace SchemaWire.Command

/-- What the program is asked for. -/
inductive Request
  /-- How a name is written. -/
  | name (scheme : Name.Scheme) (value : String)
  /-- The digest of a text. -/
  | digest (text : String) (seed : UInt64)
  /-- How a number is written. -/
  | number (value : Int) (budget : Varint.Budget) (signed : Bool)
  /-- The structure of a message in a file. -/
  | inspection (path : String) (config : Config)
  /-- A text that needs no work. -/
  | help (text : String)
  deriving DecidableEq, Repr

/-- What the program does. -/
def programAbout : String := "Inspect and exercise the fory wire format"

/-- The commands. -/
inductive Task
  | name
  | digest
  | number
  | inspection
  deriving DecidableEq, Repr

namespace Task

/-- All commands, as the help lists them. -/
def all : List Task := [.name, .digest, .number, .inspection]

/-- What a command takes. -/
def grammar : Task → Grammar
  | .name => {
    name := "meta-string"
    about := "Encode a name the way type metadata carries it"
    operand := ⟨"VALUE", .text, false⟩
    switches := [⟨some 'k', "kind",
      "Which kind of name this is. Each kind has its own special characters",
      some ⟨"KIND", .oneOf ["field", "type", "namespace"], "field"⟩⟩] }
  | .digest => {
    name := "hash"
    about := "Print the 128-bit MurmurHash3 of a string"
    operand := ⟨"VALUE", .text, false⟩
    switches := [⟨some 's', "seed", "", some ⟨"SEED", .int .uint64, "0"⟩⟩] }
  | .number => {
    name := "varint"
    about := "Print the variable-length encoding of an integer"
    operand := ⟨"VALUE", .int .int64, true⟩
    switches := [
      ⟨some 'w', "width", "Bit budget of the codec",
        some ⟨"WIDTH", .oneOf ["32", "36", "64"], "64"⟩⟩,
      ⟨none, "signed", "Zigzag-encode the value first", none⟩] }
  | .inspection => {
    name := "inspect"
    about := "Report the structure of a serialized message"
    operand := ⟨"FILE", .path, false⟩
    switches := [
      ⟨some 'c', "compatible", "The message carries embedded schemas and a meta section", none⟩,
      ⟨none, "no-xlang", "The message was written without the cross-language header", none⟩,
      ⟨none, "no-ref-flag", "The message has no top-level reference flag", none⟩] }

/-- The command with a name. -/
def ofName? (name : String) : Option Task :=
  all.find? fun task => task.grammar.name == name

/-- The scheme of names of a kind. -/
def schemeOfKind (kind : String) : Name.Scheme :=
  if kind = "type" then .type else if kind = "namespace" then .space else .field

/-- The budget of a width. -/
def budgetOfWidth (width : String) : Varint.Budget :=
  if width = "32" then Varint.word32 else if width = "36" then Varint.word36 else Varint.word64

/-- The request of a command whose operand and options were found. -/
def request (task : Task) (operand : String) (found : Found) : Request :=
  match task with
  | .name => .name (schemeOfKind (found.value "kind" "field")) operand
  | .digest =>
    let seed := (IntType.uint64.ofText? (found.value "seed" "0")).getD 0
    .digest operand (UInt64.ofNat seed.toNat)
  | .number =>
    .number ((IntType.int64.ofText? operand).getD 0) (budgetOfWidth (found.value "width" "64"))
      (found.has "signed")
  | .inspection =>
    .inspection operand {
      Config.standard with
      xlang := !found.has "no-xlang"
      compatible := found.has "compatible"
      refMode := if found.has "no-ref-flag" then .none else .nullOnly }

end Task

/-- The help that is asked for by the names of commands; none if there is no such command. -/
def helpOn : List String → Option String
  | [] => some (generalHelp programAbout (Task.all.map Task.grammar))
  | ["help"] => some helpOnHelp
  | [command] => (Task.ofName? command).map fun task => task.grammar.help
  | _ => none

/-- Read a command line. None if it does not fit. -/
def Request.ofArguments? : List String → Option Request
  | [] => none
  | command :: rest =>
    if command = "help" then (helpOn rest).map Request.help
    else if command = "--help" || command.toList.take 2 == ['-', 'h'] then
      (helpOn []).map Request.help
    else do
      let task ← Task.ofName? command
      match task.grammar.scan rest with
      | .error .help => return .help task.grammar.help
      | .error .misuse => none
      | .ok found => return task.request (← found.operand) found

end SchemaWire.Command
