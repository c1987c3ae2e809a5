import SchemaWire.Types.Integer

/-!
# Command lines

A command takes one operand and some options. An option has a long name after two hyphens
and perhaps a letter after one; letters may stand together, and a value may follow at once,
after an equals sign, or as the next argument. Two hyphens alone end the options. Arguments
are looked at one after the other, so the first fault decides, and a wish for help that
comes before every fault is granted.
-/

namespace SchemaWire.Command

/-- What may stand for a value. -/
inductive Admitted
  /-- Any text. -/
  | text
  /-- The path of a file. -/
  | path
  /-- A number of an integer type. -/
  | int (t : IntType)
  /-- One of the given words. -/
  | oneOf (words : List String)
  deriving DecidableEq, Repr

/-- Whether a text stands for a value. -/
def Admitted.admits : Admitted → String → Bool
  | .text, _ => true
  | .path, s => !s.isEmpty
  | .int t, s => (t.ofText? s).isSome
  | .oneOf words, s => words.contains s

/-- The value that an option takes. -/
structure Parameter where
  /-- How the help speaks of it. -/
  label : String
  /-- What may stand for it. -/
  admitted : Admitted
  /-- What stands for it when the option is not given. -/
  standard : String
  deriving DecidableEq, Repr

/-- An option. -/
structure Switch where
  /-- The letter, where there is one. -/
  short : Option Char
  /-- The long name. -/
  long : String
  /-- What the help says about it. -/
  about : String
  /-- The value that it takes, if it takes one. -/
  parameter : Option Parameter
  deriving DecidableEq, Repr

/-- What a command takes without naming it. -/
structure Operand where
  /-- How the help speaks of it. -/
  label : String
  /-- What may stand for it. -/
  admitted : Admitted
  /-- Whether it may start with a hyphen. -/
  hyphens : Bool
  deriving DecidableEq, Repr

/-- What a command takes. -/
structure Grammar where
  /-- The name of the command. -/
  name : String
  /-- What the help says about it. -/
  about : String
  /-- What it takes without naming it. -/
  operand : Operand
  /-- Its options. -/
  switches : List Switch
  deriving DecidableEq, Repr

/-- Why a command line is not carried out. -/
inductive Stop
  /-- It does not fit the grammar. -/
  | misuse
  /-- It asks for help. -/
  | help
  deriving DecidableEq, Repr

/-- The arguments that were found. -/
structure Found where
  /-- The operand, once it was found. -/
  operand : Option String
  /-- The options that were found, by their long names, with their values. -/
  settings : List (String × String)
  deriving DecidableEq, Repr

/-- How far the arguments were looked at. -/
structure Scan where
  /-- What was found so far. -/
  found : Found
  /-- An option that waits for its value. -/
  pending : Option Switch
  /-- The options have ended. -/
  literal : Bool
  deriving DecidableEq, Repr

namespace Scan

/-- No argument was looked at. -/
def start : Scan := ⟨⟨none, []⟩, none, false⟩

/-- Note an option with its value, which has to be admitted. No option is given twice. -/
def note (scan : Scan) (switch : Switch) (value : String) : Except Stop Scan :=
  let admitted := match switch.parameter with
    | some parameter => parameter.admitted.admits value
    | none => true
  if !admitted || (scan.found.settings.lookup switch.long).isSome then .error .misuse
  else .ok { scan with
    found.settings := (switch.long, value) :: scan.found.settings
    pending := none }

end Scan

namespace Grammar

/-- The option with a letter. -/
def ofShort? (grammar : Grammar) (c : Char) : Option Switch :=
  grammar.switches.find? fun switch => switch.short == some c

/-- The option with a long name. -/
def ofLong? (grammar : Grammar) (name : String) : Option Switch :=
  grammar.switches.find? fun switch => switch.long == name

/-- Whether the operand is still to come and may start with a hyphen. -/
def awaitsHyphens (grammar : Grammar) (scan : Scan) : Bool :=
  grammar.operand.hyphens && scan.found.operand.isNone

/-- Take an argument as the operand. -/
def takeOperand (grammar : Grammar) (scan : Scan) (argument : String) : Except Stop Scan :=
  if scan.found.operand.isSome || scan.pending.isSome
      || !grammar.operand.admitted.admits argument then .error .misuse
  else .ok { scan with found.operand := some argument }

/-- Take the letters after a hyphen. The value of an option may follow its letter. -/
def takeLetters (grammar : Grammar) (scan : Scan) : List Char → Except Stop Scan
  | [] => .ok scan
  | c :: rest =>
    if c = 'h' then .error .help
    else
      match grammar.ofShort? c with
      | none => .error .misuse
      | some switch =>
        match switch.parameter, rest with
        | some _, [] => .ok { scan with pending := some switch }
        | some _, '=' :: value => scan.note switch (String.ofList value)
        | some _, value => scan.note switch (String.ofList value)
        | none, rest => do
          takeLetters grammar (← scan.note switch "") rest

/-- Take the name after two hyphens, with a value after an equals sign. -/
def takeLong (grammar : Grammar) (scan : Scan) (argument : String) (chars : List Char) :
    Except Stop Scan :=
  let name := String.ofList (chars.takeWhile (· ≠ '='))
  let value := match chars.dropWhile (· ≠ '=') with
    | [] => none
    | _ :: value => some (String.ofList value)
  match grammar.ofLong? name, value with
  | some switch, some value =>
    if switch.parameter.isSome then scan.note switch value else .error .misuse
  | some switch, none =>
    if switch.parameter.isSome then .ok { scan with pending := some switch }
    else scan.note switch ""
  | none, value =>
    if name == "help" then .error (if value.isSome then .misuse else .help)
    else if grammar.awaitsHyphens scan then grammar.takeOperand scan argument
    else .error .misuse

/-- Whether what follows a hyphen is made of options. Where it could also be the operand,
every letter has to be an option. -/
def areLetters (grammar : Grammar) (scan : Scan) (chars : List Char) : Bool :=
  !grammar.awaitsHyphens scan || chars.all fun c => c == 'h' || (grammar.ofShort? c).isSome

/-- Look at one argument. -/
def step (grammar : Grammar) (scan : Scan) (argument : String) : Except Stop Scan :=
  if scan.literal then grammar.takeOperand scan argument
  else
    match scan.pending, argument.toList with
    | some switch, chars =>
      if chars.head? = some '-' then .error .misuse else scan.note switch argument
    | none, ['-', '-'] => .ok { scan with literal := true }
    | none, '-' :: '-' :: chars => grammar.takeLong scan argument chars
    | none, '-' :: c :: chars =>
      if grammar.areLetters scan (c :: chars) then grammar.takeLetters scan (c :: chars)
      else grammar.takeOperand scan argument
    | none, _ => grammar.takeOperand scan argument

/-- Look at all arguments. No option may be left without its value. -/
def scan (grammar : Grammar) (arguments : List String) : Except Stop Found := do
  let last ← arguments.foldlM grammar.step Scan.start
  if last.pending.isSome then throw .misuse
  return last.found

end Grammar

namespace Found

/-- Whether an option was given. -/
def has (found : Found) (name : String) : Bool :=
  (found.settings.lookup name).isSome

/-- The value of an option, or another one where the option was not given. -/
def value (found : Found) (name standard : String) : String :=
  (found.settings.lookup name).getD standard

end Found

end SchemaWire.Command
