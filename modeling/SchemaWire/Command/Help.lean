import SchemaWire.Command.Grammar

/-!
# Help texts

The help on a command is written from its grammar: what it does, how it is called, and a
list of what it takes. Explanations in a list start in one column, two places after the
longest name.
-/

namespace SchemaWire.Command

/-- The name of the program in help texts. -/
def programName : String := "fory"

/-- Names and their explanations in two columns. -/
def columns (entries : List (String × String)) : List String :=
  let width := (entries.map fun entry => entry.1.length).foldl max 0
  entries.map fun (name, about) =>
    "  " ++ name ++ String.ofList (List.replicate (width - name.length) ' ') ++ "  " ++ about

/-- A help text: an explanation, the usage, and titled lists. -/
def helpText (about usage : String) (lists : List (String × List (String × String))) : String :=
  let blocks := lists.map fun (title, entries) =>
    String.intercalate "\n" ((title ++ ":") :: columns entries)
  String.intercalate "\n\n" (about :: ("Usage: " ++ programName ++ " " ++ usage) :: blocks) ++ "\n"

/-- The name of an option in a list, with its letter and its value. -/
def Switch.name (switch : Switch) : String :=
  let short := match switch.short with
    | some c => "-" ++ c.toString ++ ", "
    | none => "    "
  let value := match switch.parameter with
    | some parameter => " <" ++ parameter.label ++ ">"
    | none => ""
  short ++ "--" ++ switch.long ++ value

/-- The explanation of an option in a list, with what stands for its value. -/
def Switch.explanation (switch : Switch) : String :=
  let words := match switch.parameter with
    | some parameter =>
      let choices := match parameter.admitted with
        | .oneOf words => ["[possible values: " ++ String.intercalate ", " words ++ "]"]
        | _ => []
      ("[default: " ++ parameter.standard ++ "]") :: choices
    | none => []
  String.intercalate " " ((if switch.about.isEmpty then [] else [switch.about]) ++ words)

/-- The option that every command has. -/
def helpSwitch : Switch := ⟨some 'h', "help", "Print help", none⟩

/-- The list of options. -/
def optionList (switches : List Switch) : String × List (String × String) :=
  ("Options", (switches ++ [helpSwitch]).map fun switch => (switch.name, switch.explanation))

/-- The help on a command. -/
def Grammar.help (grammar : Grammar) : String :=
  let operand := "<" ++ grammar.operand.label ++ ">"
  helpText grammar.about (grammar.name ++ " [OPTIONS] " ++ operand)
    [("Arguments", [(operand, "")]), optionList grammar.switches]

/-- What the help says about itself. -/
def helpAbout : String := "Print this message or the help of the given subcommand(s)"

/-- The help on the help. -/
def helpOnHelp : String :=
  helpText helpAbout "help [COMMAND]..."
    [("Arguments", [("[COMMAND]...", "Print help for the subcommand(s)")])]

/-- The help on the program. -/
def generalHelp (about : String) (grammars : List Grammar) : String :=
  let commands := grammars.map fun grammar => (grammar.name, grammar.about)
  helpText about "<COMMAND>"
    [("Commands", commands ++ [("help", helpAbout)]), optionList []]

end SchemaWire.Command
