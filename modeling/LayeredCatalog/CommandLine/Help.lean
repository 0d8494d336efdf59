import LayeredCatalog.CommandLine.Arguments
import LayeredCatalog.CommandLine.ControlSequence
/-!
# Help

The texts that the program prints about itself and its commands. They are written
for a terminal, with headings and literal words in heavy type, and shown without
control sequences, unless the environment asks for them. The values of variables
stand in them as they are, and may hold control sequences of their own.
-/

namespace LayeredCatalog

def programName : String := "strata"

def versionText : String := programName ++ " 0.1.0\n"

namespace Command

/-- What a command does. -/
def about : Command → String
  | .resolve => "Resolve the catalog and print build plans"
  | .order => "Print the dependency-first build order of the resolved catalog"
  | .compile => "Compile the deployment and print or write its description"
  | .route => "Show which service the reverse proxy sends a request path to"

/-- The operands of a command as its usage shows them, and what they are. -/
def operandHelp : Command → List (String × String)
  | .resolve => [("[NAMES]...", "Only print plans for these components")]
  | .route => [("<PATH>", "Request path, e.g. \x60/api/chat\x60")]
  | _ => []

end Command

/-- An entry of a table in a help text. -/
structure HelpEntry where
  /-- Blanks before the entry. -/
  lead : String := ""
  /-- The words that are typed as they stand. -/
  literals : List String := []
  /-- What stands for something else. -/
  placeholder : String := ""
  about : String

namespace HelpEntry

/-- How many columns the entry takes. -/
def width (e : HelpEntry) : Nat :=
  e.lead.length + (", ".intercalate e.literals).length + e.placeholder.length

/-- The entry as it is written for a terminal. -/
def term (e : HelpEntry) : String :=
  e.lead ++ ", ".intercalate (e.literals.map ControlSequence.bold) ++ e.placeholder

/-- A text whose lines behind the first one begin at a column. -/
def indented (column : Nat) (text : String) : String :=
  String.ofList (text.toList.flatMap fun c =>
    if c = '\n' then '\n' :: List.replicate column ' ' else [c])

/-- Entries under a heading, with what they are about in a second column, which
starts two blanks behind the widest entry. -/
def table (heading : String) : List HelpEntry → String
  | [] => ""
  | entries =>
    let widest := entries.foldl (fun w e => max w e.width) 0
    "\n" ++ ControlSequence.boldUnderlined (heading ++ ":") ++ "\n" ++
      String.join (entries.map fun e =>
        "  " ++ e.term ++ String.ofList (List.replicate (widest - e.width + 2) ' ') ++
          indented (widest + 4) e.about ++ "\n")

end HelpEntry

def Command.optionHelp : Command → List HelpEntry
  | .resolve => [{
      literals := ["-o", "--output"], placeholder := " <OUTPUT>"
      about := "Write the plans to a file instead of stdout" }]
  | .order => [{
      lead := "    ", literals := ["--json"], about := "Print the order as a JSON array" }]
  | .compile => [{
      literals := ["-o", "--output"], placeholder := " <OUTPUT>"
      about := "Write the deployment to a file instead of stdout" }]
  | .route => []

namespace Topic

def helpAbout : String := "Print this message or the help of the given subcommand(s)"

def about : Topic → String
  | .program => "CLI binary (strata) for resolving catalogs and compiling deployments."
  | .command c => c.about
  | .help => helpAbout

/-- How the topic is used. -/
def usage : Topic → String
  | .program => ControlSequence.bold programName ++ " [OPTIONS] <COMMAND>"
  | .command c => " ".intercalate
      ([ControlSequence.bold (programName ++ " " ++ c.name), "[OPTIONS]"] ++
        c.operandHelp.map (·.1))
  | .help => ControlSequence.bold (programName ++ " help") ++ " [COMMAND]..."

/-- What is said about the variable and the default of an option. -/
def sources (environment : String → Option String) (name default : String) : String :=
  let value := (environment name).getD ""
  s!"[env: {name}={value}] [default: {default}]"

/-- The options that both sides of a command have. The command `help` takes none of
them. -/
def commonOptions (environment : String → Option String) : List HelpEntry := [
  { lead := "    ", literals := ["--project"], placeholder := " <PROJECT>"
    about := "Path to the project manifest " ++
      sources environment "STRATA_PROJECT" Invocation.defaultProject },
  { lead := "    ", literals := ["--log"], placeholder := " <LOG>"
    about := "Log filter directive, e.g. \x60debug\x60 or \x60strata_resolve=trace\x60 " ++
      sources environment "STRATA_LOG" Invocation.defaultLog },
  { lead := "    ", literals := ["--log-json"], about := "Emit logs as JSON lines" }]

def tables (t : Topic) (environment : String → Option String) : String :=
  let common := commonOptions environment
  let help : HelpEntry := { literals := ["-h", "--help"], about := "Print help" }
  let operands (es : List (String × String)) : String :=
    HelpEntry.table "Arguments" (es.map fun e => { placeholder := e.1, about := e.2 })
  match t with
  | .program =>
    let commands := Command.all.map fun c =>
      ({ literals := [c.name], about := c.about } : HelpEntry)
    HelpEntry.table "Commands" (commands ++ [{ literals := ["help"], about := helpAbout }]) ++
      HelpEntry.table "Options"
        (common ++ [help, { literals := ["-V", "--version"], about := "Print version" }])
  | .command c =>
    operands c.operandHelp ++ HelpEntry.table "Options" (c.optionHelp ++ common ++ [help])
  | .help => operands [("[COMMAND]...", "Print help for the subcommand(s)")]

/-- Whether the environment asks for control sequences in all output. -/
def keepsControl (environment : String → Option String) : Bool :=
  ((environment "NO_COLOR").getD "").isEmpty && !((environment "CLICOLOR_FORCE").getD "").isEmpty

def text (t : Topic) (environment : String → Option String) : String :=
  let written := t.about ++ "\n\n" ++ ControlSequence.boldUnderlined "Usage:" ++ " " ++ t.usage ++
    "\n" ++ t.tables environment
  if keepsControl environment then written else ControlSequence.strip written

end Topic

end LayeredCatalog
