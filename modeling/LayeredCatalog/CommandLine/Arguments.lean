import LayeredCatalog.Path
/-!
# Arguments

The arguments of the program are options, a command, and options and operands of
the command. `Invocation.parse` makes of them what is to be done, or says why
nothing is: a text is asked for instead, or the arguments are misused.

An option is written `--name value`, `--name=value` or, with one letter, `-n
value`, `-nvalue` or `-n=value`. A value does not begin with a dash, unless it is
a dash. Behind `--` every argument is an operand. An option is given at most once
on each side of the command; the ones that both sides have count behind the
command first.
-/

namespace LayeredCatalog

/-- The commands. -/
inductive Command where
  | resolve
  | order
  | compile
  | route
deriving DecidableEq, Repr

namespace Command

def all : List Command := [resolve, order, compile, route]

def name : Command → String
  | .resolve => "resolve"
  | .order => "order"
  | .compile => "compile"
  | .route => "route"

def ofName? (s : String) : Option Command := all.find? (·.name = s)

/-- How many operands a command takes at most, if there is a bound. -/
def maxOperands? : Command → Option Nat
  | .resolve => none
  | .order => some 0
  | .compile => some 0
  | .route => some 1

end Command

/-- The options that take a value. -/
inductive ValueOption where
  | project
  | log
  | output
deriving DecidableEq, Repr

/-- How the usage of an option that takes a value is shown. -/
def ValueOption.usage : ValueOption → String
  | .project => "--project <PROJECT>"
  | .log => "--log <LOG>"
  | .output => "--output <OUTPUT>"

/-- The options that take no value. -/
inductive Flag where
  | logJson
  | json
  | help
  | version
deriving DecidableEq, Repr

/-- How the usage of an option that takes no value is shown. -/
def Flag.usage : Flag → String
  | .logJson => "--log-json"
  | .json => "--json"
  | .help => "--help"
  | .version => "--version"

/-- An option of either kind. -/
inductive CommandOption where
  | value (o : ValueOption)
  | flag (f : Flag)
deriving DecidableEq, Repr

def CommandOption.usage : CommandOption → String
  | .value o => o.usage
  | .flag f => f.usage

/-- What help can be asked for. -/
inductive Topic where
  | program
  | command (c : Command)
  | help
deriving DecidableEq, Repr

/-- How arguments can be misused. -/
inductive Misuse where
  /-- No option or operand is written like this here. -/
  | unexpected (argument : String)
  | unknownCommand (word : String)
  | missingValue (o : ValueOption)
  | emptyValue (o : ValueOption)
  /-- A value is given to an option that takes none. -/
  | unneededValue (argument : String)
  /-- An option is given more than once. -/
  | repeated (o : CommandOption)
  | missingCommand
  | missingOperand (c : Command)
deriving DecidableEq

def Misuse.message : Misuse → String
  | .unexpected argument => s!"unexpected argument '{argument}' found"
  | .unknownCommand word => s!"unrecognized subcommand '{word}'"
  | .missingValue o => s!"a value is required for '{o.usage}' but none was supplied"
  | .emptyValue o => s!"a value is required for '{o.usage}' but none was supplied"
  | .unneededValue argument => s!"unexpected value found in '{argument}'; no more were expected"
  | .repeated o => s!"the argument '{o.usage}' cannot be used multiple times"
  | .missingCommand => "a subcommand is required but one was not provided"
  | .missingOperand c => s!"the operand of '{c.name}' was not provided"

/-- Why arguments do not lead to a command being carried out. -/
inductive Detour where
  | help (topic : Topic)
  /-- The version is asked for. -/
  | version
  | misuse (m : Misuse)
deriving DecidableEq

/-- The side of the command on which an argument stands. -/
inductive Side where
  | before
  | behind (c : Command)
deriving DecidableEq

namespace Side

def topic : Side → Topic
  | .before => .program
  | .behind c => .command c

def long? (side : Side) (name : String) : Option CommandOption :=
  match side, name with
  | _, "project" => some (.value .project)
  | _, "log" => some (.value .log)
  | _, "log-json" => some (.flag .logJson)
  | _, "help" => some (.flag .help)
  | .before, "version" => some (.flag .version)
  | .behind .resolve, "output" => some (.value .output)
  | .behind .compile, "output" => some (.value .output)
  | .behind .order, "json" => some (.flag .json)
  | _, _ => none

/-- The option with a letter. -/
def short? (side : Side) (c : Char) : Option CommandOption :=
  match side, c with
  | _, 'h' => some (.flag .help)
  | .before, 'V' => some (.flag .version)
  | .behind .resolve, 'o' => some (.value .output)
  | .behind .compile, 'o' => some (.value .output)
  | _, _ => none

end Side

/-- What the arguments on one side of the command give. -/
structure Given where
  values : List (ValueOption × String) := []
  flags : List Flag := []
  operands : List String := []
  /-- The latest option that was written apart from its value. It is checked when
  the next option or operand comes, or when there are no more. -/
  pending : Option (ValueOption × String) := none

namespace Given

/-- Takes up the value of an option. Only a log filter may be empty. -/
def store (g : Given) (o : ValueOption) (value : String) : Except Detour Given :=
  if (g.values.lookup o).isSome then .error (.misuse (.repeated (.value o)))
  else if value.isEmpty && o ≠ .log then .error (.misuse (.emptyValue o))
  else .ok { g with values := (o, value) :: g.values }

/-- Takes up the pending option. -/
def settle (g : Given) : Except Detour Given :=
  match g.pending with
  | none => .ok g
  | some (o, value) => { g with pending := none }.store o value

/-- Takes up a flag. -/
def raise (g : Given) (side : Side) (f : Flag) : Except Detour Given := do
  let g ← g.settle
  match f with
  | .help => throw (.help side.topic)
  | .version => throw .version
  | _ =>
    if f ∈ g.flags then throw (.misuse (.repeated (.flag f)))
    else return { g with flags := f :: g.flags }

def addOperand (g : Given) (c : Command) (operand : String) : Except Detour Given := do
  if c.maxOperands? = some g.operands.length then throw (.misuse (.unexpected operand))
  let g ← g.settle
  return { g with operands := g.operands ++ [operand] }

end Given

/-- How arguments are to be understood. -/
inductive Mode where
  /-- As options, commands and operands. -/
  | mixed
  /-- The first one as the value of an option. -/
  | value (o : ValueOption)
  | operands
deriving DecidableEq

/-- Takes up an argument that begins with two dashes and goes on with `body`. -/
def Given.addLong (g : Given) (side : Side) (argument : String) (body : List Char) :
    Except Detour (Mode × Given) := do
  let name := String.ofList (body.takeWhile (· ≠ '='))
  match side.long? name, body.dropWhile (· ≠ '=') with
  | none, _ => throw (.misuse (.unexpected argument))
  | some (.value o), [] => return (.value o, ← g.settle)
  | some (.value o), _ :: value => return (.mixed, ← (← g.settle).store o (String.ofList value))
  | some (.flag f), [] => return (.mixed, ← g.raise side f)
  | some (.flag _), _ :: _ => throw (.misuse (.unneededValue argument))

/-- Takes up an argument that begins with one dash and goes on with letters. -/
def Given.addShort (g : Given) (side : Side) (argument : String) :
    List Char → Except Detour (Mode × Given)
  | [] => .ok (.mixed, g)
  | c :: cs => do
    match side.short? c, cs with
    | none, _ => throw (.misuse (.unexpected argument))
    | some (.value o), [] => return (.value o, ← g.settle)
    | some (.value o), '=' :: value =>
      return (.mixed, ← (← g.settle).store o (String.ofList value))
    | some (.value o), value => return (.mixed, ← (← g.settle).store o (String.ofList value))
    | some (.flag f), cs => (← g.raise side f).addShort side argument cs

/-- Takes up the arguments on one side of the command. What is left begins with the
command, if there is one on this side. -/
def Given.addAll (side : Side) : Mode → Given → List String →
    Except Detour (Given × List String)
  | .value o, _, [] => .error (.misuse (.missingValue o))
  | _, g, [] => do return (← g.settle, [])
  | .operands, g, argument :: rest =>
    match side with
    | .before => .error (.misuse (.unexpected argument))
    | .behind c => do addAll side .operands (← g.addOperand c argument) rest
  | .value o, g, argument :: rest =>
    match argument.toList with
    | '-' :: _ :: _ => .error (.misuse (.missingValue o))
    | _ => addAll side .mixed { g with pending := some (o, argument) } rest
  | .mixed, g, argument :: rest =>
    match argument.toList, side with
    | ['-', '-'], _ => addAll side .operands g rest
    | '-' :: '-' :: body, _ => do
      let (mode, g) ← g.addLong side argument body
      addAll side mode g rest
    | '-' :: c :: cs, _ => do
      let (mode, g) ← g.addShort side argument (c :: cs)
      addAll side mode g rest
    | _, .before => .ok (g, argument :: rest)
    | _, .behind c => do addAll side .mixed (← g.addOperand c argument) rest

/-- What is to be done. -/
inductive Task where
  /-- Print the plans of components, of all if none is named. -/
  | resolve (names : List String) (output : Option Path)
  /-- Print the order in which components are built. -/
  | order (json : Bool)
  /-- Print the deployment. -/
  | compile (output : Option Path)
  /-- Print where the proxy sends a request. -/
  | route (path : String)
deriving DecidableEq

/-- What the arguments ask for. -/
structure Invocation where
  task : Task
  project : Path
  log : String
deriving DecidableEq

/-- The variable that holds the value of an option that is not given. -/
def ValueOption.variable? : ValueOption → Option String
  | .project => some "STRATA_PROJECT"
  | .log => some "STRATA_LOG"
  | .output => none

namespace Invocation

/-- The manifest of a project that is not named. -/
def defaultProject : String := "strata.yaml"

def defaultLog : String := "warn"

/-- The topic that the arguments of the command `help` name. -/
def helpTopic : List String → Except Detour Topic
  | [] => .ok .program
  | [word] =>
    if word = "help" then .ok .help
    else match Command.ofName? word with
      | some c => .ok (.command c)
      | none => .error (.misuse (.unknownCommand word))
  | _ :: word :: _ => .error (.misuse (.unexpected word))

/-- The value of an option: the one behind the command, the one before it, the one
of its variable, or a default. A variable counts on each side that does not give
the option, so it must not be empty then. -/
def valueOf (before behind : Given) (environment : String → Option String) (o : ValueOption)
    (default : String) : Except Detour String :=
  match behind.values.lookup o, before.values.lookup o, o.variable?.bind environment with
  | some v, some _, _ => .ok v
  | v, w, x =>
    if x = some "" && o ≠ .log then .error (.misuse (.emptyValue o))
    else .ok (((v.or w).or x).getD default)

/-- What the arguments behind a command ask for. -/
def taskOf (c : Command) (g : Given) : Except Detour Task :=
  let output := (g.values.lookup .output).map Path.mk
  match c, g.operands with
  | .resolve, names => .ok (.resolve names output)
  | .order, _ => .ok (.order (g.flags.contains .json))
  | .compile, _ => .ok (.compile output)
  | .route, path :: _ => .ok (.route path)
  | .route, [] => .error (.misuse (.missingOperand .route))

/-- Reads the arguments of the program; `environment` has the variables. -/
def parse (args : List String) (environment : String → Option String) :
    Except Detour Invocation := do
  match ← Given.addAll .before .mixed {} args with
  | (_, []) => throw (.misuse .missingCommand)
  | (before, word :: rest) =>
    if word = "help" then throw (.help (← helpTopic rest))
    let some c := Command.ofName? word | throw (.misuse (.unknownCommand word))
    let (behind, _) ← Given.addAll (.behind c) .mixed {} rest
    let task ← taskOf c behind
    let before ← before.settle
    let project ← valueOf before behind environment .project defaultProject
    let log ← valueOf before behind environment .log defaultLog
    return { task, project := ⟨project⟩, log }

end Invocation

end LayeredCatalog
