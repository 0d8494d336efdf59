import LayeredCatalog.CommandLine.Help
import LayeredCatalog.CommandLine.LogFilter
import LayeredCatalog.Deployment.Compile
import LayeredCatalog.Project.Load
/-!
# The command line

A command loads the files that the manifest of a project names, resolves the
catalog, for some commands compiles the deployment, and prints a text or writes
it into a file. It stops at the first fault, and then prints and writes nothing.
-/

namespace LayeredCatalog

/-- Why a command fails. -/
inductive CommandError where
  | logFilter (fault : LogFilter.Fault)
  | projectNotLoaded (path : Path) (cause : LoadError)
  | catalogNotLoaded (path : Path) (cause : LoadError)
  | layerNotLoaded (path : Path) (cause : LoadError)
  | deploymentNotLoaded (path : Path) (cause : LoadError)
  | secretsNotLoaded (path : Path) (cause : LoadError)
  | notResolved (cause : ResolutionError)
  | notCompiled (cause : DeploymentError)
  /-- A component that plans are asked for is not in the catalog. -/
  | unknownComponent (name : String)
  /-- A route is asked for, but there is no proxy. -/
  | noProxy
  | notWritten (path : Path) (cause : FileFault)
deriving DecidableEq

namespace CommandError

def message : CommandError → String
  | .logFilter fault => fault.message
  | .projectNotLoaded path _ => "failed to load project manifest " ++ path.text
  | .catalogNotLoaded path _ => "failed to load catalog " ++ path.text
  | .layerNotLoaded path _ => "failed to load layer " ++ path.text
  | .deploymentNotLoaded path _ => "failed to load deployment config " ++ path.text
  | .secretsNotLoaded path _ => "failed to load secrets " ++ path.text
  | .notResolved cause => cause.message
  | .notCompiled cause => cause.message
  | .unknownComponent name => s!"component \"{name}\" is not in the resolved catalog"
  | .noProxy => "the reverse proxy is disabled in this deployment"
  | .notWritten path _ => "failed to write " ++ path.text

/-- The wording of what lies behind an error, if it does not say so itself. -/
def cause? : CommandError → Option String
  | .projectNotLoaded _ cause => some cause.message
  | .catalogNotLoaded _ cause => some cause.message
  | .layerNotLoaded _ cause => some cause.message
  | .deploymentNotLoaded _ cause => some cause.message
  | .secretsNotLoaded _ cause => some cause.message
  | .notWritten _ cause => some cause.message
  | _ => none

end CommandError

/-- What becomes of a run of the program. -/
inductive Outcome where
  | printed (text : String)
  | failed (error : CommandError)
  /-- The program breaks off. -/
  | broken (fault : LogFilter.Fault)
  | misused (m : Misuse)

namespace CommandLine

def variableNames : List String := ["STRATA_PROJECT", "STRATA_LOG", "NO_COLOR", "CLICOLOR_FORCE"]

variable {m : Type → Type} [Monad m]

/-- Gives the error of a computation another form. -/
def explain {ε ε' α : Type} (f : ε → ε') (x : ExceptT ε m α) : ExceptT ε' m α :=
  ExceptT.mk do return (← x.run).mapError f

def resolve (files : FileAccess m) (p : Project) : ExceptT CommandError m ResolvedCatalog := do
  let base ← explain (.catalogNotLoaded p.catalog) (files.loadCatalog p.catalog)
  let layers ← p.layers.mapM fun path => explain (.layerNotLoaded path) (files.loadLayer path)
  liftExcept (({ base, layers } : Composition).resolve.mapError CommandError.notResolved)

/-- The deployment of a project. Without a configuration the default one is compiled,
and without a set of secrets there are none. -/
def compile (files : FileAccess m) (p : Project) : ExceptT CommandError m Deployment := do
  let catalog ← resolve files p
  let config ← match p.deployment with
    | some path => explain (.deploymentNotLoaded path) (files.loadDeployment path)
    | none => pure {}
  let secrets ← match p.secrets with
    | some path => explain (.secretsNotLoaded path) (files.loadSecrets path)
    | none => pure .empty
  liftExcept ((config.compile catalog secrets).mapError CommandError.notCompiled)

/-- The plans with the names that are asked for, or all if none is. -/
def select (r : ResolvedCatalog) (names : List String) : Except CommandError ResolvedCatalog :=
  if names.isEmpty then .ok r
  else names.foldlM (fun chosen name =>
    match r.get? name with
    | some plan => .ok (chosen.insert name plan)
    | none => .error (.unknownComponent name)) .empty

def plansToJson (r : ResolvedCatalog) : Json := .object (r.toList.map fun e => (e.1, e.2.toJson))

/-- Names on lines of their own, each behind its number. The numbers end in one
column. -/
def numbered (names : List String) : String :=
  let width := (toString names.length).length
  String.join (names.zipIdx.map fun e =>
    let number := toString (e.2 + 1)
    String.ofList (List.replicate (width - number.length) ' ') ++ number ++ ". " ++ e.1 ++ "\n")

/-- Where a request for a path is sent. -/
def routeLine (t : RoutingTable) (path : String) : String :=
  s!"{path} -> {t.serviceFor path} ({t.addressFor path})\n"

/-- Writes a text into a file if there is one, and leaves it to be printed if not. -/
def emit (files : FileAccess m) (output : Option Path) (text : String) :
    ExceptT CommandError m String := do
  match output with
  | none => return text
  | some path =>
    match ← files.write path text with
    | .ok () => return ""
    | .error fault => throw (.notWritten path fault)

/-- Carries out what the arguments ask for; the result is to be printed. -/
def execute (files : FileAccess m) (i : Invocation) : ExceptT CommandError m String := do
  liftExcept ((LogFilter.check i.log).mapError CommandError.logFilter)
  let p ← explain (.projectNotLoaded i.project) (files.loadProject i.project)
  match i.task with
  | .resolve names output =>
    let chosen ← select (← resolve files p) names
    emit files output ((plansToJson chosen).pretty ++ "\n")
  | .order json =>
    let order ← liftExcept ((← resolve files p).buildOrder.mapError CommandError.notResolved)
    return if json then (Json.strings order).pretty ++ "\n" else numbered order
  | .compile output => emit files output ((← compile files p).render ++ "\n")
  | .route path =>
    match (← compile files p).routing with
    | some t => return routeLine t path
    | none => throw .noProxy

/-- Runs the program on its arguments; `environment` has the variables. -/
def run (files : FileAccess m) (args : List String) (environment : String → Option String) :
    m Outcome := do
  match Invocation.parse args environment with
  | .error (.help topic) => return .printed (topic.text environment)
  | .error .version => return .printed versionText
  | .error (.misuse misuse) => return .misused misuse
  | .ok i =>
    match ← (execute files i).run with
    | .ok text => return .printed text
    | .error (.logFilter .split) => return .broken .split
    | .error e => return .failed e

end CommandLine

end LayeredCatalog
