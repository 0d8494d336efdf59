import LayeredCatalog.Deployment.Environment
import LayeredCatalog.Deployment.Service
import LayeredCatalog.Resolution
/-!
# Compiling deployments

A configuration is compiled against a resolved catalog and a set of secrets. The
references between services are checked first, then the routing rules are made,
the services are put in the order in which they start, and each is described.
Whatever is wrong with the inputs is found here, and the first fault ends the
compilation.
-/

namespace LayeredCatalog

namespace ServiceConfig

/-- Where a service listens, if it does. -/
def listener? (s : ServiceConfig) : Option Endpoint :=
  if s.portNumber = 0 then none else some ⟨s.host, s.portNumber⟩

end ServiceConfig

namespace AccessMode

/-- The permission bits of a directory with this mode. -/
def permissions : AccessMode → Nat
  | .readOnly => 0o550
  | .readWrite => 0o750

end AccessMode

namespace DeploymentConfig

/-- The deployed service that `service` refers to. -/
def target (c : DeploymentConfig) (service target : String) :
    Except DeploymentError ServiceConfig :=
  match c.services.get? target with
  | none => .error (.unknownService service target)
  | some t => if t.enable then .ok t else .error (.disabledService service target)

/-- Where the deployed service listens that `service` connects to. -/
def listenerOf (c : DeploymentConfig) (service target : String) :
    Except DeploymentError Endpoint :=
  match c.target service target with
  | .error e => .error e
  | .ok t =>
    match t.listener? with
    | some e => .ok e
    | none => .error (.invalidOption s!"services.{target}.port" (.noListener service target))

def checkService (c : DeploymentConfig) (name : String) (s : ServiceConfig) :
    Except DeploymentError Unit := do
  s.connect.forM fun target => do
    let _ ← c.listenerOf name target
  s.after.forM fun target => do
    let _ ← c.target name target

def checkReferences (c : DeploymentConfig) : Except DeploymentError Unit :=
  c.enabledServices.forM fun e => c.checkService e.1 e.2

/-- The routes of the proxy from the `i`th on. -/
def compileRoutes (c : DeploymentConfig) : (i : Nat) → List RouteConfig →
    Except DeploymentError (List Route)
  | _, [] => .ok []
  | i, r :: routes => do
    if r.under.toList.head? ≠ some '/' then
      throw (.invalidOption s!"proxy.routes[{i}].prefix" (.unrooted r.under))
    let e ← c.listenerOf "proxy" r.service
    let routes ← c.compileRoutes (i + 1) routes
    return { under := r.under, service := r.service, address := e.url } :: routes

/-- The routing rules, if there is a proxy. -/
def compileRouting (c : DeploymentConfig) : Except DeploymentError (Option RoutingTable) := do
  if c.proxy.enable then
    let e ← c.listenerOf "proxy" c.proxy.default
    let routes ← c.compileRoutes 0 c.proxy.routes
    return some {
      listen := ⟨c.proxy.host, c.proxy.portNumber⟩
      routes
      defaultService := c.proxy.default
      defaultAddress := e.url }
  else return none

/-- The order in which deployed services wait for each other. -/
def startupGraph (c : DeploymentConfig) : Dependencies :=
  let nodes := c.enabledServices.foldl (fun g e => g.addNode e.1) {}
  c.enabledServices.foldl (fun g e => (e.2.connect ++ e.2.after).foldl (·.add e.1 ·) g) nodes

/-- The deployed services, each behind those that it waits for. -/
def startupOrder (c : DeploymentConfig) : Except DeploymentError (List String) :=
  c.startupGraph.order.mapError .startupCycle

/-- What a provider adds to the environment of a service. -/
def provide (c : DeploymentConfig) (service : String) :
    Role → Except DeploymentError Environment.ProviderVars
  | .llm => Environment.ofBinding "LLM" "llm" c.llm
  | .embedding =>
    (Environment.ofBinding "EMBEDDING" "embedding.binding" c.embedding.binding).map fun p =>
      { p with vars := p.vars.insert "EMBEDDING_DIMENSION" (toString c.embedding.dimension.toNat) }
  | .search =>
    if c.search.enable then .ok (Environment.ofSearch c.search)
    else .error (.disabledProvider service .search)

def stateDir (c : DeploymentConfig) (service : String) : Path := c.dataDir.join service

def credentialPath (c : DeploymentConfig) (service secret : String) : Path :=
  (c.credentialsDir.join service).join secret

def ownVars (c : DeploymentConfig) (name : String) (s : ServiceConfig) :
    List (String × String) :=
  [("STRATA_SERVICE", name), ("LOG_LEVEL", c.logLevel.name),
    ("DATA_DIR", (c.stateDir name).text)] ++
  match s.listener? with
  | some e => [("HOST", e.host), ("PORT", toString e.portNumber.toNat)]
  | none => []

/-- Adds what a provider needs and tells: its variables, and a credential with the
variable that holds its path. -/
def addProvider (c : DeploymentConfig) (secrets : SecretSet) (name : String)
    (made : DerivedEnv × Table String Credential) (role : Role) :
    Except DeploymentError (DerivedEnv × Table String Credential) := do
  let source := "provider " ++ role.name
  let provided ← c.provide name role
  let env ← made.1.extend source provided.vars.toList
  match provided.credential with
  | none => return (env, made.2)
  | some needed =>
    match secrets.get? needed.secret with
    | none => throw (.missingSecret name needed.secret)
    | some handle =>
      let path := c.credentialPath name needed.secret
      let env ← env.insert source needed.fileVariable path.text
      return (env, made.2.insert needed.secret ⟨handle, path⟩)

/-- Adds what a service is told about one that it connects to. -/
def addConnection (c : DeploymentConfig) (name : String) (env : DerivedEnv) (target : String) :
    Except DeploymentError DerivedEnv := do
  let e ← c.listenerOf name target
  env.extend s!"connect target \"{target}\"" (Environment.connection target e)

/-- The paths that a service is granted, from the `i`th on. -/
def compileGrants (name : String) : (i : Nat) → List PathGrant →
    Except DeploymentError (List PathAccess)
  | _, [] => .ok []
  | i, g :: grants => do
    if !g.path.isAbsolute then
      throw (.invalidOption s!"services.{name}.paths[{i}]" (.relativePath g.path.text))
    let grants ← compileGrants name (i + 1) grants
    return ⟨g.path, g.mode⟩ :: grants

def describe (c : DeploymentConfig) (catalog : ResolvedCatalog) (secrets : SecretSet)
    (name : String) (s : ServiceConfig) : Except DeploymentError ServiceDescription := do
  let package := s.packageFor name
  let some plan := catalog.get? package | throw (.missingEntrypoint name package)
  let env ← ({ service := name } : DerivedEnv).extend "service" (c.ownVars name s)
  let (env, credentials) ←
    (Role.all.filter s.providers.contains).foldlM (c.addProvider secrets name) (env, .empty)
  let env ← s.connect.foldlM (c.addConnection name) env
  let grants ← compileGrants name 0 s.paths
  return {
    name
    entrypoint := {
      package, artifact := plan.artifact, program := s.programFor name, args := s.args }
    user := c.user
    listen := s.listener?
    environment := env.withOperator s.environment
    credentials
    after := (Table.ofList ((s.connect ++ s.after).map (·, ()))).keys
    paths := ⟨c.stateDir name, .readWrite⟩ :: grants }

/-- The descriptions of services. A name that is not configured is passed over. -/
def describeAll (c : DeploymentConfig) (catalog : ResolvedCatalog) (secrets : SecretSet) :
    List String → Except DeploymentError (List ServiceDescription)
  | [] => .ok []
  | name :: names => do
    match c.services.get? name with
    | none => c.describeAll catalog secrets names
    | some s =>
      let d ← c.describe catalog secrets name s
      let ds ← c.describeAll catalog secrets names
      return d :: ds

/-- The directive of the directory that holds the directories of services. -/
def rootDirective (c : DeploymentConfig) : PathDirective :=
  ⟨c.dataDir, .readWrite, c.user, 0o755⟩

/-- Takes up a request for a path: a new path gets a directive, and a directive
that is too weak is raised. -/
def addAccess (c : DeploymentConfig) (directives : Table (List Path.Part) PathDirective)
    (a : PathAccess) : Table (List Path.Part) PathDirective :=
  match directives.get? a.path.parts with
  | none => directives.insert a.path.parts ⟨a.path, a.mode, c.user, a.mode.permissions⟩
  | some d =>
    if d.mode = .readOnly && a.mode = .readWrite then
      directives.insert a.path.parts
        { d with mode := a.mode, permissions := a.mode.permissions }
    else directives

/-- The directives for the paths of services, one for each path. -/
def pathDirectives (c : DeploymentConfig) (services : List ServiceDescription) :
    List PathDirective :=
  ((services.flatMap (·.paths)).foldl c.addAccess
    (.ofList [(c.dataDir.parts, c.rootDirective)])).values

def compile (c : DeploymentConfig) (catalog : ResolvedCatalog) (secrets : SecretSet) :
    Except DeploymentError Deployment := do
  c.checkReferences
  let routing ← c.compileRouting
  let order ← c.startupOrder
  let services ← c.describeAll catalog secrets order
  return { services, paths := c.pathDirectives services, routing }

end DeploymentConfig

end LayeredCatalog
