import LayeredCatalog.Deployment.LogLevel
import LayeredCatalog.Deployment.Provider
import LayeredCatalog.Path
import LayeredCatalog.Table
/-!
# Deployment configurations

Which services are deployed, how they reach each other and their providers, which
files they may use, and how requests are routed to them. Every option has a
default: without any, a back end with a local model and a front end that talks to
it are deployed.
-/

namespace LayeredCatalog

/-- The handles of secrets, by their names. -/
abbrev SecretSet := Table String String

/-- What may be done with a path. -/
inductive AccessMode where
  | readOnly
  | readWrite
deriving DecidableEq, Repr

namespace AccessMode

def name : AccessMode → String
  | .readOnly => "ro"
  | .readWrite => "rw"

def ofName? (s : String) : Option AccessMode := [readOnly, readWrite].find? (·.name = s)

end AccessMode

/-- A path that a service may use besides its own directory. -/
structure PathGrant where
  path : Path
  mode : AccessMode := .readOnly
deriving DecidableEq

/-- A service. -/
structure ServiceConfig where
  /-- Whether the service is deployed. -/
  enable : Bool := true
  /-- The component that holds the program, if it is not the one named like the
  service. -/
  package : Option String := none
  /-- The program in the component, if it is not `bin/` and the service's name. -/
  program : Option String := none
  args : List String := []
  /-- The address to listen on. -/
  host : String := "127.0.0.1"
  /-- The number to listen on at that address; a service with number zero does not
  listen. -/
  portNumber : UInt16 := 0
  /-- The services whose addresses the service is told. -/
  connect : List String := []
  /-- The services that start earlier besides those. -/
  after : List String := []
  /-- The providers that the service is told about. -/
  providers : List Role := []
  /-- Variables of the operator's, which win over derived ones. -/
  environment : Table String String := .empty
  paths : List PathGrant := []
deriving DecidableEq

namespace ServiceConfig

/-- The component that holds the program of a service. -/
def packageFor (s : ServiceConfig) (service : String) : String := s.package.getD service

def programFor (s : ServiceConfig) (service : String) : String :=
  s.program.getD ("bin/" ++ service)

end ServiceConfig

/-- The embedding model. -/
structure EmbeddingConfig where
  binding : Binding := .onPremises "nomic-embed-text" Binding.localUrl
  /-- The length of the vectors. -/
  dimension : UInt32 := 1536
deriving DecidableEq

/-- Web search. -/
structure SearchConfig where
  /-- Whether services may search. -/
  enable : Bool := false
  provider : SearchProvider := .perplexity
  /-- The secret that the key is kept under, if it is not the provider's own. -/
  apiKey : Option String := none
deriving DecidableEq

/-- A rule that sends requests under a path to a service. -/
structure RouteConfig where
  /-- The path that a request must be under. -/
  under : String
  service : String
deriving DecidableEq

/-- The reverse proxy. -/
structure ProxyConfig where
  /-- Whether there is one. -/
  enable : Bool := false
  host : String := "0.0.0.0"
  portNumber : UInt16 := 80
  /-- The service that gets the requests that no route matches. -/
  default : String := "frontend"
  routes : List RouteConfig := []
deriving DecidableEq

/-- A deployment configuration. -/
structure DeploymentConfig where
  /-- The directory that holds the directories of the services. -/
  dataDir : Path := ⟨"/var/lib/strata"⟩
  /-- The directory that holds the credentials of the services. -/
  credentialsDir : Path := ⟨"/run/credentials"⟩
  logLevel : LogLevel := .info
  user : String := "strata"
  llm : Binding := .onPremises Binding.localModel Binding.localUrl
  embedding : EmbeddingConfig := {}
  search : SearchConfig := {}
  services : Table String ServiceConfig := .ofList [
    ("backend", { portNumber := 8001, providers := [.llm, .embedding] }),
    ("frontend", { portNumber := 3782, connect := ["backend"] })]
  proxy : ProxyConfig := {}
deriving DecidableEq

namespace DeploymentConfig

/-- The services that are deployed, by name. -/
def enabledServices (c : DeploymentConfig) : List (String × ServiceConfig) :=
  c.services.toList.filter (·.2.enable)

end DeploymentConfig

end LayeredCatalog
