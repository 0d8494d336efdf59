import LayeredCatalog.Deployment.Config
import LayeredCatalog.Deployment.Routing
import LayeredCatalog.Digest
/-!
# Compiled deployments

What a supervisor needs to bring services up: a description of each service, in
the order in which they start, the directories to prepare, and the routing rules.
-/

namespace LayeredCatalog

/-- The program that runs a service. -/
structure Entrypoint where
  package : String
  /-- The artifact of the component that holds the program. -/
  artifact : Digest
  program : String
  args : List String
deriving DecidableEq

/-- A credential that is put into a file. -/
structure Credential where
  secret : String
  path : Path
deriving DecidableEq

/-- A path that a service may use. -/
structure PathAccess where
  path : Path
  mode : AccessMode
deriving DecidableEq

/-- A service that is to run. -/
structure ServiceDescription where
  name : String
  entrypoint : Entrypoint
  user : String
  /-- Where the service listens, if it does. -/
  listen : Option Endpoint
  environment : Table String String
  /-- The credentials, by the names of their secrets. -/
  credentials : Table String Credential
  /-- The services that start earlier. -/
  after : List String
  paths : List PathAccess
deriving DecidableEq

/-- A directory to prepare. -/
structure PathDirective where
  path : Path
  mode : AccessMode
  owner : String
  permissions : Nat
deriving DecidableEq

/-- Everything that is to be brought up. -/
structure Deployment where
  /-- The services, in the order in which they start. -/
  services : List ServiceDescription
  /-- The directories, in the order of paths. -/
  paths : List PathDirective
  /-- The routing rules, if there is a proxy. -/
  routing : Option RoutingTable
deriving DecidableEq

namespace Entrypoint

def toJson (e : Entrypoint) : Json :=
  .object [("package", .string e.package), ("artifact", .string e.artifact.render),
    ("program", .string e.program), ("args", .strings e.args)]

end Entrypoint

namespace ServiceDescription

def toJson (s : ServiceDescription) : Json :=
  .object [
    ("name", .string s.name),
    ("entrypoint", s.entrypoint.toJson),
    ("user", .string s.user),
    ("listen", (s.listen.map Endpoint.toJson).getD .null),
    ("environment", .object (s.environment.toList.map fun e => (e.1, .string e.2))),
    ("credentials", .object (s.credentials.toList.map fun e =>
      (e.1, .object [("secret", .string e.2.secret), ("path", .string e.2.path.text)]))),
    ("after", .strings s.after),
    ("paths", .array (s.paths.map fun a =>
      .object [("path", .string a.path.text), ("mode", .string a.mode.name)]))]

end ServiceDescription

namespace PathDirective

def toJson (d : PathDirective) : Json :=
  .object [("path", .string d.path.text), ("mode", .string d.mode.name),
    ("owner", .string d.owner), ("permissions", .nat d.permissions)]

end PathDirective

namespace Deployment

def service? (d : Deployment) (name : String) : Option ServiceDescription :=
  d.services.find? (·.name = name)

def toJson (d : Deployment) : Json :=
  .object [
    ("services", .array (d.services.map ServiceDescription.toJson)),
    ("paths", .array (d.paths.map PathDirective.toJson)),
    ("routing", (d.routing.map RoutingTable.toJson).getD .null)]

/-- The text of a deployment, one item or member a line. -/
def render (d : Deployment) : String := d.toJson.pretty

end Deployment

end LayeredCatalog
