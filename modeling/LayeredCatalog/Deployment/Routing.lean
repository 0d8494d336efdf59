import LayeredCatalog.Json
import LayeredCatalog.Text.Affix
/-!
# Routing

A route sends the requests under a path to a service. A path is under another one
if it continues it at a slash: `/api` covers `/api` and `/api/v1`, but not
`/apix`. The first route that matches wins, and the rest goes to a default
service.
-/

namespace LayeredCatalog

/-- Where a service listens. -/
structure Endpoint where
  host : String
  portNumber : UInt16
deriving DecidableEq

namespace Endpoint

def url (e : Endpoint) : String := s!"http://{e.host}:{e.portNumber.toNat}"

def toJson (e : Endpoint) : Json :=
  .object [("host", .string e.host), ("port", .nat e.portNumber.toNat)]

end Endpoint

/-- A rule that sends requests to a service. -/
structure Route where
  /-- The path that a request must be under. -/
  under : String
  service : String
  address : String
deriving DecidableEq

namespace Route

/-- Whether a path is under the path of the route. -/
def covers (r : Route) (path : String) : Bool :=
  match Text.afterPrefix? r.under.toList path.toList with
  | none => false
  | some rest =>
    rest.isEmpty || r.under.toList.getLast? = some '/' || rest.head? = some '/'

def toJson (r : Route) : Json :=
  .object [("prefix", .string r.under), ("service", .string r.service),
    ("upstream", .string r.address)]

end Route

/-- Routes and a default service. -/
structure RoutingTable where
  listen : Endpoint
  routes : List Route
  defaultService : String
  defaultAddress : String
deriving DecidableEq

namespace RoutingTable

/-- The first route that a path is under. -/
def find? (t : RoutingTable) (path : String) : Option Route := t.routes.find? (·.covers path)

def serviceFor (t : RoutingTable) (path : String) : String :=
  match t.find? path with
  | some r => r.service
  | none => t.defaultService

def addressFor (t : RoutingTable) (path : String) : String :=
  match t.find? path with
  | some r => r.address
  | none => t.defaultAddress

def toJson (t : RoutingTable) : Json :=
  .object [("listen", t.listen.toJson), ("routes", .array (t.routes.map Route.toJson)),
    ("default_service", .string t.defaultService),
    ("default_upstream", .string t.defaultAddress)]

end RoutingTable

end LayeredCatalog
