import LayeredCatalog.Deployment.Provider
/-!
# Why a deployment cannot be compiled

`DeploymentError` lists the faults of a configuration, each with what is needed to
find the culprit, and `DeploymentError.message` is their one wording.
-/

namespace LayeredCatalog

/-- What is wrong with the value of an option. -/
inductive OptionFault where
  /-- A service that others connect to does not listen. -/
  | noListener (service target : String)
  /-- The path of a route does not begin with a slash. -/
  | unrooted (path : String)
  /-- Two sources give one variable a value. -/
  | derivedTwice (key previous source : String)
  /-- A vendor without an endpoint of its own is given none. -/
  | noEndpoint (vendor : Vendor)
  /-- A path that is granted does not begin at the root. -/
  | relativePath (path : String)
deriving DecidableEq

def OptionFault.message : OptionFault → String
  | .noListener service target =>
    s!"\"{service}\" connects to \"{target}\", which has no listener"
  | .unrooted path => s!"\"{path}\" must start with '/'"
  | .derivedTwice key previous source => s!"{key} is derived from both {previous} and {source}"
  | .noEndpoint vendor => s!"vendor {vendor.binding} has no default endpoint"
  | .relativePath path => s!"\"{path}\" is not an absolute path"

/-- A fault of a configuration. -/
inductive DeploymentError where
  /-- A service refers to one that is not deployed. -/
  | disabledService (service target : String)
  /-- A service refers to one that is not configured. -/
  | unknownService (service target : String)
  /-- The component that holds a service's program is not in the catalog. -/
  | missingEntrypoint (service package : String)
  /-- A credential of a service has no secret. -/
  | missingSecret (service secret : String)
  /-- A service uses a provider that is switched off. -/
  | disabledProvider (service : String) (role : Role)
  /-- A service would have to start before itself. -/
  | startupCycle (service : String)
  /-- The value of an option does not do. -/
  | invalidOption (option : String) (fault : OptionFault)
deriving DecidableEq

def DeploymentError.message : DeploymentError → String
  | .disabledService service target =>
    s!"service \"{service}\" references \"{target}\", which is disabled"
  | .unknownService service target =>
    s!"service \"{service}\" references unknown service \"{target}\""
  | .missingEntrypoint service package =>
    s!"service \"{service}\" uses package \"{package}\", which is not in the resolved catalog"
  | .missingSecret service secret =>
    s!"service \"{service}\" requires secret \"{secret}\", which was not supplied"
  | .disabledProvider service role =>
    s!"service \"{service}\" uses the {role.name} subsystem, which is disabled"
  | .startupCycle service => s!"startup ordering cycle involving service \"{service}\""
  | .invalidOption option fault => s!"invalid option {option}: {fault.message}"

end LayeredCatalog
