import LayeredCatalog.Deployment.Config
import LayeredCatalog.Deployment.Error
import LayeredCatalog.Deployment.Routing
/-!
# Environments

The variables of a service are derived from several sources: the service itself,
its providers and the services it connects to. A variable belongs to the source
that first gave it a value, and no other source may give it one
(`DerivedEnv.insert`). Variables of the operator's come last and win.
-/

namespace LayeredCatalog

/-- The value of a derived variable and where it comes from. -/
structure DerivedValue where
  source : String
  value : String
deriving DecidableEq

/-- The derived variables of a service. -/
structure DerivedEnv where
  service : String
  vars : Table String DerivedValue := .empty
deriving DecidableEq

namespace DerivedEnv

/-- Gives a variable a value, unless another source gave it one. -/
def insert (env : DerivedEnv) (source key value : String) : Except DeploymentError DerivedEnv :=
  match env.vars.get? key with
  | some old =>
    if old.source = source then .ok { env with vars := env.vars.insert key ⟨source, value⟩ }
    else .error (.invalidOption ("services." ++ env.service) (.derivedTwice key old.source source))
  | none => .ok { env with vars := env.vars.insert key ⟨source, value⟩ }

/-- Gives variables values, one after another, up to the first that belongs to
another source; what was accepted before that one stays. -/
def insertAll (env : DerivedEnv) (source : String) :
    List (String × String) → DerivedEnv × Option DeploymentError
  | [] => (env, none)
  | (key, value) :: vars =>
    match env.insert source key value with
    | .ok env => env.insertAll source vars
    | .error e => (env, some e)

/-- Gives variables values, all of them or none. -/
def extend (env : DerivedEnv) (source : String) (vars : List (String × String)) :
    Except DeploymentError DerivedEnv :=
  match env.insertAll source vars with
  | (env, none) => .ok env
  | (_, some e) => .error e

def values (env : DerivedEnv) : Table String String := env.vars.map fun _ v => v.value

/-- The variables of the service: those of the operator's, and the derived ones
among the rest. -/
def withOperator (env : DerivedEnv) (operator : Table String String) : Table String String :=
  env.values.insertMany operator.toList

end DerivedEnv

namespace Environment

/-- The beginning of the names of variables about a service. -/
def key (service : String) : String :=
  String.ofList (service.toList.map fun c => if c.isAlphanum then c.toUpper else '_')

/-- What a service is told about one that it connects to. -/
def connection (target : String) (e : Endpoint) : List (String × String) :=
  [(key target ++ "_HOST", e.host), (key target ++ "_PORT", toString e.portNumber.toNat),
    (key target ++ "_URL", e.url)]

/-- A variable that holds the path of a credential, and the secret that the
credential is made from. -/
structure CredentialVar where
  fileVariable : String
  secret : String
deriving DecidableEq

/-- What a provider adds to the environment of a service. -/
structure ProviderVars where
  vars : Table String String
  credential : Option CredentialVar := none
deriving DecidableEq

/-- What a binding adds, under names that begin with `about`. -/
def ofBinding (about option : String) : Binding → Except DeploymentError ProviderVars
  | .onPremises model baseUrl =>
    .ok { vars := .ofList [(about ++ "_BINDING", "local"), (about ++ "_MODEL", model),
            (about ++ "_HOST", baseUrl)] }
  | .vendor vendor model apiKey baseUrl =>
    match baseUrl.or vendor.endpoint? with
    | none => .error (.invalidOption (option ++ ".base_url") (.noEndpoint vendor))
    | some host =>
      .ok { vars := .ofList [(about ++ "_BINDING", vendor.binding), (about ++ "_MODEL", model),
              (about ++ "_HOST", host)],
            credential := some ⟨about ++ "_API_KEY_FILE", apiKey.getD vendor.secret⟩ }

def ofSearch (s : SearchConfig) : ProviderVars :=
  { vars := .ofList [("SEARCH_PROVIDER", s.provider.name)],
    credential := some ⟨s.provider.keyVariable ++ "_FILE", s.apiKey.getD s.provider.keyVariable⟩ }

end Environment

end LayeredCatalog
