import LayeredCatalog.Deployment.Config
import LayeredCatalog.Json
import LayeredCatalog.Yaml.Datum
/-!
# Deployment configurations in documents

A configuration is a record of records in which everything can be left out, apart
from what a route, a path or a binding to a vendor is about. Services that are
given take the place of the default ones.

The kind of a binding decides what the rest of it means, so the rest is taken in
before that is known and its texts must look like texts.
-/

namespace LayeredCatalog

open Yaml (Node)

namespace Binding

def localKeys : List String := ["model", "base_url"]

def vendorKeys : List String := ["vendor", "model", "api_key", "base_url"]

/-- Splits the entries of a binding into the values of its kind and the rest. -/
def splitKind (entries : List (Node × Node)) : List Node × List (Node × Node) :=
  let isKind (e : Node × Node) : Bool := e.1.strictText? = some "kind"
  ((entries.filter isKind).map (·.2), entries.filter (!isKind ·))

/-- The fields among `keys` that entries give, each at most once. -/
def fields? (keys : List String) (entries : List (Node × Node)) :
    Option (List (String × Node)) := do
  let fields ← entries.mapM fun e => (e.1.strictKey? keys).map (·, e.2)
  if fields.all (keys.contains ·.1) && (fields.map (·.1)).Nodup then some fields else none

/-- Reads a binding from its kind and its fields, which `fields` finds among the
keys of the kind. -/
def ofFields? (kind : String) (fields : List String → Option (List (String × Node))) :
    Option Binding :=
  match kind with
  | "local" => do
    let fields ← fields localKeys
    let model ← Datum.field? fields "model" Node.strictText? localModel
    let baseUrl ← Datum.field? fields "base_url" Node.strictText? localUrl
    some (.onPremises model baseUrl)
  | "vendor" => do
    let fields ← fields vendorKeys
    let names := ["openai", "anthropic", "azure", "deepseek", "gemini", "openrouter"]
    let company ← Datum.required? fields "vendor" fun n =>
      (n.strictChoice? names).bind Vendor.ofName?
    let model ← Datum.required? fields "model" Node.strictText?
    let apiKey ← Datum.field? fields "api_key" Node.strictOptional? none
    let baseUrl ← Datum.field? fields "base_url" Node.strictOptional? none
    some (.vendor company model apiKey baseUrl)
  | _ => none

/-- Reads a binding: a mapping with the key `kind`, or the list of the kind and the
fields in their order. -/
def ofNode? : Node → Option Binding
  | .mapping tag entries =>
    if (Node.localTag? tag).isSome then none
    else match splitKind entries with
      | ([kind], rest) => do ofFields? (← Datum.text? kind) (fields? · rest)
      | _ => none
  | .list tag (kind :: rest) =>
    if (Node.localTag? tag).isSome then none
    else do
      ofFields? (← Datum.text? kind) fun keys =>
        if rest.length ≤ keys.length then some (keys.zip rest) else none
  | _ => none

def toJson : Binding → Json
  | .onPremises model baseUrl =>
    .object [("kind", .string "local"), ("model", .string model), ("base_url", .string baseUrl)]
  | .vendor company model apiKey baseUrl =>
    .object [("kind", .string "vendor"), ("vendor", .string company.name),
      ("model", .string model), ("api_key", .stringOrNull apiKey),
      ("base_url", .stringOrNull baseUrl)]

end Binding

def portNumber? (n : Node) : Option UInt16 := (n.nat? UInt16.size).map UInt16.ofNat

def path? (n : Node) : Option Path := (Datum.text? n).map Path.mk

namespace PathGrant

def ofNode? (n : Node) : Option PathGrant := do
  let fields ← Datum.record? ["path", "mode"] n
  let path ← Datum.required? fields "path" path?
  let mode ← Datum.field? fields "mode" (fun n => n.choice?.bind AccessMode.ofName?) .readOnly
  some { path, mode }

def toJson (g : PathGrant) : Json :=
  .object [("path", .string g.path.text), ("mode", .string g.mode.name)]

end PathGrant

namespace ServiceConfig

def keys : List String :=
  ["enable", "package", "program", "args", "host", "port", "connect", "after", "providers",
    "environment", "paths"]

def ofNode? (n : Node) : Option ServiceConfig := do
  let fields ← Datum.record? keys n
  let default : ServiceConfig := {}
  let enable ← Datum.field? fields "enable" Node.truth? default.enable
  let package ← Datum.field? fields "package" (Node.optional? Datum.text?) default.package
  let program ← Datum.field? fields "program" (Node.optional? Datum.text?) default.program
  let args ← Datum.field? fields "args" Datum.texts? default.args
  let host ← Datum.field? fields "host" Datum.text? default.host
  let portNumber ← Datum.field? fields "port" portNumber? default.portNumber
  let connect ← Datum.field? fields "connect" Datum.texts? default.connect
  let after ← Datum.field? fields "after" Datum.texts? default.after
  let providers ← Datum.field? fields "providers" (fun n => do
    (← Datum.items? n).mapM fun n => n.choice?.bind Role.ofName?) default.providers
  let environment ←
    Datum.field? fields "environment" (Datum.table? Datum.text?) default.environment
  let paths ← Datum.field? fields "paths" (fun n => do
    (← Datum.items? n).mapM PathGrant.ofNode?) default.paths
  some {
    enable, package, program, args, host, portNumber, connect, after, providers, environment, paths }

def toJson (s : ServiceConfig) : Json :=
  .object [
    ("enable", .bool s.enable),
    ("package", .stringOrNull s.package),
    ("program", .stringOrNull s.program),
    ("args", .strings s.args),
    ("host", .string s.host),
    ("port", .nat s.portNumber.toNat),
    ("connect", .strings s.connect),
    ("after", .strings s.after),
    ("providers", .strings (s.providers.map Role.name)),
    ("environment", .object (s.environment.toList.map fun e => (e.1, .string e.2))),
    ("paths", .array (s.paths.map PathGrant.toJson))]

end ServiceConfig

namespace EmbeddingConfig

def ofNode? (n : Node) : Option EmbeddingConfig := do
  let fields ← Datum.record? ["binding", "dimension"] n
  let default : EmbeddingConfig := {}
  let binding ← Datum.field? fields "binding" Binding.ofNode? default.binding
  let dimension ← Datum.field? fields "dimension" (fun n => (n.nat? UInt32.size).map UInt32.ofNat)
    default.dimension
  some { binding, dimension }

def toJson (e : EmbeddingConfig) : Json :=
  .object [("binding", e.binding.toJson), ("dimension", .nat e.dimension.toNat)]

end EmbeddingConfig

namespace SearchConfig

def ofNode? (n : Node) : Option SearchConfig := do
  let fields ← Datum.record? ["enable", "provider", "api_key"] n
  let default : SearchConfig := {}
  let enable ← Datum.field? fields "enable" Node.truth? default.enable
  let provider ← Datum.field? fields "provider" (fun n => n.choice?.bind SearchProvider.ofName?)
    default.provider
  let apiKey ← Datum.field? fields "api_key" (Node.optional? Datum.text?) default.apiKey
  some { enable, provider, apiKey }

/-- What is said about web search as a document. -/
def toJson (s : SearchConfig) : Json :=
  .object [("enable", .bool s.enable), ("provider", .string s.provider.name),
    ("api_key", .stringOrNull s.apiKey)]

end SearchConfig

namespace RouteConfig

def ofNode? (n : Node) : Option RouteConfig := do
  let fields ← Datum.record? ["prefix", "service"] n
  let under ← Datum.required? fields "prefix" Datum.text?
  let service ← Datum.required? fields "service" Datum.text?
  some { under, service }

def toJson (r : RouteConfig) : Json :=
  .object [("prefix", .string r.under), ("service", .string r.service)]

end RouteConfig

namespace ProxyConfig

def ofNode? (n : Node) : Option ProxyConfig := do
  let fields ← Datum.record? ["enable", "host", "port", "default", "routes"] n
  let standard : ProxyConfig := {}
  let enable ← Datum.field? fields "enable" Node.truth? standard.enable
  let host ← Datum.field? fields "host" Datum.text? standard.host
  let portNumber ← Datum.field? fields "port" portNumber? standard.portNumber
  let default ← Datum.field? fields "default" Datum.text? standard.default
  let routes ← Datum.field? fields "routes" (fun n => do
    (← Datum.items? n).mapM RouteConfig.ofNode?) standard.routes
  some { enable, host, portNumber, default, routes }

/-- What is said about the proxy as a document. -/
def toJson (p : ProxyConfig) : Json :=
  .object [("enable", .bool p.enable), ("host", .string p.host), ("port", .nat p.portNumber.toNat),
    ("default", .string p.default), ("routes", .array (p.routes.map RouteConfig.toJson))]

end ProxyConfig

namespace DeploymentConfig

def keys : List String :=
  ["data_dir", "credentials_dir", "log_level", "user", "llm", "embedding", "search", "services",
    "proxy"]

def ofNode? (n : Node) : Option DeploymentConfig := do
  let fields ← Datum.record? keys n
  let default : DeploymentConfig := {}
  let dataDir ← Datum.field? fields "data_dir" path? default.dataDir
  let credentialsDir ← Datum.field? fields "credentials_dir" path? default.credentialsDir
  let logLevel ← Datum.field? fields "log_level" (fun n => n.choice?.bind LogLevel.ofName?)
    default.logLevel
  let user ← Datum.field? fields "user" Datum.text? default.user
  let llm ← Datum.field? fields "llm" Binding.ofNode? default.llm
  let embedding ← Datum.field? fields "embedding" EmbeddingConfig.ofNode? default.embedding
  let search ← Datum.field? fields "search" SearchConfig.ofNode? default.search
  let services ← Datum.field? fields "services" (Datum.table? ServiceConfig.ofNode?)
    default.services
  let proxy ← Datum.field? fields "proxy" ProxyConfig.ofNode? default.proxy
  some { dataDir, credentialsDir, logLevel, user, llm, embedding, search, services, proxy }

def toJson (c : DeploymentConfig) : Json :=
  .object [
    ("data_dir", .string c.dataDir.text),
    ("credentials_dir", .string c.credentialsDir.text),
    ("log_level", .string c.logLevel.name),
    ("user", .string c.user),
    ("llm", c.llm.toJson),
    ("embedding", c.embedding.toJson),
    ("search", c.search.toJson),
    ("services", .object (c.services.toList.map fun e => (e.1, e.2.toJson))),
    ("proxy", c.proxy.toJson)]

def parse (s : String) : Except Refusal DeploymentConfig :=
  match (Node.parse? s).bind ofNode? with
  | some c => .ok c
  | none => .error ⟨.deploymentConfiguration, .malformed⟩

end DeploymentConfig

namespace SecretSet

/-- Reads the text of a set of secrets, a mapping from names to handles. -/
def parse (s : String) : Except Refusal SecretSet :=
  match (Node.parse? s).bind (Datum.table? Datum.text?) with
  | some t => .ok t
  | none => .error ⟨.secretReferences, .malformed⟩

end SecretSet

end LayeredCatalog
