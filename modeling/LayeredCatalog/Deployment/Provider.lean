import LayeredCatalog.Text.Affix
/-!
# Providers

What a service can be bound to: a chat model, an embedding model and a web search.
A model is reached on a local server or through a vendor, which takes a
credential and mostly has an endpoint of its own.
-/

namespace LayeredCatalog

/-- What a provider is used for. -/
inductive Role where
  | llm
  | embedding
  | search
deriving DecidableEq, Repr

namespace Role

/-- All roles, in their order. -/
def all : List Role := [llm, embedding, search]

def name : Role → String
  | .llm => "llm"
  | .embedding => "embedding"
  | .search => "search"

def ofName? (s : String) : Option Role := all.find? (·.name = s)

end Role

/-- Vendors of models. -/
inductive Vendor where
  | openAi
  | anthropic
  | azure
  | deepSeek
  | gemini
  | openRouter
deriving DecidableEq, Repr

namespace Vendor

def name : Vendor → String
  | .openAi => "openai"
  | .anthropic => "anthropic"
  | .azure => "azure"
  | .deepSeek => "deepseek"
  | .gemini => "gemini"
  | .openRouter => "openrouter"

def ofName? (s : String) : Option Vendor :=
  [openAi, anthropic, azure, deepSeek, gemini, openRouter].find? (·.name = s)

/-- What services are told about the vendor. -/
def binding : Vendor → String
  | .azure => "azure_openai"
  | v => v.name

/-- The public endpoint of a vendor that has one. -/
def endpoint? : Vendor → Option String
  | .openAi => some "https://api.openai.com/v1"
  | .anthropic => some "https://api.anthropic.com/v1"
  | .azure => none
  | .deepSeek => some "https://api.deepseek.com/v1"
  | .gemini => some "https://generativelanguage.googleapis.com/v1beta/openai"
  | .openRouter => some "https://openrouter.ai/api/v1"

/-- The secret that a vendor's key is kept under unless a name is given. -/
def secret (v : Vendor) : String := Text.upper v.binding ++ "_API_KEY"

end Vendor

/-- Providers of web search. -/
inductive SearchProvider where
  | perplexity
  | kagi
  | baidu
deriving DecidableEq, Repr, Inhabited

namespace SearchProvider

def name : SearchProvider → String
  | .perplexity => "perplexity"
  | .kagi => "kagi"
  | .baidu => "baidu"

def ofName? (s : String) : Option SearchProvider :=
  [perplexity, kagi, baidu].find? (·.name = s)

/-- The variable that holds the provider's key, which is also the secret that the
key is kept under unless a name is given. -/
def keyVariable (p : SearchProvider) : String := Text.upper p.name ++ "_API_KEY"

end SearchProvider

/-- How a model is reached. -/
inductive Binding where
  /-- On a server in the local network, without a credential. -/
  | onPremises (model baseUrl : String)
  /-- Through a vendor. The secret and the endpoint are the vendor's own unless
  they are given. -/
  | vendor (vendor : Vendor) (model : String) (apiKey baseUrl : Option String)
deriving DecidableEq

namespace Binding

def model : Binding → String
  | .onPremises model _ => model
  | .vendor _ model _ _ => model

/-- The endpoint of a model server on the same host. -/
def localUrl : String := "http://127.0.0.1:11434/v1"

/-- The model that a local binding has unless it names one. -/
def localModel : String := "llama3.2"

end Binding

end LayeredCatalog
