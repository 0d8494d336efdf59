import LayeredCatalog.Refusal
import LayeredCatalog.Text.Affix
/-!
# Log levels

How much a program writes to its log. On a command line a level may be written in
letters of any case, and `warning` is another name for `warn`; documents have the
five names only.
-/

namespace LayeredCatalog

/-- How much is written to a log. -/
inductive LogLevel where
  | error
  | warn
  | info
  | debug
  | trace
deriving DecidableEq, Repr, Inhabited

namespace LogLevel

def name : LogLevel → String
  | .error => "error"
  | .warn => "warn"
  | .info => "info"
  | .debug => "debug"
  | .trace => "trace"

def ofName? (s : String) : Option LogLevel :=
  [error, warn, info, debug, trace].find? (·.name = s)

/-- Reads a level as it may be written on a command line. -/
def parse (s : String) : Except Refusal LogLevel :=
  let s := Text.lower s
  if s = "warning" then .ok .warn
  else match ofName? s with
    | some level => .ok level
    | none => .error ⟨.logLevel, .unknownLevel s⟩

end LogLevel

end LayeredCatalog
