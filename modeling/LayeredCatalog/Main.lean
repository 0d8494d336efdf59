import LayeredCatalog.CommandLine
/-!
# The program

The outer layer of the program: files on the disk, the variables of the process,
and its standard streams.
-/

namespace LayeredCatalog.FileAccess

/-- The fault that an error of the system is. The number of an error may come
negated. -/
def faultOf (e : IO.Error) : FileFault :=
  match e with
  | .noFileOrDirectory .. => .notFound
  | .inappropriateType _ code _ =>
    if code = 20 || code + 20 = 0 then .notDirectory else .isDirectory
  | e => .other (toString e)

def disk : FileAccess IO where
  read p := do
    try
      match String.fromUTF8? (← IO.FS.readBinFile p.text) with
      | some s => return .ok s
      | none => return .error .notText
    catch e => return .error (faultOf e)
  write p s := do
    try
      IO.FS.writeFile p.text s
      return .ok ()
    catch e => return .error (faultOf e)

end LayeredCatalog.FileAccess

open LayeredCatalog

/-- Runs the program. It ends with 1 if the command fails, with 2 if the arguments
are misused and with 101 if a log filter is split inside a character. -/
def main (args : List String) : IO UInt32 := do
  let known ← CommandLine.variableNames.mapM fun name => return (name, ← IO.getEnv name)
  match ← CommandLine.run FileAccess.disk args fun name => (known.lookup name).join with
  | .printed text =>
    IO.print text
    return 0
  | .failed e =>
    IO.eprintln ("Error: " ++ e.message)
    match e.cause? with
    | some cause => IO.eprintln ("\nCaused by:\n    " ++ cause)
    | none => pure ()
    return 1
  | .broken fault =>
    IO.eprintln fault.message
    return 101
  | .misused m =>
    IO.eprintln ("error: " ++ m.message)
    return 2
