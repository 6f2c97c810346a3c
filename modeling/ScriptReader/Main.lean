import ScriptReader.CommandLine

/-!
# Main — the program

Reads the file that the arguments name, writes what `Invocation.outcome` says, and leaves an empty
log if one is asked for.
-/

namespace ScriptReader

/-- The reason for which the operating system refused to read a file. -/
def FileFault.ofError : IO.Error → FileFault
  | .permissionDenied .. => denied
  | .inappropriateType _ code _ => if code = 21 then isDirectory else notDirectory
  | .invalidArgument .. => nameTooLong
  | _ => notFound

/-- Reads a file. -/
def readFile (name : String) : IO (Except FileFault (List UInt8)) := do
  try
    return .ok (← IO.FS.readBinFile name).toList
  catch e => return .error (.ofError e)

end ScriptReader

open ScriptReader in
def main (arguments : List String) : IO UInt32 := do
  let invocation := Invocation.ofArguments arguments
  let contents ← match invocation.file? with
    | none => pure (.error .notFound)
    | some name => readFile name
  let outcome := invocation.outcome fun _ => contents
  if outcome.logs then IO.FS.writeFile "haw.log" ""
  IO.print outcome.stdout
  IO.eprint outcome.stderr
  return outcome.exit.toUInt32
