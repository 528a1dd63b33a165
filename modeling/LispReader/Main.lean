import LispReader.Command

namespace LispReader.Command

/-- A path at which there is nothing or a folder has no contents. Reading any other one may fail. -/
def fileContents? (path : String) : IO (Option (List UInt8)) := do
  if !Path.isPath path then
    return none
  try
    discard (IO.FS.realPath path)
  catch _ =>
    return none
  try
    return some (← IO.FS.readBinFile path).toList
  catch
    | .inappropriateType .. => return none
    | error => throw error

def execute (options : Options) : IO Outcome := do
  match ← (fileContents? options.input).toBaseIO with
  | .ok contents? => return run options (.load options.input contents?)
  | .error reason => return unreadable options.input reason.toString

end LispReader.Command

open LispReader

def main (arguments : List String) : IO UInt32 := do
  let outcome ← match Options.ofArguments arguments with
    | .ok options => Command.execute options
    | .error refusal => pure (Command.refused refusal)
  IO.print outcome.stdout
  IO.eprint outcome.stderr
  return outcome.exitCode
