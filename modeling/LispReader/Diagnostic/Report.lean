import LispReader.Diagnostic.Basic
import LispReader.Text.Blank
import LispReader.Text.Line

namespace LispReader.Diagnostic

def heading (diagnostic : Diagnostic) : String :=
  match diagnostic.cause.tip? with
  | none => "Error: " ++ diagnostic.cause.name ++ "\n"
  | some tip => "Error: " ++ diagnostic.cause.name ++ " (" ++ tip ++ ")\n"

def excerpt (line : Nat) (text : List Char) : String :=
  let number := toString line
  let bar := String.ofList (List.replicate (number.length + 1) ' ') ++ "|\n"
  bar ++ number ++ " | " ++ String.ofList (Text.trimEnd (Text.withoutIndentation text)) ++ "\n" ++
    bar

/-- What the command line prints about a diagnostic. The excerpt is left out if `source` has no
such line. -/
def report (diagnostic : Diagnostic) (source : String) : String :=
  diagnostic.heading ++ diagnostic.message ++ "\n" ++ "-> " ++ diagnostic.file ++ "\n" ++
    match Text.line? source.toList diagnostic.line with
    | none => ""
    | some text => excerpt diagnostic.line text

end LispReader.Diagnostic
