import LispReader.Diagnostic.Report
import LispReader.Lexer.Basic
import LispReader.Parser.Form
import LispReader.Source.Basic
import LispReader.Tree.Describe

namespace LispReader

structure Options where
  input : String
  tokens : Bool
  verbose : Bool
  deriving DecidableEq

structure Outcome where
  exitCode : UInt32
  stdout : String
  stderr : String
  deriving DecidableEq

namespace Command

def unlines (lines : List String) : String :=
  String.join (lines.map (· ++ "\n"))

def descriptions (tree : Arena) : List String :=
  tree.program.filterMap fun id => (tree.describe id).toOption

def failure (printed : String) (diagnostic : Diagnostic) (source : Source) : Outcome :=
  ⟨1, printed, diagnostic.report source.code⟩

/-- Reads a source and prints its forms, or what keeps it from being read. The tokens are printed
before the forms are read. -/
def run (options : Options) (source : Source) : Outcome :=
  match tokenize source.code source.name with
  | .error diagnostic => failure "" diagnostic source
  | .ok tokens =>
      let printed := if options.tokens then unlines (tokens.map Token.text) else ""
      match parse tokens source.name with
      | .error diagnostic => failure printed diagnostic source
      | .ok tree => ⟨0, printed ++ unlines (descriptions tree), ""⟩

end Command

end LispReader
