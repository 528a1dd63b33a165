import LispReader.Source.Path
import LispReader.Text.Utf8

namespace LispReader

structure Source where
  code : String
  name : String
  unexpectedExtension : Bool
  deriving DecidableEq

namespace Source

def shell : String := "shell"

def extension : String := "mlsp"

def ofLiteral (code : String) : Source := ⟨code, shell, false⟩

def endLine (text : List Char) : List Char :=
  if text = [] ∨ text.getLast? = some '\n' then text else text ++ ['\n']

def ofFile (path : String) (contents : List UInt8) : Source where
  code := String.ofList (endLine (Text.Utf8.decode contents))
  name := Path.fileName path
  unexpectedExtension := Path.extension? (Path.fileName path) ≠ some extension

/-- What the command line is given is a path if there are contents at it, and else the code. -/
def load (input : String) (contents? : Option (List UInt8)) : Source :=
  match contents? with
  | some contents => ofFile input contents
  | none => ofLiteral input

end Source

end LispReader
