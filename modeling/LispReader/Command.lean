import LispReader.Command.Run

namespace LispReader

inductive Refusal
  | help
  | usage
  deriving DecidableEq

namespace Options

structure Reading where
  input? : Option String
  tokens : Bool
  verbose : Bool

namespace Reading

abbrev Step := Reading → Except Refusal Reading

def refuse : Step := fun _ => .error .usage

def takeInput (input : String) : Step := fun reading =>
  if reading.input?.isSome then refuse reading else .ok { reading with input? := some input }

def takeTokens : Step := fun reading =>
  if reading.tokens then refuse reading else .ok { reading with tokens := true }

def takeVerbose : Step := fun reading =>
  if reading.verbose then refuse reading else .ok { reading with verbose := true }

def takeHelp : Step := fun _ => .error .help

def takeLetter : Char → Step
  | 'v' => takeVerbose
  | 'h' => takeHelp
  | _ => refuse

def takeWord : String → Step
  | "--tokens" => takeTokens
  | "--verbose" => takeVerbose
  | "--help" => takeHelp
  | _ => refuse

/-- One hyphen comes before letters, each of which is a flag, and two before a word. A hyphen alone
is an input like any other. -/
def take (argument : String) : Step := fun reading =>
  match argument.toList with
  | '-' :: '-' :: _ => takeWord argument reading
  | '-' :: letter :: letters =>
      (letter :: letters).foldlM (fun reading letter => takeLetter letter reading) reading
  | _ => takeInput argument reading

def takeAll : List String → Step
  | [], reading => .ok reading
  | argument :: rest, reading =>
      if argument = "--" then
        rest.foldlM (fun reading input => takeInput input reading) reading
      else do takeAll rest (← take argument reading)

end Reading

/-- The arguments are read one after the other, so that the first one that ends the reading counts.
At the end there must be an input. -/
def ofArguments (arguments : List String) : Except Refusal Options := do
  match ← Reading.takeAll arguments ⟨none, false, false⟩ with
  | ⟨some input, tokens, verbose⟩ => .ok ⟨input, tokens, verbose⟩
  | ⟨none, _, _⟩ => .error .usage

def ofArguments? (arguments : List String) : Option Options :=
  (ofArguments arguments).toOption

end Options

namespace Command

def usageError : UInt32 := 2

def usage : String :=
  "usage: [--tokens] [-v | --verbose] [-h | --help] [--] INPUT\n"

def refused : Refusal → Outcome
  | .help => ⟨0, usage, ""⟩
  | .usage => ⟨usageError, "", usage⟩

def unreadable (input reason : String) : Outcome :=
  ⟨1, "", "Error: " ++ input ++ ": " ++ reason ++ "\n"⟩

end Command

end LispReader
