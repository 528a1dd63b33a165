import LispReader.Diagnostic.Basic
import LispReader.Tree.Arena

namespace LispReader

/-- What is read where a form begins: a scope with the delimiters around it, a leaf of one kind, or
any form, which is told by its first token. -/
inductive Rule
  | scope (delimiter : Delimiter)
  | number
  | integer
  | character
  | string
  | identifier
  | any
  deriving DecidableEq

abbrev RuleTable := TokenKind → Option Rule

namespace RuleTable

def empty : RuleTable := fun _ => none

def bind (kind : TokenKind) (rule : Rule) (table : RuleTable) : RuleTable :=
  fun other => if other = kind then some rule else table other

def kinds (table : RuleTable) : List TokenKind :=
  TokenKind.all.filter fun kind => (table kind).isSome

def addStandard (table : RuleTable) : RuleTable :=
  table
    |>.bind (.opening .paren) (.scope .paren)
    |>.bind (.opening .bracket) (.scope .bracket)
    |>.bind .number .number
    |>.bind .integer .integer
    |>.bind .character .character
    |>.bind .string .string
    |>.bind .identifier .identifier

@[simp]
theorem bind_self (kind : TokenKind) (rule : Rule) (table : RuleTable) :
    table.bind kind rule kind = some rule := by
  simp [bind]

theorem bind_of_ne (kind other : TokenKind) (rule : Rule) (table : RuleTable) (hne : other ≠ kind) :
    table.bind kind rule other = table other := by
  simp [bind, hne]

end RuleTable

def maxDepth : Nat := 256

/-- A place between two tokens, those before it with the last one first, and what has been made of
them: the nodes, and the number of scopes that are open. -/
structure Parser where
  done : List Token
  rest : List Token
  file : String
  rules : RuleTable
  tree : Arena
  depth : Nat

/-- A step of a parser. One that fails leaves the state it came to. -/
abbrev Parse := EStateM Diagnostic Parser

namespace Parser

def ofTokens (tokens : List Token) (file : String) : Parser :=
  ⟨[], tokens, file, .empty, .empty, 0⟩

def tokens (parser : Parser) : List Token :=
  parser.done.reverse ++ parser.rest

def current? (parser : Parser) : Option Token :=
  parser.rest.head?

def kind (parser : Parser) : TokenKind :=
  match parser.rest with
  | [] => .endOfFile
  | token :: _ => token.kind

/-- The line of the current token. Past the last one it is that of the last one. -/
def line (parser : Parser) : Nat :=
  match parser.rest, parser.done with
  | token :: _, _ => token.line
  | [], token :: _ => token.line
  | [], [] => 1

def isAt (kind : TokenKind) (parser : Parser) : Bool :=
  parser.kind = kind

def isAtAny (kinds : List TokenKind) (parser : Parser) : Bool :=
  kinds.contains parser.kind

def diagnosticAt (line : Nat) (cause : Cause) (parser : Parser) : Diagnostic :=
  ⟨cause, line, parser.file⟩

def diagnostic (cause : Cause) (parser : Parser) : Diagnostic :=
  parser.diagnosticAt parser.line cause

def unexpected (parser : Parser) : Diagnostic :=
  parser.diagnostic (.unexpectedToken parser.kind.name)

def advance (parser : Parser) : Parser :=
  match parser.rest with
  | [] => parser
  | token :: rest => { parser with done := token :: parser.done, rest }

def freeDepth (parser : Parser) : Nat :=
  maxDepth - parser.depth

theorem advance_tokens (parser : Parser) : parser.advance.tokens = parser.tokens := by
  unfold advance tokens
  split <;> simp_all

def closeScope (parser : Parser) : Parser :=
  { parser with depth := parser.depth - 1 }

end Parser

namespace Parse

def refuse {α : Type} : Parse α := fun parser =>
  .error parser.unexpected parser

def fail {α : Type} (line : Nat) (cause : Cause) : Parse α := fun parser =>
  .error (parser.diagnosticAt line cause) parser

/-- Moves over a token of the kind. The end of the tokens has a kind, but no token to give. -/
def expect (kind : TokenKind) : Parse Token := fun parser =>
  match parser.rest with
  | token :: _ =>
      if token.kind = kind then .ok token parser.advance else refuse parser
  | [] => refuse parser

def addNode (node : Node) : Parse NodeId := fun parser =>
  let (id, tree) := parser.tree.push node
  .ok id { parser with tree }

def openScope (line : Nat) : Parse Unit := fun parser =>
  if parser.depth < maxDepth then .ok () { parser with depth := parser.depth + 1 }
  else fail line (.nestingTooDeep maxDepth) parser

end Parse

end LispReader
