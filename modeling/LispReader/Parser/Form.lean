import LispReader.Number.Decimal
import LispReader.Parser.State

namespace LispReader

namespace Leaf

def ofNumber (lexeme : String) : Except Cause Leaf :=
  match Number.finite? lexeme.toList with
  | some value => .ok (.number value)
  | none => .error (.unreadableNumber lexeme)

def ofInteger (lexeme : String) : Except Cause Leaf :=
  match Number.integer? lexeme.toList with
  | some value => .ok (.integer value)
  | none => .error (.unreadableInteger lexeme)

/-- Of a longer lexeme the first character counts. -/
def ofCharacter (lexeme : String) : Except Cause Leaf :=
  match lexeme.toList with
  | c :: _ => .ok (.character c)
  | [] => .error (.unexpectedToken TokenKind.character.name)

end Leaf

namespace Parse

def leaf (kind : TokenKind) (ofLexeme : String → Except Cause Leaf) : Parse NodeId := do
  let token ← expect kind
  match ofLexeme token.lexeme with
  | .ok value => addNode (.leaf value token.line)
  | .error cause => fail token.line cause

def itemsUntil (stops : List TokenKind) (item : Parse NodeId) :
    Nat → List NodeId → Parse (List NodeId)
  | 0, found => pure found.reverse
  | bound + 1, found => do
      if (← get).isAtAny stops then pure found.reverse
      else
        let id ← item
        itemsUntil stops item bound (id :: found)

def scope (bound : Nat) (item : Parse NodeId) (delimiter : Delimiter) : Parse NodeId := do
  let opening ← expect (.opening delimiter)
  openScope opening.line
  let children ← itemsUntil [.endOfFile, .closing delimiter] item bound []
  if (← get).isAt (.closing delimiter) then
    modify fun parser => parser.advance.closeScope
    addNode (.scope delimiter children opening.line)
  else
    fail opening.line (.unterminatedScope delimiter)

def byRule (bound : Nat) (item : Parse NodeId) : Rule → Parse NodeId
  | .scope delimiter => scope bound item delimiter
  | .number => leaf .number Leaf.ofNumber
  | .integer => leaf .integer Leaf.ofInteger
  | .character => leaf .character Leaf.ofCharacter
  | .string => leaf .string fun lexeme => .ok (.string lexeme)
  | .identifier => leaf .identifier fun lexeme => .ok (.identifier lexeme)
  | .any => refuse

/-- Reads a form by the rule of its first token. A kind whose rule is to read any form has none that
says more. The items of a scope are forms with a level less to go. -/
def formWithin (bound : Nat) : Nat → Parse NodeId
  | 0 => dispatch refuse
  | levels + 1 => dispatch (formWithin bound levels)
where
  dispatch (item : Parse NodeId) : Parse NodeId := do
    let parser ← get
    match parser.rules parser.kind with
    | some rule => byRule bound item rule
    | none => refuse

/-- Reads a form. As many levels are left as scopes may still be opened, and no scope has more items
than there are tokens. -/
def form : Parse NodeId := fun parser =>
  formWithin parser.rest.length parser.freeDepth parser

def ofRule (rule : Rule) : Parse NodeId := fun parser =>
  match rule with
  | .any => form parser
  | rule =>
      let bound := parser.rest.length
      byRule bound (formWithin bound (parser.freeDepth - 1)) rule parser

end Parse

def parse (tokens : List Token) (file : String) : Except Diagnostic Arena :=
  let parser := { Parser.ofTokens tokens file with rules := .addStandard .empty }
  let bound := tokens.length
  match Parse.itemsUntil [.endOfFile] (Parse.formWithin bound maxDepth) bound [] parser with
  | .ok program parser => .ok { parser.tree with program }
  | .error diagnostic _ => .error diagnostic

end LispReader
