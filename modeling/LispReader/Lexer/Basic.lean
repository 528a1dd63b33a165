import LispReader.Lexer.Pattern

namespace LispReader

namespace Lexer

def next? (lexer : Lexer) : Option (Pattern × List Char) :=
  Pattern.all.findSome? fun pattern => (pattern.find? lexer.rest).map (pattern, ·)

/-- Reads the next part of the source. A character with which no pattern begins would be an
identifier of its own. -/
def step (lexer : Lexer) : Except Diagnostic Lexer :=
  match lexer.next? with
  | some (pattern, found) => pattern.read found lexer
  | none => Pattern.identifier.read (lexer.rest.take 1) lexer

def steps : Nat → Lexer → Except Diagnostic Lexer
  | 0, lexer => .ok lexer
  | n + 1, lexer =>
      if lexer.atEnd then .ok lexer
      else
        match lexer.step with
        | .error diagnostic => .error diagnostic
        | .ok further => steps n further

/-- Every part has a character at least, so there are no more parts than characters. -/
def toEnd (lexer : Lexer) : Except Diagnostic Lexer :=
  lexer.steps lexer.rest.length

def closed (lexer : Lexer) : List Token :=
  (lexer.push ⟨.endOfFile, "EOF", lexer.line⟩).tokens.toList

end Lexer

def tokenize (source file : String) : Except Diagnostic (List Token) :=
  (Lexer.ofSource source file).toEnd.map Lexer.closed

end LispReader
