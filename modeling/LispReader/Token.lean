namespace LispReader

inductive Delimiter
  | paren
  | bracket
  deriving DecidableEq

namespace Delimiter

def opener : Delimiter → Char
  | paren => '('
  | bracket => '['

def closer : Delimiter → Char
  | paren => ')'
  | bracket => ']'

end Delimiter

inductive TokenKind
  | opening (delimiter : Delimiter)
  | closing (delimiter : Delimiter)
  | number
  | integer
  | character
  | string
  | identifier
  | endOfFile
  deriving DecidableEq

namespace TokenKind

def all : List TokenKind :=
  [opening .paren, closing .paren, opening .bracket, closing .bracket, number, integer, character,
    string, identifier, endOfFile]

def name : TokenKind → String
  | opening .paren => "Left Parenthesis"
  | closing .paren => "Right Parenthesis"
  | opening .bracket => "Left Bracket"
  | closing .bracket => "Right Bracket"
  | number => "Number"
  | integer => "Integer"
  | character => "Character"
  | string => "String"
  | identifier => "Identifier"
  | endOfFile => "End Of File"

end TokenKind

/-- The lexeme is the token's text after escapes are resolved and the underscores of a number are
dropped. The line counts from 1 and is that of the token's first character. -/
structure Token where
  kind : TokenKind
  lexeme : String
  line : Nat
  deriving DecidableEq

def Token.text (token : Token) : String :=
  "LEXEME: " ++ token.lexeme ++ ", TYPE: " ++ token.kind.name ++ ", LINE: " ++
    toString token.line ++ "."

end LispReader
