import LispReader.Lexer.Literal
import LispReader.Lexer.Numeral

namespace LispReader

inductive Pattern
  | blanks
  | comment
  | opening (delimiter : Delimiter)
  | closing (delimiter : Delimiter)
  | number
  | character
  | string
  | identifier
  deriving DecidableEq

namespace Pattern

def isBlank (c : Char) : Bool :=
  c = ' ' || c = '\t' || c = '\n' || c = '\x0b' || c = '\x0c' || c = '\r'

/-- Square brackets may stand inside an identifier, though they cannot begin one. -/
def isIdentifierChar (c : Char) : Bool :=
  !(c = '"' || c = '\'' || c = ';' || c = '(' || c = ')' || isBlank c)

def all : List Pattern :=
  [blanks, comment, opening .paren, closing .paren, opening .bracket, closing .bracket, number,
    character, string, identifier]

def run? (p : Char → Bool) (text : List Char) : Option (List Char) :=
  match text.takeWhile p with
  | [] => none
  | found => some found

/-- The text that the pattern finds at the start of a source. It is all of the part for blanks,
comments, delimiters and identifiers, and its first characters for the other literals. -/
def find? : Pattern → List Char → Option (List Char)
  | blanks, text => run? isBlank text
  | comment, ';' :: text => some (';' :: text.takeWhile (· ≠ '\n'))
  | opening delimiter, c :: _ => if c = delimiter.opener then some [c] else none
  | closing delimiter, c :: _ => if c = delimiter.closer then some [c] else none
  | number, '-' :: c :: _ => if c.isDigit then some ['-', c] else none
  | number, c :: _ => if c.isDigit then some [c] else none
  | character, '\'' :: _ => some ['\'']
  | string, '"' :: _ => some ['"']
  | identifier, text => run? isIdentifierChar text
  | _, _ => none

def read (found : List Char) (lexer : Lexer) : Pattern → Except Diagnostic Lexer
  | blanks | comment => .ok (lexer.skip found.length)
  | opening delimiter => .ok (token (.opening delimiter))
  | closing delimiter => .ok (token (.closing delimiter))
  | number => lexer.readNumber
  | character => lexer.readCharacter
  | string => lexer.readString
  | identifier => .ok (token .identifier)
where
  token (kind : TokenKind) : Lexer :=
    (lexer.push ⟨kind, String.ofList found, lexer.line⟩).skip found.length

end Pattern

end LispReader
