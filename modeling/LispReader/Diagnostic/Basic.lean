import LispReader.Token
import LispReader.Text.Quoted

namespace LispReader

inductive Cause
  | unterminatedString
  | unterminatedCharacter
  | unknownEscapeCode (code : Char)
  | malformedNumber (text : String)
  | trailingSeparator (text : String)
  | unterminatedScope (delimiter : Delimiter)
  | unexpectedToken (name : String)
  | nestingTooDeep (limit : Nat)
  | unreadableNumber (lexeme : String)
  | unreadableInteger (lexeme : String)
  deriving DecidableEq

namespace Cause

def name : Cause → String
  | unterminatedString => "UnterminatedString"
  | unterminatedCharacter => "UnterminatedCharacter"
  | unknownEscapeCode _ => "UnknownEscapeCode"
  | malformedNumber _ => "MalformedNumber"
  | trailingSeparator _ => "TrailingSeparator"
  | unterminatedScope .paren => "UnterminatedScope"
  | unterminatedScope .bracket => "UnterminatedList"
  | unexpectedToken _ => "UnexpectedToken"
  | nestingTooDeep _ => "NestingTooDeep"
  | unreadableNumber _ => "NumberParseError"
  | unreadableInteger _ => "IntegerParseError"

/-- The sentence of the message. A text from the source stands quoted in it, an escape code as it
is. -/
def sentence : Cause → String
  | unterminatedString => "unterminated string"
  | unterminatedCharacter => "unterminated character literal"
  | unknownEscapeCode code => "unknown escape code '\\" ++ String.singleton code ++ "'"
  | malformedNumber text =>
      "expected number " ++ Text.quoted text ++
        " to not have two or more consecutive separators or dots"
  | trailingSeparator text =>
      "expected number " ++ Text.quoted text ++ " to not end with a separator or a dot"
  | unterminatedScope .paren => "unterminated scope"
  | unterminatedScope .bracket => "unterminated list"
  | unexpectedToken name => "unexpected token " ++ Text.quoted name ++ " while parsing"
  | nestingTooDeep limit => "nesting exceeds the limit of " ++ toString limit ++ " levels"
  | unreadableNumber lexeme =>
      "number " ++ Text.quoted lexeme ++ " could not be converted to a number"
  | unreadableInteger lexeme =>
      "integer " ++ Text.quoted lexeme ++ " could not be converted to an integer"

def tip? : Cause → Option String
  | unterminatedString => some "Did you forget a closing `\"`?"
  | unterminatedCharacter => none
  | unknownEscapeCode code =>
      some ("Unknown escape code `\\" ++ String.singleton code ++
        "`, expected one of \\a \\b \\t \\n \\v \\f \\r \\e \\\\ \\' \\\"")
  | malformedNumber text =>
      some ("Number `" ++ text ++ "` has consecutive separators or more than one dot")
  | trailingSeparator text => some ("Number `" ++ text ++ "` must not end with a `_` or a `.`")
  | unterminatedScope .paren => some "Did you forget a closing `)`?"
  | unterminatedScope .bracket => some "Did you forget a closing `]`?"
  | unexpectedToken name => some ("Unexpected token: `" ++ name ++ "`, is a delimiter unbalanced?")
  | nestingTooDeep limit =>
      some ("Scopes and lists may be nested at most " ++ toString limit ++ " levels deep")
  | unreadableNumber lexeme => some ("Invalid number: `" ++ lexeme ++ "`, it may be too large")
  | unreadableInteger lexeme =>
      some ("Invalid integer: `" ++ lexeme ++ "`, is it above the integer limit?")

end Cause

structure Diagnostic where
  cause : Cause
  line : Nat
  file : String
  deriving DecidableEq

def Diagnostic.message (diagnostic : Diagnostic) : String :=
  diagnostic.cause.sentence ++ " at line " ++ toString diagnostic.line

end LispReader
