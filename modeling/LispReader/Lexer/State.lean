import LispReader.Diagnostic.Basic

namespace LispReader

def lineAfter (line : Nat) (c : Char) : Nat :=
  if c = '\n' then line + 1 else line

/-- A place in a source and the tokens found before it: what is left of the text, and the line, from
1, on which that begins. -/
structure Lexer where
  file : String
  source : String
  rest : List Char
  line : Nat
  tokens : Array Token

namespace Lexer

def ofSource (source file : String) : Lexer :=
  ⟨file, source, source.toList, 1, #[]⟩

def current? (lexer : Lexer) : Option Char :=
  lexer.rest.head?

def remainder (lexer : Lexer) : String :=
  String.ofList lexer.rest

def bytesLeft (lexer : Lexer) : Nat :=
  lexer.remainder.utf8ByteSize

def offset (lexer : Lexer) : Nat :=
  lexer.source.utf8ByteSize - lexer.bytesLeft

def atEnd (lexer : Lexer) : Bool :=
  lexer.rest.isEmpty

def advance (lexer : Lexer) : Lexer :=
  match lexer.rest with
  | [] => lexer
  | c :: rest => { lexer with rest, line := lineAfter lexer.line c }

def skip : Nat → Lexer → Lexer
  | 0, lexer => lexer
  | n + 1, lexer => skip n lexer.advance

def offsetBound : Nat := 1 <<< 64

/-- Moves `n` bytes of the encoded text forward, or to the end if fewer are left. No result if there
is no such place: none is inside a character, where the last byte would be followed by more of it,
and none is out of the bound. -/
def advanceBytes? (n : Nat) (lexer : Lexer) : Option Lexer :=
  if lexer.offset + n < offsetBound then go lexer.rest n lexer.line else none
where
  go : List Char → Nat → Nat → Option Lexer
    | rest, 0, line => some { lexer with rest, line }
    | [], _ + 1, line => some { lexer with rest := [], line }
    | c :: rest, n + 1, line =>
        if n + 1 < c.utf8Size then none else go rest (n + 1 - c.utf8Size) (lineAfter line c)

def push (token : Token) (lexer : Lexer) : Lexer :=
  { lexer with tokens := lexer.tokens.push token }

def diagnostic (cause : Cause) (lexer : Lexer) : Diagnostic :=
  ⟨cause, lexer.line, lexer.file⟩

end Lexer

end LispReader
