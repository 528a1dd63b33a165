import LispReader.Lexer.State

namespace LispReader

/-- A number literal as far as it has been read: the text as written and the text that is kept, both
with the newest character first, and whether there was a dot and whether the last character
separates two digits. -/
structure Numeral where
  raw : List Char
  kept : List Char
  dot : Bool
  separated : Bool

namespace Numeral

def empty : Numeral := ⟨[], [], false, false⟩

def rawText (numeral : Numeral) : String :=
  String.ofList numeral.raw.reverse

/-- An underscore or a dot stands alone between two digits, and there is one dot at most. Other
characters end the literal, which gives `none`. -/
def extend (numeral : Numeral) (c : Char) : Option (Except Cause Numeral) :=
  if c.isDigit then
    some (.ok ⟨c :: numeral.raw, c :: numeral.kept, numeral.dot, false⟩)
  else if c = '_' ∨ c = '.' then
    if numeral.separated || (c = '.' && numeral.dot) then
      some (.error (.malformedNumber { numeral with raw := c :: numeral.raw }.rawText))
    else if c = '.' then
      some (.ok ⟨c :: numeral.raw, c :: numeral.kept, true, true⟩)
    else
      some (.ok ⟨c :: numeral.raw, numeral.kept, numeral.dot, true⟩)
  else
    none

def read (numeral : Numeral) : List Char → Except Cause (Numeral × List Char)
  | [] => .ok (numeral, [])
  | c :: rest =>
      match numeral.extend c with
      | none => .ok (numeral, c :: rest)
      | some (.ok longer) => longer.read rest
      | some (.error cause) => .error cause

def signed : List Char → Except Cause (Numeral × List Char)
  | '-' :: rest => read ⟨['-'], ['-'], false, false⟩ rest
  | text => read empty text

def kind (numeral : Numeral) : TokenKind :=
  if numeral.dot then .number else .integer

end Numeral

namespace Lexer

def readNumber (lexer : Lexer) : Except Diagnostic Lexer :=
  match Numeral.signed lexer.rest with
  | .error cause => .error (lexer.diagnostic cause)
  | .ok (numeral, rest) =>
      if numeral.separated then
        .error (lexer.diagnostic (.trailingSeparator numeral.rawText))
      else
        .ok ({ lexer with rest }.push
          ⟨numeral.kind, String.ofList numeral.kept.reverse, lexer.line⟩)

end Lexer

end LispReader
