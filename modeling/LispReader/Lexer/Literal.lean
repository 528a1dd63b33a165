import LispReader.Lexer.Escape
import LispReader.Lexer.State

namespace LispReader.Lexer

/-- Reads a character literal, which starts at the quote. An unknown escape is reported where its
code ends, all else at the quote. -/
def readCharacter (lexer : Lexer) : Except Diagnostic Lexer :=
  let body := lexer.advance
  match body.rest with
  | [] => .error (lexer.diagnostic .unterminatedCharacter)
  | '\\' :: [] => .error (lexer.diagnostic .unterminatedCharacter)
  | '\\' :: code :: _ =>
      match escaped? code with
      | none => .error ((body.skip 2).diagnostic (.unknownEscapeCode code))
      | some c => .ok ((body.skip 2).push ⟨.character, String.singleton c, lexer.line⟩)
  | c :: _ => .ok (body.advance.push ⟨.character, String.singleton c, lexer.line⟩)

def readText (opened : Lexer) (text : List Char) : List Char → Nat → Except Diagnostic Lexer
  | [], _ => .error (opened.diagnostic .unterminatedString)
  | '"' :: rest, line =>
      .ok ({ opened with rest, line }.push
        ⟨.string, String.ofList text.reverse, opened.line⟩)
  | '\\' :: [], _ => .error (opened.diagnostic .unterminatedString)
  | '\\' :: code :: rest, line =>
      match escaped? code with
      | none => .error ⟨.unknownEscapeCode code, lineAfter line code, opened.file⟩
      | some c => readText opened (c :: text) rest (lineAfter line code)
  | c :: rest, line => readText opened (c :: text) rest (lineAfter line c)

def readString (lexer : Lexer) : Except Diagnostic Lexer :=
  readText lexer [] lexer.advance.rest lexer.advance.line

end LispReader.Lexer
