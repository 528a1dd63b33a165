import LispReader.Lexer.Basic

namespace LispReader

def Token.below (lines : Nat) (token : Token) : Token :=
  { token with line := token.line + lines }

def Diagnostic.below (lines : Nat) (diagnostic : Diagnostic) : Diagnostic :=
  { diagnostic with line := diagnostic.line + lines }

namespace Lexer

/-- The same rest in a greater source, with so many lines and these tokens before it. -/
def below (source : String) (earlier : Array Token) (lines : Nat) (lexer : Lexer) : Lexer :=
  { lexer with
    source
    line := lexer.line + lines
    tokens := earlier ++ lexer.tokens.map (Token.below lines) }

def outcomeBelow (source : String) (earlier : Array Token) (lines : Nat)
    (outcome : Except Diagnostic Lexer) : Except Diagnostic Lexer :=
  (outcome.map (below source earlier lines)).mapError (Diagnostic.below lines)

variable (source : String) (earlier : Array Token) (lines : Nat) (lexer : Lexer)

theorem lineAfter_add (line : Nat) (c : Char) :
    lineAfter (line + lines) c = lineAfter line c + lines := by
  by_cases hc : c = '\n'
  · rw [lineAfter, lineAfter, if_pos hc, if_pos hc, Nat.add_right_comm]
  · rw [lineAfter, lineAfter, if_neg hc, if_neg hc]

theorem advance_below :
    (lexer.below source earlier lines).advance = lexer.advance.below source earlier lines := by
  cases hrest : lexer.rest <;> simp [advance, below, hrest, lineAfter_add]

theorem skip_below (n : Nat) :
    (lexer.below source earlier lines).skip n = (lexer.skip n).below source earlier lines := by
  induction n generalizing lexer with
  | zero => rfl
  | succ n ih => rw [skip, skip, advance_below, ih]

theorem push_below (kind : TokenKind) (lexeme : String) (line : Nat) :
    (lexer.below source earlier lines).push ⟨kind, lexeme, line + lines⟩ =
      (lexer.push ⟨kind, lexeme, line⟩).below source earlier lines := by
  simp [push, below, Token.below]

theorem readNumber_below :
    (lexer.below source earlier lines).readNumber =
      outcomeBelow source earlier lines lexer.readNumber := by
  have hrest : (lexer.below source earlier lines).rest = lexer.rest := rfl
  rw [readNumber, readNumber, hrest]
  cases Numeral.signed lexer.rest with
  | error cause => rfl
  | ok result =>
      obtain ⟨numeral, rest⟩ := result
      by_cases hseparated : numeral.separated = true
      · simp only [if_pos hseparated]
        rfl
      · simp only [if_neg hseparated]
        exact congrArg Except.ok (push_below source earlier lines { lexer with rest } _ _ _)

theorem readCharacter_below :
    (lexer.below source earlier lines).readCharacter =
      outcomeBelow source earlier lines lexer.readCharacter := by
  have hrest : (lexer.advance.below source earlier lines).rest = lexer.advance.rest := rfl
  rw [readCharacter, readCharacter, advance_below, hrest]
  split
  · rfl
  · rfl
  · next code rest _ =>
      rw [skip_below]
      cases escaped? code with
      | none => rfl
      | some c => exact congrArg Except.ok (push_below source earlier lines _ _ _ _)
  · next c rest _ =>
      rw [advance_below]
      exact congrArg Except.ok (push_below source earlier lines _ _ _ _)

theorem readText_below (opened : Lexer) (text input : List Char) (line : Nat) :
    readText (opened.below source earlier lines) text input (line + lines) =
      outcomeBelow source earlier lines (readText opened text input line) := by
  fun_induction readText opened text input line with
  | case1 | case3 => rfl
  | case2 text rest line =>
      exact congrArg Except.ok (push_below source earlier lines { opened with rest, line } _ _ _)
  | case4 text code rest line hcode =>
      rw [readText, hcode, lineAfter_add]
      rfl
  | case5 text code rest line c hcode ih =>
      rw [readText, hcode, lineAfter_add]
      exact ih
  | case6 text c rest line hquote hend hslash ih =>
      rw [readText, lineAfter_add]
      · exact ih
      · exact hquote
      · exact hend
      · exact hslash

theorem read_below (pattern : Pattern) (found : List Char) :
    pattern.read found (lexer.below source earlier lines) =
      outcomeBelow source earlier lines (pattern.read found lexer) := by
  have htoken (kind : TokenKind) :
      Pattern.read.token found (lexer.below source earlier lines) kind =
        (Pattern.read.token found lexer kind).below source earlier lines := by
    rw [Pattern.read.token, Pattern.read.token, ← skip_below, ← push_below]
    rfl
  cases pattern with
  | blanks | comment => exact congrArg Except.ok (skip_below source earlier lines lexer _)
  | opening | closing | identifier => exact congrArg Except.ok (htoken _)
  | number => exact readNumber_below source earlier lines lexer
  | character => exact readCharacter_below source earlier lines lexer
  | string =>
      rw [Pattern.read, readString, advance_below]
      exact readText_below source earlier lines lexer [] _ _

theorem step_below :
    (lexer.below source earlier lines).step = outcomeBelow source earlier lines lexer.step := by
  have hnext : (lexer.below source earlier lines).next? = lexer.next? := rfl
  rw [step, step, hnext]
  cases lexer.next? with
  | none => exact read_below source earlier lines lexer _ _
  | some result => exact read_below source earlier lines lexer _ _

theorem steps_below (count : Nat) :
    (lexer.below source earlier lines).steps count =
      outcomeBelow source earlier lines (lexer.steps count) := by
  induction count generalizing lexer with
  | zero => rfl
  | succ count ih =>
      have hend : (lexer.below source earlier lines).atEnd = lexer.atEnd := rfl
      rw [steps, steps, hend, step_below]
      by_cases hatEnd : lexer.atEnd = true
      · simp only [if_pos hatEnd]
        rfl
      · simp only [if_neg hatEnd]
        cases lexer.step with
        | error diagnostic => rfl
        | ok further => exact ih further

theorem toEnd_below :
    (lexer.below source earlier lines).toEnd = outcomeBelow source earlier lines lexer.toEnd :=
  steps_below source earlier lines lexer _

theorem closed_below :
    (lexer.below source earlier lines).closed =
      earlier.toList ++ lexer.closed.map (Token.below lines) := by
  simp [closed, push, below, Token.below]

end Lexer

end LispReader
