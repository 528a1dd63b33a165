import LispReader.Proofs.Groups
import LispReader.Proofs.Parsing
import LispReader.Proofs.Tokenizing
import LispReader.Tree.Describe

namespace LispReader

def Arena.ofLeaf (value : Leaf) (line : Nat) : Arena :=
  ⟨#[.leaf value line], [0]⟩

theorem Arena.describe_ofLeaf (value : Leaf) (line : Nat) :
    (ofLeaf value line).describe 0 = .ok value.describe := rfl

def literalToken (text : List Char) : Token :=
  ⟨if '.' ∈ text then .number else .integer, String.ofList (text.filter (· ≠ '_')), 1⟩

def endToken (line : Nat) : Token :=
  ⟨.endOfFile, "EOF", line⟩

theorem tokenize_literal {text : List Char} (h : IsLiteral text) (file : String) :
    tokenize (String.ofList text) file = .ok [literalToken text, endToken 1] := by
  have hproper : (Part.number text).Proper := h.isNumeral
  have hnothing : Ends (Part.number text).continues [] := by simp [Ends]
  have hparts : Decomposes (String.ofList text).toList [.number text] := by
    have hone := Decomposes.cons hproper hnothing .nil
    rw [List.append_nil] at hone
    rw [String.toList_ofList]
    exact hone
  have hbreaks : (Part.number text).text.count '\n' = 0 :=
    Lexer.count_newline_of_isNumeral h.isNumeral
  rw [tokenize_of_decomposes file hparts, Part.tokens, hbreaks]
  rfl

theorem parse_of_agrees {token : Token} {read : Except Cause Leaf} (h : Parse.Agrees token read)
    (file : String) (line : Nat) :
    parse [token, endToken line] file =
      (read.map fun value => .ofLeaf value token.line).mapError (⟨·, token.line, file⟩) := by
  have hshown (hkind : token.kind ≠ .endOfFile) :
      beforeEnd [token, endToken line] = [token] := by
    rw [beforeEnd_cons _ hkind, beforeEnd_end [] rfl]
  cases h with
  | @value value hvalue =>
      have hkind : token.kind ≠ .endOfFile := by
        intro hkind
        simp [Token.leaf?, hkind] at hvalue
      have hspells :
          Spells maxDepth (beforeEnd [token, endToken line]) [.leaf value token.line] := by
        rw [hshown hkind]
        exact .leaf hvalue .nil
      exact parse_of_spells file hspells
  | @fault cause hfault =>
      have hkind : token.kind ≠ .endOfFile := by
        intro hkind
        simpa [Scan.step, hkind] using hfault []
      apply parse_of_fault
      rw [hshown hkind]
      exact Scan.fault?_of_error [] (hfault [])

end LispReader
