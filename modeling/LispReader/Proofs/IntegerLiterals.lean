import LispReader.Proofs.Integers
import LispReader.Proofs.SoleLiterals

namespace LispReader

/-- An integer as it is written in a source, with an optional minus and its digits in groups. -/
structure IntegerLiteral where
  negative : Bool
  whole : List Char
  whole_grouped : IsGrouped whole

namespace IntegerLiteral

def sign (literal : IntegerLiteral) : List Char :=
  if literal.negative then ['-'] else []

def text (literal : IntegerLiteral) : List Char :=
  literal.sign ++ literal.whole

def value (literal : IntegerLiteral) : ℤ :=
  if literal.negative then -denoted literal.whole else denoted literal.whole

variable (literal : IntegerLiteral)

theorem sign_cases : literal.sign = [] ∨ literal.sign = ['-'] := by
  unfold sign
  split <;> simp

theorem isLiteral : IsLiteral literal.text :=
  .whole literal.sign_cases literal.whole_grouped

theorem denotes_value : DenotesInteger (literal.text.filter (· ≠ '_')) literal.value := by
  have hdigits := literal.whole_grouped.filter
  have hwhole := denoted_filter literal.whole
  rw [text, List.filter_append, value, ← hwhole]
  cases hsign : literal.negative with
  | false => simpa [sign, hsign] using DenotesInteger.unsigned hdigits
  | true => simpa [sign, hsign] using DenotesInteger.minus hdigits

theorem token_kind : (literalToken literal.text).kind = .integer := by
  have hdot : '.' ∉ literal.text := by
    intro hmem
    rcases List.mem_append.mp hmem with hmem | hmem
    · rcases literal.sign_cases with hsign | hsign <;> simp [hsign] at hmem
    · exact literal.whole_grouped.not_dot_mem hmem
  exact if_neg hdot

theorem parse_eq (file : String) :
    parse [literalToken literal.text, endToken 1] file =
      ((Leaf.ofInteger (String.ofList (literal.text.filter (· ≠ '_')))).map
        (Arena.ofLeaf · 1)).mapError (⟨·, 1, file⟩) :=
  parse_of_agrees (Parse.ofInteger_agrees literal.token_kind) file 1

theorem parse_of_fits (hfits : FitsInt64 literal.value) (file : String) :
    ∃ value : Int64, value.toInt = literal.value ∧
      parse [literalToken literal.text, endToken 1] file = .ok (.ofLeaf (.integer value) 1) := by
  obtain ⟨value, hvalue, hinteger⟩ := Number.integer?_of_fits literal.denotes_value hfits
  refine ⟨value, hvalue, ?_⟩
  rw [literal.parse_eq, Leaf.ofInteger, String.toList_ofList, hinteger]
  rfl

theorem parse_of_misfit (hmisfit : ¬ FitsInt64 literal.value) (file : String) :
    parse [literalToken literal.text, endToken 1] file =
      .error ⟨.unreadableInteger (String.ofList (literal.text.filter (· ≠ '_'))), 1, file⟩ := by
  have hnone : Number.integer? (literal.text.filter (· ≠ '_')) = none := by
    apply Number.integer?_of_misfit
    intro value hvalue
    rwa [Number.denotesInteger_unique hvalue literal.denotes_value]
  rw [literal.parse_eq, Leaf.ofInteger, String.toList_ofList, hnone]
  rfl

def ofInt (value : ℤ) : IntegerLiteral where
  negative := value < 0
  whole := Nat.toDigits 10 value.natAbs
  whole_grouped := .digits ⟨Nat.toDigits_ne_nil, fun _ hc => Number.isDigit_of_mem_toDigits hc⟩

theorem ofInt_text (value : ℤ) : String.ofList (ofInt value).text = toString value := by
  have hsign : (ofInt value).sign = if 0 ≤ value then [] else ['-'] := by
    simp only [sign, ofInt, decide_eq_true_eq, ← Int.not_le, ite_not]
  rw [text, hsign, ofInt, ← Number.toList_toString, String.ofList_toList]

theorem ofInt_value (value : ℤ) : (ofInt value).value = value := by
  have hdenoted := denoted_toDigits value.natAbs
  simp only [IntegerLiteral.value, ofInt, hdenoted, decide_eq_true_eq]
  split <;> omega

end IntegerLiteral

namespace Parse

variable {parser : Parser} {token : Token} {rest : List Token}

theorem ofRule_integer (hrest : parser.rest = token :: rest) (hkind : token.kind = .integer) :
    ofRule .integer parser =
      match Leaf.ofInteger token.lexeme with
      | .ok value => addNode (.leaf value token.line) parser.advance
      | .error cause => fail token.line cause parser.advance := by
  have hexpect : expect .integer parser = .ok token parser.advance := by
    simp [expect, hrest, hkind]
  have hrun : ofRule .integer parser =
      (match Leaf.ofInteger token.lexeme with
      | .ok value => addNode (.leaf value token.line)
      | .error cause => fail token.line cause) parser.advance := bind_of_ok hexpect
  rw [hrun]
  cases Leaf.ofInteger token.lexeme <;> rfl

theorem ofRule_integer_cases (hrest : parser.rest = token :: rest)
    (hkind : token.kind = .integer) :
    (∀ value, DenotesInteger token.lexeme.toList value → FitsInt64 value →
      ∃ small : Int64, small.toInt = value ∧
        ofRule .integer parser = .ok parser.tree.size
          { parser.advance with
            tree := (parser.tree.push (.leaf (.integer small) token.line)).2 }) ∧
    ((∀ value, DenotesInteger token.lexeme.toList value → ¬ FitsInt64 value) →
      ofRule .integer parser =
        .error ⟨.unreadableInteger token.lexeme, token.line, parser.file⟩ parser.advance) := by
  have hadvance : parser.advance = { parser with done := token :: parser.done, rest } := by
    rw [Parser.advance, hrest]
  rw [ofRule_integer hrest hkind, Leaf.ofInteger]
  constructor
  · intro value hvalue hfits
    obtain ⟨small, hsmall, hinteger⟩ := Number.integer?_of_fits hvalue hfits
    refine ⟨small, hsmall, ?_⟩
    rw [hinteger, hadvance]
    rfl
  · intro hmisfit
    rw [Number.integer?_of_misfit hmisfit, hadvance]
    rfl

end Parse

/-- An integer literal stands for its value as far as this fits into 64 bits, and else its digits
are reported. Every integer that is shown can be read again. A token made by hand is read by the
same rule, but may have a plus. -/
theorem integers_keep_value (file : String) :
    (∀ literal : IntegerLiteral, ∃ tokens,
      tokenize (String.ofList literal.text) file = .ok tokens ∧
      (FitsInt64 literal.value → ∃ value : Int64, value.toInt = literal.value ∧
        parse tokens file = .ok (.ofLeaf (.integer value) 1) ∧
        (Arena.ofLeaf (.integer value) 1).describe 0 =
          .ok ("Integer: " ++ toString literal.value)) ∧
      (¬ FitsInt64 literal.value → parse tokens file =
        .error ⟨.unreadableInteger (String.ofList (literal.text.filter (· ≠ '_'))), 1, file⟩)) ∧
    (∀ value : Int64, ∃ shown tokens,
      (Arena.ofLeaf (.integer value) 1).describe 0 = .ok ("Integer: " ++ shown) ∧
      tokenize shown file = .ok tokens ∧ parse tokens file = .ok (.ofLeaf (.integer value) 1)) ∧
    ∀ (parser : Parser) (token : Token) (rest : List Token), parser.rest = token :: rest →
      token.kind = .integer →
      ((∃ id after, Parse.ofRule .integer parser = .ok id after) ↔
        ∃ value, DenotesInteger token.lexeme.toList value ∧ FitsInt64 value) ∧
      ∀ value, DenotesInteger token.lexeme.toList value → FitsInt64 value →
        ∃ small : Int64, small.toInt = value ∧
          Parse.ofRule .integer parser = .ok parser.tree.size
            { parser.advance with
              tree := (parser.tree.push (.leaf (.integer small) token.line)).2 } := by
  refine ⟨fun literal => ?_, fun value => ?_, fun parser token rest hrest hkind => ?_⟩
  · refine ⟨_, tokenize_literal literal.isLiteral file, fun hfits => ?_,
      fun hmisfit => literal.parse_of_misfit hmisfit file⟩
    obtain ⟨value, hvalue, hparse⟩ := literal.parse_of_fits hfits file
    exact ⟨value, hvalue, hparse, by rw [Arena.describe_ofLeaf, Leaf.describe, hvalue]⟩
  · let literal := IntegerLiteral.ofInt value.toInt
    have hvalue : literal.value = value.toInt := IntegerLiteral.ofInt_value value.toInt
    have hfits : FitsInt64 literal.value := by
      rw [hvalue, ← Number.toInt_limits]
      exact ⟨value.minValue_le_toInt, value.toInt_le⟩
    obtain ⟨read, hread, hparse⟩ := literal.parse_of_fits hfits file
    obtain rfl : read = value := Int64.toInt_inj.mp (hread.trans hvalue)
    refine ⟨toString read.toInt, _, rfl, ?_, hparse⟩
    rw [← IntegerLiteral.ofInt_text]
    exact tokenize_literal literal.isLiteral file
  · obtain ⟨hfits, hmisfit⟩ := Parse.ofRule_integer_cases hrest hkind
    refine ⟨⟨?_, ?_⟩, hfits⟩
    · rintro ⟨id, after, hread⟩
      by_contra hnone
      rw [hmisfit fun value hvalue hfits => hnone ⟨value, hvalue, hfits⟩] at hread
      contradiction
    · rintro ⟨value, hvalue, hfit⟩
      obtain ⟨small, -, hread⟩ := hfits value hvalue hfit
      exact ⟨_, _, hread⟩

end LispReader
