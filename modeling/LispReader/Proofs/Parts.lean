import LispReader.Lexer.Basic
import LispReader.Proofs.Numerals

namespace LispReader

inductive Writes : List Char → Char → Prop
  | raw {c : Char} (hslash : c ≠ '\\') : Writes [c] c
  | escape {code c : Char} (hcode : escaped? code = some c) : Writes ['\\', code] c

inductive WritesText : List Char → List Char → Prop
  | nil : WritesText [] []
  | raw {c : Char} {written text : List Char} (hslash : c ≠ '\\') (hquote : c ≠ '"')
      (hrest : WritesText written text) : WritesText (c :: written) (c :: text)
  | escape {code c : Char} {written text : List Char} (hcode : escaped? code = some c)
      (hrest : WritesText written text) : WritesText ('\\' :: code :: written) (c :: text)

/-- The parts of a source: its tokens, and what stands between them. A literal comes as it is
written and with what it denotes. -/
inductive Part
  | blanks (text : List Char)
  | comment (text : List Char)
  | opening (delimiter : Delimiter)
  | closing (delimiter : Delimiter)
  | number (text : List Char)
  | character (written : List Char) (value : Char)
  | string (written : List Char) (value : List Char)
  | identifier (text : List Char)

namespace Part

def text : Part → List Char
  | blanks text => text
  | comment text => ';' :: text
  | opening delimiter => [delimiter.opener]
  | closing delimiter => [delimiter.closer]
  | number text => text
  | character written _ => '\'' :: written
  | string written _ => '"' :: (written ++ ['"'])
  | identifier text => text

/-- The lexical grammar, one part at a time. -/
def Proper : Part → Prop
  | blanks text => text ≠ [] ∧ ∀ c ∈ text, Pattern.isBlank c
  | comment text => ∀ c ∈ text, c ≠ '\n'
  | opening _ | closing _ => True
  | number text => IsNumeral text
  | character written value => Writes written value
  | string written value => WritesText written value
  | identifier text =>
      text ≠ [] ∧ (∀ c ∈ text, Pattern.isIdentifierChar c) ∧
        text.head? ≠ some '[' ∧ text.head? ≠ some ']' ∧ startsNumber text = false

/-- The characters that cannot stand behind a part, since they would belong to it. -/
def continues : Part → Char → Bool
  | blanks _ => Pattern.isBlank
  | comment _ => (· ≠ '\n')
  | number _ => isNumeralChar
  | identifier _ => Pattern.isIdentifierChar
  | opening _ | closing _ | character _ _ | string _ _ => fun _ => false

def token? (line : Nat) : Part → Option Token
  | blanks _ | comment _ => none
  | opening delimiter => some ⟨.opening delimiter, String.ofList [delimiter.opener], line⟩
  | closing delimiter => some ⟨.closing delimiter, String.ofList [delimiter.closer], line⟩
  | number text =>
      some ⟨if '.' ∈ text then .number else .integer, String.ofList (text.filter (· ≠ '_')), line⟩
  | character _ value => some ⟨.character, String.singleton value, line⟩
  | string _ value => some ⟨.string, String.ofList value, line⟩
  | identifier text => some ⟨.identifier, String.ofList text, line⟩

def tokens (line : Nat) : List Part → List Token
  | [] => [⟨.endOfFile, "EOF", line⟩]
  | part :: parts =>
      (part.token? line).toList ++ tokens (line + part.text.count '\n') parts

end Part

/-- The text is made of the parts, none of which could be longer where it stands. -/
inductive Decomposes : List Char → List Part → Prop
  | nil : Decomposes [] []
  | cons {part : Part} {rest : List Char} {parts : List Part} (hproper : part.Proper)
      (hend : Ends part.continues rest) (hrest : Decomposes rest parts) :
      Decomposes (part.text ++ rest) (part :: parts)

theorem Decomposes.proper {text : List Char} {parts : List Part} (h : Decomposes text parts) :
    ∀ part ∈ parts, part.Proper := by
  induction h with
  | nil => simp
  | cons hproper _ _ ih => exact List.forall_mem_cons.mpr ⟨hproper, ih⟩

theorem Writes.value_unique {written : List Char} {c d : Char} (h : Writes written c)
    (h' : Writes written d) : c = d := by
  cases h with
  | raw _ =>
      cases h'
      rfl
  | escape hcode =>
      cases h' with
      | escape hcode' => exact Option.some.inj (hcode.symm.trans hcode')

theorem WritesText.value_unique {written text text' : List Char} (h : WritesText written text)
    (h' : WritesText written text') : text = text' := by
  induction h generalizing text' with
  | nil =>
      cases h'
      rfl
  | raw hslash _ _ ih =>
      cases h' with
      | raw _ _ hrest' => rw [ih hrest']
      | escape _ _ => contradiction
  | escape hcode _ ih =>
      cases h' with
      | raw hslash _ _ => contradiction
      | escape hcode' hrest' =>
          rw [ih hrest', Option.some.inj (hcode.symm.trans hcode')]

theorem WritesText.append {written more text text' : List Char} (h : WritesText written text)
    (hmore : WritesText more text') : WritesText (written ++ more) (text ++ text') := by
  induction h with
  | nil => exact hmore
  | raw hslash hquote _ ih => exact .raw hslash hquote ih
  | escape hcode _ ih => exact .escape hcode ih

theorem Part.text_ne_nil {part : Part} (h : part.Proper) : part.text ≠ [] := by
  cases part with
  | blanks text => exact h.1
  | number text =>
      rintro rfl
      exact absurd h.starts (by decide)
  | identifier text => exact h.1
  | comment | opening | closing | character | string => simp [text]

end LispReader
