import LispReader.Proofs.Grammar
import LispReader.Proofs.Groups
import LispReader.Proofs.Integers
import LispReader.Proofs.Parts

namespace LispReader

theorem IsDecimal.point_mem {text : List Char} (h : IsDecimal text) : '.' ∈ text := by
  obtain ⟨_, _, _, _⟩ := h
  simp

theorem IsDecimal.line_notMem {text : List Char} (h : IsDecimal text) : '_' ∉ text := by
  obtain @⟨sign, whole, fraction, hsign, -, -, hdigits⟩ := h
  have hdigit : '_' ∉ whole ++ fraction := fun hmem => absurd (hdigits '_' hmem) (by decide)
  rcases hsign with rfl | rfl <;> simpa using hdigit

namespace Number

theorem not_isSeparator_of_mem_toString {value : Int} {c : Char}
    (hc : c ∈ (toString value).toList) : ¬ isSeparator c := by
  rw [toList_toString] at hc
  rcases List.mem_append.mp hc with hc | hc
  · split at hc
    · contradiction
    · rw [List.mem_singleton.mp hc]
      decide
  · exact not_isSeparator_of_isDigit (isDigit_of_mem_toDigits hc)

end Number

inductive Atom
  | identifier (name : List Char) (hname : (Part.identifier name).Proper)
  | string (value : String)
  | character (value : Char)
  | integer (value : Int64)
  | number (text : List Char) (value : Number.Binary64) (htext : IsDecimal text)
      (hvalue : Number.finite? text = some value)

/-- In a string the quote and the backslash are escaped, line breaks are not. -/
def escapeInText (c : Char) : List Char :=
  if c = '\\' then ['\\', '\\'] else if c = '"' then ['\\', '"'] else [c]

def escapeAlone (c : Char) : List Char :=
  if c = '\\' then ['\\', '\\'] else [c]

namespace Atom

def text : Atom → List Char
  | identifier name _ => name
  | string value => '"' :: (value.toList.flatMap escapeInText ++ ['"'])
  | character value => '\'' :: escapeAlone value
  | integer value => (toString value.toInt).toList
  | number text _ _ _ => text

def value : Atom → Leaf
  | identifier name _ => .identifier (String.ofList name)
  | string value => .string value
  | character value => .character value
  | integer value => .integer value
  | number _ value _ _ => .number value

def part : Atom → Part
  | identifier name _ => .identifier name
  | string value => .string (value.toList.flatMap escapeInText) value.toList
  | character value => .character (escapeAlone value) value
  | integer value => .number (toString value.toInt).toList
  | number text _ _ _ => .number text

theorem part_text (atom : Atom) : atom.part.text = atom.text := by
  cases atom <;> rfl

theorem writes_escapeAlone (c : Char) : Writes (escapeAlone c) c := by
  by_cases hslash : c = '\\'
  · subst c
    exact .escape rfl
  · rw [escapeAlone, if_neg hslash]
    exact .raw hslash

theorem writesText_escapeInText (text : List Char) :
    WritesText (text.flatMap escapeInText) text := by
  induction text with
  | nil => exact .nil
  | cons c text ih =>
      rw [List.flatMap_cons]
      by_cases hslash : c = '\\'
      · subst c
        exact .escape rfl ih
      · by_cases hquote : c = '"'
        · subst c
          exact .escape rfl ih
        · rw [escapeInText, if_neg hslash, if_neg hquote]
          exact .raw hslash hquote ih

theorem part_proper (atom : Atom) : atom.part.Proper := by
  cases atom with
  | identifier name hname => exact hname
  | string value => exact writesText_escapeInText value.toList
  | character value => exact writes_escapeAlone value
  | integer value =>
      have hdigits : IsDigits (Nat.toDigits 10 value.toInt.natAbs) :=
        ⟨Nat.toDigits_ne_nil, fun _ hc => Number.isDigit_of_mem_toDigits hc⟩
      rw [part, Part.Proper, Number.toList_toString]
      exact (IsLiteral.whole (by split <;> simp) (.digits hdigits)).isNumeral
  | number text value htext hvalue => exact htext.isLiteral.isNumeral

theorem number_token? {text : List Char} (hline : '_' ∉ text) (line : Nat) :
    (Part.number text).token? line =
      some ⟨if '.' ∈ text then .number else .integer, String.ofList text, line⟩ := by
  have htext : text.filter (· ≠ '_') = text := by
    rw [List.filter_eq_self]
    intro c hc
    simp only [decide_eq_true_eq]
    rintro rfl
    exact hline hc
  rw [Part.token?, htext]

theorem part_token? (atom : Atom) (line : Nat) :
    ∃ token, atom.part.token? line = some token ∧ token.leaf? = some atom.value ∧
      token.line = line := by
  cases atom with
  | identifier => exact ⟨_, rfl, rfl, rfl⟩
  | string value => exact ⟨_, rfl, by simp [Token.leaf?, Atom.value], rfl⟩
  | character value => exact ⟨_, rfl, by simp [Token.leaf?, Atom.value], rfl⟩
  | integer value =>
      have hsep (c : Char) (hc : c ∈ (toString value.toInt).toList) : ¬ isSeparator c :=
        Number.not_isSeparator_of_mem_toString hc
      have hdot : '.' ∉ (toString value.toInt).toList := fun h => hsep '.' h rfl
      refine ⟨_, number_token? (fun h => hsep '_' h rfl) line, ?_, rfl⟩
      simp only [if_neg hdot, Token.leaf?, String.toList_ofList, Number.integer?_toString]
      rfl
  | number text value htext hvalue =>
      refine ⟨_, number_token? htext.line_notMem line, ?_, rfl⟩
      simp [Token.leaf?, htext.point_mem, hvalue, Atom.value]

end Atom

end LispReader
