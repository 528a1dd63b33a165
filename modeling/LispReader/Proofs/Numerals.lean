import LispReader.Lexer.Numeral
import Mathlib.Data.List.Chain
import Mathlib.Data.List.TakeWhile

namespace LispReader

def isSeparator (c : Char) : Bool := c = '_' || c = '.'

def isNumeralChar (c : Char) : Bool := c.isDigit || isSeparator c

/-- A run of the characters in `p` is not longer than it is read, with `rest` behind it. -/
def Ends (p : Char → Bool) (rest : List Char) : Prop :=
  ∀ c ∈ rest.head?, p c = false

theorem ends_cons {p : Char → Bool} {c : Char} (rest : List Char) (hc : p c = false) :
    Ends p (c :: rest) := by
  intro d hd
  obtain rfl : c = d := Option.some.inj hd
  exact hc

/-- No separator stands beside another one, and there is one dot at most. -/
structure IsRegular (text : List Char) : Prop where
  apart : text.IsChain fun a b => ¬ (isSeparator a ∧ isSeparator b)
  dots : text.count '.' ≤ 1

def startsNumber : List Char → Bool
  | '-' :: c :: _ => c.isDigit
  | c :: _ => c.isDigit
  | [] => false

theorem startsNumber_of_ne {c : Char} (rest : List Char) (hc : c ≠ '-') :
    startsNumber (c :: rest) = c.isDigit := by
  rw [startsNumber]
  intro d tail h
  contradiction

theorem startsNumber_head {text : List Char} (h : startsNumber text) :
    ∃ c rest, text = c :: rest ∧ (c = '-' ∨ c.isDigit) := by
  cases text with
  | nil => simp [startsNumber] at h
  | cons c rest =>
      by_cases hc : c = '-'
      · exact ⟨c, rest, rfl, .inl hc⟩
      · rw [startsNumber_of_ne rest hc] at h
        exact ⟨c, rest, rfl, .inr h⟩

theorem startsNumber_append {text : List Char} (h : startsNumber text) (rest : List Char) :
    startsNumber (text ++ rest) := by
  cases text with
  | nil => simp [startsNumber] at h
  | cons c text =>
      by_cases hc : c = '-'
      · subst c
        cases text with
        | nil => exact absurd h (by decide)
        | cons d text => exact h
      · rw [startsNumber_of_ne text hc] at h
        rw [List.cons_append, startsNumber_of_ne _ hc]
        exact h

structure IsNumeral (text : List Char) : Prop where
  starts : startsNumber text
  chars : ∀ c ∈ text.tail, isNumeralChar c
  regular : IsRegular text
  last : ∀ c ∈ text.getLast?, ¬ isSeparator c

/-- The first characters of a number literal, to which others may have to come. -/
structure BeginsNumeral (text : List Char) : Prop where
  starts : startsNumber text
  chars : ∀ c ∈ text.tail, isNumeralChar c
  regular : IsRegular text

theorem IsNumeral.begins {text : List Char} (h : IsNumeral text) : BeginsNumeral text :=
  ⟨h.starts, h.chars, h.regular⟩

theorem not_isSeparator_of_isDigit {c : Char} (h : c.isDigit) : ¬ isSeparator c := by
  intro hsep
  simp only [isSeparator, Bool.or_eq_true, decide_eq_true_eq] at hsep
  rcases hsep with rfl | rfl <;> exact absurd h (by decide)

namespace IsRegular

theorem of_append {text more : List Char} (h : IsRegular (text ++ more)) : IsRegular text := by
  refine ⟨(List.isChain_append.mp h.apart).1, ?_⟩
  have hdots := h.dots
  rw [List.count_append] at hdots
  omega

theorem append_digit {text : List Char} {c : Char} (h : IsRegular text) (hc : c.isDigit) :
    IsRegular (text ++ [c]) := by
  have hsep := not_isSeparator_of_isDigit hc
  have hdot : c ≠ '.' := by
    rintro rfl
    exact hsep (by decide)
  constructor
  · rw [List.isChain_append]
    refine ⟨h.apart, List.isChain_singleton c, ?_⟩
    intro a _ b hb
    obtain rfl : c = b := by simpa using hb
    simp [hsep]
  · rw [List.count_append, List.count_singleton]
    simpa [hdot] using h.dots

theorem append_separator_iff {text : List Char} {c : Char} (h : IsRegular text)
    (hc : isSeparator c) :
    IsRegular (text ++ [c]) ↔
      text.getLast?.any isSeparator = false ∧ (c = '.' → '.' ∉ text) := by
  have happart : (text ++ [c]).IsChain (fun a b => ¬ (isSeparator a ∧ isSeparator b)) ↔
      text.getLast?.any isSeparator = false := by
    rw [List.isChain_append]
    cases hlast : text.getLast? with
    | none => simpa [hlast] using h.apart
    | some a => simpa [hlast, hc] using fun _ => h.apart
  have hdots : (text ++ [c]).count '.' ≤ 1 ↔ (c = '.' → '.' ∉ text) := by
    have hold := h.dots
    rw [List.count_append, List.count_singleton]
    by_cases hdot : c = '.'
    · simp [hdot, List.count_eq_zero]
    · simp [hdot, hold]
  constructor
  · intro hall
    exact ⟨happart.mp hall.apart, hdots.mp hall.dots⟩
  · intro hall
    exact ⟨happart.mpr hall.1, hdots.mpr hall.2⟩

end IsRegular

namespace Numeral

def ofText (text : List Char) : Numeral :=
  ⟨text.reverse, (text.filter (· ≠ '_')).reverse, text.contains '.',
    text.getLast?.any isSeparator⟩

theorem extend_digit (text : List Char) {c : Char} (hc : c.isDigit) :
    (ofText text).extend c = some (.ok (ofText (text ++ [c]))) := by
  have hsep := not_isSeparator_of_isDigit hc
  have hne : c ≠ '_' ∧ c ≠ '.' := by simpa [isSeparator] using hsep
  simp [extend, ofText, hc, hsep, hne.1, Ne.symm hne.2, List.filter_append]

theorem extend_separator {text : List Char} {c : Char} (hc : isSeparator c)
    (h : IsRegular (text ++ [c])) :
    (ofText text).extend c = some (.ok (ofText (text ++ [c]))) := by
  have hdigit : ¬ c.isDigit := fun hdigit => not_isSeparator_of_isDigit hdigit hc
  have hmark : c = '_' ∨ c = '.' := by simpa [isSeparator] using hc
  obtain ⟨hlast, hdots⟩ := (IsRegular.append_separator_iff h.of_append hc).mp h
  rcases hmark with rfl | rfl
  · simp [extend, ofText, hlast, hc, List.filter_append]
  · simp [extend, ofText, hlast, hc, hdots rfl, List.filter_append]

theorem extend_irregular {text : List Char} {c : Char} (htext : IsRegular text)
    (hc : isSeparator c) (h : ¬ IsRegular (text ++ [c])) :
    (ofText text).extend c =
      some (.error (.malformedNumber (String.ofList (text ++ [c])))) := by
  have hdigit : ¬ c.isDigit := fun hdigit => not_isSeparator_of_isDigit hdigit hc
  have hmark : c = '_' ∨ c = '.' := by simpa [isSeparator] using hc
  have hbad : ((ofText text).separated || (c = '.' && (ofText text).dot)) = true := by
    rw [IsRegular.append_separator_iff htext hc] at h
    by_contra hgood
    apply h
    simpa [ofText] using hgood
  rw [extend, if_neg hdigit, if_pos hmark, if_pos hbad]
  simp [rawText, ofText]

theorem extend_other (numeral : Numeral) {c : Char} (hc : isNumeralChar c = false) :
    numeral.extend c = none := by
  have hno : ¬ c.isDigit ∧ ¬ (c = '_' ∨ c = '.') := by
    simpa [isNumeralChar, isSeparator] using hc
  rw [extend, if_neg hno.1, if_neg hno.2]

theorem extend_of_regular {text : List Char} {c : Char} (hc : isNumeralChar c)
    (h : IsRegular (text ++ [c])) :
    (ofText text).extend c = some (.ok (ofText (text ++ [c]))) := by
  by_cases hdigit : c.isDigit
  · exact extend_digit text hdigit
  · exact extend_separator (by simpa [isNumeralChar, hdigit] using hc) h

theorem read_append {run : List Char} (text rest : List Char)
    (hrun : ∀ c ∈ run, isNumeralChar c) (h : IsRegular (text ++ run)) :
    (ofText text).read (run ++ rest) = (ofText (text ++ run)).read rest := by
  induction run generalizing text with
  | nil => rw [List.append_nil, List.nil_append]
  | cons c run ih =>
      rw [List.append_cons] at h
      rw [List.cons_append, read, extend_of_regular (hrun c List.mem_cons_self) h.of_append]
      change (ofText (text ++ [c])).read (run ++ rest) = _
      rw [ih (text ++ [c]) (fun d hd => hrun d (List.mem_cons_of_mem c hd)) h, ← List.append_cons]

theorem read_of_ends (numeral : Numeral) {rest : List Char} (hend : Ends isNumeralChar rest) :
    numeral.read rest = .ok (numeral, rest) := by
  cases rest with
  | nil => rfl
  | cons c rest => rw [read, extend_other _ (hend c rfl)]

theorem read_irregular {text : List Char} {c : Char} (htext : IsRegular text)
    (hc : isSeparator c) (h : ¬ IsRegular (text ++ [c])) (rest : List Char) :
    (ofText text).read (c :: rest) =
      .error (.malformedNumber (String.ofList (text ++ [c]))) := by
  rw [read, extend_irregular htext hc h]

theorem isRegular_nil : IsRegular [] := ⟨.nil, by decide⟩

theorem isRegular_minus : IsRegular ['-'] := ⟨.singleton _, by decide⟩

theorem signed_of_ne {c : Char} (rest : List Char) (hc : c ≠ '-') :
    signed (c :: rest) = (ofText []).read (c :: rest) := by
  rw [signed]
  · rfl
  · intro tail h
    exact hc (List.cons.inj h).1

theorem signed_append {text : List Char} (h : BeginsNumeral text) (rest : List Char) :
    signed (text ++ rest) = (ofText text).read rest := by
  have hstarts := h.starts
  cases text with
  | nil => simp [startsNumber] at hstarts
  | cons c text =>
      by_cases hc : c = '-'
      · subst c
        exact read_append ['-'] rest h.chars h.regular
      · rw [startsNumber_of_ne text hc] at hstarts
        have hchars : ∀ d ∈ c :: text, isNumeralChar d := by
          intro d hd
          rcases List.mem_cons.mp hd with rfl | hd
          · simp [isNumeralChar, hstarts]
          · exact h.chars d hd
        rw [List.cons_append, signed_of_ne _ hc]
        exact read_append [] rest hchars h.regular

end Numeral

theorem exists_regular_run {text : List Char} (htext : IsRegular text) (input : List Char) :
    ∃ run rest, input = run ++ rest ∧ (∀ c ∈ run, isNumeralChar c) ∧ IsRegular (text ++ run) ∧
      (Ends isNumeralChar rest ∨ ∃ c more, rest = c :: more ∧ isSeparator c ∧
        ¬ IsRegular (text ++ run ++ [c])) := by
  induction input generalizing text with
  | nil => exact ⟨[], [], rfl, by simp, by simpa using htext, .inl (by simp [Ends])⟩
  | cons c input ih =>
      by_cases hc : isNumeralChar c = true
      · by_cases hmore : IsRegular (text ++ [c])
        · obtain ⟨run, rest, rfl, hrun, hregular, hstop⟩ := ih hmore
          rw [← List.append_cons] at hregular hstop
          exact ⟨c :: run, rest, rfl, List.forall_mem_cons.mpr ⟨hc, hrun⟩, hregular, hstop⟩
        · have hsep : isSeparator c := by
            by_contra hsep
            exact hmore (htext.append_digit (by simpa [isNumeralChar, hsep] using hc))
          exact ⟨[], c :: input, rfl, by simp, by simpa using htext,
            .inr ⟨c, input, rfl, hsep, by simpa using hmore⟩⟩
      · have hother : isNumeralChar c = false := Bool.eq_false_iff.mpr hc
        exact ⟨[], c :: input, rfl, by simp, by simpa using htext, .inl (ends_cons input hother)⟩

theorem exists_first_digit {input : List Char} (h : startsNumber input) :
    ∃ text rest, input = text ++ rest ∧ BeginsNumeral text := by
  have hdigit {c : Char} (text : List Char) (hc : c.isDigit) (htext : IsRegular text) :
      IsRegular (text ++ [c]) := htext.append_digit hc
  cases input with
  | nil => simp [startsNumber] at h
  | cons c input =>
      by_cases hc : c = '-'
      · subst c
        cases input with
        | nil => exact absurd h (by decide)
        | cons d input =>
            have hd : d.isDigit := h
            exact ⟨['-', d], input, rfl, hd, by simp [isNumeralChar, hd],
              hdigit ['-'] hd Numeral.isRegular_minus⟩
      · rw [startsNumber_of_ne input hc] at h
        refine ⟨[c], input, rfl, ?_, by simp, hdigit [] h Numeral.isRegular_nil⟩
        rw [startsNumber_of_ne [] hc]
        exact h

theorem exists_beginsNumeral {input : List Char} (h : startsNumber input) :
    ∃ text rest, input = text ++ rest ∧ BeginsNumeral text ∧
      (Ends isNumeralChar rest ∨ ∃ c more, rest = c :: more ∧ isSeparator c ∧
        ¬ IsRegular (text ++ [c])) := by
  obtain ⟨text, input, rfl, hbegins⟩ := exists_first_digit h
  obtain ⟨run, rest, rfl, hrun, hregular, hstop⟩ := exists_regular_run hbegins.regular input
  refine ⟨text ++ run, rest, (List.append_assoc _ _ _).symm, ⟨?_, ?_, hregular⟩, hstop⟩
  · exact startsNumber_append hbegins.starts run
  · intro c hc
    cases text with
    | nil => exact absurd hbegins.starts (by decide)
    | cons d text =>
        rcases List.mem_append.mp hc with hc | hc
        · exact hbegins.chars c hc
        · exact hrun c hc

end LispReader
