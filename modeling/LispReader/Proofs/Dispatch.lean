import LispReader.Proofs.Literals

namespace LispReader

theorem ends_dropWhile (p : Char → Bool) (text : List Char) : Ends p (text.dropWhile p) := by
  intro c hc
  have hnot := List.head?_dropWhile_not p text
  rw [Option.mem_def.mp hc] at hnot
  simpa using hnot

theorem takeWhile_of_ends {p : Char → Bool} {text rest : List Char} (htext : ∀ c ∈ text, p c)
    (hend : Ends p rest) : (text ++ rest).takeWhile p = text := by
  rw [List.takeWhile_append_of_pos htext]
  cases rest with
  | nil => simp
  | cons c rest => simp [hend c rfl]

theorem dropWhile_of_ends {p : Char → Bool} {text rest : List Char} (htext : ∀ c ∈ text, p c)
    (hend : Ends p rest) : (text ++ rest).dropWhile p = rest := by
  have hsplit := List.takeWhile_append_dropWhile (p := p) (l := text ++ rest)
  rw [takeWhile_of_ends htext hend] at hsplit
  exact List.append_cancel_left hsplit

namespace Pattern

theorem run?_of_ends {p : Char → Bool} {text rest : List Char} (hne : text ≠ [])
    (htext : ∀ c ∈ text, p c) (hend : Ends p rest) : run? p (text ++ rest) = some text := by
  rw [run?, takeWhile_of_ends htext hend]
  cases text with
  | nil => contradiction
  | cons c text => rfl

@[simp]
theorem run?_of_not {p : Char → Bool} {c : Char} (rest : List Char) (hc : p c = false) :
    run? p (c :: rest) = none := by
  simp [run?, hc]

@[simp]
theorem find?_comment (c : Char) (text : List Char) :
    find? .comment (c :: text) =
      if c = ';' then some (c :: text.takeWhile (· ≠ '\n')) else none := by
  by_cases hc : c = ';'
  · subst hc
    rfl
  · simp [find?, hc]

@[simp]
theorem find?_character (c : Char) (text : List Char) :
    find? .character (c :: text) = if c = '\'' then some [c] else none := by
  by_cases hc : c = '\''
  · subst hc
    rfl
  · simp [find?, hc]

@[simp]
theorem find?_string (c : Char) (text : List Char) :
    find? .string (c :: text) = if c = '"' then some [c] else none := by
  by_cases hc : c = '"'
  · subst hc
    rfl
  · simp [find?, hc]

@[simp]
theorem find?_opening (delimiter : Delimiter) (c : Char) (text : List Char) :
    find? (.opening delimiter) (c :: text) = if c = delimiter.opener then some [c] else none := rfl

@[simp]
theorem find?_closing (delimiter : Delimiter) (c : Char) (text : List Char) :
    find? (.closing delimiter) (c :: text) = if c = delimiter.closer then some [c] else none := rfl

@[simp]
theorem find?_blanks (text : List Char) : find? .blanks text = run? isBlank text := rfl

theorem find?_number {text : List Char} :
    (find? .number text).isSome = startsNumber text := by
  cases text with
  | nil => rfl
  | cons c text =>
      by_cases hc : c = '-'
      · subst c
        cases text with
        | nil => rfl
        | cons d text => by_cases hd : d.isDigit <;> simp [find?, startsNumber, hd]
      · by_cases hd : c.isDigit <;> simp [find?, startsNumber, hc, hd]

theorem find?_number_eq_none {text : List Char} (h : startsNumber text = false) :
    find? .number text = none := by
  rw [← Option.isNone_iff_eq_none, ← Option.not_isSome, find?_number, h]
  rfl

theorem isIdentifierChar_of_isDigit {c : Char} (hc : c.isDigit) : isIdentifierChar c := by
  by_contra h
  simp only [isIdentifierChar, isBlank, Bool.not_eq_true, Bool.not_eq_false', Bool.or_eq_true,
    decide_eq_true_eq, or_assoc] at h
  rcases h with rfl | rfl | rfl | rfl | rfl | rfl | rfl | rfl | rfl | rfl | rfl <;> contradiction

theorem ne_of_isIdentifierChar {c : Char} (hc : isIdentifierChar c) :
    isBlank c = false ∧ c ≠ ';' ∧ c ≠ '(' ∧ c ≠ ')' := by
  simp only [isIdentifierChar, Bool.not_eq_true', Bool.or_eq_false_iff,
    decide_eq_false_iff_not] at hc
  simp [hc]

theorem isIdentifierChar_of_startsNumber {c : Char} {rest : List Char}
    (h : startsNumber (c :: rest)) : isIdentifierChar c ∧ c ≠ '[' ∧ c ≠ ']' := by
  obtain ⟨d, tail, heq, hd⟩ := startsNumber_head h
  obtain rfl : c = d := (List.cons.inj heq).1
  rcases hd with rfl | hd
  · exact ⟨rfl, by simp, by simp⟩
  · refine ⟨isIdentifierChar_of_isDigit hd, ?_, ?_⟩ <;> rintro rfl <;> contradiction

theorem find?_before_number {text : List Char} (h : startsNumber text) (pattern : Pattern)
    (hpattern : pattern ∈
      [blanks, comment, opening .paren, closing .paren, opening .bracket, closing .bracket]) :
    find? pattern text = none := by
  cases text with
  | nil => contradiction
  | cons c rest =>
      obtain ⟨hc, hopener, hcloser⟩ := isIdentifierChar_of_startsNumber h
      obtain ⟨hblank, hcomment, hleft, hright⟩ := ne_of_isIdentifierChar hc
      simp only [List.mem_cons, List.not_mem_nil, or_false] at hpattern
      rcases hpattern with rfl | rfl | rfl | rfl | rfl | rfl
      · exact run?_of_not rest hblank
      · simp [hcomment]
      · simp [Delimiter.opener, hleft]
      · simp [Delimiter.closer, hright]
      · simp [Delimiter.opener, hopener]
      · simp [Delimiter.closer, hcloser]

/-- A number does not begin where an identifier does, not even with the help of what follows. -/
theorem startsNumber_of_identifier {text rest : List Char} (hne : text ≠ [])
    (h : startsNumber text = false) (hend : Ends isIdentifierChar rest) :
    startsNumber (text ++ rest) = false := by
  cases text with
  | nil => contradiction
  | cons c text =>
      by_cases hc : c = '-'
      · subst c
        cases text with
        | cons d text => exact h
        | nil =>
            cases rest with
            | nil => rfl
            | cons d rest =>
                by_contra hdigit
                rw [Bool.not_eq_false] at hdigit
                exact absurd (hend d rfl) (by simp [isIdentifierChar_of_isDigit hdigit])
      · rw [List.cons_append, startsNumber_of_ne _ hc]
        rwa [startsNumber_of_ne _ hc] at h

end Pattern

namespace Lexer

open Pattern

variable {lexer : Lexer} {c : Char} {rest : List Char}

theorem next?_blanks {text : List Char} (hne : text ≠ []) (htext : ∀ c ∈ text, isBlank c)
    (hend : Ends isBlank rest) (hrest : lexer.rest = text ++ rest) :
    lexer.next? = some (.blanks, text) := by
  simp [next?, Pattern.all, hrest, run?_of_ends hne htext hend]

theorem next?_comment (hrest : lexer.rest = ';' :: rest) :
    lexer.next? = some (.comment, ';' :: rest.takeWhile (· ≠ '\n')) := by
  simp +decide [next?, Pattern.all, hrest]

theorem next?_opening (delimiter : Delimiter) (hrest : lexer.rest = delimiter.opener :: rest) :
    lexer.next? = some (.opening delimiter, [delimiter.opener]) := by
  cases delimiter <;> simp +decide [next?, Pattern.all, hrest]

theorem next?_closing (delimiter : Delimiter) (hrest : lexer.rest = delimiter.closer :: rest) :
    lexer.next? = some (.closing delimiter, [delimiter.closer]) := by
  cases delimiter <;> simp +decide [next?, Pattern.all, hrest]

theorem next?_character (hrest : lexer.rest = '\'' :: rest) :
    lexer.next? = some (.character, ['\'']) := by
  have hnumber : find? .number ('\'' :: rest) = none := find?_number_eq_none rfl
  simp +decide [next?, Pattern.all, hrest, hnumber]

theorem next?_string (hrest : lexer.rest = '"' :: rest) :
    lexer.next? = some (.string, ['"']) := by
  have hnumber : find? .number ('"' :: rest) = none := find?_number_eq_none rfl
  simp +decide [next?, Pattern.all, hrest, hnumber]

theorem next?_number {text : List Char} (h : startsNumber text)
    (hrest : lexer.rest = text ++ rest) :
    ∃ found, lexer.next? = some (.number, found) := by
  have hstarts : startsNumber lexer.rest := by
    rw [hrest]
    exact startsNumber_append h rest
  obtain ⟨found, hfound⟩ := Option.isSome_iff_exists.mp (find?_number.trans hstarts)
  refine ⟨found, ?_⟩
  simp [next?, Pattern.all, find?_before_number hstarts, hfound]

theorem next?_identifier {text : List Char} (h : (Part.identifier text).Proper)
    (hend : Ends isIdentifierChar rest) (hrest : lexer.rest = text ++ rest) :
    lexer.next? = some (.identifier, text) := by
  obtain ⟨hne, hchars, hopener, hcloser, hnumber⟩ := h
  have hnone := find?_number_eq_none (startsNumber_of_identifier hne hnumber hend)
  have hfound : find? .identifier (text ++ rest) = some text := run?_of_ends hne hchars hend
  have hblanks : find? .blanks (text ++ rest) = none := by
    cases text with
    | nil => contradiction
    | cons c text =>
        have hc := hchars c List.mem_cons_self
        exact run?_of_not _ (ne_of_isIdentifierChar hc).1
  have hothers : ∀ pattern ∈ [comment, opening .paren, closing .paren, opening .bracket,
      closing .bracket, character, string], find? pattern (text ++ rest) = none := by
    cases text with
    | nil => contradiction
    | cons c text =>
        have hc := hchars c List.mem_cons_self
        simp only [isIdentifierChar, Bool.not_eq_true', Bool.or_eq_false_iff,
          decide_eq_false_iff_not] at hc
        simp only [List.head?_cons, ne_eq, Option.some.injEq] at hopener hcloser
        simp [Delimiter.opener, Delimiter.closer, hc, hopener, hcloser]
  simp [next?, Pattern.all, hrest, hnone, hfound, hblanks, hothers]

end Lexer

end LispReader
