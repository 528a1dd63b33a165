import LispReader.Proofs.Bytewise
import LispReader.Proofs.Finding
import LispReader.Proofs.Tokenizing

namespace LispReader

namespace Lexer

namespace Bytewise

open String (utf8Len utf8Len_append)

/-- The lexer stands behind these characters of a source whose places can all be counted. -/
structure Counts (lexer : Lexer) (consumed : List Char) : Prop where
  behind : lexer.StandsBehind consumed
  bounded : lexer.source.utf8ByteSize < offsetBound

variable {lexer opened : Lexer} {consumed text rest : List Char} {c : Char}

theorem Counts.across (h : Counts lexer consumed) (hrest : lexer.rest = text ++ rest) :
    Counts (lexer.across text rest) (consumed ++ text) :=
  ⟨h.behind.across hrest, h.bounded⟩

theorem Counts.across_cons (h : Counts lexer consumed) (hrest : lexer.rest = c :: rest) :
    Counts (lexer.across [c] rest) (consumed ++ [c]) :=
  h.across hrest

theorem Counts.offset_across (h : Counts lexer consumed) (hrest : lexer.rest = text ++ rest) :
    (lexer.across text rest).offset = lexer.offset + utf8Len text := by
  rw [(h.across hrest).behind.offset, h.behind.offset, utf8Len_append]

theorem Counts.push (h : Counts lexer consumed) (token : Token) :
    Counts (lexer.push token) consumed :=
  ⟨h.behind.push token, h.bounded⟩

theorem advanceBytes?_eq (h : Counts lexer consumed) (hrest : lexer.rest = text ++ rest) :
    lexer.advanceBytes? (utf8Len text) = some (lexer.across text rest) := by
  refine advanceBytes?_of_text (Nat.lt_of_le_of_lt ?_ h.bounded) hrest
  rw [h.behind.bytes, h.behind.offset, bytesLeft_eq, hrest, utf8Len_append]
  omega

theorem take?_eq (h : Counts lexer consumed) (hrest : lexer.rest = c :: rest) :
    lexer.take? = some (some c, lexer.across [c] rest) := by
  have hrest' : lexer.rest = [c] ++ rest := hrest
  have hadvance := advanceBytes?_eq h hrest'
  rw [Text.utf8Len_singleton] at hadvance
  simp only [take?, current?, hrest, List.head?_cons, hadvance, Option.map_some]

theorem take?_at_end (hrest : lexer.rest = []) : lexer.take? = some (none, lexer) := by
  rw [take?, current?, hrest]
  rfl

theorem slice?_eq (h : Counts lexer consumed) (hrest : lexer.rest = text ++ rest) :
    Text.slice? lexer.source lexer.offset (lexer.offset + utf8Len text) =
      some (String.ofList text) := by
  rw [h.behind.offset]
  exact Text.slice?_of_append (by rw [h.behind.source, hrest])

theorem readToken?_eq (h : Counts lexer consumed) (kind : TokenKind)
    (hrest : lexer.rest = text ++ rest) :
    readToken? kind (String.ofList text) (utf8Len text) lexer =
      some (.ok (Pattern.read.token text lexer kind)) := by
  rw [readToken?, advanceBytes?_eq (h.push _) hrest, read_token kind hrest]
  rfl

def ofNumeral (opened : Lexer) :
    Except Cause (Numeral × List Char) → Except Diagnostic Lexer
  | .error cause => .error (opened.diagnostic cause)
  | .ok (numeral, rest) =>
      if numeral.separated then .error (opened.diagnostic (.trailingSeparator numeral.rawText))
      else .ok ({ opened with rest }.push
        ⟨numeral.kind, String.ofList numeral.kept.reverse, opened.line⟩)

theorem readNumber_eq (lexer : Lexer) :
    lexer.readNumber = ofNumeral lexer (Numeral.signed lexer.rest) := by
  rw [readNumber]
  cases Numeral.signed lexer.rest <;> rfl

theorem extend_cases (numeral : Numeral) (c : Char) :
    numeral.extend c = none ∨
    (∃ longer, numeral.extend c = some (.ok longer) ∧ longer.raw = c :: numeral.raw ∧ c ≠ '\n') ∨
    numeral.extend c =
        some (.error (.malformedNumber (String.ofList (c :: numeral.raw).reverse))) ∧
      utf8Len [c] = 1 := by
  unfold Numeral.extend
  by_cases hdigit : c.isDigit = true
  · have hbreak : c ≠ '\n' := by rintro rfl; contradiction
    simp [hdigit, hbreak]
  by_cases hmark : c = '_' ∨ c = '.'
  · rcases hmark with rfl | rfl
    · by_cases hbad : numeral.separated = true <;> simp [hbad, Numeral.rawText]
      decide
    · by_cases hbad : (numeral.separated || numeral.dot) = true <;> simp [hbad, Numeral.rawText]
      decide
  · simp [hdigit, hmark]

theorem across_of_unbroken (hbreak : '\n' ∉ text) (rest : List Char) (lexer : Lexer) :
    lexer.across text rest = { lexer with rest } := by
  rw [Lexer.across, List.count_eq_zero_of_not_mem hbreak, Nat.add_zero]

theorem finish_eq (h : Counts opened consumed) (hrest : opened.rest = text ++ rest)
    {numeral : Numeral} (hraw : numeral.raw.reverse = text) (hbreak : '\n' ∉ text) :
    readNumeral?.finish opened numeral (opened.across text rest) =
      some (ofNumeral opened (.ok (numeral, rest))) := by
  have hslice := slice?_eq h hrest
  rw [← h.offset_across hrest, across_of_unbroken hbreak] at hslice
  rw [readNumeral?.finish, ofNumeral, across_of_unbroken hbreak]
  by_cases hseparated : numeral.separated = true
  · rw [if_pos hseparated, if_pos hseparated, hslice, Numeral.rawText, hraw]
    rfl
  · rw [if_neg hseparated, if_neg hseparated]

/-- What has been read of the number lies between the two places, so that it can be cut out. -/
theorem readNumeral?_eq (h : Counts opened consumed) (hrest : opened.rest = text ++ rest)
    {numeral : Numeral} (hraw : numeral.raw.reverse = text) (hbreak : '\n' ∉ text) :
    readNumeral? opened numeral (opened.across text rest) =
      some (ofNumeral opened (numeral.read rest)) := by
  induction rest generalizing text numeral with
  | nil =>
      rw [readNumeral?, Numeral.read, ← finish_eq h hrest hraw hbreak]
      rfl
  | cons c rest ih =>
      have hlonger : opened.rest = (text ++ [c]) ++ rest := by
        rw [hrest, List.append_assoc]
        rfl
      have htake : (opened.across text (c :: rest)).take? =
          some (some c, opened.across (text ++ [c]) rest) := by
        rw [take?_eq (h.across hrest) rfl, across_across]
      rw [readNumeral?_of_take? numeral rfl htake, Numeral.read]
      rcases extend_cases numeral c with hnone | ⟨longer, hsome, hkept, hc⟩ | ⟨herror, hlen⟩
      · rw [hnone]
        exact finish_eq h hrest hraw hbreak
      · rw [hsome]
        have hraw' : longer.raw.reverse = text ++ [c] := by rw [hkept, List.reverse_cons, hraw]
        exact ih hlonger hraw' (by simp [hbreak, Ne.symm hc])
      · have hslice := slice?_eq h hlonger
        rw [utf8Len_append, hlen, ← Nat.add_assoc, ← h.offset_across hrest,
          across_of_unbroken hbreak] at hslice
        rw [herror, across_of_unbroken hbreak, List.reverse_cons, hraw]
        simp only [hslice]
        rfl

theorem readText?_eq (line : Nat) (h : Counts { opened with rest, line } consumed)
    (text : List Char) :
    readText? opened text { opened with rest, line } = some (readText opened text rest line) := by
  have htake {consumed rest : List Char} {c : Char} {line : Nat}
      (h : Counts { opened with rest := c :: rest, line } consumed) :
      take? { opened with rest := c :: rest, line } =
        some (some c, { opened with rest, line := lineAfter line c }) := by
    rw [take?_eq h rfl, lineAfter_eq]
    rfl
  have hnext {consumed rest : List Char} {c : Char} {line : Nat}
      (h : Counts { opened with rest := c :: rest, line } consumed) :
      Counts { opened with rest, line := lineAfter line c } (consumed ++ [c]) := by
    rw [lineAfter_eq]
    exact h.across_cons rfl
  fun_induction readText opened text rest line generalizing consumed with
  | case1 text line => rw [readText?, take?_at_end rfl]
  | case2 text rest line => exact readText?_of_take? text (htake h)
  | case3 text line =>
      rw [readText?_of_take? text (htake h), take?_at_end rfl]
      rfl
  | case4 text code rest line hcode =>
      rw [readText?_of_take? text (htake h), htake (hnext h)]
      simp only [hcode]
      rfl
  | case5 text code rest line c hcode ih =>
      rw [readText?_of_take? text (htake h), htake (hnext h)]
      simp only [hcode]
      exact ih (hnext (hnext h))
  | case6 text c rest line hquote hend hslash ih =>
      have hc : c ≠ '\\' := by
        rintro rfl
        cases rest with
        | nil => exact hend rfl rfl
        | cons code rest => exact hslash code rest rfl rfl
      rw [readText?_of_take? text (htake h), if_neg hquote, if_neg hc]
      exact ih (hnext h)

theorem readString?_eq (h : Counts lexer consumed) (hrest : lexer.rest = '"' :: rest) :
    readString? (utf8Len ['"']) lexer = some lexer.readString := by
  have hopening : lexer.rest = ['"'] ++ rest := hrest
  rw [readString?, advanceBytes?_eq h hopening, readString, advance_of_rest hrest]
  exact readText?_eq _ (h.across hopening) []

theorem readCharacter?_eq (h : Counts lexer consumed) (hrest : lexer.rest = '\'' :: rest) :
    readCharacter? (utf8Len ['\'']) lexer = some lexer.readCharacter := by
  have hopening : lexer.rest = ['\''] ++ rest := hrest
  have hbody := h.across hopening
  rw [readCharacter?, advanceBytes?_eq h hopening, readCharacter, advance_of_rest hrest]
  simp only [Option.bind_eq_bind, Option.bind_some]
  cases rest with
  | nil =>
      simp only [take?_at_end (show (lexer.across ['\''] []).rest = [] from rfl), Option.bind_some]
      rfl
  | cons c rest =>
      have htake := take?_eq hbody (Eq.refl (c :: rest))
      have hbehind := hbody.across_cons (Eq.refl (c :: rest))
      simp only [htake, Option.bind_some]
      by_cases hslash : c = '\\'
      · subst hslash
        cases rest with
        | nil => rfl
        | cons code rest =>
            have htake := take?_eq hbehind (Eq.refl (code :: rest))
            have hskip : (lexer.across ['\''] ('\\' :: code :: rest)).skip 2 =
                ((lexer.across ['\''] ('\\' :: code :: rest)).across ['\\'] (code :: rest)).across
                  [code] rest := by
              rw [skip_eq_across, across_across]
              rfl
            simp only [htake, Option.bind_some, across_rest, hskip]
            cases hcode : escaped? code <;> simp
      · have hadvance := advance_of_rest (across_rest ['\''] (c :: rest) lexer)
        simp [across_rest, hslash, hadvance]

theorem readNumber?_eq (h : Counts lexer consumed) :
    readNumber? lexer = some lexer.readNumber := by
  rw [readNumber?, readNumber_eq]
  by_cases hminus : lexer.current? = some '-'
  · obtain ⟨rest, hrest⟩ := List.head?_eq_some_iff.mp hminus
    have hsplit : lexer.rest = ['-'] ++ rest := hrest
    rw [if_pos hminus, take?_eq h hrest, hrest]
    exact readNumeral?_eq h hsplit rfl (by decide)
  · have hsigned : Numeral.signed lexer.rest = Numeral.empty.read lexer.rest := by
      rw [Numeral.signed]
      intro rest hrest
      exact hminus (by rw [current?, hrest, List.head?_cons])
    rw [if_neg hminus, hsigned]
    have hstart : lexer.rest = [] ++ lexer.rest := rfl
    exact readNumeral?_eq h hstart rfl List.not_mem_nil

theorem read?_eq (h : Counts lexer consumed) {pattern : Pattern} {found : List Char}
    (hfound : pattern.find? lexer.rest = some found) :
    read? (utf8Len found) lexer pattern = some (pattern.read found lexer) := by
  obtain ⟨rest, hprefix⟩ := Pattern.prefix_of_find? hfound
  have hrest := hprefix.symm
  have hskip : lexer.skip found.length = lexer.across found rest := skip_of_rest hrest
  cases pattern with
  | blanks => rw [read?, advanceBytes?_eq h hrest, Pattern.read, hskip]; rfl
  | comment => rw [read?, advanceBytes?_eq h hrest, Pattern.read, hskip]; rfl
  | opening delimiter =>
      obtain rfl := Pattern.eq_singleton_of_find? rfl (Pattern.find?_opening delimiter) hfound
      rw [read?, ← Text.utf8Len_singleton]
      exact readToken?_eq h _ hrest
  | closing delimiter =>
      obtain rfl := Pattern.eq_singleton_of_find? rfl (Pattern.find?_closing delimiter) hfound
      rw [read?, ← Text.utf8Len_singleton]
      exact readToken?_eq h _ hrest
  | number => exact readNumber?_eq h
  | character =>
      obtain rfl := Pattern.eq_singleton_of_find? rfl Pattern.find?_character hfound
      exact readCharacter?_eq h hrest
  | string =>
      obtain rfl := Pattern.eq_singleton_of_find? rfl Pattern.find?_string hfound
      exact readString?_eq h hrest
  | identifier =>
      rw [read?, slice?_eq h hrest]
      exact readToken?_eq h .identifier hrest

theorem step?_eq (h : Counts lexer consumed) (hne : lexer.rest ≠ []) :
    step? lexer = some lexer.step := by
  obtain ⟨pattern, -, found, hnext⟩ := exists_next? hne
  rw [step?, step, hnext]
  exact read?_eq h (find?_of_next? hnext)

end Bytewise

end Lexer

end LispReader
