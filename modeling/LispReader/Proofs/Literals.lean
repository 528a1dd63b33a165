import LispReader.Proofs.Parts

namespace LispReader.Lexer

def across (text rest : List Char) (lexer : Lexer) : Lexer :=
  { lexer with rest, line := lexer.line + text.count '\n' }

def pushAll (token? : Option Token) (lexer : Lexer) : Lexer :=
  token?.elim lexer lexer.push

def past (part : Part) (rest : List Char) (lexer : Lexer) : Lexer :=
  (lexer.across part.text rest).pushAll (part.token? lexer.line)

theorem lineAfter_eq (line : Nat) (c : Char) : lineAfter line c = line + [c].count '\n' := by
  rw [lineAfter, List.count_singleton]
  by_cases hc : c = '\n' <;> simp [hc]

theorem advance_of_rest {lexer : Lexer} {c : Char} {rest : List Char}
    (hrest : lexer.rest = c :: rest) : lexer.advance = lexer.across [c] rest := by
  rw [advance, hrest]
  simp only [across, lineAfter_eq]

@[simp]
theorem across_rest (text rest : List Char) (lexer : Lexer) :
    (lexer.across text rest).rest = rest := rfl

theorem across_across (text more rest rest' : List Char) (lexer : Lexer) :
    (lexer.across text rest').across more rest = lexer.across (text ++ more) rest := by
  simp [across, Nat.add_assoc]

theorem skip_of_rest {lexer : Lexer} {text rest : List Char} (hrest : lexer.rest = text ++ rest) :
    lexer.skip text.length = lexer.across text rest := by
  induction text generalizing lexer with
  | nil =>
      simp only [across, List.count_nil, Nat.add_zero]
      rw [← List.nil_append rest, ← hrest]
      rfl
  | cons c text ih =>
      have hadvance : lexer.advance = lexer.across [c] (text ++ rest) := advance_of_rest hrest
      rw [List.length_cons, skip, hadvance, ih (across_rest _ _ _), across_across,
        List.singleton_append]

theorem readCharacter_of_writes {lexer : Lexer} {written rest : List Char} {c : Char}
    (hrest : lexer.rest = '\'' :: (written ++ rest)) (h : Writes written c) :
    lexer.readCharacter = .ok (lexer.past (.character written c) rest) := by
  have hbody : lexer.advance.rest = written ++ rest := by
    rw [advance_of_rest hrest]
    rfl
  have hskip := skip_of_rest hbody
  rw [advance_of_rest hrest, across_across, List.singleton_append] at hskip
  cases h with
  | raw hslash =>
      rw [readCharacter, hbody, advance_of_rest hbody, advance_of_rest hrest, across_across]
      simp [hslash]
      rfl
  | @escape code c hcode =>
      rw [readCharacter, hbody, advance_of_rest hrest]
      simp only [List.cons_append, List.nil_append, hcode]
      change Except.ok ((skip ['\\', code].length
        (lexer.across ['\''] (['\\', code] ++ rest))).push _) = _
      rw [hskip]
      rfl

theorem readText_of_raw {opened : Lexer} {c : Char} (text rest : List Char) (line : Nat)
    (hslash : c ≠ '\\') (hquote : c ≠ '"') :
    readText opened text (c :: rest) line =
      readText opened (c :: text) rest (line + [c].count '\n') := by
  rw [← lineAfter_eq]
  simp [readText, hslash]

theorem readText_of_escape {opened : Lexer} {code c : Char} (text rest : List Char) (line : Nat)
    (hcode : escaped? code = some c) :
    readText opened text ('\\' :: code :: rest) line =
      readText opened (c :: text) rest (line + ['\\', code].count '\n') := by
  have hcount : ['\\', code].count '\n' = [code].count '\n' := by simp
  rw [hcount, ← lineAfter_eq]
  simp [readText, hcode]

def textEnd (text rest : List Char) (line : Nat) (opened : Lexer) : Lexer :=
  { opened with rest, line }.push ⟨.string, String.ofList text, opened.line⟩

theorem readText_append {opened : Lexer} {written value : List Char}
    (h : WritesText written value) (text input : List Char) (line : Nat) :
    readText opened text (written ++ input) line =
      readText opened (value.reverse ++ text) input (line + written.count '\n') := by
  induction h generalizing text line with
  | nil => simp
  | @raw c written value hslash hquote _ ih =>
      rw [List.cons_append, readText_of_raw _ _ _ hslash hquote, ih, Nat.add_assoc,
        ← List.count_append, List.singleton_append, List.reverse_cons, List.append_assoc,
        List.singleton_append]
  | @escape code c written value hcode _ ih =>
      rw [List.cons_append, List.cons_append, readText_of_escape _ _ _ hcode, ih, Nat.add_assoc,
        ← List.count_append, List.reverse_cons, List.append_assoc, List.singleton_append]
      rfl

theorem readText_of_writes {opened : Lexer} {written value : List Char}
    (h : WritesText written value) (text rest : List Char) (line : Nat) :
    readText opened text (written ++ '"' :: rest) line =
      .ok (opened.textEnd (text.reverse ++ value) rest (line + written.count '\n')) := by
  rw [readText_append h]
  simp [readText, textEnd]

theorem readString_of_quote {lexer : Lexer} {body : List Char} (hrest : lexer.rest = '"' :: body) :
    lexer.readString = readText lexer [] body (lexer.line + ['"'].count '\n') := by
  rw [readString, advance_of_rest hrest]
  rfl

theorem readString_of_writes {lexer : Lexer} {written value rest : List Char}
    (hrest : lexer.rest = '"' :: (written ++ '"' :: rest)) (h : WritesText written value) :
    lexer.readString = .ok (lexer.past (.string written value) rest) := by
  rw [readString_of_quote hrest, readText_of_writes h, Nat.add_assoc, ← List.count_append]
  simp [textEnd, past, across, pushAll, push, Part.text, Part.token?]

theorem count_newline_of_isNumeral {text : List Char} (h : IsNumeral text) :
    text.count '\n' = 0 := by
  rw [List.count_eq_zero]
  intro hmem
  have hstarts := h.starts
  cases text with
  | nil => simp at hmem
  | cons c text =>
      rcases List.mem_cons.mp hmem with rfl | hmem
      · simp [startsNumber] at hstarts
      · exact absurd (h.chars _ hmem) (by decide)

theorem readNumber_of_isNumeral {lexer : Lexer} {text rest : List Char}
    (hrest : lexer.rest = text ++ rest) (h : IsNumeral text) (hend : Ends isNumeralChar rest) :
    lexer.readNumber = .ok (lexer.past (.number text) rest) := by
  have hseparated : ¬ (Numeral.ofText text).separated = true := by
    have hlast := h.last
    cases htext : text.getLast? <;> simp_all [Numeral.ofText]
  rw [readNumber, hrest, Numeral.signed_append h.begins, Numeral.read_of_ends _ hend]
  simp only [if_neg hseparated]
  simp [past, across, pushAll, push, Part.text, Part.token?, count_newline_of_isNumeral h,
    Numeral.ofText, Numeral.kind]

end LispReader.Lexer
