import LispReader.Proofs.Groups
import LispReader.Proofs.Tokenizing

namespace LispReader

/-- What may be a number literal at the start of a text, up to the first character that can stand in
none. -/
def literalRun : List Char → List Char
  | '-' :: rest => '-' :: rest.takeWhile isNumeralChar
  | text => text.takeWhile isNumeralChar

/-- A separator behind these characters would follow another one or be a second point. -/
def Misplaced (before : List Char) (c : Char) : Prop :=
  isSeparator c ∧ (before.getLast?.any isSeparator ∨ c = '.' ∧ '.' ∈ before)

def HasMisplaced (text : List Char) : Prop :=
  ∃ before c behind, text = before ++ c :: behind ∧ Misplaced before c

structure FirstMisplaced (text before : List Char) (c : Char) : Prop where
  split : ∃ behind, text = before ++ c :: behind
  misplaced : Misplaced before c
  first : ¬ HasMisplaced before

theorem IsRegular.not_hasMisplaced {text : List Char} (h : IsRegular text) :
    ¬ HasMisplaced text := by
  rintro ⟨before, c, behind, rfl, hc, hmisplaced⟩
  rw [List.append_cons] at h
  obtain ⟨hlast, hdots⟩ := (IsRegular.append_separator_iff h.of_append.of_append hc).mp h.of_append
  rcases hmisplaced with hlast' | ⟨hdot, hmem⟩
  · rw [hlast] at hlast'
    contradiction
  · exact hdots hdot hmem

theorem IsRegular.misplaced {text : List Char} {c : Char} (h : IsRegular text) (hc : isSeparator c)
    (hbad : ¬ IsRegular (text ++ [c])) : Misplaced text c := by
  rw [h.append_separator_iff hc] at hbad
  refine ⟨hc, ?_⟩
  by_contra hgood
  apply hbad
  simpa using hgood

theorem literalRun_append {text : List Char} (h : BeginsNumeral text) (rest : List Char) :
    literalRun (text ++ rest) = text ++ rest.takeWhile isNumeralChar := by
  have hstarts := h.starts
  cases text with
  | nil => contradiction
  | cons c text =>
      have htext : (text ++ rest).takeWhile isNumeralChar =
          text ++ rest.takeWhile isNumeralChar := List.takeWhile_append_of_pos h.chars
      by_cases hc : c = '-'
      · rw [hc, List.cons_append, literalRun, htext, List.cons_append]
      · rw [startsNumber_of_ne text hc] at hstarts
        have hrun : literalRun (c :: (text ++ rest)) =
            (c :: (text ++ rest)).takeWhile isNumeralChar := by
          rw [literalRun]
          intro tail heq
          exact hc (List.cons.inj heq).1
        rw [List.cons_append, hrun, List.takeWhile_cons_of_pos (by simp [isNumeralChar, hstarts]),
          htext, List.cons_append]

theorem literalRun_of_ends {text rest : List Char} (h : BeginsNumeral text)
    (hend : Ends isNumeralChar rest) : literalRun (text ++ rest) = text := by
  have hnil : ∀ c ∈ ([] : List Char), isNumeralChar c := by simp
  have hnone : rest.takeWhile isNumeralChar = [] := takeWhile_of_ends hnil hend
  rw [literalRun_append h, hnone, List.append_nil]

theorem Lexer.step_of_numeral {lexer : Lexer} {text rest : List Char} (h : IsNumeral text)
    (hend : Ends isNumeralChar rest) (hrest : lexer.rest = text ++ rest) :
    lexer.step = .ok ({ lexer with rest }.push ⟨if '.' ∈ text then .number else .integer,
      String.ofList (text.filter (· ≠ '_')), lexer.line⟩) := by
  have hproper : (Part.number text).Proper := h
  rw [step_of_part hproper hend hrest]
  simp [past, pushAll, across, Part.text, Part.token?, count_newline_of_isNumeral h]

theorem Lexer.startsNumber_of_next? {lexer : Lexer} {found : List Char}
    (h : lexer.next? = some (.number, found)) : startsNumber lexer.rest := by
  obtain ⟨pattern, -, hpattern⟩ := List.exists_of_findSome?_eq_some h
  obtain ⟨text, htext, hpair⟩ := Option.map_eq_some_iff.mp hpattern
  obtain ⟨rfl, rfl⟩ := Prod.mk.inj hpair
  rw [← Pattern.find?_number, htext]
  rfl

/-- Where a number is looked for, its characters up to the first that can stand in none decide how
it is read. The first misplaced separator is reported with all before it, and a last separator with
all of them. Else they are a literal, which gives a token, and reading goes on behind them. -/
theorem number_scanned {lexer : Lexer} {found : List Char}
    (h : lexer.next? = some (.number, found)) :
    let literal := literalRun lexer.rest
    (HasMisplaced literal → ∃ before c, FirstMisplaced literal before c ∧
      lexer.step =
        .error ⟨.malformedNumber (String.ofList (before ++ [c])), lexer.line, lexer.file⟩) ∧
    (¬ HasMisplaced literal → literal.getLast?.any isSeparator →
      lexer.step =
        .error ⟨.trailingSeparator (String.ofList literal), lexer.line, lexer.file⟩) ∧
    (¬ HasMisplaced literal → ¬ literal.getLast?.any isSeparator →
      IsLiteral literal ∧
      (if '.' ∈ literal then IsDecimal (literal.filter (· ≠ '_'))
        else IsWhole (literal.filter (· ≠ '_'))) ∧
      lexer.step = .ok ({ lexer with rest := lexer.rest.drop literal.length }.push
        ⟨if '.' ∈ literal then .number else .integer,
          String.ofList (literal.filter (· ≠ '_')), lexer.line⟩)) := by
  intro literal
  obtain ⟨text, rest, hrest, hbegins, hend | ⟨c, more, rfl, hc, hbad⟩⟩ :=
    exists_beginsNumeral (Lexer.startsNumber_of_next? h)
  · have hliteral : literal = text := by
      change literalRun lexer.rest = text
      rw [hrest, literalRun_of_ends hbegins hend]
    have hregular := hbegins.regular.not_hasMisplaced
    rw [hliteral]
    refine ⟨fun hbad => absurd hbad hregular, fun _ hlast => ?_, fun _ hlast => ?_⟩
    · exact Lexer.step_of_trailing hbegins hlast hend hrest
    · have hnumeral : IsNumeral text := by
        refine ⟨hbegins.starts, hbegins.chars, hbegins.regular, fun c hc hseparator => hlast ?_⟩
        rw [Option.mem_def.mp hc]
        exact hseparator
      refine ⟨hnumeral.isLiteral, hnumeral.isLiteral.filter, ?_⟩
      rw [Lexer.step_of_numeral hnumeral hend hrest, hrest, List.drop_left]
  · have hliteral : literal = text ++ c :: more.takeWhile isNumeralChar := by
      change literalRun lexer.rest = _
      rw [hrest, literalRun_append hbegins,
        List.takeWhile_cons_of_pos (by simp [isNumeralChar, hc])]
    have hmisplaced : Misplaced text c := hbegins.regular.misplaced hc hbad
    have hfirst : FirstMisplaced literal text c :=
      ⟨⟨_, hliteral⟩, hmisplaced, hbegins.regular.not_hasMisplaced⟩
    have hhas : HasMisplaced literal := ⟨text, c, _, hliteral, hmisplaced⟩
    refine ⟨fun _ => ⟨text, c, hfirst, ?_⟩, fun hnone => absurd hhas hnone,
      fun hnone => absurd hhas hnone⟩
    exact Lexer.step_of_malformed hbegins hc hbad hrest

theorem number_scanned_before_bracket :
    (Lexer.ofSource "-1_2.50]" "").next? = some (.number, "-1".toList) ∧
      literalRun "-1_2.50]".toList = "-1_2.50".toList ∧
      IsLiteral "-1_2.50".toList ∧ IsDecimal "-12.50".toList ∧
      (Lexer.ofSource "-1_2.50]" "").step =
        .ok ({ Lexer.ofSource "-1_2.50]" "" with rest := [']'] }.push ⟨.number, "-12.50", 1⟩) := by
  have hfound : (Lexer.ofSource "-1_2.50]" "").next? = some (.number, "-1".toList) := rfl
  have hregular : IsRegular "-1_2.50".toList := ⟨by decide, by decide⟩
  obtain ⟨-, -, hliteral⟩ := number_scanned hfound
  obtain ⟨hgrouped, hkept, hstep⟩ := hliteral hregular.not_hasMisplaced (by decide)
  exact ⟨hfound, rfl, hgrouped, hkept, hstep⟩

end LispReader
