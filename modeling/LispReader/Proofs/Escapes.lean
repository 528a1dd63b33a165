import LispReader.Proofs.Halting
import LispReader.Proofs.Reports

namespace LispReader

/-- Between `before` and `behind` a literal has a backslash and a code that is none. -/
inductive StrayEscape (source : List Char) (code : Char) : List Char → List Char → Prop
  | string {parts : List Part} {written behind : List Char}
      (hhalts : Halts source parts (.stringEscape written code) behind) :
      StrayEscape source code (Part.written parts ++ '"' :: written) behind
  | character {parts : List Part} {behind : List Char}
      (hhalts : Halts source parts (.characterEscape code) behind) :
      StrayEscape source code (Part.written parts ++ ['\'']) behind

namespace StrayEscape

variable {source before behind : List Char} {code : Char}

theorem eq_append (h : StrayEscape source code before behind) :
    source = before ++ '\\' :: code :: behind := by
  cases h with
  | string hhalts | character hhalts => simpa [Defect.text] using hhalts.eq_written

theorem tokenize_eq {text : String} (h : StrayEscape text.toList code before behind)
    (file : String) :
    tokenize text file =
      .error ⟨.unknownEscapeCode code, lineBehind (before ++ ['\\', code]), file⟩ := by
  cases h with
  | string hhalts | character hhalts =>
      rw [tokenize_of_halts file hhalts, List.append_assoc]
      rfl

theorem of_tokenize {text file : String} {diagnostic : Diagnostic}
    (h : tokenize text file = .error diagnostic)
    (hcause : diagnostic.cause = .unknownEscapeCode code) :
    ∃ before behind, StrayEscape text.toList code before behind := by
  obtain ⟨parts, defect, rest, hhalts, rfl⟩ := halts_of_tokenize h
  cases defect with
  | stringEscape written other =>
      obtain rfl := Cause.unknownEscapeCode.inj hcause
      exact ⟨_, _, .string hhalts⟩
  | characterEscape other =>
      obtain rfl := Cause.unknownEscapeCode.inj hcause
      exact ⟨_, _, .character hhalts⟩
  | string | character | malformed | trailing => contradiction

end StrayEscape

/-- An escape that is none is reported with the line on which its code ends. This is the line of the
backslash, which is shown, but for a line break in the place of the code: then it is the line below
that of the backslash. -/
theorem escape_reported_behind_code {source file : String} {diagnostic : Diagnostic} {code : Char}
    (h : tokenize source file = .error diagnostic)
    (hcause : diagnostic.cause = .unknownEscapeCode code) :
    (∃ before behind, StrayEscape source.toList code before behind) ∧
    ∀ before behind, StrayEscape source.toList code before behind →
      source.toList = before ++ '\\' :: code :: behind ∧
      diagnostic.line = lineBehind (before ++ ['\\', code]) ∧
      (code ≠ '\n' → diagnostic.line = lineBehind before ∧
        ∃ shown, shown = Text.withoutIndentation (Text.lastLine before) ++
            '\\' :: Text.trimEnd (Text.withoutReturn ((code :: behind).takeWhile (· ≠ '\n'))) ∧
          diagnostic.report source = Text.printed (diagnostic.reportLines shown)) ∧
      (code = '\n' → diagnostic.line = lineBehind before + 1 ∧
        Text.line? source.toList diagnostic.line =
          some (Text.withoutReturn (behind.takeWhile (· ≠ '\n')))) := by
  refine ⟨StrayEscape.of_tokenize h hcause, fun before behind hstray => ?_⟩
  have hsource := hstray.eq_append
  have hline : diagnostic.line = lineBehind (before ++ ['\\', code]) := by
    rw [hstray.tokenize_eq] at h
    rw [← Except.error.inj h]
  refine ⟨hsource, hline, fun hcode => ?_, ?_⟩
  · have hsame : diagnostic.line = lineBehind before := by
      rw [hline, Part.lineBehind_append]
      simp [hcode]
    have htext : Text.line? source.toList diagnostic.line = some (Text.withoutReturn
        (Text.lastLine before ++ '\\' :: (code :: behind).takeWhile (· ≠ '\n'))) := by
      rw [hsource, hsame, Text.line?_append]
      simp
    have hslash : Text.isBlank '\\' = false := by decide
    exact ⟨hsame, _, Text.trimEnd_line hslash _ _, Diagnostic.report_of_line htext⟩
  · rintro rfl
    have hbehind : before ++ '\\' :: '\n' :: behind = (before ++ ['\\', '\n']) ++ behind := by simp
    have hlast : Text.lastLine (before ++ ['\\', '\n']) = [] := by
      rw [List.append_cons]
      exact Text.lastLine_append_break (by simp) _
    refine ⟨by rw [hline, Part.lineBehind_append]; rfl, ?_⟩
    rw [hsource, hbehind, hline, Text.line?_append, hlast, List.nil_append]

/-- The backslash stands on the first line, and the second one is reported. -/
theorem escaped_break_reported_below :
    tokenize "'\\\n" "" = .error ⟨.unknownEscapeCode '\n', 2, ""⟩ ∧
      StrayEscape "'\\\n".toList '\n' ['\''] [] ∧ lineBehind ['\''] = 1 ∧
      Text.line? "'\\\n".toList 2 = some [] := by
  have htokens : tokenize "'\\\n" "" = .error ⟨.unknownEscapeCode '\n', 2, ""⟩ := rfl
  have hproper : (Defect.characterEscape '\n').Proper := rfl
  have hhalts : Halts "'\\\n".toList [] (.characterEscape '\n') [] := .here hproper trivial
  have hstray : StrayEscape "'\\\n".toList '\n' ['\''] [] := .character hhalts
  obtain ⟨-, hescapes⟩ := escape_reported_behind_code htokens rfl
  obtain ⟨-, -, -, hbreak⟩ := hescapes _ _ hstray
  exact ⟨htokens, hstray, rfl, (hbreak rfl).2⟩

end LispReader
