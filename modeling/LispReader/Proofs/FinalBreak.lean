import LispReader.Proofs.Joining
import LispReader.Proofs.Offences
import LispReader.Source.Basic

namespace LispReader

variable {source file : String} {diagnostic : Diagnostic}

namespace Text

theorem takeWhile_append_break (text : List Char) :
    (text ++ ['\n']).takeWhile (· ≠ '\n') = text.takeWhile (· ≠ '\n') := by
  rw [List.takeWhile_append]
  split
  · next hall =>
      rw [(List.takeWhile_prefix _).eq_of_length hall]
      exact List.append_nil text
  · rfl

theorem line?_append_break (before behind : List Char) :
    line? (before ++ behind ++ ['\n']) (lineBehind before) =
      line? (before ++ behind) (lineBehind before) := by
  rw [List.append_assoc, line?_append, line?_append, takeWhile_append_break]

end Text

theorem Source.ofFile_code {path : String} {contents : List UInt8} {code : String}
    (hcontents : Text.Utf8.decode contents = code.toList) (hne : code ≠ "")
    (hlast : code.toList.getLast? ≠ some '\n') : (ofFile path contents).code = code ++ "\n" := by
  have hnil : code.toList ≠ [] := fun h => hne (String.toList_eq_nil_iff.mp h)
  have hend : endLine code.toList = code.toList ++ ['\n'] := if_neg (not_or.mpr ⟨hnil, hlast⟩)
  apply String.toList_inj.mp
  rw [ofFile, hcontents, hend, String.toList_ofList, String.toList_append]
  rfl

theorem Rejects.report_append_break (h : Rejects source file diagnostic) :
    diagnostic.report (source ++ "\n") = diagnostic.report source := by
  obtain ⟨before, behind, hsource, hline⟩ := h.exists_place
  have hbreak : (source ++ "\n").toList = before ++ behind ++ ['\n'] := by
    rw [String.toList_append, hsource]
    rfl
  rw [Diagnostic.report, Diagnostic.report, hbreak, hsource, hline, Text.line?_append_break]

def CutsOff (source : List Char) (defect : Defect) : Prop :=
  ∃ parts, Halts source parts defect []

theorem CutsOff.proper {text : List Char} {defect : Defect} (h : CutsOff text defect) :
    defect.Proper := by
  obtain ⟨parts, hhalts⟩ := h
  exact hhalts.proper.1

theorem toList_append_break (source : String) : (source ++ "\n").toList = source.toList ++ ['\n'] :=
  String.toList_append

/-- No defect is mended by a line break but that of a literal that is cut off behind a quote or a
backslash. -/
theorem Halts.append_break {text rest : List Char} {parts : List Part} {defect : Defect}
    (h : Halts text parts defect rest) (hcause : defect.cause ≠ .unterminatedCharacter)
    (hcut : ∀ written, ¬ CutsOff text (.string written true)) :
    ∃ other behind, Halts (text ++ ['\n']) parts other behind ∧ other.cause = defect.cause ∧
      other.reported = defect.reported := by
  by_cases hlasts : defect.Lasts rest
  · exact ⟨defect, _, h.append hlasts ['\n'], rfl, rfl⟩
  · obtain ⟨hproper, hstops⟩ := h.proper
    obtain rfl := hstops.eq_nil hlasts
    cases defect with
    | string written slash =>
        cases slash with
        | true => exact absurd ⟨parts, h⟩ (hcut written)
        | false =>
            obtain ⟨value, hwritten⟩ := hproper
            have hbreak : WritesText ['\n'] ['\n'] := .raw (by decide) (by decide) .nil
            have hlonger : (Defect.string (written ++ ['\n']) false).Proper :=
              ⟨_, hwritten.append hbreak⟩
            have hend : (Defect.string (written ++ ['\n']) false).Stops [] := rfl
            refine ⟨_, [], h.replace hlonger hend ?_, rfl, rfl⟩
            simp [Defect.text, Defect.backslash]
    | trailing number =>
        have hend : (Defect.trailing number).Stops ['\n'] := ends_cons [] (by decide)
        exact ⟨_, _, h.replace hproper hend rfl, rfl, rfl⟩
    | character slash => exact absurd rfl hcause
    | stringEscape | characterEscape | malformed => exact absurd trivial hlasts

theorem Halts.tokenize_append_break {rest : List Char} {parts : List Part} {defect : Defect}
    (h : Halts source.toList parts defect rest) (file : String)
    (hcause : defect.cause ≠ .unterminatedCharacter)
    (hcut : ∀ written, ¬ CutsOff source.toList (.string written true)) :
    tokenize (source ++ "\n") file =
      .error ⟨defect.cause, lineBehind (Part.written parts ++ defect.reported), file⟩ := by
  obtain ⟨other, behind, hbreak, hsame, hreported⟩ := h.append_break hcause hcut
  rw [← toList_append_break] at hbreak
  rw [tokenize_of_halts file hbreak, hsame, hreported]

theorem Halts.cutsOff_character {text rest : List Char} {parts : List Part} {defect : Defect}
    (h : Halts text parts defect rest) (hcause : defect.cause = .unterminatedCharacter) :
    CutsOff text (.character false) ∨ CutsOff text (.character true) := by
  cases defect with
  | character slash =>
      obtain rfl : rest = [] := h.proper.2
      cases slash with
      | false => exact .inl ⟨parts, h⟩
      | true => exact .inr ⟨parts, h⟩
  | string | stringEscape | characterEscape | malformed | trailing => contradiction

theorem CutsOff.tokenize_append_break (h : CutsOff source.toList (.character false))
    (file : String) :
    ∃ shown line, tokenize source file = .error ⟨.unterminatedCharacter, line, file⟩ ∧
      tokenize (source ++ "\n") file = .ok (shown ++ [⟨.character, "\n", line⟩,
        ⟨.endOfFile, "EOF", lineBehind (source.toList ++ ['\n'])⟩]) := by
  obtain ⟨parts, hhalts⟩ := h
  have hcharacter : (Part.character ['\n'] '\n').Proper := .raw (by decide)
  have hparts : Decomposes (source.toList ++ ['\n']) (parts ++ [.character ['\n'] '\n']) :=
    hhalts.complete hcharacter rfl
  have htokens := Part.tokens_eq_content [] (parts ++ [.character ['\n'] '\n'])
  rw [Part.content_append, List.append_assoc, List.nil_append (Part.written _),
    ← Part.eq_written_of_decomposes hparts] at htokens
  rw [← toList_append_break] at hparts
  refine ⟨Part.content [] parts, _, tokenize_of_halts file hhalts, ?_⟩
  rw [tokenize_of_decomposes file hparts, Defect.reported, List.append_nil]
  exact congrArg Except.ok htokens

theorem CutsOff.tokenize_escape {defect other : Defect} (h : CutsOff source.toList defect)
    (file : String) (hproper : other.Proper) (hstops : other.Stops [])
    (hreported : other.reported = other.text) (htext : defect.text ++ ['\n'] = other.text) :
    tokenize (source ++ "\n") file =
      .error ⟨other.cause, lineBehind (source.toList ++ ['\n']), file⟩ := by
  obtain ⟨parts, hhalts⟩ := h
  have hbreak : Halts (source.toList ++ ['\n']) parts other [] := by
    refine hhalts.replace hproper hstops ?_
    rw [List.append_nil, ← htext]
    rfl
  rw [← toList_append_break] at hbreak ⊢
  rw [tokenize_of_halts file hbreak, hbreak.eq_written, hreported, List.append_nil]

theorem tokenize_append_break {tokens : List Token} (h : tokenize source file = .ok tokens) :
    ∃ parts, tokens = Part.content [] parts ++ [⟨.endOfFile, "EOF", lineBehind source.toList⟩] ∧
      tokenize (source ++ "\n") file =
        .ok (Part.content [] parts ++ [⟨.endOfFile, "EOF", lineBehind source.toList + 1⟩]) := by
  obtain ⟨parts, hparts, rfl⟩ := decomposes_of_tokenize h
  have hgap : IsTrivia ['\n'] := .blank rfl .nil
  have hrest : (Lexer.ofSource (source ++ "\n") file).rest = source.toList ++ (['\n'] ++ []) := by
    simp [Lexer.ofSource]
  obtain ⟨tokens, htoEnd, htokens⟩ := Lexer.toEnd_of_gap hparts hgap rfl hrest
  have hall : Part.tokens 1 parts =
      Part.content [] parts ++ [⟨.endOfFile, "EOF", lineBehind source.toList⟩] := by
    rw [Part.eq_written_of_decomposes hparts]
    exact Part.tokens_eq_content [] parts
  refine ⟨parts, hall, ?_⟩
  have hcontent : tokens.toList = Part.content [] parts := by
    change tokens.toList ++ [⟨.endOfFile, "EOF", lineBehind source.toList⟩] = Part.tokens 1 parts
      at htokens
    rw [hall] at htokens
    exact List.append_cancel_right htokens
  have hend (lexer : Lexer) (hnil : lexer.rest = []) : lexer.toEnd = .ok lexer :=
    Lexer.steps_at_end _ hnil
  have hline : lineBehind (source.toList ++ ['\n']) = lineBehind source.toList + 1 :=
    Part.lineBehind_append _ _
  rw [tokenize, htoEnd, hend _ rfl, Except.map, Lexer.closed_eq, hcontent, ← hline]
  rfl

theorem parse_content_end (parts : List Part) (line line' : Nat) (file : String) :
    parse (Part.content [] parts ++ [⟨.endOfFile, "EOF", line⟩]) file =
      parse (Part.content [] parts ++ [⟨.endOfFile, "EOF", line'⟩]) file := by
  have hcontent (line : Nat) : parse (Part.content [] parts ++ [⟨.endOfFile, "EOF", line⟩]) file =
      parse (Part.content [] parts) file := by
    rw [← parse_beforeEnd, Part.beforeEnd_content [] parts rfl]
  rw [hcontent, hcontent]

/-- A line break at the end of a source, which a file always has, does nothing but move the end a
line down, unless it falls into a literal that the source's end cuts off behind the quote of a
character or behind a backslash. There it is the character, or the code of an escape that is
none. -/
theorem final_break_matters_in_cut_literals (code file : String) :
    (code ≠ "" → code.toList.getLast? ≠ some '\n' → ∀ path contents,
      Text.Utf8.decode contents = code.toList → (Source.ofFile path contents).code = code ++ "\n") ∧
    (∀ tokens, tokenize code file = .ok tokens → ∃ shown line,
      tokens = shown ++ [⟨.endOfFile, "EOF", line⟩] ∧
      tokenize (code ++ "\n") file = .ok (shown ++ [⟨.endOfFile, "EOF", line + 1⟩]) ∧
      parse (shown ++ [⟨.endOfFile, "EOF", line + 1⟩]) file = parse tokens file ∧
      ∀ diagnostic, parse tokens file = .error diagnostic →
        diagnostic.report (code ++ "\n") = diagnostic.report code) ∧
    ∀ diagnostic, tokenize code file = .error diagnostic →
      (diagnostic.cause ≠ .unterminatedCharacter →
        (∀ written, ¬ CutsOff code.toList (.string written true)) →
        tokenize (code ++ "\n") file = .error diagnostic ∧
          diagnostic.report (code ++ "\n") = diagnostic.report code) ∧
      (diagnostic.cause = .unterminatedCharacter →
        CutsOff code.toList (.character false) ∨ CutsOff code.toList (.character true)) ∧
      (CutsOff code.toList (.character false) → ∃ shown, tokenize (code ++ "\n") file =
        .ok (shown ++ [⟨.character, "\n", diagnostic.line⟩,
          ⟨.endOfFile, "EOF", lineBehind (code.toList ++ ['\n'])⟩])) ∧
      (CutsOff code.toList (.character true) ∨
          (∃ written, CutsOff code.toList (.string written true)) →
        tokenize (code ++ "\n") file =
          .error ⟨.unknownEscapeCode '\n', lineBehind (code.toList ++ ['\n']), file⟩) := by
  refine ⟨fun hne hlast path contents hcontents => Source.ofFile_code hcontents hne hlast, ?_, ?_⟩
  · intro tokens htokens
    obtain ⟨parts, rfl, hbreak⟩ := tokenize_append_break htokens
    refine ⟨_, _, rfl, hbreak, parse_content_end parts _ _ file, fun diagnostic hdiagnostic => ?_⟩
    exact Rejects.report_append_break (.inr ⟨_, htokens, hdiagnostic⟩)
  · intro diagnostic hdiagnostic
    obtain ⟨parts, defect, rest, hhalts, rfl⟩ := halts_of_tokenize hdiagnostic
    refine ⟨fun hcause hcut => ?_, hhalts.cutsOff_character, fun hcut => ?_, ?_⟩
    · exact ⟨hhalts.tokenize_append_break file hcause hcut,
        Rejects.report_append_break (.inl hdiagnostic)⟩
    · obtain ⟨shown, line, hquote, hbreak⟩ := hcut.tokenize_append_break file
      rw [hdiagnostic] at hquote
      rw [Except.error.inj hquote]
      exact ⟨shown, hbreak⟩
    · rintro (hcut | ⟨written, hcut⟩)
      · have hother : (Defect.characterEscape '\n').Proper := rfl
        exact hcut.tokenize_escape file hother trivial rfl rfl
      · have hother : (Defect.stringEscape written '\n').Proper := ⟨hcut.proper, rfl⟩
        exact hcut.tokenize_escape file hother trivial rfl (by simp [Defect.text, Defect.backslash])

example : tokenize "a'\n" "" =
    .ok [⟨.identifier, "a", 1⟩, ⟨.character, "\n", 1⟩, ⟨.endOfFile, "EOF", 2⟩] := rfl

end LispReader
