import LispReader.Proofs.Halting
import LispReader.Proofs.OpenScopes
import LispReader.Proofs.Reports

namespace LispReader

/-- The part stands in the source between `before` and the parts `later`, and inside the scopes
`opened`, the innermost first. -/
def Part.Follows (part : Part) (opened : List Opener) (before : List Char) (later : List Part)
    (source : List Char) : Prop :=
  ∃ earlier forms, Decomposes source (earlier ++ part :: later) ∧ before = Part.written earlier ∧
    Opens (Part.content [] earlier) opened forms

/-- What stands behind `before` keeps the source from being read, for that cause: a literal that is
none, a delimiter that cannot stand there, a number that has no value or an opening delimiter behind
which all scopes are closed but its own. An escape that is none is reported elsewhere. -/
inductive Offends (source : List Char) : Cause → List Char → List Char → Prop
  | defect {parts : List Part} {defect : Defect} {rest : List Char}
      (hhalts : Halts source parts defect rest)
      (hcause : ∀ code, defect.cause ≠ .unknownEscapeCode code) :
      Offends source defect.cause (Part.written parts) defect.text
  | tooDeep {delimiter : Delimiter} {opened : List Opener} {before : List Char} {later : List Part}
      (hpart : (Part.opening delimiter).Follows opened before later source)
      (hdepth : maxDepth ≤ opened.length) :
      Offends source (.nestingTooDeep maxDepth) before [delimiter.opener]
  | unexpected {delimiter : Delimiter} {opened : List Opener} {before : List Char}
      {later : List Part} (hpart : (Part.closing delimiter).Follows opened before later source)
      (hinnermost : ∀ innermost ∈ opened.head?, innermost.delimiter ≠ delimiter) :
      Offends source (.unexpectedToken (Scan.closingName delimiter)) before [delimiter.closer]
  | unreadableNumber {text : List Char} {opened : List Opener} {before : List Char}
      {later : List Part} (hpart : (Part.number text).Follows opened before later source)
      (hdot : '.' ∈ text) (hvalue : Number.finite? (text.filter (· ≠ '_')) = none) :
      Offends source (.unreadableNumber (String.ofList (text.filter (· ≠ '_')))) before text
  | unreadableInteger {text : List Char} {opened : List Opener} {before : List Char}
      {later : List Part} (hpart : (Part.number text).Follows opened before later source)
      (hdot : '.' ∉ text) (hvalue : Number.integer? (text.filter (· ≠ '_')) = none) :
      Offends source (.unreadableInteger (String.ofList (text.filter (· ≠ '_')))) before text
  | unclosed {delimiter : Delimiter} {opened : List Opener} {before : List Char}
      {later : List Part} {levels : Nat} {forms : List Form}
      (hpart : (Part.opening delimiter).Follows opened before later source)
      (hlater : Spells levels (Part.content (before ++ [delimiter.opener]) later) forms) :
      Offends source (.unterminatedScope delimiter) before [delimiter.opener]

variable {source before construct : List Char} {part : Part} {opened : List Opener}
  {later : List Part} {cause : Cause}

theorem Part.Follows.eq_append (h : part.Follows opened before later source) :
    source = before ++ (part.text ++ Part.written later) := by
  obtain ⟨earlier, forms, hparts, rfl, -⟩ := h
  rw [Part.eq_written_of_decomposes hparts]
  simp [Part.written]

theorem Part.Follows.proper (h : part.Follows opened before later source) : part.Proper := by
  obtain ⟨earlier, forms, hparts, -, -⟩ := h
  exact hparts.proper part (by simp)

theorem isBlank_of_isDigit {c : Char} (h : c.isDigit) : Text.isBlank c = false := by
  have hbounds : 48 ≤ c.toNat ∧ c.toNat ≤ 57 := by
    simpa [Char.isDigit, UInt32.le_iff_toNat_le] using h
  simp [Text.isBlank]
  omega

theorem BeginsNumeral.exists_head {number : List Char} (h : BeginsNumeral number) :
    ∃ c rest, number = c :: rest ∧ Text.isBlank c = false := by
  obtain ⟨c, rest, hnumber, rfl | hc⟩ := startsNumber_head h.starts
  · exact ⟨'-', rest, hnumber, rfl⟩
  · exact ⟨c, rest, hnumber, isBlank_of_isDigit hc⟩

theorem BeginsNumeral.unbroken {number : List Char} (h : BeginsNumeral number) :
    '\n' ∉ number := by
  obtain ⟨c, rest, rfl, hc⟩ := h.exists_head
  intro hmem
  rcases List.mem_cons.mp hmem with rfl | hrest
  · contradiction
  · exact absurd (h.chars '\n' hrest) (by decide)

theorem Scan.step_number {token : Token} (hkind : token.kind = .number) :
    Scan.step opened token =
      if Number.finite? token.lexeme.toList = none then .error (.unreadableNumber token.lexeme)
      else .ok opened := by
  simp [Scan.step, hkind]

theorem Scan.step_integer {token : Token} (hkind : token.kind = .integer) :
    Scan.step opened token =
      if Number.integer? token.lexeme.toList = none then .error (.unreadableInteger token.lexeme)
      else .ok opened := by
  simp [Scan.step, hkind]

namespace Offends

theorem exists_behind (h : Offends source cause before construct) :
    ∃ behind, source = before ++ (construct ++ behind) := by
  cases h with
  | defect hhalts _ => exact ⟨_, hhalts.eq_written⟩
  | tooDeep hpart _ => exact ⟨_, hpart.eq_append⟩
  | unexpected hpart _ => exact ⟨_, hpart.eq_append⟩
  | unreadableNumber hpart _ _ => exact ⟨_, hpart.eq_append⟩
  | unreadableInteger hpart _ _ => exact ⟨_, hpart.eq_append⟩
  | unclosed hpart _ => exact ⟨_, hpart.eq_append⟩

theorem exists_head (h : Offends source cause before construct) :
    ∃ c rest, construct = c :: rest ∧ Text.isBlank c = false := by
  cases h with
  | @defect parts defect rest hhalts hcause =>
      have hproper := hhalts.proper.1
      cases defect with
      | string | character => exact ⟨_, _, rfl, by decide⟩
      | stringEscape written code | characterEscape code => exact absurd rfl (hcause code)
      | malformed number separator =>
          obtain ⟨c, rest, rfl, hc⟩ := hproper.1.exists_head
          exact ⟨c, _, rfl, hc⟩
      | trailing number => exact hproper.1.exists_head
  | @tooDeep delimiter | @unclosed delimiter =>
      exact ⟨_, _, rfl, by cases delimiter <;> decide⟩
  | @unexpected delimiter => exact ⟨_, _, rfl, by cases delimiter <;> decide⟩
  | unreadableNumber hpart _ _ => exact (IsNumeral.begins hpart.proper).exists_head
  | unreadableInteger hpart _ _ => exact (IsNumeral.begins hpart.proper).exists_head

theorem unbroken_payload (h : Offends source cause before construct) :
    Text.Unbroken cause.payload := by
  have hnumber {text : List Char} (htext : IsNumeral text) :
      Text.Unbroken (String.ofList (text.filter (· ≠ '_'))) :=
    Text.unbroken_ofList fun hmem => htext.begins.unbroken (List.mem_of_mem_filter hmem)
  cases h with
  | @defect parts defect rest hhalts hcause =>
      have hproper := hhalts.proper.1
      cases defect with
      | string | character => exact Text.unbroken_empty
      | stringEscape written code | characterEscape code => exact absurd rfl (hcause code)
      | malformed number separator =>
          have hseparator : '\n' ≠ separator := by
            rintro rfl
            exact absurd hproper.2.1 (by decide)
          exact Text.unbroken_ofList (by simp [hproper.1.unbroken, hseparator])
      | trailing number => exact Text.unbroken_ofList hproper.1.unbroken
  | tooDeep | unclosed => exact Text.unbroken_empty
  | @unexpected delimiter => cases delimiter <;> decide
  | unreadableNumber hpart _ _ => exact hnumber hpart.proper
  | unreadableInteger hpart _ _ => exact hnumber hpart.proper

theorem cause_ne (h : Offends source cause before construct) (code : Char) :
    cause ≠ .unknownEscapeCode code := by
  cases h with
  | defect _ hcause => exact hcause code
  | tooDeep | unexpected | unreadableNumber | unreadableInteger | unclosed => simp

theorem of_step {token : Token} (hpart : part.Follows opened before later source)
    (htoken : part.token? (lineBehind before) = some token)
    (hstep : Scan.step opened token = .error cause) : Offends source cause before part.text := by
  cases part with
  | blanks | comment => contradiction
  | opening delimiter =>
      obtain rfl := Option.some.inj htoken
      by_cases hdepth : opened.length < maxDepth
      · simp [Scan.step, hdepth] at hstep
      · obtain rfl : .nestingTooDeep maxDepth = cause := by simpa [Scan.step, hdepth] using hstep
        exact .tooDeep hpart (Nat.le_of_not_lt hdepth)
  | closing delimiter =>
      obtain rfl := Option.some.inj htoken
      by_cases hmatch : ∃ outer innermost, opened = innermost :: outer ∧
          innermost.delimiter = delimiter
      · obtain ⟨outer, innermost, rfl, hdelimiter⟩ := hmatch
        simp [Scan.step, hdelimiter] at hstep
      · have hinnermost : ∀ innermost ∈ opened.head?, innermost.delimiter ≠ delimiter := by
          intro innermost hhead hdelimiter
          obtain ⟨outer, hopened⟩ := List.head?_eq_some_iff.mp hhead
          exact hmatch ⟨outer, innermost, hopened, hdelimiter⟩
        obtain rfl : .unexpectedToken (Scan.closingName delimiter) = cause := by
          cases opened with
          | nil => simpa [Scan.step] using hstep
          | cons innermost outer =>
              simpa [Scan.step, hinnermost innermost rfl] using hstep
        exact .unexpected hpart hinnermost
  | number text =>
      obtain rfl := Option.some.inj htoken
      by_cases hdot : '.' ∈ text
      · rw [Scan.step_number (by simp [hdot]), String.toList_ofList] at hstep
        split at hstep
        · next hvalue =>
            obtain rfl := Except.error.inj hstep
            exact .unreadableNumber hpart hdot hvalue
        · contradiction
      · rw [Scan.step_integer (by simp [hdot]), String.toList_ofList] at hstep
        split at hstep
        · next hvalue =>
            obtain rfl := Except.error.inj hstep
            exact .unreadableInteger hpart hdot hvalue
        · contradiction
  | character written value =>
      obtain rfl := Option.some.inj htoken
      simp [Scan.step] at hstep
  | string | identifier =>
      obtain rfl := Option.some.inj htoken
      simp [Scan.step] at hstep

theorem of_fails {parts : List Part} {line : Nat} (hparts : Decomposes source parts)
    (h : Scan.Fails (Part.content [] parts) cause line) :
    ∃ before construct, Offends source cause before construct ∧ line = lineBehind before := by
  cases h with
  | token hcontent hearlier hstep =>
      obtain ⟨earlier, part, later, rfl, rfl, htoken, -⟩ := Part.content_eq_append_cons hcontent
      rw [List.nil_append] at htoken
      exact ⟨_, _, of_step ⟨earlier, _, hparts, rfl, hearlier⟩ htoken hstep,
        Part.line_of_token? htoken⟩
  | unclosed htokens =>
      generalize hcontent : Part.content [] parts = tokens at htokens
      cases htokens with
      | scope houter hopening hinner =>
          obtain ⟨earlier, part, later, rfl, rfl, htoken, hlater⟩ :=
            Part.content_eq_append_cons hcontent
          rw [List.nil_append] at htoken hlater
          obtain rfl := (Part.eq_of_delimiter htoken _).1 hopening
          rw [← hlater] at hinner
          exact ⟨_, _, .unclosed ⟨earlier, _, hparts, rfl, houter⟩ hinner,
            Part.line_of_token? htoken⟩

end Offends

/-- The source cannot be parted, or its tokens are not those of forms. -/
def Rejects (source file : String) (diagnostic : Diagnostic) : Prop :=
  tokenize source file = .error diagnostic ∨
    ∃ tokens, tokenize source file = .ok tokens ∧ parse tokens file = .error diagnostic

/-- An escape that is none ends right behind `before`, in a source with that start. -/
def EscapeEnds (source : List Char) (code : Char) (before : List Char) : Prop :=
  escaped? code = none ∧
    ∃ earlier behind, before = earlier ++ ['\\', code] ∧ source = before ++ behind

theorem Halts.escapeEnds {parts : List Part} {defect : Defect} {rest : List Char} {code : Char}
    (h : Halts source parts defect rest) (hcause : defect.cause = .unknownEscapeCode code) :
    EscapeEnds source code (Part.written parts ++ defect.reported) := by
  have hproper := h.proper.1
  have hsource := h.eq_written
  cases defect with
  | stringEscape written other =>
      obtain rfl := Cause.unknownEscapeCode.inj hcause
      refine ⟨hproper.2, Part.written parts ++ '"' :: written, rest, ?_, ?_⟩
      · simp [Defect.reported]
      · simpa [Defect.reported, Defect.text] using hsource
  | characterEscape other =>
      obtain rfl := Cause.unknownEscapeCode.inj hcause
      refine ⟨hproper, Part.written parts ++ ['\''], rest, ?_, ?_⟩
      · simp [Defect.reported]
      · simpa [Defect.reported, Defect.text] using hsource
  | string | character | malformed | trailing => contradiction

variable {file : String} {diagnostic : Diagnostic}

theorem Rejects.cases {source : String} (h : Rejects source file diagnostic) :
    diagnostic.file = file ∧
      ((∃ before construct, Offends source.toList diagnostic.cause before construct ∧
          diagnostic.line = lineBehind before) ∨
        ∃ code before, diagnostic.cause = .unknownEscapeCode code ∧
          EscapeEnds source.toList code before ∧ diagnostic.line = lineBehind before) := by
  rcases h with h | ⟨tokens, htokens, h⟩
  · obtain ⟨parts, defect, rest, hhalts, rfl⟩ := halts_of_tokenize h
    refine ⟨rfl, ?_⟩
    by_cases hescape : ∃ code, defect.cause = .unknownEscapeCode code
    · obtain ⟨code, hcode⟩ := hescape
      exact .inr ⟨code, _, hcode, hhalts.escapeEnds hcode, rfl⟩
    · rw [not_exists] at hescape
      have hreported : defect.reported = [] := by
        cases defect with
        | stringEscape written code | characterEscape code => exact absurd rfl (hescape code)
        | string | character | malformed | trailing => rfl
      rw [hreported, List.append_nil]
      exact .inl ⟨_, _, .defect hhalts hescape, rfl⟩
  · obtain ⟨parts, hparts, rfl⟩ := decomposes_of_tokenize htokens
    obtain ⟨cause, line, hfault, rfl⟩ := fault_of_parse h
    refine ⟨rfl, .inl ?_⟩
    have hcontent : beforeEnd (Part.tokens 1 parts) = Part.content [] parts := by
      have htokens : Part.tokens (lineBehind []) parts = _ := Part.tokens_eq_content [] parts
      rw [lineBehind, List.count_nil] at htokens
      rw [htokens, Part.beforeEnd_content [] parts rfl]
    have hkinds : ∀ token ∈ Part.content [] parts, token.kind ≠ .endOfFile :=
      fun token htoken => Part.kind_of_mem_content htoken
    rw [hcontent] at hfault
    exact Offends.of_fails hparts (Scan.fails_of_fault .nil hkinds hfault)

theorem Rejects.exists_place {source : String} (h : Rejects source file diagnostic) :
    ∃ before behind, source.toList = before ++ behind ∧ diagnostic.line = lineBehind before := by
  obtain ⟨-, ⟨before, construct, hoffends, hline⟩ | ⟨code, before, -, hescape, hline⟩⟩ := h.cases
  · obtain ⟨behind, hsource⟩ := hoffends.exists_behind
    exact ⟨before, _, hsource, hline⟩
  · obtain ⟨-, earlier, behind, -, hsource⟩ := hescape
    exact ⟨before, behind, hsource, hline⟩

/-- Whatever keeps a source from being read is reported with the line on which it begins. It stands
on the line that is shown, and no line of the report is broken. -/
theorem report_shows_offence {source : String} (hfile : '\n' ∉ file.toList)
    (h : Rejects source file diagnostic) :
    diagnostic.file = file ∧ 1 ≤ diagnostic.line ∧
    diagnostic.line ≤ 1 + source.toList.count '\n' ∧
    (∃ text, Text.line? source.toList diagnostic.line = some text) ∧
    (∀ code, diagnostic.cause = .unknownEscapeCode code →
      ∃ before, EscapeEnds source.toList code before ∧ diagnostic.line = lineBehind before) ∧
    ((∀ code, diagnostic.cause ≠ .unknownEscapeCode code) →
      ∃ before c rest behind, Offends source.toList diagnostic.cause before (c :: rest) ∧
        source.toList = before ++ c :: (rest ++ behind) ∧ diagnostic.line = lineBehind before ∧
        ∃ shown, diagnostic.Shows source (Text.lastLine before) c
          ((rest ++ behind).takeWhile (· ≠ '\n')) shown) := by
  obtain ⟨rfl, hcases⟩ := h.cases
  obtain ⟨front, tail, hsource, hfront⟩ := h.exists_place
  refine ⟨rfl, ?_, ?_, ?_, ?_, ?_⟩
  · rw [hfront, lineBehind]
    exact Nat.le_add_right 1 _
  · rw [hfront, lineBehind, hsource, List.count_append]
    omega
  · rw [hfront, hsource, Text.line?_append]
    exact ⟨_, rfl⟩
  · intro code hcode
    rcases hcases with ⟨before, construct, hoffends, -⟩ | ⟨other, before, hother, hescape, hline⟩
    · exact absurd hcode (hoffends.cause_ne code)
    · rw [hcode] at hother
      obtain rfl := Cause.unknownEscapeCode.inj hother
      exact ⟨before, hescape, hline⟩
  · intro hcause
    rcases hcases with ⟨before, construct, hoffends, hline⟩ | ⟨code, before, hcode, -⟩
    · obtain ⟨c, rest, rfl, hc⟩ := hoffends.exists_head
      obtain ⟨behind, hsource⟩ := hoffends.exists_behind
      have htext : Text.line? source.toList diagnostic.line = some (Text.withoutReturn
          (Text.lastLine before ++ c :: (rest ++ behind).takeWhile (· ≠ '\n'))) := by
        have hbreak : c ≠ '\n' := by
          rintro rfl
          contradiction
        rw [hsource, hline, Text.line?_append]
        simp [hbreak]
      exact ⟨before, c, rest, behind, hoffends, hsource, hline,
        Diagnostic.shows_of_line hoffends.unbroken_payload hfile hc htext⟩
    · exact absurd hcode (hcause code)

theorem report_shows_bracket :
    '\n' ∉ "f".toList ∧
      Rejects "(a\n \t ]x \r\n" "f" ⟨.unexpectedToken "Right Bracket", 2, "f"⟩ ∧
      ∃ before c rest behind,
        Offends "(a\n \t ]x \r\n".toList (.unexpectedToken "Right Bracket") before (c :: rest) ∧
        2 = lineBehind before ∧
        Diagnostic.Shows ⟨.unexpectedToken "Right Bracket", 2, "f"⟩ "(a\n \t ]x \r\n"
          (Text.lastLine before) c ((rest ++ behind).takeWhile (· ≠ '\n')) [']', 'x'] ∧
        Diagnostic.report ⟨.unexpectedToken "Right Bracket", 2, "f"⟩ "(a\n \t ]x \r\n" =
          "Error: UnexpectedToken " ++
            "(Unexpected token: `Right Bracket`, is a delimiter unbalanced?)\n" ++
          "unexpected token \"Right Bracket\" while parsing at line 2\n" ++
          "-> f\n" ++ "  |\n" ++ "2 | ]x\n" ++ "  |\n" := by
  have hfile : '\n' ∉ "f".toList := by decide
  have htokens : tokenize "(a\n \t ]x \r\n" "f" = .ok [⟨.opening .paren, "(", 1⟩,
      ⟨.identifier, "a", 1⟩, ⟨.closing .bracket, "]", 2⟩, ⟨.identifier, "x", 2⟩,
      ⟨.endOfFile, "EOF", 3⟩] := rfl
  have hrejects : Rejects "(a\n \t ]x \r\n" "f" ⟨.unexpectedToken "Right Bracket", 2, "f"⟩ :=
    .inr ⟨_, htokens, parse_of_fault "f" rfl⟩
  obtain ⟨-, -, -, -, -, hshows⟩ := report_shows_offence hfile hrejects
  obtain ⟨before, c, rest, behind, hoffends, -, hline, shown, hshown⟩ := hshows (by simp)
  have htext : Text.line? "(a\n \t ]x \r\n".toList 2 = some [' ', '\t', ' ', ']', 'x', ' '] := rfl
  have hsame := Option.some.inj (htext.symm.trans hshown.line)
  have hvalue : shown = [']', 'x'] := by
    rw [hshown.trimmed, ← hsame]
    rfl
  rw [hvalue] at hshown
  refine ⟨hfile, hrejects, before, c, rest, behind, hoffends, hline, hshown,
    hshown.report.trans ?_⟩
  decide +kernel

end LispReader
