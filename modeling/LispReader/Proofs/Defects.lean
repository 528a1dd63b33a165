import LispReader.Proofs.Dispatch

namespace LispReader

/-- What stands where a source cannot be read on: a literal that the end of the source cuts off,
maybe behind a backslash, or the first characters of one up to what is wrong with it. -/
inductive Defect
  | string (written : List Char) (slash : Bool)
  | character (slash : Bool)
  | stringEscape (written : List Char) (code : Char)
  | characterEscape (code : Char)
  | malformed (number : List Char) (separator : Char)
  | trailing (number : List Char)

namespace Defect

def backslash (slash : Bool) : List Char :=
  if slash then ['\\'] else []

def text : Defect → List Char
  | string written slash => '"' :: (written ++ backslash slash)
  | character slash => '\'' :: backslash slash
  | stringEscape written code => '"' :: (written ++ ['\\', code])
  | characterEscape code => ['\'', '\\', code]
  | malformed number separator => number ++ [separator]
  | trailing number => number

def Proper : Defect → Prop
  | string written _ => ∃ value, WritesText written value
  | character _ => True
  | stringEscape written code => (∃ value, WritesText written value) ∧ escaped? code = none
  | characterEscape code => escaped? code = none
  | malformed number separator =>
      BeginsNumeral number ∧ isSeparator separator ∧ ¬ IsRegular (number ++ [separator])
  | trailing number => BeginsNumeral number ∧ number.getLast?.any isSeparator

/-- What may follow. Behind an escape or a separator that cannot stand there it is anything. -/
def Stops : Defect → List Char → Prop
  | string _ _, rest | character _, rest => rest = []
  | trailing _, rest => Ends isNumeralChar rest
  | stringEscape _ _, _ | characterEscape _, _ | malformed _ _, _ => True

def cause : Defect → Cause
  | string _ _ => .unterminatedString
  | character _ => .unterminatedCharacter
  | stringEscape _ code | characterEscape code => .unknownEscapeCode code
  | malformed number separator => .malformedNumber (String.ofList (number ++ [separator]))
  | trailing number => .trailingSeparator (String.ofList number)

/-- The characters before the place that is reported. It is behind an escape, and else at the start
of the literal. -/
def reported : Defect → List Char
  | stringEscape written code => '"' :: (written ++ ['\\', code])
  | characterEscape code => ['\'', '\\', code]
  | string _ _ | character _ | malformed _ _ | trailing _ => []

theorem text_ne_nil {defect : Defect} (h : defect.Proper) : defect.text ≠ [] := by
  cases defect with
  | trailing number =>
      rintro rfl
      exact absurd h.1.starts (by decide)
  | string | character | stringEscape | characterEscape | malformed => simp [text]

end Defect

namespace Lexer

variable {lexer : Lexer} {rest : List Char}

theorem step_of_quote {body : List Char} (hrest : lexer.rest = '"' :: body) :
    lexer.step = readText lexer [] body (lexer.line + ['"'].count '\n') := by
  rw [step, next?_string hrest]
  exact readString_of_quote hrest

theorem step_of_string {written : List Char} (slash : Bool)
    (h : ∃ value, WritesText written value)
    (hrest : lexer.rest = '"' :: (written ++ Defect.backslash slash)) :
    lexer.step = .error ⟨.unterminatedString, lexer.line, lexer.file⟩ := by
  obtain ⟨value, hwritten⟩ := h
  rw [step_of_quote hrest, readText_append hwritten]
  cases slash <;> rfl

theorem step_of_stringEscape {written : List Char} {code : Char}
    (h : ∃ value, WritesText written value) (hcode : escaped? code = none)
    (hrest : lexer.rest = '"' :: (written ++ '\\' :: code :: rest)) :
    lexer.step = .error ⟨.unknownEscapeCode code,
      lexer.line + ('"' :: (written ++ ['\\', code])).count '\n', lexer.file⟩ := by
  obtain ⟨value, hwritten⟩ := h
  rw [step_of_quote hrest, readText_append hwritten]
  simp [readText, hcode, lineAfter_eq, List.count_cons, Nat.add_assoc]

theorem step_of_character (slash : Bool) (hrest : lexer.rest = '\'' :: Defect.backslash slash) :
    lexer.step = .error ⟨.unterminatedCharacter, lexer.line, lexer.file⟩ := by
  rw [step, next?_character hrest]
  change lexer.readCharacter = _
  rw [readCharacter, advance_of_rest hrest]
  cases slash <;> rfl

theorem step_of_characterEscape {code : Char} (hcode : escaped? code = none)
    (hrest : lexer.rest = '\'' :: '\\' :: code :: rest) :
    lexer.step = .error ⟨.unknownEscapeCode code, lexer.line + ['\'', '\\', code].count '\n',
      lexer.file⟩ := by
  have hbody : (lexer.across ['\''] ('\\' :: code :: rest)).rest = ['\\', code] ++ rest := rfl
  have hskip : (lexer.across ['\''] ('\\' :: code :: rest)).skip 2 =
      (lexer.across ['\''] ('\\' :: code :: rest)).across ['\\', code] rest := skip_of_rest hbody
  rw [across_across] at hskip
  rw [step, next?_character hrest]
  change lexer.readCharacter = _
  rw [readCharacter, advance_of_rest hrest]
  simp only [across, hcode] at hskip ⊢
  rw [hskip]
  rfl

theorem step_of_malformed {number : List Char} {separator : Char} (h : BeginsNumeral number)
    (hseparator : isSeparator separator) (hbad : ¬ IsRegular (number ++ [separator]))
    (hrest : lexer.rest = number ++ separator :: rest) :
    lexer.step = .error ⟨.malformedNumber (String.ofList (number ++ [separator])), lexer.line,
      lexer.file⟩ := by
  obtain ⟨found, hfound⟩ := next?_number h.starts hrest
  rw [step, hfound]
  change lexer.readNumber = _
  rw [readNumber, hrest, Numeral.signed_append h,
    Numeral.read_irregular h.regular hseparator hbad]
  rfl

theorem step_of_trailing {number : List Char} (h : BeginsNumeral number)
    (hlast : number.getLast?.any isSeparator) (hend : Ends isNumeralChar rest)
    (hrest : lexer.rest = number ++ rest) :
    lexer.step = .error ⟨.trailingSeparator (String.ofList number), lexer.line, lexer.file⟩ := by
  obtain ⟨found, hfound⟩ := next?_number h.starts hrest
  have hseparated : (Numeral.ofText number).separated = true := hlast
  rw [step, hfound]
  change lexer.readNumber = _
  rw [readNumber, hrest, Numeral.signed_append h, Numeral.read_of_ends _ hend]
  simp only [hseparated, if_true]
  simp [diagnostic, Numeral.rawText, Numeral.ofText]

theorem step_of_defect {defect : Defect} (hproper : defect.Proper) (hstops : defect.Stops rest)
    (hrest : lexer.rest = defect.text ++ rest) :
    lexer.step = .error ⟨defect.cause, lexer.line + defect.reported.count '\n', lexer.file⟩ := by
  cases defect with
  | string written slash =>
      obtain rfl : rest = [] := hstops
      exact step_of_string slash hproper (by simpa [Defect.text] using hrest)
  | character slash =>
      obtain rfl : rest = [] := hstops
      exact step_of_character slash (by simpa [Defect.text] using hrest)
  | stringEscape written code =>
      exact step_of_stringEscape hproper.1 hproper.2 (by simpa [Defect.text] using hrest)
  | characterEscape code => exact step_of_characterEscape hproper hrest
  | malformed number separator =>
      exact step_of_malformed hproper.1 hproper.2.1 hproper.2.2
        (by simpa [Defect.text] using hrest)
  | trailing number => exact step_of_trailing hproper.1 hproper.2 hstops hrest

end Lexer

theorem exists_writesText (body : List Char) :
    ∃ written value, WritesText written value ∧
      ((∃ rest, body = written ++ '"' :: rest) ∨
        (∃ slash, body = written ++ Defect.backslash slash) ∨
        ∃ code rest, body = written ++ '\\' :: code :: rest ∧ escaped? code = none) := by
  match body with
  | [] => exact ⟨[], [], .nil, .inr (.inl ⟨false, rfl⟩)⟩
  | c :: body =>
      by_cases hquote : c = '"'
      · subst c
        exact ⟨[], [], .nil, .inl ⟨body, rfl⟩⟩
      by_cases hslash : c = '\\'
      · subst c
        match body with
        | [] => exact ⟨[], [], .nil, .inr (.inl ⟨true, rfl⟩)⟩
        | code :: body =>
            cases hcode : escaped? code with
            | none => exact ⟨[], [], .nil, .inr (.inr ⟨code, body, rfl, hcode⟩)⟩
            | some d =>
                obtain ⟨written, value, hwritten, hbody⟩ := exists_writesText body
                refine ⟨'\\' :: code :: written, d :: value, .escape hcode hwritten, ?_⟩
                simpa using hbody
      · obtain ⟨written, value, hwritten, hbody⟩ := exists_writesText body
        refine ⟨c :: written, c :: value, .raw hslash hquote hwritten, ?_⟩
        simpa using hbody

theorem start_cases (c : Char) (rest : List Char) :
    Pattern.isBlank c ∨ c = ';' ∨ (∃ delimiter, c = Delimiter.opener delimiter) ∨
      (∃ delimiter, c = Delimiter.closer delimiter) ∨ startsNumber (c :: rest) ∨ c = '\'' ∨
      c = '"' ∨ (Pattern.isIdentifierChar c ∧ c ≠ '[' ∧ c ≠ ']' ∧
        startsNumber (c :: rest) = false) := by
  by_cases hopener : ∃ delimiter, c = Delimiter.opener delimiter
  · simp [hopener]
  by_cases hcloser : ∃ delimiter, c = Delimiter.closer delimiter
  · simp [hcloser]
  by_cases hblank : Pattern.isBlank c = true
  · simp [hblank]
  by_cases hmark : c = ';' ∨ c = '\'' ∨ c = '"'
  · rcases hmark with rfl | rfl | rfl <;> simp
  by_cases hnumber : startsNumber (c :: rest) = true
  · simp [hnumber]
  have hne (delimiter : Delimiter) : c ≠ delimiter.opener ∧ c ≠ delimiter.closer :=
    ⟨fun h => hopener ⟨delimiter, h⟩, fun h => hcloser ⟨delimiter, h⟩⟩
  have hparen : c ≠ '(' ∧ c ≠ ')' := hne .paren
  have hbracket : c ≠ '[' ∧ c ≠ ']' := hne .bracket
  rw [not_or, not_or] at hmark
  rw [Bool.not_eq_true] at hblank hnumber
  have hidentifier : Pattern.isIdentifierChar c = true := by
    simp [Pattern.isIdentifierChar, hblank, hmark, hparen]
  simp [hidentifier, hbracket, hnumber]

inductive Leads (text : List Char) : Prop
  | part {part : Part} {rest : List Char} (hproper : part.Proper) (hend : Ends part.continues rest)
      (htext : text = part.text ++ rest) : Leads text
  | defect {defect : Defect} {rest : List Char} (hproper : defect.Proper)
      (hstops : defect.Stops rest) (htext : text = defect.text ++ rest) : Leads text

namespace Leads

theorem of_run {p : Char → Bool} {part : Part} {text : List Char} (hproper : part.Proper)
    (hcontinues : part.continues = p) (htext : part.text = text.takeWhile p) : Leads text := by
  have hend : Ends part.continues (text.dropWhile p) := by
    rw [hcontinues]
    exact ends_dropWhile p text
  refine .part hproper hend ?_
  rw [htext, List.takeWhile_append_dropWhile]

theorem of_blank {c : Char} (rest : List Char) (hc : Pattern.isBlank c) : Leads (c :: rest) := by
  have hproper : (Part.blanks ((c :: rest).takeWhile Pattern.isBlank)).Proper :=
    ⟨by simp [hc], fun d hd => List.mem_takeWhile_imp hd⟩
  exact of_run hproper rfl rfl

theorem of_comment (rest : List Char) : Leads (';' :: rest) := by
  have hproper : (Part.comment (rest.takeWhile (· ≠ '\n'))).Proper := by
    intro d hd
    simpa using List.mem_takeWhile_imp hd
  refine .part hproper (ends_dropWhile (· ≠ '\n') rest) ?_
  rw [Part.text, List.cons_append, List.takeWhile_append_dropWhile]

theorem of_number {text : List Char} (h : startsNumber text) : Leads text := by
  obtain ⟨number, rest, rfl, hbegins, hend | ⟨c, more, rfl, hseparator, hbad⟩⟩ :=
    exists_beginsNumeral h
  · by_cases hlast : number.getLast?.any isSeparator = true
    · have hproper : (Defect.trailing number).Proper := ⟨hbegins, hlast⟩
      exact .defect hproper hend rfl
    · have hproper : (Part.number number).Proper := by
        refine ⟨hbegins.starts, hbegins.chars, hbegins.regular, fun c hc hseparator => hlast ?_⟩
        rw [Option.mem_def.mp hc]
        exact hseparator
      exact .part hproper hend rfl
  · have hproper : (Defect.malformed number c).Proper := ⟨hbegins, hseparator, hbad⟩
    have hmore : (Defect.malformed number c).Stops more := trivial
    exact .defect hproper hmore (by simp [Defect.text])

theorem of_character (body : List Char) : Leads ('\'' :: body) := by
  have hcut (slash : Bool) : Leads ('\'' :: Defect.backslash slash) := by
    have hproper : (Defect.character slash).Proper := trivial
    exact .defect hproper (Eq.refl []) (by simp [Defect.text])
  match body with
  | [] => exact hcut false
  | c :: body =>
      by_cases hslash : c = '\\'
      · subst c
        match body with
        | [] => exact hcut true
        | code :: rest =>
            cases hcode : escaped? code with
            | none =>
                have hproper : (Defect.characterEscape code).Proper := hcode
                exact .defect hproper trivial rfl
            | some c =>
                have hproper : (Part.character ['\\', code] c).Proper := .escape hcode
                exact .part hproper (fun _ _ => rfl) rfl
      · have hproper : (Part.character [c] c).Proper := .raw hslash
        exact .part hproper (fun _ _ => rfl) rfl

theorem of_string (body : List Char) : Leads ('"' :: body) := by
  obtain ⟨written, value, hwritten, ⟨rest, rfl⟩ | ⟨slash, rfl⟩ | ⟨code, rest, rfl, hcode⟩⟩ :=
    exists_writesText body
  · have hproper : (Part.string written value).Proper := hwritten
    have hend : Ends (Part.string written value).continues rest := fun _ _ => rfl
    exact .part hproper hend (by simp [Part.text])
  · have hproper : (Defect.string written slash).Proper := ⟨value, hwritten⟩
    exact .defect hproper (Eq.refl []) (by simp [Defect.text])
  · have hproper : (Defect.stringEscape written code).Proper := ⟨⟨value, hwritten⟩, hcode⟩
    have hrest : (Defect.stringEscape written code).Stops rest := trivial
    exact .defect hproper hrest (by simp [Defect.text])

theorem of_identifier {c : Char} {rest : List Char} (hc : Pattern.isIdentifierChar c)
    (hopener : c ≠ '[') (hcloser : c ≠ ']') (hnumber : startsNumber (c :: rest) = false) :
    Leads (c :: rest) := by
  have hsplit := List.takeWhile_append_dropWhile (p := Pattern.isIdentifierChar) (l := c :: rest)
  have hnumber' : startsNumber ((c :: rest).takeWhile Pattern.isIdentifierChar) = false := by
    by_contra h
    rw [Bool.not_eq_false] at h
    have happend := startsNumber_append h ((c :: rest).dropWhile Pattern.isIdentifierChar)
    rw [hsplit, hnumber] at happend
    contradiction
  have hproper : (Part.identifier ((c :: rest).takeWhile Pattern.isIdentifierChar)).Proper :=
    ⟨by simp [hc], fun d hd => List.mem_takeWhile_imp hd, by simp [hc, hopener],
      by simp [hc, hcloser], hnumber'⟩
  exact of_run hproper rfl rfl

theorem of_ne_nil {text : List Char} (hne : text ≠ []) : Leads text := by
  cases text with
  | nil => contradiction
  | cons c rest =>
      rcases start_cases c rest with hc | rfl | ⟨delimiter, rfl⟩ | ⟨delimiter, rfl⟩ | hc | rfl |
        rfl | ⟨hc, hopener, hcloser, hnumber⟩
      · exact of_blank rest hc
      · exact of_comment rest
      · have hproper : (Part.opening delimiter).Proper := trivial
        exact .part hproper (fun _ _ => rfl) rfl
      · have hproper : (Part.closing delimiter).Proper := trivial
        exact .part hproper (fun _ _ => rfl) rfl
      · exact of_number hc
      · exact of_character rest
      · exact of_string rest
      · exact of_identifier hc hopener hcloser hnumber

end Leads

end LispReader
