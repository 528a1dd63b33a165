import LispReader.Proofs.Defects

namespace LispReader

def Part.pattern : Part → Pattern
  | blanks _ => .blanks
  | comment _ => .comment
  | opening delimiter => .opening delimiter
  | closing delimiter => .closing delimiter
  | number _ => .number
  | character _ _ => .character
  | string _ _ => .string
  | identifier _ => .identifier

namespace Lexer

variable {lexer further : Lexer} {part : Part} {rest : List Char}

theorem read_token {text : List Char} (kind : TokenKind) (hrest : lexer.rest = text ++ rest) :
    Pattern.read.token text lexer kind =
      (lexer.across text rest).push ⟨kind, String.ofList text, lexer.line⟩ := by
  have hpushed : (lexer.push ⟨kind, String.ofList text, lexer.line⟩).rest = text ++ rest := hrest
  rw [Pattern.read.token, skip_of_rest hpushed]
  rfl

theorem next?_of_part (hproper : part.Proper) (hend : Ends part.continues rest)
    (hrest : lexer.rest = part.text ++ rest) :
    ∃ found, lexer.next? = some (part.pattern, found) ∧
      part.pattern.read found lexer = .ok (lexer.past part rest) := by
  cases part with
  | blanks text =>
      refine ⟨text, next?_blanks hproper.1 hproper.2 hend hrest, ?_⟩
      exact congrArg Except.ok (skip_of_rest hrest)
  | comment text =>
      have htext : (text ++ rest).takeWhile (· ≠ '\n') = text :=
        takeWhile_of_ends (fun c hc => decide_eq_true (hproper c hc)) hend
      refine ⟨';' :: text, ?_, congrArg Except.ok (skip_of_rest hrest)⟩
      rw [← htext]
      exact next?_comment hrest
  | opening delimiter =>
      refine ⟨_, next?_opening delimiter hrest, ?_⟩
      exact congrArg Except.ok (read_token _ hrest)
  | closing delimiter =>
      refine ⟨_, next?_closing delimiter hrest, ?_⟩
      exact congrArg Except.ok (read_token _ hrest)
  | number text =>
      obtain ⟨found, hfound⟩ := next?_number hproper.starts hrest
      exact ⟨found, hfound, readNumber_of_isNumeral hrest hproper hend⟩
  | character written value =>
      exact ⟨_, next?_character hrest, readCharacter_of_writes hrest hproper⟩
  | string written value =>
      have hstring : lexer.rest = '"' :: (written ++ '"' :: rest) := by
        simpa [Part.text] using hrest
      exact ⟨_, next?_string hstring, readString_of_writes hstring hproper⟩
  | identifier text =>
      refine ⟨text, next?_identifier hproper hend hrest, ?_⟩
      exact congrArg Except.ok (read_token _ hrest)

theorem step_of_part (hproper : part.Proper) (hend : Ends part.continues rest)
    (hrest : lexer.rest = part.text ++ rest) : lexer.step = .ok (lexer.past part rest) := by
  obtain ⟨found, hfound, hread⟩ := next?_of_part hproper hend hrest
  rw [step, hfound]
  exact hread

/-- A step reads a part. It is the one that stands at the start of the rest. -/
theorem step_sound (hne : lexer.rest ≠ []) (h : lexer.step = .ok further) :
    ∃ part rest, part.Proper ∧ Ends part.continues rest ∧ lexer.rest = part.text ++ rest ∧
      further = lexer.past part rest := by
  cases Leads.of_ne_nil hne with
  | @part part rest hproper hend hrest =>
      rw [step_of_part hproper hend hrest] at h
      exact ⟨part, rest, hproper, hend, hrest, (Except.ok.inj h).symm⟩
  | @defect defect rest hproper hstops hrest =>
      rw [step_of_defect hproper hstops hrest] at h
      contradiction

@[simp]
theorem past_rest : (lexer.past part rest).rest = rest := by
  cases part <;> rfl

theorem past_line : (lexer.past part rest).line = lexer.line + part.text.count '\n' := by
  cases part <;> rfl

theorem past_tokens :
    (lexer.past part rest).tokens.toList =
      lexer.tokens.toList ++ (part.token? lexer.line).toList := by
  cases part <;> simp [past, pushAll, push, across, Part.token?]

theorem closed_eq (lexer : Lexer) :
    lexer.closed = lexer.tokens.toList ++ [⟨.endOfFile, "EOF", lexer.line⟩] := by
  simp [closed, push]

theorem steps_of_decomposes {source : List Char} {parts : List Part} {count : Nat}
    (h : Decomposes source parts) (lexer : Lexer) (hrest : lexer.rest = source)
    (hcount : source.length ≤ count) :
    ∃ final, lexer.steps count = .ok final ∧
      final.closed = lexer.tokens.toList ++ Part.tokens lexer.line parts := by
  induction h generalizing lexer count with
  | nil =>
      refine ⟨lexer, ?_, closed_eq lexer⟩
      cases count with
      | zero => rfl
      | succ count => simp [steps, atEnd, hrest]
  | @cons part rest parts hproper hend _ ih =>
      have hpos := List.length_pos_iff.mpr (Part.text_ne_nil hproper)
      rw [List.length_append] at hcount
      cases count with
      | zero => omega
      | succ count =>
          have hless : rest.length ≤ count := by omega
          obtain ⟨final, hsteps, hclosed⟩ := ih (lexer.past part rest) past_rest hless
          refine ⟨final, ?_, ?_⟩
          · have hmore : ¬ lexer.atEnd = true := by simp [atEnd, hrest, Part.text_ne_nil hproper]
            rw [steps, if_neg hmore, step_of_part hproper hend hrest]
            exact hsteps
          · rw [hclosed, past_tokens, past_line, Part.tokens, List.append_assoc]

theorem steps_sound {final : Lexer} {count : Nat} (hcount : lexer.rest.length ≤ count)
    (h : lexer.steps count = .ok final) : ∃ parts, Decomposes lexer.rest parts := by
  induction count generalizing lexer with
  | zero =>
      rw [List.length_eq_zero_iff.mp (Nat.le_zero.mp hcount)]
      exact ⟨[], .nil⟩
  | succ count ih =>
      by_cases hrest : lexer.rest = []
      · rw [hrest]
        exact ⟨[], .nil⟩
      · have hmore : ¬ lexer.atEnd = true := by simpa [atEnd] using hrest
        rw [steps, if_neg hmore] at h
        cases hstep : lexer.step with
        | error diagnostic => simp [hstep] at h
        | ok further =>
            rw [hstep] at h
            obtain ⟨part, rest, hproper, hend, hall, rfl⟩ := step_sound hrest hstep
            have hpos := List.length_pos_iff.mpr (Part.text_ne_nil hproper)
            rw [hall, List.length_append] at hcount
            obtain ⟨parts, hparts⟩ := ih (by rw [past_rest]; omega) h
            rw [past_rest] at hparts
            rw [hall]
            exact ⟨part :: parts, .cons hproper hend hparts⟩

end Lexer

theorem Part.eq_of_text {part other : Part} (hproper : part.Proper) (hproper' : other.Proper)
    (hpattern : part.pattern = other.pattern) (htext : part.text = other.text) : part = other := by
  cases part <;> cases other <;> cases hpattern
  case blanks.blanks | number.number | identifier.identifier => exact congrArg _ htext
  case comment.comment => exact congrArg _ (List.cons.inj htext).2
  case opening.opening.refl | closing.closing.refl => rfl
  case character.character written value written' value' =>
      obtain rfl : written = written' := (List.cons.inj htext).2
      obtain rfl := Writes.value_unique hproper hproper'
      rfl
  case string.string written value written' value' =>
      obtain rfl : written = written' := List.append_cancel_right (List.cons.inj htext).2
      obtain rfl := WritesText.value_unique hproper hproper'
      rfl

theorem Part.unique {part other : Part} {rest rest' : List Char} (hproper : part.Proper)
    (hproper' : other.Proper) (hend : Ends part.continues rest) (hend' : Ends other.continues rest')
    (hall : part.text ++ rest = other.text ++ rest') : part = other ∧ rest = rest' := by
  let lexer : Lexer := { Lexer.ofSource "" "" with rest := part.text ++ rest }
  have hlexer : lexer.rest = part.text ++ rest := rfl
  obtain ⟨found, hfound, hread⟩ := Lexer.next?_of_part hproper hend hlexer
  obtain ⟨found', hfound', hread'⟩ := Lexer.next?_of_part hproper' hend' (hlexer.trans hall)
  rw [hfound] at hfound'
  obtain ⟨hpattern, rfl⟩ := Prod.mk.inj (Option.some.inj hfound')
  rw [hpattern, hread'] at hread
  have hrest : rest = rest' := by
    have h := congrArg Lexer.rest (Except.ok.inj hread)
    rw [Lexer.past_rest, Lexer.past_rest] at h
    exact h.symm
  subst hrest
  exact ⟨eq_of_text hproper hproper' hpattern (List.append_cancel_right hall), rfl⟩

theorem Decomposes.unique {source : List Char} {parts others : List Part}
    (h : Decomposes source parts) (h' : Decomposes source others) : parts = others := by
  induction h generalizing others with
  | nil =>
      generalize hsource : [] = source at h'
      cases h' with
      | nil => rfl
      | cons hproper' _ _ =>
          exact absurd (List.append_eq_nil_iff.mp hsource.symm).1 (Part.text_ne_nil hproper')
  | @cons part rest parts hproper hend _ ih =>
      generalize hsource : part.text ++ rest = source at h'
      cases h' with
      | nil => exact absurd (List.append_eq_nil_iff.mp hsource).1 (Part.text_ne_nil hproper)
      | cons hproper' hend' hrest' =>
          obtain ⟨rfl, rfl⟩ := Part.unique hproper hproper' hend hend' hsource
          rw [ih hrest']

theorem tokenize_of_decomposes {source : String} {parts : List Part} (file : String)
    (h : Decomposes source.toList parts) :
    tokenize source file = .ok (Part.tokens 1 parts) := by
  obtain ⟨final, hsteps, hclosed⟩ :=
    Lexer.steps_of_decomposes h (Lexer.ofSource source file) rfl le_rfl
  have htoEnd : (Lexer.ofSource source file).toEnd = .ok final := hsteps
  rw [tokenize, htoEnd, Except.map, hclosed]
  rfl

theorem decomposes_of_tokenize {source file : String} {tokens : List Token}
    (h : tokenize source file = .ok tokens) :
    ∃ parts, Decomposes source.toList parts ∧ tokens = Part.tokens 1 parts := by
  cases hsteps : (Lexer.ofSource source file).toEnd with
  | error diagnostic =>
      rw [tokenize, hsteps] at h
      contradiction
  | ok final =>
      obtain ⟨parts, hparts⟩ := Lexer.steps_sound le_rfl hsteps
      rw [tokenize_of_decomposes file hparts] at h
      exact ⟨parts, hparts, (Except.ok.inj h).symm⟩

end LispReader
