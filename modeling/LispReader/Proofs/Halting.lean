import LispReader.Proofs.Lines
import LispReader.Proofs.Running

namespace LispReader

/-- The text is made of the parts up to the defect, and `rest` is what stands behind that. -/
inductive Halts : List Char → List Part → Defect → List Char → Prop
  | here {defect : Defect} {rest : List Char} (hproper : defect.Proper)
      (hstops : defect.Stops rest) : Halts (defect.text ++ rest) [] defect rest
  | cons {part : Part} {text rest : List Char} {parts : List Part} {defect : Defect}
      (hproper : part.Proper) (hend : Ends part.continues text)
      (hrest : Halts text parts defect rest) : Halts (part.text ++ text) (part :: parts) defect rest

theorem decomposes_or_halts (text : List Char) :
    (∃ parts, Decomposes text parts) ∨ ∃ parts defect rest, Halts text parts defect rest := by
  by_cases hne : text = []
  · rw [hne]
    exact .inl ⟨[], .nil⟩
  cases Leads.of_ne_nil hne with
  | @part part rest hproper hend htext =>
      have hpos := List.length_pos_iff.mpr (Part.text_ne_nil hproper)
      have hshorter : rest.length < text.length := by
        rw [htext, List.length_append]
        omega
      rw [htext]
      rcases decomposes_or_halts rest with ⟨parts, hparts⟩ | ⟨parts, defect, behind, hhalts⟩
      · exact .inl ⟨part :: parts, .cons hproper hend hparts⟩
      · exact .inr ⟨part :: parts, defect, behind, .cons hproper hend hhalts⟩
  | @defect defect rest hproper hstops htext =>
      rw [htext]
      exact .inr ⟨[], defect, rest, .here hproper hstops⟩
termination_by text.length

variable {text rest : List Char} {parts : List Part} {defect : Defect} {source file : String}

theorem Halts.ne_nil (h : Halts text parts defect rest) : text ≠ [] := by
  cases h with
  | here hproper _ => simp [Defect.text_ne_nil hproper]
  | cons hproper _ _ => simp [Part.text_ne_nil hproper]

theorem Halts.eq_written (h : Halts text parts defect rest) :
    text = Part.written parts ++ (defect.text ++ rest) := by
  induction h with
  | here => rfl
  | cons _ _ _ ih => rw [Part.written, List.flatMap_cons, List.append_assoc, ← Part.written, ← ih]

theorem Halts.proper (h : Halts text parts defect rest) : defect.Proper ∧ defect.Stops rest := by
  induction h with
  | here hproper hstops => exact ⟨hproper, hstops⟩
  | cons _ _ _ ih => exact ih

theorem Lexer.toEnd_of_halts (h : Halts text parts defect rest) {lexer : Lexer}
    (hrest : lexer.rest = text) :
    lexer.toEnd = .error ⟨defect.cause,
      lexer.line + (Part.written parts ++ defect.reported).count '\n', lexer.file⟩ := by
  induction h generalizing lexer with
  | here hproper hstops =>
      have hne : lexer.rest ≠ [] := by simp [hrest, Defect.text_ne_nil hproper]
      rw [toEnd_eq_bind hne, step_of_defect hproper hstops hrest]
      rfl
  | @cons part text rest parts defect hproper hend _ ih =>
      have hfile : (lexer.past part text).file = lexer.file := by cases part <;> rfl
      rw [toEnd_of_part hproper hend hrest, ih past_rest, past_line, hfile, Nat.add_assoc,
        ← List.count_append, ← List.append_assoc, Part.written, Part.written, List.flatMap_cons]

theorem tokenize_of_halts (file : String) (h : Halts source.toList parts defect rest) :
    tokenize source file =
      .error ⟨defect.cause, lineBehind (Part.written parts ++ defect.reported), file⟩ := by
  have hlexer : (Lexer.ofSource source file).rest = source.toList := rfl
  rw [tokenize, Lexer.toEnd_of_halts h hlexer]
  rfl

theorem halts_of_tokenize {diagnostic : Diagnostic}
    (h : tokenize source file = .error diagnostic) :
    ∃ parts defect rest, Halts source.toList parts defect rest ∧
      diagnostic = ⟨defect.cause, lineBehind (Part.written parts ++ defect.reported), file⟩ := by
  rcases decomposes_or_halts source.toList with ⟨parts, hparts⟩ | ⟨parts, defect, rest, hhalts⟩
  · rw [tokenize_of_decomposes file hparts] at h
    contradiction
  · rw [tokenize_of_halts file hhalts] at h
    exact ⟨parts, defect, rest, hhalts, (Except.error.inj h).symm⟩

theorem Ends.append {p : Char → Bool} (h : Ends p rest) (hne : rest ≠ []) (more : List Char) :
    Ends p (rest ++ more) := by
  cases rest with
  | nil => contradiction
  | cons c rest => exact h

/-- The defect is there whatever comes behind the rest. A literal that the end cuts off may still go
on. -/
def Defect.Lasts : Defect → List Char → Prop
  | string _ _, _ | character _, _ => False
  | trailing _, rest => rest ≠ []
  | stringEscape _ _, _ | characterEscape _, _ | malformed _ _, _ => True

theorem Defect.Stops.append (h : defect.Stops rest) (hlasts : defect.Lasts rest)
    (more : List Char) : defect.Stops (rest ++ more) := by
  cases defect with
  | string | character => contradiction
  | trailing number => exact Ends.append h hlasts more
  | stringEscape | characterEscape | malformed => trivial

/-- Where the text goes on, another defect may come of the same characters. -/
theorem Halts.replace {other : Defect} {more behind : List Char} (h : Halts text parts defect rest)
    (hproper : other.Proper) (hstops : other.Stops behind)
    (htext : defect.text ++ (rest ++ more) = other.text ++ behind) :
    Halts (text ++ more) parts other behind := by
  induction h with
  | here =>
      rw [List.append_assoc, htext]
      exact .here hproper hstops
  | cons hpart hend hrest ih =>
      rw [List.append_assoc]
      exact .cons hpart (hend.append hrest.ne_nil more) (ih htext)

theorem Halts.complete {part : Part} {more : List Char} (h : Halts text parts defect rest)
    (hproper : part.Proper) (htext : defect.text ++ (rest ++ more) = part.text) :
    Decomposes (text ++ more) (parts ++ [part]) := by
  induction h with
  | here =>
      have hend : Ends part.continues [] := by simp [Ends]
      have hpart := Decomposes.cons hproper hend .nil
      rwa [List.append_assoc, htext, ← List.append_nil part.text]
  | cons hfirst hend hrest ih =>
      rw [List.append_assoc, List.cons_append]
      exact .cons hfirst (hend.append hrest.ne_nil more) (ih htext)

theorem Halts.append (h : Halts text parts defect rest) (hlasts : defect.Lasts rest)
    (more : List Char) : Halts (text ++ more) parts defect (rest ++ more) :=
  h.replace h.proper.1 (h.proper.2.append hlasts more) rfl

theorem Defect.Stops.eq_nil (h : defect.Stops rest) (hlasts : ¬ defect.Lasts rest) : rest = [] := by
  cases defect with
  | string | character => exact h
  | trailing number => exact not_not.mp hlasts
  | stringEscape | characterEscape | malformed => exact absurd trivial hlasts

theorem BeginsNumeral.append_digit {number : List Char} {c : Char} (h : BeginsNumeral number)
    (hc : c.isDigit) : IsNumeral (number ++ [c]) := by
  refine ⟨startsNumber_append h.starts [c], ?_, h.regular.append_digit hc, ?_⟩
  · intro d hd
    cases number with
    | nil => contradiction
    | cons e number =>
        rcases List.mem_append.mp hd with hd | hd
        · exact h.chars d hd
        · rw [List.mem_singleton.mp hd]
          simp [isNumeralChar, hc]
  · intro d hd
    obtain rfl : c = d := by simpa using hd
    exact not_isSeparator_of_isDigit hc

theorem Defect.exists_part (hproper : defect.Proper) (hlasts : ¬ defect.Lasts []) :
    ∃ (part : Part) (more : List Char), part.Proper ∧ part.text = defect.text ++ more := by
  cases defect with
  | string written slash =>
      obtain ⟨value, hwritten⟩ := hproper
      cases slash with
      | false =>
          exact ⟨.string written value, ['"'], hwritten, by simp [Part.text, text, backslash]⟩
      | true =>
          have hquote : WritesText ['\\', '"'] ['"'] := .escape rfl .nil
          exact ⟨.string (written ++ ['\\', '"']) (value ++ ['"']), ['"', '"'],
            hwritten.append hquote, by simp [Part.text, text, backslash]⟩
  | character slash =>
      cases slash with
      | false =>
          have hwrites : Writes ['x'] 'x' := .raw (by decide)
          exact ⟨.character ['x'] 'x', ['x'], hwrites, rfl⟩
      | true =>
          have hwrites : Writes ['\\', 'n'] '\n' := .escape rfl
          exact ⟨.character ['\\', 'n'] '\n', ['n'], hwrites, rfl⟩
  | trailing number =>
      exact ⟨.number (number ++ ['0']), ['0'], hproper.1.append_digit rfl, rfl⟩
  | stringEscape | characterEscape | malformed => exact absurd trivial hlasts

theorem Halts.mend (h : Halts text parts defect rest) (hlasts : ¬ defect.Lasts rest) :
    ∃ more others, Decomposes (text ++ more) others := by
  obtain ⟨hproper, hstops⟩ := h.proper
  obtain rfl := hstops.eq_nil hlasts
  obtain ⟨part, more, hpart, htext⟩ := defect.exists_part hproper hlasts
  exact ⟨more, parts ++ [part], h.complete hpart htext.symm⟩

/-- What keeps a source from being read stays as it is whatever follows the source, or it is the end
that cuts off a literal, and then something mends it. A number with a separator last is of the first
kind where its literal ends before the source does. -/
theorem tokenize_error_lasts_or_mends {diagnostic : Diagnostic}
    (h : tokenize source file = .error diagnostic) :
    (∃ parts defect rest, Halts source.toList parts defect rest) ∧
    ∀ parts defect rest, Halts source.toList parts defect rest →
      diagnostic.cause = defect.cause ∧
      ((∃ number, diagnostic.cause = .malformedNumber number) ∨
          (∃ code, diagnostic.cause = .unknownEscapeCode code) ∨
          ((∃ number, diagnostic.cause = .trailingSeparator number) ∧ rest ≠ []) →
        ∀ more, tokenize (source ++ more) file = .error diagnostic) ∧
      (diagnostic.cause = .unterminatedString ∨ diagnostic.cause = .unterminatedCharacter ∨
          ((∃ number, diagnostic.cause = .trailingSeparator number) ∧ rest = []) →
        ∃ more tokens, tokenize (source ++ more) file = .ok tokens) := by
  obtain ⟨parts, defect, rest, hhalts, rfl⟩ := halts_of_tokenize h
  refine ⟨⟨parts, defect, rest, hhalts⟩, ?_⟩
  intro parts' defect' rest' hhalts'
  rw [tokenize_of_halts file hhalts'] at h
  rw [← Except.error.inj h]
  refine ⟨rfl, ?_, ?_⟩
  · intro hcause more
    have hlasts : defect'.Lasts rest' := by
      cases defect' <;> simp [Defect.cause, Defect.Lasts] at hcause ⊢
      exact hcause
    have happend := hhalts'.append hlasts more.toList
    rw [← String.toList_append] at happend
    exact tokenize_of_halts file happend
  · intro hcause
    have hlasts : ¬ defect'.Lasts rest' := by
      cases defect' <;> simp [Defect.cause, Defect.Lasts] at hcause ⊢
      exact hcause
    obtain ⟨more, others, hothers⟩ := hhalts'.mend hlasts
    refine ⟨String.ofList more, Part.tokens 1 others, tokenize_of_decomposes file ?_⟩
    rwa [String.toList_append, String.toList_ofList]

theorem one_error_lasts_and_one_mends :
    Halts "1_ x".toList [] (.trailing ['1', '_']) [' ', 'x'] ∧
      (∀ more, tokenize ("1_ x" ++ more) "" = .error ⟨.trailingSeparator "1_", 1, ""⟩) ∧
      Halts "(\"b\\".toList [.opening .paren] (.string ['b'] true) [] ∧
      ∃ more tokens, tokenize ("(\"b\\" ++ more) "" = .ok tokens := by
  have hchars : ∀ c ∈ ['_'], isNumeralChar c := by simp [isNumeralChar, isSeparator]
  have hnumber : BeginsNumeral ['1', '_'] := ⟨rfl, hchars, by decide, by decide⟩
  have htrailing : (Defect.trailing ['1', '_']).Proper := ⟨hnumber, rfl⟩
  have hend : (Defect.trailing ['1', '_']).Stops [' ', 'x'] := ends_cons _ rfl
  have hlast : Halts "1_ x".toList [] (.trailing ['1', '_']) [' ', 'x'] := .here htrailing hend
  have hstring : (Defect.string ['b'] true).Proper := ⟨['b'], .raw (by decide) (by decide) .nil⟩
  have hcut : Halts ['"', 'b', '\\'] [] (.string ['b'] true) [] := .here hstring rfl
  have hopening : (Part.opening .paren).Proper := trivial
  have hopen : Halts "(\"b\\".toList [.opening .paren] (.string ['b'] true) [] :=
    .cons hopening (fun _ _ => rfl) hcut
  have hfirst : tokenize "1_ x" "" = .error ⟨.trailingSeparator "1_", 1, ""⟩ := rfl
  have hsecond : tokenize "(\"b\\" "" = .error ⟨.unterminatedString, 1, ""⟩ := rfl
  refine ⟨hlast, ?_, hopen, ?_⟩
  · exact ((tokenize_error_lasts_or_mends hfirst).2 _ _ _ hlast).2.1
      (.inr (.inr ⟨⟨_, rfl⟩, by decide⟩))
  · exact ((tokenize_error_lasts_or_mends hsecond).2 _ _ _ hopen).2.2 (.inl rfl)

end LispReader
