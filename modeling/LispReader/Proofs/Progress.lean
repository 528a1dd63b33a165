import LispReader.Proofs.Running
import LispReader.Proofs.Slices

namespace LispReader

open String (utf8Len utf8Len_append)

namespace Lexer

variable {lexer further reached : Lexer} {consumed : List Char} {part : Part} {rest : List Char}

structure GoesOn (lexer further : Lexer) : Prop where
  text : ∃ c text, lexer.rest = c :: text ++ further.rest ∧
    further.offset = lexer.offset + utf8Len (c :: text)
  token : ∃ token? : Option Token, further.tokens.toList = lexer.tokens.toList ++ token?.toList

/-- So many rounds of a loop that reads up to the end of a source or to an error. A step without a
result leaves the loop without one. -/
inductive Loop (step? : Lexer → Option (Except Diagnostic Lexer)) :
    Lexer → Nat → Except Diagnostic Lexer → Prop
  | ended {lexer : Lexer} (hend : lexer.atEnd = true) : Loop step? lexer 0 (.ok lexer)
  | failed {lexer : Lexer} {diagnostic : Diagnostic} (hmore : lexer.atEnd = false)
      (hstep : step? lexer = some (.error diagnostic)) : Loop step? lexer 1 (.error diagnostic)
  | round {lexer further : Lexer} {rounds : Nat} {result : Except Diagnostic Lexer}
      (hmore : lexer.atEnd = false) (hstep : step? lexer = some (.ok further))
      (hloop : Loop step? further rounds result) : Loop step? lexer (rounds + 1) result

theorem atEnd_eq_false : lexer.atEnd = false ↔ lexer.rest ≠ [] := by
  rw [atEnd, List.isEmpty_eq_false_iff]

theorem StandsBehind.past (h : lexer.StandsBehind consumed)
    (hrest : lexer.rest = part.text ++ rest) :
    (lexer.past part rest).StandsBehind (consumed ++ part.text) := by
  rw [Lexer.past, pushAll]
  cases part.token? lexer.line with
  | none => exact h.across hrest
  | some token => exact (h.across hrest).push token

theorem past_source : (lexer.past part rest).source = lexer.source := by
  cases part <;> rfl

theorem StandsBehind.step (h : lexer.StandsBehind consumed) (hne : lexer.rest ≠ [])
    (hstep : lexer.step = .ok further) :
    further.source = lexer.source ∧ lexer.GoesOn further ∧
      ∃ text, further.StandsBehind (consumed ++ text) := by
  obtain ⟨part, rest, hproper, -, hrest, rfl⟩ := step_sound hne hstep
  have hpast := h.past hrest
  obtain ⟨c, text, htext⟩ := List.exists_cons_of_ne_nil (Part.text_ne_nil hproper)
  refine ⟨past_source, ⟨⟨c, text, ?_, ?_⟩, part.token? lexer.line, past_tokens⟩, part.text, hpast⟩
  · rw [past_rest, ← htext, hrest]
  · rw [hpast.offset, h.offset, ← htext, utf8Len_append]

theorem StandsBehind.steps (h : lexer.StandsBehind consumed) {count : Nat}
    (hsteps : lexer.steps count = .ok reached) :
    reached.source = lexer.source ∧ ∃ text, reached.StandsBehind (consumed ++ text) := by
  induction count generalizing lexer consumed with
  | zero =>
      obtain rfl := Except.ok.inj hsteps
      exact ⟨rfl, [], by rwa [List.append_nil]⟩
  | succ count ih =>
      by_cases hne : lexer.rest = []
      · rw [steps_at_end _ hne] at hsteps
        obtain rfl := Except.ok.inj hsteps
        exact ⟨rfl, [], by rwa [List.append_nil]⟩
      · rw [steps_succ _ hne] at hsteps
        cases hstep : lexer.step with
        | error diagnostic =>
            rw [hstep] at hsteps
            contradiction
        | ok further =>
            rw [hstep] at hsteps
            obtain ⟨hsource, -, text, hfurther⟩ := h.step hne hstep
            obtain ⟨hsource', text', hreached⟩ := ih hfurther hsteps
            exact ⟨hsource'.trans hsource, text ++ text', by rwa [← List.append_assoc]⟩

theorem exists_loop {step? : Lexer → Option (Except Diagnostic Lexer)} (Reached : Lexer → Prop)
    (hagrees : ∀ lexer, Reached lexer → lexer.rest ≠ [] → step? lexer = some lexer.step)
    (hkeeps : ∀ lexer further, Reached lexer → lexer.rest ≠ [] → lexer.step = .ok further →
      Reached further) (lexer : Lexer) (h : Reached lexer) :
    ∃ rounds ≤ lexer.rest.length, Loop step? lexer rounds lexer.toEnd := by
  by_cases hne : lexer.rest = []
  · refine ⟨0, Nat.zero_le _, ?_⟩
    rw [toEnd, steps_at_end _ hne]
    exact .ended (List.isEmpty_iff.mpr hne)
  have hmore := atEnd_eq_false.mpr hne
  have hagree := hagrees lexer h hne
  rw [toEnd_eq_bind hne]
  cases hstep : lexer.step with
  | error diagnostic =>
      rw [hstep] at hagree
      exact ⟨1, List.length_pos_iff.mpr hne, .failed hmore hagree⟩
  | ok further =>
      rw [hstep] at hagree
      have hless := length_rest_of_step hne hstep
      obtain ⟨rounds, hrounds, hloop⟩ :=
        exists_loop Reached hagrees hkeeps further (hkeeps lexer further h hne hstep)
      exact ⟨rounds + 1, Nat.lt_of_le_of_lt hrounds hless, .round hmore hagree hloop⟩
termination_by lexer.rest.length

theorem Bytewise.Counts.step {lexer further : Lexer} (h : Counts lexer consumed)
    (hne : lexer.rest ≠ []) (hstep : lexer.step = .ok further) :
    ∃ consumed, Counts further consumed := by
  obtain ⟨hsource, -, text, hfurther⟩ := h.behind.step hne hstep
  exact ⟨_, hfurther, hsource ▸ h.bounded⟩

end Lexer

/-- Reading never sticks. Wherever it comes, a pattern begins with the next character, so that none
becomes an identifier for want of one, and a step leads at least one character on. It is always at a
place of the source, and so are the ends of all texts it cuts out: to count in bytes as it goes
gives the same results, with no step that has none. So the loop has a round for each character at
most. -/
theorem tokenizing_progresses (source file : String) :
    (∀ count lexer, (Lexer.ofSource source file).steps count = .ok lexer →
      Text.IsPlace source lexer.offset ∧ lexer.offset ≤ source.utf8ByteSize ∧
      (lexer.atEnd = false →
        (∃ pattern ∈ Pattern.all, ∃ found, lexer.next? = some (pattern, found)) ∧
        (∀ further, lexer.step = .ok further → lexer.GoesOn further) ∧
        (source.utf8ByteSize < Lexer.offsetBound →
          Lexer.Bytewise.step? lexer = some lexer.step))) ∧
    ∃ result, tokenize source file = result.map Lexer.closed ∧
      (∃ rounds ≤ source.length,
        Lexer.Loop (some ·.step) (.ofSource source file) rounds result) ∧
      (source.utf8ByteSize < Lexer.offsetBound → ∃ rounds ≤ source.length,
        Lexer.Loop Lexer.Bytewise.step? (.ofSource source file) rounds result) := by
  have hstart := Lexer.standsBehind_ofSource source file
  refine ⟨fun count lexer hsteps => ?_, _, rfl, ?_, fun hbound => ?_⟩
  · obtain ⟨hsource, consumed, hbehind⟩ := hstart.steps hsteps
    have hplace : Text.IsPlace source lexer.offset := by
      rw [← show lexer.source = source from hsource]
      exact hbehind.isPlace
    refine ⟨hplace, hplace.le, fun hmore => ?_⟩
    have hne := Lexer.atEnd_eq_false.mp hmore
    refine ⟨Lexer.exists_next? hne, fun further hstep => (hbehind.step hne hstep).2.1, ?_⟩
    intro hbound
    have hcounts : Lexer.Bytewise.Counts lexer consumed := ⟨hbehind, hsource.symm ▸ hbound⟩
    exact Lexer.Bytewise.step?_eq hcounts hne
  · exact Lexer.exists_loop (fun _ => True) (fun _ _ _ => rfl) (fun _ _ _ _ _ => trivial)
      (.ofSource source file) trivial
  · refine Lexer.exists_loop (fun lexer => ∃ consumed, Lexer.Bytewise.Counts lexer consumed)
      ?_ ?_ (.ofSource source file) ⟨[], hstart, hbound⟩
    · rintro lexer ⟨consumed, hcounts⟩ hne
      exact Lexer.Bytewise.step?_eq hcounts hne
    · rintro lexer further ⟨consumed, hcounts⟩ hne hstep
      exact hcounts.step hne hstep

end LispReader
