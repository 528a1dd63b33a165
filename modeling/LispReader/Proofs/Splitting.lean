import LispReader.Proofs.Moves
import LispReader.Proofs.Reports

namespace LispReader

namespace Text

theorem length_splitOn (text : List Char) : (text.splitOn '\n').length = text.count '\n' + 1 := by
  induction text with
  | nil => rfl
  | cons c text ih =>
      rw [List.splitOn_cons_eq_if_modifyHead]
      by_cases hc : c = '\n'
      · simp [hc, ih]
      · simp [hc, ih]

theorem lineFrom?_of_unbroken {text : List Char} (h : '\n' ∉ text) (n : Nat) :
    lineFrom? text n = [text][n]? := by
  cases n with
  | zero => rw [lineFrom?, List.takeWhile_eq_self_iff.mpr (not_break h)]; rfl
  | succ n => rw [lineFrom?, List.dropWhile_eq_nil_iff.mpr (not_break h)]; rfl

/-- To look for a line is to split the text at its line breaks. -/
theorem lineFrom?_eq_getElem? (text : List Char) (n : Nat) :
    lineFrom? text n = (text.splitOn '\n')[n]? := by
  induction n generalizing text with
  | zero =>
      by_cases hbreak : '\n' ∈ text
      · obtain ⟨first, rest, rfl, hfirst⟩ := List.eq_append_cons_of_mem hbreak
        rw [List.splitOn_append_cons_self_of_not_mem hfirst, lineFrom?,
          takeWhile_of_ends (not_break hfirst) (ends_cons rest rfl)]
        rfl
      · rw [List.splitOn_eq_singleton hbreak, lineFrom?_of_unbroken hbreak]
  | succ n ih =>
      by_cases hbreak : '\n' ∈ text
      · obtain ⟨first, rest, rfl, hfirst⟩ := List.eq_append_cons_of_mem hbreak
        rw [List.splitOn_append_cons_self_of_not_mem hfirst, lineFrom?,
          dropWhile_of_ends (not_break hfirst) (ends_cons rest rfl)]
        exact ih rest
      · rw [List.splitOn_eq_singleton hbreak, lineFrom?_of_unbroken hbreak]

theorem line?_succ (text : List Char) (n : Nat) :
    line? text (n + 1) = (text.splitOn '\n')[n]?.map withoutReturn := by
  rw [line?, lineFrom?_eq_getElem?]

theorem exists_line?_iff (text : List Char) (n : Nat) :
    (∃ shown, line? text n = some shown) ↔ 1 ≤ n ∧ n ≤ text.count '\n' + 1 := by
  rw [← Option.isSome_iff_exists]
  cases n with
  | zero => simp [line?]
  | succ n =>
      rw [line?_succ, Option.isSome_map, isSome_getElem?, length_splitOn]
      omega

def returnOf (line : List Char) : List Char :=
  if line.getLast? = some '\r' then ['\r'] else []

theorem withoutReturn_append_returnOf (line : List Char) :
    withoutReturn line ++ returnOf line = line := by
  by_cases hreturn : line.getLast? = some '\r'
  · obtain ⟨shown, rfl⟩ := List.getLast?_eq_some_iff.mp hreturn
    simp [withoutReturn, returnOf]
  · simp [withoutReturn, returnOf, hreturn]

theorem restore_returns (lines : List (List Char)) :
    List.zipWith (fun shown line => shown ++ returnOf line) (lines.map withoutReturn) lines =
      lines := by
  induction lines with
  | nil => rfl
  | cons line lines ih =>
      rw [List.map_cons, List.zipWith_cons_cons, withoutReturn_append_returnOf, ih]

theorem line?_append_cons {c : Char} (hbreak : c ≠ '\n') (hreturn : c ≠ '\r')
    (before behind : List Char) :
    line? (before ++ c :: behind) (lineBehind before) =
      some (lastLine before ++ c :: withoutReturn (behind.takeWhile (· ≠ '\n'))) := by
  have htake : (c :: behind).takeWhile (· ≠ '\n') = c :: behind.takeWhile (· ≠ '\n') :=
    List.takeWhile_cons_of_pos (by simpa using hbreak)
  rw [line?_append, htake, withoutReturn_append hreturn]

end Text

open Text

theorem Lexer.StandsBehind.exists_line? {lexer : Lexer} {consumed : List Char} {c : Char}
    (h : lexer.StandsBehind consumed) (hcurrent : lexer.current? = some c) (hbreak : c ≠ '\n')
    (hreturn : c ≠ '\r') :
    ∃ more, line? lexer.source.toList lexer.line = some (lastLine consumed ++ c :: more) := by
  obtain ⟨rest, hrest⟩ := List.head?_eq_some_iff.mp hcurrent
  have hline := line?_append_cons hbreak hreturn consumed rest
  rw [← hrest, ← h.source, ← h.line] at hline
  exact ⟨_, hline⟩

/-- A source has one line more than line breaks, and just these lines are found. Their texts hold no
line break. Joined again by line breaks, each with the carriage return of its line, they are the
source. A character stands on the line counted to it, as far behind the start as it is behind the
last line break, so the line of a lexer shows the current character wherever moves have led. -/
theorem lines_join_to_source (source file : String) :
    let text := source.toList
    let lines := text.splitOn '\n'
    (∀ n, (∃ shown, line? text n = some shown) ↔ 1 ≤ n ∧ n ≤ text.count '\n' + 1) ∧
    (∀ n shown, line? text n = some shown → '\n' ∉ shown) ∧
    (∃ texts : List (List Char), (∀ n, line? text (n + 1) = texts[n]?) ∧
      ['\n'].intercalate (texts.zipWith (fun shown line => shown ++ returnOf line) lines) =
        text) ∧
    (∀ before c behind, text = before ++ c :: behind → c ≠ '\n' → c ≠ '\r' →
      ∃ more, line? text (lineBehind before) = some (lastLine before ++ c :: more)) ∧
    ∀ moves c, let lexer := Move.run moves (.ofSource source file)
      lexer.current? = some c → c ≠ '\n' → c ≠ '\r' →
      ∃ before more, text = before ++ lexer.rest ∧
        line? text lexer.line = some (lastLine before ++ c :: more) := by
  intro text lines
  refine ⟨exists_line?_iff text, fun n shown => unbroken_line?, ?_, ?_, ?_⟩
  · refine ⟨lines.map withoutReturn, fun n => ?_, ?_⟩
    · rw [line?_succ, List.getElem?_map]
    · rw [restore_returns, List.intercalate_splitOn]
  · intro before c behind htext hbreak hreturn
    rw [htext]
    exact ⟨_, line?_append_cons hbreak hreturn before behind⟩
  · intro moves c lexer hcurrent hbreak hreturn
    obtain ⟨hsource, before, hbehind⟩ :=
      Move.run_standsBehind moves (Lexer.standsBehind_ofSource source file)
    rw [List.nil_append] at hbehind
    change lexer.source = source at hsource
    change lexer.StandsBehind before at hbehind
    obtain ⟨more, hmore⟩ := hbehind.exists_line? hcurrent hbreak hreturn
    have htext := hbehind.source
    rw [hsource] at hmore htext
    exact ⟨before, more, htext, hmore⟩

example : (List.range 6).map (line? "a\r\r\n\n\r\n".toList) =
    [none, some ['a', '\r'], some [], some [], some [], none] := rfl

end LispReader
