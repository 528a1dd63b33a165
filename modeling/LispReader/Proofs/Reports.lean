import LispReader.Diagnostic.Report
import LispReader.Proofs.Lines

namespace LispReader

namespace Text

theorem not_break {text : List Char} (h : '\n' ∉ text) : ∀ c ∈ text, decide (c ≠ '\n') = true :=
  fun _ hc => decide_eq_true (ne_of_mem_of_not_mem hc h)

/-- What stands behind the last line break of a text. -/
def lastLine (text : List Char) : List Char :=
  (text.reverse.takeWhile (· ≠ '\n')).reverse

theorem lastLine_of_unbroken {text : List Char} (h : '\n' ∉ text) : lastLine text = text := by
  have hreverse : '\n' ∉ text.reverse := by rwa [List.mem_reverse]
  rw [lastLine, List.takeWhile_eq_self_iff.mpr (not_break hreverse), List.reverse_reverse]

theorem lastLine_append_break {last : List Char} (h : '\n' ∉ last) (earlier : List Char) :
    lastLine (earlier ++ '\n' :: last) = last := by
  have hreverse : '\n' ∉ last.reverse := by rwa [List.mem_reverse]
  have hend : Ends (· ≠ '\n') ('\n' :: earlier.reverse) := ends_cons _ rfl
  rw [lastLine, List.reverse_append, List.reverse_cons, List.append_assoc, List.singleton_append,
    takeWhile_of_ends (not_break hreverse) hend, List.reverse_reverse]

theorem exists_last_break {text : List Char} (h : '\n' ∈ text) :
    ∃ earlier last, text = earlier ++ '\n' :: last ∧ '\n' ∉ last := by
  obtain ⟨last, earlier, htext, hlast⟩ := List.eq_append_cons_of_mem (List.mem_reverse.mpr h)
  refine ⟨earlier.reverse, last.reverse, ?_, by rwa [List.mem_reverse]⟩
  rw [← List.reverse_reverse text, htext]
  simp

theorem lineFrom?_append_break (earlier rest : List Char) :
    lineFrom? (earlier ++ '\n' :: rest) (earlier.count '\n' + 1) = lineFrom? rest 0 := by
  induction earlier with
  | nil => simp [lineFrom?]
  | cons c earlier ih =>
      by_cases hc : c = '\n'
      · simpa [lineFrom?, hc] using ih
      · simpa [lineFrom?, hc] using ih

theorem lineFrom?_append (before behind : List Char) :
    lineFrom? (before ++ behind) (before.count '\n') =
      some (lastLine before ++ behind.takeWhile (· ≠ '\n')) := by
  by_cases hbreak : '\n' ∈ before
  · obtain ⟨earlier, last, rfl, hlast⟩ := exists_last_break hbreak
    have hcount : (earlier ++ '\n' :: last).count '\n' = earlier.count '\n' + 1 := by
      simp [List.count_eq_zero_of_not_mem hlast]
    rw [hcount, List.append_assoc, List.cons_append, lineFrom?_append_break,
      lastLine_append_break hlast, lineFrom?, List.takeWhile_append_of_pos (not_break hlast)]
  · rw [List.count_eq_zero_of_not_mem hbreak, lastLine_of_unbroken hbreak, lineFrom?,
      List.takeWhile_append_of_pos (not_break hbreak)]

theorem line?_append (before behind : List Char) :
    line? (before ++ behind) (lineBehind before) =
      some (withoutReturn (lastLine before ++ behind.takeWhile (· ≠ '\n'))) := by
  rw [lineBehind, Nat.add_comm, line?, lineFrom?_append, Option.map_some]

def printed : List String → String
  | [] => ""
  | line :: lines => line ++ "\n" ++ printed lines

/-- What is left of a line without the spaces and tabs that it begins with and without the white
space that it ends with. -/
structure Trims (line shown : List Char) : Prop where
  around : ∃ indentation blanks, line = indentation ++ (shown ++ blanks) ∧
    (∀ c ∈ indentation, c = ' ' ∨ c = '\t') ∧ ∀ c ∈ blanks, isBlank c = true
  first : ∀ c ∈ shown.head?, c ≠ ' ' ∧ c ≠ '\t'
  last : ∀ c ∈ shown.getLast?, isBlank c = false

theorem exists_indentation (line : List Char) :
    ∃ indentation, line = indentation ++ withoutIndentation line ∧
      ∀ c ∈ indentation, c = ' ' ∨ c = '\t' :=
  ⟨_, List.takeWhile_append_dropWhile.symm, fun c hc => by simpa using List.mem_takeWhile_imp hc⟩

theorem exists_blanks (line : List Char) :
    ∃ blanks, line = trimEnd line ++ blanks ∧ ∀ c ∈ blanks, isBlank c = true := by
  refine ⟨(line.reverse.takeWhile isBlank).reverse, ?_, fun c hc => ?_⟩
  · rw [trimEnd, ← List.reverse_append, List.takeWhile_append_dropWhile, List.reverse_reverse]
  · exact List.mem_takeWhile_imp (List.mem_reverse.mp hc)

theorem trims (line : List Char) : Trims line (trimEnd (withoutIndentation line)) := by
  obtain ⟨indentation, hline, hindentation⟩ := exists_indentation line
  obtain ⟨blanks, hinner, hblanks⟩ := exists_blanks (withoutIndentation line)
  refine ⟨⟨indentation, blanks, ?_, hindentation, hblanks⟩, fun c hc => ?_, fun c hc => ?_⟩
  · rw [← hinner]
    exact hline
  · have hfirst : c ∈ (withoutIndentation line).head? := by
      rw [hinner, List.head?_append, hc, Option.some_or]
      rfl
    simpa using ends_dropWhile (fun c => c = ' ' || c = '\t') line c hfirst
  · rw [trimEnd, List.getLast?_reverse] at hc
    exact ends_dropWhile isBlank _ c hc

variable {c : Char}

theorem withoutReturn_append (hc : c ≠ '\r') (before behind : List Char) :
    withoutReturn (before ++ c :: behind) = before ++ c :: withoutReturn behind := by
  cases behind with
  | nil => simp [withoutReturn, hc]
  | cons d behind =>
      by_cases hreturn : (d :: behind).getLast? = some '\r' <;> simp [withoutReturn, hreturn]

theorem withoutIndentation_append (hspace : c ≠ ' ') (htab : c ≠ '\t') (before behind : List Char) :
    withoutIndentation (before ++ c :: behind) = withoutIndentation before ++ c :: behind := by
  rw [withoutIndentation, withoutIndentation, List.dropWhile_append]
  split
  · next hempty => simp [List.isEmpty_iff.mp hempty, hspace, htab]
  · rfl

theorem trimEnd_append (hc : isBlank c = false) (before behind : List Char) :
    trimEnd (before ++ c :: behind) = before ++ c :: trimEnd behind := by
  rw [trimEnd, List.reverse_append, List.reverse_cons, List.append_assoc, List.dropWhile_append]
  split
  · next hempty => simp [trimEnd, List.isEmpty_iff.mp hempty, hc]
  · simp [trimEnd]

theorem trimEnd_line (hc : isBlank c = false) (before behind : List Char) :
    trimEnd (withoutIndentation (withoutReturn (before ++ c :: behind))) =
      withoutIndentation before ++ c :: trimEnd (withoutReturn behind) := by
  have hne (d : Char) (hd : isBlank d = true) : c ≠ d := by
    rintro rfl
    rw [hd] at hc
    contradiction
  rw [withoutReturn_append (hne '\r' rfl), withoutIndentation_append (hne ' ' rfl) (hne '\t' rfl),
    trimEnd_append hc]

theorem unbroken_lineFrom? {text line : List Char} {n : Nat} (h : lineFrom? text n = some line) :
    '\n' ∉ line := by
  induction n generalizing text with
  | zero =>
      obtain rfl := Option.some.inj h
      intro hmem
      simpa using List.mem_takeWhile_imp hmem
  | succ n ih =>
      rw [lineFrom?] at h
      split at h
      · contradiction
      · exact ih h

theorem unbroken_line? {text line : List Char} {n : Nat} (h : line? text n = some line) :
    '\n' ∉ line := by
  cases n with
  | zero => contradiction
  | succ n =>
      obtain ⟨whole, hwhole, rfl⟩ := Option.map_eq_some_iff.mp h
      unfold withoutReturn
      split
      · exact fun hmem => unbroken_lineFrom? hwhole ((List.dropLast_sublist _).subset hmem)
      · exact unbroken_lineFrom? hwhole

theorem unbroken_trim {text : List Char} (h : '\n' ∉ text) :
    '\n' ∉ trimEnd (withoutIndentation text) := by
  intro hmem
  rw [trimEnd, List.mem_reverse] at hmem
  have hindented := (List.dropWhile_sublist _).subset hmem
  rw [List.mem_reverse] at hindented
  exact h ((List.dropWhile_sublist _).subset hindented)

theorem unbroken_digits {b : Nat} (hb : 1 < b) (n : Nat) : '\n' ∉ Nat.toDigits b n := by
  have hdigit (n : Nat) : '\n' ≠ n.digitChar := (Nat.digitChar_ne '\n' rfl).symm
  induction n using Nat.strong_induction_on with
  | _ n ih =>
      rw [Nat.toDigits_eq_if hb]
      split
      · simp [hdigit]
      · have hless : n / b < n := Nat.div_lt_self (by omega) hb
        simp [hdigit, ih _ hless]

def Unbroken (text : String) : Prop :=
  '\n' ∉ text.toList

instance (text : String) : Decidable (Unbroken text) :=
  inferInstanceAs (Decidable ('\n' ∉ text.toList))

theorem Unbroken.append {text more : String} (h : Unbroken text) (hmore : Unbroken more) :
    Unbroken (text ++ more) := by
  rw [Unbroken, String.toList_append, List.mem_append, not_or]
  exact ⟨h, hmore⟩

theorem unbroken_empty : Unbroken "" := by
  simp [Unbroken]

theorem unbroken_ofList {text : List Char} (h : '\n' ∉ text) : Unbroken (String.ofList text) := by
  rwa [Unbroken, String.toList_ofList]

theorem unbroken_toString (n : Nat) : Unbroken (toString n) := by
  have hdigits : (toString n).toList = Nat.toDigits 10 n := Nat.toList_repr
  rw [Unbroken, hdigits]
  exact unbroken_digits (by decide) n

theorem unbroken_quoted (text : String) : Unbroken (quoted text) := by
  have hchar (c : Char) : '\n' ∉ quotedChar c := by
    by_cases hbreak : c = '\n'
    · rw [hbreak]
      decide
    · have hdigits := unbroken_digits (b := 16) (by decide) c.toNat
      unfold quotedChar
      split_ifs <;> simp [hdigits, Ne.symm hbreak]
  exact unbroken_ofList (by simp [hchar])

end Text

namespace Cause

open Text

/-- What stands in the messages of a cause from the source, or for a token its name. -/
def payload : Cause → String
  | unknownEscapeCode code => String.singleton code
  | malformedNumber text | trailingSeparator text => text
  | unexpectedToken name => name
  | unreadableNumber lexeme | unreadableInteger lexeme => lexeme
  | unterminatedString | unterminatedCharacter | unterminatedScope _ | nestingTooDeep _ => ""

variable {cause : Cause}

theorem unbroken_name (cause : Cause) : Unbroken cause.name := by
  cases cause with
  | unterminatedScope delimiter => cases delimiter <;> decide +kernel
  | _ =>
      rw [name]
      decide +kernel

theorem unbroken_sentence (h : Unbroken cause.payload) : Unbroken cause.sentence := by
  cases cause with
  | unterminatedString | unterminatedCharacter => decide +kernel
  | unterminatedScope delimiter => cases delimiter <;> decide +kernel
  | unknownEscapeCode code => exact .append (.append (by decide +kernel) h) (by decide +kernel)
  | malformedNumber text | trailingSeparator text | unexpectedToken text | unreadableNumber text
      | unreadableInteger text =>
      exact .append (.append (by decide +kernel) (unbroken_quoted text)) (by decide +kernel)
  | nestingTooDeep limit =>
      exact .append (.append (by decide +kernel) (unbroken_toString limit)) (by decide +kernel)

theorem unbroken_tip (h : Unbroken cause.payload) : ∀ tip ∈ cause.tip?, Unbroken tip := by
  cases cause with
  | unterminatedCharacter => simp [tip?]
  | unterminatedString => simpa [tip?] using (by decide +kernel)
  | unterminatedScope delimiter => cases delimiter <;> simpa [tip?] using (by decide +kernel)
  | unknownEscapeCode | malformedNumber | trailingSeparator | unexpectedToken | unreadableNumber
      | unreadableInteger =>
      rintro tip ⟨⟩
      exact .append (.append (by decide +kernel) h) (by decide +kernel)
  | nestingTooDeep limit =>
      rintro tip ⟨⟩
      exact .append (.append (by decide +kernel) (unbroken_toString limit)) (by decide +kernel)

end Cause

namespace Diagnostic

open Text

variable {diagnostic : Diagnostic} {source : String}

def headline (diagnostic : Diagnostic) : String :=
  match diagnostic.cause.tip? with
  | none => "Error: " ++ diagnostic.cause.name
  | some tip => "Error: " ++ diagnostic.cause.name ++ " (" ++ tip ++ ")"

def bar (diagnostic : Diagnostic) : String :=
  String.ofList (List.replicate ((toString diagnostic.line).length + 1) ' ') ++ "|"

def reportLines (diagnostic : Diagnostic) (shown : List Char) : List String :=
  [diagnostic.headline, diagnostic.cause.sentence ++ " at line " ++ toString diagnostic.line,
    "-> " ++ diagnostic.file, diagnostic.bar,
    toString diagnostic.line ++ " | " ++ String.ofList shown, diagnostic.bar]

/-- The report is six lines. The one with the text of the source shows `c` with what stands before
and behind it on its line, but for the white space at both ends. -/
structure Shows (diagnostic : Diagnostic) (source : String) (before : List Char) (c : Char)
    (behind shown : List Char) : Prop where
  line : line? source.toList diagnostic.line = some (withoutReturn (before ++ c :: behind))
  trimmed : shown = trimEnd (withoutIndentation (withoutReturn (before ++ c :: behind)))
  trims : Trims (withoutReturn (before ++ c :: behind)) shown
  place : shown = withoutIndentation before ++ c :: trimEnd (withoutReturn behind)
  report : diagnostic.report source = printed (diagnostic.reportLines shown)
  unbroken : ∀ line ∈ diagnostic.reportLines shown, '\n' ∉ line.toList

theorem report_of_line {text : List Char} (h : line? source.toList diagnostic.line = some text) :
    diagnostic.report source =
      printed (diagnostic.reportLines (trimEnd (withoutIndentation text))) := by
  have hheading : diagnostic.heading = diagnostic.headline ++ "\n" := by
    unfold heading headline
    cases diagnostic.cause.tip? with
    | none => rfl
    | some tip => simp [String.append_assoc]
  rw [report, h, hheading]
  apply String.toList_inj.mp
  simp [excerpt, printed, reportLines, message, bar]

theorem unbroken_headline (h : Unbroken diagnostic.cause.payload) :
    Unbroken diagnostic.headline := by
  have hname : Unbroken ("Error: " ++ diagnostic.cause.name) :=
    .append (by decide +kernel) (Cause.unbroken_name _)
  unfold headline
  cases htip : diagnostic.cause.tip? with
  | none => exact hname
  | some tip =>
      have hopened : Unbroken ("Error: " ++ diagnostic.cause.name ++ " (") :=
        .append hname (by decide)
      exact .append (.append hopened (Cause.unbroken_tip h tip htip)) (by decide)

theorem unbroken_reportLines {shown : List Char} (hpayload : Unbroken diagnostic.cause.payload)
    (hfile : Unbroken diagnostic.file) (hshown : '\n' ∉ shown) :
    ∀ line ∈ diagnostic.reportLines shown, Unbroken line := by
  have hline := unbroken_toString diagnostic.line
  have hspaces : '\n' ∉ List.replicate ((toString diagnostic.line).length + 1) ' ' := by
    simp [List.mem_replicate]
  have hbar : Unbroken diagnostic.bar := .append (unbroken_ofList hspaces) (by decide)
  simp only [reportLines, List.forall_mem_cons]
  refine ⟨unbroken_headline hpayload, ?_, .append (by decide) hfile, hbar, ?_, hbar, by simp⟩
  · exact .append (.append (Cause.unbroken_sentence hpayload) (by decide)) hline
  · exact .append (.append hline (by decide)) (unbroken_ofList hshown)

theorem shows_of_line {c : Char} {before behind : List Char}
    (hpayload : Unbroken diagnostic.cause.payload) (hfile : Unbroken diagnostic.file)
    (hc : isBlank c = false)
    (hline : line? source.toList diagnostic.line = some (withoutReturn (before ++ c :: behind))) :
    ∃ shown, diagnostic.Shows source before c behind shown := by
  have hshown := unbroken_trim (unbroken_line? hline)
  exact ⟨_, hline, rfl, trims _, trimEnd_line hc before behind, report_of_line hline,
    unbroken_reportLines hpayload hfile hshown⟩

end Diagnostic

end LispReader
