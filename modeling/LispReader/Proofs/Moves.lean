import LispReader.Proofs.Places

namespace LispReader

open String (utf8Len)

/-- What can be asked of a lexer. The current character and the remainder are only looked at. -/
inductive Move
  | current
  | remainder
  | advance
  | advanceBytes (n : Nat)
  | push (token : Token)

namespace Move

def after? : Move → Lexer → Option Lexer
  | current, lexer | remainder, lexer => some lexer
  | advance, lexer => some lexer.advance
  | advanceBytes n, lexer => lexer.advanceBytes? n
  | push token, lexer => some (lexer.push token)

/-- Makes moves one after the other. One that leads to no place leaves the lexer as it is. -/
def run (moves : List Move) (lexer : Lexer) : Lexer :=
  moves.foldl (fun lexer move => (move.after? lexer).getD lexer) lexer

variable {lexer after : Lexer} {consumed : List Char}

theorem after?_standsBehind {move : Move} (h : lexer.StandsBehind consumed)
    (hmoved : move.after? lexer = some after) :
    after.source = lexer.source ∧ ∃ text, after.StandsBehind (consumed ++ text) := by
  cases move with
  | current | remainder =>
      obtain rfl := Option.some.inj hmoved
      exact ⟨rfl, [], by rwa [List.append_nil]⟩
  | advance =>
      obtain rfl := Option.some.inj hmoved
      exact ⟨by unfold Lexer.advance; split <;> rfl, h.advance⟩
  | advanceBytes n =>
      change lexer.advanceBytes? n = some after at hmoved
      by_cases hbound : lexer.offset + n < Lexer.offsetBound
      · rcases Lexer.advanceBytes?_cases hbound with ⟨text, rest, hrest, -, hafter⟩ | ⟨hnone, -⟩
        · obtain rfl := Option.some.inj (hafter.symm.trans hmoved)
          exact ⟨rfl, text, h.across hrest⟩
        · rw [hnone] at hmoved
          contradiction
      · rw [Lexer.advanceBytes?, if_neg hbound] at hmoved
        contradiction
  | push token =>
      obtain rfl := Option.some.inj hmoved
      exact ⟨rfl, [], by rw [List.append_nil]; exact h.push token⟩

theorem run_standsBehind (moves : List Move) (h : lexer.StandsBehind consumed) :
    (run moves lexer).source = lexer.source ∧
      ∃ text, (run moves lexer).StandsBehind (consumed ++ text) := by
  induction moves generalizing lexer consumed with
  | nil => exact ⟨rfl, [], by rwa [List.append_nil]⟩
  | cons move moves ih =>
      change (run moves ((move.after? lexer).getD lexer)).source = _ ∧
        ∃ text, (run moves ((move.after? lexer).getD lexer)).StandsBehind _
      cases hmoved : move.after? lexer with
      | none => exact ih h
      | some after =>
          obtain ⟨hsource, text, hafter⟩ := after?_standsBehind h hmoved
          obtain ⟨hsource', text', hlast⟩ := ih hafter
          exact ⟨hsource'.trans hsource, text ++ text', by rwa [← List.append_assoc]⟩

theorem run_advance (count : Nat) (lexer : Lexer) :
    run (List.replicate count .advance) lexer = lexer.skip count := by
  induction count generalizing lexer with
  | zero => rfl
  | succ count ih => exact ih lexer.advance

end Move

/-- The place of a lexer is the number of bytes it has passed, whatever moves it made. Its line is
that behind these bytes, and it is at the end where nothing remains. So many bytes further on it
goes as far as the source, or nowhere if that is inside a character. To advance is to pass the bytes
of the current character, and to do so a number of times is to pass those of the next ones. -/
theorem cursor_counts_bytes (source file : String) (moves : List Move) :
    let lexer := Move.run moves (.ofSource source file)
    (∃ consumed, source = consumed ++ lexer.remainder ∧ lexer.offset = consumed.utf8ByteSize ∧
      lexer.line = lineBehind consumed.toList) ∧
    (lexer.atEnd = true ↔ lexer.remainder = "") ∧
    (∀ n, lexer.offset + n < Lexer.offsetBound →
      let place := lexer.offset + min n lexer.bytesLeft
      match lexer.advanceBytes? n with
      | some after => Text.IsPlace source place ∧ after.offset = place
      | none => ¬ Text.IsPlace source place ∧ Move.run [.advanceBytes n] lexer = lexer) ∧
    (match lexer.current? with
      | some c => lexer.offset + c.utf8Size < Lexer.offsetBound →
          lexer.advanceBytes? c.utf8Size = some lexer.advance
      | none => lexer.atEnd = true ∧ lexer.advance = lexer) ∧
    (∀ others, let other := Move.run others (.ofSource source file)
      other.offset = lexer.offset → other.rest = lexer.rest ∧ other.line = lexer.line) ∧
    ∀ count, lexer.offset + utf8Len (lexer.rest.take count) < Lexer.offsetBound →
      lexer.advanceBytes? (utf8Len (lexer.rest.take count)) =
        some (Move.run (List.replicate count .advance) lexer) := by
  intro lexer
  have hreached (moves : List Move) :
      (Move.run moves (.ofSource source file)).source = source ∧
        ∃ consumed, (Move.run moves (.ofSource source file)).StandsBehind consumed :=
    Move.run_standsBehind moves (Lexer.standsBehind_ofSource source file)
  obtain ⟨hsource, consumed, hbehind⟩ := hreached moves
  change lexer.source = source at hsource
  change lexer.StandsBehind consumed at hbehind
  refine ⟨⟨String.ofList consumed, ?_, ?_, ?_⟩, ?_, fun n hbound => ?_, ?_, ?_,
    fun count hbound => ?_⟩
  · rw [Lexer.remainder, ← String.ofList_append, ← hbehind.source, hsource, String.ofList_toList]
  · rw [hbehind.offset, String.utf8ByteSize_ofList]
  · rw [hbehind.line, String.toList_ofList]
  · rw [Lexer.atEnd, List.isEmpty_iff, Lexer.remainder, String.ofList_eq_empty_iff]
  · have houtcome := hbehind.advanceBytes? hbound
    rw [hsource] at houtcome
    cases hafter : lexer.advanceBytes? n with
    | some after =>
        rw [hafter] at houtcome
        exact houtcome
    | none =>
        rw [hafter] at houtcome
        exact ⟨houtcome, by simp [Move.run, Move.after?, hafter]⟩
  · cases hcurrent : lexer.current? with
    | none =>
        have hrest : lexer.rest = [] := List.head?_eq_none_iff.mp hcurrent
        exact ⟨List.isEmpty_iff.mpr hrest, Lexer.advance_at_end hrest⟩
    | some c => exact fun hbound => Lexer.advanceBytes?_current hbound hcurrent
  · intro others other hoffset
    obtain ⟨hsource', consumed', hbehind'⟩ := hreached others
    exact hbehind.eq_of_offset hbehind' (hsource'.trans hsource.symm) hoffset
  · rw [Move.run_advance, Lexer.skip_eq_across]
    exact Lexer.advanceBytes?_of_text hbound (List.take_append_drop count lexer.rest).symm

end LispReader
