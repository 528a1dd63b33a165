import LispReader.Proofs.Dispatch

namespace LispReader

namespace Pattern

variable {text found : List Char}

theorem prefix_of_run? {p : Char → Bool} (hfound : run? p text = some found) : found <+: text := by
  rw [run?] at hfound
  split at hfound
  · contradiction
  · obtain rfl := Option.some.inj hfound
    exact List.takeWhile_prefix p

theorem prefix_of_find? {pattern : Pattern} (hfound : pattern.find? text = some found) :
    found <+: text := by
  unfold find? at hfound
  split at hfound
  case h_1 | h_9 => exact prefix_of_run? hfound
  case h_10 => contradiction
  all_goals simp only [Option.ite_none_right_eq_some, Option.some.injEq] at hfound
  case h_2 =>
    rw [← hfound]
    exact List.cons_prefix_cons.mpr ⟨rfl, List.takeWhile_prefix _⟩
  case h_7 | h_8 =>
    rw [← hfound]
    exact List.prefix_append _ _
  case h_3 | h_4 | h_6 =>
    rw [← hfound.2]
    exact List.prefix_append [_] _
  case h_5 c tail =>
    rw [← hfound.2]
    exact List.prefix_append ['-', c] tail

theorem eq_singleton_of_find? {pattern : Pattern} {c : Char}
    (hnil : pattern.find? [] = none)
    (hcons : ∀ d text, pattern.find? (d :: text) = if d = c then some [d] else none)
    (hfound : pattern.find? text = some found) : found = [c] := by
  cases text with
  | nil =>
      rw [hnil] at hfound
      contradiction
  | cons d text =>
      rw [hcons, Option.ite_none_right_eq_some] at hfound
      rw [← hfound.1]
      exact (Option.some.inj hfound.2).symm

end Pattern

namespace Lexer

variable {lexer : Lexer} {pattern : Pattern} {found : List Char}

theorem find?_of_next? (h : lexer.next? = some (pattern, found)) :
    pattern.find? lexer.rest = some found := by
  obtain ⟨tried, -, htried⟩ := List.exists_of_findSome?_eq_some h
  obtain ⟨text, htext, heq⟩ := Option.map_eq_some_iff.mp htried
  obtain ⟨rfl, rfl⟩ := Prod.mk.inj heq
  exact htext

/-- The patterns leave no character out, so that there is always one that begins with the next. -/
theorem exists_next? (hne : lexer.rest ≠ []) :
    ∃ pattern ∈ Pattern.all, ∃ found, lexer.next? = some (pattern, found) := by
  obtain ⟨c, rest, hrest⟩ := List.exists_cons_of_ne_nil hne
  suffices h : ∃ pattern ∈ Pattern.all, (pattern.find? (c :: rest)).isSome by
    obtain ⟨pattern, hmem, hfound⟩ := h
    have hsome : lexer.next?.isSome := by
      rw [next?, List.findSome?_isSome_iff]
      exact ⟨pattern, hmem, by rwa [hrest, Option.isSome_map]⟩
    obtain ⟨⟨pattern, found⟩, hnext⟩ := Option.isSome_iff_exists.mp hsome
    obtain ⟨tried, htried, heq⟩ := List.exists_of_findSome?_eq_some hnext
    obtain ⟨_, -, hpair⟩ := Option.map_eq_some_iff.mp heq
    obtain rfl := (Prod.mk.inj hpair).1
    exact ⟨tried, htried, found, hnext⟩
  by_cases hblank : Pattern.isBlank c
  · exact ⟨.blanks, by decide, by simp [Pattern.find?, Pattern.run?, hblank]⟩
  by_cases hidentifier : Pattern.isIdentifierChar c
  · exact ⟨.identifier, by decide, by simp [Pattern.find?, Pattern.run?, hidentifier]⟩
  simp only [Pattern.isIdentifierChar, hblank, Bool.or_false, Bool.not_eq_true, Bool.not_eq_false',
    Bool.or_eq_true, decide_eq_true_eq, or_assoc] at hidentifier
  rcases hidentifier with rfl | rfl | rfl | rfl | rfl
  · exact ⟨.string, by decide, rfl⟩
  · exact ⟨.character, by decide, rfl⟩
  · exact ⟨.comment, by decide, rfl⟩
  · exact ⟨.opening .paren, by decide, rfl⟩
  · exact ⟨.closing .paren, by decide, rfl⟩

end Lexer

end LispReader
