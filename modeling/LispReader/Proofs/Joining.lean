import LispReader.Proofs.Displacement
import LispReader.Proofs.Running

namespace LispReader

theorem Part.not_continues_newline {part : Part} (rest : List Char)
    (hpart : ∀ text, part ≠ .blanks text) : Ends part.continues ('\n' :: rest) := by
  apply ends_cons
  cases part with
  | blanks text => exact absurd rfl (hpart text)
  | identifier => simp [continues, Pattern.isIdentifierChar, Pattern.isBlank]
  | comment | opening | closing | number | character | string => rfl

theorem Ends.append_newline {p : Char → Bool} {rest : List Char} (tail : List Char)
    (h : Ends p rest) (hbreak : Ends p ('\n' :: tail)) : Ends p (rest ++ '\n' :: tail) := by
  cases rest with
  | nil => exact hbreak
  | cons c rest => exact h

namespace Lexer

theorem across_past (lexer : Lexer) (part : Part) (text rest rest' : List Char)
    (tokens : Array Token) :
    { (lexer.past part rest').across text rest with tokens } =
      { lexer.across (part.text ++ text) rest with tokens } := by
  cases part <;> simp [past, pushAll, push, across, Part.token?, Nat.add_assoc]

theorem toEnd_of_decomposes {text : List Char} {parts : List Part} (h : Decomposes text parts)
    {lexer : Lexer} (tail : List Char) (hrest : lexer.rest = text ++ '\n' :: tail) :
    ∃ tokens, lexer.toEnd = toEnd { lexer.across text ('\n' :: tail) with tokens } ∧
      tokens.toList ++ [⟨.endOfFile, "EOF", lexer.line + text.count '\n'⟩] =
        lexer.tokens.toList ++ Part.tokens lexer.line parts := by
  induction h generalizing lexer with
  | nil =>
      refine ⟨lexer.tokens, ?_, rfl⟩
      rw [List.nil_append] at hrest
      rw [across, ← hrest]
      rfl
  | @cons part rest parts hproper hend _ ih =>
      have hpast : (lexer.past part (rest ++ '\n' :: tail)).rest = rest ++ '\n' :: tail := past_rest
      have hpart : lexer.toEnd = (lexer.past part (rest ++ '\n' :: tail)).toEnd := by
        rw [List.append_assoc] at hrest
        by_cases hblanks : ∃ text, part = .blanks text
        · obtain ⟨text, rfl⟩ := hblanks
          exact toEnd_of_trivia (isTrivia_of_blanks hproper.2) hrest
        · rw [not_exists] at hblanks
          exact toEnd_of_part hproper
            (hend.append_newline tail (Part.not_continues_newline tail hblanks)) hrest
      obtain ⟨tokens, htoEnd, htokens⟩ := ih hpast
      rw [across_past] at htoEnd
      rw [past_line, Nat.add_assoc, ← List.count_append, past_tokens, List.append_assoc] at htokens
      exact ⟨tokens, hpart.trans htoEnd, htokens⟩

/-- Behind parts and a gap that starts with a line break, only the tokens and the line tell what
stood there. -/
theorem toEnd_of_gap {lexer : Lexer} {text gap rest : List Char} {parts : List Part}
    (hparts : Decomposes text parts) (hgap : IsTrivia gap) (hbreak : gap.head? = some '\n')
    (hrest : lexer.rest = text ++ (gap ++ rest)) :
    ∃ tokens, lexer.toEnd = toEnd { lexer.across (text ++ gap) rest with tokens } ∧
      tokens.toList ++ [⟨.endOfFile, "EOF", lexer.line + text.count '\n'⟩] =
        lexer.tokens.toList ++ Part.tokens lexer.line parts := by
  cases gap with
  | nil => contradiction
  | cons c tail =>
      obtain rfl := Option.some.inj hbreak
      obtain ⟨tokens, htoEnd, htokens⟩ := toEnd_of_decomposes hparts (tail ++ rest) hrest
      refine ⟨tokens, ?_, htokens⟩
      rw [htoEnd, toEnd_of_trivia hgap rfl]
      simp [across, Nat.add_assoc]

end Lexer

theorem tokenize_of_below {source other file : String} {earlier : Array Token} {lines : Nat}
    (h : (Lexer.ofSource source file).toEnd =
      ((Lexer.ofSource other file).below source earlier lines).toEnd) :
    (∀ tokens, tokenize other file = .ok tokens →
      tokenize source file = .ok (earlier.toList ++ tokens.map (Token.below lines))) ∧
    ∀ diagnostic, tokenize other file = .error diagnostic →
      tokenize source file = .error (diagnostic.below lines) := by
  rw [Lexer.toEnd_below] at h
  rw [tokenize, tokenize, h]
  cases (Lexer.ofSource other file).toEnd with
  | ok final =>
      constructor
      · intro tokens hfinal
        obtain rfl := Except.ok.inj hfinal
        exact congrArg Except.ok (Lexer.closed_below source earlier lines final)
      · intro diagnostic hfinal
        contradiction
  | error diagnostic =>
      constructor
      · intro tokens hfinal
        contradiction
      · intro other hfinal
        obtain rfl := Except.error.inj hfinal
        rfl

/-- A text that starts with a line break parts two sources: what stands before it is read as by
itself, and so is what stands behind it, only further down. -/
theorem tokenize_append {first : String} {gap : List Char} (second : String) {file : String}
    {tokens : List Token} (hfirst : tokenize first file = .ok tokens) (hgap : IsTrivia gap)
    (hbreak : gap.head? = some '\n') :
    (∀ more, tokenize second file = .ok more →
      tokenize (first ++ String.ofList gap ++ second) file =
        .ok (tokens.dropLast ++
          more.map (Token.below (first.toList.count '\n' + gap.count '\n')))) ∧
    ∀ diagnostic, tokenize second file = .error diagnostic →
      tokenize (first ++ String.ofList gap ++ second) file =
        .error (diagnostic.below (first.toList.count '\n' + gap.count '\n')) := by
  obtain ⟨parts, hparts, rfl⟩ := decomposes_of_tokenize hfirst
  have hrest : (Lexer.ofSource (first ++ String.ofList gap ++ second) file).rest =
      first.toList ++ (gap ++ second.toList) := by
    simp [Lexer.ofSource]
  obtain ⟨earlier, htoEnd, hearlier⟩ := Lexer.toEnd_of_gap hparts hgap hbreak hrest
  have hbehind : { (Lexer.ofSource (first ++ String.ofList gap ++ second) file).across
        (first.toList ++ gap) second.toList with tokens := earlier } =
      (Lexer.ofSource second file).below (first ++ String.ofList gap ++ second) earlier
        (first.toList.count '\n' + gap.count '\n') := by
    simp [Lexer.below, Lexer.across, Lexer.ofSource]
  have hdropLast : (Part.tokens 1 parts).dropLast = earlier.toList := by
    change earlier.toList ++ _ = [] ++ Part.tokens 1 parts at hearlier
    rw [← List.nil_append (Part.tokens 1 parts), ← hearlier, List.dropLast_concat]
  rw [hdropLast]
  apply tokenize_of_below
  rw [htoEnd, hbehind]

theorem tokenize_append_comment :
    tokenize ("a\n- ; b" ++ String.ofList ['\n', ';', ')', '\n', '\t'] ++ "\"\n\" c") "" =
        .ok [⟨.identifier, "a", 1⟩, ⟨.identifier, "-", 2⟩, ⟨.string, "\n", 4⟩,
          ⟨.identifier, "c", 5⟩, ⟨.endOfFile, "EOF", 5⟩] ∧
      tokenize ("a\n- ; b" ++ String.ofList ['\n', ';', ')', '\n', '\t'] ++ "\n'\\x") "" =
        .error ⟨.unknownEscapeCode 'x', 5, ""⟩ := by
  have hfirst : tokenize "a\n- ; b" "" =
      .ok [⟨.identifier, "a", 1⟩, ⟨.identifier, "-", 2⟩, ⟨.endOfFile, "EOF", 2⟩] := rfl
  have hcomment : IsTrivia (';' :: ([')'] ++ '\n' :: ['\t'])) :=
    .comment (by simp) (.blank rfl .nil)
  have hgap : IsTrivia ['\n', ';', ')', '\n', '\t'] := .blank rfl hcomment
  have hsecond : tokenize "\"\n\" c" "" =
      .ok [⟨.string, "\n", 1⟩, ⟨.identifier, "c", 2⟩, ⟨.endOfFile, "EOF", 2⟩] := rfl
  have hfault : tokenize "\n'\\x" "" = .error ⟨.unknownEscapeCode 'x', 2, ""⟩ := rfl
  exact ⟨(tokenize_append _ hfirst hgap rfl).1 _ hsecond,
    (tokenize_append _ hfirst hgap rfl).2 _ hfault⟩

end LispReader
