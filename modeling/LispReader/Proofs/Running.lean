import LispReader.Proofs.Tokenizing

namespace LispReader

/-- Blanks and comments that are each ended by a line break. -/
inductive IsTrivia : List Char → Prop
  | nil : IsTrivia []
  | blank {c : Char} {rest : List Char} (hblank : Pattern.isBlank c) (hrest : IsTrivia rest) :
      IsTrivia (c :: rest)
  | comment {text rest : List Char} (htext : ∀ c ∈ text, c ≠ '\n') (hrest : IsTrivia rest) :
      IsTrivia (';' :: (text ++ '\n' :: rest))

theorem isTrivia_of_blanks {text : List Char} (h : ∀ c ∈ text, Pattern.isBlank c) :
    IsTrivia text := by
  induction text with
  | nil => exact .nil
  | cons c text ih =>
      exact .blank (h c List.mem_cons_self) (ih fun d hd => h d (List.mem_cons_of_mem c hd))

namespace Lexer

variable {lexer further : Lexer} {part : Part} {c : Char} {text rest : List Char}

theorem length_rest_of_step (hne : lexer.rest ≠ []) (h : lexer.step = .ok further) :
    further.rest.length < lexer.rest.length := by
  obtain ⟨part, rest, hproper, -, hrest, rfl⟩ := step_sound hne h
  have hpos := List.length_pos_iff.mpr (Part.text_ne_nil hproper)
  rw [past_rest, hrest, List.length_append]
  omega

theorem steps_at_end (count : Nat) (hrest : lexer.rest = []) : lexer.steps count = .ok lexer := by
  cases count with
  | zero => rfl
  | succ count => simp [steps, atEnd, hrest]

theorem steps_succ (count : Nat) (hne : lexer.rest ≠ []) :
    lexer.steps (count + 1) = lexer.step.bind (steps count) := by
  have hmore : ¬ lexer.atEnd = true := by simpa [atEnd] using hne
  rw [steps, if_neg hmore]
  cases lexer.step <;> rfl

theorem steps_eq_steps {count bound : Nat} (hcount : lexer.rest.length ≤ count)
    (hbound : lexer.rest.length ≤ bound) : lexer.steps count = lexer.steps bound := by
  induction count generalizing bound lexer with
  | zero =>
      have hrest := List.length_eq_zero_iff.mp (Nat.le_zero.mp hcount)
      rw [steps_at_end _ hrest, steps_at_end _ hrest]
  | succ count ih =>
      by_cases hne : lexer.rest = []
      · rw [steps_at_end _ hne, steps_at_end _ hne]
      · have hpos := List.length_pos_iff.mpr hne
        obtain ⟨bound, rfl⟩ := Nat.exists_eq_add_of_le' (Nat.le_trans hpos hbound)
        rw [steps_succ _ hne, steps_succ _ hne]
        cases hstep : lexer.step with
        | error diagnostic => rfl
        | ok further =>
            have hless := length_rest_of_step hne hstep
            exact ih (by omega) (by omega)

theorem toEnd_eq_bind (hne : lexer.rest ≠ []) : lexer.toEnd = lexer.step.bind toEnd := by
  obtain ⟨count, hcount⟩ := Nat.exists_eq_add_one_of_ne_zero (List.length_eq_zero_iff.not.mpr hne)
  rw [toEnd, hcount, steps_succ _ hne]
  cases hstep : lexer.step with
  | error diagnostic => rfl
  | ok further =>
      have hless := length_rest_of_step hne hstep
      exact steps_eq_steps (by omega) le_rfl

theorem toEnd_of_part (hproper : part.Proper) (hend : Ends part.continues rest)
    (hrest : lexer.rest = part.text ++ rest) : lexer.toEnd = (lexer.past part rest).toEnd := by
  have hne : lexer.rest ≠ [] := by simp [hrest, Part.text_ne_nil hproper]
  rw [toEnd_eq_bind hne, step_of_part hproper hend hrest]
  rfl

theorem toEnd_of_blanks (htext : ∀ c ∈ text, Pattern.isBlank c) (hend : Ends Pattern.isBlank rest)
    (hrest : lexer.rest = text ++ rest) : lexer.toEnd = (lexer.across text rest).toEnd := by
  cases text with
  | nil =>
      rw [List.nil_append] at hrest
      subst hrest
      rfl
  | cons c text =>
      have hproper : (Part.blanks (c :: text)).Proper := ⟨List.cons_ne_nil c text, htext⟩
      exact toEnd_of_part hproper hend hrest

theorem toEnd_of_blank (hblank : Pattern.isBlank c) (hrest : lexer.rest = c :: rest) :
    lexer.toEnd = (lexer.across [c] rest).toEnd := by
  have hsplit : rest.takeWhile Pattern.isBlank ++ rest.dropWhile Pattern.isBlank = rest :=
    List.takeWhile_append_dropWhile
  have hblanks (d : Char) (hd : d ∈ rest.takeWhile Pattern.isBlank) : Pattern.isBlank d :=
    List.mem_takeWhile_imp hd
  have hend := ends_dropWhile Pattern.isBlank rest
  have hall : lexer.toEnd = (lexer.across (c :: rest.takeWhile Pattern.isBlank)
      (rest.dropWhile Pattern.isBlank)).toEnd := by
    apply toEnd_of_blanks _ hend
    · rw [hrest, List.cons_append, hsplit]
    · exact List.forall_mem_cons.mpr ⟨hblank, hblanks⟩
  have hrest' : (lexer.across [c] rest).rest = rest.takeWhile Pattern.isBlank ++
      rest.dropWhile Pattern.isBlank := hsplit.symm
  rw [hall, toEnd_of_blanks hblanks hend hrest', across_across, List.singleton_append]

theorem toEnd_of_trivia (h : IsTrivia text) (hrest : lexer.rest = text ++ rest) :
    lexer.toEnd = (lexer.across text rest).toEnd := by
  induction h generalizing lexer with
  | nil =>
      rw [List.nil_append] at hrest
      subst hrest
      rfl
  | @blank c text hblank _ ih =>
      rw [List.cons_append] at hrest
      rw [toEnd_of_blank hblank hrest, ih (across_rest _ _ _), across_across,
        List.singleton_append]
  | @comment words text hwords _ ih =>
      have hproper : (Part.comment words).Proper := hwords
      have hend : Ends (Part.comment words).continues ('\n' :: (text ++ rest)) :=
        ends_cons _ (by simp [Part.continues])
      have hall : lexer.rest = (Part.comment words).text ++ '\n' :: (text ++ rest) := by
        simp [hrest, Part.text]
      have hcomment := toEnd_of_part hproper hend hall
      have hbreak : (lexer.past (.comment words) ('\n' :: (text ++ rest))).rest =
          '\n' :: (text ++ rest) := rfl
      rw [hcomment, toEnd_of_blank (by decide) hbreak]
      change ((lexer.across (';' :: words) _).across ['\n'] _).toEnd = _
      rw [across_across, ih (across_rest _ _ _), across_across]
      simp

end Lexer

end LispReader
