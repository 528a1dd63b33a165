import LispReader.Proofs.Continuation

namespace LispReader

theorem Spells.mono {levels others : Nat} {tokens : List Token} {forms : List Form}
    (h : Spells levels tokens forms) (hle : levels ≤ others) : Spells others tokens forms := by
  induction h generalizing others with
  | nil => exact .nil
  | leaf hvalue _ ih => exact .leaf hvalue (ih hle)
  | scope hopening _ hclosing _ ihparts ihrest =>
      obtain ⟨others, rfl⟩ := Nat.exists_eq_add_of_le' (Nat.one_le_of_lt hle)
      exact .scope hopening (ihparts (Nat.le_of_succ_le_succ hle)) hclosing (ihrest hle)

theorem Spells.append_max {levels others : Nat} {tokens more : List Token}
    {forms forms' : List Form} (h : Spells levels tokens forms) (h' : Spells others more forms') :
    Spells (max levels others) (tokens ++ more) (forms ++ forms') :=
  (h.mono (Nat.le_max_left levels others)).append (h'.mono (Nat.le_max_right levels others))

/-- The tokens are forms and opening delimiters that are not closed. These are listed with the
innermost first. The forms are all that are complete and lie in no form that is. -/
inductive Opens : List Token → List Opener → List Form → Prop
  | none {levels : Nat} {tokens : List Token} {forms : List Form}
      (hspells : Spells levels tokens forms) : Opens tokens [] forms
  | scope {levels : Nat} {delimiter : Delimiter} {opening : Token} {tokens inner : List Token}
      {opened : List Opener} {forms parts : List Form} (houter : Opens tokens opened forms)
      (hopening : opening.kind = .opening delimiter) (hparts : Spells levels inner parts) :
      Opens (tokens ++ opening :: inner) (⟨delimiter, opening.line⟩ :: opened) (forms ++ parts)

namespace Opens

variable {levels : Nat} {tokens more : List Token} {opened : List Opener} {forms forms' : List Form}

theorem nil : Opens [] [] [] :=
  .none (.nil : Spells 0 [] [])

theorem append (h : Opens tokens opened forms) (hmore : Spells levels more forms') :
    Opens (tokens ++ more) opened (forms ++ forms') := by
  cases h with
  | none hspells => exact .none (hspells.append_max hmore)
  | scope houter hopening hparts =>
      rw [List.append_assoc, List.append_assoc]
      exact .scope houter hopening (hparts.append_max hmore)

theorem enclose {opening : Token} {delimiter : Delimiter} {inner : List Token} {parts : List Form}
    (h : Opens tokens opened forms) (hopening : opening.kind = .opening delimiter)
    (hparts : Spells levels inner parts) :
    Opens (opening :: (inner ++ tokens)) (opened ++ [⟨delimiter, opening.line⟩])
      (parts ++ forms) := by
  induction h with
  | none hspells => exact .scope .nil hopening (hparts.append_max hspells)
  | scope _ hinner hforms ih =>
      have hscope := Opens.scope ih hinner hforms
      simpa using hscope

theorem close {closing : Token} {innermost : Opener} {outer : List Opener}
    (h : Opens tokens (innermost :: outer) forms)
    (hclosing : closing.kind = .closing innermost.delimiter) :
    ∃ forms', Opens (tokens ++ [closing]) outer forms' := by
  cases h with
  | @scope levels delimiter opening tokens inner outer forms parts houter hopening hparts =>
      have hform : Spells (levels + 1) (opening :: (inner ++ [closing]))
          [.scope delimiter parts opening.line] := .scope hopening hparts hclosing .nil
      refine ⟨forms ++ [.scope delimiter parts opening.line], ?_⟩
      rw [List.append_assoc, List.cons_append]
      exact houter.append hform

end Opens

namespace Scan

variable {opened after : List Opener} {tokens : List Token} {forms : List Form} {token : Token}

theorem next_of_step (hstep : step opened token = .ok after) : after = next opened token := by
  rcases step_cases opened token with hnext | ⟨cause, herror, -⟩
  · rw [hnext] at hstep
    exact (Except.ok.inj hstep).symm
  · rw [herror] at hstep
    contradiction

theorem leaf?_of_step (hstep : step opened token = .ok after) (hkind : token.kind ≠ .endOfFile)
    (hopening : ∀ delimiter, token.kind ≠ .opening delimiter)
    (hclosing : ∀ delimiter, token.kind ≠ .closing delimiter) :
    ∃ value, token.leaf? = some value := by
  unfold step at hstep
  unfold Token.leaf?
  cases htoken : token.kind with
  | opening delimiter => exact absurd htoken (hopening delimiter)
  | closing delimiter => exact absurd htoken (hclosing delimiter)
  | endOfFile => exact absurd htoken hkind
  | number => cases hvalue : Number.finite? token.lexeme.toList <;> simp_all
  | integer => cases hvalue : Number.integer? token.lexeme.toList <;> simp_all
  | character =>
      have hne : token.lexeme ≠ "" := by
        intro hempty
        simp [htoken, hempty] at hstep
      cases hlexeme : token.lexeme.toList with
      | nil => exact absurd (String.toList_eq_nil_iff.mp hlexeme) hne
      | cons c rest => exact ⟨.character c, rfl⟩
  | string | identifier => exact ⟨_, rfl⟩

theorem opens_step (h : Opens tokens opened forms) (hkind : token.kind ≠ .endOfFile)
    (hstep : step opened token = .ok after) :
    ∃ forms', Opens (tokens ++ [token]) after forms' := by
  have hafter := next_of_step hstep
  by_cases hopening : ∃ delimiter, token.kind = .opening delimiter
  · obtain ⟨delimiter, hopening⟩ := hopening
    rw [hafter, next, hopening]
    exact ⟨_, .scope h hopening (.nil : Spells 0 [] [])⟩
  by_cases hclosing : ∃ delimiter, token.kind = .closing delimiter
  · obtain ⟨delimiter, hclosing⟩ := hclosing
    cases opened with
    | nil => simp [step, hclosing] at hstep
    | cons innermost outer =>
        by_cases hmatch : innermost.delimiter = delimiter
        · rw [hafter, next, hclosing]
          exact h.close (hmatch ▸ hclosing)
        · simp [step, hclosing, hmatch] at hstep
  · rw [not_exists] at hopening hclosing
    obtain ⟨value, hvalue⟩ := leaf?_of_step hstep hkind hopening hclosing
    have hsame : after = opened := by
      rw [step_leaf hvalue] at hstep
      exact (Except.ok.inj hstep).symm
    have hleaf : Spells 0 [token] [.leaf value token.line] := .leaf hvalue .nil
    rw [hsame]
    exact ⟨_, h.append hleaf⟩

/-- Why a scan fails: at a token that cannot stand where it does, or at the end of the tokens with a
scope still open. -/
inductive Fails (tokens : List Token) : Cause → Nat → Prop
  | token {earlier later : List Token} {token : Token} {opened : List Opener} {forms : List Form}
      {cause : Cause} (htokens : tokens = earlier ++ token :: later)
      (hearlier : Opens earlier opened forms) (hstep : step opened token = .error cause) :
      Fails tokens cause token.line
  | unclosed {innermost : Opener} {outer : List Opener} {forms : List Form}
      (htokens : Opens tokens (innermost :: outer) forms) :
      Fails tokens (.unterminatedScope innermost.delimiter) innermost.line

theorem fails_of_fault {more : List Token} {cause : Cause} {line : Nat}
    (h : Opens tokens opened forms) (hkinds : ∀ token ∈ more, token.kind ≠ .endOfFile)
    (hfault : fault? opened more = some (cause, line)) : Fails (tokens ++ more) cause line := by
  induction more generalizing tokens opened forms with
  | nil =>
      cases opened with
      | nil => contradiction
      | cons innermost outer =>
          obtain ⟨rfl, rfl⟩ := Prod.mk.inj (Option.some.inj hfault)
          rw [List.append_nil]
          exact .unclosed h
  | cons token more ih =>
      cases hstep : step opened token with
      | error cause' =>
          rw [fault?_of_error _ hstep] at hfault
          obtain ⟨rfl, rfl⟩ := Prod.mk.inj (Option.some.inj hfault)
          exact .token rfl h hstep
      | ok after =>
          rw [fault?_of_ok _ hstep] at hfault
          obtain ⟨htoken, hmore⟩ := List.forall_mem_cons.mp hkinds
          obtain ⟨forms', hopens⟩ := opens_step h htoken hstep
          rw [List.append_cons]
          exact ih hopens hmore hfault

end Scan

end LispReader
