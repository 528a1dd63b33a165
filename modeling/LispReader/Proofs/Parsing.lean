import LispReader.Proofs.Reading

namespace LispReader

theorem Spells.fault?_eq_none {tokens : List Token} {forms : List Form}
    (h : Spells maxDepth tokens forms) : Scan.fault? [] tokens = none := by
  have hscan := Scan.fault?_append h [] (by simp) []
  rwa [List.append_nil] at hscan

theorem parse_of_spells {tokens : List Token} {forms : List Form} (file : String)
    (h : Spells maxDepth (beforeEnd tokens) forms) :
    parse tokens file = .ok (.ofForms forms) := by
  rcases parse_outcome tokens file with ⟨forms', hspells, hparse⟩ | ⟨cause, line, hfault, _⟩
  · rw [h.unique hspells]
    exact hparse
  · rw [h.fault?_eq_none] at hfault
    contradiction

theorem parse_of_fault {tokens : List Token} {cause : Cause} {line : Nat} (file : String)
    (h : Scan.fault? [] (beforeEnd tokens) = some (cause, line)) :
    parse tokens file = .error ⟨cause, line, file⟩ := by
  rcases parse_outcome tokens file with ⟨forms, hspells, _⟩ | ⟨cause', line', hfault, hparse⟩
  · rw [hspells.fault?_eq_none] at h
    contradiction
  · rw [h] at hfault
    obtain ⟨rfl, rfl⟩ := Prod.mk.inj (Option.some.inj hfault)
    exact hparse

theorem spells_of_parse {tokens : List Token} {file : String} {tree : Arena}
    (h : parse tokens file = .ok tree) :
    ∃ forms, Spells maxDepth (beforeEnd tokens) forms ∧ tree = .ofForms forms := by
  rcases parse_outcome tokens file with ⟨forms, hspells, hparse⟩ | ⟨_, _, _, hparse⟩
  · rw [hparse] at h
    exact ⟨forms, hspells, (Except.ok.inj h).symm⟩
  · rw [hparse] at h
    contradiction

theorem fault_of_parse {tokens : List Token} {file : String} {diagnostic : Diagnostic}
    (h : parse tokens file = .error diagnostic) :
    ∃ cause line, Scan.fault? [] (beforeEnd tokens) = some (cause, line) ∧
      diagnostic = ⟨cause, line, file⟩ := by
  rcases parse_outcome tokens file with ⟨_, _, hparse⟩ | ⟨cause, line, hfault, hparse⟩
  · rw [hparse] at h
    contradiction
  · rw [hparse] at h
    exact ⟨cause, line, hfault, (Except.error.inj h).symm⟩

theorem parse_of_no_fault {tokens : List Token} (file : String)
    (h : Scan.fault? [] (beforeEnd tokens) = none) : ∃ tree, parse tokens file = .ok tree := by
  rcases parse_outcome tokens file with ⟨_, _, hparse⟩ | ⟨_, _, hfault, _⟩
  · exact ⟨_, hparse⟩
  · rw [h] at hfault
    contradiction

theorem parse_beforeEnd (tokens : List Token) (file : String) :
    parse (beforeEnd tokens) file = parse tokens file := by
  rcases parse_outcome tokens file with ⟨forms, hspells, hparse⟩ | ⟨cause, line, hfault, hparse⟩
  · rw [hparse]
    exact parse_of_spells file (by rw [beforeEnd_beforeEnd]; exact hspells)
  · rw [hparse]
    exact parse_of_fault file (by rw [beforeEnd_beforeEnd]; exact hfault)

/-- Exactly the token lists of the grammar are accepted, with the forms that they spell in the
arena, and nothing behind the first end of the source counts. -/
theorem parse_accepts_grammar (tokens : List Token) (file : String) :
    ((∃ tree, parse tokens file = .ok tree) ↔
      ∃ forms, Spells maxDepth (beforeEnd tokens) forms) ∧
    (∀ forms, Spells maxDepth (beforeEnd tokens) forms ↔
      ∃ tree, parse tokens file = .ok tree ∧ tree.Unfolds tree.program forms) ∧
    parse tokens file = parse (beforeEnd tokens) file := by
  refine ⟨⟨?_, ?_⟩, fun forms => ⟨?_, ?_⟩, (parse_beforeEnd tokens file).symm⟩
  · rintro ⟨tree, htree⟩
    rcases parse_outcome tokens file with ⟨forms, hspells, _⟩ | ⟨cause, line, _, hparse⟩
    · exact ⟨forms, hspells⟩
    · rw [hparse] at htree
      contradiction
  · rintro ⟨forms, hspells⟩
    exact ⟨_, parse_of_spells file hspells⟩
  · intro hspells
    exact ⟨_, parse_of_spells file hspells, Arena.ofForms_unfolds forms⟩
  · rintro ⟨tree, htree, hunfolds⟩
    rcases parse_outcome tokens file with ⟨forms', hspells, hparse⟩ | ⟨cause, line, _, hparse⟩
    · rw [hparse] at htree
      obtain rfl := Except.ok.inj htree
      rw [hunfolds.unique (Arena.ofForms_unfolds forms')]
      exact hspells
    · rw [hparse] at htree
      contradiction

/-- The diagnostic of a token list is what one scan from the left with a stack of the open
delimiters finds first, and there is none where the scan finds nothing. -/
theorem parse_reports_first_fault (tokens : List Token) (file : String) :
    (∀ diagnostic, parse tokens file = .error diagnostic ↔
      ∃ cause line, Scan.fault? [] (beforeEnd tokens) = some (cause, line) ∧
        diagnostic = ⟨cause, line, file⟩) ∧
    ((∃ tree, parse tokens file = .ok tree) ↔ Scan.fault? [] (beforeEnd tokens) = none) := by
  rcases parse_outcome tokens file with ⟨forms, hspells, hparse⟩ | ⟨cause, line, hfault, hparse⟩
  · rw [hparse, hspells.fault?_eq_none]
    simp
  · rw [hparse, hfault]
    constructor
    · intro diagnostic
      constructor
      · intro h
        exact ⟨cause, line, rfl, (Except.error.inj h).symm⟩
      · rintro ⟨cause', line', h, rfl⟩
        obtain ⟨rfl, rfl⟩ := Prod.mk.inj (Option.some.inj h)
        rfl
    · simp

end LispReader
