import LispReader.Proofs.Grammar

namespace LispReader

structure Opener where
  delimiter : Delimiter
  line : Nat

namespace Scan

def closingName : Delimiter → String
  | .paren => "Right Parenthesis"
  | .bracket => "Right Bracket"

theorem name_closing (delimiter : Delimiter) :
    (TokenKind.closing delimiter).name = closingName delimiter := by
  cases delimiter <;> rfl

/-- What a token makes of the scopes that are open, the innermost first, or why it cannot stand
there. A literal is looked at by itself. -/
def step (opened : List Opener) (token : Token) : Except Cause (List Opener) :=
  match token.kind with
  | .opening delimiter =>
      if opened.length < maxDepth then .ok (⟨delimiter, token.line⟩ :: opened)
      else .error (.nestingTooDeep maxDepth)
  | .closing delimiter =>
      match opened with
      | [] => .error (.unexpectedToken (closingName delimiter))
      | innermost :: outer =>
          if innermost.delimiter = delimiter then .ok outer
          else .error (.unexpectedToken (closingName delimiter))
  | .number =>
      if Number.finite? token.lexeme.toList = none then .error (.unreadableNumber token.lexeme)
      else .ok opened
  | .integer =>
      if Number.integer? token.lexeme.toList = none then .error (.unreadableInteger token.lexeme)
      else .ok opened
  | .character =>
      if token.lexeme = "" then .error (.unexpectedToken "Character") else .ok opened
  | .string | .identifier | .endOfFile => .ok opened

/-- What is wrong first with tokens that have scopes open before them, and the line where. At the
end it is the innermost scope that is still open. -/
def fault? : List Opener → List Token → Option (Cause × Nat)
  | [], [] => none
  | innermost :: _, [] => some (.unterminatedScope innermost.delimiter, innermost.line)
  | opened, token :: tokens =>
      match step opened token with
      | .ok opened => fault? opened tokens
      | .error cause => some (cause, token.line)

theorem fault?_of_ok {opened after : List Opener} {token : Token} (tokens : List Token)
    (hstep : step opened token = .ok after) :
    fault? opened (token :: tokens) = fault? after tokens := by
  rw [fault?, hstep]

theorem fault?_of_error {opened : List Opener} {token : Token} {cause : Cause}
    (tokens : List Token) (hstep : step opened token = .error cause) :
    fault? opened (token :: tokens) = some (cause, token.line) := by
  rw [fault?, hstep]

theorem step_opening {opened : List Opener} {token : Token} {delimiter : Delimiter}
    (hkind : token.kind = .opening delimiter) (hdepth : opened.length < maxDepth) :
    step opened token = .ok (⟨delimiter, token.line⟩ :: opened) := by
  simp [step, hkind, hdepth]

theorem step_too_deep {opened : List Opener} {token : Token} {delimiter : Delimiter}
    (hkind : token.kind = .opening delimiter) (hdepth : maxDepth ≤ opened.length) :
    step opened token = .error (.nestingTooDeep maxDepth) := by
  simp [step, hkind, Nat.not_lt.mpr hdepth]

theorem step_closing {token : Token} {innermost : Opener} (outer : List Opener)
    (hkind : token.kind = .closing innermost.delimiter) :
    step (innermost :: outer) token = .ok outer := by
  simp [step, hkind]

theorem step_leaf {opened : List Opener} {token : Token} {value : Leaf}
    (hvalue : token.leaf? = some value) : step opened token = .ok opened := by
  unfold Token.leaf? at hvalue
  unfold step
  split at hvalue <;> rename_i hkind <;> simp only [hkind]
  · obtain ⟨number, hnumber, -⟩ := Option.map_eq_some_iff.mp hvalue
    simp [hnumber]
  · obtain ⟨integer, hinteger, -⟩ := Option.map_eq_some_iff.mp hvalue
    simp [hinteger]
  · obtain ⟨c, hc, -⟩ := Option.map_eq_some_iff.mp hvalue
    have hne : token.lexeme ≠ "" := by
      rintro h
      simp [h] at hc
    simp [hne]
  all_goals simp at hvalue

theorem fault?_append {levels : Nat} {tokens : List Token} {forms : List Form}
    (h : Spells levels tokens forms) (opened : List Opener)
    (hdepth : opened.length + levels ≤ maxDepth) (rest : List Token) :
    fault? opened (tokens ++ rest) = fault? opened rest := by
  induction h generalizing opened rest with
  | nil => rfl
  | leaf hvalue _ ih =>
      rw [List.cons_append, fault?_of_ok _ (step_leaf hvalue), ih _ hdepth]
  | @scope levels delimiter opening closing inner tokens parts forms hopening _ hclosing _
        ihparts ihrest =>
      have hinside : (⟨delimiter, opening.line⟩ :: opened : List Opener).length + levels ≤
          maxDepth := by
        rw [List.length_cons]
        omega
      rw [List.cons_append, fault?_of_ok _ (step_opening hopening (by omega)), List.append_assoc,
        ihparts _ hinside, List.cons_append, fault?_of_ok _ (step_closing opened hclosing),
        ihrest _ hdepth]

def stops : List Opener → List TokenKind
  | [] => [.endOfFile]
  | innermost :: _ => [.endOfFile, .closing innermost.delimiter]

theorem step_unexpected {opened : List Opener} {token : Token} {delimiter : Delimiter}
    (hkind : token.kind = .closing delimiter) (hstop : token.kind ∉ stops opened) :
    step opened token = .error (.unexpectedToken token.kind.name) := by
  rw [hkind, name_closing]
  cases opened with
  | nil => simp [step, hkind]
  | cons innermost outer =>
      have hne : innermost.delimiter ≠ delimiter := by
        rintro rfl
        simp [stops, hkind] at hstop
      simp [step, hkind, hne]

end Scan

end LispReader
