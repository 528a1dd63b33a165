import LispReader.Proofs.Rules

namespace LispReader

variable {kind : TokenKind} {rule : Rule} {opened : List Opener} {levels : Nat}
  {parser after : Parser} {diagnostic : Diagnostic}

theorem RuleTable.kind?_of_standard (h : RuleTable.addStandard .empty kind = some rule) :
    rule.kind? = some kind := by
  cases kind with
  | opening delimiter =>
      cases delimiter <;> obtain rfl := Option.some.inj h <;> rfl
  | closing delimiter => cases delimiter <;> contradiction
  | endOfFile => contradiction
  | number | integer | character | string | identifier =>
      obtain rfl := Option.some.inj h
      rfl

theorem RuleTable.standard_eq_none (h : RuleTable.addStandard .empty kind = none) :
    kind = .endOfFile ∨ ∃ delimiter, kind = .closing delimiter := by
  cases kind with
  | opening delimiter => cases delimiter <;> contradiction
  | closing delimiter => exact .inr ⟨delimiter, rfl⟩
  | endOfFile => exact .inl rfl
  | number | integer | character | string | identifier => contradiction

namespace Parser

/-- The parser knows every kind that begins a form, it is inside the scopes `opened`, and `levels`
more may be opened. -/
structure Ready (opened : List Opener) (levels : Nat) (parser : Parser) : Prop where
  rules : parser.rules = .addStandard .empty
  depth : parser.depth = opened.length
  levels : opened.length + levels = maxDepth

namespace Ready

theorem free (h : parser.Ready opened levels) : Parse.Free levels parser := by
  refine ⟨h.depth ▸ h.levels, fun kind hany => ?_⟩
  rw [h.rules] at hany
  have := RuleTable.kind?_of_standard hany
  contradiction

theorem past (h : parser.Ready opened levels) (tokens : List Token) (forms : List Form)
    (rest : List Token) : (parser.past tokens forms rest).Ready opened levels :=
  ⟨h.rules, h.depth, h.levels⟩

theorem inside (h : parser.Ready opened (levels + 1)) (delimiter : Delimiter) (opening : Token)
    (rest : List Token) :
    (parser.inside opening rest).Ready (⟨delimiter, opening.line⟩ :: opened) levels := by
  refine ⟨h.rules, ?_, ?_⟩
  · rw [List.length_cons, ← h.depth]
    rfl
  · have := h.levels
    rw [List.length_cons]
    omega

end Ready

theorem beforeEnd_of_kind (hkind : parser.kind = .endOfFile) : beforeEnd parser.rest = [] := by
  unfold kind at hkind
  split at hkind
  · next hrest => rw [hrest]; rfl
  · next token rest hrest => rw [hrest, beforeEnd_end rest hkind]

end Parser

theorem Scan.fault?_inside {opening : Token} {inner rest : List Token} {parts : List Form}
    {delimiter : Delimiter} (hkind : opening.kind = .opening delimiter)
    (hparts : Spells levels inner parts) (hlevels : opened.length + (levels + 1) = maxDepth) :
    fault? opened (beforeEnd (opening :: (inner ++ rest))) =
      fault? (⟨delimiter, opening.line⟩ :: opened) (beforeEnd rest) := by
  rw [beforeEnd_cons _ (by simp [hkind]), fault?_of_ok _ (step_opening hkind (by omega)),
    hparts.beforeEnd_append, fault?_append hparts _ (by rw [List.length_cons]; omega)]

theorem Parse.Fails.fault? (h : Fails rule levels parser diagnostic after)
    (hready : parser.Ready opened levels) (hstop : parser.kind ∉ Scan.stops opened)
    (hrule : rule = .any ∨ parser.rules parser.kind = some rule) :
    Scan.fault? opened (beforeEnd parser.rest) = some (diagnostic.cause, diagnostic.line) ∧
      diagnostic.file = parser.file := by
  induction h generalizing opened with
  | refused hany hkind =>
      rw [hready.rules] at hrule
      exact absurd (RuleTable.kind?_of_standard (hrule.resolve_left hany)) hkind
  | unreadable hrest hkind hfault =>
      rw [hrest, beforeEnd_cons _ hkind]
      exact ⟨Scan.fault?_of_error _ (hfault opened), rfl⟩
  | tooDeep hrest hkind =>
      rw [hrest, beforeEnd_cons _ (by simp [hkind])]
      exact ⟨Scan.fault?_of_error _ (Scan.step_too_deep hkind hready.levels.ge), rfl⟩
  | @inside _ _ _ opening inner rest parts delimiter _ _ hrest hkind hparts hinner _ ih =>
      rw [hrest, Scan.fault?_inside hkind hparts hready.levels]
      exact ih ((hready.inside delimiter opening _).past inner parts rest) hinner (.inl rfl)
  | @unterminated _ _ _ _ _ rest _ _ after hrest hkind hparts hafter hend =>
      have hafterRest : after.rest = rest := by rw [hafter]; rfl
      have hnone : beforeEnd rest = [] := hafterRest ▸ Parser.beforeEnd_of_kind hend
      rw [hrest, Scan.fault?_inside hkind hparts hready.levels, hnone]
      exact ⟨rfl, rfl⟩
  | @noRule _ parser hnone =>
      rw [hready.rules] at hnone
      rcases RuleTable.standard_eq_none hnone with hend | ⟨delimiter, hclosing⟩
      · cases opened <;> simp [hend, Scan.stops] at hstop
      · cases hrest : parser.rest with
        | nil => simp [Parser.kind, hrest] at hclosing
        | cons token rest =>
            rw [Parser.kind_of_rest hrest] at hclosing hstop
            rw [beforeEnd_cons _ (by simp [hclosing]), Parser.unexpected_of_rest hrest]
            exact ⟨Scan.fault?_of_error _ (Scan.step_unexpected hclosing hstop), rfl⟩
  | byRule hother _ ih => exact ih hready hstop (.inr hother)

def Parser.initial (tokens : List Token) (file : String) : Parser :=
  { Parser.ofTokens tokens file with rules := .addStandard .empty }

variable {tokens : List Token} {file : String} {after : Parser}

theorem parse_of_ok {program : List NodeId}
    (h : Parse.itemsUntil (Scan.stops []) (Parse.formWithin tokens.length maxDepth) tokens.length []
      (.initial tokens file) = .ok program after) :
    parse tokens file = .ok { after.tree with program } := by
  rw [Scan.stops, Parser.initial] at h
  rw [parse, h]

theorem parse_of_error {diagnostic : Diagnostic}
    (h : Parse.itemsUntil (Scan.stops []) (Parse.formWithin tokens.length maxDepth) tokens.length []
      (.initial tokens file) = .error diagnostic after) :
    parse tokens file = .error diagnostic := by
  rw [Scan.stops, Parser.initial] at h
  rw [parse, h]

/-- Reading all forms of a source ends as the scan of the tokens before its end says. -/
theorem parse_outcome (tokens : List Token) (file : String) :
    (∃ forms, Spells maxDepth (beforeEnd tokens) forms ∧
      parse tokens file = .ok (.ofForms forms)) ∨
    ∃ cause line, Scan.fault? [] (beforeEnd tokens) = some (cause, line) ∧
      parse tokens file = .error ⟨cause, line, file⟩ := by
  have hready : (Parser.initial tokens file).Ready [] maxDepth := ⟨rfl, rfl, Nat.zero_add _⟩
  have hend : TokenKind.endOfFile ∈ Scan.stops [] := List.mem_singleton_self _
  have hread := Parse.itemsUntil_reads (Parse.formWithin_reads tokens.length maxDepth) hend
    tokens.length [] _ hready.free le_rfl le_rfl
  generalize hresult : Parse.itemsUntil _ _ _ _ _ = result at hread
  cases hread with
  | @forms spelled rest forms hrest hspells hstop =>
      left
      have hkind : ((Parser.initial tokens file).past spelled forms rest).kind = .endOfFile := by
        simpa [Scan.stops] using hstop
      have hnone : beforeEnd rest = [] := Parser.beforeEnd_of_kind hkind
      have hall : beforeEnd tokens = spelled := by
        change tokens = spelled ++ rest at hrest
        rw [hrest, hspells.beforeEnd_append, hnone, List.append_nil]
      rw [hall]
      exact ⟨forms, hspells, parse_of_ok hresult⟩
  | @failed spelled rest forms diagnostic after hrest hspells hstop hfails =>
      right
      obtain ⟨hfault, hfile⟩ := hfails.fault? (hready.past spelled forms rest) hstop (.inl rfl)
      refine ⟨diagnostic.cause, diagnostic.line, ?_, ?_⟩
      · change tokens = spelled ++ rest at hrest
        rw [hrest, hspells.beforeEnd_append, Scan.fault?_append hspells _ (Nat.zero_add _).le]
        exact hfault
      · have hparse := parse_of_error hresult
        change diagnostic.file = file at hfile
        rw [hparse, ← hfile]

end LispReader
