import LispReader.Parser.Form
import LispReader.Proofs.Layout
import LispReader.Proofs.Scan

namespace LispReader

def Rule.kind? : Rule → Option TokenKind
  | .scope delimiter => some (.opening delimiter)
  | .number => some .number
  | .integer => some .integer
  | .character => some .character
  | .string => some .string
  | .identifier => some .identifier
  | .any => none

namespace Parser

/-- The parser behind tokens that were read as forms. -/
def past (tokens : List Token) (forms : List Form) (rest : List Token) (parser : Parser) : Parser :=
  { parser with
    done := tokens.reverse ++ parser.done
    rest
    tree := (Arena.placeAll forms parser.tree).2 }

def inside (opening : Token) (rest : List Token) (parser : Parser) : Parser :=
  { parser.past [opening] [] rest with depth := parser.depth + 1 }

theorem past_past (tokens others rest : List Token) (forms more : List Form) (parser : Parser) :
    (parser.past tokens forms (others ++ rest)).past others more rest =
      parser.past (tokens ++ others) (forms ++ more) rest := by
  simp [past]

theorem closeScope_inside (opening closing : Token) (inner rest : List Token)
    (parts : List Form) (delimiter : Delimiter) (parser : Parser) :
    let closed := ((parser.inside opening (inner ++ closing :: rest)).past inner parts
      (closing :: rest)).advance.closeScope
    let node :=
      closed.tree.push (.scope delimiter (Arena.placeAll parts parser.tree).1 opening.line)
    node.1 = (Arena.place (.scope delimiter parts opening.line) parser.tree).1 ∧
      { closed with tree := node.2 } =
        parser.past (opening :: (inner ++ [closing])) [.scope delimiter parts opening.line]
          rest := by
  simp [past, inside, advance, closeScope, Arena.place, Arena.placeAll]

theorem kind_of_rest {parser : Parser} {token : Token} {rest : List Token}
    (hrest : parser.rest = token :: rest) : parser.kind = token.kind := by
  simp [kind, hrest]

theorem unexpected_of_rest {parser : Parser} {token : Token} {rest : List Token}
    (hrest : parser.rest = token :: rest) :
    parser.unexpected = ⟨.unexpectedToken token.kind.name, token.line, parser.file⟩ := by
  simp [unexpected, diagnostic, diagnosticAt, kind, line, hrest]

end Parser

namespace Parse

variable {α β : Type}

theorem bind_of_ok {x : Parse α} {f : α → Parse β} {parser after : Parser} {a : α}
    (h : x parser = .ok a after) : (x >>= f) parser = f a after := by
  change EStateM.bind x f parser = _
  rw [EStateM.bind, h]

theorem bind_of_error {x : Parse α} {f : α → Parse β} {parser after : Parser}
    {diagnostic : Diagnostic} (h : x parser = .error diagnostic after) :
    (x >>= f) parser = .error diagnostic after := by
  change EStateM.bind x f parser = _
  rw [EStateM.bind, h]

theorem expect_of_rest {parser : Parser} {token : Token} {rest : List Token}
    (hrest : parser.rest = token :: rest) :
    expect token.kind parser = .ok token (parser.past [token] [] rest) := by
  simp [expect, hrest, Parser.advance, Parser.past, Arena.placeAll]

theorem expect_elsewhere {parser : Parser} {kind : TokenKind} (hkind : parser.kind ≠ kind) :
    expect kind parser = .error parser.unexpected parser := by
  unfold expect
  split
  · next token rest hrest =>
      rw [Parser.kind_of_rest hrest] at hkind
      rw [if_neg hkind]
      rfl
  · rfl

/-- What a lexeme was read as is what its token is by itself, or what the scan says of it. -/
inductive Agrees (token : Token) : Except Cause Leaf → Prop
  | value {value : Leaf} (hvalue : token.leaf? = some value) : Agrees token (.ok value)
  | fault {cause : Cause} (hfault : ∀ opened, Scan.step opened token = .error cause) :
      Agrees token (.error cause)

theorem ofNumber_agrees {token : Token} (hkind : token.kind = .number) :
    Agrees token (Leaf.ofNumber token.lexeme) := by
  unfold Leaf.ofNumber
  split
  · next value hvalue => exact .value (by simp [Token.leaf?, hkind, hvalue])
  · next hnone => exact .fault (by simp [Scan.step, hkind, hnone])

theorem ofInteger_agrees {token : Token} (hkind : token.kind = .integer) :
    Agrees token (Leaf.ofInteger token.lexeme) := by
  unfold Leaf.ofInteger
  split
  · next value hvalue => exact .value (by simp [Token.leaf?, hkind, hvalue])
  · next hnone => exact .fault (by simp [Scan.step, hkind, hnone])

theorem ofCharacter_agrees {token : Token} (hkind : token.kind = .character) :
    Agrees token (Leaf.ofCharacter token.lexeme) := by
  unfold Leaf.ofCharacter
  split
  · next c rest hlexeme => exact .value (by simp [Token.leaf?, hkind, hlexeme])
  · next hlexeme =>
      rw [String.toList_eq_nil_iff] at hlexeme
      exact .fault (by simp [Scan.step, hkind, hlexeme, TokenKind.name])

structure Free (levels : Nat) (parser : Parser) : Prop where
  depth : parser.depth + levels = maxDepth
  rules : ∀ kind, parser.rules kind ≠ some .any

/-- How reading by a rule fails where so many levels are left, with the diagnostic and the parser
behind it. Any form is read by the rule of its first token. -/
inductive Fails : Rule → Nat → Parser → Diagnostic → Parser → Prop
  | refused {rule : Rule} {levels : Nat} {parser : Parser} (hany : rule ≠ .any)
      (hkind : rule.kind? ≠ some parser.kind) : Fails rule levels parser parser.unexpected parser
  | unreadable {rule : Rule} {levels : Nat} {parser : Parser} {token : Token} {rest : List Token}
      {cause : Cause} (hrest : parser.rest = token :: rest) (hkind : token.kind ≠ .endOfFile)
      (hfault : ∀ opened, Scan.step opened token = .error cause) :
      Fails rule levels parser ⟨cause, token.line, parser.file⟩ (parser.past [token] [] rest)
  | tooDeep {rule : Rule} {parser : Parser} {opening : Token} {rest : List Token}
      {delimiter : Delimiter} (hrest : parser.rest = opening :: rest)
      (hkind : opening.kind = .opening delimiter) :
      Fails rule 0 parser ⟨.nestingTooDeep maxDepth, opening.line, parser.file⟩
        (parser.past [opening] [] rest)
  | inside {rule : Rule} {levels : Nat} {parser : Parser} {opening : Token}
      {inner rest : List Token} {parts : List Form} {delimiter : Delimiter}
      {diagnostic : Diagnostic} {after : Parser} (hrest : parser.rest = opening :: (inner ++ rest))
      (hkind : opening.kind = .opening delimiter) (hparts : Spells levels inner parts)
      (hstop : ((parser.inside opening (inner ++ rest)).past inner parts rest).kind ∉
        [.endOfFile, .closing delimiter])
      (h : Fails .any levels ((parser.inside opening (inner ++ rest)).past inner parts rest)
        diagnostic after) : Fails rule (levels + 1) parser diagnostic after
  | unterminated {rule : Rule} {levels : Nat} {parser : Parser} {opening : Token}
      {inner rest : List Token} {parts : List Form} {delimiter : Delimiter} {after : Parser}
      (hrest : parser.rest = opening :: (inner ++ rest))
      (hkind : opening.kind = .opening delimiter) (hparts : Spells levels inner parts)
      (hafter : after = (parser.inside opening (inner ++ rest)).past inner parts rest)
      (hend : after.kind = .endOfFile) :
      Fails rule (levels + 1) parser
        ⟨.unterminatedScope delimiter, opening.line, parser.file⟩ after
  | noRule {levels : Nat} {parser : Parser} (hrule : parser.rules parser.kind = none) :
      Fails .any levels parser parser.unexpected parser
  | byRule {rule : Rule} {levels : Nat} {parser : Parser} {diagnostic : Diagnostic}
      {after : Parser} (hrule : parser.rules parser.kind = some rule)
      (h : Fails rule levels parser diagnostic after) : Fails .any levels parser diagnostic after

inductive Reads (rule : Rule) (levels : Nat) (parser : Parser) :
    EStateM.Result Diagnostic Parser NodeId → Prop
  | form {tokens rest : List Token} {form : Form} (hrest : parser.rest = tokens ++ rest)
      (hspells : Spells levels tokens [form]) :
      Reads rule levels parser
        (.ok (Arena.place form parser.tree).1 (parser.past tokens [form] rest))
  | failed {diagnostic : Diagnostic} {after : Parser}
      (h : Fails rule levels parser diagnostic after) :
      Reads rule levels parser (.error diagnostic after)

/-- How reading the forms of a scope ends, with those in `found` read before: at a token where they
stop, or with a form that cannot be read. -/
inductive ReadsItems (levels : Nat) (stops : List TokenKind) (found : List NodeId)
    (parser : Parser) : EStateM.Result Diagnostic Parser (List NodeId) → Prop
  | forms {tokens rest : List Token} {forms : List Form} (hrest : parser.rest = tokens ++ rest)
      (hspells : Spells levels tokens forms)
      (hstop : (parser.past tokens forms rest).kind ∈ stops) :
      ReadsItems levels stops found parser
        (.ok (found.reverse ++ (Arena.placeAll forms parser.tree).1)
          (parser.past tokens forms rest))
  | failed {tokens rest : List Token} {forms : List Form} {diagnostic : Diagnostic}
      {after : Parser} (hrest : parser.rest = tokens ++ rest) (hspells : Spells levels tokens forms)
      (hstop : (parser.past tokens forms rest).kind ∉ stops)
      (h : Fails .any levels (parser.past tokens forms rest) diagnostic after) :
      ReadsItems levels stops found parser (.error diagnostic after)

def ReadsAny (bound levels : Nat) (item : Parse NodeId) : Prop :=
  ∀ parser : Parser, Free levels parser → parser.rest.length ≤ bound →
    Reads .any levels parser (item parser)

variable {bound levels : Nat} {parser : Parser} {item : Parse NodeId} {rule : Rule}

namespace Free

theorem past (h : Free levels parser) (tokens : List Token) (forms : List Form)
    (rest : List Token) : Free levels (parser.past tokens forms rest) :=
  ⟨h.depth, h.rules⟩

theorem inside (h : Free (levels + 1) parser) (opening : Token) (rest : List Token) :
    Free levels (parser.inside opening rest) := by
  have hdepth : parser.depth + 1 + levels = maxDepth := by
    rw [← h.depth]
    omega
  exact ⟨hdepth, h.rules⟩

end Free

section Items

variable {stops : List TokenKind} {found : List NodeId}

theorem itemsUntil_at_stop (item : Parse NodeId) (count : Nat) (found : List NodeId)
    (hstop : parser.kind ∈ stops) :
    itemsUntil stops item (count + 1) found parser = .ok found.reverse parser := by
  have hat : parser.isAtAny stops = true := by simpa [Parser.isAtAny] using hstop
  rw [itemsUntil]
  change (if parser.isAtAny stops then (pure found.reverse : Parse (List NodeId)) else _) parser = _
  rw [if_pos hat]
  rfl

theorem itemsUntil_item (item : Parse NodeId) (count : Nat) (found : List NodeId)
    (hstop : parser.kind ∉ stops) :
    itemsUntil stops item (count + 1) found parser =
      (item >>= fun id => itemsUntil stops item count (id :: found)) parser := by
  have hat : ¬ parser.isAtAny stops = true := by simpa [Parser.isAtAny] using hstop
  rw [itemsUntil]
  change (if parser.isAtAny stops then _ else (item >>= _ : Parse (List NodeId))) parser = _
  rw [if_neg hat]

theorem ReadsItems.none (hstop : parser.kind ∈ stops) :
    ReadsItems levels stops found parser (.ok found.reverse parser) := by
  have h : ReadsItems levels stops found parser (.ok (found.reverse ++ []) parser) :=
    .forms rfl .nil hstop
  rwa [List.append_nil] at h

theorem ReadsItems.cons {tokens rest : List Token} {form : Form}
    {result : EStateM.Result Diagnostic Parser (List NodeId)}
    (hrest : parser.rest = tokens ++ rest) (hspells : Spells levels tokens [form])
    (h : ReadsItems levels stops ((Arena.place form parser.tree).1 :: found)
      (parser.past tokens [form] rest) result) :
    ReadsItems levels stops found parser result := by
  cases h with
  | @forms others rest' forms hothers hmore hstop =>
      obtain rfl : rest = others ++ rest' := hothers
      rw [Parser.past_past] at hstop ⊢
      have hall : parser.rest = (tokens ++ others) ++ rest' := by rw [hrest, List.append_assoc]
      have hread : ReadsItems levels stops found parser
          (.ok (found.reverse ++ (Arena.placeAll ([form] ++ forms) parser.tree).1)
            (parser.past (tokens ++ others) ([form] ++ forms) rest')) :=
        .forms hall (hspells.append hmore) hstop
      simpa [Arena.placeAll, Parser.past] using hread
  | @failed others rest' forms diagnostic after hothers hmore hstop h =>
      obtain rfl : rest = others ++ rest' := hothers
      rw [Parser.past_past] at hstop h
      have hall : parser.rest = (tokens ++ others) ++ rest' := by rw [hrest, List.append_assoc]
      exact .failed hall (hspells.append hmore) hstop h

theorem itemsUntil_reads (hitem : ReadsAny bound levels item) (hend : .endOfFile ∈ stops)
    (count : Nat) (found : List NodeId) (parser : Parser) (hfree : Free levels parser)
    (hbound : parser.rest.length ≤ bound) (hcount : parser.rest.length ≤ count) :
    ReadsItems levels stops found parser (itemsUntil stops item count found parser) := by
  induction count generalizing found parser with
  | zero =>
      have hrest : parser.rest = [] := List.length_eq_zero_iff.mp (Nat.le_zero.mp hcount)
      have hkind : parser.kind = .endOfFile := by rw [Parser.kind, hrest]
      exact ReadsItems.none (by rwa [hkind])
  | succ count ih =>
      by_cases hstop : parser.kind ∈ stops
      · rw [itemsUntil_at_stop item count found hstop]
        exact ReadsItems.none hstop
      · rw [itemsUntil_item item count found hstop]
        have hfirst := hitem parser hfree hbound
        generalize hresult : item parser = result at hfirst
        cases hfirst with
        | @form tokens rest form hrest hspells =>
            rw [bind_of_ok hresult]
            have hshorter : rest.length < parser.rest.length := by
              have hpos := hspells.length_pos
              rw [hrest, List.length_append]
              omega
            have hbehind : (parser.past tokens [form] rest).rest = rest := rfl
            exact ReadsItems.cons hrest hspells (ih _ _ (hfree.past tokens [form] rest)
              (by rw [hbehind]; omega) (by rw [hbehind]; omega))
        | failed h =>
            rw [bind_of_error hresult]
            have hnone : parser.rest = [] ++ parser.rest := rfl
            exact .failed hnone .nil hstop h

end Items

theorem leaf_reads {kind : TokenKind} {ofLexeme : String → Except Cause Leaf}
    (hkind : rule.kind? = some kind) (hend : kind ≠ .endOfFile)
    (hagrees : ∀ token : Token, token.kind = kind → Agrees token (ofLexeme token.lexeme)) :
    Reads rule levels parser (leaf kind ofLexeme parser) := by
  by_cases hfirst : parser.kind = kind
  · cases hrest : parser.rest with
    | nil =>
        rw [Parser.kind, hrest] at hfirst
        exact absurd hfirst.symm hend
    | cons token rest =>
        obtain rfl : token.kind = kind := (Parser.kind_of_rest hrest).symm.trans hfirst
        have htoken := hagrees token rfl
        rw [leaf, bind_of_ok (expect_of_rest hrest)]
        generalize ofLexeme token.lexeme = result at htoken
        cases htoken with
        | @value value hvalue =>
            have hspells : Spells levels [token] [.leaf value token.line] := .leaf hvalue .nil
            exact Reads.form hrest hspells
        | fault hfault => exact .failed (.unreadable hrest hend hfault)
  · have hany : rule ≠ .any := by
      rintro rfl
      contradiction
    rw [leaf, bind_of_error (expect_elsewhere hfirst)]
    exact .failed (.refused hany (by rw [hkind]; exact fun h => hfirst (Option.some.inj h).symm))

theorem openScope_of_lt {parser : Parser} (line : Nat) (hdepth : parser.depth < maxDepth) :
    openScope line parser = .ok () { parser with depth := parser.depth + 1 } := by
  rw [openScope, if_pos hdepth]

theorem openScope_of_le {parser : Parser} (line : Nat) (hdepth : maxDepth ≤ parser.depth) :
    openScope line parser =
      .error ⟨.nestingTooDeep maxDepth, line, parser.file⟩ parser := by
  rw [openScope, if_neg (Nat.not_lt.mpr hdepth)]
  rfl

def close (delimiter : Delimiter) (line : Nat) (children : List NodeId) : Parse NodeId := do
  if (← get).isAt (.closing delimiter) then
    modify fun parser => parser.advance.closeScope
    addNode (.scope delimiter children line)
  else
    fail line (.unterminatedScope delimiter)

theorem close_at_closing {parser : Parser} {delimiter : Delimiter} (line : Nat)
    (children : List NodeId) (hkind : parser.kind = .closing delimiter) :
    close delimiter line children parser =
      .ok (parser.advance.closeScope.tree.push (.scope delimiter children line)).1
        { parser.advance.closeScope with
          tree := (parser.advance.closeScope.tree.push (.scope delimiter children line)).2 } := by
  have hat : parser.isAt (.closing delimiter) = true := by simpa [Parser.isAt] using hkind
  change (if parser.isAt (.closing delimiter) then _ else _ : Parse NodeId) parser = _
  rw [if_pos hat]
  rfl

theorem close_elsewhere {parser : Parser} {delimiter : Delimiter} (line : Nat)
    (children : List NodeId) (hkind : parser.kind ≠ .closing delimiter) :
    close delimiter line children parser =
      .error ⟨.unterminatedScope delimiter, line, parser.file⟩ parser := by
  have hat : ¬ parser.isAt (.closing delimiter) = true := by simpa [Parser.isAt] using hkind
  change (if parser.isAt (.closing delimiter) then _ else _ : Parse NodeId) parser = _
  rw [if_neg hat]
  rfl

section Scopes

variable {delimiter : Delimiter} {token : Token} {rest : List Token}

theorem scope_elsewhere (bound : Nat) (item : Parse NodeId)
    (hkind : parser.kind ≠ .opening delimiter) :
    Reads (.scope delimiter) levels parser (scope bound item delimiter parser) := by
  rw [scope, bind_of_error (expect_elsewhere hkind)]
  exact .failed (.refused (by simp) fun h => hkind (Option.some.inj h).symm)

theorem scope_full (bound : Nat) (item : Parse NodeId) (hfree : Free 0 parser)
    (hrest : parser.rest = token :: rest) (hkind : token.kind = .opening delimiter) :
    Reads (.scope delimiter) 0 parser (scope bound item delimiter parser) := by
  have hexpect := expect_of_rest hrest
  have hfull : maxDepth ≤ (parser.past [token] [] rest).depth := hfree.depth.ge
  rw [hkind] at hexpect
  rw [scope, bind_of_ok hexpect, bind_of_error (openScope_of_le token.line hfull)]
  exact .failed (.tooDeep hrest hkind)

theorem close_reads {inner : List Token} {parts : List Form}
    (hrest : parser.rest = token :: (inner ++ rest)) (hkind : token.kind = .opening delimiter)
    (hparts : Spells levels inner parts)
    (hstop : ((parser.inside token (inner ++ rest)).past inner parts rest).kind ∈
      [.endOfFile, .closing delimiter]) :
    Reads (.scope delimiter) (levels + 1) parser
      (close delimiter token.line (Arena.placeAll parts parser.tree).1
        ((parser.inside token (inner ++ rest)).past inner parts rest)) := by
  generalize hafter : (parser.inside token (inner ++ rest)).past inner parts rest = after at hstop
  have hafterRest : after.rest = rest := by rw [← hafter]; rfl
  simp only [List.mem_cons, List.not_mem_nil, or_false] at hstop
  rcases hstop with hend | hclosing
  · rw [close_elsewhere _ _ (by simp [hend])]
    have hfile : after.file = parser.file := by rw [← hafter]; rfl
    rw [hfile]
    exact .failed (.unterminated hrest hkind hparts hafter.symm hend)
  · rw [close_at_closing _ _ hclosing]
    rw [Parser.kind, hafterRest] at hclosing
    cases rest with
    | nil => simp at hclosing
    | cons closing rest =>
        have hform : Spells (levels + 1) (token :: (inner ++ [closing]))
            [.scope delimiter parts token.line] := .scope hkind hparts hclosing .nil
        have hclosed := Parser.closeScope_inside token closing inner rest parts delimiter parser
        rw [hafter] at hclosed
        rw [hclosed.1, hclosed.2]
        exact .form (by simpa using hrest) hform

theorem scope_reads (hitem : ReadsAny bound levels item) (hfree : Free (levels + 1) parser)
    (hbound : parser.rest.length ≤ bound) (hrest : parser.rest = token :: rest)
    (hkind : token.kind = .opening delimiter) :
    Reads (.scope delimiter) (levels + 1) parser (scope bound item delimiter parser) := by
  have hdepth : (parser.past [token] [] rest).depth < maxDepth := by
    rw [← hfree.depth]
    exact Nat.lt_add_of_pos_right (Nat.succ_pos levels)
  have hopen : openScope token.line (parser.past [token] [] rest) =
      .ok () (parser.inside token rest) := openScope_of_lt token.line hdepth
  have hexpect := expect_of_rest hrest
  rw [hkind] at hexpect
  rw [scope, bind_of_ok hexpect, bind_of_ok hopen]
  have hlength : (parser.inside token rest).rest.length ≤ bound := by
    rw [hrest, List.length_cons] at hbound
    exact Nat.le_of_succ_le hbound
  have hitems : ReadsItems levels [.endOfFile, .closing delimiter] [] _ _ :=
    itemsUntil_reads hitem (by simp) bound [] _ (hfree.inside token rest) hlength hlength
  change Reads _ _ _ ((itemsUntil [.endOfFile, .closing delimiter] item bound [] >>=
    close delimiter token.line) (parser.inside token rest))
  generalize hresult : itemsUntil _ item bound [] (parser.inside token rest) = result at hitems
  cases hitems with
  | @forms inner behind parts hinner hparts hstop =>
      obtain rfl : rest = inner ++ behind := hinner
      rw [bind_of_ok hresult]
      exact close_reads hrest hkind hparts hstop
  | @failed inner behind parts diagnostic after hinner hparts hstop h =>
      obtain rfl : rest = inner ++ behind := hinner
      rw [bind_of_error hresult]
      exact .failed (.inside hrest hkind hparts hstop h)

end Scopes

/-- The rule reads a form that begins with a token of its kind and fails elsewhere. -/
theorem byRule_reads (hrule : rule ≠ .any) (hfree : Free levels parser)
    (hbound : parser.rest.length ≤ bound)
    (hitem : ∀ fewer, levels = fewer + 1 → ReadsAny bound fewer item) :
    Reads rule levels parser (byRule bound item rule parser) := by
  cases rule with
  | any => contradiction
  | number => exact leaf_reads rfl (by simp) fun _ htoken => ofNumber_agrees htoken
  | integer => exact leaf_reads rfl (by simp) fun _ htoken => ofInteger_agrees htoken
  | character => exact leaf_reads rfl (by simp) fun _ htoken => ofCharacter_agrees htoken
  | string =>
      have hagrees (token : Token) (htoken : token.kind = .string) :
          Agrees token (.ok (.string token.lexeme)) := .value (by rw [Token.leaf?, htoken])
      rw [byRule]
      exact leaf_reads rfl (by simp) hagrees
  | identifier =>
      have hagrees (token : Token) (htoken : token.kind = .identifier) :
          Agrees token (.ok (.identifier token.lexeme)) := .value (by rw [Token.leaf?, htoken])
      rw [byRule]
      exact leaf_reads rfl (by simp) hagrees
  | scope delimiter =>
      by_cases hkind : parser.kind = .opening delimiter
      · cases hrest : parser.rest with
        | nil => simp [Parser.kind, hrest] at hkind
        | cons token rest =>
            rw [Parser.kind_of_rest hrest] at hkind
            cases levels with
            | zero => exact scope_full bound item hfree hrest hkind
            | succ levels => exact scope_reads (hitem levels rfl) hfree hbound hrest hkind
      · exact scope_elsewhere bound item hkind

theorem dispatch_reads (hfree : Free levels parser) (hbound : parser.rest.length ≤ bound)
    (hitem : ∀ fewer, levels = fewer + 1 → ReadsAny bound fewer item) :
    Reads .any levels parser (formWithin.dispatch bound item parser) := by
  have hget : (get : Parse Parser) parser = .ok parser parser := rfl
  rw [formWithin.dispatch, bind_of_ok hget]
  cases hrule : parser.rules parser.kind with
  | none => exact .failed (.noRule hrule)
  | some rule =>
      have hany : rule ≠ .any := by
        rintro rfl
        exact hfree.rules _ hrule
      have hreads := byRule_reads hany hfree hbound hitem
      change Reads .any levels parser (byRule bound item rule parser)
      generalize byRule bound item rule parser = result at hreads
      cases hreads with
      | form hrest hspells => exact .form hrest hspells
      | failed h => exact .failed (.byRule hrule h)

theorem formWithin_reads (bound levels : Nat) :
    ReadsAny bound levels (formWithin bound levels) := by
  -- the forms of a scope are read with one level less, and none can be a scope where none is left
  induction levels with
  | zero =>
      intro parser hfree hbound
      rw [formWithin]
      exact dispatch_reads hfree hbound (by simp)
  | succ levels ih =>
      intro parser hfree hbound
      rw [formWithin]
      refine dispatch_reads hfree hbound fun fewer hfewer => ?_
      obtain rfl := Nat.succ.inj hfewer
      exact ih

end Parse

end LispReader
