import LispReader.Proofs.Calling

namespace LispReader

/-- What can be asked of a parser. The rule for any form looks at the current kind, so no kind may
be bound to it. -/
inductive Operation
  | advance
  | expect (kind : TokenKind)
  | isAt (kind : TokenKind)
  | isAtAny (kinds : List TokenKind)
  | bind (kind : TokenKind) (rule : Rule) (hrule : rule ≠ .any)
  | addStandard
  | addNode (node : Node)
  | openScope (line : Nat)
  | closeScope
  | call (rule : Rule)

def Parse.after {α : Type} (step : Parse α) (parser : Parser) : Parser :=
  match step parser with
  | .ok _ after | .error _ after => after

namespace Operation

def apply : Operation → Parser → Parser
  | advance, parser => parser.advance
  | expect kind, parser => (Parse.expect kind).after parser
  | isAt _, parser | isAtAny _, parser => parser
  | bind kind rule _, parser => { parser with rules := parser.rules.bind kind rule }
  | addStandard, parser => { parser with rules := parser.rules.addStandard }
  | addNode node, parser => (Parse.addNode node).after parser
  | openScope line, parser => (Parse.openScope line).after parser
  | closeScope, parser => parser.closeScope
  | call rule, parser => (Parse.ofRule rule).after parser

def run (operations : List Operation) (parser : Parser) : Parser :=
  operations.foldl (fun parser operation => operation.apply parser) parser

end Operation

def RuleTable.Plain (table : RuleTable) : Prop :=
  ∀ kind, table kind ≠ some .any

theorem RuleTable.plain_empty : RuleTable.empty.Plain := by
  simp [Plain, empty]

theorem RuleTable.Plain.bind {table : RuleTable} (h : table.Plain) (kind : TokenKind) {rule : Rule}
    (hrule : rule ≠ .any) : (table.bind kind rule).Plain := by
  intro other
  by_cases hother : other = kind
  · rw [hother, RuleTable.bind_self]
    exact fun heq => hrule (Option.some.inj heq)
  · rw [RuleTable.bind_of_ne _ _ _ _ hother]
    exact h other

theorem RuleTable.Plain.addStandard {table : RuleTable} (h : table.Plain) :
    table.addStandard.Plain := by
  unfold RuleTable.addStandard
  refine ((((((h.bind _ ?_).bind _ ?_).bind _ ?_).bind _ ?_).bind _ ?_).bind _ ?_).bind _ ?_ <;>
    simp

namespace Parser

/-- What no operation undoes. -/
structure Grows (parser after : Parser) : Prop where
  tokens : after.tokens = parser.tokens
  cursor : parser.done.length ≤ after.done.length
  nodes : parser.tree.nodes.toList <+: after.tree.nodes.toList

structure Sane (parser : Parser) : Prop where
  depth : parser.depth ≤ maxDepth
  rules : parser.rules.Plain

variable {parser after : Parser} {rule : Rule}

theorem Grows.refl (parser : Parser) : parser.Grows parser :=
  ⟨rfl, le_rfl, List.prefix_rfl⟩

theorem Grows.trans {a b c : Parser} (hab : a.Grows b) (hbc : b.Grows c) : a.Grows c :=
  ⟨hbc.tokens.trans hab.tokens, hab.cursor.trans hbc.cursor, hab.nodes.trans hbc.nodes⟩

theorem cursor_le (parser : Parser) : parser.done.length ≤ parser.tokens.length := by
  rw [tokens, List.length_append, List.length_reverse]
  exact Nat.le_add_right _ _

theorem nodes_placeAll (forms : List Form) (arena : Arena) :
    arena.nodes.toList <+: (Arena.placeAll forms arena).2.nodes.toList := by
  have hplace := Arena.placeAll_of_append forms arena .empty
  rw [Arena.append_empty] at hplace
  rw [hplace]
  simp [Arena.append]

theorem Grows.past {tokens rest : List Token} (hrest : parser.rest = tokens ++ rest)
    (forms : List Form) : parser.Grows (parser.past tokens forms rest) := by
  refine ⟨?_, ?_, nodes_placeAll forms parser.tree⟩
  · simp [Parser.tokens, Parser.past, hrest]
  · simp [Parser.past]

/-- Where a handler is stuck it has begun a form. The scopes it entered are still open, and the
forms it completed are in the tree. -/
theorem Stuck.entered {diagnostic : Diagnostic} (h : parser.Stuck rule diagnostic after)
    (hdepth : parser.depth ≤ maxDepth) :
    ∃ begun opened forms consumed rest, parser.Enters begun opened forms (consumed ++ rest) ∧
      after = parser.within (begun ++ consumed) opened forms rest := by
  cases h with
  | refused _ _ => exact ⟨[], [], [], [], _, enters_nil hdepth, parser.within_nil.symm⟩
  | unexpected henters hafter _ _ _ =>
      exact ⟨_, _, _, [], _, henters, by rw [List.append_nil]; exact hafter⟩
  | unterminated henters hafter _ =>
      exact ⟨_, _, _, [], _, henters, by rw [List.append_nil]; exact hafter⟩
  | unreadable henters _ => exact ⟨_, _, _, [_], _, henters, rfl⟩
  | tooDeep henters _ _ => exact ⟨_, _, _, [_], _, henters, rfl⟩

theorem Stuck.grows {diagnostic : Diagnostic} (h : parser.Stuck rule diagnostic after)
    (hsane : parser.Sane) : parser.Grows after ∧ after.Sane := by
  obtain ⟨begun, opened, forms, consumed, rest, henters, rfl⟩ := h.entered hsane.depth
  have hrest : parser.rest = (begun ++ consumed) ++ rest := by
    rw [henters.rest, List.append_assoc]
  have hgrows := Grows.past hrest forms
  exact ⟨⟨hgrows.tokens, hgrows.cursor, hgrows.nodes⟩, henters.depth, hsane.rules⟩

theorem advance_grows (h : parser.Sane) : parser.Grows parser.advance ∧ parser.advance.Sane := by
  have htokens := parser.advance_tokens
  unfold advance at htokens ⊢
  split
  · exact ⟨.refl parser, h⟩
  · next token rest hrest =>
      rw [hrest] at htokens
      exact ⟨⟨htokens, Nat.le_succ _, List.prefix_rfl⟩, h.depth, h.rules⟩

theorem expect_grows (h : parser.Sane) (kind : TokenKind) :
    parser.Grows ((Parse.expect kind).after parser) ∧ ((Parse.expect kind).after parser).Sane := by
  cases hrest : parser.rest with
  | nil =>
      have herror : Parse.expect kind parser = .error parser.unexpected parser := by
        rw [Parse.expect, hrest]
        rfl
      rw [Parse.after, herror]
      exact ⟨.refl parser, h⟩
  | cons token rest =>
      by_cases hkind : token.kind = kind
      · rw [← hkind, Parse.after, Parse.expect_of_rest hrest]
        exact ⟨.past hrest [], h.depth, h.rules⟩
      · rw [Parse.after, Parse.expect_elsewhere (by rwa [Parser.kind_of_rest hrest])]
        exact ⟨.refl parser, h⟩

theorem openScope_grows (h : parser.Sane) (line : Nat) :
    parser.Grows ((Parse.openScope line).after parser) ∧
      ((Parse.openScope line).after parser).Sane := by
  by_cases hdepth : parser.depth < maxDepth
  · rw [Parse.after, Parse.openScope_of_lt line hdepth]
    exact ⟨⟨rfl, le_rfl, List.prefix_rfl⟩, hdepth, h.rules⟩
  · rw [Parse.after, Parse.openScope_of_le line (Nat.le_of_not_lt hdepth)]
    exact ⟨.refl parser, h⟩

theorem call_grows (h : parser.Sane) (rule : Rule) :
    parser.Grows ((Parse.ofRule rule).after parser) ∧ ((Parse.ofRule rule).after parser).Sane := by
  have hcalled := Parse.ofRule_called rule h.depth h.rules
  unfold Parse.after
  generalize Parse.ofRule rule parser = result at hcalled
  cases hcalled with
  | read hrest _ => exact ⟨.past hrest [_], h.depth, h.rules⟩
  | stuck hstuck => exact hstuck.grows h

end Parser

theorem Operation.apply_grows {parser : Parser} (h : parser.Sane) (operation : Operation) :
    parser.Grows (operation.apply parser) ∧ (operation.apply parser).Sane := by
  cases operation with
  | advance => exact Parser.advance_grows h
  | expect kind => exact Parser.expect_grows h kind
  | isAt kind | isAtAny kinds => exact ⟨.refl parser, h⟩
  | bind kind rule hrule =>
      exact ⟨⟨rfl, le_rfl, List.prefix_rfl⟩, h.depth, h.rules.bind kind hrule⟩
  | addStandard => exact ⟨⟨rfl, le_rfl, List.prefix_rfl⟩, h.depth, h.rules.addStandard⟩
  | addNode node =>
      have hnodes : parser.tree.nodes.toList <+: (parser.tree.push node).2.nodes.toList := by
        simp [Arena.push]
      exact ⟨⟨rfl, le_rfl, hnodes⟩, h.depth, h.rules⟩
  | openScope line => exact Parser.openScope_grows h line
  | closeScope =>
      exact ⟨⟨rfl, le_rfl, List.prefix_rfl⟩, (Nat.sub_le _ _).trans h.depth, h.rules⟩
  | call rule => exact Parser.call_grows h rule

theorem Operation.run_grows {parser : Parser} (h : parser.Sane) (operations : List Operation) :
    parser.Grows (run operations parser) ∧ (run operations parser).Sane := by
  induction operations generalizing parser with
  | nil => exact ⟨.refl parser, h⟩
  | cons operation operations ih =>
      obtain ⟨hfirst, hsane⟩ := apply_grows h operation
      obtain ⟨hothers, hafter⟩ := ih hsane
      exact ⟨hfirst.trans hothers, hafter⟩

theorem Operation.apply_call_of_ok {parser after : Parser} {rule : Rule} {id : NodeId}
    (h : Parse.ofRule rule parser = .ok id after) : (call rule).apply parser = after := by
  rw [apply, Parse.after, h]

theorem Operation.apply_call_of_error {parser after : Parser} {rule : Rule}
    {diagnostic : Diagnostic} (h : Parse.ofRule rule parser = .error diagnostic after) :
    (call rule).apply parser = after := by
  rw [apply, Parse.after, h]

theorem Arena.place_last (form : Form) (arena : Arena) :
    (place form arena).1 + 1 = (place form arena).2.size := by
  cases form with
  | leaf | scope => rw [place, size_push]; rfl

/-- The state of a parser in any use, and what a call of a handler makes of it. Where the call
succeeds, the new form is the last node. Where it is stuck, the scopes it entered are still open,
and the forms it completed are the new nodes. -/
theorem operations_keep_bounds (tokens : List Token) (file : String)
    (operations : List Operation) :
    let parser := Operation.run operations (.ofTokens tokens file)
    parser.depth ≤ maxDepth ∧ parser.tokens = tokens ∧ parser.done.length ≤ tokens.length ∧
    (∀ operation : Operation, parser.Grows (operation.apply parser)) ∧
    ∀ rule, match Parse.ofRule rule parser with
      | .ok id after =>
          (Operation.call rule).apply parser = after ∧ after.depth = parser.depth ∧
            after.rules = parser.rules ∧ parser.done.length < after.done.length ∧
            id + 1 = after.tree.size
      | .error diagnostic after =>
          (Operation.call rule).apply parser = after ∧ parser.Stuck rule diagnostic after ∧
          ∃ begun opened forms consumed, Opens begun opened forms ∧
            parser.rest = begun ++ consumed ++ after.rest ∧
            after.done = (begun ++ consumed).reverse ++ parser.done ∧
            after.depth = parser.depth + opened.length ∧ after.rules = parser.rules ∧
            after.tree = (Arena.placeAll forms parser.tree).2 := by
  intro parser
  have hnew : (Parser.ofTokens tokens file).Sane := ⟨Nat.zero_le maxDepth, RuleTable.plain_empty⟩
  obtain ⟨hgrows, hsane⟩ := Operation.run_grows hnew operations
  have htokens : parser.tokens = tokens := hgrows.tokens
  have hcursor : parser.done.length ≤ tokens.length := htokens ▸ parser.cursor_le
  refine ⟨hsane.depth, htokens, hcursor, fun operation => ?_, fun rule => ?_⟩
  · exact (operation.apply_grows hsane).1
  · have hcalled := Parse.ofRule_called rule hsane.depth hsane.rules
    change Parse.Called rule parser (Parse.ofRule rule parser) at hcalled
    cases hresult : Parse.ofRule rule parser with
    | ok id after =>
        have happly := Operation.apply_call_of_ok hresult
        rw [hresult] at hcalled
        cases hcalled with
        | @read _ begun rest form hrest hspells =>
            have hlonger : parser.done.length < (begun.reverse ++ parser.done).length := by
              rw [List.length_append, List.length_reverse]
              exact Nat.lt_add_of_pos_left hspells.length_pos
            exact ⟨happly, rfl, rfl, hlonger, Arena.place_last form parser.tree⟩
    | error diagnostic after =>
        have happly := Operation.apply_call_of_error hresult
        rw [hresult] at hcalled
        cases hcalled with
        | stuck hstuck =>
            refine ⟨happly, hstuck, ?_⟩
            obtain ⟨begun, opened, forms, consumed, rest, henters, rfl⟩ :=
              hstuck.entered hsane.depth
            have hrest : parser.rest = begun ++ consumed ++ rest := by
              rw [henters.rest, List.append_assoc]
            exact ⟨begun, opened, forms, consumed, henters.opens, hrest, rfl, rfl, rfl, rfl⟩

def openTokens : List Token :=
  [⟨.opening .bracket, "[", 1⟩, ⟨.identifier, "a", 1⟩, ⟨.opening .paren, "(", 2⟩,
    ⟨.string, "b", 2⟩]

theorem operations_on_openTokens :
    let parser := Operation.run [.addStandard, .advance, .openScope 1, .call .any]
      (.ofTokens openTokens "f")
    parser.depth = 1 ∧ parser.done.length = 2 ∧
      parser.tree.nodes.toList = [.leaf (.identifier "a") 1] ∧ parser.tokens = openTokens ∧
      ∃ after, Parse.ofRule .any parser = .error ⟨.unterminatedScope .paren, 2, "f"⟩ after ∧
        (Operation.call .any).apply parser = after ∧ parser.Grows after ∧
        parser.Stuck .any ⟨.unterminatedScope .paren, 2, "f"⟩ after ∧ after.depth = 2 ∧
        after.done.length = 4 ∧
        after.tree.nodes.toList = [.leaf (.identifier "a") 1, .leaf (.string "b") 2] := by
  intro parser
  obtain ⟨-, htokens, -, hgrows, hcalls⟩ := operations_keep_bounds openTokens "f"
    [.addStandard, .advance, .openScope 1, .call .any]
  have hresult : Parse.ofRule .any parser = .error ⟨.unterminatedScope .paren, 2, "f"⟩
      ((Operation.call .any).apply parser) := rfl
  have hcall := hcalls .any
  rw [hresult] at hcall
  obtain ⟨happly, hstuck, -⟩ := hcall
  exact ⟨rfl, rfl, rfl, htokens, _, hresult, happly, hgrows (.call .any), hstuck, rfl, rfl, rfl⟩

end LispReader
