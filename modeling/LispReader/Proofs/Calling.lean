import LispReader.Proofs.OpenScopes

namespace LispReader

namespace Parser

def within (tokens : List Token) (opened : List Opener) (forms : List Form) (rest : List Token)
    (parser : Parser) : Parser :=
  { parser.past tokens forms rest with depth := parser.depth + opened.length }

/-- A form begins with the tokens and is not complete behind them. No scope is open only where it
has not begun. -/
structure Enters (parser : Parser) (tokens : List Token) (opened : List Opener) (forms : List Form)
    (rest : List Token) : Prop where
  rest : parser.rest = tokens ++ rest
  opens : Opens tokens opened forms
  outside : opened = [] → tokens = []
  depth : parser.depth + opened.length ≤ maxDepth

/-- How reading a form by a rule fails, with the diagnostic and the parser behind it. The token that
is unexpected is not moved over, but one that cannot be converted or nests too deep is. -/
inductive Stuck (parser : Parser) (rule : Rule) : Diagnostic → Parser → Prop
  | refused (hany : rule ≠ .any) (hkind : rule.kind? ≠ some parser.kind) :
      Stuck parser rule parser.unexpected parser
  | unexpected {tokens rest : List Token} {opened : List Opener} {forms : List Form}
      {after : Parser} (henters : parser.Enters tokens opened forms rest)
      (hafter : after = parser.within tokens opened forms rest) (hany : opened = [] → rule = .any)
      (hstop : opened ≠ [] → after.kind ∉ Scan.stops opened)
      (hrules : ∀ other, parser.rules after.kind = some other → other.kind? ≠ some after.kind) :
      Stuck parser rule after.unexpected after
  | unterminated {tokens rest : List Token} {innermost : Opener} {outer : List Opener}
      {forms : List Form} {after : Parser}
      (henters : parser.Enters tokens (innermost :: outer) forms rest)
      (hafter : after = parser.within tokens (innermost :: outer) forms rest)
      (hend : after.kind = .endOfFile) :
      Stuck parser rule ⟨.unterminatedScope innermost.delimiter, innermost.line, parser.file⟩ after
  | unreadable {tokens rest : List Token} {opened : List Opener} {forms : List Form}
      {token : Token} {cause : Cause}
      (henters : parser.Enters tokens opened forms (token :: rest))
      (hfault : ∀ opened, Scan.step opened token = .error cause) :
      Stuck parser rule ⟨cause, token.line, parser.file⟩
        (parser.within (tokens ++ [token]) opened forms rest)
  | tooDeep {tokens rest : List Token} {opened : List Opener} {forms : List Form}
      {opening : Token} {delimiter : Delimiter}
      (henters : parser.Enters tokens opened forms (opening :: rest))
      (hkind : opening.kind = .opening delimiter)
      (hdepth : parser.depth + opened.length = maxDepth) :
      Stuck parser rule ⟨.nestingTooDeep maxDepth, opening.line, parser.file⟩
        (parser.within (tokens ++ [opening]) opened forms rest)

variable {parser : Parser} {rule : Rule}

theorem within_nil (parser : Parser) : parser.within [] [] [] parser.rest = parser := rfl

theorem enters_nil (hdepth : parser.depth ≤ maxDepth) : parser.Enters [] [] [] parser.rest :=
  ⟨rfl, .nil, fun _ => rfl, hdepth⟩

theorem Stuck.dispatched {diagnostic : Diagnostic} {after : Parser}
    (h : parser.Stuck rule diagnostic after) (hrule : parser.rules parser.kind = some rule)
    (hdepth : parser.depth ≤ maxDepth) : parser.Stuck .any diagnostic after := by
  cases h with
  | refused hany hkind =>
      refine .unexpected (enters_nil hdepth) parser.within_nil.symm (fun _ => rfl) (by simp) ?_
      intro other hother
      obtain rfl := Option.some.inj (hrule.symm.trans hother)
      exact hkind
  | unexpected henters hafter _ hstop hrules =>
      exact .unexpected henters hafter (fun _ => rfl) hstop hrules
  | unterminated henters hafter hend => exact .unterminated henters hafter hend
  | unreadable henters hfault => exact .unreadable henters hfault
  | tooDeep henters hkind hdepth => exact .tooDeep henters hkind hdepth

section Enclose

variable {levels : Nat} {opening : Token} {delimiter : Delimiter} {inner behind : List Token}
  {parts : List Form}

theorem within_past_inside (opening : Token) (delimiter : Delimiter)
    (inner behind tokens rest : List Token) (opened : List Opener) (parts forms : List Form)
    (parser : Parser) :
    ((parser.inside opening (inner ++ behind)).past inner parts behind).within tokens opened forms
        rest =
      parser.within (opening :: (inner ++ tokens)) (opened ++ [⟨delimiter, opening.line⟩])
        (parts ++ forms) rest := by
  simp [within, past, inside, Arena.placeAll, Nat.add_comm,
    Nat.add_left_comm]

theorem Enters.enclose {tokens rest : List Token} {opened : List Opener} {forms : List Form}
    (h : ((parser.inside opening (inner ++ behind)).past inner parts behind).Enters tokens opened
      forms rest) (hrest : parser.rest = opening :: (inner ++ behind))
    (hkind : opening.kind = .opening delimiter) (hparts : Spells levels inner parts) :
    parser.Enters (opening :: (inner ++ tokens)) (opened ++ [⟨delimiter, opening.line⟩])
      (parts ++ forms) rest := by
  obtain rfl : behind = tokens ++ rest := h.rest
  have hdepth : parser.depth + 1 + opened.length ≤ maxDepth := h.depth
  refine ⟨by simpa using hrest, h.opens.enclose hkind hparts, by simp, ?_⟩
  rw [List.length_append, List.length_singleton]
  omega

theorem Stuck.enclose {diagnostic : Diagnostic} {after : Parser}
    (h : Stuck ((parser.inside opening (inner ++ behind)).past inner parts behind) .any diagnostic
      after) (hrest : parser.rest = opening :: (inner ++ behind))
    (hkind : opening.kind = .opening delimiter) (hparts : Spells levels inner parts)
    (hstop : ((parser.inside opening (inner ++ behind)).past inner parts behind).kind ∉
      Scan.stops [⟨delimiter, opening.line⟩]) :
    Stuck parser rule diagnostic after := by
  cases h with
  | refused hany _ => contradiction
  | @unexpected tokens rest opened forms after henters hafter _ hinner hrules =>
      have hall := henters.enclose hrest hkind hparts
      rw [within_past_inside opening delimiter] at hafter
      refine .unexpected hall hafter (by simp) (fun _ => ?_) hrules
      cases opened with
      | nil =>
          have hnone : tokens = [] := henters.outside rfl
          have hbehind : behind = tokens ++ rest := henters.rest
          rw [hnone, List.nil_append] at hbehind
          rw [hafter, ← hbehind]
          exact hstop
      | cons innermost outer => exact hinner (by simp)
  | unterminated henters hafter hend =>
      have hall := henters.enclose hrest hkind hparts
      rw [within_past_inside opening delimiter] at hafter
      exact .unterminated hall hafter hend
  | unreadable henters hfault =>
      have hall := henters.enclose hrest hkind hparts
      rw [within_past_inside opening delimiter, ← List.append_assoc]
      exact .unreadable hall hfault
  | @tooDeep tokens rest opened forms deepest other henters hopening hdepth =>
      have hall := henters.enclose hrest hkind hparts
      have hdeep : parser.depth + (opened ++ [⟨delimiter, opening.line⟩] : List Opener).length =
          maxDepth := by
        rw [← hdepth, List.length_append, Nat.add_comm opened.length, ← Nat.add_assoc]
        rfl
      rw [within_past_inside opening delimiter, ← List.append_assoc]
      exact .tooDeep hall hopening hdeep

end Enclose

end Parser

namespace Parse

variable {parser : Parser} {rule : Rule}

inductive Called (rule : Rule) (parser : Parser) : EStateM.Result Diagnostic Parser NodeId → Prop
  | read {levels : Nat} {tokens rest : List Token} {form : Form}
      (hrest : parser.rest = tokens ++ rest) (hspells : Spells levels tokens [form]) :
      Called rule parser
        (.ok (Arena.place form parser.tree).1 (parser.past tokens [form] rest))
  | stuck {diagnostic : Diagnostic} {after : Parser} (h : parser.Stuck rule diagnostic after) :
      Called rule parser (.error diagnostic after)

theorem Fails.stuck {levels : Nat} {diagnostic : Diagnostic} {after : Parser}
    (h : Fails rule levels parser diagnostic after) (hdepth : parser.depth + levels = maxDepth) :
    parser.Stuck rule diagnostic after := by
  have hle : parser.depth ≤ maxDepth := by omega
  induction h with
  | refused hany hkind => exact .refused hany hkind
  | @unreadable _ _ parser _ _ _ hrest _ hfault =>
      have henters := Parser.enters_nil hle
      rw [hrest] at henters
      exact .unreadable henters hfault
  | @tooDeep _ parser _ _ _ hrest hkind =>
      have henters := Parser.enters_nil hle
      rw [hrest] at henters
      exact .tooDeep henters hkind hdepth
  | @inside _ levels parser opening inner rest parts delimiter _ _ hrest hkind hparts hstop _ ih =>
      have hinside : parser.depth + 1 + levels = maxDepth := by omega
      have hinsideLe : parser.depth + 1 ≤ maxDepth := by omega
      exact (ih hinside hinsideLe).enclose hrest hkind hparts hstop
  | @unterminated _ levels parser opening inner rest parts delimiter after hrest hkind hparts hafter
        hend =>
      have henters : parser.Enters (opening :: inner) [⟨delimiter, opening.line⟩] parts rest :=
        ⟨hrest, .scope .nil hkind hparts, by simp, by rw [List.length_singleton]; omega⟩
      have hwithin : after = parser.within (opening :: inner) [⟨delimiter, opening.line⟩] parts rest
          := by
        rw [hafter]
        simp [Parser.within, Parser.past, Parser.inside, Arena.placeAll]
      exact .unterminated henters hwithin hend
  | noRule hrule =>
      exact .unexpected (Parser.enters_nil hle) (Parser.within_nil _).symm (fun _ => rfl) (by simp)
        (by simp [hrule])
  | byRule hrule _ ih => exact (ih hdepth hle).dispatched hrule hle

theorem ofRule_of_ne (hany : rule ≠ .any) : ofRule rule parser =
    byRule parser.rest.length (formWithin parser.rest.length (parser.freeDepth - 1)) rule
      parser := by
  cases rule with
  | any => contradiction
  | scope | number | integer | character | string | identifier => rfl

theorem ofRule_reads (rule : Rule) (hfree : Free parser.freeDepth parser) :
    Reads rule parser.freeDepth parser (ofRule rule parser) := by
  by_cases hany : rule = .any
  · rw [hany]
    exact formWithin_reads parser.rest.length parser.freeDepth parser hfree le_rfl
  · rw [ofRule_of_ne hany]
    refine byRule_reads hany hfree le_rfl fun fewer hfewer => ?_
    rw [hfewer]
    exact formWithin_reads parser.rest.length fewer

/-- A handler may be called at any place in the tokens, whatever scopes are open there. -/
theorem ofRule_called (rule : Rule) (hdepth : parser.depth ≤ maxDepth)
    (hrules : ∀ kind, parser.rules kind ≠ some .any) : Called rule parser (ofRule rule parser) := by
  have hfree : Free parser.freeDepth parser := ⟨Nat.add_sub_of_le hdepth, hrules⟩
  have hreads := ofRule_reads rule hfree
  generalize ofRule rule parser = result at hreads
  cases hreads with
  | form hrest hspells => exact .read hrest hspells
  | failed h => exact .stuck (h.stuck hfree.depth)

end Parse

end LispReader
