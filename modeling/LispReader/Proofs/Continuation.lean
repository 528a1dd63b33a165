import LispReader.Proofs.Parsing

namespace LispReader

def Node.shift (offset : Nat) : Node → Node
  | leaf value line => leaf value line
  | scope delimiter children line => scope delimiter (children.map (· + offset)) line

namespace Arena

def append (arena other : Arena) : Arena where
  nodes := arena.nodes ++ other.nodes.map (Node.shift arena.size)
  program := arena.program ++ other.program.map (· + arena.size)

@[simp]
theorem append_empty (arena : Arena) : arena.append empty = arena := by
  simp [append, empty]

theorem push_append (arena other : Arena) (node : Node) :
    (arena.append other).push (node.shift arena.size) =
      ((other.push node).1 + arena.size, arena.append (other.push node).2) := by
  simp [push, append, size, Nat.add_comm]

/-- Forms are laid out in the same way whatever the arena holds before them. -/
theorem placeAll_of_append (forms : List Form) (arena other : Arena) :
    placeAll forms (arena.append other) =
      ((placeAll forms other).1.map (· + arena.size), arena.append (placeAll forms other).2) := by
  induction forms using Form.sequence_induction generalizing other with
  | nil => rfl
  | leaf value line forms ih =>
      have hpush := push_append arena other (.leaf value line)
      rw [Node.shift] at hpush
      simp only [placeAll, place, hpush, ih, List.map_cons]
  | scope delimiter parts line forms ihparts ihforms =>
      have hpush := push_append arena (placeAll parts other).2
        (.scope delimiter (placeAll parts other).1 line)
      rw [Node.shift] at hpush
      simp only [placeAll, place, ihparts, hpush, ihforms, List.map_cons]

theorem program_placeAll (forms : List Form) (arena : Arena) :
    (placeAll forms arena).2.program = arena.program := by
  induction forms using Form.sequence_induction generalizing arena with
  | nil => rfl
  | leaf value line forms ih =>
      rw [placeAll, ih]
      rfl
  | scope delimiter parts line forms ihparts ihforms =>
      rw [placeAll, ihforms]
      exact ihparts arena

theorem ofForms_append (forms more : List Form) :
    ofForms (forms ++ more) = (ofForms forms).append (ofForms more) := by
  have hplace := placeAll_of_append more (placeAll forms empty).2 empty
  have hprogram : (placeAll forms empty).2.program = [] := program_placeAll forms empty
  have hmore : (placeAll more empty).2.program = [] := program_placeAll more empty
  rw [append_empty] at hplace
  simp only [ofForms, placeAll_append, hplace]
  simp [append, size, hprogram, hmore]

end Arena

namespace Scan

def next (opened : List Opener) (token : Token) : List Opener :=
  match token.kind with
  | .opening delimiter => ⟨delimiter, token.line⟩ :: opened
  | .closing _ => opened.tail
  | _ => opened

/-- The scopes that are still open behind tokens, the innermost first. -/
def pending (opened : List Opener) (tokens : List Token) : List Opener :=
  tokens.foldl next opened

theorem step_cases (opened : List Opener) (token : Token) :
    step opened token = .ok (next opened token) ∨
      ∃ cause, step opened token = .error cause ∧
        ∀ delimiter, cause ≠ .unterminatedScope delimiter := by
  cases hkind : token.kind with
  | opening delimiter =>
      by_cases hdepth : opened.length < maxDepth <;> simp [step, next, hkind, hdepth]
  | closing delimiter =>
      cases opened with
      | nil => simp [step, hkind]
      | cons innermost outer =>
          by_cases hmatch : innermost.delimiter = delimiter <;> simp [step, next, hkind, hmatch]
  | number =>
      by_cases hvalue : Number.finite? token.lexeme.toList = none <;>
        simp [step, next, hkind, hvalue]
  | integer =>
      by_cases hvalue : Number.integer? token.lexeme.toList = none <;>
        simp [step, next, hkind, hvalue]
  | character => by_cases hvalue : token.lexeme = "" <;> simp [step, next, hkind, hvalue]
  | string | identifier | endOfFile => simp [step, next, hkind]

/-- Either the scan ends within the first tokens, whatever follows them, or it goes on behind them
with the scopes that are still open there. -/
theorem fault?_append_cases (opened : List Opener) (tokens : List Token) :
    (∃ cause line, (∀ delimiter, cause ≠ .unterminatedScope delimiter) ∧
      ∀ more, fault? opened (tokens ++ more) = some (cause, line)) ∨
    ∀ more, fault? opened (tokens ++ more) = fault? (pending opened tokens) more := by
  induction tokens generalizing opened with
  | nil => exact .inr fun _ => rfl
  | cons token tokens ih =>
      rcases step_cases opened token with hstep | ⟨cause, hstep, hcause⟩
      · rcases ih (next opened token) with ⟨cause, line, hcause, hfault⟩ | hpending
        · refine .inl ⟨cause, line, hcause, fun more => ?_⟩
          rw [List.cons_append, fault?_of_ok _ hstep, hfault]
        · refine .inr fun more => ?_
          rw [List.cons_append, fault?_of_ok _ hstep, hpending]
          rfl
      · refine .inl ⟨cause, token.line, hcause, fun more => ?_⟩
        exact fault?_of_error _ hstep

theorem fault?_append_of_open {opened : List Opener} {tokens : List Token} {delimiter : Delimiter}
    {line : Nat} (h : fault? opened tokens = some (.unterminatedScope delimiter, line))
    (more : List Token) : fault? opened (tokens ++ more) = fault? (pending opened tokens) more := by
  rcases fault?_append_cases opened tokens with ⟨cause, _, hcause, hstays⟩ | hpending
  · have hfault := hstays []
    rw [List.append_nil, h] at hfault
    obtain ⟨rfl, -⟩ := Prod.mk.inj (Option.some.inj hfault)
    exact absurd rfl (hcause delimiter)
  · exact hpending more

theorem fault?_append_of_fault {opened : List Opener} {tokens : List Token} {cause : Cause}
    {line : Nat} (h : fault? opened tokens = some (cause, line))
    (hcause : ∀ delimiter, cause ≠ .unterminatedScope delimiter) (more : List Token) :
    fault? opened (tokens ++ more) = some (cause, line) := by
  rcases fault?_append_cases opened tokens with ⟨_, _, _, hstays⟩ | hpending
  · have hfault := hstays []
    rw [List.append_nil, h] at hfault
    rw [hstays, hfault]
  · have hfault := hpending []
    rw [List.append_nil, h] at hfault
    cases hopened : pending opened tokens with
    | nil => simp [hopened, fault?] at hfault
    | cons innermost outer =>
        rw [hopened, fault?] at hfault
        obtain ⟨rfl, -⟩ := Prod.mk.inj (Option.some.inj hfault)
        exact absurd rfl (hcause innermost.delimiter)

theorem kind_of_closers {opened : List Opener} {closers : List Token}
    (h : closers.map Token.kind = opened.map fun opener => .closing opener.delimiter) :
    ∀ token ∈ closers, token.kind ≠ .endOfFile := by
  intro token htoken
  have hkind := List.mem_map_of_mem (f := Token.kind) htoken
  rw [h] at hkind
  obtain ⟨opener, -, hkind⟩ := List.mem_map.mp hkind
  simp [← hkind]

theorem fault?_closers {opened : List Opener} {closers : List Token}
    (h : closers.map Token.kind = opened.map fun opener => .closing opener.delimiter) :
    fault? opened closers = none := by
  induction opened generalizing closers with
  | nil =>
      rw [List.map_eq_nil_iff.mp h]
      rfl
  | cons innermost outer ih =>
      cases closers with
      | nil => contradiction
      | cons closer closers =>
          obtain ⟨hkind, hrest⟩ := List.cons.inj h
          rw [fault?_of_ok _ (step_closing outer hkind)]
          exact ih hrest

end Scan

/-- Reading tokens in two lots. Forms that are whole are read each for themselves, an open scope is
mended by what closes it, and nothing mends another fault. -/
theorem parse_append {tokens : List Token} (more : List Token) (file : String)
    (h : ∀ token ∈ tokens, token.kind ≠ .endOfFile) :
    (∀ tree other, parse tokens file = .ok tree → parse more file = .ok other →
      parse (tokens ++ more) file = .ok (tree.append other)) ∧
    (∀ tree diagnostic, parse tokens file = .ok tree → parse more file = .error diagnostic →
      parse (tokens ++ more) file = .error diagnostic) ∧
    (∀ diagnostic delimiter, parse tokens file = .error diagnostic →
      diagnostic.cause = .unterminatedScope delimiter →
      ∀ closers : List Token,
        closers.map Token.kind =
          (Scan.pending [] tokens).map (fun opener => .closing opener.delimiter) →
        ∃ tree, parse (tokens ++ closers) file = .ok tree) ∧
    ∀ diagnostic, parse tokens file = .error diagnostic →
      (∀ delimiter, diagnostic.cause ≠ .unterminatedScope delimiter) →
      parse (tokens ++ more) file = .error diagnostic := by
  have hall := beforeEnd_append h
  have hself := beforeEnd_eq_self h
  refine ⟨?_, ?_, ?_, ?_⟩
  · intro tree other htree hother
    obtain ⟨forms, hspells, rfl⟩ := spells_of_parse htree
    obtain ⟨others, hothers, rfl⟩ := spells_of_parse hother
    rw [hself] at hspells
    rw [← Arena.ofForms_append]
    apply parse_of_spells
    rw [hall]
    exact hspells.append hothers
  · intro tree diagnostic htree hmore
    obtain ⟨forms, hspells, -⟩ := spells_of_parse htree
    obtain ⟨cause, line, hfault, rfl⟩ := fault_of_parse hmore
    rw [hself] at hspells
    apply parse_of_fault
    rw [hall, Scan.fault?_append hspells [] (by simp), hfault]
  · intro diagnostic delimiter herror hcause closers hclosers
    obtain ⟨cause, line, hfault, rfl⟩ := fault_of_parse herror
    obtain rfl : cause = .unterminatedScope delimiter := hcause
    rw [hself] at hfault
    apply parse_of_no_fault
    rw [hall, beforeEnd_eq_self (Scan.kind_of_closers hclosers), Scan.fault?_append_of_open hfault,
      Scan.fault?_closers hclosers]
  · intro diagnostic herror hcause
    obtain ⟨cause, line, hfault, rfl⟩ := fault_of_parse herror
    rw [hself] at hfault
    apply parse_of_fault
    rw [hall, Scan.fault?_append_of_fault hfault hcause]

def Token.ofOpener (delimiter : Delimiter) (line : Nat) : Token :=
  ⟨.opening delimiter, String.ofList [delimiter.opener], line⟩

def Token.ofCloser (delimiter : Delimiter) (line : Nat) : Token :=
  ⟨.closing delimiter, String.ofList [delimiter.closer], line⟩

def Token.ofName (name : String) (line : Nat) : Token := ⟨.identifier, name, line⟩

theorem parse_append_samples :
    parse ([.ofName "x" 1] ++ [.ofOpener .paren 2, .ofName "y" 3, .ofCloser .paren 3]) "" =
      .ok ⟨#[.leaf (.identifier "x") 1, .leaf (.identifier "y") 3, .scope .paren [1] 2], [0, 2]⟩ ∧
    parse ([.ofName "x" 1] ++ [.ofCloser .paren 2]) "" =
      .error ⟨.unexpectedToken "Right Parenthesis", 2, ""⟩ ∧
    (∃ tree, parse ([.ofOpener .paren 1, .ofOpener .bracket 2, .ofName "x" 3] ++
      [.ofCloser .bracket 4, .ofCloser .paren 4]) "" = .ok tree) ∧
    parse ([.ofOpener .paren 1, .ofCloser .bracket 2] ++ [.ofCloser .paren 3]) "" =
      .error ⟨.unexpectedToken "Right Bracket", 2, ""⟩ := by
  have hname : parse [.ofName "x" 1] "" = .ok (.ofForms [.leaf (.identifier "x") 1]) :=
    parse_of_spells "" (.leaf rfl .nil)
  have hinner : Spells 255 [.ofName "y" 3] [.leaf (.identifier "y") 3] := .leaf rfl .nil
  have hscope : parse (.ofOpener .paren 2 :: ([.ofName "y" 3] ++ [.ofCloser .paren 3])) "" =
      .ok (.ofForms [.scope .paren [.leaf (.identifier "y") 3] 2]) :=
    parse_of_spells "" (.scope rfl hinner rfl .nil)
  have hstray : parse [.ofCloser .paren 2] "" =
      .error ⟨.unexpectedToken "Right Parenthesis", 2, ""⟩ := parse_of_fault "" rfl
  have hopen : parse [.ofOpener .paren 1, .ofOpener .bracket 2, .ofName "x" 3] "" =
      .error ⟨.unterminatedScope .bracket, 2, ""⟩ := parse_of_fault "" rfl
  have hwrong : parse [.ofOpener .paren 1, .ofCloser .bracket 2] "" =
      .error ⟨.unexpectedToken "Right Bracket", 2, ""⟩ := parse_of_fault "" rfl
  have hboth := (parse_append _ "" (by decide)).1 _ _ hname hscope
  rw [← Arena.ofForms_append] at hboth
  exact ⟨hboth,
    (parse_append _ "" (by decide)).2.1 _ _ hname hstray,
    (parse_append [] "" (by decide)).2.2.1 _ _ hopen rfl _ rfl,
    (parse_append _ "" (by decide)).2.2.2 _ hwrong (by simp)⟩

end LispReader
