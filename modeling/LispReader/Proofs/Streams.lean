import LispReader.Command.Run
import LispReader.Proofs.Describing
import LispReader.Proofs.Offences
import LispReader.Proofs.Paths

namespace LispReader

variable {source : Source} {tokens : List Token} {forms : List Form} {ids : List NodeId}
  {arena tree : Arena}

theorem Arena.mapM_describe_of_unfolds (hacyclic : arena.Acyclic) (h : arena.Unfolds ids forms) :
    ids.mapM arena.describe = .ok (forms.map Form.text) := by
  induction h with
  | nil => rfl
  | leaf hnode hrest ih =>
      rw [List.mapM_cons, describe_of_unfolds hacyclic (.leaf hnode .nil), ih]
      rfl
  | scope hnode hparts hrest _ ih =>
      rw [List.mapM_cons, describe_of_unfolds hacyclic (.scope hnode hparts .nil), ih]
      rfl

theorem describeProgram_of_parse {file : String} (h : parse tokens file = .ok tree) :
    ∃ forms, Spells maxDepth (beforeEnd tokens) forms ∧
      tree.describeProgram = .ok (forms.map Form.text) := by
  obtain ⟨forms, hspells, rfl⟩ := spells_of_parse h
  have hpost := Arena.isPostOrder_of_spans (Arena.ofForms_spans forms)
  exact ⟨forms, hspells, Arena.mapM_describe_of_unfolds hpost.acyclic (Arena.ofForms_unfolds forms)⟩

namespace Command

theorem filterMap_toOption {α β ε : Type} {f : α → Except ε β} {xs : List α} {ys : List β}
    (h : xs.mapM f = .ok ys) : xs.filterMap (fun x => (f x).toOption) = ys := by
  induction xs generalizing ys with
  | nil => exact Except.ok.inj h
  | cons x xs ih =>
      obtain ⟨y, rest, hy, hrest, rfl⟩ := mapM_cons_cases h
      have hhead : (f x).toOption = some y := by rw [hy, Except.toOption]
      rw [List.filterMap_cons_some (f := fun x => (f x).toOption) hhead, ih hrest]

theorem unlines_eq_printed (lines : List String) : unlines lines = Text.printed lines := by
  induction lines with
  | nil => rfl
  | cons line lines ih => rw [unlines, List.map_cons, String.join_cons, Text.printed, ← ih, unlines]

def kindText : TokenKind → String
  | .opening .paren => "Left Parenthesis"
  | .opening .bracket => "Left Bracket"
  | .closing delimiter => Scan.closingName delimiter
  | .number => "Number"
  | .integer => "Integer"
  | .character => "Character"
  | .string => "String"
  | .identifier => "Identifier"
  | .endOfFile => "End Of File"

def tokenLine (token : Token) : String :=
  "LEXEME: " ++ token.lexeme ++ ", TYPE: " ++ kindText token.kind ++ ", LINE: " ++
    toString token.line ++ "."

theorem text_eq_tokenLine (token : Token) : token.text = tokenLine token := by
  have hkind : token.kind.name = kindText token.kind := by
    cases token.kind with
    | opening delimiter | closing delimiter => cases delimiter <;> rfl
    | number | integer | character | string | identifier | endOfFile => rfl
  unfold Token.text tokenLine
  rw [hkind]

/-- The lines of the tokens of a source, none if it has none. -/
def tokenLines (source : Source) : String :=
  match tokenize source.code source.name with
  | .ok tokens => Text.printed (tokens.map tokenLine)
  | .error _ => ""

theorem unlines_text (h : tokenize source.code source.name = .ok tokens) :
    unlines (tokens.map Token.text) = tokenLines source := by
  rw [unlines_eq_printed, funext text_eq_tokenLine, tokenLines, h]

/-- A command ends with the forms of the source or with what keeps it from being read. All that is
left to the options is whether the lines of the tokens come first. -/
theorem run_cases (source : Source) :
    (∃ tokens tree forms, tokenize source.code source.name = .ok tokens ∧
      parse tokens source.name = .ok tree ∧ Spells maxDepth (beforeEnd tokens) forms ∧
      tree.describeProgram = .ok (forms.map Form.text) ∧
      ∀ options, run options source = ⟨0, (if options.tokens then tokenLines source else "") ++
        Text.printed (forms.map Form.text), ""⟩) ∨
    ∃ diagnostic, Rejects source.code source.name diagnostic ∧
      ∀ options, run options source = ⟨1, if options.tokens then tokenLines source else "",
        diagnostic.report source.code⟩ := by
  cases htokens : tokenize source.code source.name with
  | error diagnostic =>
      refine .inr ⟨diagnostic, .inl htokens, fun options => ?_⟩
      simp [run, tokenLines, htokens, failure]
  | ok tokens =>
      have hlines := unlines_text htokens
      cases hparse : parse tokens source.name with
      | error diagnostic =>
          refine .inr ⟨diagnostic, .inr ⟨tokens, htokens, hparse⟩, fun options => ?_⟩
          simp only [run, htokens, hparse, failure, hlines]
      | ok tree =>
          obtain ⟨forms, hspells, htexts⟩ := describeProgram_of_parse hparse
          have hdescriptions : descriptions tree = forms.map Form.text := filterMap_toOption htexts
          refine .inl ⟨tokens, tree, forms, rfl, hparse, hspells, htexts, fun options => ?_⟩
          simp only [run, htokens, hparse, hdescriptions, hlines, unlines_eq_printed]

end Command

theorem tokenize_ends {code file : String} (h : tokenize code file = .ok tokens) :
    ∃ before line, tokens = before ++ [⟨.endOfFile, "EOF", line⟩] := by
  rw [tokenize] at h
  cases hlexer : (Lexer.ofSource code file).toEnd with
  | error diagnostic =>
      rw [hlexer] at h
      contradiction
  | ok lexer =>
      rw [hlexer] at h
      obtain rfl := Except.ok.inj h
      exact ⟨lexer.tokens.toList, lexer.line, Array.toList_push⟩

theorem Rejects.not_read {code file : String} {diagnostic : Diagnostic}
    (h : Rejects code file diagnostic) :
    ¬ ∃ tokens tree, tokenize code file = .ok tokens ∧ parse tokens file = .ok tree := by
  rintro ⟨tokens, tree, htokens, htree⟩
  rcases h with h | ⟨others, hothers, h⟩
  · simp [htokens] at h
  · obtain rfl := Except.ok.inj (htokens.symm.trans hothers)
    simp [htree] at h

/-- The streams of a command depend on its input alone, but for the lines of the tokens, which come
first on the standard output if they are asked for. The exit code is 0 just if both phases succeed.
Then the standard output goes on with the texts of the forms in the order of the source. Else it has
no more, and the other stream has the report of the diagnostic of the phase that fails. -/
theorem flags_only_add_tokens (input : String) (contents? : Option (List UInt8)) :
    let source := Source.load input contents?
    let outcome (tokens verbose : Bool) := Command.run ⟨input, tokens, verbose⟩ source
    (∀ tokens verbose,
      ((outcome tokens verbose).exitCode = 0 ↔ ∃ tokens tree,
        tokenize source.code source.name = .ok tokens ∧ parse tokens source.name = .ok tree) ∧
      ((outcome tokens verbose).exitCode = 0 ∧ (outcome tokens verbose).stderr = "" ∨
        (outcome tokens verbose).exitCode = 1 ∧ ∃ diagnostic,
          Rejects source.code source.name diagnostic ∧
          (outcome tokens verbose).stderr = diagnostic.report source.code)) ∧
    (∀ verbose, (outcome true verbose).exitCode = (outcome false verbose).exitCode ∧
      (outcome true verbose).stderr = (outcome false verbose).stderr ∧
      (outcome true verbose).stdout = Command.tokenLines source ++ (outcome false verbose).stdout) ∧
    (∀ tokens, outcome tokens true = outcome tokens false) ∧
    (∀ tokens, tokenize source.code source.name = .ok tokens →
      ∃ before line, tokens = before ++ [⟨.endOfFile, "EOF", line⟩]) ∧
    (∀ verbose, (outcome false verbose).exitCode ≠ 0 → (outcome false verbose).stdout = "") ∧
    ∀ tokens tree, tokenize source.code source.name = .ok tokens →
      parse tokens source.name = .ok tree →
      ∃ forms, Spells maxDepth (beforeEnd tokens) forms ∧
        tree.describeProgram = .ok (forms.map Form.text) ∧
        ∀ verbose, (outcome false verbose).stdout = Text.printed (forms.map Form.text) := by
  intro source outcome
  rcases Command.run_cases source with
    ⟨tokens, tree, forms, htokens, htree, hspells, htexts, hrun⟩ | ⟨diagnostic, hrejects, hrun⟩
  · have houtcome : outcome = fun tokens _ =>
        ⟨0, (if tokens then Command.tokenLines source else "") ++
          Text.printed (forms.map Form.text), ""⟩ := funext₂ fun _ _ => hrun _
    have hread : ∃ tokens tree, tokenize source.code source.name = .ok tokens ∧
        parse tokens source.name = .ok tree := ⟨tokens, tree, htokens, htree⟩
    rw [houtcome]
    refine ⟨fun _ _ => ⟨iff_of_true rfl hread, .inl ⟨rfl, rfl⟩⟩, fun _ => ⟨rfl, rfl, ?_⟩,
      fun _ => rfl, fun _ => tokenize_ends, fun _ hfails => absurd rfl hfails, ?_⟩
    · simp
    · intro others other hothers hother
      obtain rfl := Except.ok.inj (htokens.symm.trans hothers)
      obtain rfl := Except.ok.inj (htree.symm.trans hother)
      exact ⟨forms, hspells, htexts, fun _ => by simp⟩
  · have houtcome : outcome = fun tokens _ =>
        ⟨1, if tokens then Command.tokenLines source else "", diagnostic.report source.code⟩ :=
      funext₂ fun _ _ => hrun _
    have hone : (1 : UInt32) ≠ 0 := by decide
    rw [houtcome]
    refine ⟨fun _ _ => ⟨iff_of_false hone hrejects.not_read,
      .inr ⟨rfl, diagnostic, hrejects, rfl⟩⟩, fun _ => ⟨rfl, rfl, ?_⟩, fun _ => rfl,
      fun _ => tokenize_ends, fun _ _ => rfl, ?_⟩
    · simp
    · intro tokens tree htokens htree
      exact absurd ⟨tokens, tree, htokens, htree⟩ hrejects.not_read

example : Command.run ⟨"(a", true, false⟩ (.load "(a" none) =
    ⟨1, "LEXEME: (, TYPE: Left Parenthesis, LINE: 1.\n" ++
      "LEXEME: a, TYPE: Identifier, LINE: 1.\n" ++
      "LEXEME: EOF, TYPE: End Of File, LINE: 1.\n",
      "Error: UnterminatedScope (Did you forget a closing `)`?)\n" ++
      "unterminated scope at line 1\n" ++ "-> shell\n" ++ "  |\n" ++ "1 | (a\n" ++ "  |\n"⟩ := by
  decide +kernel

def sumsFolder : Directory :=
  Directory.empty.addFile
    [0x28, 0x66, 0x20, 0x31, 0x2E, 0x35, 0x29, 0x0A, 0x5B, 0x78, 0x20, 0x5D]
    (Path.names "code/./sums.mlsp")

def sumsTokens : List Token :=
  [⟨.opening .paren, "(", 1⟩, ⟨.identifier, "f", 1⟩, ⟨.number, "1.5", 1⟩,
    ⟨.closing .paren, ")", 1⟩, ⟨.opening .bracket, "[", 2⟩, ⟨.identifier, "x", 2⟩,
    ⟨.closing .bracket, "]", 2⟩, ⟨.endOfFile, "EOF", 3⟩]

def sumsTree : Arena where
  nodes := #[.leaf (.identifier "f") 1, .leaf (.number (.ofBits 0x3FF8000000000000)) 1,
    .scope .paren [0, 1] 1, .leaf (.identifier "x") 2, .scope .bracket [3] 2]
  program := [2, 4]

theorem run_sums :
    let source := Source.load "code/./sums.mlsp" (sumsFolder.contents? "code/./sums.mlsp")
    let outcome (tokens : Bool) := Command.run ⟨"code/./sums.mlsp", tokens, true⟩ source
    let texts := "Program: ( Identifier: f Number: 1.500000 )\n" ++ "List: [ Identifier: x ]\n"
    (outcome false).exitCode = 0 ∧ (outcome false).stdout = texts ∧
      (outcome true).exitCode = 0 ∧ (outcome true).stderr = "" ∧
      (outcome true).stdout =
        "LEXEME: (, TYPE: Left Parenthesis, LINE: 1.\n" ++
        "LEXEME: f, TYPE: Identifier, LINE: 1.\n" ++
        "LEXEME: 1.5, TYPE: Number, LINE: 1.\n" ++
        "LEXEME: ), TYPE: Right Parenthesis, LINE: 1.\n" ++
        "LEXEME: [, TYPE: Left Bracket, LINE: 2.\n" ++
        "LEXEME: x, TYPE: Identifier, LINE: 2.\n" ++
        "LEXEME: ], TYPE: Right Bracket, LINE: 2.\n" ++
        "LEXEME: EOF, TYPE: End Of File, LINE: 3.\n" ++ texts := by
  intro source outcome texts
  have hsegments : Path.segments "code/./sums.mlsp" = ["code", "."] ++ ["sums.mlsp"] := by decide
  have hfile : sumsFolder.contents? "code/./sums.mlsp" = some _ :=
    Directory.contents?_addFile _ _ (by decide) (by decide) hsegments (by decide) (by decide)
  have hsource : source = ⟨"(f 1.5)\n[x ]\n", "sums.mlsp", false⟩ := by
    unfold source
    rw [hfile]
    decide +kernel
  have htokens : tokenize source.code source.name = .ok sumsTokens := by
    rw [hsource]
    decide +kernel
  have htree : parse sumsTokens source.name = .ok sumsTree := by
    rw [hsource]
    decide +kernel
  have hlines : Command.tokenLines source = Text.printed (sumsTokens.map Command.tokenLine) := by
    rw [Command.tokenLines, htokens]
  obtain ⟨hcodes, hflags, -, -, -, hforms⟩ :=
    flags_only_add_tokens "code/./sums.mlsp" (sumsFolder.contents? "code/./sums.mlsp")
  obtain ⟨forms, -, hprogram, hstdout⟩ := hforms sumsTokens sumsTree htokens htree
  obtain ⟨-, -, hadded⟩ := hflags true
  have htexts : Text.printed (forms.map Form.text) = texts := by
    have hdescribe : sumsTree.describeProgram =
        .ok ["Program: ( Identifier: f Number: 1.500000 )", "List: [ Identifier: x ]"] := by
      decide +kernel
    rw [← Except.ok.inj (hdescribe.symm.trans hprogram)]
    decide +kernel
  have hread : ∃ tokens tree, tokenize source.code source.name = .ok tokens ∧
      parse tokens source.name = .ok tree := ⟨_, _, htokens, htree⟩
  have hcode : (outcome true).exitCode = 0 := (hcodes true true).1.mpr hread
  have hstderr : (outcome true).stderr = "" := by
    rcases (hcodes true true).2 with ⟨-, hempty⟩ | ⟨hone, -⟩
    · exact hempty
    · exact absurd (hcode.symm.trans hone) (by decide)
  refine ⟨(hcodes false true).1.mpr hread, (hstdout true).trans htexts, hcode, hstderr, ?_⟩
  calc (outcome true).stdout
      = Command.tokenLines source ++ (outcome false).stdout := hadded
    _ = Text.printed (sumsTokens.map Command.tokenLine) ++ texts :=
        congrArg₂ _ hlines ((hstdout true).trans htexts)
    _ = _ := by decide +kernel

end LispReader
