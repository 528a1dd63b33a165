import LispReader.Proofs.Atoms
import LispReader.Proofs.Parsing
import LispReader.Proofs.Tokenizing

namespace LispReader

abbrev Blank := {c : Char // Pattern.isBlank c}

/-- Forms to print, with a blank chosen for each place where one stands: behind every form and
behind every opening delimiter. -/
inductive Printout
  | nil
  | atom (head : Atom) (blank : Blank) (rest : Printout)
  | scope (delimiter : Delimiter) (gap : Blank) (inner : Printout) (blank : Blank) (rest : Printout)

namespace Printout

def text : Printout → List Char
  | nil => []
  | atom head blank rest => head.text ++ blank.val :: rest.text
  | scope delimiter gap inner blank rest =>
      delimiter.opener :: gap.val :: (inner.text ++ delimiter.closer :: blank.val :: rest.text)

def depth : Printout → Nat
  | nil => 0
  | atom _ _ rest => rest.depth
  | scope _ _ inner _ rest => max (inner.depth + 1) rest.depth

def forms (line : Nat) : Printout → List Form
  | nil => []
  | atom head blank rest =>
      .leaf head.value line ::
        rest.forms (line + head.text.count '\n' + [blank.val].count '\n')
  | scope delimiter gap inner blank rest =>
      .scope delimiter (inner.forms (line + [gap.val].count '\n')) line ::
        rest.forms
          (line + [gap.val].count '\n' + inner.text.count '\n' + [blank.val].count '\n')

def parts : Printout → List Part
  | nil => []
  | atom head blank rest => head.part :: .blanks [blank.val] :: rest.parts
  | scope delimiter gap inner blank rest =>
      .opening delimiter :: .blanks [gap.val] ::
        (inner.parts ++ .closing delimiter :: .blanks [blank.val] :: rest.parts)

end Printout

theorem Blank.not_continues (blank : Blank) (atom : Atom) (rest : List Char) :
    Ends atom.part.continues (blank.val :: rest) := by
  obtain ⟨c, hblank⟩ := blank
  apply ends_cons
  cases atom with
  | identifier => simp [Atom.part, Part.continues, Pattern.isIdentifierChar, hblank]
  | string | character => rfl
  | integer | number =>
      simp only [Pattern.isBlank, Bool.or_eq_true, decide_eq_true_eq] at hblank
      rcases hblank with ((((rfl | rfl) | rfl) | rfl) | rfl) | rfl <;> rfl

theorem IsNumeral.not_blank {text : List Char} (h : IsNumeral text) (rest : List Char) :
    Ends Pattern.isBlank (text ++ rest) := by
  have hstarts := h.starts
  cases text with
  | nil => contradiction
  | cons c text =>
      have hc := (Pattern.isIdentifierChar_of_startsNumber hstarts).1
      exact ends_cons _ (Pattern.ne_of_isIdentifierChar hc).1

theorem Atom.not_blank (atom : Atom) (rest : List Char) :
    Ends Pattern.isBlank (atom.text ++ rest) := by
  have hproper := atom.part_proper
  cases atom with
  | identifier name hname =>
      obtain ⟨hne, hchars, -⟩ := hname
      cases name with
      | nil => contradiction
      | cons c name =>
          have hc := hchars c List.mem_cons_self
          exact ends_cons _ (Pattern.ne_of_isIdentifierChar hc).1
  | string | character => exact ends_cons _ rfl
  | integer | number => exact IsNumeral.not_blank hproper rest

theorem Blank.decomposes (blank : Blank) {tail : List Char} {parts : List Part}
    (htail : Decomposes tail parts) (hend : Ends Pattern.isBlank tail) :
    Decomposes (blank.val :: tail) (.blanks [blank.val] :: parts) := by
  have hproper : (Part.blanks [blank.val]).Proper := by
    refine ⟨List.cons_ne_nil _ _, ?_⟩
    intro c hc
    rw [List.mem_singleton.mp hc]
    exact blank.property
  exact .cons hproper hend htail

theorem Decomposes.opening (delimiter : Delimiter) {tail : List Char} {parts : List Part}
    (htail : Decomposes tail parts) :
    Decomposes (delimiter.opener :: tail) (.opening delimiter :: parts) := by
  have hproper : (Part.opening delimiter).Proper := trivial
  have hend : Ends (Part.opening delimiter).continues tail := fun _ _ => rfl
  exact .cons hproper hend htail

theorem Decomposes.closing (delimiter : Delimiter) {tail : List Char} {parts : List Part}
    (htail : Decomposes tail parts) :
    Decomposes (delimiter.closer :: tail) (.closing delimiter :: parts) := by
  have hproper : (Part.closing delimiter).Proper := trivial
  have hend : Ends (Part.closing delimiter).continues tail := fun _ _ => rfl
  exact .cons hproper hend htail

theorem not_blank_opener (delimiter : Delimiter) (rest : List Char) :
    Ends Pattern.isBlank (delimiter.opener :: rest) := by
  apply ends_cons
  cases delimiter <;> rfl

theorem not_blank_closer (delimiter : Delimiter) (rest : List Char) :
    Ends Pattern.isBlank (delimiter.closer :: rest) := by
  apply ends_cons
  cases delimiter <;> rfl

namespace Printout

theorem decomposes (printout : Printout) {tail : List Char} {parts : List Part}
    (htail : Decomposes tail parts) (hend : Ends Pattern.isBlank tail) :
    Decomposes (printout.text ++ tail) (printout.parts ++ parts) ∧
      Ends Pattern.isBlank (printout.text ++ tail) := by
  induction printout generalizing tail parts with
  | nil => exact ⟨htail, hend⟩
  | atom head blank rest ih =>
      obtain ⟨hrest, hnext⟩ := ih htail hend
      have hhead := Decomposes.cons head.part_proper (blank.not_continues head _)
        (blank.decomposes hrest hnext)
      rw [head.part_text] at hhead
      simp only [text, Printout.parts, List.append_assoc, List.cons_append]
      exact ⟨hhead, head.not_blank _⟩
  | scope delimiter gap inner blank rest ihinner ihrest =>
      obtain ⟨hrest, hnext⟩ := ihrest htail hend
      have hclosing := Decomposes.closing delimiter (blank.decomposes hrest hnext)
      obtain ⟨hinner, hfirst⟩ := ihinner hclosing (not_blank_closer delimiter _)
      simp only [text, Printout.parts, List.append_assoc, List.cons_append]
      exact ⟨.opening delimiter (gap.decomposes hinner hfirst), not_blank_opener delimiter _⟩

theorem tokens_blank (blank : Blank) (line : Nat) (parts : List Part) :
    Part.tokens line (.blanks [blank.val] :: parts) =
      Part.tokens (line + [blank.val].count '\n') parts := by
  rfl

theorem tokens_opening (delimiter : Delimiter) (line : Nat) :
    ∃ token : Token, token.kind = .opening delimiter ∧ token.line = line ∧
      ∀ parts, Part.tokens line (.opening delimiter :: parts) =
        token :: Part.tokens line parts := by
  refine ⟨⟨.opening delimiter, String.ofList [delimiter.opener], line⟩, rfl, rfl, ?_⟩
  intro parts
  cases delimiter <;> rfl

theorem tokens_closing (delimiter : Delimiter) (line : Nat) :
    ∃ token : Token, token.kind = .closing delimiter ∧
      ∀ parts, Part.tokens line (.closing delimiter :: parts) =
        token :: Part.tokens line parts := by
  refine ⟨⟨.closing delimiter, String.ofList [delimiter.closer], line⟩, rfl, ?_⟩
  intro parts
  cases delimiter <;> rfl

theorem tokens_atom {head : Atom} {token : Token} {line : Nat}
    (htoken : head.part.token? line = some token) (parts : List Part) :
    Part.tokens line (head.part :: parts) =
      token :: Part.tokens (line + head.text.count '\n') parts := by
  rw [Part.tokens, htoken, head.part_text]
  rfl

theorem count_atom (head : Atom) (blank : Blank) (rest : Printout) :
    (atom head blank rest).text.count '\n' =
      head.text.count '\n' + [blank.val].count '\n' + rest.text.count '\n' := by
  rw [text, List.append_cons, List.count_append, List.count_append]

theorem count_scope (delimiter : Delimiter) (gap : Blank) (inner : Printout) (blank : Blank)
    (rest : Printout) :
    (scope delimiter gap inner blank rest).text.count '\n' =
      [gap.val].count '\n' + inner.text.count '\n' + [blank.val].count '\n' +
        rest.text.count '\n' := by
  have hopener : [delimiter.opener].count '\n' = 0 := by cases delimiter <;> rfl
  have hcloser : [delimiter.closer].count '\n' = 0 := by cases delimiter <;> rfl
  have htext : (scope delimiter gap inner blank rest).text =
      [delimiter.opener] ++ [gap.val] ++ inner.text ++ [delimiter.closer] ++ [blank.val] ++
        rest.text := by
    simp [text]
  rw [htext]
  simp only [List.count_append, hopener, hcloser, Nat.zero_add, Nat.add_zero]

theorem spells (printout : Printout) {levels : Nat} (hdepth : printout.depth ≤ levels)
    (line : Nat) :
    ∃ tokens, Spells levels tokens (printout.forms line) ∧
      ∀ more, Part.tokens line (printout.parts ++ more) =
        tokens ++ Part.tokens (line + printout.text.count '\n') more := by
  induction printout generalizing levels line with
  | nil => exact ⟨[], .nil, fun _ => rfl⟩
  | atom head blank rest ih =>
      obtain ⟨token, htoken, hvalue, rfl⟩ := head.part_token? line
      obtain ⟨tokens, hspells, htokens⟩ := ih hdepth _
      refine ⟨token :: tokens, .leaf hvalue hspells, ?_⟩
      intro more
      rw [Printout.parts, List.cons_append, List.cons_append, tokens_atom htoken, tokens_blank,
        htokens, count_atom]
      simp only [List.cons_append, Nat.add_assoc]
  | scope delimiter gap inner blank rest ihinner ihrest =>
      obtain ⟨hinner, hrest⟩ := Nat.max_le.mp hdepth
      obtain ⟨levels, rfl⟩ := Nat.exists_eq_add_of_le' (Nat.one_le_of_lt hinner)
      obtain ⟨opening, hopening, rfl, hstart⟩ := tokens_opening delimiter line
      obtain ⟨within, hspells, hwithin⟩ := ihinner (Nat.le_of_succ_le_succ hinner)
        (opening.line + [gap.val].count '\n')
      obtain ⟨closing, hclosing, hstop⟩ := tokens_closing delimiter
        (opening.line + [gap.val].count '\n' + inner.text.count '\n')
      obtain ⟨tokens, hspells', htokens⟩ := ihrest hrest
        (opening.line + [gap.val].count '\n' + inner.text.count '\n' + [blank.val].count '\n')
      refine ⟨opening :: (within ++ closing :: tokens),
        .scope hopening hspells hclosing hspells', ?_⟩
      intro more
      simp only [Printout.parts, List.cons_append, List.append_assoc]
      rw [hstart, tokens_blank, hwithin, hstop, tokens_blank, htokens, count_scope]
      simp only [Nat.add_assoc]

end Printout

/-- Printing and reading is the identity: the tree of a printout unfolds to the printed forms. -/
theorem read_printed (printout : Printout) (file : String) (hdepth : printout.depth ≤ maxDepth) :
    ∃ tokens tree, tokenize (String.ofList printout.text) file = .ok tokens ∧
      parse tokens file = .ok tree ∧ tree.Unfolds tree.program (printout.forms 1) := by
  have hnothing : Ends Pattern.isBlank [] := by simp [Ends]
  have hparts : Decomposes (String.ofList printout.text).toList printout.parts := by
    have h := (printout.decomposes .nil hnothing).1
    rw [List.append_nil, List.append_nil] at h
    rw [String.toList_ofList]
    exact h
  obtain ⟨tokens, hspells, htokens⟩ := printout.spells hdepth 1
  have hend : beforeEnd (Part.tokens 1 printout.parts) = tokens := by
    have hall := htokens []
    rw [List.append_nil] at hall
    rw [hall, hspells.beforeEnd_append, Part.tokens, beforeEnd_end _ rfl, List.append_nil]
  rw [← hend] at hspells
  exact ⟨_, _, tokenize_of_decomposes file hparts, parse_of_spells file hspells,
    Arena.ofForms_unfolds _⟩

def Blank.space : Blank := ⟨' ', rfl⟩

def Blank.newline : Blank := ⟨'\n', rfl⟩

theorem proper_minus_bracket : (Part.identifier ['-', ']']).Proper := by
  refine ⟨by decide, ?_, by decide, by decide, rfl⟩
  simp [Pattern.isIdentifierChar, Pattern.isBlank]

theorem isDecimal_minus_two_and_a_half : IsDecimal ['-', '2', '.', '5'] :=
  .intro (.inr rfl) (List.cons_ne_nil '2' []) (List.cons_ne_nil '5' []) (by simp)

def Printout.assorted : Printout :=
  .scope .paren .space
    (.atom (.identifier ['-', ']'] proper_minus_bracket) .newline
      (.scope .bracket .space
        (.atom (.string "a\n\"\\;") .space (.atom (.character '\\') .space .nil)) .space
        (.atom (.integer (-12)) .space .nil)))
    .newline
    (.atom (.number ['-', '2', '.', '5'] (.ofBits 0xC004000000000000)
      isDecimal_minus_two_and_a_half (by decide +kernel)) .space .nil)

theorem read_assorted :
    String.ofList Printout.assorted.text = "( -]\n[ \"a\n\\\"\\\\;\" '\\\\ ] -12 )\n-2.5 " ∧
      Printout.assorted.depth ≤ maxDepth ∧
      ∃ tokens tree, tokenize (String.ofList Printout.assorted.text) "" = .ok tokens ∧
        parse tokens "" = .ok tree ∧ tree.Unfolds tree.program (Printout.assorted.forms 1) := by
  have hdepth : Printout.assorted.depth ≤ maxDepth := by decide
  exact ⟨rfl, hdepth, read_printed Printout.assorted "" hdepth⟩

end LispReader
