import LispReader.Proofs.PostOrder
import LispReader.Proofs.Tokenizing

namespace LispReader

/-- The line of what stands right behind a text at the start of a source. -/
def lineBehind (text : List Char) : Nat :=
  1 + text.count '\n'

namespace Part

def written (parts : List Part) : List Char :=
  parts.flatMap text

/-- The tokens of the parts with the text `before` in front of them. Each has the line behind all
that stands before its first character. -/
def content (before : List Char) : List Part → List Token
  | [] => []
  | part :: parts =>
      (part.token? (lineBehind before)).toList ++ content (before ++ part.text) parts

variable {part : Part} {parts : List Part} {before : List Char} {line : Nat} {token : Token}

theorem line_of_token? (h : part.token? line = some token) : token.line = line := by
  cases part with
  | blanks | comment => contradiction
  | opening | closing | number | character | string | identifier =>
      obtain rfl := Option.some.inj h
      rfl

theorem token?_eq_none (h : part.token? line = none) (other : Nat) : part.token? other = none := by
  cases part with
  | blanks | comment => rfl
  | opening | closing | number | character | string | identifier => contradiction

theorem kind_of_token? (h : part.token? line = some token) : token.kind ≠ .endOfFile := by
  cases part with
  | blanks | comment => contradiction
  | number text =>
      obtain rfl := Option.some.inj h
      by_cases hdot : '.' ∈ text <;> simp [hdot]
  | opening | closing | character | string | identifier =>
      obtain rfl := Option.some.inj h
      simp

theorem eq_of_delimiter (h : part.token? line = some token) (delimiter : Delimiter) :
    (token.kind = .opening delimiter → part = .opening delimiter) ∧
      (token.kind = .closing delimiter → part = .closing delimiter) := by
  cases part with
  | blanks | comment => contradiction
  | number text =>
      obtain rfl := Option.some.inj h
      by_cases hdot : '.' ∈ text <;> simp [hdot]
  | opening | closing | character | string | identifier =>
      obtain rfl := Option.some.inj h
      simp

theorem lineBehind_append (before text : List Char) :
    lineBehind (before ++ text) = lineBehind before + text.count '\n' := by
  rw [lineBehind, List.count_append, ← Nat.add_assoc]
  rfl

theorem tokens_eq_content (before : List Char) (parts : List Part) :
    tokens (lineBehind before) parts =
      content before parts ++ [⟨.endOfFile, "EOF", lineBehind (before ++ written parts)⟩] := by
  induction parts generalizing before with
  | nil => simp [tokens, content, written]
  | cons part parts ih =>
      rw [tokens, content, ← lineBehind_append, ih, List.append_assoc, List.append_assoc]
      rfl

theorem kind_of_mem_content (h : token ∈ content before parts) : token.kind ≠ .endOfFile := by
  induction parts generalizing before with
  | nil => contradiction
  | cons part parts ih =>
      rcases List.mem_append.mp h with hpart | hparts
      · exact kind_of_token? (Option.mem_toList.mp hpart)
      · exact ih hparts

theorem beforeEnd_content {last : Token} (before : List Char) (parts : List Part)
    (hlast : last.kind = .endOfFile) :
    beforeEnd (content before parts ++ [last]) = content before parts := by
  rw [beforeEnd_append fun _ htoken => kind_of_mem_content htoken, beforeEnd_end _ hlast,
    List.append_nil]

theorem content_append (before : List Char) (parts more : List Part) :
    content before (parts ++ more) =
      content before parts ++ content (before ++ written parts) more := by
  induction parts generalizing before with
  | nil => simp [content, written]
  | cons part parts ih =>
      rw [List.cons_append, content, ih, content, List.append_assoc]
      simp [written]

theorem lines_of_mem_content (h : token ∈ content before parts) :
    lineBehind before ≤ token.line ∧ token.line ≤ lineBehind (before ++ written parts) := by
  induction parts generalizing before with
  | nil => contradiction
  | cons part parts ih =>
      have hall : before ++ written (part :: parts) = before ++ part.text ++ written parts := by
        simp [written]
      rw [hall, lineBehind_append, lineBehind_append]
      rcases List.mem_append.mp h with hpart | hparts
      · rw [line_of_token? (Option.mem_toList.mp hpart)]
        omega
      · have hlines := ih hparts
        simp only [lineBehind_append] at hlines
        omega

theorem content_increases (before : List Char) (parts : List Part) :
    (content before parts).Pairwise (·.line ≤ ·.line) := by
  induction parts generalizing before with
  | nil => exact .nil
  | cons part parts ih =>
      rw [content, List.pairwise_append]
      refine ⟨?_, ih _, ?_⟩
      · cases part.token? (lineBehind before) <;> simp
      · intro token htoken other hother
        have hlines := lines_of_mem_content hother
        rw [lineBehind_append] at hlines
        rw [line_of_token? (Option.mem_toList.mp htoken)]
        omega

theorem content_eq_append_cons {tokens more : List Token}
    (h : content before parts = tokens ++ token :: more) :
    ∃ earlier part later, parts = earlier ++ part :: later ∧ content before earlier = tokens ∧
      part.token? (lineBehind (before ++ written earlier)) = some token ∧
      content (before ++ written earlier ++ part.text) later = more := by
  induction parts generalizing before tokens with
  | nil =>
      rw [content] at h
      simp at h
  | cons part parts ih =>
      rw [content] at h
      have hskip (others : List Token) (htokens : tokens =
          (part.token? (lineBehind before)).toList ++ others)
          (hothers : content (before ++ part.text) parts = others ++ token :: more) :
          ∃ earlier other later, part :: parts = earlier ++ other :: later ∧
            content before earlier = tokens ∧
            other.token? (lineBehind (before ++ written earlier)) = some token ∧
            content (before ++ written earlier ++ other.text) later = more := by
        obtain ⟨earlier, other, later, rfl, hearlier, hother, hlater⟩ := ih hothers
        refine ⟨part :: earlier, other, later, rfl, ?_, ?_, ?_⟩
        · rw [content, hearlier, htokens]
        · simpa [written] using hother
        · simpa [written] using hlater
      cases hpart : part.token? (lineBehind before) with
      | none =>
          rw [hpart] at h hskip
          exact hskip tokens rfl h
      | some first =>
          rw [hpart] at h hskip
          cases tokens with
          | nil =>
              obtain ⟨rfl, rfl⟩ := List.cons.inj h
              exact ⟨[], part, parts, rfl, rfl, by simpa [written] using hpart, by simp [written]⟩
          | cons other tokens =>
              obtain ⟨rfl, hrest⟩ := List.cons.inj h
              exact hskip tokens rfl hrest

theorem eq_written_of_decomposes {text : List Char} (h : Decomposes text parts) :
    text = written parts := by
  induction h with
  | nil => rfl
  | cons _ _ _ ih => rw [written, List.flatMap_cons, ih, written]

end Part

namespace Arena

/-- The parts, with the text `before` in front of them, are the forms at the places. Each node has
the line of the first character of its form, which is the opening delimiter for a scope. -/
inductive Stands (tree : Arena) : List Char → List Part → List NodeId → Prop
  | nil {before : List Char} : Stands tree before [] []
  | between {before : List Char} {part : Part} {parts : List Part} {ids : List NodeId}
      (hnone : ∀ line, part.token? line = none)
      (hrest : Stands tree (before ++ part.text) parts ids) : Stands tree before (part :: parts) ids
  | leaf {before : List Char} {part : Part} {parts : List Part} {token : Token} {value : Leaf}
      {id : NodeId} {ids : List NodeId} (htoken : part.token? (lineBehind before) = some token)
      (hvalue : token.leaf? = some value)
      (hnode : tree.get? id = some (.leaf value (lineBehind before)))
      (hrest : Stands tree (before ++ part.text) parts ids) :
      Stands tree before (part :: parts) (id :: ids)
  | scope {before : List Char} {delimiter : Delimiter} {inner parts : List Part}
      {children ids : List NodeId} {id : NodeId}
      (hnode : tree.get? id = some (.scope delimiter children (lineBehind before)))
      (hinner : Stands tree (before ++ [delimiter.opener]) inner children)
      (hrest : Stands tree
        (before ++ Part.written (.opening delimiter :: (inner ++ [.closing delimiter])))
        parts ids) :
      Stands tree before (.opening delimiter :: (inner ++ .closing delimiter :: parts)) (id :: ids)

variable {tree : Arena} {before : List Char} {parts : List Part} {ids : List NodeId}

theorem Stands.skip {skipped : List Part} (hskipped : Part.content before skipped = [])
    (h : tree.Stands (before ++ Part.written skipped) parts ids) :
    tree.Stands before (skipped ++ parts) ids := by
  induction skipped generalizing before with
  | nil => simpa [Part.written] using h
  | cons part skipped ih =>
      obtain ⟨hpart, hrest⟩ := List.append_eq_nil_iff.mp hskipped
      have hnone : part.token? (lineBehind before) = none := Option.toList_eq_nil_iff.mp hpart
      exact .between (Part.token?_eq_none hnone) (ih hrest (by simpa [Part.written] using h))

theorem stands_of_spells {levels : Nat} {tokens : List Token} {forms : List Form}
    (hspells : Spells levels tokens forms) (hunfolds : tree.Unfolds ids forms)
    (hcontent : Part.content before parts = tokens) : tree.Stands before parts ids := by
  induction hspells generalizing before parts ids with
  | nil =>
      cases hunfolds
      have hnil : tree.Stands (before ++ Part.written parts) [] [] := .nil
      have h := Stands.skip hcontent hnil
      rwa [List.append_nil] at h
  | @leaf levels token value tokens forms hvalue _ ih =>
      cases hunfolds with
      | leaf hnode hrest =>
          rw [← List.nil_append (token :: tokens)] at hcontent
          obtain ⟨skipped, part, later, rfl, hskipped, htoken, hlater⟩ :=
            Part.content_eq_append_cons hcontent
          rw [Part.line_of_token? htoken] at hnode
          exact .skip hskipped (.leaf htoken hvalue hnode (ih hrest hlater))
  | @scope levels delimiter opening closing inner tokens parts' forms hopening _ hclosing _
        ihparts ihrest =>
      cases hunfolds with
      | scope hnode hparts hrest =>
          rw [← List.nil_append (opening :: _)] at hcontent
          obtain ⟨skipped, part, later, rfl, hskipped, htoken, hlater⟩ :=
            Part.content_eq_append_cons hcontent
          obtain ⟨within, last, later, rfl, hwithin, hlast, hbehind⟩ :=
            Part.content_eq_append_cons hlater
          rw [Part.line_of_token? htoken] at hnode
          obtain rfl := (Part.eq_of_delimiter htoken _).1 hopening
          obtain rfl := (Part.eq_of_delimiter hlast _).2 hclosing
          refine .skip hskipped (.scope hnode (ihparts hparts hwithin) (ihrest hrest ?_))
          simpa [Part.written, Part.text] using hbehind

end Arena

def Part.Begins (part : Part) : Node → Prop
  | .leaf value line => ∃ token, part.token? line = some token ∧ token.leaf? = some value
  | .scope delimiter _ _ => part = .opening delimiter

/-- One of the parts begins the form of the node, and the node has the line of its first
character. -/
def Node.StartsIn (before : List Char) (parts : List Part) (node : Node) : Prop :=
  ∃ earlier part later, parts = earlier ++ part :: later ∧
    node.line = lineBehind (before ++ Part.written earlier) ∧ part.Begins node

namespace Node.StartsIn

variable {before : List Char} {parts : List Part} {node : Node}

theorem cons {part : Part} (h : node.StartsIn (before ++ part.text) parts) :
    node.StartsIn before (part :: parts) := by
  obtain ⟨earlier, first, later, rfl, hline, hfirst⟩ := h
  refine ⟨part :: earlier, first, later, rfl, ?_, hfirst⟩
  simpa [Part.written] using hline

theorem append_right (h : node.StartsIn before parts) (more : List Part) :
    node.StartsIn before (parts ++ more) := by
  obtain ⟨earlier, first, later, rfl, hline, hfirst⟩ := h
  exact ⟨earlier, first, later ++ more, by simp, hline, hfirst⟩

theorem append_left {earlier : List Part}
    (h : node.StartsIn (before ++ Part.written earlier) parts) :
    node.StartsIn before (earlier ++ parts) := by
  induction earlier generalizing before with
  | nil => simpa [Part.written] using h
  | cons part earlier ih => exact cons (ih (by simpa [Part.written] using h))

end Node.StartsIn

namespace Arena

theorem Stands.startsIn {tree : Arena} {before : List Char} {parts : List Part}
    {ids : List NodeId} (h : tree.Stands before parts ids) {id below : NodeId} {node : Node}
    (hid : id ∈ ids) (hreach : tree.Reaches id below) (hbelow : tree.get? below = some node) :
    node.StartsIn before parts := by
  induction h generalizing id with
  | nil => contradiction
  | between _ _ ih => exact (ih hid hreach).cons
  | @leaf before part parts token value top ids htoken hvalue hnode _ ih =>
      rcases List.mem_cons.mp hid with rfl | hid
      · rw [reaches_iff hnode] at hreach
        obtain rfl : below = id := by simpa [Node.children] using hreach
        obtain rfl := Option.some.inj (hnode.symm.trans hbelow)
        exact ⟨[], part, parts, rfl, by simp [Node.line, Part.written], token, htoken, hvalue⟩
      · exact (ih hid hreach).cons
  | @scope before delimiter inner parts children ids top hnode _ _ ihinner ihrest =>
      rcases List.mem_cons.mp hid with rfl | hid
      · rw [reaches_iff hnode] at hreach
        rcases hreach with rfl | ⟨child, hchild, hreach⟩
        · obtain rfl := Option.some.inj (hnode.symm.trans hbelow)
          exact ⟨[], _, _, rfl, by simp [Node.line, Part.written], rfl⟩
        · exact ((ihinner hchild hreach).append_right _).cons
      · have h := (ihrest hid hreach).append_left
        simpa using h

end Arena

/-- The line of a token or a node is that of its first character: one more than the line breaks
before it, wherever they stand. -/
theorem lines_count_breaks {source file : String} {tokens : List Token}
    (h : tokenize source file = .ok tokens) :
    ∃ parts, Decomposes source.toList parts ∧
      tokens = Part.content [] parts ++ [⟨.endOfFile, "EOF", lineBehind source.toList⟩] ∧
      (∀ shown token more, Part.content [] parts = shown ++ token :: more →
        token.kind ≠ .endOfFile ∧
        ∃ earlier part later, parts = earlier ++ part :: later ∧ Part.content [] earlier = shown ∧
          part.token? token.line = some token ∧
          token.line = lineBehind (Part.written earlier)) ∧
      tokens.Pairwise (·.line ≤ ·.line) ∧
      ∀ tree, parse tokens file = .ok tree →
        tree.Stands [] parts tree.program ∧
        ∀ id node, tree.get? id = some node → node.StartsIn [] parts := by
  obtain ⟨parts, hparts, rfl⟩ := decomposes_of_tokenize h
  have hsource : source.toList = Part.written parts := Part.eq_written_of_decomposes hparts
  have htokens : Part.tokens 1 parts =
      Part.content [] parts ++ [⟨.endOfFile, "EOF", lineBehind source.toList⟩] := by
    rw [hsource]
    exact Part.tokens_eq_content [] parts
  have hkinds : ∀ token ∈ Part.content [] parts, token.kind ≠ .endOfFile :=
    fun token htoken => Part.kind_of_mem_content htoken
  refine ⟨parts, hparts, htokens, ?_, ?_, ?_⟩
  · intro shown token more hcontent
    obtain ⟨earlier, part, later, hall, hshown, htoken, -⟩ := Part.content_eq_append_cons hcontent
    have hline : token.line = lineBehind (Part.written earlier) := Part.line_of_token? htoken
    refine ⟨hkinds token (by simp [hcontent]), earlier, part, later, hall, hshown, ?_, hline⟩
    rw [hline]
    exact htoken
  · rw [htokens, List.pairwise_append]
    refine ⟨Part.content_increases [] parts, List.pairwise_singleton _ _, ?_⟩
    intro token htoken other hother
    rw [List.mem_singleton.mp hother, hsource]
    exact (Part.lines_of_mem_content htoken).2
  · intro tree htree
    obtain ⟨forms, hspells, rfl⟩ := spells_of_parse htree
    rw [htokens, beforeEnd_append hkinds, beforeEnd_end _ rfl, List.append_nil] at hspells
    have hstands := Arena.stands_of_spells hspells (Arena.ofForms_unfolds forms) rfl
    refine ⟨hstands, fun id node hnode => ?_⟩
    obtain ⟨top, htop, hreach⟩ := ((Arena.ofForms_spans forms).reaches id).mpr
      ⟨Nat.zero_le id, Arena.lt_size_of_get? hnode⟩
    exact hstands.startsIn htop hreach hnode

theorem lines_count_assorted_breaks :
    ∃ parts, Decomposes ";one\n(\"two\n\" \r\n\x0b'\n\n\x0c-1)".toList parts ∧
      [⟨.opening .paren, "(", 2⟩, ⟨.string, "two\n", 2⟩, ⟨.character, "\n", 4⟩,
        ⟨.integer, "-1", 6⟩, ⟨.closing .paren, ")", 6⟩, ⟨.endOfFile, "EOF", 6⟩] =
          Part.content [] parts ++ [⟨.endOfFile, "EOF", 6⟩] ∧
      Arena.Stands ⟨#[.leaf (.string "two\n") 2, .leaf (.character '\n') 4, .leaf (.integer (-1)) 6,
        .scope .paren [0, 1, 2] 2], [3]⟩ [] parts [3] := by
  have h : tokenize ";one\n(\"two\n\" \r\n\x0b'\n\n\x0c-1)" "" =
      .ok [⟨.opening .paren, "(", 2⟩, ⟨.string, "two\n", 2⟩, ⟨.character, "\n", 4⟩,
        ⟨.integer, "-1", 6⟩, ⟨.closing .paren, ")", 6⟩, ⟨.endOfFile, "EOF", 6⟩] := rfl
  have hinner : Spells 255
      [⟨.string, "two\n", 2⟩, ⟨.character, "\n", 4⟩, ⟨.integer, "-1", 6⟩]
      [.leaf (.string "two\n") 2, .leaf (.character '\n') 4, .leaf (.integer (-1)) 6] :=
    .leaf rfl (.leaf rfl (.leaf rfl .nil))
  obtain ⟨parts, hparts, htokens, -, -, htree⟩ := lines_count_breaks h
  have hopening : (⟨.opening .paren, "(", 2⟩ : Token).kind = .opening .paren := rfl
  have hclosing : (⟨.closing .paren, ")", 6⟩ : Token).kind = .closing .paren := rfl
  have hspells := Spells.scope hopening hinner hclosing .nil
  exact ⟨parts, hparts, htokens, (htree _ (parse_of_spells "" hspells)).1⟩

end LispReader
