import LispReader.Proofs.Renumbering
import LispReader.Proofs.Running

namespace LispReader

inductive IsLastTrivia : List Char → Prop
  | ended {gap : List Char} (hgap : IsTrivia gap) : IsLastTrivia gap
  | comment {gap words : List Char} (hgap : IsTrivia gap) (hwords : ∀ c ∈ words, c ≠ '\n') :
      IsLastTrivia (gap ++ ';' :: words)

def Part.isToken : Part → Bool
  | blanks _ | comment _ => false
  | opening _ | closing _ | number _ | character _ _ | string _ _ | identifier _ => true

/-- The text consists of the parts and of trivia around each of them. Between two parts there is
some, and also before the first one if another token is right in front of it. -/
inductive Spread : Bool → List Part → List Char → Prop
  | last {behind : Bool} {gap : List Char} (hgap : IsLastTrivia gap) : Spread behind [] gap
  | part {behind : Bool} {part : Part} {parts : List Part} {gap rest : List Char}
      (hgap : IsTrivia gap) (hapart : behind → gap ≠ []) (hrest : Spread true parts rest) :
      Spread behind (part :: parts) (gap ++ (part.text ++ rest))

def Token.body (token : Token) : TokenKind × String :=
  (token.kind, token.lexeme)

def Part.body? (part : Part) : Option (TokenKind × String) :=
  (part.token? 1).map Token.body

namespace Part

variable {part : Part} {parts : List Part}

theorem body_token? (part : Part) (line : Nat) :
    (part.token? line).map Token.body = part.body? := by
  cases part <;> rfl

theorem body?_of_not_isToken (h : part.isToken = false) : part.body? = none := by
  cases part with
  | blanks | comment => rfl
  | opening | closing | number | character | string | identifier => contradiction

theorem bodies_tokens (line : Nat) (parts : List Part) :
    (tokens line parts).map Token.body =
      (parts.filter isToken).filterMap body? ++ [(.endOfFile, "EOF")] := by
  induction parts generalizing line with
  | nil => rfl
  | cons part parts ih =>
      rw [tokens, List.map_append, ih]
      have hbody := part.body_token? line
      cases htoken : part.isToken with
      | false =>
          rw [body?_of_not_isToken htoken, Option.map_eq_none_iff] at hbody
          rw [List.filter_cons_of_neg (by simp [htoken]), hbody]
          rfl
      | true =>
          rw [List.filter_cons_of_pos htoken, List.filterMap_cons, ← hbody]
          cases part.token? line <;> rfl

theorem not_continues_trivia {c : Char} (htoken : part.isToken)
    (hc : Pattern.isBlank c ∨ c = ';') : part.continues c = false := by
  cases part with
  | blanks | comment => contradiction
  | number =>
      simp only [Pattern.isBlank, Bool.or_eq_true, decide_eq_true_eq] at hc
      rcases hc with (((((rfl | rfl) | rfl) | rfl) | rfl) | rfl) | rfl <;> rfl
  | identifier => rcases hc with hc | rfl <;> simp [continues, Pattern.isIdentifierChar, *]
  | opening | closing | character | string => rfl

end Part

theorem IsTrivia.head {gap : List Char} (h : IsTrivia gap) (hne : gap ≠ []) :
    ∃ c rest, gap = c :: rest ∧ (Pattern.isBlank c ∨ c = ';') := by
  cases h with
  | nil => contradiction
  | blank hblank _ => exact ⟨_, _, rfl, .inl hblank⟩
  | comment _ _ => exact ⟨_, _, rfl, .inr rfl⟩

theorem IsLastTrivia.head {gap : List Char} (h : IsLastTrivia gap) (hne : gap ≠ []) :
    ∃ c rest, gap = c :: rest ∧ (Pattern.isBlank c ∨ c = ';') := by
  cases h with
  | ended hgap => exact hgap.head hne
  | @comment gap words hgap _ =>
      by_cases hnil : gap = []
      · exact ⟨';', words, by rw [hnil]; rfl, .inr rfl⟩
      · obtain ⟨c, rest, rfl, hc⟩ := hgap.head hnil
        exact ⟨c, rest ++ ';' :: words, rfl, hc⟩

theorem Spread.ends {part : Part} {parts : List Part} {text : List Char}
    (h : Spread true parts text) (htoken : part.isToken) : Ends part.continues text := by
  have hfirst {gap : List Char} (rest : List Char)
      (hgap : ∃ c tail, gap = c :: tail ∧ (Pattern.isBlank c ∨ c = ';')) :
      Ends part.continues (gap ++ rest) := by
    obtain ⟨c, tail, rfl, hc⟩ := hgap
    exact ends_cons _ (Part.not_continues_trivia htoken hc)
  cases h with
  | last hgap =>
      by_cases hnil : text = []
      · rw [hnil]
        simp [Ends]
      · have hends := hfirst [] (hgap.head hnil)
        rwa [List.append_nil] at hends
  | part hgap hapart _ => exact hfirst _ (hgap.head (hapart rfl))

namespace Lexer

theorem bodies_past (lexer : Lexer) (part : Part) (rest : List Char) :
    (lexer.past part rest).tokens.toList.map Token.body =
      lexer.tokens.toList.map Token.body ++ part.body?.toList := by
  rw [past_tokens, List.map_append, ← part.body_token? lexer.line]
  cases part.token? lexer.line <;> rfl

theorem bodies_closed (lexer : Lexer) :
    lexer.closed.map Token.body =
      lexer.tokens.toList.map Token.body ++ [(.endOfFile, "EOF")] := by
  rw [closed_eq, List.map_append]
  rfl

theorem toEnd_of_lastTrivia {lexer : Lexer} {gap : List Char} (h : IsLastTrivia gap)
    (hrest : lexer.rest = gap) :
    ∃ final, lexer.toEnd = .ok final ∧ final.tokens = lexer.tokens := by
  have hend {lexer : Lexer} (hrest : lexer.rest = []) : lexer.toEnd = .ok lexer :=
    steps_at_end _ hrest
  cases h with
  | ended hgap =>
      rw [← List.append_nil gap] at hrest
      exact ⟨lexer.across gap [], (toEnd_of_trivia hgap hrest).trans (hend rfl), rfl⟩
  | @comment gap words hgap hwords =>
      have hproper : (Part.comment words).Proper := hwords
      have hnothing : Ends (Part.comment words).continues [] := by simp [Ends]
      have hcomment : (lexer.across gap (';' :: words)).rest = (Part.comment words).text ++ [] := by
        simp [across, Part.text]
      refine ⟨(lexer.across gap (';' :: words)).past (.comment words) [], ?_, rfl⟩
      rw [toEnd_of_trivia hgap hrest, toEnd_of_part hproper hnothing hcomment, hend past_rest]

theorem toEnd_of_spread {behind : Bool} {parts : List Part} {text : List Char}
    (h : Spread behind parts text) (hparts : ∀ part ∈ parts, part.Proper ∧ part.isToken)
    {lexer : Lexer} (hrest : lexer.rest = text) :
    ∃ final, lexer.toEnd = .ok final ∧
      final.tokens.toList.map Token.body =
        lexer.tokens.toList.map Token.body ++ parts.filterMap Part.body? := by
  induction h generalizing lexer with
  | last hgap =>
      obtain ⟨final, htoEnd, htokens⟩ := toEnd_of_lastTrivia hgap hrest
      exact ⟨final, htoEnd, by simp [htokens]⟩
  | @part behind part parts gap rest hgap _ hspread ih =>
      obtain ⟨⟨hproper, htoken⟩, hothers⟩ := List.forall_mem_cons.mp hparts
      have hpart : (lexer.across gap (part.text ++ rest)).rest = part.text ++ rest := rfl
      have hpast : ((lexer.across gap (part.text ++ rest)).past part rest).rest = rest := past_rest
      obtain ⟨final, htoEnd, htokens⟩ := ih hothers hpast
      refine ⟨final, ?_, ?_⟩
      · rw [toEnd_of_trivia hgap hrest, toEnd_of_part hproper (hspread.ends htoken) hpart, htoEnd]
      · rw [htokens, bodies_past, List.append_assoc, List.filterMap_cons]
        cases part.body? <;> rfl

end Lexer

theorem tokenize_of_spread {source file : String} {parts : List Part}
    (h : Spread false parts source.toList) (hparts : ∀ part ∈ parts, part.Proper ∧ part.isToken) :
    ∃ tokens, tokenize source file = .ok tokens ∧
      tokens.map Token.body = parts.filterMap Part.body? ++ [(.endOfFile, "EOF")] := by
  have hlexer : (Lexer.ofSource source file).rest = source.toList := rfl
  obtain ⟨final, htoEnd, htokens⟩ := Lexer.toEnd_of_spread h hparts hlexer
  refine ⟨final.closed, ?_, ?_⟩
  · rw [tokenize, htoEnd]
    rfl
  · rw [Lexer.bodies_closed, htokens]
    rfl

theorem renumber_eq_of_bodies {tokens others : List Token}
    (h : others.map Token.body = tokens.map Token.body) (line : Nat) :
    others.map (Token.renumber fun _ => line) = tokens.map (Token.renumber fun _ => line) := by
  have hbody (token : Token) : token.renumber (fun _ => line) =
      ⟨token.body.1, token.body.2, line⟩ := rfl
  have hmap := congrArg (List.map fun body : TokenKind × String =>
    (⟨body.1, body.2, line⟩ : Token)) h
  rw [List.map_map, List.map_map] at hmap
  exact hmap

/-- How the tokens of a source are spread has no influence on what is read, but for the lines. -/
theorem layout_keeps_meaning {source file : String} {tokens : List Token}
    (h : tokenize source file = .ok tokens) :
    ∃ parts, Decomposes source.toList parts ∧
      ∀ other : String, Spread false (parts.filter Part.isToken) other.toList →
        ∃ others, tokenize other file = .ok others ∧
          others.map Token.body = tokens.map Token.body ∧
          (∀ tree, parse tokens file = .ok tree →
            ∃ relaid, parse others file = .ok relaid ∧
              relaid.renumber (fun _ => 0) = tree.renumber (fun _ => 0) ∧
              ∀ id, relaid.describe id = tree.describe id) ∧
          ∀ diagnostic, parse tokens file = .error diagnostic →
            ∃ line, parse others file = .error { diagnostic with line } := by
  obtain ⟨parts, hparts, rfl⟩ := decomposes_of_tokenize h
  refine ⟨parts, hparts, fun other hother => ?_⟩
  have hproper : ∀ part ∈ parts.filter Part.isToken, part.Proper ∧ part.isToken := by
    intro part hpart
    obtain ⟨hmem, htoken⟩ := List.mem_filter.mp hpart
    exact ⟨hparts.proper part hmem, htoken⟩
  obtain ⟨others, htokens, hbodies⟩ := tokenize_of_spread hother hproper
  rw [← Part.bodies_tokens 1 parts] at hbodies
  have hparse := parse_renumber (fun _ => 0) others file
  rw [renumber_eq_of_bodies hbodies 0, parse_renumber] at hparse
  refine ⟨others, htokens, hbodies, ?_, ?_⟩
  · intro tree htree
    rw [htree] at hparse
    cases hrelaid : parse others file with
    | error diagnostic =>
        rw [hrelaid] at hparse
        contradiction
    | ok relaid =>
        rw [hrelaid] at hparse
        have htrees : relaid.renumber (fun _ => 0) = tree.renumber (fun _ => 0) :=
          (Except.ok.inj hparse).symm
        refine ⟨relaid, rfl, htrees, fun id => ?_⟩
        rw [← Arena.describe_renumber (fun _ => 0), htrees, Arena.describe_renumber]
  · intro diagnostic hdiagnostic
    rw [hdiagnostic] at hparse
    cases hrelaid : parse others file with
    | ok relaid =>
        rw [hrelaid] at hparse
        contradiction
    | error found =>
        rw [hrelaid] at hparse
        have hfound : found.renumber (fun _ => 0) = diagnostic.renumber (fun _ => 0) :=
          (Except.error.inj hparse).symm
        obtain ⟨cause, line, name⟩ := found
        obtain ⟨rfl, -, rfl⟩ := Diagnostic.mk.inj hfound
        exact ⟨line, rfl⟩

theorem layout_keeps_touching_tokens :
    Spread false [.number ['1', '2'], .identifier ['a', 'b']] ";\"\n12;'(\n\tab;)".toList ∧
      ∃ others relaid, tokenize ";\"\n12;'(\n\tab;)" "" = .ok others ∧
        others.map Token.body = [(.integer, "12"), (.identifier, "ab"), (.endOfFile, "EOF")] ∧
        parse others "" = .ok relaid ∧
        relaid.renumber (fun _ => 0) =
          ⟨#[.leaf (.integer 12) 0, .leaf (.identifier "ab") 0], [0, 1]⟩ := by
  have hnumber : (Part.number ['1', '2']).Proper :=
    ⟨rfl, by simp [isNumeralChar], ⟨by decide, by decide⟩, by simp [isSeparator]⟩
  have hname : (Part.identifier ['a', 'b']).Proper :=
    ⟨by simp, by simp [Pattern.isIdentifierChar, Pattern.isBlank], by simp, by simp, rfl⟩
  have hnothing : Ends (Part.identifier ['a', 'b']).continues [] := by simp [Ends]
  have hown : Decomposes "12ab".toList [.number ['1', '2'], .identifier ['a', 'b']] :=
    .cons hnumber (ends_cons ['b'] rfl) (.cons hname hnothing .nil)
  have hcomment (words : List Char) (hwords : ∀ c ∈ words, c ≠ '\n') {rest : List Char}
      (hrest : IsTrivia rest) : IsTrivia (';' :: (words ++ '\n' :: rest)) := .comment hwords hrest
  have hlast : IsLastTrivia ([] ++ ';' :: [')']) := .comment .nil (by simp)
  have hspread : Spread false [.number ['1', '2'], .identifier ['a', 'b']]
      ";\"\n12;'(\n\tab;)".toList :=
    .part (hcomment ['"'] (by simp) .nil) (by simp)
      (.part (hcomment ['\'', '('] (by simp) (.blank rfl .nil)) (by simp) (.last hlast))
  have hsource : tokenize "12ab" "" =
      .ok [⟨.integer, "12", 1⟩, ⟨.identifier, "ab", 1⟩, ⟨.endOfFile, "EOF", 1⟩] := rfl
  obtain ⟨parts, hparts, hlayout⟩ := layout_keeps_meaning hsource
  obtain rfl := hparts.unique hown
  obtain ⟨others, htokens, hbodies, htree, -⟩ := hlayout ";\"\n12;'(\n\tab;)" hspread
  have hspells : Spells maxDepth
      (beforeEnd [⟨.integer, "12", 1⟩, ⟨.identifier, "ab", 1⟩, ⟨.endOfFile, "EOF", 1⟩])
      [.leaf (.integer 12) 1, .leaf (.identifier "ab") 1] := .leaf rfl (.leaf rfl .nil)
  have hparse : parse [⟨.integer, "12", 1⟩, ⟨.identifier, "ab", 1⟩, ⟨.endOfFile, "EOF", 1⟩] "" =
      .ok ⟨#[.leaf (.integer 12) 1, .leaf (.identifier "ab") 1], [0, 1]⟩ :=
    parse_of_spells "" hspells
  obtain ⟨relaid, hrelaid, hlines, -⟩ := htree _ hparse
  refine ⟨hspread, others, relaid, htokens, hbodies, hrelaid, ?_⟩
  rw [hlines]
  simp [Arena.renumber, Node.renumber]

end LispReader
