import LispReader.Number.Decimal
import LispReader.Parser.State
import Mathlib.Data.List.TakeWhile

namespace LispReader

/-- A form with its parts in place of the nodes that hold them. -/
inductive Form
  | leaf (value : Leaf) (line : Nat)
  | scope (delimiter : Delimiter) (parts : List Form) (line : Nat)

def Token.leaf? (token : Token) : Option Leaf :=
  match token.kind with
  | .number => (Number.finite? token.lexeme.toList).map .number
  | .integer => (Number.integer? token.lexeme.toList).map .integer
  | .character => token.lexeme.toList.head?.map .character
  | .string => some (.string token.lexeme)
  | .identifier => some (.identifier token.lexeme)
  | .opening _ | .closing _ | .endOfFile => none

/-- The grammar: the tokens are those of the forms, one after the other, and each form stands on the
line of its first token. No token is inside more than `levels` scopes, its own one counted for a
delimiter. -/
inductive Spells : Nat → List Token → List Form → Prop
  | nil {levels : Nat} : Spells levels [] []
  | leaf {levels : Nat} {token : Token} {value : Leaf} {tokens : List Token} {forms : List Form}
      (hvalue : token.leaf? = some value) (hrest : Spells levels tokens forms) :
      Spells levels (token :: tokens) (.leaf value token.line :: forms)
  | scope {levels : Nat} {delimiter : Delimiter} {opening closing : Token}
      {inner tokens : List Token} {parts forms : List Form}
      (hopening : opening.kind = .opening delimiter) (hparts : Spells levels inner parts)
      (hclosing : closing.kind = .closing delimiter)
      (hrest : Spells (levels + 1) tokens forms) :
      Spells (levels + 1) (opening :: (inner ++ closing :: tokens))
        (.scope delimiter parts opening.line :: forms)

/-- The tokens before the first one that marks the end of the source. -/
def beforeEnd (tokens : List Token) : List Token :=
  tokens.takeWhile (·.kind ≠ .endOfFile)

theorem leaf?_of_closing {token : Token} {delimiter : Delimiter}
    (hkind : token.kind = .closing delimiter) : token.leaf? = none := by
  simp [Token.leaf?, hkind]

theorem leaf?_of_opening {token : Token} {delimiter : Delimiter}
    (hkind : token.kind = .opening delimiter) : token.leaf? = none := by
  simp [Token.leaf?, hkind]

theorem beforeEnd_cons {token : Token} (tokens : List Token) (hkind : token.kind ≠ .endOfFile) :
    beforeEnd (token :: tokens) = token :: beforeEnd tokens := by
  simp [beforeEnd, hkind]

theorem beforeEnd_end {token : Token} (tokens : List Token) (hkind : token.kind = .endOfFile) :
    beforeEnd (token :: tokens) = [] := by
  simp [beforeEnd, hkind]

theorem beforeEnd_beforeEnd (tokens : List Token) :
    beforeEnd (beforeEnd tokens) = beforeEnd tokens := by
  simp only [beforeEnd, List.takeWhile_idem]

theorem beforeEnd_append {tokens : List Token} (h : ∀ token ∈ tokens, token.kind ≠ .endOfFile)
    (more : List Token) : beforeEnd (tokens ++ more) = tokens ++ beforeEnd more := by
  rw [beforeEnd, List.takeWhile_append_of_pos]
  · rfl
  · intro token htoken
    exact decide_eq_true (h token htoken)

theorem beforeEnd_eq_self {tokens : List Token} (h : ∀ token ∈ tokens, token.kind ≠ .endOfFile) :
    beforeEnd tokens = tokens :=
  List.takeWhile_eq_self_iff.mpr fun token htoken => decide_eq_true (h token htoken)

namespace Spells

theorem append {levels : Nat} {tokens others : List Token} {forms more : List Form}
    (h : Spells levels tokens forms) (hmore : Spells levels others more) :
    Spells levels (tokens ++ others) (forms ++ more) := by
  induction h with
  | nil => exact hmore
  | leaf hvalue _ ih => exact .leaf hvalue (ih hmore)
  | scope hopening hparts hclosing _ _ ih =>
      simpa using Spells.scope hopening hparts hclosing (ih hmore)

theorem length_pos {levels : Nat} {tokens : List Token} {form : Form} {forms : List Form}
    (h : Spells levels tokens (form :: forms)) : 0 < tokens.length := by
  cases h <;> simp

theorem beforeEnd_append {levels : Nat} {tokens : List Token} {forms : List Form}
    (h : Spells levels tokens forms) (rest : List Token) :
    beforeEnd (tokens ++ rest) = tokens ++ beforeEnd rest := by
  induction h generalizing rest with
  | nil => rfl
  | @leaf _ token _ tokens _ hvalue _ ih =>
      have hkind : token.kind ≠ .endOfFile := by
        intro hkind
        simp [Token.leaf?, hkind] at hvalue
      rw [List.cons_append, beforeEnd_cons _ hkind, ih]
      rfl
  | scope hopening _ hclosing _ ihparts ihrest =>
      rw [List.cons_append, beforeEnd_cons _ (by simp [hopening]), List.append_assoc, ihparts,
        List.cons_append, beforeEnd_cons _ (by simp [hclosing]), ihrest]
      simp

def Closes (rest : List Token) : Prop :=
  ∀ token ∈ rest.head?, ∃ delimiter, token.kind = .closing delimiter

theorem closes_nil : Closes [] := by
  simp [Closes]

theorem closes_cons {token : Token} {delimiter : Delimiter} (rest : List Token)
    (hkind : token.kind = .closing delimiter) : Closes (token :: rest) := by
  simp [Closes, hkind]

/-- The grammar is unambiguous: the same tokens up to the end of a scope are the same forms, and
these end at the same place. -/
theorem unique_of_append {levels others : Nat} {tokens tokens' rest rest' : List Token}
    {forms forms' : List Form} (h : Spells levels tokens forms) (h' : Spells others tokens' forms')
    (hclose : Closes rest) (hclose' : Closes rest') (heq : tokens ++ rest = tokens' ++ rest') :
    tokens = tokens' ∧ forms = forms' := by
  induction h generalizing others tokens' forms' rest rest' with
  | nil =>
      subst heq
      cases h' with
      | nil => exact ⟨rfl, rfl⟩
      | leaf hvalue _ =>
          obtain ⟨_, hkind⟩ := hclose _ rfl
          simp [leaf?_of_closing hkind] at hvalue
      | scope hopening _ _ _ =>
          obtain ⟨_, hkind⟩ := hclose _ rfl
          simp [hkind] at hopening
  | leaf hvalue _ ih =>
      cases h' with
      | nil =>
          subst heq
          obtain ⟨_, hkind⟩ := hclose' _ rfl
          simp [leaf?_of_closing hkind] at hvalue
      | leaf hvalue' hrest' =>
          obtain ⟨rfl, htail⟩ := List.cons.inj heq
          obtain ⟨rfl, rfl⟩ := ih hrest' hclose hclose' htail
          rw [hvalue] at hvalue'
          obtain rfl := Option.some.inj hvalue'
          exact ⟨rfl, rfl⟩
      | scope hopening _ _ _ =>
          obtain ⟨rfl, -⟩ := List.cons.inj heq
          simp [leaf?_of_opening hopening] at hvalue
  | scope hopening _ hclosing _ ihparts ihrest =>
      cases h' with
      | nil =>
          subst heq
          obtain ⟨_, hkind⟩ := hclose' _ rfl
          simp [hkind] at hopening
      | leaf hvalue' _ =>
          obtain ⟨rfl, -⟩ := List.cons.inj heq
          simp [leaf?_of_opening hopening] at hvalue'
      | scope hopening' hparts' hclosing' hrest' =>
          simp only [List.cons_append, List.append_assoc] at heq
          obtain ⟨rfl, hinner⟩ := List.cons.inj heq
          obtain ⟨rfl, rfl⟩ := ihparts hparts' (closes_cons _ hclosing) (closes_cons _ hclosing')
            hinner
          obtain ⟨rfl, htail⟩ := List.cons.inj (List.append_cancel_left hinner)
          obtain ⟨rfl, rfl⟩ := ihrest hrest' hclose hclose' htail
          rw [hopening] at hopening'
          obtain rfl := TokenKind.opening.inj hopening'
          exact ⟨rfl, rfl⟩

theorem unique {levels others : Nat} {tokens : List Token} {forms forms' : List Form}
    (h : Spells levels tokens forms) (h' : Spells others tokens forms') : forms = forms' :=
  (unique_of_append h h' closes_nil closes_nil rfl).2

end Spells

end LispReader
