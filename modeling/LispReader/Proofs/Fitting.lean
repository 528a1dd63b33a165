import LispReader.Proofs.Rules

namespace LispReader

namespace RuleTable

/-- Nothing is read where a token of the kind stands: there is no rule for it, or one that begins
with another kind. -/
def Unfit (table : RuleTable) (kind : TokenKind) : Prop :=
  ∀ rule, table kind = some rule → rule.kind? ≠ some kind

def fitting (table : RuleTable) : RuleTable := fun kind =>
  (table kind).filter fun rule => rule.kind? = some kind

/-- The tables differ only in kinds that do not fit in either of them. Where `lenient`, such a kind
may have a rule that fits in the other one. -/
def Agrees (lenient : Prop) (table other : RuleTable) : Prop :=
  ∀ kind, other kind = table kind ∨ table.Unfit kind ∧ (lenient ∨ other.Unfit kind)

variable {table : RuleTable} {kind : TokenKind} {rule : Rule}

theorem unfit_of_none (h : table kind = none) : table.Unfit kind := by
  simp [Unfit, h]

theorem unfit_of_some (h : table kind = some rule) (hkind : rule.kind? ≠ some kind) :
    table.Unfit kind := by
  intro other hother
  rwa [← Option.some.inj (h.symm.trans hother)]

theorem fitting_agrees (table : RuleTable) : Agrees False table table.fitting := by
  intro kind
  cases hrule : table kind with
  | none => exact .inl (by simp [fitting, hrule])
  | some rule =>
      by_cases hkind : rule.kind? = some kind
      · exact .inl (by simp [fitting, hrule, hkind])
      · have hnone : table.fitting kind = none := by simp [fitting, hrule, hkind]
        exact .inr ⟨unfit_of_some hrule hkind, .inr (unfit_of_none hnone)⟩

theorem standard_of_kind? (h : rule.kind? = some kind) : addStandard .empty kind = some rule := by
  cases rule with
  | scope delimiter =>
      obtain rfl := Option.some.inj h
      cases delimiter <;> rfl
  | any => contradiction
  | number | integer | character | string | identifier =>
      obtain rfl := Option.some.inj h
      rfl

theorem standard_agrees (table : RuleTable) : Agrees True table (.addStandard .empty) := by
  intro kind
  cases hrule : table kind with
  | none => exact .inr ⟨unfit_of_none hrule, .inl trivial⟩
  | some rule =>
      by_cases hkind : rule.kind? = some kind
      · exact .inl (standard_of_kind? hkind)
      · exact .inr ⟨unfit_of_some hrule hkind, .inl trivial⟩

end RuleTable

namespace Parser

def withRules (rules : RuleTable) (parser : Parser) : Parser :=
  { parser with rules }

theorem advance_withRules (rules : RuleTable) (parser : Parser) :
    (parser.withRules rules).advance = parser.advance.withRules rules := by
  have hrest : (parser.withRules rules).rest = parser.rest := rfl
  rw [advance, advance, hrest]
  cases parser.rest <;> rfl

end Parser

namespace Parse

variable {α β : Type}

def withRules (rules : RuleTable) :
    EStateM.Result Diagnostic Parser α → EStateM.Result Diagnostic Parser α
  | .ok value after => .ok value (after.withRules rules)
  | .error diagnostic after => .error diagnostic (after.withRules rules)

/-- The outcomes are the same but for the tables. Where `lenient`, what fails with the first table
may end in any way with the other one. -/
inductive Follows (lenient : Prop) (table other : RuleTable) :
    EStateM.Result Diagnostic Parser α → EStateM.Result Diagnostic Parser α → Prop
  | same (result : EStateM.Result Diagnostic Parser α) :
      Follows lenient table other (withRules table result) (withRules other result)
  | mended {diagnostic : Diagnostic} {after : Parser}
      {result : EStateM.Result Diagnostic Parser α} (hlenient : lenient) :
      Follows lenient table other (.error diagnostic after) result

def Tracks (lenient : Prop) (table other : RuleTable) (step step' : Parse α) : Prop :=
  ∀ parser : Parser, Follows lenient table other (step (parser.withRules table))
    (step' (parser.withRules other))

def Blind (step : Parse α) : Prop :=
  ∀ (parser : Parser) (rules : RuleTable),
    step (parser.withRules rules) = withRules rules (step parser)

variable {lenient : Prop} {table other : RuleTable} {item item' : Parse NodeId}

theorem Blind.tracks {step : Parse α} (h : Blind step) : Tracks lenient table other step step := by
  intro parser
  rw [h, h]
  exact .same _

theorem Tracks.bind {x x' : Parse α} {f f' : α → Parse β} (hx : Tracks lenient table other x x')
    (hf : ∀ value, Tracks lenient table other (f value) (f' value)) :
    Tracks lenient table other (x >>= f) (x' >>= f') := by
  intro parser
  have hfirst := hx parser
  generalize hresult : x (parser.withRules table) = result at hfirst
  generalize hresult' : x' (parser.withRules other) = result' at hfirst
  cases hfirst with
  | same result =>
      cases result with
      | ok value after =>
          rw [bind_of_ok hresult, bind_of_ok hresult']
          exact hf value after
      | error diagnostic after =>
          rw [bind_of_error hresult, bind_of_error hresult']
          exact .same (.error diagnostic after)
  | mended hlenient =>
      rw [bind_of_error hresult]
      exact .mended hlenient

theorem Blind.bind {x : Parse α} {f : α → Parse β} (hx : Blind x) (hf : ∀ value, Blind (f value)) :
    Blind (x >>= f) := by
  intro parser rules
  have hfirst := hx parser rules
  cases hresult : x parser with
  | ok value after =>
      rw [hresult] at hfirst
      rw [bind_of_ok hresult, bind_of_ok hfirst]
      exact hf value after rules
  | error diagnostic after =>
      rw [hresult] at hfirst
      rw [bind_of_error hresult, bind_of_error hfirst]
      rfl

theorem refuse_blind : Blind (refuse : Parse α) := fun _ _ => rfl

theorem pure_blind (value : α) : Blind (pure value : Parse α) := fun _ _ => rfl

theorem fail_blind (line : Nat) (cause : Cause) : Blind (fail line cause : Parse α) :=
  fun _ _ => rfl

theorem addNode_blind (node : Node) : Blind (addNode node) := fun _ _ => rfl

theorem expect_blind (kind : TokenKind) : Blind (expect kind) := by
  intro parser rules
  have hrest : (parser.withRules rules).rest = parser.rest := rfl
  rw [expect, expect, hrest]
  cases htokens : parser.rest with
  | nil => rfl
  | cons token rest =>
      by_cases hkind : token.kind = kind
      · simp only [if_pos hkind, Parser.advance, hrest, htokens]
        rfl
      · simp only [if_neg hkind]
        rfl

theorem openScope_blind (line : Nat) : Blind (openScope line) := by
  intro parser rules
  have hdepth : (parser.withRules rules).depth = parser.depth := rfl
  rw [openScope, openScope, hdepth]
  split <;> rfl

theorem close_blind (delimiter : Delimiter) (line : Nat) (children : List NodeId) :
    Blind (close delimiter line children) := by
  intro parser rules
  by_cases hkind : parser.kind = .closing delimiter
  · have hkind' : (parser.withRules rules).kind = .closing delimiter := hkind
    rw [close_at_closing _ _ hkind, close_at_closing _ _ hkind', Parser.advance_withRules]
    rfl
  · have hkind' : (parser.withRules rules).kind ≠ .closing delimiter := hkind
    rw [close_elsewhere _ _ hkind, close_elsewhere _ _ hkind']
    rfl

theorem leaf_blind (kind : TokenKind) (ofLexeme : String → Except Cause Leaf) :
    Blind (leaf kind ofLexeme) := by
  refine (expect_blind kind).bind fun token => ?_
  cases ofLexeme token.lexeme with
  | ok value => exact addNode_blind _
  | error cause => exact fail_blind _ _

theorem itemsUntil_tracks (hitem : Tracks lenient table other item item') (stops : List TokenKind)
    (bound : Nat) (found : List NodeId) :
    Tracks lenient table other (itemsUntil stops item bound found)
      (itemsUntil stops item' bound found) := by
  induction bound generalizing found with
  | zero => exact (pure_blind found.reverse).tracks
  | succ bound ih =>
      intro parser
      have hkind (rules : RuleTable) : (parser.withRules rules).kind = parser.kind := rfl
      by_cases hstop : parser.kind ∈ stops
      · rw [itemsUntil_at_stop item bound found (hkind table ▸ hstop),
          itemsUntil_at_stop item' bound found (hkind other ▸ hstop)]
        exact .same (.ok found.reverse parser)
      · rw [itemsUntil_item item bound found (hkind table ▸ hstop),
          itemsUntil_item item' bound found (hkind other ▸ hstop)]
        exact hitem.bind (fun id => ih (id :: found)) parser

theorem scope_tracks (hitem : Tracks lenient table other item item') (bound : Nat)
    (delimiter : Delimiter) :
    Tracks lenient table other (scope bound item delimiter) (scope bound item' delimiter) := by
  refine (expect_blind _).tracks.bind fun opening => ?_
  refine (openScope_blind opening.line).tracks.bind fun _ => ?_
  refine (itemsUntil_tracks hitem _ bound []).bind fun children => ?_
  exact (close_blind delimiter opening.line children).tracks

theorem byRule_tracks (hitem : Tracks lenient table other item item') (bound : Nat) (rule : Rule) :
    Tracks lenient table other (byRule bound item rule) (byRule bound item' rule) := by
  cases rule with
  | scope delimiter => exact scope_tracks hitem bound delimiter
  | any => exact refuse_blind.tracks
  | number | integer | character => exact (leaf_blind _ _).tracks
  | string | identifier =>
      rw [byRule, byRule]
      exact (leaf_blind _ _).tracks

theorem byRule_elsewhere {parser : Parser} {rule : Rule} (bound : Nat) (item : Parse NodeId)
    (hkind : rule.kind? ≠ some parser.kind) :
    byRule bound item rule parser = .error parser.unexpected parser := by
  have hne {kind : TokenKind} (hrule : rule.kind? = some kind) : parser.kind ≠ kind := by
    rintro rfl
    exact hkind hrule
  cases rule with
  | any => rfl
  | scope => exact bind_of_error (expect_elsewhere (hne rfl))
  | number | integer | character | string | identifier =>
      exact bind_of_error (expect_elsewhere (hne rfl))

theorem dispatch_of_rule (parser : Parser) {rule : Rule} (bound : Nat) (item : Parse NodeId)
    (h : parser.rules parser.kind = some rule) :
    formWithin.dispatch bound item parser = byRule bound item rule parser := by
  have hget : (get : Parse Parser) parser = .ok parser parser := rfl
  rw [formWithin.dispatch, bind_of_ok hget, h]

theorem dispatch_of_unfit (parser : Parser) (bound : Nat) (item : Parse NodeId)
    (h : parser.rules.Unfit parser.kind) :
    formWithin.dispatch bound item parser = .error parser.unexpected parser := by
  cases hrule : parser.rules parser.kind with
  | none =>
      have hget : (get : Parse Parser) parser = .ok parser parser := rfl
      rw [formWithin.dispatch, bind_of_ok hget, hrule]
      rfl
  | some rule =>
      rw [dispatch_of_rule parser bound item hrule]
      exact byRule_elsewhere bound item (h rule hrule)

theorem dispatch_tracks_of_unfit (bound : Nat) {parser : Parser} (h : table.Unfit parser.kind)
    (hother : other.Unfit parser.kind) :
    Follows lenient table other (formWithin.dispatch bound item (parser.withRules table))
      (formWithin.dispatch bound item' (parser.withRules other)) := by
  rw [dispatch_of_unfit (parser.withRules table) bound item h,
    dispatch_of_unfit (parser.withRules other) bound item' hother]
  exact .same (.error parser.unexpected parser)

theorem dispatch_tracks (htables : table.Agrees lenient other)
    (hitem : Tracks lenient table other item item') (bound : Nat) :
    Tracks lenient table other (formWithin.dispatch bound item)
      (formWithin.dispatch bound item') := by
  intro parser
  rcases htables parser.kind with hsame | ⟨hunfit, hlenient | hunfit'⟩
  · cases hrule : table parser.kind with
    | none =>
        rw [hrule] at hsame
        exact dispatch_tracks_of_unfit bound (RuleTable.unfit_of_none hrule)
          (RuleTable.unfit_of_none hsame)
    | some rule =>
        rw [hrule] at hsame
        rw [dispatch_of_rule (parser.withRules table) bound item hrule,
          dispatch_of_rule (parser.withRules other) bound item' hsame]
        exact byRule_tracks hitem bound rule parser
  · rw [dispatch_of_unfit (parser.withRules table) bound item hunfit]
    exact .mended hlenient
  · exact dispatch_tracks_of_unfit bound hunfit hunfit'

theorem formWithin_tracks (htables : table.Agrees lenient other) (bound levels : Nat) :
    Tracks lenient table other (formWithin bound levels) (formWithin bound levels) := by
  induction levels with
  | zero =>
      rw [formWithin]
      exact dispatch_tracks htables refuse_blind.tracks bound
  | succ levels ih =>
      rw [formWithin]
      exact dispatch_tracks htables ih bound

theorem form_tracks (htables : table.Agrees lenient other) :
    Tracks lenient table other form form :=
  fun parser => formWithin_tracks htables parser.rest.length parser.freeDepth parser

theorem Follows.eq_withRules {result result' : EStateM.Result Diagnostic Parser α}
    (h : Follows False table other result result') : result' = withRules other result := by
  cases h with
  | same result => cases result <;> rfl
  | mended hlenient => contradiction

theorem Follows.ok {value : α} {after : Parser} {result : EStateM.Result Diagnostic Parser α}
    (h : Follows lenient table other (.ok value after) result) :
    result = .ok value (after.withRules other) := by
  generalize hfirst : EStateM.Result.ok value after = first at h
  cases h with
  | same result =>
      cases result with
      | ok value after =>
          obtain ⟨rfl, rfl⟩ := EStateM.Result.ok.inj hfirst
          rfl
      | error diagnostic after => contradiction
  | mended _ => contradiction

end Parse

/-- A kind that is bound to the rule of another one is as good as a kind without a rule: the outcome
is the same, at the same place, with the same scopes open and the same nodes. And what is read at
all is read in the same way with the standard rules. -/
theorem form_ignores_misfits (table : RuleTable) (parser : Parser) :
    Parse.form (parser.withRules table.fitting) =
        Parse.withRules table.fitting (Parse.form (parser.withRules table)) ∧
      ∀ id after, Parse.form (parser.withRules table) = .ok id after →
        Parse.form (parser.withRules (.addStandard .empty)) =
          .ok id (after.withRules (.addStandard .empty)) := by
  constructor
  · exact (Parse.form_tracks table.fitting_agrees parser).eq_withRules
  · intro id after hread
    have hfollows := Parse.form_tracks table.standard_agrees parser
    rw [hread] at hfollows
    exact hfollows.ok

end LispReader
