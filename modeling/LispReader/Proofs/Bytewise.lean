import LispReader.Proofs.Places

namespace LispReader

open String (utf8Len utf8Len_append)

namespace Text

instance (text : String) (n : Nat) : Decidable (IsPlace text n) :=
  inferInstanceAs (Decidable (String.Pos.Raw.IsValid text ⟨n⟩))

/-- The text between two places, counted in bytes. There is none if one of them is inside a
character or behind the end, or if the second one is before the first. -/
def slice? (text : String) (start stop : Nat) : Option String :=
  if h : (IsPlace text start ∧ IsPlace text stop) ∧ start ≤ stop then
    some (String.extract ⟨⟨start⟩, h.1.1⟩ ⟨⟨stop⟩, h.1.2⟩)
  else none

theorem size_utf8Encode (text : List Char) : text.utf8Encode.size = utf8Len text := by
  rw [← String.toByteArray_ofList, ← String.utf8ByteSize_ofList]
  rfl

theorem slice?_of_append {text : String} {before part behind : List Char}
    (h : text.toList = before ++ (part ++ behind)) :
    slice? text (utf8Len before) (utf8Len before + utf8Len part) = some (String.ofList part) := by
  have hstart : IsPlace text (utf8Len before) := isPlace_iff.mpr ⟨before, part ++ behind, h, rfl⟩
  have hstop : IsPlace text (utf8Len before + utf8Len part) := by
    refine isPlace_iff.mpr ⟨before ++ part, behind, ?_, utf8Len_append before part⟩
    rw [h, List.append_assoc]
  have hbytes : text.toByteArray = before.utf8Encode ++ (part.utf8Encode ++ behind.utf8Encode) := by
    rw [← List.utf8Encode_append, ← List.utf8Encode_append, ← h, ← String.toByteArray_ofList,
      String.ofList_toList]
  rw [slice?, dif_pos ⟨⟨hstart, hstop⟩, Nat.le_add_right _ _⟩]
  refine congrArg some (String.toByteArray_inj.mp ?_)
  rw [String.toByteArray_extract, String.toByteArray_ofList, hbytes]
  change ByteArray.extract _ (utf8Len before + 0) (utf8Len before + utf8Len part) = _
  rw [← size_utf8Encode, ← size_utf8Encode, ByteArray.extract_append_size_add,
    ByteArray.extract_append_size_left, ByteArray.extract_zero_size]

end Text

namespace Lexer

def take? (lexer : Lexer) : Option (Option Char × Lexer) :=
  match lexer.current? with
  | none => some (none, lexer)
  | some c => (lexer.advanceBytes? c.utf8Size).map (some c, ·)

theorem length_rest_of_take? {lexer behind : Lexer} {c : Char} {c? : Option Char}
    (hcurrent : lexer.current? = some c) (h : lexer.take? = some (c?, behind)) :
    behind.rest.length < lexer.rest.length := by
  rw [take?, hcurrent] at h
  obtain ⟨after, hafter, heq⟩ := Option.map_eq_some_iff.mp h
  obtain rfl := (Prod.mk.inj heq).2
  by_cases hbound : lexer.offset + c.utf8Size < offsetBound
  · obtain rfl := Option.some.inj ((advanceBytes?_current hbound hcurrent).symm.trans hafter)
    obtain ⟨rest, hrest⟩ := List.head?_eq_some_iff.mp hcurrent
    rw [advance_of_rest hrest, hrest]
    exact Nat.lt_succ_self rest.length
  · rw [advanceBytes?, if_neg hbound] at hafter
    contradiction

theorem length_rest_of_take?_some {lexer behind : Lexer} {c : Char}
    (h : lexer.take? = some (some c, behind)) : behind.rest.length < lexer.rest.length := by
  cases hcurrent : lexer.current? with
  | none => simp [take?, hcurrent] at h
  | some d => exact length_rest_of_take? hcurrent h

namespace Bytewise

def readNumeral? (opened : Lexer) (numeral : Numeral) (lexer : Lexer) :
    Option (Except Diagnostic Lexer) :=
  match _ : lexer.current? with
  | none => finish numeral lexer
  | some c =>
      match numeral.extend c with
      | none => finish numeral lexer
      | some (.error _) =>
          (Text.slice? lexer.source opened.offset (lexer.offset + 1)).map fun text =>
            .error (lexer.diagnostic (.malformedNumber text))
      | some (.ok longer) =>
          match _ : lexer.take? with
          | none => none
          | some (_, behind) => readNumeral? opened longer behind
termination_by lexer.rest.length
decreasing_by exact length_rest_of_take? ‹_› ‹_›
where
  finish (numeral : Numeral) (lexer : Lexer) : Option (Except Diagnostic Lexer) :=
    if numeral.separated then
      (Text.slice? lexer.source opened.offset lexer.offset).map fun text =>
        .error (lexer.diagnostic (.trailingSeparator text))
    else some (.ok (lexer.push ⟨numeral.kind, String.ofList numeral.kept.reverse, opened.line⟩))

def readNumber? (lexer : Lexer) : Option (Except Diagnostic Lexer) :=
  if lexer.current? = some '-' then
    lexer.take?.bind fun (_, behind) => readNumeral? lexer ⟨['-'], ['-'], false, false⟩ behind
  else readNumeral? lexer .empty lexer

def readCharacter? (matched : Nat) (lexer : Lexer) : Option (Except Diagnostic Lexer) := do
  let body ← lexer.advanceBytes? matched
  match ← body.take? with
  | (none, _) => return .error (lexer.diagnostic .unterminatedCharacter)
  | (some c, behind) =>
      if c = '\\' then
        match ← behind.take? with
        | (none, _) => return .error (lexer.diagnostic .unterminatedCharacter)
        | (some code, further) =>
            match escaped? code with
            | none => return .error (further.diagnostic (.unknownEscapeCode code))
            | some d => return .ok (further.push ⟨.character, String.singleton d, lexer.line⟩)
      else return .ok (behind.push ⟨.character, String.singleton c, lexer.line⟩)

def readText? (opened : Lexer) (text : List Char) (lexer : Lexer) :
    Option (Except Diagnostic Lexer) :=
  match _ : lexer.take? with
  | none => none
  | some (none, _) => some (.error (opened.diagnostic .unterminatedString))
  | some (some c, behind) =>
      if c = '"' then
        some (.ok (behind.push ⟨.string, String.ofList text.reverse, opened.line⟩))
      else if c = '\\' then
        match _ : behind.take? with
        | none => none
        | some (none, _) => some (.error (opened.diagnostic .unterminatedString))
        | some (some code, further) =>
            match escaped? code with
            | none => some (.error (further.diagnostic (.unknownEscapeCode code)))
            | some d => readText? opened (d :: text) further
      else readText? opened (c :: text) behind
termination_by lexer.rest.length
decreasing_by
  · exact (length_rest_of_take?_some ‹_›).trans (length_rest_of_take?_some ‹_›)
  · exact length_rest_of_take?_some ‹_›

def readString? (matched : Nat) (lexer : Lexer) : Option (Except Diagnostic Lexer) :=
  (lexer.advanceBytes? matched).bind fun body => readText? lexer [] body

variable {lexer opened behind : Lexer} {c : Char}

theorem readNumeral?_of_take? (numeral : Numeral)
    (hcurrent : lexer.current? = some c) (htake : lexer.take? = some (some c, behind)) :
    readNumeral? opened numeral lexer =
      match numeral.extend c with
      | none => readNumeral?.finish opened numeral lexer
      | some (.error _) =>
          (Text.slice? lexer.source opened.offset (lexer.offset + 1)).map fun text =>
            .error (lexer.diagnostic (.malformedNumber text))
      | some (.ok longer) => readNumeral? opened longer behind := by
  rw [readNumeral?]
  split
  · next hnone => exact absurd (hnone.symm.trans hcurrent) (by simp)
  · next d hsome =>
      obtain rfl : c = d := Option.some.inj (hcurrent.symm.trans hsome)
      split
      · rfl
      · rfl
      · split
        · next hnone => exact absurd (hnone.symm.trans htake) (by simp)
        · next hsome =>
            obtain rfl := (Prod.mk.inj (Option.some.inj (htake.symm.trans hsome))).2
            rfl

theorem readText?_of_take? (text : List Char)
    (htake : lexer.take? = some (some c, behind)) :
    readText? opened text lexer =
      if c = '"' then
        some (.ok (behind.push ⟨.string, String.ofList text.reverse, opened.line⟩))
      else if c = '\\' then
        match behind.take? with
        | none => none
        | some (none, _) => some (.error (opened.diagnostic .unterminatedString))
        | some (some code, further) =>
            match escaped? code with
            | none => some (.error (further.diagnostic (.unknownEscapeCode code)))
            | some d => readText? opened (d :: text) further
      else readText? opened (c :: text) behind := by
  rw [readText?]
  split
  · next hnone => exact absurd (hnone.symm.trans htake) (by simp)
  · next hend => exact absurd (hend.symm.trans htake) (by simp)
  · next d other hsome =>
      obtain ⟨hc, rfl⟩ := Prod.mk.inj (Option.some.inj (htake.symm.trans hsome))
      obtain rfl := Option.some.inj hc
      split
      · rfl
      · split
        · split <;> simp_all
        · rfl

def readToken? (kind : TokenKind) (lexeme : String) (matched : Nat) (lexer : Lexer) :
    Option (Except Diagnostic Lexer) :=
  ((lexer.push ⟨kind, lexeme, lexer.line⟩).advanceBytes? matched).map .ok

def read? (matched : Nat) (lexer : Lexer) : Pattern → Option (Except Diagnostic Lexer)
  | .blanks | .comment => (lexer.advanceBytes? matched).map .ok
  | .opening delimiter =>
      readToken? (.opening delimiter) (.ofList [delimiter.opener]) delimiter.opener.utf8Size lexer
  | .closing delimiter =>
      readToken? (.closing delimiter) (.ofList [delimiter.closer]) delimiter.closer.utf8Size lexer
  | .number => readNumber? lexer
  | .character => readCharacter? matched lexer
  | .string => readString? matched lexer
  | .identifier =>
      (Text.slice? lexer.source lexer.offset (lexer.offset + matched)).bind fun text =>
        readToken? .identifier text matched lexer

/-- A step of a lexer that counts its source in bytes. It has no result if it comes to be inside a
character, or cuts out a text that starts or stops there or behind the end. -/
def step? (lexer : Lexer) : Option (Except Diagnostic Lexer) :=
  match lexer.next? with
  | some (pattern, found) => read? (utf8Len found) lexer pattern
  | none => read? (lexer.current?.elim 1 Char.utf8Size) lexer .identifier

end Bytewise

end Lexer

end LispReader
