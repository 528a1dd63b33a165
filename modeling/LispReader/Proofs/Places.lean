import LispReader.Proofs.Lines
import Mathlib.Data.String.Basic

namespace LispReader

open String (utf8Len utf8Len_nil utf8Len_cons utf8Len_append)

namespace Text

/-- A place in a text, counted in bytes of its encoding, that is inside no character. There is one
behind the last character, and none further on. -/
def IsPlace (text : String) (n : Nat) : Prop :=
  String.Pos.Raw.IsValid text ⟨n⟩

theorem utf8ByteSize_eq (text : String) : text.utf8ByteSize = utf8Len text.toList := by
  rw [← String.utf8ByteSize_ofList, String.ofList_toList]

theorem isPlace_iff {text : String} {n : Nat} :
    IsPlace text n ↔ ∃ before behind, text.toList = before ++ behind ∧ utf8Len before = n := by
  rw [IsPlace, String.Pos.Raw.isValid_iff_exists_append]
  constructor
  · rintro ⟨before, behind, rfl, hplace⟩
    refine ⟨before.toList, behind.toList, String.toList_append, ?_⟩
    rw [← utf8ByteSize_eq]
    exact (congrArg String.Pos.Raw.byteIdx hplace).symm
  · rintro ⟨before, behind, htext, rfl⟩
    refine ⟨String.ofList before, String.ofList behind, ?_, ?_⟩
    · rw [← String.ofList_append, ← htext, String.ofList_toList]
    · rw [← String.utf8ByteSize_ofList]
      rfl

theorem utf8Len_singleton (c : Char) : utf8Len [c] = c.utf8Size := by
  rw [utf8Len_cons, utf8Len_nil, Nat.zero_add]

theorem IsPlace.le {text : String} {n : Nat} (h : IsPlace text n) : n ≤ text.utf8ByteSize := by
  obtain ⟨before, behind, htext, rfl⟩ := isPlace_iff.mp h
  rw [utf8ByteSize_eq, htext, utf8Len_append]
  exact Nat.le_add_right _ _

theorem eq_of_utf8Len_eq {before behind before' behind' : List Char}
    (hall : before ++ behind = before' ++ behind') (hlen : utf8Len before = utf8Len before') :
    before = before' := by
  rcases List.append_eq_append_iff.mp hall with ⟨more, rfl, -⟩ | ⟨more, rfl, -⟩
  · rw [utf8Len_append] at hlen
    have hmore : more = [] := String.utf8Len_eq_zero.mp (by omega)
    rw [hmore, List.append_nil]
  · rw [utf8Len_append] at hlen
    have hmore : more = [] := String.utf8Len_eq_zero.mp (by omega)
    rw [hmore, List.append_nil]

end Text

namespace Lexer

variable {lexer other : Lexer} {consumed consumed' text rest : List Char} {c : Char}

/-- The lexer stands behind these characters of its source, and has counted the lines in them. -/
structure StandsBehind (lexer : Lexer) (consumed : List Char) : Prop where
  source : lexer.source.toList = consumed ++ lexer.rest
  line : lexer.line = lineBehind consumed

theorem advance_at_end (hrest : lexer.rest = []) : lexer.advance = lexer := by
  rw [advance, hrest]

theorem bytesLeft_eq (lexer : Lexer) : lexer.bytesLeft = utf8Len lexer.rest :=
  String.utf8ByteSize_ofList lexer.rest

theorem standsBehind_ofSource (source file : String) : (ofSource source file).StandsBehind [] :=
  ⟨rfl, rfl⟩

namespace StandsBehind

theorem bytes (h : lexer.StandsBehind consumed) :
    lexer.source.utf8ByteSize = utf8Len consumed + lexer.bytesLeft := by
  rw [Text.utf8ByteSize_eq, h.source, utf8Len_append, bytesLeft_eq]

theorem offset (h : lexer.StandsBehind consumed) : lexer.offset = utf8Len consumed := by
  rw [Lexer.offset, h.bytes, Nat.add_sub_cancel]

theorem isPlace (h : lexer.StandsBehind consumed) : Text.IsPlace lexer.source lexer.offset :=
  Text.isPlace_iff.mpr ⟨consumed, lexer.rest, h.source, h.offset.symm⟩

theorem isPlace_add_iff (h : lexer.StandsBehind consumed) (n : Nat) :
    Text.IsPlace lexer.source (lexer.offset + n) ↔
      ∃ text behind, lexer.rest = text ++ behind ∧ utf8Len text = n := by
  rw [Text.isPlace_iff, h.offset, h.source]
  constructor
  · rintro ⟨before, behind, hall, hlen⟩
    rcases List.append_eq_append_iff.mp hall with ⟨more, rfl, hmore⟩ | ⟨more, rfl, hmore⟩
    · rw [utf8Len_append] at hlen
      exact ⟨more, behind, hmore, by omega⟩
    · -- the place is at the end of what has been read already
      rw [utf8Len_append] at hlen
      have hnone : more = [] := String.utf8Len_eq_zero.mp (by omega)
      subst hnone
      exact ⟨[], lexer.rest, rfl, by rw [utf8Len_nil] at hlen ⊢; omega⟩
  · rintro ⟨text, behind, hrest, rfl⟩
    refine ⟨consumed ++ text, behind, ?_, utf8Len_append consumed text⟩
    rw [hrest, List.append_assoc]

theorem across (h : lexer.StandsBehind consumed) (hrest : lexer.rest = text ++ rest) :
    (lexer.across text rest).StandsBehind (consumed ++ text) := by
  constructor
  · rw [List.append_assoc]
    exact hrest ▸ h.source
  · rw [Part.lineBehind_append, ← h.line]
    rfl

theorem push (h : lexer.StandsBehind consumed) (token : Token) :
    (lexer.push token).StandsBehind consumed :=
  ⟨h.source, h.line⟩

theorem advance (h : lexer.StandsBehind consumed) :
    ∃ text, lexer.advance.StandsBehind (consumed ++ text) := by
  cases hrest : lexer.rest with
  | nil =>
      exact ⟨[], by rwa [advance_at_end hrest, List.append_nil]⟩
  | cons c rest =>
      rw [advance_of_rest hrest]
      exact ⟨[c], h.across (by rw [hrest]; rfl)⟩

theorem eq_of_offset (h : lexer.StandsBehind consumed) (h' : other.StandsBehind consumed')
    (hsource : other.source = lexer.source) (hoffset : other.offset = lexer.offset) :
    other.rest = lexer.rest ∧ other.line = lexer.line := by
  have hall : consumed' ++ other.rest = consumed ++ lexer.rest := by
    rw [← h'.source, hsource, h.source]
  rw [h'.offset, h.offset] at hoffset
  obtain rfl := Text.eq_of_utf8Len_eq hall hoffset
  exact ⟨List.append_cancel_left hall, h'.line.trans h.line.symm⟩

end StandsBehind

theorem go_cases (lexer : Lexer) (rest : List Char) (n line : Nat) :
    (∃ text behind, rest = text ++ behind ∧ utf8Len text = min n (utf8Len rest) ∧
      advanceBytes?.go lexer rest n line =
        some { lexer with rest := behind, line := line + text.count '\n' }) ∨
    advanceBytes?.go lexer rest n line = none ∧
      ∀ text behind, rest = text ++ behind → utf8Len text ≠ min n (utf8Len rest) := by
  fun_induction advanceBytes?.go lexer rest n line with
  | case1 rest line => exact .inl ⟨[], rest, rfl, by simp, rfl⟩
  | case2 n line => exact .inl ⟨[], [], rfl, by simp, rfl⟩
  | case3 c rest n line hinside =>
      refine .inr ⟨rfl, fun text behind hall hlen => ?_⟩
      rw [utf8Len_cons] at hlen
      cases text with
      | nil =>
          rw [utf8Len_nil] at hlen
          omega
      | cons d text =>
          obtain rfl : c = d := (List.cons.inj hall).1
          rw [utf8Len_cons] at hlen
          omega
  | case4 c rest n line hfits ih =>
      rcases ih with ⟨text, behind, rfl, hlen, hgo⟩ | ⟨hgo, hnone⟩
      · refine .inl ⟨c :: text, behind, rfl, ?_, ?_⟩
        · rw [utf8Len_cons, utf8Len_cons, hlen]
          omega
        · rw [hgo, lineAfter_eq, Nat.add_assoc, ← List.count_append, List.singleton_append]
      · refine .inr ⟨hgo, fun text behind hall hlen => ?_⟩
        rw [utf8Len_cons] at hlen
        cases text with
        | nil =>
            have hpos := c.utf8Size_pos
            rw [utf8Len_nil] at hlen
            omega
        | cons d text =>
            obtain ⟨rfl, rfl⟩ := List.cons.inj hall
            refine hnone text behind rfl ?_
            rw [utf8Len_cons] at hlen
            omega

theorem advanceBytes?_cases {n : Nat} (hbound : lexer.offset + n < offsetBound) :
    (∃ text rest, lexer.rest = text ++ rest ∧ utf8Len text = min n lexer.bytesLeft ∧
      lexer.advanceBytes? n = some (lexer.across text rest)) ∨
    lexer.advanceBytes? n = none ∧
      ∀ text rest, lexer.rest = text ++ rest → utf8Len text ≠ min n lexer.bytesLeft := by
  rw [advanceBytes?, if_pos hbound, bytesLeft_eq]
  exact go_cases lexer lexer.rest n lexer.line

theorem advanceBytes?_of_text (hbound : lexer.offset + utf8Len text < offsetBound)
    (hrest : lexer.rest = text ++ rest) :
    lexer.advanceBytes? (utf8Len text) = some (lexer.across text rest) := by
  have hlen : utf8Len text = min (utf8Len text) lexer.bytesLeft := by
    rw [bytesLeft_eq, hrest, utf8Len_append]
    omega
  rcases advanceBytes?_cases hbound with ⟨text', rest', hrest', hlen', hafter⟩ | ⟨-, hnone⟩
  · have hall : text ++ rest = text' ++ rest' := hrest.symm.trans hrest'
    obtain rfl := Text.eq_of_utf8Len_eq hall (hlen.trans hlen'.symm)
    rwa [List.append_cancel_left hall]
  · exact absurd hlen (hnone text rest hrest)

theorem advanceBytes?_current (hbound : lexer.offset + c.utf8Size < offsetBound)
    (hcurrent : lexer.current? = some c) :
    lexer.advanceBytes? c.utf8Size = some lexer.advance := by
  obtain ⟨rest, hrest⟩ := List.head?_eq_some_iff.mp hcurrent
  rw [← Text.utf8Len_singleton] at hbound ⊢
  rw [advance_of_rest hrest]
  exact advanceBytes?_of_text hbound hrest

theorem StandsBehind.advanceBytes? (h : lexer.StandsBehind consumed) {n : Nat}
    (hbound : lexer.offset + n < offsetBound) :
    match lexer.advanceBytes? n with
    | some after => Text.IsPlace lexer.source (lexer.offset + min n lexer.bytesLeft) ∧
        after.offset = lexer.offset + min n lexer.bytesLeft
    | none => ¬ Text.IsPlace lexer.source (lexer.offset + min n lexer.bytesLeft) := by
  have hplace := h.isPlace_add_iff (min n lexer.bytesLeft)
  rcases advanceBytes?_cases hbound with ⟨text, rest, hrest, hlen, hafter⟩ | ⟨hnone, hinside⟩
  · have hoffset := (h.across hrest).offset
    rw [utf8Len_append, hlen, ← h.offset] at hoffset
    rw [hafter]
    exact ⟨hplace.mpr ⟨text, rest, hrest, hlen⟩, hoffset⟩
  · rw [hnone]
    intro hthere
    obtain ⟨text, rest, hrest, hlen⟩ := hplace.mp hthere
    exact hinside text rest hrest hlen

theorem skip_eq_across (count : Nat) (lexer : Lexer) :
    lexer.skip count = lexer.across (lexer.rest.take count) (lexer.rest.drop count) := by
  induction count generalizing lexer with
  | zero => rfl
  | succ count ih =>
      cases hrest : lexer.rest with
      | nil => rw [skip, advance_at_end hrest, ih, hrest]; simp
      | cons c rest =>
          rw [skip, advance_of_rest hrest, ih, across_across]
          rfl

end Lexer

end LispReader
