import LispReader.Proofs.Decoding
import LispReader.Source.Basic

namespace LispReader

open String (utf8EncodeChar)

namespace Text.Utf8

variable {byte : UInt8} {part bytes rest before behind : List UInt8} {text : List Char}

theorem encode_ascii_cases (c : Char) :
    (∃ byte : UInt8, byte.toNat < 0x80 ∧ utf8EncodeChar c = [byte] ∧ c = .ofNat byte.toNat) ∨
      0x80 ≤ c.toNat ∧ ∀ byte ∈ utf8EncodeChar c, 0x80 ≤ byte.toNat := by
  have htoNat {n : Nat} (hupper : n < 256) : (UInt8.ofNat n).toNat = n :=
    UInt8.toNat_ofNat_of_lt' hupper
  have hlarge {n : Nat} (hlower : 0x80 ≤ n) (hupper : n < 256) : 0x80 ≤ (UInt8.ofNat n).toNat := by
    rwa [htoNat hupper]
  rcases encode_cases c with ⟨hbound, h⟩ | ⟨hbounds, h⟩ | ⟨hbounds, h⟩ | ⟨hbounds, h⟩
  · have hbyte : (UInt8.ofNat c.toNat).toNat = c.toNat := htoNat (by omega)
    exact .inl ⟨.ofNat c.toNat, hbyte.symm ▸ hbound, h, by rw [hbyte, Char.ofNat_toNat]⟩
  all_goals
    refine .inr ⟨by omega, ?_⟩
    rw [h]
    simp only [List.forall_mem_cons, List.not_mem_nil, false_imp_iff, implies_true, and_true]
    and_intros <;> exact hlarge (by omega) (by omega)

theorem IsSubpart.not_ascii (h : IsSubpart part rest) : ∀ byte ∈ part, 0x80 ≤ byte.toNat := by
  intro byte hmem
  rcases h.begins with ⟨c, hc⟩ | hone
  · rcases encode_ascii_cases c with ⟨first, -, hfirst, -⟩ | ⟨-, hlarge⟩
    · have hpart : part = utf8EncodeChar c := by
        refine hc.eq_of_length_le ?_
        rw [hfirst]
        exact List.length_pos_iff.mpr h.ne
      exact absurd (hpart ▸ List.prefix_append part rest) (h.unconvertible c)
    · exact hlarge byte (hc.mem hmem)
  · obtain ⟨first, rfl⟩ := List.length_eq_one_iff.mp hone
    obtain rfl := List.mem_singleton.mp hmem
    by_contra hascii
    refine h.unconvertible (.ofNat byte.toNat) ?_
    rw [encode_ofNat (Nat.lt_of_not_le hascii)]
    exact List.prefix_append [byte] rest

theorem IsSubpart.of_append (h : IsSubpart part (rest ++ behind)) : IsSubpart part rest := by
  have hlonger {start : List UInt8} (hstart : start <+: part ++ rest) :
      start <+: part ++ (rest ++ behind) := by
    rw [← List.append_assoc]
    exact hstart.trans (List.prefix_append _ behind)
  exact ⟨h.ne, fun c hc => h.unconvertible c (hlonger hc), h.begins,
    fun longer hstart => h.longest longer (hlonger hstart)⟩

theorem Decodes.filter_ascii (h : Decodes bytes text) :
    text.filter (·.toNat < 0x80) =
      (bytes.filter (·.toNat < 0x80)).map (Char.ofNat ·.toNat) := by
  induction h with
  | nil => rfl
  | char c _ ih =>
      rw [List.filter_append, List.map_append, ← ih]
      rcases encode_ascii_cases c with ⟨byte, hbyte, hencode, hc⟩ | ⟨hc, hlarge⟩
      · have hchar : c.toNat < 0x80 := by rwa [hc, toNat_ofNat (.inl (by omega))]
        simp [hencode, hbyte, hchar, ← hc]
      · have hnone : (utf8EncodeChar c).filter (·.toNat < 0x80) = [] :=
          List.filter_eq_nil_iff.mpr fun byte hmem => by simpa using hlarge byte hmem
        simp [hnone, hc]
  | @replaced part bytes text hpart _ ih =>
      have hnone : part.filter (·.toNat < 0x80) = [] :=
        List.filter_eq_nil_iff.mpr fun byte hmem => by simpa using hpart.not_ascii byte hmem
      have hreplacement : ¬ replacement.toNat < 0x80 := by decide
      rw [List.filter_append, List.map_append, ← ih, hnone]
      simp [hreplacement]

theorem append_cons_eq_append {α : Type} {before behind part rest : List α} {a : α}
    (hall : before ++ a :: behind = part ++ rest) (ha : a ∉ part) :
    ∃ more, before = part ++ more ∧ rest = more ++ a :: behind := by
  rcases List.append_eq_append_iff.mp hall with ⟨more, rfl, hmore⟩ | ⟨more, rfl, hmore⟩
  · cases more with
    | nil => exact ⟨[], by simp, by simpa using hmore.symm⟩
    | cons b more => simp_all
  · exact ⟨more, rfl, hmore⟩

/-- At a byte below 0x80 the text parts, too. What is before it is decoded as if nothing
followed. -/
theorem Decodes.split (h : Decodes (before ++ byte :: behind) text) (hbyte : byte.toNat < 0x80) :
    ∃ shown more, Decodes before shown ∧ Decodes behind more ∧
      text = shown ++ .ofNat byte.toNat :: more := by
  generalize hall : before ++ byte :: behind = all at h
  induction h generalizing before with
  | nil => simp at hall
  | @char c bytes text hrest ih =>
      rcases encode_ascii_cases c with ⟨first, hfirst, hencode, hc⟩ | ⟨-, hlarge⟩
      · rw [hencode] at hall
        cases before with
        | nil =>
            obtain ⟨rfl, rfl⟩ := List.cons.inj hall
            exact ⟨[], text, .nil, hrest, by rw [hc]; rfl⟩
        | cons other before =>
            obtain ⟨rfl, rfl⟩ := List.cons.inj hall
            obtain ⟨shown, more, hshown, hmore, rfl⟩ := ih rfl
            exact ⟨c :: shown, more, List.singleton_append ▸ hencode ▸ .char c hshown, hmore, rfl⟩
      · have hother : byte ∉ utf8EncodeChar c := fun hmem => by have := hlarge byte hmem; omega
        obtain ⟨behind', rfl, rfl⟩ := append_cons_eq_append hall hother
        obtain ⟨shown, more, hshown, hmore, rfl⟩ := ih rfl
        exact ⟨c :: shown, more, .char c hshown, hmore, rfl⟩
  | @replaced part bytes text hpart hrest ih =>
      have hother : byte ∉ part := fun hmem => by have := hpart.not_ascii byte hmem; omega
      obtain ⟨behind', rfl, rfl⟩ := append_cons_eq_append hall hother
      obtain ⟨shown, more, hshown, hmore, rfl⟩ := ih rfl
      exact ⟨replacement :: shown, more, .replaced hpart.of_append hshown, hmore, rfl⟩

theorem Decodes.eq_nil_iff (h : Decodes bytes text) : text = [] ↔ bytes = [] := by
  cases h with
  | nil => simp
  | char c _ => simp
  | replaced hpart _ => simp [hpart.ne]

theorem ofNat_eq_newline_iff (hbyte : byte.toNat < 0x80) :
    Char.ofNat byte.toNat = '\n' ↔ byte = 0x0A := by
  rw [← UInt8.toNat_inj]
  constructor
  · intro h
    rw [← toNat_ofNat (.inl (Nat.lt_trans hbyte (by decide))), h]
    rfl
  · intro h
    rw [h]
    rfl

theorem Decodes.count_newline (h : Decodes bytes text) : text.count '\n' = bytes.count 0x0A := by
  rw [← List.count_filter (p := fun c => c.toNat < 0x80) (by decide), h.filter_ascii, List.count,
    List.countP_map, List.countP_filter, List.count]
  refine List.countP_congr fun byte _ => ?_
  by_cases hbyte : byte.toNat < 0x80
  · simp [hbyte, ofNat_eq_newline_iff hbyte]
  · have hother : byte ≠ 0x0A := by
      rintro rfl
      exact hbyte (by decide)
    simp [hbyte, hother]

theorem not_ended (h : ∀ byte ∈ part, 0x80 ≤ byte.toNat) : part.getLast? ≠ some 0x0A :=
  fun hlast => absurd (h 0x0A (List.mem_of_getLast? hlast)) (by decide)

theorem Decodes.ended_cons_iff {c : Char} (h : Decodes bytes text)
    (hrest : text.getLast? = some '\n' ↔ bytes.getLast? = some 0x0A)
    (hpart : c = '\n' ↔ part.getLast? = some 0x0A) :
    (c :: text).getLast? = some '\n' ↔ (part ++ bytes).getLast? = some 0x0A := by
  by_cases hne : text = []
  · obtain rfl := h.eq_nil_iff.mp hne
    rw [hne, List.getLast?_singleton, Option.some.injEq, List.append_nil]
    exact hpart
  · have hbytes : bytes ≠ [] := h.eq_nil_iff.not.mp hne
    rw [List.getLast?_cons_of_ne_nil hne, List.getLast?_append_of_ne_nil _ hbytes]
    exact hrest

theorem Decodes.ended_iff (h : Decodes bytes text) :
    text.getLast? = some '\n' ↔ bytes.getLast? = some 0x0A := by
  induction h with
  | nil => simp
  | char c hrest ih =>
      refine hrest.ended_cons_iff ih ?_
      rcases encode_ascii_cases c with ⟨byte, hbyte, hencode, hc⟩ | ⟨hc, hlarge⟩
      · rw [hencode, List.getLast?_singleton, Option.some.injEq, hc, ofNat_eq_newline_iff hbyte]
      · have hother : c ≠ '\n' := by
          rintro rfl
          exact absurd hc (by decide)
        exact iff_of_false hother (not_ended hlarge)
  | replaced hpart hrest ih =>
      exact hrest.ended_cons_iff ih (iff_of_false (by decide) (not_ended hpart.not_ascii))

theorem toUTF8_toList (text : String) :
    text.toUTF8.data.toList = text.toList.flatMap utf8EncodeChar := by
  rw [String.toUTF8_eq_toByteArray, ← String.ofList_toList (s := text), String.toByteArray_ofList,
    String.toList_ofList, List.utf8Encode, List.toList_data_toByteArray]

end Text.Utf8

namespace Source

def addedBreak (contents : List UInt8) : List Char :=
  if contents ≠ [] ∧ contents.getLast? ≠ some 0x0A then ['\n'] else []

theorem endLine_of_decodes {contents : List UInt8} {text : List Char}
    (h : Text.Utf8.Decodes contents text) : endLine text = text ++ addedBreak contents := by
  have hbreak : (contents ≠ [] ∧ contents.getLast? ≠ some 0x0A) ↔
      ¬ (text = [] ∨ text.getLast? = some '\n') := by
    rw [h.eq_nil_iff, h.ended_iff, not_or]
  by_cases hended : text = [] ∨ text.getLast? = some '\n'
  · rw [endLine, addedBreak, if_pos hended, if_neg (hbreak.not.mpr (not_not.mpr hended)),
      List.append_nil]
  · rw [endLine, addedBreak, if_neg hended, if_pos (hbreak.mpr hended)]

theorem filter_addedBreak (contents : List UInt8) :
    (addedBreak contents).filter (·.toNat < 0x80) = addedBreak contents := by
  unfold addedBreak
  split <;> rfl

end Source

open Text.Utf8 (Decodes)

/-- A file keeps its text, and its last line is ended. The text is what its bytes stand for, valid
or not, and the bytes below 0x80 are its characters of that range, in their order. Each of them
parts the text where it parts the bytes, so that the lines of the text are those of the file. -/
theorem loading_keeps_text (path : String) (contents : List UInt8) :
    (∀ text : String, contents = text.toUTF8.data.toList →
      (Source.load path (some contents)).code =
        if text = "" ∨ text.toList.getLast? = some '\n' then text else text ++ "\n") ∧
    (∃ text, Decodes contents text ∧
      (Source.load path (some contents)).code.toList = text ++ Source.addedBreak contents) ∧
    (Source.load path (some contents)).code.toList.filter (·.toNat < 0x80) =
      (contents.filter (·.toNat < 0x80)).map (Char.ofNat ·.toNat) ++ Source.addedBreak contents ∧
    ∀ before byte behind, contents = before ++ byte :: behind → byte.toNat < 0x80 →
      ∃ shown more, Decodes before shown ∧ Decodes behind more ∧
        (Source.load path (some contents)).code.toList =
          shown ++ .ofNat byte.toNat :: (more ++ Source.addedBreak contents) ∧
        shown.count '\n' = before.count 0x0A := by
  have hdecodes := Text.Utf8.decode_decodes contents
  have hcode : (Source.load path (some contents)).code.toList =
      Text.Utf8.decode contents ++ Source.addedBreak contents := by
    rw [Source.load, Source.ofFile, String.toList_ofList, Source.endLine_of_decodes hdecodes]
  refine ⟨fun text htext => ?_, ⟨_, hdecodes, hcode⟩, ?_, fun before byte behind hall hbyte => ?_⟩
  · have hdecoded : Text.Utf8.decode contents = text.toList := by
      rw [htext, Text.Utf8.toUTF8_toList, Text.Utf8.decode_encode]
    rw [Source.load, Source.ofFile, Source.endLine, hdecoded, apply_ite String.ofList,
      String.ofList_append, String.ofList_toList]
    simp only [String.toList_eq_nil_iff]
  · rw [hcode, List.filter_append, hdecodes.filter_ascii, Source.filter_addedBreak]
  · rw [hall] at hdecodes
    obtain ⟨shown, more, hshown, hmore, htext⟩ := hdecodes.split hbyte
    refine ⟨shown, more, hshown, hmore, ?_, hshown.count_newline⟩
    rw [hcode, hall, htext, List.append_assoc, List.cons_append]

end LispReader
