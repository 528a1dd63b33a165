import LispReader.Proofs.Encoding

namespace LispReader.Text.Utf8

open String (utf8EncodeChar length_utf8EncodeChar)

variable {byte : UInt8} {n k : Nat}

theorem exists_of_two_iff : (∃ n, n.isValidChar ∧ size n = 2 ∧ n / 64 ^ 0 = k) ↔
    0x80 ≤ k ∧ k < 0x800 := by
  unfold Nat.isValidChar size
  constructor
  · rintro ⟨n, hvalid, hsize, hn⟩
    grind
  · intro h
    exact ⟨k, by grind⟩

theorem exists_of_three_iff : (∃ n, n.isValidChar ∧ size n = 3 ∧ n / 64 ^ 1 = k) ↔
    0x20 ≤ k ∧ k < 0x400 ∧ ¬ (0x360 ≤ k ∧ k < 0x380) := by
  unfold Nat.isValidChar size
  constructor
  · rintro ⟨n, hvalid, hsize, hn⟩
    grind
  · intro h
    exact ⟨k * 64, by grind⟩

theorem exists_of_four_iff : (∃ n, n.isValidChar ∧ size n = 4 ∧ n / 64 ^ 2 = k) ↔
    0x10 ≤ k ∧ k < 0x110 := by
  unfold Nat.isValidChar size
  constructor
  · rintro ⟨n, hvalid, hsize, hn⟩
    grind
  · intro h
    exact ⟨k * 4096, by grind⟩

variable {bits : Nat} {low high : UInt8}

theorem awaits_of_two (hbyte : byte.toNat = 0xC0 + bits) (hbits : 2 ≤ bits ∧ bits < 32) :
    Awaits [byte] ⟨bits, 1, 0x80, 0xBF⟩ := by
  refine awaits_singleton (begun_singleton fun n => ?_) (fun next => ?_) (by decide)
  · unfold lead size
    grind
  · rw [exists_of_two_iff]
    change 0x80 ≤ next.toNat ∧ next.toNat ≤ 0xBF ↔ _
    omega

theorem awaits_of_three (hbyte : byte.toNat = 0xE0 + bits) (hbits : bits < 16)
    (hlow : low.toNat = if bits = 0 then 0xA0 else 0x80)
    (hhigh : high.toNat = if bits = 0xD then 0x9F else 0xBF) :
    Awaits [byte] ⟨bits, 2, low, high⟩ := by
  refine awaits_singleton (begun_singleton fun n => ?_) (fun next => ?_) ?_
  · unfold lead size
    grind
  · rw [exists_of_three_iff, hlow, hhigh]
    grind
  · rw [UInt8.le_iff_toNat_le, hlow, hhigh]
    grind

theorem awaits_of_four (hbyte : byte.toNat = 0xF0 + bits) (hbits : bits ≤ 4)
    (hlow : low.toNat = if bits = 0 then 0x90 else 0x80)
    (hhigh : high.toNat = if bits = 4 then 0x8F else 0xBF) :
    Awaits [byte] ⟨bits, 3, low, high⟩ := by
  refine awaits_singleton (begun_singleton fun n => ?_) (fun next => ?_) ?_
  · unfold lead size
    grind
  · rw [exists_of_four_iff, hlow, hhigh]
    grind
  · rw [UInt8.le_iff_toNat_le, hlow, hhigh]
    grind

theorem encode_ofNat (h : byte.toNat < 0x80) : utf8EncodeChar (.ofNat byte.toNat) = [byte] := by
  have hvalid : byte.toNat.isValidChar := .inl (by omega)
  rcases encode_cases (.ofNat byte.toNat) with ⟨-, hencode⟩ | ⟨hbounds, -⟩ | ⟨hbounds, -⟩ |
    ⟨hbounds, -⟩
  · rw [hencode, toNat_ofNat hvalid, UInt8.ofNat_toNat]
  all_goals
    rw [toNat_ofNat hvalid] at hbounds
    omega

theorem not_begins (h : 0x80 ≤ byte.toNat ∧ byte.toNat < 0xC2 ∨ 0xF4 < byte.toNat) :
    ¬ Begins [byte] := by
  rintro ⟨c, hc⟩
  have hvalid : c.toNat < 0xD800 ∨ 0xDFFF < c.toNat ∧ c.toNat < 0x110000 := c.valid
  rw [head_encode_iff] at hc
  unfold lead at hc
  grind

theorem Decoder.start_cases (decoder : Decoder) (byte : UInt8) :
    (∃ c, utf8EncodeChar c = [byte] ∧ decoder.start byte = decoder.emit c) ∨
    (¬ Begins [byte] ∧ decoder.start byte = decoder.emit replacement) ∨
    ∃ pending, Awaits [byte] pending ∧
      decoder.start byte = { decoder with pending := some pending } := by
  unfold Decoder.start
  dsimp only
  by_cases h80 : byte.toNat < 0x80
  · rw [if_pos h80]
    exact .inl ⟨_, encode_ofNat h80, rfl⟩
  rw [if_neg h80]
  by_cases hC2 : byte.toNat < 0xC2
  · rw [if_pos hC2]
    exact .inr (.inl ⟨not_begins (by omega), rfl⟩)
  rw [if_neg hC2]
  by_cases hE0 : byte.toNat < 0xE0
  · rw [if_pos hE0]
    exact .inr (.inr ⟨_, awaits_of_two (by omega) (by omega), rfl⟩)
  rw [if_neg hE0]
  by_cases hfirst : byte.toNat = 0xE0
  · rw [if_pos hfirst]
    exact .inr (.inr ⟨_, awaits_of_three hfirst (by omega) rfl rfl, rfl⟩)
  rw [if_neg hfirst]
  by_cases hsurrogate : byte.toNat = 0xED
  · rw [if_pos hsurrogate]
    exact .inr (.inr ⟨_, awaits_of_three hsurrogate (by omega) rfl rfl, rfl⟩)
  rw [if_neg hsurrogate]
  by_cases hF0 : byte.toNat < 0xF0
  · have hlow : byte.toNat - 0xE0 ≠ 0 := by omega
    have hhigh : byte.toNat - 0xE0 ≠ 0xD := by omega
    have hawaits : Awaits [byte] ⟨byte.toNat - 0xE0, 2, 0x80, 0xBF⟩ :=
      awaits_of_three (by omega) (by omega) (if_neg hlow).symm (if_neg hhigh).symm
    rw [if_pos hF0]
    exact .inr (.inr ⟨_, hawaits, rfl⟩)
  rw [if_neg hF0]
  by_cases hfirst : byte.toNat = 0xF0
  · rw [if_pos hfirst]
    exact .inr (.inr ⟨_, awaits_of_four hfirst (by omega) rfl rfl, rfl⟩)
  rw [if_neg hfirst]
  by_cases hF4 : byte.toNat < 0xF4
  · have hlow : byte.toNat - 0xF0 ≠ 0 := by omega
    have hhigh : byte.toNat - 0xF0 ≠ 4 := by omega
    have hawaits : Awaits [byte] ⟨byte.toNat - 0xF0, 3, 0x80, 0xBF⟩ :=
      awaits_of_four (by omega) (by omega) (if_neg hlow).symm (if_neg hhigh).symm
    rw [if_pos hF4]
    exact .inr (.inr ⟨_, hawaits, rfl⟩)
  rw [if_neg hF4]
  by_cases hlast : byte.toNat = 0xF4
  · rw [if_pos hlast]
    exact .inr (.inr ⟨_, awaits_of_four hlast (by omega) rfl rfl, rfl⟩)
  rw [if_neg hlast]
  exact .inr (.inl ⟨not_begins (by omega), rfl⟩)

/-- The bytes at the start of a text that are replaced: all those with which a character begins that
is not completed, or a single one with which none begins. -/
structure IsSubpart (part rest : List UInt8) : Prop where
  ne : part ≠ []
  unconvertible : ∀ c, ¬ utf8EncodeChar c <+: part ++ rest
  begins : Begins part ∨ part.length = 1
  longest : ∀ longer, longer <+: part ++ rest → Begins longer → longer.length ≤ part.length

/-- The text that bytes stand for, with one replacement for each longest run of bytes that is not a
character. -/
inductive Decodes : List UInt8 → List Char → Prop
  | nil : Decodes [] []
  | char (c : Char) {bytes : List UInt8} {text : List Char} (hrest : Decodes bytes text) :
      Decodes (utf8EncodeChar c ++ bytes) (c :: text)
  | replaced {part bytes : List UInt8} {text : List Char} (hpart : IsSubpart part bytes)
      (hrest : Decodes bytes text) : Decodes (part ++ bytes) (replacement :: text)

variable {part bytes rest read : List UInt8} {text : List Char} {pending : Pending}

theorem encode_ne_nil (c : Char) : utf8EncodeChar c ≠ [] := by
  rw [← List.length_pos_iff, length_utf8EncodeChar]
  exact c.utf8Size_pos

theorem isSubpart_of_not_begins (h : ¬ Begins [byte]) (rest : List UInt8) :
    IsSubpart [byte] rest := by
  have hnone {start : List UInt8} (hstart : start <+: [byte] ++ rest) (hne : start ≠ []) :
      ¬ Begins start := by
    obtain ⟨first, more, rfl⟩ := List.exists_cons_of_ne_nil hne
    obtain ⟨rfl, -⟩ := List.cons_prefix_cons.mp hstart
    intro hbegins
    have hall : Begins ([first] ++ more) := hbegins
    exact h hall.of_append
  refine ⟨List.cons_ne_nil _ _, fun c hc => ?_, .inr rfl, fun longer hlonger hbegins => ?_⟩
  · exact hnone hc (encode_ne_nil c) ⟨c, List.prefix_rfl⟩
  · by_cases hne : longer = []
    · simp [hne]
    · exact absurd hbegins (hnone hlonger hne)

theorem Awaits.isSubpart (h : Awaits read pending)
    (hother : ∀ byte ∈ rest.head?, ¬ (pending.low ≤ byte ∧ byte ≤ pending.high)) :
    IsSubpart read rest := by
  have hno {longer : List UInt8} (hlonger : longer <+: read ++ rest) (hbegins : Begins longer) :
      longer.length ≤ read.length := by
    by_contra hless
    have hread : read <+: longer :=
      List.prefix_of_prefix_length_le (List.prefix_append read rest) hlonger (by omega)
    obtain ⟨more, rfl⟩ := hread
    cases more with
    | nil => simp at hless
    | cons byte more =>
        obtain ⟨behind, rfl⟩ := (List.prefix_append_right_inj read).mp hlonger
        rw [List.append_cons] at hbegins
        exact hother byte rfl ((h.range byte).mpr hbegins.of_append)
  refine ⟨h.begun.ne, fun c hc => ?_, .inl h.begins, fun longer => hno⟩
  have hlength := hno hc ⟨c, List.prefix_rfl⟩
  have hstart : utf8EncodeChar c <+: read :=
    List.prefix_of_prefix_length_le hc (List.prefix_append read rest) hlength
  obtain ⟨d, hd⟩ := h.begins
  obtain rfl : c = d := eq_of_encode_prefix ((hstart.trans hd).trans (List.prefix_append _ []))
  have hsize := ((h.begun.prefix_iff c).mp hd).1
  have hpos := h.pos
  rw [length_utf8EncodeChar] at hlength
  omega

theorem Decodes.encode (text : List Char) : Decodes (text.flatMap utf8EncodeChar) text := by
  induction text with
  | nil => exact .nil
  | cons c text ih => exact .char c ih

def Decoder.Holds (decoder : Decoder) (read : List UInt8) : Prop :=
  match decoder.pending with
  | none => read = []
  | some pending => Awaits read pending

/-- Whatever follows what a decoder holds, it adds the text of both. -/
def Decoder.Adds (decoder : Decoder) (read bytes : List UInt8) : Prop :=
  ∃ text, Decodes (read ++ bytes) text ∧
    (bytes.foldl Decoder.step decoder).close = decoder.text.reverse ++ text

theorem Decoder.emit_text (c : Char) (decoder : Decoder) (text : List Char) :
    (decoder.emit c).text.reverse ++ text = decoder.text.reverse ++ c :: text := by
  simp [emit]

theorem Decoder.adds_start (decoder : Decoder) (byte : UInt8)
    (hrest : ∀ decoder read, Decoder.Holds decoder read → decoder.Adds read bytes) :
    ∃ text, Decodes (byte :: bytes) text ∧
      (bytes.foldl Decoder.step (decoder.start byte)).close = decoder.text.reverse ++ text := by
  rcases decoder.start_cases byte with ⟨c, hc, hstart⟩ | ⟨hnone, hstart⟩ |
    ⟨pending, hawaits, hstart⟩
  · obtain ⟨text, htext, hclose⟩ := hrest (decoder.emit c) [] rfl
    refine ⟨c :: text, ?_, by rw [hstart, hclose, emit_text]⟩
    rw [← List.singleton_append, ← hc]
    exact .char c htext
  · obtain ⟨text, htext, hclose⟩ := hrest (decoder.emit replacement) [] rfl
    refine ⟨replacement :: text, ?_, by rw [hstart, hclose, emit_text]⟩
    exact .replaced (isSubpart_of_not_begins hnone bytes) htext
  · obtain ⟨text, htext, hclose⟩ := hrest { decoder with pending := some pending } [byte] hawaits
    exact ⟨text, htext, by rw [hstart, hclose]⟩

/-- By induction on what follows. A byte that cannot go on with a character begins anew, so both
kinds of state are met again. -/
theorem Decoder.adds {decoder : Decoder} (h : decoder.Holds read) : decoder.Adds read bytes := by
  induction bytes generalizing decoder read with
  | nil =>
      cases hpending : decoder.pending with
      | none =>
          obtain rfl : read = [] := by simpa [Holds, hpending] using h
          exact ⟨[], .nil, by simp [Decoder.close, hpending]⟩
      | some pending =>
          have hawaits : Awaits read pending := by simpa [Holds, hpending] using h
          have hpart : IsSubpart read [] := hawaits.isSubpart (by simp)
          refine ⟨[replacement], .replaced hpart .nil, ?_⟩
          simp [Decoder.close, Decoder.emit, hpending]
  | cons byte bytes ih =>
      have hstart (decoder : Decoder) := decoder.adds_start byte fun _ _ => ih
      rw [Adds, List.foldl_cons, Decoder.step]
      cases hpending : decoder.pending with
      | none =>
          obtain rfl : read = [] := by simpa [Holds, hpending] using h
          exact hstart decoder
      | some pending =>
          have hawaits : Awaits read pending := by simpa [Holds, hpending] using h
          dsimp only
          split_ifs with hrange hlast
          · obtain ⟨text, htext, hclose⟩ := ih (show (decoder.emit _).Holds [] from rfl)
            refine ⟨_ :: text, ?_, hclose.trans (emit_text _ decoder text)⟩
            rw [List.append_cons, ← hawaits.complete hlast hrange]
            exact .char _ htext
          · have hnext : (decoder.await _ _ _ _).Holds (read ++ [byte]) :=
              hawaits.next (Nat.lt_of_not_le hlast) hrange
            obtain ⟨text, htext, hclose⟩ := ih hnext
            exact ⟨text, by rwa [List.append_cons], hclose⟩
          · obtain ⟨text, htext, hclose⟩ := hstart (decoder.emit replacement)
            have hpart : IsSubpart read (byte :: bytes) := hawaits.isSubpart (by simpa using hrange)
            exact ⟨replacement :: text, .replaced hpart htext, by rw [hclose, emit_text]⟩

theorem decode_decodes (bytes : List UInt8) : Decodes bytes (decode bytes) := by
  have hempty : Decoder.empty.Holds [] := rfl
  obtain ⟨text, htext, hclose⟩ : Decoder.empty.Adds [] bytes := Decoder.adds hempty
  rw [decode, hclose]
  exact htext

example : decode [0xE2, 0x82, 0x29, 0xFF] = [replacement, ')', replacement] := by decide

theorem IsSubpart.length_le {part' rest' : List UInt8} (h : IsSubpart part rest)
    (h' : IsSubpart part' rest') (hall : part ++ rest = part' ++ rest') :
    part'.length ≤ part.length := by
  rcases h'.begins with hbegins | hone
  · exact h.longest part' (hall ▸ List.prefix_append part' rest') hbegins
  · rw [hone]
    exact List.length_pos_iff.mpr h.ne

theorem Decodes.unique {other : List Char} (h : Decodes bytes text) (hother : Decodes bytes other) :
    other = text := by
  induction h generalizing other with
  | nil =>
      generalize hall : [] = all at hother
      cases hother with
      | nil => rfl
      | char d _ => exact absurd hall.symm (by simp)
      | replaced hpart' _ => exact absurd hall.symm (by simp [hpart'.ne])
  | @char c bytes text _ ih =>
      generalize hall : utf8EncodeChar c ++ bytes = all at hother
      cases hother with
      | nil => exact absurd hall (by simp)
      | @char d bytes' text' hrest' =>
          obtain rfl : c = d := eq_of_encode_prefix (hall ▸ List.prefix_append _ bytes)
          obtain rfl := List.append_cancel_left hall
          rw [ih hrest']
      | replaced hpart' _ =>
          exact absurd (hall ▸ List.prefix_append _ bytes) (hpart'.unconvertible c)
  | @replaced part bytes text hpart _ ih =>
      generalize hall : part ++ bytes = all at hother
      cases hother with
      | nil => exact absurd hall (by simp [hpart.ne])
      | @char d bytes' _ _ =>
          exact absurd (hall ▸ List.prefix_append _ bytes') (hpart.unconvertible d)
      | @replaced part' bytes' text' hpart' hrest' =>
          have hlength : part.length = part'.length :=
            Nat.le_antisymm (hpart'.length_le hpart hall.symm) (hpart.length_le hpart' hall)
          obtain ⟨rfl, rfl⟩ := List.append_inj hall hlength
          rw [ih hrest']

theorem decode_encode (text : List Char) : decode (text.flatMap utf8EncodeChar) = text :=
  (Decodes.encode text).unique (decode_decodes _)

end LispReader.Text.Utf8
