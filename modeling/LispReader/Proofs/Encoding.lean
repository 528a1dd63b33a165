import LispReader.Text.Utf8
import Mathlib.Data.String.Basic
import Mathlib.Tactic.IntervalCases

namespace LispReader.Text.Utf8

open String (utf8EncodeChar length_utf8EncodeChar)

variable {c d : Char} {byte : UInt8} {read bytes : List UInt8} {n : Nat}

theorem toNat_ofNat (h : n.isValidChar) : (Char.ofNat n).toNat = n := by
  rw [Char.ofNat, dif_pos h]
  rfl

theorem encode_cases (c : Char) :
    c.toNat < 0x80 ∧ utf8EncodeChar c = [.ofNat c.toNat] ∨
    (0x80 ≤ c.toNat ∧ c.toNat < 0x800) ∧
      utf8EncodeChar c = [.ofNat (0xC0 + c.toNat / 64), .ofNat (0x80 + c.toNat % 64)] ∨
    (0x800 ≤ c.toNat ∧ c.toNat < 0x10000) ∧
      utf8EncodeChar c = [.ofNat (0xE0 + c.toNat / 4096), .ofNat (0x80 + c.toNat / 64 % 64),
        .ofNat (0x80 + c.toNat % 64)] ∨
    (0x10000 ≤ c.toNat ∧ c.toNat < 0x110000) ∧
      utf8EncodeChar c = [.ofNat (0xF0 + c.toNat / 262144), .ofNat (0x80 + c.toNat / 4096 % 64),
        .ofNat (0x80 + c.toNat / 64 % 64), .ofNat (0x80 + c.toNat % 64)] := by
  have hvalid : c.toNat < 0xD800 ∨ 0xDFFF < c.toNat ∧ c.toNat < 0x110000 := c.valid
  have hval : c.val.toNat = c.toNat := rfl
  unfold utf8EncodeChar
  simp only [hval]
  split
  · exact .inl ⟨by omega, rfl⟩
  · split
    · refine .inr (.inl ⟨by omega, ?_⟩)
      rw [Nat.mod_eq_of_lt (by omega : c.toNat / 64 < 32), Nat.add_comm 0xC0, Nat.add_comm 0x80]
    · split
      · refine .inr (.inr (.inl ⟨by omega, ?_⟩))
        rw [Nat.mod_eq_of_lt (by omega : c.toNat / 4096 < 16), Nat.add_comm 0xE0,
          Nat.add_comm 0x80, Nat.add_comm 0x80]
      · refine .inr (.inr (.inr ⟨by omega, ?_⟩))
        rw [Nat.mod_eq_of_lt (by omega : c.toNat / 262144 < 8), Nat.add_comm 0xF0,
          Nat.add_comm 0x80, Nat.add_comm 0x80, Nat.add_comm 0x80]

theorem eq_of_encode_prefix (h : utf8EncodeChar c <+: utf8EncodeChar d ++ bytes) : c = d := by
  obtain ⟨rest, hrest⟩ := h
  have hc := ByteArray.utf8DecodeChar?_utf8EncodeChar_append (b := rest.toByteArray) (c := c)
  have hd := ByteArray.utf8DecodeChar?_utf8EncodeChar_append (b := bytes.toByteArray) (c := d)
  rw [← List.toByteArray_append, hrest, List.toByteArray_append] at hc
  exact Option.some.inj (hc.symm.trans hd)

theorem append_singleton_prefix_iff {α : Type} {before : List α} {a : α} {all : List α} :
    before ++ [a] <+: all ↔ before <+: all ∧ all[before.length]? = some a := by
  constructor
  · rintro ⟨rest, rfl⟩
    exact ⟨⟨a :: rest, by simp⟩, by simp⟩
  · rintro ⟨⟨rest, rfl⟩, hnext⟩
    obtain ⟨more, rfl⟩ : ∃ more, rest = a :: more := by
      rw [List.getElem?_append_right le_rfl, Nat.sub_self] at hnext
      cases rest with
      | nil => simp at hnext
      | cons b more => exact ⟨more, by simpa using hnext⟩
    exact ⟨more, by simp⟩

theorem ofNat_eq_iff (h : n < 256) : UInt8.ofNat n = byte ↔ n = byte.toNat := by
  rw [← UInt8.toNat_inj, UInt8.toNat_ofNat_of_lt' h]

def size (n : Nat) : Nat :=
  if n < 0x80 then 1 else if n < 0x800 then 2 else if n < 0x10000 then 3 else 4

def lead (n : Nat) : Nat :=
  if n < 0x80 then n
  else if n < 0x800 then 0xC0 + n / 64
  else if n < 0x10000 then 0xE0 + n / 4096
  else 0xF0 + n / 262144

theorem utf8Size_eq (c : Char) : c.utf8Size = size c.toNat := by
  rw [← length_utf8EncodeChar]
  rcases encode_cases c with ⟨hbound, h⟩ | ⟨hbounds, h⟩ | ⟨hbounds, h⟩ | ⟨hbounds, h⟩
  all_goals
    rw [h]
    simp only [size, List.length_cons, List.length_nil]
    grind

theorem head_encode_iff : [byte] <+: utf8EncodeChar c ↔ lead c.toNat = byte.toNat := by
  rcases encode_cases c with ⟨hbound, h⟩ | ⟨hbounds, h⟩ | ⟨hbounds, h⟩ | ⟨hbounds, h⟩
  all_goals
    rw [h, List.singleton_prefix_cons_iff, eq_comm, ofNat_eq_iff (by omega)]
    simp only [lead]
    grind

theorem getElem?_encode {i : Nat} (hi : 0 < i) (hsize : i < c.utf8Size) :
    (utf8EncodeChar c)[i]? = some (.ofNat (0x80 + c.toNat / 64 ^ (c.utf8Size - 1 - i) % 64)) := by
  have hlength := length_utf8EncodeChar c
  rcases encode_cases c with ⟨-, h⟩ | ⟨-, h⟩ | ⟨-, h⟩ | ⟨-, h⟩
  all_goals
    rw [h] at hlength ⊢
    rw [← hlength] at hsize ⊢
    simp only [List.length_cons, List.length_nil] at hsize
    interval_cases i <;> simp

theorem getElem?_encode_iff {i : Nat} (hi : 0 < i) :
    (utf8EncodeChar c)[i]? = some byte ↔
      i < c.utf8Size ∧ 0x80 + c.toNat / 64 ^ (c.utf8Size - 1 - i) % 64 = byte.toNat := by
  by_cases hsize : i < c.utf8Size
  · have hless := Nat.mod_lt (c.toNat / 64 ^ (c.utf8Size - 1 - i)) (by omega : 64 > 0)
    rw [getElem?_encode hi hsize, Option.some.injEq, ofNat_eq_iff (by omega)]
    exact (and_iff_right hsize).symm
  · rw [List.getElem?_eq_none (by rw [length_utf8EncodeChar]; omega)]
    simp [hsize]

def Begins (bytes : List UInt8) : Prop :=
  ∃ c, bytes <+: utf8EncodeChar c

/-- The characters that begin with what has been read are those of one size and with these bits. -/
structure Begun (read : List UInt8) (bits missing : Nat) : Prop where
  ne : read ≠ []
  prefix_iff : ∀ c, read <+: utf8EncodeChar c ↔
    c.utf8Size = read.length + missing ∧ c.toNat / 64 ^ missing = bits

/-- What may follow the bytes that have been read is just what the decoder takes. -/
structure Awaits (read : List UInt8) (pending : Pending) : Prop where
  begun : Begun read pending.bits pending.missing
  pos : 0 < pending.missing
  begins : Begins read
  range : ∀ byte, pending.low ≤ byte ∧ byte ≤ pending.high ↔ Begins (read ++ [byte])

variable {bits missing : Nat}

theorem Begins.of_append (h : Begins (read ++ bytes)) : Begins read := by
  obtain ⟨c, hc⟩ := h
  exact ⟨c, (List.prefix_append read bytes).trans hc⟩

theorem Begun.next_iff (h : Begun read bits (missing + 1)) :
    read ++ [byte] <+: utf8EncodeChar c ↔ (0x80 ≤ byte.toNat ∧ byte.toNat ≤ 0xBF) ∧
      c.utf8Size = read.length + 1 + missing ∧
      c.toNat / 64 ^ missing = bits * 64 + (byte.toNat - 0x80) := by
  have hpos := List.length_pos_iff.mpr h.ne
  rw [append_singleton_prefix_iff, h.prefix_iff, getElem?_encode_iff hpos, Nat.pow_succ,
    ← Nat.div_div_eq_div_mul]
  constructor
  · rintro ⟨⟨hsize, hbits⟩, -, hbyte⟩
    rw [show c.utf8Size - 1 - read.length = missing by omega] at hbyte
    omega
  · rintro ⟨hrange, hsize, hbits⟩
    rw [show c.utf8Size - 1 - read.length = missing by omega]
    omega

theorem Begun.next (h : Begun read bits (missing + 1))
    (hrange : 0x80 ≤ byte.toNat ∧ byte.toNat ≤ 0xBF) :
    Begun (read ++ [byte]) (bits * 64 + (byte.toNat - 0x80)) missing := by
  refine ⟨by simp, fun c => ?_⟩
  rw [h.next_iff, List.length_append, List.length_singleton]
  exact and_iff_right hrange

theorem Begun.begins_iff (h : Begun read bits missing) :
    Begins read ↔
      ∃ n, n.isValidChar ∧ size n = read.length + missing ∧ n / 64 ^ missing = bits := by
  constructor
  · rintro ⟨c, hc⟩
    rw [h.prefix_iff, utf8Size_eq] at hc
    exact ⟨c.toNat, c.valid, hc⟩
  · rintro ⟨n, hvalid, hn⟩
    refine ⟨Char.ofNat n, ?_⟩
    rwa [h.prefix_iff, utf8Size_eq, toNat_ofNat hvalid]

theorem Begun.eq_ofNat (h : Begun read bits 0) (hbegins : Begins read) :
    utf8EncodeChar (.ofNat bits) = read := by
  obtain ⟨c, hc⟩ := hbegins
  obtain ⟨hsize, hbits⟩ := (h.prefix_iff c).mp hc
  rw [Nat.pow_zero, Nat.div_one] at hbits
  rw [← hbits, Char.ofNat_toNat]
  exact (hc.eq_of_length (by rw [length_utf8EncodeChar, hsize, Nat.add_zero])).symm

theorem isValidChar_of_block {m n : Nat} (hvalid : m.isValidChar) (hsize : missing + 2 ≤ size m)
    (hblock : n / 64 ^ missing = m / 64 ^ missing) : n.isValidChar ∧ size n = size m := by
  have hmissing : missing = 0 ∨ missing = 1 ∨ missing = 2 := by
    unfold size at hsize
    grind
  unfold Nat.isValidChar at hvalid ⊢
  unfold size at hsize ⊢
  rcases hmissing with rfl | rfl | rfl
  all_goals
    norm_num at hblock
    grind

theorem Begun.range_iff (h : Begun read bits (missing + 1)) :
    Begins (read ++ [byte]) ↔ (0x80 ≤ byte.toNat ∧ byte.toNat ≤ 0xBF) ∧
      ∃ n, n.isValidChar ∧ size n = read.length + 1 + missing ∧
        n / 64 ^ missing = bits * 64 + (byte.toNat - 0x80) := by
  by_cases hrange : 0x80 ≤ byte.toNat ∧ byte.toNat ≤ 0xBF
  · rw [(h.next hrange).begins_iff, List.length_append, List.length_singleton]
    exact (and_iff_right hrange).symm
  · simp only [hrange, false_and, iff_false]
    rintro ⟨c, hc⟩
    exact hrange (h.next_iff.mp hc).1

theorem le_iff {low high : UInt8} :
    low ≤ byte ∧ byte ≤ high ↔ low.toNat ≤ byte.toNat ∧ byte.toNat ≤ high.toNat := by
  rw [UInt8.le_iff_toNat_le, UInt8.le_iff_toNat_le]

theorem Awaits.complete {pending : Pending} (h : Awaits read pending) (hlast : pending.missing ≤ 1)
    (hrange : pending.low ≤ byte ∧ byte ≤ pending.high) :
    utf8EncodeChar (.ofNat (pending.bits * 64 + (byte.toNat - 0x80))) = read ++ [byte] := by
  have hone : pending.missing = 0 + 1 := Nat.le_antisymm hlast h.pos
  have hread : Begun read pending.bits (0 + 1) := hone ▸ h.begun
  have hbegins := (h.range byte).mp hrange
  exact (hread.next (hread.range_iff.mp hbegins).1).eq_ofNat hbegins

theorem Awaits.next {pending : Pending} (h : Awaits read pending) (hmore : 1 < pending.missing)
    (hrange : pending.low ≤ byte ∧ byte ≤ pending.high) :
    Awaits (read ++ [byte])
      ⟨pending.bits * 64 + (byte.toNat - 0x80), pending.missing - 1, 0x80, 0xBF⟩ := by
  obtain ⟨bits, missing, low, high⟩ := pending
  obtain ⟨missing, rfl⟩ := Nat.exists_eq_add_of_le' hmore
  have hpos := List.length_pos_iff.mpr h.begun.ne
  have hbegins := (h.range byte).mp hrange
  have hread : Begun read bits (missing + 1 + 1) := h.begun
  obtain ⟨hbyte, m, hvalid, hsize, hbits⟩ := hread.range_iff.mp hbegins
  have hbegun := hread.next hbyte
  refine ⟨hbegun, Nat.succ_pos missing, hbegins, fun other => ?_⟩
  rw [hbegun.range_iff, le_iff]
  refine (and_iff_left_of_imp fun hother => ?_).symm
  let n := ((bits * 64 + (byte.toNat - 0x80)) * 64 + (other.toNat - 0x80)) * 64 ^ missing
  have hn : n / 64 ^ missing =
      (bits * 64 + (byte.toNat - 0x80)) * 64 + (other.toNat - 0x80) :=
    Nat.mul_div_cancel _ (Nat.pow_pos (by omega))
  have hother : 0x80 ≤ other.toNat ∧ other.toNat ≤ 0xBF := hother
  have hblock : n / 64 ^ (missing + 1) = m / 64 ^ (missing + 1) := by
    rw [hbits, Nat.pow_succ, ← Nat.div_div_eq_div_mul, hn]
    omega
  obtain ⟨hvalid', hsize'⟩ := isValidChar_of_block hvalid (by omega) hblock
  refine ⟨n, hvalid', ?_, hn⟩
  rw [hsize', hsize, List.length_append, List.length_singleton]
  omega

theorem begun_singleton {first : UInt8}
    (h : ∀ n, lead n = first.toNat ↔ size n = 1 + missing ∧ n / 64 ^ missing = bits) :
    Begun [first] bits missing := by
  refine ⟨List.cons_ne_nil first [], fun c => ?_⟩
  rw [head_encode_iff, h, utf8Size_eq, List.length_singleton]

theorem awaits_singleton {first low high : UInt8} (hbegun : Begun [first] bits (missing + 1))
    (hrange : ∀ byte : UInt8, low.toNat ≤ byte.toNat ∧ byte.toNat ≤ high.toNat ↔
      (0x80 ≤ byte.toNat ∧ byte.toNat ≤ 0xBF) ∧ ∃ n, n.isValidChar ∧ size n = 1 + 1 + missing ∧
        n / 64 ^ missing = bits * 64 + (byte.toNat - 0x80))
    (hne : low ≤ high) : Awaits [first] ⟨bits, missing + 1, low, high⟩ := by
  have hnext (byte : UInt8) : low ≤ byte ∧ byte ≤ high ↔ Begins ([first] ++ [byte]) := by
    rw [hbegun.range_iff, le_iff]
    exact hrange byte
  exact ⟨hbegun, Nat.succ_pos missing, ((hnext low).mp ⟨UInt8.le_refl low, hne⟩).of_append, hnext⟩

end LispReader.Text.Utf8
