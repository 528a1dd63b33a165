namespace LispReader.Text.Utf8

def replacement : Char := '\uFFFD'

/-- A character whose first bytes have been read: their bits, the number of bytes still missing, and
the range in which the next one has to be. -/
structure Pending where
  bits : Nat
  missing : Nat
  low : UInt8
  high : UInt8
  deriving DecidableEq

structure Decoder where
  text : List Char
  pending : Option Pending
  deriving DecidableEq

namespace Decoder

def empty : Decoder := ⟨[], none⟩

def emit (c : Char) (decoder : Decoder) : Decoder :=
  ⟨c :: decoder.text, none⟩

def await (bits missing : Nat) (low high : UInt8) (decoder : Decoder) : Decoder :=
  { decoder with pending := some ⟨bits, missing, low, high⟩ }

/-- A byte between two characters. The ranges keep out what a shorter encoding has, surrogates and
all that lies beyond the last character. -/
def start (decoder : Decoder) (byte : UInt8) : Decoder :=
  let n := byte.toNat
  if n < 0x80 then decoder.emit (.ofNat n)
  else if n < 0xC2 then decoder.emit replacement
  else if n < 0xE0 then decoder.await (n - 0xC0) 1 0x80 0xBF
  else if n = 0xE0 then decoder.await 0 2 0xA0 0xBF
  else if n = 0xED then decoder.await 0xD 2 0x80 0x9F
  else if n < 0xF0 then decoder.await (n - 0xE0) 2 0x80 0xBF
  else if n = 0xF0 then decoder.await 0 3 0x90 0xBF
  else if n < 0xF4 then decoder.await (n - 0xF0) 3 0x80 0xBF
  else if n = 0xF4 then decoder.await 4 3 0x80 0x8F
  else decoder.emit replacement

def step (decoder : Decoder) (byte : UInt8) : Decoder :=
  match decoder.pending with
  | none => decoder.start byte
  | some pending =>
      if pending.low ≤ byte ∧ byte ≤ pending.high then
        let bits := pending.bits * 64 + (byte.toNat - 0x80)
        if pending.missing ≤ 1 then decoder.emit (.ofNat bits)
        else decoder.await bits (pending.missing - 1) 0x80 0xBF
      else
        (decoder.emit replacement).start byte

def close (decoder : Decoder) : List Char :=
  match decoder.pending with
  | none => decoder.text.reverse
  | some _ => (decoder.emit replacement).text.reverse

end Decoder

/-- The text that bytes encode. Each longest run of bytes that begins a character but does not
complete it, and each byte that begins none, is replaced by one character. -/
def decode (bytes : List UInt8) : List Char :=
  (bytes.foldl Decoder.step .empty).close

end LispReader.Text.Utf8
