import LispReader.Number.Binary64
import LispReader.Number.Digits

namespace LispReader.Number

structure Decimal where
  negative : Bool
  whole : List Char
  fraction : List Char
  exponent : Int

namespace Decimal

def exponent? : List Char → Option Int
  | [] => some 0
  | mark :: text => if mark = 'e' ∨ mark = 'E' then signed? text else none

def splitFraction : List Char → List Char × List Char
  | '.' :: rest => (rest.takeWhile Char.isDigit, rest.dropWhile Char.isDigit)
  | text => ([], text)

/-- Reads a sign, digits with a point before, between or after them, and an exponent. The sign, the
point and the exponent may be left out. The names of what is no finite number are not read. -/
def ofText? (text : List Char) : Option Decimal :=
  let unsigned := (splitSign text).2
  let whole := unsigned.takeWhile Char.isDigit
  let (fraction, rest) := splitFraction (unsigned.dropWhile Char.isDigit)
  if whole ++ fraction = [] then none
  else (exponent? rest).map (⟨(splitSign text).1, whole, fraction, ·⟩)

def digits (decimal : Decimal) : List Char :=
  decimal.whole ++ decimal.fraction

/-- An exponent this far beyond the digits leads out of the range of finite numbers on either side,
and so does any greater one. -/
def limit (decimal : Decimal) : Int :=
  decimal.digits.length + 400

def scale (decimal : Decimal) : Int :=
  max (-decimal.limit) (min decimal.limit decimal.exponent) - decimal.fraction.length

def toBinary64 (decimal : Decimal) : Binary64 :=
  .ofQuotient decimal.negative
    (Nat.ofDigitChars 10 decimal.digits 0 * Nat.pow 10 decimal.scale.toNat)
    (Nat.pow 10 (-decimal.scale).toNat)

end Decimal

def finite? (text : List Char) : Option Binary64 :=
  match Decimal.ofText? text with
  | some decimal => if decimal.toBinary64.isFinite then some decimal.toBinary64 else none
  | none => none

end LispReader.Number
