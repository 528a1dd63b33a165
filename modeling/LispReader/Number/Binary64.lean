import LispReader.Number.Rounding

namespace LispReader.Number

/-- A binary floating-point number of 64 bits: the sign bit and the other 63, eleven of the exponent
above 52 of the fraction. Among numbers of one sign the magnitude orders as the value does. -/
structure Binary64 where
  negative : Bool
  magnitude : Nat
  magnitude_lt : magnitude < 1 <<< 63
  deriving DecidableEq

namespace Binary64

def toBits (x : Binary64) : Nat :=
  (if x.negative then 1 <<< 63 else 0) + x.magnitude

def ofBits (bits : Nat) : Binary64 where
  negative := 1 <<< 63 ≤ bits
  magnitude := bits % 1 <<< 63
  magnitude_lt := Nat.mod_lt _ (by decide)

def infinite : Nat := 2047 <<< 52

def isFinite (x : Binary64) : Bool :=
  x.magnitude < infinite

/-- The size of a finite number in units of `2 ^ -1074`, the smallest positive one. -/
def units (x : Binary64) : Nat :=
  let exponent := x.magnitude / 1 <<< 52
  let fraction := x.magnitude % 1 <<< 52
  if exponent = 0 then fraction else (1 <<< 52 + fraction) <<< (exponent - 1)

/-- The magnitude nearest to `num / den`. In the smallest units the quotient has some bits more than
the 53 that a significand holds; these are rounded off, with a half to the even significand. Their
count is the exponent less one, and adding the significand to it carries into the exponent where
the leading bit is set. -/
def nearest (num den : Nat) : Nat :=
  let scaled := num <<< 1074
  let spare := (scaled / den).log2 - 52
  min (spare <<< 52 + roundDiv scaled (den <<< spare)) infinite

def ofQuotient (negative : Bool) (num den : Nat) : Binary64 where
  negative := negative
  magnitude := nearest num den
  magnitude_lt := Nat.lt_of_le_of_lt (Nat.min_le_right _ _) (by decide)

end Binary64

end LispReader.Number
