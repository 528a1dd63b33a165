import LispReader.Number.Binary64

namespace LispReader.Number.Binary64

def pointed (places n : Nat) : List Char :=
  Nat.toDigits 10 (n / Nat.pow 10 places) ++ '.' ::
    List.leftpad places '0' (Nat.toDigits 10 (n % Nat.pow 10 places))

/-- A number with a fixed count of decimal places. The exact value is rounded, a half to the even
digit, and a number that rounds to zero keeps its sign. -/
def fixed (places : Nat) (x : Binary64) : String :=
  if infinite < x.magnitude then "NaN"
  else
    (if x.negative then "-" else "") ++
      if x.magnitude = infinite then "inf"
      else String.ofList (pointed places (roundDiv (x.units * Nat.pow 10 places) (1 <<< 1074)))

end LispReader.Number.Binary64
