namespace LispReader.Number

def splitSign : List Char → Bool × List Char
  | '-' :: rest => (true, rest)
  | '+' :: rest => (false, rest)
  | text => (false, text)

def ofDigits? (digits : List Char) : Option Nat :=
  if digits ≠ [] ∧ digits.all Char.isDigit then some (Nat.ofDigitChars 10 digits 0) else none

def withSign (negative : Bool) (size : Nat) : Int :=
  if negative then -size else size

def signed? (text : List Char) : Option Int :=
  (ofDigits? (splitSign text).2).map (withSign (splitSign text).1)

def integer? (text : List Char) : Option Int64 :=
  match signed? text with
  | some value =>
      if Int64.minValue.toInt ≤ value ∧ value ≤ Int64.maxValue.toInt then some (.ofInt value)
      else none
  | none => none

end LispReader.Number
