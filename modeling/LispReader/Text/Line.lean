namespace LispReader.Text

/-- The line behind the next `n` line breaks, up to its own break. Every break starts a line, also
one at the very end of the text. -/
def lineFrom? (text : List Char) : Nat → Option (List Char)
  | 0 => some (text.takeWhile (· ≠ '\n'))
  | n + 1 =>
      match text.dropWhile (· ≠ '\n') with
      | [] => none
      | _ :: rest => lineFrom? rest n

def withoutReturn (line : List Char) : List Char :=
  if line.getLast? = some '\r' then line.dropLast else line

def line? (text : List Char) : Nat → Option (List Char)
  | 0 => none
  | n + 1 => (lineFrom? text n).map withoutReturn

end LispReader.Text
