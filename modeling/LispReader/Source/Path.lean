namespace LispReader.Path

def segmentsFrom (part : List Char) : List Char → List String
  | [] => [String.ofList part.reverse]
  | c :: rest =>
      if c = '/' then String.ofList part.reverse :: segmentsFrom [] rest
      else segmentsFrom (c :: part) rest

def segments (path : String) : List String :=
  segmentsFrom [] path.toList

def maxBytes : Nat := 4096

def maxNameBytes : Nat := 255

def isPath (path : String) : Bool :=
  path.utf8ByteSize < maxBytes && !path.toList.contains '\x00' &&
    (segments path).all (·.utf8ByteSize ≤ maxNameBytes)

def names (path : String) : List String :=
  ((segments path).filter fun part => part ≠ "" ∧ part ≠ ".").reverse

def fileName (path : String) : String :=
  (segments path).getLast?.getD path

/-- What follows the last dot of a name. A dot at the start hides the file and begins no
extension. -/
def extension? (name : String) : Option String :=
  let reversed := name.toList.reverse
  match reversed.dropWhile (· ≠ '.') with
  | [] => none
  | [_] => none
  | _ => some (String.ofList (reversed.takeWhile (· ≠ '.')).reverse)

end LispReader.Path
