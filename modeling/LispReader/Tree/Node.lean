import LispReader.Number.Binary64
import LispReader.Token

namespace LispReader

abbrev NodeId := Nat

/-- A form without parts. The reader makes no booleans, which are for the constants of the
language. -/
inductive Leaf
  | identifier (name : String)
  | number (value : Number.Binary64)
  | integer (value : Int64)
  | character (value : Char)
  | boolean (value : Bool)
  | string (text : String)
  deriving DecidableEq

inductive Node
  | leaf (value : Leaf) (line : Nat)
  | scope (delimiter : Delimiter) (children : List NodeId) (line : Nat)
  deriving DecidableEq

namespace Leaf

def typeName : Leaf → String
  | identifier _ => "Identifier Statement"
  | number _ => "Number Statement"
  | integer _ => "Integer Statement"
  | character _ => "Character Statement"
  | boolean _ => "Boolean Statement"
  | string _ => "String Statement"

end Leaf

namespace Node

def typeName : Node → String
  | leaf value _ => value.typeName
  | scope .paren _ _ => "Program"
  | scope .bracket _ _ => "List Statement"

def line : Node → Nat
  | leaf _ line => line
  | scope _ _ line => line

def children : Node → List NodeId
  | leaf _ _ => []
  | scope _ children _ => children

end Node

end LispReader
