import LispReader.Number.Fixed
import LispReader.Tree.Arena

namespace LispReader

def Leaf.describe : Leaf → String
  | identifier name => "Identifier: " ++ name
  | number value => "Number: " ++ value.fixed 6
  | integer value => "Integer: " ++ toString value.toInt
  | character value => "Character: " ++ String.singleton value
  | boolean value => "Boolean: " ++ if value then "t" else "nil"
  | string text => "String: " ++ text

def Delimiter.describe (delimiter : Delimiter) (parts : List String) : String :=
  let label := match delimiter with
    | .paren => "Program"
    | .bracket => "List"
  label ++ ": " ++ String.singleton delimiter.opener ++ " " ++ String.join (parts.map (· ++ " ")) ++
    String.singleton delimiter.closer

namespace Arena

/-- The text of a node with no more than `depth` nodes on any way down from it. The places below it
are visited from left to right, and the first one outside is the fault. -/
def describeWithin (arena : Arena) : Nat → NodeId → Except Fault String
  | 0, _ => .error .cyclic
  | depth + 1, id =>
      match arena.get? id with
      | none => .error (.outside id)
      | some (.leaf value _) => .ok value.describe
      | some (.scope delimiter children _) =>
          (children.mapM (describeWithin arena depth)).map delimiter.describe

/-- A way down that meets no node twice is no longer than the arena, and one more step may lead
outside. -/
def describe (arena : Arena) (id : NodeId) : Except Fault String :=
  arena.describeWithin (arena.size + 1) id

def describeProgram (arena : Arena) : Except Fault (List String) :=
  arena.program.mapM arena.describe

end Arena

end LispReader
