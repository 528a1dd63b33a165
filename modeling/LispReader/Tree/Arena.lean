import LispReader.Tree.Node

namespace LispReader

structure Arena where
  nodes : Array Node
  program : List NodeId
  deriving DecidableEq

namespace Arena

def empty : Arena := ⟨#[], []⟩

def size (arena : Arena) : Nat :=
  arena.nodes.size

def isEmpty (arena : Arena) : Bool :=
  arena.nodes.isEmpty

def get? (arena : Arena) (id : NodeId) : Option Node :=
  arena.nodes[id]?

def push (node : Node) (arena : Arena) : NodeId × Arena :=
  (arena.size, { arena with nodes := arena.nodes.push node })

@[simp]
theorem size_empty : empty.size = 0 := rfl

@[simp]
theorem size_push (arena : Arena) (node : Node) : (arena.push node).2.size = arena.size + 1 := by
  simp [push, size]

theorem lt_size_of_get? {arena : Arena} {id : NodeId} {node : Node}
    (hnode : arena.get? id = some node) : id < arena.size :=
  (Array.getElem?_eq_some_iff.mp hnode).1

theorem get?_of_lt_size {arena : Arena} {id : NodeId} (hid : id < arena.size) :
    ∃ node, arena.get? id = some node := by
  have hnodes : id < arena.nodes.size := hid
  exact ⟨arena.nodes[id], Array.getElem?_eq_getElem hnodes⟩

@[simp]
theorem get?_push_self (arena : Arena) (node : Node) :
    (arena.push node).2.get? (arena.push node).1 = some node := by
  simp [push, get?, size]

theorem get?_push_of_lt (arena : Arena) (node : Node) (id : NodeId) (hid : id < arena.size) :
    (arena.push node).2.get? id = arena.get? id := by
  simp [push, get?, size] at hid ⊢
  rw [Array.getElem?_push_lt hid, Array.getElem?_eq_getElem hid]

def addTop (id : NodeId) (arena : Arena) : Arena :=
  { arena with program := arena.program ++ [id] }

inductive Fault
  | outside (id : NodeId)
  | cyclic
  deriving DecidableEq

def node (arena : Arena) (id : NodeId) : Except Fault Node :=
  match arena.get? id with
  | some node => .ok node
  | none => .error (.outside id)

def topLevel (arena : Arena) : Except Fault (List Node) :=
  arena.program.mapM arena.node

end Arena

end LispReader
