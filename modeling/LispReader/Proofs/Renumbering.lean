import LispReader.Proofs.Parsing
import LispReader.Tree.Describe

namespace LispReader

variable (f : Nat → Nat)

def Token.renumber (token : Token) : Token :=
  { token with line := f token.line }

def Diagnostic.renumber (diagnostic : Diagnostic) : Diagnostic :=
  { diagnostic with line := f diagnostic.line }

def Opener.renumber (opener : Opener) : Opener :=
  { opener with line := f opener.line }

def Node.renumber : Node → Node
  | leaf value line => leaf value (f line)
  | scope delimiter children line => scope delimiter children (f line)

def Arena.renumber (arena : Arena) : Arena :=
  { arena with nodes := arena.nodes.map (Node.renumber f) }

mutual

def Form.renumber : Form → Form
  | .leaf value line => .leaf value (f line)
  | .scope delimiter parts line => .scope delimiter (renumberAll parts) (f line)

def Form.renumberAll : List Form → List Form
  | [] => []
  | form :: forms => renumber form :: renumberAll forms

end

theorem Token.leaf?_renumber (token : Token) : (token.renumber f).leaf? = token.leaf? := rfl

theorem beforeEnd_renumber (tokens : List Token) :
    beforeEnd (tokens.map (Token.renumber f)) = (beforeEnd tokens).map (Token.renumber f) := by
  rw [beforeEnd, List.takeWhile_map]
  rfl

theorem Spells.renumber {levels : Nat} {tokens : List Token} {forms : List Form}
    (h : Spells levels tokens forms) :
    Spells levels (tokens.map (Token.renumber f)) (Form.renumberAll f forms) := by
  induction h with
  | nil => exact .nil
  | leaf hvalue _ ih =>
      rw [← Token.leaf?_renumber f] at hvalue
      exact .leaf hvalue ih
  | scope hopening _ hclosing _ ihparts ihrest =>
      simp only [List.map_cons, List.map_append]
      exact .scope hopening ihparts hclosing ihrest

namespace Scan

theorem step_renumber (opened : List Opener) (token : Token) :
    step (opened.map (Opener.renumber f)) (token.renumber f) =
      (step opened token).map (List.map (Opener.renumber f)) := by
  have hkind : (token.renumber f).kind = token.kind := rfl
  have hlexeme : (token.renumber f).lexeme = token.lexeme := rfl
  rw [step, step, hkind, hlexeme, List.length_map]
  cases token.kind with
  | opening delimiter =>
      by_cases hdepth : opened.length < maxDepth
      · simp only [if_pos hdepth]
        rfl
      · simp only [if_neg hdepth]
        rfl
  | closing delimiter =>
      cases opened with
      | nil => rfl
      | cons innermost outer =>
          have hinnermost : (innermost.renumber f).delimiter = innermost.delimiter := rfl
          simp only [List.map_cons, hinnermost]
          split <;> rfl
  | number | integer | character =>
      simp only
      split <;> rfl
  | string | identifier | endOfFile => rfl

theorem fault?_renumber (opened : List Opener) (tokens : List Token) :
    fault? (opened.map (Opener.renumber f)) (tokens.map (Token.renumber f)) =
      (fault? opened tokens).map (Prod.map id f) := by
  induction tokens generalizing opened with
  | nil => cases opened <;> rfl
  | cons token tokens ih =>
      have hstep := step_renumber f opened token
      rw [List.map_cons, fault?, hstep]
      cases hfound : step opened token with
      | ok after =>
          rw [fault?_of_ok tokens hfound]
          exact ih after
      | error cause =>
          rw [fault?_of_error tokens hfound]
          rfl

end Scan

namespace Arena

theorem push_renumber (node : Node) (arena : Arena) :
    (arena.renumber f).push (node.renumber f) =
      ((arena.push node).1, (arena.push node).2.renumber f) := by
  simp [push, renumber, size]

theorem placeAll_renumber (forms : List Form) (arena : Arena) :
    placeAll (Form.renumberAll f forms) (arena.renumber f) =
      ((placeAll forms arena).1, (placeAll forms arena).2.renumber f) := by
  induction forms using Form.sequence_induction generalizing arena with
  | nil => rfl
  | leaf value line forms ih =>
      have hpush := push_renumber f (.leaf value line) arena
      rw [Node.renumber] at hpush
      simp only [Form.renumberAll, Form.renumber, placeAll, place, hpush, ih]
  | scope delimiter parts line forms ihparts ihforms =>
      have hpush := push_renumber f (.scope delimiter (placeAll parts arena).1 line)
        (placeAll parts arena).2
      rw [Node.renumber] at hpush
      simp only [Form.renumberAll, Form.renumber, placeAll, place, ihparts, hpush, ihforms]

theorem ofForms_renumber (forms : List Form) :
    ofForms (Form.renumberAll f forms) = (ofForms forms).renumber f := by
  have hempty : empty.renumber f = empty := by simp [renumber, empty]
  have hplace := placeAll_renumber f forms empty
  rw [hempty] at hplace
  rw [ofForms, hplace]
  rfl

theorem get?_renumber (arena : Arena) (id : NodeId) :
    (arena.renumber f).get? id = (arena.get? id).map (Node.renumber f) :=
  Array.getElem?_map

theorem describeWithin_renumber (arena : Arena) (depth : Nat) :
    (arena.renumber f).describeWithin depth = arena.describeWithin depth := by
  induction depth with
  | zero =>
      funext id
      rfl
  | succ depth ih =>
      funext id
      rw [describeWithin, describeWithin, get?_renumber, ih]
      cases arena.get? id with
      | none => rfl
      | some node => cases node <;> rfl

theorem describe_renumber (arena : Arena) (id : NodeId) :
    (arena.renumber f).describe id = arena.describe id := by
  have hsize : (arena.renumber f).size = arena.size := Array.size_map
  rw [describe, describe, hsize, describeWithin_renumber]

end Arena

theorem parse_renumber (tokens : List Token) (file : String) :
    parse (tokens.map (Token.renumber f)) file =
      ((parse tokens file).map (Arena.renumber f)).mapError (Diagnostic.renumber f) := by
  rcases parse_outcome tokens file with ⟨forms, hspells, hparse⟩ | ⟨cause, line, hfault, hparse⟩
  · have hrenumbered := hspells.renumber f
    rw [← beforeEnd_renumber] at hrenumbered
    rw [parse_of_spells file hrenumbered, hparse, Arena.ofForms_renumber]
    rfl
  · have hrenumbered := Scan.fault?_renumber f [] (beforeEnd tokens)
    rw [hfault, ← beforeEnd_renumber] at hrenumbered
    rw [parse_of_fault file hrenumbered, hparse]
    rfl

end LispReader
