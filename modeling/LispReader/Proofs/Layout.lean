import LispReader.Proofs.Grammar

namespace LispReader

/-- Induction over sequences of forms, with the parts of a scope as a sequence of their own. -/
@[elab_as_elim]
theorem Form.sequence_induction {motive : List Form → Prop} (nil : motive [])
    (leaf : ∀ value line forms, motive forms → motive (.leaf value line :: forms))
    (scope : ∀ delimiter parts line forms, motive parts → motive forms →
      motive (.scope delimiter parts line :: forms)) :
    ∀ forms, motive forms
  | [] => nil
  | .leaf value line :: forms => leaf value line forms (sequence_induction nil leaf scope forms)
  | .scope delimiter parts line :: forms =>
      scope delimiter parts line forms (sequence_induction nil leaf scope parts)
        (sequence_induction nil leaf scope forms)

namespace Arena

/-- What the places stand for: the node at each one is the head of its form, and its children stand
for the form's parts. -/
inductive Unfolds (arena : Arena) : List NodeId → List Form → Prop
  | nil : Unfolds arena [] []
  | leaf {id : NodeId} {value : Leaf} {line : Nat} {ids : List NodeId} {forms : List Form}
      (hnode : arena.get? id = some (.leaf value line)) (hrest : Unfolds arena ids forms) :
      Unfolds arena (id :: ids) (.leaf value line :: forms)
  | scope {id : NodeId} {delimiter : Delimiter} {children ids : List NodeId}
      {parts forms : List Form} {line : Nat}
      (hnode : arena.get? id = some (.scope delimiter children line))
      (hparts : Unfolds arena children parts) (hrest : Unfolds arena ids forms) :
      Unfolds arena (id :: ids) (.scope delimiter parts line :: forms)

mutual

def place : Form → Arena → NodeId × Arena
  | .leaf value line, arena => arena.push (.leaf value line)
  | .scope delimiter parts line, arena =>
      (placeAll parts arena).2.push (.scope delimiter (placeAll parts arena).1 line)

def placeAll : List Form → Arena → List NodeId × Arena
  | [], arena => ([], arena)
  | form :: forms, arena =>
      ((place form arena).1 :: (placeAll forms (place form arena).2).1,
        (placeAll forms (place form arena).2).2)

end

def ofForms (forms : List Form) : Arena :=
  { (placeAll forms empty).2 with program := (placeAll forms empty).1 }

def Extends (arena other : Arena) : Prop :=
  ∀ id node, arena.get? id = some node → other.get? id = some node

namespace Extends

theorem refl (arena : Arena) : Extends arena arena := by
  intro id node h
  exact h

theorem trans {a b c : Arena} (hab : Extends a b) (hbc : Extends b c) : Extends a c := by
  intro id node h
  exact hbc id node (hab id node h)

theorem push (arena : Arena) (node : Node) : Extends arena (arena.push node).2 := by
  intro id old h
  have hid : id < arena.size := (Array.getElem?_eq_some_iff.mp h).1
  rw [get?_push_of_lt arena node id hid]
  exact h

theorem placeAll (forms : List Form) (arena : Arena) :
    Extends arena (placeAll forms arena).2 := by
  induction forms using Form.sequence_induction generalizing arena with
  | nil => exact refl arena
  | leaf value line forms ih => exact (push arena _).trans (ih _)
  | scope delimiter parts line forms ihparts ihforms =>
      exact ((ihparts arena).trans (push _ _)).trans (ihforms _)

end Extends

namespace Unfolds

theorem mono {arena other : Arena} {ids : List NodeId} {forms : List Form}
    (h : arena.Unfolds ids forms) (hext : Extends arena other) : other.Unfolds ids forms := by
  induction h with
  | nil => exact .nil
  | leaf hnode _ ih => exact .leaf (hext _ _ hnode) ih
  | scope hnode _ _ ihparts ihrest => exact .scope (hext _ _ hnode) ihparts ihrest

theorem unique {arena : Arena} {ids : List NodeId} {forms forms' : List Form}
    (h : arena.Unfolds ids forms) (h' : arena.Unfolds ids forms') : forms = forms' := by
  induction h generalizing forms' with
  | nil =>
      cases h'
      rfl
  | leaf hnode _ ih =>
      cases h' with
      | leaf hnode' hrest' =>
          obtain ⟨rfl, rfl⟩ := Node.leaf.inj (Option.some.inj (hnode.symm.trans hnode'))
          rw [ih hrest']
      | scope hnode' _ _ => simp [hnode] at hnode'
  | scope hnode _ _ ihparts ihrest =>
      cases h' with
      | leaf hnode' _ => simp [hnode] at hnode'
      | scope hnode' hparts' hrest' =>
          obtain ⟨rfl, rfl, rfl⟩ := Node.scope.inj (Option.some.inj (hnode.symm.trans hnode'))
          rw [ihparts hparts', ihrest hrest']

end Unfolds

theorem placeAll_unfolds (forms : List Form) (arena : Arena) :
    (placeAll forms arena).2.Unfolds (placeAll forms arena).1 forms := by
  induction forms using Form.sequence_induction generalizing arena with
  | nil => exact .nil
  | leaf value line forms ih =>
      have hnode := get?_push_self arena (.leaf value line)
      exact .leaf (Extends.placeAll forms _ _ _ hnode) (ih _)
  | scope delimiter parts line forms ihparts ihforms =>
      have hnode := get?_push_self (placeAll parts arena).2
        (.scope delimiter (placeAll parts arena).1 line)
      have hext := Extends.push (placeAll parts arena).2
        (.scope delimiter (placeAll parts arena).1 line)
      have hforms := Extends.placeAll forms ((placeAll parts arena).2.push
        (.scope delimiter (placeAll parts arena).1 line)).2
      exact .scope (hforms _ _ hnode) ((ihparts arena).mono (hext.trans hforms)) (ihforms _)

theorem ofForms_unfolds (forms : List Form) :
    (ofForms forms).Unfolds (ofForms forms).program forms := by
  have hext : Extends (placeAll forms empty).2 (ofForms forms) := by
    intro id node h
    exact h
  exact (placeAll_unfolds forms empty).mono hext

@[simp]
theorem placeAll_append (forms more : List Form) (arena : Arena) :
    placeAll (forms ++ more) arena =
      ((placeAll forms arena).1 ++ (placeAll more (placeAll forms arena).2).1,
        (placeAll more (placeAll forms arena).2).2) := by
  induction forms generalizing arena with
  | nil => rfl
  | cons form forms ih => simp only [List.cons_append, placeAll, ih]

end Arena

end LispReader
