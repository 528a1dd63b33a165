import LispReader.Proofs.Parsing
import LispReader.Tree.Describe
import Mathlib.Data.List.Chain
import Mathlib.Logic.Relation

namespace LispReader

theorem mapM_cons_cases {α β ε : Type} {f : α → Except ε β} {x : α} {xs : List α} {ys : List β}
    (h : (x :: xs).mapM f = .ok ys) :
    ∃ y rest, f x = .ok y ∧ xs.mapM f = .ok rest ∧ ys = y :: rest := by
  rw [List.mapM_cons] at h
  cases hfirst : f x with
  | error fault =>
      rw [hfirst] at h
      contradiction
  | ok y =>
      rw [hfirst] at h
      cases hrest : xs.mapM f with
      | error fault =>
          rw [hrest] at h
          contradiction
      | ok rest =>
          rw [hrest] at h
          exact ⟨y, rest, rfl, rfl, (Except.ok.inj h).symm⟩

theorem mapM_eq_ok {α β ε : Type} {f : α → Except ε β} {xs : List α}
    (h : ∀ x ∈ xs, ∃ y, f x = .ok y) : ∃ ys, xs.mapM f = .ok ys := by
  induction xs with
  | nil => exact ⟨[], rfl⟩
  | cons x xs ih =>
      obtain ⟨y, hy⟩ := h x List.mem_cons_self
      obtain ⟨ys, hys⟩ := ih fun other hother => h other (List.mem_cons_of_mem x hother)
      exact ⟨y :: ys, by rw [List.mapM_cons, hy, hys]; rfl⟩

namespace Arena

variable {arena other : Arena} {first next id : Nat} {ids : List Nat} {node : Node}

/-- The trees under the places take up the nodes from `first` to before `next`, one tree after the
other, and each node stands right behind the trees under its children. -/
inductive Spans (arena : Arena) : Nat → Nat → List Nat → Prop
  | nil {first : Nat} : Spans arena first first []
  | cons {first id next : Nat} {node : Node} {ids : List Nat}
      (hnode : arena.get? id = some node) (hbelow : Spans arena first id node.children)
      (hrest : Spans arena (id + 1) next ids) : Spans arena first next (id :: ids)

def IsParent (arena : Arena) (parent child : NodeId) : Prop :=
  ∃ node, arena.get? parent = some node ∧ child ∈ node.children

def Reaches (arena : Arena) : NodeId → NodeId → Prop :=
  Relation.ReflTransGen arena.IsParent

/-- Scopes, each of which lies somewhere inside the one before. -/
structure IsNest (arena : Arena) (ids : List NodeId) : Prop where
  scopes : ∀ id ∈ ids, ∃ delimiter children line,
    arena.get? id = some (.scope delimiter children line)
  inside : ids.IsChain (Relation.TransGen arena.IsParent)

/-- All places that are referred to, as often as they are: those of the top-level forms and those
in the nodes. -/
def references (arena : Arena) : List NodeId :=
  arena.program ++ arena.nodes.toList.flatMap Node.children

/-- The nodes are laid out in post-order, and each of them belongs to one form only. -/
structure IsPostOrder (arena : Arena) : Prop where
  references_lt : ∀ id ∈ arena.references, id < arena.size
  child_lt : ∀ id node, arena.get? id = some node → ∀ child ∈ node.children, child < id
  children_increase : ∀ id node, arena.get? id = some node → node.children.Pairwise (· < ·)
  program_increases : arena.program.Pairwise (· < ·)
  referred_once : ∀ id < arena.size, arena.references.count id = 1
  contiguous : ∀ id < arena.size, ∃ first ≤ id,
    ∀ below : Nat, arena.Reaches id below ↔ first ≤ below ∧ below ≤ id
  last_top : ∀ id ∈ arena.program.getLast?, id + 1 = arena.size

theorem reaches_iff (hnode : arena.get? id = some node) (below : Nat) :
    arena.Reaches id below ↔ below = id ∨ ∃ child ∈ node.children, arena.Reaches child below := by
  constructor
  · intro h
    rcases Relation.ReflTransGen.cases_head h with rfl | ⟨child, ⟨parent, hparent, hchild⟩, hbelow⟩
    · exact .inl rfl
    · obtain rfl := Option.some.inj (hnode.symm.trans hparent)
      exact .inr ⟨child, hchild, hbelow⟩
  · rintro (rfl | ⟨child, hchild, hbelow⟩)
    · exact .refl
    · exact .head ⟨node, hnode, hchild⟩ hbelow

namespace Spans

theorem mono (h : arena.Spans first next ids) (hext : Extends arena other) :
    other.Spans first next ids := by
  induction h with
  | nil => exact .nil
  | cons hnode _ _ ihbelow ihrest => exact .cons (hext _ _ hnode) ihbelow ihrest

theorem le (h : arena.Spans first next ids) : first ≤ next := by
  induction h with
  | nil => exact le_rfl
  | cons => omega

theorem bounds (h : arena.Spans first next ids) : ∀ id ∈ ids, first ≤ id ∧ id < next := by
  induction h with
  | nil => simp
  | @cons first id next node ids hnode hbelow hrest _ ihrest =>
      have hbefore := hbelow.le
      have hbehind := hrest.le
      intro other hother
      rcases List.mem_cons.mp hother with rfl | hother
      · omega
      · have := ihrest other hother
        omega

theorem increase (h : arena.Spans first next ids) : ids.Pairwise (· < ·) := by
  induction h with
  | nil => exact .nil
  | cons _ _ hrest _ ihrest =>
      exact .cons (fun other hother => (hrest.bounds other hother).1) ihrest

theorem last (h : arena.Spans first next ids) : ∀ id ∈ ids.getLast?, id + 1 = next := by
  induction h with
  | nil => simp
  | @cons first id next node ids hnode hbelow hrest _ ihrest =>
      cases ids with
      | nil =>
          cases hrest
          simp
      | cons other ids =>
          rw [List.getLast?_cons_cons]
          exact ihrest

theorem at_place (h : arena.Spans first next ids) (hfirst : first ≤ id) (hnext : id < next) :
    ∃ start node, start ≤ id ∧ arena.get? id = some node ∧ arena.Spans start id node.children := by
  induction h with
  | nil => omega
  | @cons first root next node ids hnode hbelow hrest ihbelow ihrest =>
      rcases Nat.lt_trichotomy id root with hlt | rfl | hgt
      · exact ihbelow hfirst hlt
      · exact ⟨first, node, hfirst, hnode, hbelow⟩
      · exact ihrest hgt hnext

theorem reaches (h : arena.Spans first next ids) (below : Nat) :
    (∃ id ∈ ids, arena.Reaches id below) ↔ first ≤ below ∧ below < next := by
  induction h with
  | nil =>
      simp only [List.not_mem_nil, false_and, exists_false, false_iff]
      omega
  | @cons first id next node ids hnode hbelow hrest ihbelow ihrest =>
      have hbefore := hbelow.le
      have hbehind := hrest.le
      simp only [List.mem_cons, exists_eq_or_imp]
      rw [reaches_iff hnode, ihbelow, ihrest]
      omega

def childrenWithin (arena : Arena) (first next : Nat) : List NodeId :=
  (List.range' first (next - first)).flatMap fun id => (arena.get? id).elim [] Node.children

theorem childrenWithin_split (hnode : arena.get? id = some node) (hfirst : first ≤ id)
    (hnext : id < next) :
    childrenWithin arena first next =
      childrenWithin arena first id ++ (node.children ++ childrenWithin arena (id + 1) next) := by
  obtain ⟨before, rfl⟩ := Nat.exists_eq_add_of_le hfirst
  obtain ⟨behind, rfl⟩ := Nat.exists_eq_add_of_lt hnext
  have hall : first + before + behind + 1 - first = before + (behind + 1) := by omega
  have hbefore : first + before - first = before := by omega
  have hbehind : first + before + behind + 1 - (first + before + 1) = behind := by omega
  rw [childrenWithin, childrenWithin, childrenWithin, hall, hbefore, hbehind,
    ← List.range'_append_1, List.range'_succ, List.flatMap_append, List.flatMap_cons, hnode]
  rfl

theorem count_references (h : arena.Spans first next ids) (other : Nat) :
    (ids ++ childrenWithin arena first next).count other =
      if first ≤ other ∧ other < next then 1 else 0 := by
  induction h with
  | @nil first =>
      have hnone : ¬ (first ≤ other ∧ other < first) := by omega
      simp [childrenWithin, hnone]
  | @cons first id next node ids hnode hbelow hrest ihbelow ihrest =>
      have hbefore := hbelow.le
      have hbehind := hrest.le
      rw [childrenWithin_split hnode hbefore hbehind, List.cons_append, List.count_cons]
      simp only [List.count_append, beq_iff_eq] at ihbelow ihrest ⊢
      split at ihbelow <;> split at ihrest <;> split <;> split <;> omega

end Spans

theorem flatMap_children (arena : Arena) :
    arena.nodes.toList.flatMap Node.children = Spans.childrenWithin arena 0 arena.size := by
  have hall : (List.range' 0 arena.size).map arena.get? = arena.nodes.toList.map some := by
    apply List.ext_getElem?
    intro id
    by_cases hid : id < arena.nodes.size <;> simp [get?, size, hid]
  have hmap := congrArg (List.flatMap fun node? => node?.elim [] Node.children) hall
  rw [List.flatMap_map, List.flatMap_map] at hmap
  exact hmap.symm

theorem isPostOrder_of_spans (h : arena.Spans 0 arena.size arena.program) :
    arena.IsPostOrder := by
  have hcount (id : Nat) : arena.references.count id = if id < arena.size then 1 else 0 := by
    rw [references, flatMap_children, h.count_references]
    simp
  have hchildren (id : Nat) (node : Node) (hnode : arena.get? id = some node) :
      ∃ start ≤ id, arena.Spans start id node.children := by
    obtain ⟨start, node', hstart, hnode', hspans⟩ :=
      h.at_place (Nat.zero_le id) (lt_size_of_get? hnode)
    obtain rfl := Option.some.inj (hnode.symm.trans hnode')
    exact ⟨start, hstart, hspans⟩
  refine ⟨?_, ?_, ?_, h.increase, ?_, ?_, h.last⟩
  · intro id hid
    by_contra hlt
    have hpos := List.count_pos_iff.mpr hid
    rw [hcount, if_neg hlt] at hpos
    exact Nat.lt_irrefl 0 hpos
  · intro id node hnode child hchild
    obtain ⟨start, -, hspans⟩ := hchildren id node hnode
    exact (hspans.bounds child hchild).2
  · intro id node hnode
    obtain ⟨start, -, hspans⟩ := hchildren id node hnode
    exact hspans.increase
  · intro id hid
    rw [hcount, if_pos hid]
  · intro id hid
    obtain ⟨node, hnode⟩ := get?_of_lt_size hid
    obtain ⟨start, hstart, hspans⟩ := hchildren id node hnode
    refine ⟨start, hstart, fun below => ?_⟩
    rw [reaches_iff hnode, hspans.reaches]
    omega

theorem placeAll_spans (forms : List Form) (arena : Arena) :
    (placeAll forms arena).2.Spans arena.size (placeAll forms arena).2.size
      (placeAll forms arena).1 := by
  induction forms using Form.sequence_induction generalizing arena with
  | nil => exact .nil
  | leaf value line forms ih =>
      have hnode := get?_push_self arena (.leaf value line)
      have hrest := ih (arena.push (.leaf value line)).2
      rw [size_push] at hrest
      exact .cons (Extends.placeAll forms _ _ _ hnode) .nil hrest
  | scope delimiter parts line forms ihparts ihforms =>
      let node : Node := .scope delimiter (placeAll parts arena).1 line
      have hnode := get?_push_self (placeAll parts arena).2 node
      have hforms := Extends.placeAll forms ((placeAll parts arena).2.push node).2
      have hrest := ihforms ((placeAll parts arena).2.push node).2
      rw [size_push] at hrest
      exact .cons (hforms _ _ hnode)
        ((ihparts arena).mono ((Extends.push _ node).trans hforms)) hrest

theorem ofForms_spans (forms : List Form) :
    (ofForms forms).Spans 0 (ofForms forms).size (ofForms forms).program := by
  have hext : Extends (placeAll forms empty).2 (ofForms forms) := by
    intro id node h
    exact h
  exact (placeAll_spans forms empty).mono hext

theorem size_placeAll {levels : Nat} {tokens : List Token} {forms : List Form}
    (h : Spells levels tokens forms) (arena : Arena) :
    (placeAll forms arena).2.size =
      arena.size + tokens.countP fun token =>
        token.kind ≠ .closing .paren ∧ token.kind ≠ .closing .bracket := by
  induction h generalizing arena with
  | nil => rfl
  | @leaf levels token value tokens forms hvalue _ ih =>
      have hkind (delimiter : Delimiter) : token.kind ≠ .closing delimiter := by
        intro hkind
        simp [leaf?_of_closing hkind] at hvalue
      rw [placeAll, place, ih, size_push, List.countP_cons_of_pos (by simp [hkind])]
      omega
  | @scope levels delimiter opening closing inner tokens parts forms hopening _ hclosing _
        ihparts ihrest =>
      have hnot : ¬ (closing.kind ≠ .closing .paren ∧ closing.kind ≠ .closing .bracket) := by
        rw [hclosing]
        cases delimiter <;> simp
      rw [placeAll, place, ihrest, size_push, ihparts, List.countP_cons_of_pos (by simp [hopening]),
        List.countP_append, List.countP_cons_of_neg (by simpa using hnot)]
      omega

theorem describeWithin_eq_ok (hbelow : ∀ id node, arena.get? id = some node →
    ∀ child ∈ node.children, child < id) (depth : Nat) (hid : id < arena.size)
    (hdepth : id < depth) :
    ∃ text, arena.describeWithin depth id = .ok text := by
  induction depth generalizing id with
  | zero => omega
  | succ depth ih =>
      obtain ⟨node, hnode⟩ := get?_of_lt_size hid
      cases node with
      | leaf value line => exact ⟨value.describe, by rw [describeWithin, hnode]⟩
      | scope delimiter children line =>
          obtain ⟨texts, htexts⟩ :
              ∃ texts, children.mapM (arena.describeWithin depth) = .ok texts := by
            apply mapM_eq_ok
            intro child hchild
            have hlt : child < id := hbelow id _ hnode child hchild
            exact ih (Nat.lt_trans hlt hid) (Nat.lt_of_lt_of_le hlt (Nat.le_of_lt_succ hdepth))
          exact ⟨delimiter.describe texts, by simp only [describeWithin, hnode, htexts]; rfl⟩

theorem IsNest.below {outermost inner : Nat} {chain : List Nat}
    (h : arena.IsNest (outermost :: inner :: chain)) (hnode : arena.get? outermost = some node) :
    (∃ child ∈ node.children, arena.Reaches child inner) ∧ arena.IsNest (inner :: chain) := by
  obtain ⟨hinside, hchain⟩ := List.isChain_cons_cons.mp h.inside
  obtain ⟨child, ⟨parent, hparent, hchild⟩, hbelow⟩ := Relation.TransGen.head'_iff.mp hinside
  obtain rfl := Option.some.inj (hnode.symm.trans hparent)
  exact ⟨⟨child, hchild, hbelow⟩, fun id hid => h.scopes id (List.mem_cons_of_mem _ hid), hchain⟩

theorem Unfolds.length_le_of_isNest {levels : Nat} {tokens : List Token} {forms : List Form}
    (hspells : Spells levels tokens forms) (h : arena.Unfolds ids forms) (hid : id ∈ ids)
    {outermost : Nat} {chain : List Nat} (hreach : arena.Reaches id outermost)
    (hnest : arena.IsNest (outermost :: chain)) : (outermost :: chain).length ≤ levels := by
  induction hspells generalizing ids id outermost chain with
  | nil =>
      cases h
      contradiction
  | leaf _ _ ih =>
      cases h with
      | leaf hnode hrest =>
          rcases List.mem_cons.mp hid with rfl | hid
          · rw [reaches_iff hnode] at hreach
            obtain rfl : outermost = id := by simpa [Node.children] using hreach
            obtain ⟨_, _, _, hscope⟩ := hnest.scopes outermost List.mem_cons_self
            simp [hnode] at hscope
          · exact ih hrest hid hreach hnest
  | scope _ _ _ _ ihparts ihrest =>
      cases h with
      | scope hnode hparts hrest =>
          rcases List.mem_cons.mp hid with rfl | hid
          · rw [reaches_iff hnode] at hreach
            rcases hreach with rfl | ⟨child, hchild, hbelow⟩
            · cases chain with
              | nil => simp
              | cons inner chain =>
                  obtain ⟨⟨child, hchild, hbelow⟩, hinner⟩ := hnest.below hnode
                  exact Nat.succ_le_succ (ihparts hparts hchild hbelow hinner)
            · exact Nat.le_succ_of_le (ihparts hparts hchild hbelow hnest)
          · exact ihrest hrest hid hreach hnest

end Arena

/-- What is read lies in the arena in post-order, with a node for each token that is no closing
delimiter. Each of its places can be described, and no more scopes lie inside each other than
may. -/
theorem parse_lays_out_post_order {tokens : List Token} {file : String} {tree : Arena}
    (h : parse tokens file = .ok tree) :
    (∃ forms, Spells maxDepth (beforeEnd tokens) forms ∧ tree = .ofForms forms) ∧
    (tree.size = (beforeEnd tokens).countP fun token =>
      token.kind ≠ .closing .paren ∧ token.kind ≠ .closing .bracket) ∧
    tree.IsPostOrder ∧
    (∀ id < tree.size, ∃ text, tree.describe id = .ok text) ∧
    (∃ nodes, tree.topLevel = .ok nodes) ∧
    ∀ chain, tree.IsNest chain → chain.length ≤ maxDepth := by
  obtain ⟨forms, hspells, rfl⟩ := spells_of_parse h
  have hspans := Arena.ofForms_spans forms
  have hpost := Arena.isPostOrder_of_spans hspans
  refine ⟨⟨forms, hspells, rfl⟩, ?_, hpost, ?_, ?_, ?_⟩
  · have hsize := Arena.size_placeAll hspells .empty
    rwa [Arena.size_empty, Nat.zero_add] at hsize
  · intro id hid
    exact Arena.describeWithin_eq_ok hpost.child_lt _ hid (Nat.lt_succ_of_lt hid)
  · apply mapM_eq_ok
    intro id hid
    obtain ⟨node, hnode⟩ := Arena.get?_of_lt_size (hspans.bounds id hid).2
    exact ⟨node, by rw [Arena.node, hnode]⟩
  · intro chain hnest
    cases chain with
    | nil => exact Nat.zero_le _
    | cons outermost chain =>
        obtain ⟨_, _, _, hscope⟩ := hnest.scopes outermost List.mem_cons_self
        obtain ⟨top, htop, hreach⟩ := (hspans.reaches outermost).mpr
          ⟨Nat.zero_le _, Arena.lt_size_of_get? hscope⟩
        exact (Arena.ofForms_unfolds forms).length_le_of_isNest hspells htop hreach hnest

def nestedTokens : List Token :=
  [⟨.opening .paren, "(", 1⟩, ⟨.opening .paren, "(", 1⟩, ⟨.identifier, "x", 1⟩,
    ⟨.closing .paren, ")", 1⟩, ⟨.opening .bracket, "[", 2⟩, ⟨.identifier, "y", 2⟩,
    ⟨.opening .paren, "(", 3⟩, ⟨.identifier, "z", 3⟩, ⟨.closing .paren, ")", 3⟩,
    ⟨.closing .bracket, "]", 3⟩, ⟨.closing .paren, ")", 4⟩, ⟨.endOfFile, "EOF", 4⟩,
    ⟨.closing .paren, ")", 4⟩]

def nestedTree : Arena where
  nodes := #[.leaf (.identifier "x") 1, .scope .paren [0] 1, .leaf (.identifier "y") 2,
    .leaf (.identifier "z") 3, .scope .paren [3] 3, .scope .bracket [2, 4] 2,
    .scope .paren [1, 5] 1]
  program := [6]

theorem parse_nestedTokens :
    parse nestedTokens "" = .ok nestedTree ∧ nestedTree.IsPostOrder ∧
      ∀ chain, nestedTree.IsNest chain → chain.length ≤ maxDepth := by
  have h : parse nestedTokens "" = .ok nestedTree := by decide +kernel
  obtain ⟨_, _, hpost, _, _, hnest⟩ := parse_lays_out_post_order h
  exact ⟨h, hpost, hnest⟩

end LispReader
