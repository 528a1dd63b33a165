import LispReader.Proofs.PostOrder
import LispReader.Proofs.Renumbering
import Mathlib.Data.List.Perm.Subperm

namespace LispReader

namespace Form

mutual

def text : Form → String
  | .leaf (.identifier name) _ => "Identifier: " ++ name
  | .leaf (.number value) _ => "Number: " ++ value.fixed 6
  | .leaf (.integer value) _ => "Integer: " ++ toString value.toInt
  | .leaf (.character value) _ => "Character: " ++ String.singleton value
  | .leaf (.boolean true) _ => "Boolean: t"
  | .leaf (.boolean false) _ => "Boolean: nil"
  | .leaf (.string text) _ => "String: " ++ text
  | .scope .paren parts _ => "Program: ( " ++ textAll parts ++ ")"
  | .scope .bracket parts _ => "List: [ " ++ textAll parts ++ "]"

def textAll : List Form → String
  | [] => ""
  | form :: forms => text form ++ " " ++ textAll forms

end

@[simp]
theorem text_leaf (value : Leaf) (line : Nat) : text (.leaf value line) = value.describe := by
  cases value with
  | boolean value => cases value <;> rfl
  | identifier | number | integer | character | string => rfl

theorem textAll_eq (forms : List Form) :
    textAll forms = String.join ((forms.map text).map (· ++ " ")) := by
  induction forms with
  | nil => rfl
  | cons form forms ih => rw [textAll, ih, List.map_cons, List.map_cons, String.join_cons]

@[simp]
theorem text_scope (delimiter : Delimiter) (parts : List Form) (line : Nat) :
    text (.scope delimiter parts line) = delimiter.describe (parts.map text) := by
  cases delimiter <;> rw [text, textAll_eq] <;> rfl

theorem map_text_renumber (f : Nat → Nat) (forms : List Form) :
    (renumberAll f forms).map text = forms.map text := by
  induction forms using sequence_induction with
  | nil => rfl
  | leaf value line forms ih =>
      rw [renumberAll, List.map_cons, ih, renumber, List.map_cons, text_leaf, text_leaf]
  | scope delimiter parts line forms ihparts ihforms =>
      rw [renumberAll, renumber, List.map_cons, List.map_cons, text_scope, text_scope, ihparts,
        ihforms]

theorem text_renumber (f : Nat → Nat) (form : Form) : (renumber f form).text = form.text :=
  (List.cons.inj (map_text_renumber f [form])).1

end Form

theorem mapM_mono {α β ε : Type} {f g : α → Except ε β} {xs : List α} {ys : List β}
    (h : ∀ x ∈ xs, ∀ y, f x = .ok y → g x = .ok y) (hf : xs.mapM f = .ok ys) :
    xs.mapM g = .ok ys := by
  induction xs generalizing ys with
  | nil => exact hf
  | cons x xs ih =>
      obtain ⟨hx, hxs⟩ := List.forall_mem_cons.mp h
      obtain ⟨y, rest, hy, hrest, rfl⟩ := mapM_cons_cases hf
      rw [List.mapM_cons, hx y hy, ih hxs hrest]
      rfl

namespace Arena

variable {arena other : Arena} {id : NodeId} {ids more visited : List NodeId}

def Acyclic (arena : Arena) : Prop :=
  ∀ id, ¬ Relation.TransGen arena.IsParent id id

/-- The places that are met on the way through the nodes at some places and all that lies below
them, in depth and from left to right. A place outside of the arena is met as well. -/
inductive Visits (arena : Arena) : List NodeId → List NodeId → Prop
  | nil : Visits arena [] []
  | outside {id : NodeId} {ids visited : List NodeId} (hnone : arena.get? id = none)
      (hrest : Visits arena ids visited) : Visits arena (id :: ids) (id :: visited)
  | node {id : NodeId} {node : Node} {ids below visited : List NodeId}
      (hnode : arena.get? id = some node) (hbelow : Visits arena node.children below)
      (hrest : Visits arena ids visited) : Visits arena (id :: ids) (id :: (below ++ visited))

def pushEach (nodes : List Node) (arena : Arena) : Arena :=
  nodes.foldl (fun arena node => (arena.push node).2) arena

/-- What the texts of the nodes at some places come to where these places are visited: the texts of
the forms that they stand for if no visited place is outside, and else the first one that is. -/
def Shows (arena : Arena) (ids visited : List NodeId) : Except Fault (List String) → Prop
  | .ok texts => (∀ place ∈ visited, place < arena.size) ∧
      ∃ forms, arena.Unfolds ids forms ∧ texts = forms.map Form.text
  | .error fault => ∃ place, visited.find? (arena.size ≤ ·) = some place ∧ fault = .outside place

theorem acyclic_of_rank (rank : NodeId → ℕ) (hrank : ∀ id node, arena.get? id = some node →
    ∀ child ∈ node.children, rank child < rank id) : arena.Acyclic := by
  have hbelow {id below : NodeId} (h : Relation.TransGen arena.IsParent id below) :
      rank below < rank id := by
    induction h with
    | single hparent =>
        obtain ⟨node, hnode, hchild⟩ := hparent
        exact hrank id node hnode _ hchild
    | tail _ hparent ih =>
        obtain ⟨node, hnode, hchild⟩ := hparent
        exact (hrank _ node hnode _ hchild).trans ih
  exact fun id hcycle => Nat.lt_irrefl _ (hbelow hcycle)

theorem IsPostOrder.acyclic (h : arena.IsPostOrder) : arena.Acyclic :=
  acyclic_of_rank (fun id => id) h.child_lt

theorem size_le_of_get? (hnone : arena.get? id = none) : arena.size ≤ id :=
  Array.getElem?_eq_none_iff.mp hnone

/-- Without a cycle each way down comes to an end within as many steps as there are nodes, and one
more may lead outside. -/
theorem Acyclic.induction {motive : ℕ → NodeId → Prop} (hacyclic : arena.Acyclic)
    (outside : ∀ depth id, arena.get? id = none → motive (depth + 1) id)
    (node : ∀ depth id node, arena.get? id = some node →
      (∀ child ∈ node.children, motive depth child) → motive (depth + 1) id)
    (id : NodeId) : motive (arena.size + 1) id := by
  -- the nodes above are different ones, so that their count is bounded
  have hall (depth : ℕ) : ∀ (above : List NodeId) (id : NodeId), above.Nodup →
      (∀ place ∈ above, place < arena.size ∧ Relation.TransGen arena.IsParent place id) →
      arena.size < above.length + depth → motive depth id := by
    induction depth with
    | zero =>
        intro above id hnodup habove hlength
        have hsubset : above ⊆ List.range arena.size := fun place hplace =>
          List.mem_range.mpr (habove place hplace).1
        have hle := (List.subperm_of_subset hnodup hsubset).length_le
        rw [List.length_range] at hle
        omega
    | succ depth ih =>
        intro above id hnodup habove hlength
        cases hget : arena.get? id with
        | none => exact outside depth id hget
        | some found =>
            refine node depth id found hget fun child hchild => ?_
            have hparent : arena.IsParent id child := ⟨found, hget, hchild⟩
            apply ih (id :: above)
            · exact List.nodup_cons.mpr ⟨fun hid => hacyclic id (habove id hid).2, hnodup⟩
            · intro place hplace
              rcases List.mem_cons.mp hplace with rfl | hplace
              · exact ⟨lt_size_of_get? hget, .single hparent⟩
              · exact ⟨(habove place hplace).1, .tail (habove place hplace).2 hparent⟩
            · rw [List.length_cons]
              omega
  exact hall (arena.size + 1) [] id List.nodup_nil (by simp) (by simp)

namespace Visits

theorem append {others : List NodeId} (h : arena.Visits ids visited)
    (hmore : arena.Visits more others) : arena.Visits (ids ++ more) (visited ++ others) := by
  induction h with
  | nil => exact hmore
  | outside hnone _ ih => exact .outside hnone ih
  | node hnode hbelow _ _ ih =>
      rw [List.cons_append, List.cons_append, List.append_assoc]
      exact .node hnode hbelow ih

theorem mem_iff (h : arena.Visits ids visited) (place : NodeId) :
    place ∈ visited ↔ ∃ id ∈ ids, arena.Reaches id place := by
  induction h with
  | nil => simp
  | @outside id ids visited hnone _ ih =>
      have hself : arena.Reaches id place ↔ place = id := by
        constructor
        · intro hreach
          rcases Relation.ReflTransGen.cases_head hreach with rfl | ⟨child, ⟨node, hnode, -⟩, -⟩
          · rfl
          · simp [hnone] at hnode
        · rintro rfl
          exact .refl
      simp only [List.mem_cons, exists_eq_or_imp, hself, ih]
  | node hnode _ _ ihbelow ihrest =>
      simp only [List.mem_cons, List.mem_append, exists_eq_or_imp, reaches_iff hnode, ihbelow,
        ihrest, or_assoc]

end Visits

theorem Unfolds.append {forms forms' : List Form} (h : arena.Unfolds ids forms)
    (hmore : arena.Unfolds more forms') : arena.Unfolds (ids ++ more) (forms ++ forms') := by
  induction h with
  | nil => exact hmore
  | leaf hnode _ ih => exact .leaf hnode ih
  | scope hnode hparts _ _ ih => exact .scope hnode hparts ih

namespace Shows

theorem find?_eq_none (hinside : ∀ place ∈ visited, place < arena.size) :
    visited.find? (arena.size ≤ ·) = none :=
  List.find?_eq_none.mpr fun place hplace => by simpa using hinside place hplace

theorem append {others : List NodeId} {texts texts' : Except Fault (List String)}
    (h : arena.Shows ids visited texts) (hmore : arena.Shows more others texts') :
    arena.Shows (ids ++ more) (visited ++ others)
      (texts.bind fun before => texts'.map fun behind => before ++ behind) := by
  cases texts with
  | error fault =>
      obtain ⟨place, hfirst, hfault⟩ := h
      refine ⟨place, ?_, hfault⟩
      rw [List.find?_append, hfirst, Option.some_or]
  | ok texts =>
      obtain ⟨hinside, forms, hforms, htexts⟩ := h
      cases texts' with
      | error fault =>
          obtain ⟨place, hfirst, hfault⟩ := hmore
          refine ⟨place, ?_, hfault⟩
          rw [List.find?_append, find?_eq_none hinside, Option.none_or, hfirst]
      | ok texts' =>
          obtain ⟨hothers, forms', hforms', htexts'⟩ := hmore
          refine ⟨List.forall_mem_append.mpr ⟨hinside, hothers⟩, _, hforms.append hforms', ?_⟩
          rw [htexts, htexts', List.map_append]

theorem mapM {describe : NodeId → Except Fault String}
    (h : ∀ id ∈ ids, ∃ visited, arena.Visits [id] visited ∧
      arena.Shows [id] visited ((describe id).map ([·]))) :
    ∃ visited, arena.Visits ids visited ∧ arena.Shows ids visited (ids.mapM describe) := by
  induction ids with
  | nil => exact ⟨[], .nil, by simp, [], .nil, rfl⟩
  | cons id ids ih =>
      obtain ⟨hid, hids⟩ := List.forall_mem_cons.mp h
      obtain ⟨visited, hvisits, hshows⟩ := hid
      obtain ⟨others, hothers, hrest⟩ := ih hids
      refine ⟨visited ++ others, hvisits.append hothers, ?_⟩
      have hall := hshows.append hrest
      rw [List.mapM_cons]
      cases hdescribe : describe id with
      | error fault =>
          rw [hdescribe] at hall
          exact hall
      | ok text =>
          rw [hdescribe] at hall
          cases hmap : ids.mapM describe <;> rw [hmap] at hall <;> exact hall

theorem leaf {value : Leaf} {line : ℕ} (hnode : arena.get? id = some (.leaf value line)) :
    arena.Shows [id] [id] (.ok [value.describe]) := by
  refine ⟨?_, [.leaf value line], .leaf hnode .nil, ?_⟩
  · simpa using lt_size_of_get? hnode
  · rw [List.map_singleton, Form.text_leaf]

theorem scope {delimiter : Delimiter} {children : List NodeId} {line : ℕ}
    {texts : Except Fault (List String)}
    (hnode : arena.get? id = some (.scope delimiter children line))
    (h : arena.Shows children visited texts) :
    arena.Shows [id] (id :: visited) ((texts.map delimiter.describe).map ([·])) := by
  have hid := lt_size_of_get? hnode
  cases texts with
  | error fault =>
      obtain ⟨place, hfirst, hfault⟩ := h
      refine ⟨place, ?_, hfault⟩
      rw [List.find?_cons_of_neg (by simpa using hid), hfirst]
  | ok texts =>
      obtain ⟨hinside, forms, hforms, htexts⟩ := h
      refine ⟨List.forall_mem_cons.mpr ⟨hid, hinside⟩, [.scope delimiter forms line],
        .scope hnode hforms .nil, ?_⟩
      rw [htexts, List.map_singleton, Form.text_scope]

end Shows

theorem exists_shows (hacyclic : arena.Acyclic) (id : NodeId) :
    ∃ visited, arena.Visits [id] visited ∧
      arena.Shows [id] visited ((arena.describe id).map ([·])) := by
  refine hacyclic.induction (motive := fun depth id => ∃ visited, arena.Visits [id] visited ∧
    arena.Shows [id] visited ((arena.describeWithin depth id).map ([·]))) ?_ ?_ id
  · intro depth id hnone
    refine ⟨[id], .outside hnone .nil, ?_⟩
    rw [describeWithin, hnone]
    refine ⟨id, ?_, rfl⟩
    rw [List.find?_cons_of_pos (by simpa using size_le_of_get? hnone)]
  · intro depth id node hnode hchildren
    obtain ⟨below, hbelow, hshows⟩ := Shows.mapM hchildren
    have hvisits := Visits.node hnode hbelow .nil
    rw [List.append_nil] at hvisits
    refine ⟨_, hvisits, ?_⟩
    cases node with
    | leaf value line =>
        cases hbelow
        rw [describeWithin, hnode]
        exact .leaf hnode
    | scope delimiter children line =>
        simp only [describeWithin, hnode]
        exact .scope hnode hshows

theorem Extends.pushEach (nodes : List Node) (arena : Arena) :
    Extends arena (arena.pushEach nodes) := by
  induction nodes generalizing arena with
  | nil => exact .refl arena
  | cons node nodes ih => exact (Extends.push arena node).trans (ih _)

theorem size_pushEach (nodes : List Node) (arena : Arena) :
    (arena.pushEach nodes).size = arena.size + nodes.length := by
  induction nodes generalizing arena with
  | nil => rfl
  | cons node nodes ih =>
      have hsize := ih (arena.push node).2
      rw [size_push] at hsize
      rw [List.length_cons, Nat.add_comm nodes.length, ← Nat.add_assoc, ← hsize]
      rfl

theorem Unfolds.lt_size {forms : List Form} (h : arena.Unfolds ids forms)
    (hvisits : arena.Visits ids visited) : ∀ place ∈ visited, place < arena.size := by
  induction hvisits generalizing forms with
  | nil => simp
  | outside hnone =>
      cases h with
      | leaf hnode => simp [hnone] at hnode
      | scope hnode => simp [hnone] at hnode
  | node hnode _ _ ihbelow ihrest =>
      have hid := lt_size_of_get? hnode
      cases h with
      | leaf hleaf hrest =>
          obtain rfl := Option.some.inj (hnode.symm.trans hleaf)
          exact List.forall_mem_cons.mpr
            ⟨hid, List.forall_mem_append.mpr ⟨ihbelow .nil, ihrest hrest⟩⟩
      | scope hscope hparts hrest =>
          obtain rfl := Option.some.inj (hnode.symm.trans hscope)
          exact List.forall_mem_cons.mpr
            ⟨hid, List.forall_mem_append.mpr ⟨ihbelow hparts, ihrest hrest⟩⟩

theorem describe_cases (hacyclic : arena.Acyclic) (id : NodeId) :
    (∃ form, arena.Unfolds [id] [form] ∧ arena.describe id = .ok form.text ∧
      ∀ below, arena.Reaches id below → below < arena.size) ∨
    ∃ visited first, arena.Visits [id] visited ∧ visited.find? (arena.size ≤ ·) = some first ∧
      arena.describe id = .error (.outside first) ∧
      arena.Reaches id first ∧ arena.size ≤ first := by
  obtain ⟨visited, hvisits, hshows⟩ := exists_shows hacyclic id
  have hreaches (below : NodeId) : below ∈ visited ↔ arena.Reaches id below := by
    simp [hvisits.mem_iff]
  cases hdescribe : arena.describe id with
  | ok text =>
      rw [hdescribe] at hshows
      obtain ⟨hinside, forms, hforms, htext⟩ := hshows
      obtain ⟨form, rfl, rfl⟩ := List.map_eq_singleton_iff.mp htext.symm
      exact .inl ⟨form, hforms, rfl,
        fun below hbelow => hinside below ((hreaches below).mpr hbelow)⟩
  | error fault =>
      rw [hdescribe] at hshows
      obtain ⟨first, hfirst, rfl⟩ := hshows
      have houtside := List.find?_some hfirst
      exact .inr ⟨visited, first, hvisits, hfirst, rfl,
        (hreaches first).mp (List.mem_of_find?_eq_some hfirst), by simpa using houtside⟩

theorem describe_of_unfolds {form : Form} (hacyclic : arena.Acyclic)
    (h : arena.Unfolds [id] [form]) : arena.describe id = .ok form.text := by
  rcases describe_cases hacyclic id with ⟨form', hform', hdescribe, -⟩ |
    ⟨visited, first, hvisits, hfirst, -, -, houtside⟩
  · obtain rfl : form = form' := (List.cons.inj (h.unique hform')).1
    exact hdescribe
  · have hinside := h.lt_size hvisits first (List.mem_of_find?_eq_some hfirst)
    exact absurd houtside (Nat.not_le_of_lt hinside)

theorem describeWithin_mono (hext : Extends arena other) {depth depth' : ℕ} (hle : depth ≤ depth')
    {text : String} (h : arena.describeWithin depth id = .ok text) :
    other.describeWithin depth' id = .ok text := by
  induction depth generalizing id depth' text with
  | zero => contradiction
  | succ depth ih =>
      obtain ⟨depth', rfl⟩ := Nat.exists_eq_succ_of_ne_zero (Nat.ne_zero_of_lt hle)
      rw [describeWithin] at h ⊢
      cases hnode : arena.get? id with
      | none => simp [hnode] at h
      | some node =>
          rw [hnode] at h
          rw [hext id node hnode]
          cases node with
          | leaf value line => exact h
          | scope delimiter children line =>
              have hchildren (texts : List String)
                  (htexts : children.mapM (arena.describeWithin depth) = .ok texts) :
                  children.mapM (other.describeWithin depth') = .ok texts :=
                mapM_mono (fun _ _ _ => ih (Nat.le_of_succ_le_succ hle)) htexts
              cases htexts : children.mapM (arena.describeWithin depth) with
              | error fault => simp [htexts, Except.map] at h
              | ok texts =>
                  simp only [htexts] at h
                  simp only [hchildren texts htexts]
                  exact h

theorem describe_pushEach {text : String} (h : arena.describe id = .ok text) (nodes : List Node) :
    (arena.pushEach nodes).describe id = .ok text := by
  have hsize := size_pushEach nodes arena
  exact describeWithin_mono (Extends.pushEach nodes arena) (by omega) h

end Arena

/-- Describing a place of an arena without cycles gives a text just if nothing outside can be
reached from it. The text is that of the form the place stands for, wherever its nodes lie and
whatever their lines are, and it stays when nodes are added. Else the first place outside is
reported. -/
theorem describe_shows_form (arena : Arena) (hacyclic : arena.Acyclic) (id : NodeId) :
    ((∃ text, arena.describe id = .ok text) ↔
      ∀ below, arena.Reaches id below → below < arena.size) ∧
    (∀ text, arena.describe id = .ok text →
      (∃ form, arena.Unfolds [id] [form] ∧ text = form.text) ∧
      ∀ nodes, (arena.pushEach nodes).describe id = .ok text) ∧
    (∀ (other : Arena) (place : NodeId) (form form' : Form), other.Acyclic →
      arena.Unfolds [id] [form] → other.Unfolds [place] [form'] →
      form.renumber (fun _ => 0) = form'.renumber (fun _ => 0) →
      ∃ text, arena.describe id = .ok text ∧ other.describe place = .ok text) ∧
    ((∃ below, arena.Reaches id below ∧ arena.size ≤ below) → ∃ visited first,
      arena.Visits [id] visited ∧ visited.find? (arena.size ≤ ·) = some first ∧
      arena.describe id = .error (.outside first)) := by
  have hcases := Arena.describe_cases hacyclic id
  refine ⟨⟨?_, ?_⟩, ?_, ?_, ?_⟩
  · rintro ⟨text, htext⟩
    rcases hcases with ⟨_, _, _, hinside⟩ | ⟨_, _, _, _, herror, _⟩
    · exact hinside
    · simp [htext] at herror
  · intro hinside
    rcases hcases with ⟨form, _, htext, _⟩ | ⟨_, first, _, _, _, hreach, houtside⟩
    · exact ⟨form.text, htext⟩
    · exact absurd (hinside first hreach) (Nat.not_lt_of_le houtside)
  · intro text htext
    refine ⟨?_, Arena.describe_pushEach htext⟩
    rcases hcases with ⟨form, hform, hshown, _⟩ | ⟨_, _, _, _, herror, _⟩
    · exact ⟨form, hform, Except.ok.inj (htext.symm.trans hshown)⟩
    · simp [htext] at herror
  · intro other place form form' hother hform hform' hsame
    have htext : form'.text = form.text := by
      rw [← Form.text_renumber (fun _ => 0) form', ← hsame, Form.text_renumber]
    refine ⟨form.text, Arena.describe_of_unfolds hacyclic hform, ?_⟩
    rw [Arena.describe_of_unfolds hother hform', htext]
  · rintro ⟨below, hreach, houtside⟩
    rcases hcases with ⟨_, _, _, hinside⟩ | ⟨visited, first, hvisits, hfirst, herror, _⟩
    · exact absurd (hinside below hreach) (Nat.not_lt_of_le houtside)
    · exact ⟨visited, first, hvisits, hfirst, herror⟩

def sharedTree : Arena where
  nodes := #[.scope .bracket [2, 1, 2] 1, .leaf (.identifier "x") 1, .scope .bracket [1] 2,
    .scope .paren [0, 19, 18] 3, .scope .paren [5, 6, 7, 8, 9, 1, 10] 4,
    .leaf (.number (.ofBits 0xC01D000000000000)) 4, .leaf (.integer (-3)) 4,
    .leaf (.character '(') 5, .leaf (.boolean true) 5, .leaf (.boolean false) 5,
    .leaf (.string "two words") 6]
  program := []

theorem sharedTree_acyclic : sharedTree.Acyclic := by
  have hrank : ∀ id < sharedTree.size, ∀ child ∈ (sharedTree.get? id).elim [] Node.children,
      [2, 0, 1, 3, 1].getD child 0 < [2, 0, 1, 3, 1].getD id 0 := by decide
  apply Arena.acyclic_of_rank fun id => [2, 0, 1, 3, 1].getD id 0
  intro id node hnode child hchild
  apply hrank id (Arena.lt_size_of_get? hnode)
  rwa [hnode]

theorem describe_sharedTree :
    sharedTree.Acyclic ∧
      (∀ nodes, (sharedTree.pushEach nodes).describe 0 =
        .ok "List: [ List: [ Identifier: x ] Identifier: x List: [ Identifier: x ] ]") ∧
      (∃ form, sharedTree.Unfolds [4] [form] ∧
        sharedTree.describe 4 = .ok form.text ∧
        form.text = "Program: ( Number: -7.250000 Integer: -3 Character: ( Boolean: t " ++
          "Boolean: nil Identifier: x String: two words )") ∧
      ∃ visited first, sharedTree.Visits [3] visited ∧
        visited.find? (sharedTree.size ≤ ·) = some first ∧
        sharedTree.describe 3 = .error (.outside first) := by
  have hshared : sharedTree.describe 0 =
      .ok "List: [ List: [ Identifier: x ] Identifier: x List: [ Identifier: x ] ]" := by
    decide +kernel
  have hleaves : sharedTree.describe 4 =
      .ok ("Program: ( Number: -7.250000 Integer: -3 Character: ( Boolean: t " ++
        "Boolean: nil Identifier: x String: two words )") := by
    decide +kernel
  have hreach : sharedTree.Reaches 3 19 := .single ⟨.scope .paren [0, 19, 18] 3, rfl, by decide⟩
  obtain ⟨-, hfound, -, -⟩ := describe_shows_form sharedTree sharedTree_acyclic 0
  obtain ⟨-, htext, -, -⟩ := describe_shows_form sharedTree sharedTree_acyclic 4
  obtain ⟨-, -, -, hfault⟩ := describe_shows_form sharedTree sharedTree_acyclic 3
  obtain ⟨⟨form, hform, hsame⟩, -⟩ := htext _ hleaves
  exact ⟨sharedTree_acyclic, (hfound _ hshared).2, ⟨form, hform, hsame ▸ hleaves, hsame.symm⟩,
    hfault ⟨19, hreach, by decide⟩⟩

end LispReader
