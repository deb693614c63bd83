import Mathlib.Data.List.Chain
import Mathlib.Data.List.Nodup
import Mathlib.Logic.Function.Basic

/-!
# Circular doubly linked lists

Nodes carry a successor and a predecessor. A ring is a list of distinct nodes in
which each node is linked to the next one and the last to the first; it may be
read from any of its nodes. A family of rings is a set of pairwise disjoint
ones, each with a head.
-/

namespace ChaoOS.LinkedRing

set_option autoImplicit false

structure Links (Node : Type*) where
  next : Node → Node
  prev : Node → Node

variable {Node : Type*} {links links' : Links Node}

def Linked (links : Links Node) (left right : Node) : Prop :=
  links.next left = right ∧ links.prev right = left

def NodeRing (links : Links Node) : List Node → Prop
  | [] => False
  | first :: rest =>
      (first :: rest).Nodup ∧ List.IsChain (Linked links) (first :: rest ++ [first])

instance [DecidableEq Node] : DecidableRel (Linked links) := fun _ _ =>
  inferInstanceAs (Decidable (_ ∧ _))

instance decidableNodeRing [DecidableEq Node] : (nodes : List Node) → Decidable (NodeRing links nodes)
  | [] => inferInstanceAs (Decidable False)
  | _ :: _ => inferInstanceAs (Decidable (_ ∧ _))

/-! ## Paths -/

/-- A path reads the successors of all nodes but the last and the predecessors
of all nodes but the first. -/
theorem path_congr {nodes : List Node} (path : List.IsChain (Linked links) nodes)
    (next : ∀ node ∈ nodes.dropLast, links'.next node = links.next node)
    (prev : ∀ node ∈ nodes.tail, links'.prev node = links.prev node) :
    List.IsChain (Linked links') nodes := by
  induction nodes with
  | nil => exact List.IsChain.nil
  | cons first rest induction =>
      cases rest with
      | nil => exact List.IsChain.singleton _
      | cons second rest =>
          rw [List.isChain_cons_cons] at path ⊢
          have forward := next first (by simp)
          have backward := prev second (by simp)
          refine ⟨⟨forward.trans path.1.1, backward.trans path.1.2⟩, ?_⟩
          apply induction path.2
          · intro node member
            exact next node (by simp [member])
          · intro node member
            exact prev node (List.mem_cons_of_mem _ member)

theorem path_snoc {nodes : List Node} {last node : Node}
    (path : List.IsChain (Linked links) (nodes ++ [last])) (linked : Linked links last node) :
    List.IsChain (Linked links) (nodes ++ [last] ++ [node]) := by
  rw [List.isChain_append]
  refine ⟨path, List.IsChain.singleton _, ?_⟩
  intro left leftLast right rightFirst
  rw [List.getLast?_concat, Option.mem_some_iff] at leftLast
  rw [List.head?_cons, Option.mem_some_iff] at rightFirst
  rw [← leftLast, ← rightFirst]
  exact linked

/-- The successors of a node up to the first return to `last` are determined. -/
theorem path_unique {first last : Node} {nodes others : List Node}
    (path : List.IsChain (Linked links) (first :: nodes ++ [last]))
    (other : List.IsChain (Linked links) (first :: others ++ [last]))
    (early : last ∉ nodes) (otherEarly : last ∉ others) : nodes = others := by
  induction nodes generalizing first others with
  | nil =>
      cases others with
      | nil => rfl
      | cons node others =>
          have here := (List.isChain_cons_cons.mp path).1.1
          have there := (List.isChain_cons_cons.mp other).1.1
          exact absurd (List.mem_cons.mpr (Or.inl (here.symm.trans there))) otherEarly
  | cons node nodes induction =>
      have here := List.isChain_cons_cons.mp path
      cases others with
      | nil =>
          have there := (List.isChain_cons_cons.mp other).1.1
          exact absurd (List.mem_cons.mpr (Or.inl (there.symm.trans here.1.1))) early
      | cons second others =>
          have there := List.isChain_cons_cons.mp other
          have same : node = second := here.1.1.symm.trans there.1.1
          subst same
          rw [induction here.2 there.2 (fun member => early (List.mem_cons_of_mem _ member))
            (fun member => otherEarly (List.mem_cons_of_mem _ member))]

/-! ## Reading a ring -/

namespace NodeRing

variable {nodes left right : List Node} {first second last node : Node}

theorem nodup (ring : NodeRing links nodes) : nodes.Nodup := by
  cases nodes with
  | nil => exact absurd ring id
  | cons first rest => exact ring.1

theorem next_eq (ring : NodeRing links (first :: second :: nodes)) : links.next first = second :=
  (List.isChain_cons_cons.mp ring.2).1.1

theorem next_single (ring : NodeRing links [first]) : links.next first = first :=
  (List.isChain_cons_cons.mp ring.2).1.1

/-- The last node is the predecessor of the first. -/
theorem close (ring : NodeRing links (first :: nodes))
    (ending : (first :: nodes).getLast? = some last) :
    Linked links last first := by
  have split := List.isChain_append.mp ring.2
  exact split.2.2 last (by simpa using ending) first (by simp)

theorem path (ring : NodeRing links (first :: nodes)) :
    List.IsChain (Linked links) (first :: nodes) :=
  List.IsChain.left_of_append ring.2

theorem rotate_one (ring : NodeRing links (first :: nodes)) :
    NodeRing links (nodes ++ [first]) := by
  cases nodes with
  | nil => exact ring
  | cons second rest =>
      have distinct : (second :: (rest ++ [first])).Nodup := by
        have moved := List.nodup_append_comm.mp (show ([first] ++ second :: rest).Nodup from ring.1)
        simpa using moved
      have chain := List.isChain_cons_cons.mp ring.2
      refine ⟨distinct, ?_⟩
      have closed : List.IsChain (Linked links) (second :: rest ++ [first] ++ [second]) :=
        path_snoc chain.2 chain.1
      simpa using closed

/-- A ring may be read from any of its nodes. -/
theorem rotate (ring : NodeRing links (left ++ right)) : NodeRing links (right ++ left) := by
  induction left generalizing right with
  | nil => simpa using ring
  | cons first left induction =>
      have turned := rotate_one (show NodeRing links (first :: (left ++ right)) from ring)
      rw [List.append_assoc] at turned
      simpa using induction turned

theorem unique (ring : NodeRing links (first :: left)) (other : NodeRing links (first :: right)) :
    left = right :=
  path_unique ring.2 other.2 (List.nodup_cons.mp ring.1).1 (List.nodup_cons.mp other.1).1

theorem turn_to (ring : NodeRing links nodes) (member : node ∈ nodes) :
    ∃ rest, NodeRing links (node :: rest) ∧ ∀ other, other ∈ nodes ↔ other ∈ node :: rest := by
  obtain ⟨left, right, split⟩ := List.append_of_mem member
  rw [split] at ring ⊢
  refine ⟨right ++ left, ring.rotate, ?_⟩
  intro other
  simp only [List.mem_append, List.mem_cons]
  tauto

theorem prev_mem (ring : NodeRing links nodes) (member : node ∈ nodes) :
    links.prev node ∈ nodes := by
  obtain ⟨rest, turned, same⟩ := ring.turn_to member
  have closing := turned.close (List.getLast?_eq_some_getLast (List.cons_ne_nil node rest))
  rw [closing.2, same]
  exact List.getLast_mem _

theorem next_mem (ring : NodeRing links nodes) (member : node ∈ nodes) :
    links.next node ∈ nodes := by
  obtain ⟨rest, turned, same⟩ := ring.turn_to member
  rw [same]
  cases rest with
  | nil => simp [turned.next_single]
  | cons second rest => simp [turned.next_eq]

theorem congr (ring : NodeRing links nodes)
    (agree : ∀ node ∈ nodes,
      links'.next node = links.next node ∧ links'.prev node = links.prev node) :
    NodeRing links' nodes := by
  cases nodes with
  | nil => exact absurd ring id
  | cons first rest =>
      refine ⟨ring.1, path_congr ring.2 ?_ ?_⟩
      · intro node member
        rw [List.dropLast_concat] at member
        exact (agree node member).1
      · intro node member
        apply (agree node _).2
        simpa [or_comm] using member

end NodeRing

/-! ## Local edits -/

/-- `links'` has `new` between `left` and `right`, and is otherwise `links`. -/
structure Inserted (links links' : Links Node) (new left right : Node) : Prop where
  next_left : links'.next left = new
  next_new : links'.next new = right
  prev_new : links'.prev new = left
  prev_right : links'.prev right = new
  next_other : ∀ node, node ≠ left → node ≠ new → links'.next node = links.next node
  prev_other : ∀ node, node ≠ right → node ≠ new → links'.prev node = links.prev node

/-- `links'` passes from `left` to `right` without `entry`, and is `links` on
the nodes other than these. -/
structure Bypassed (links links' : Links Node) (entry left right : Node) : Prop where
  next_left : links'.next left = right
  prev_right : links'.prev right = left
  next_other : ∀ node, node ≠ left → node ≠ entry → links'.next node = links.next node
  prev_other : ∀ node, node ≠ right → node ≠ entry → links'.prev node = links.prev node

theorem not_mem_drop_last {nodes : List Node} {node : Node} (distinct : (nodes ++ [node]).Nodup) :
    node ∉ nodes := by
  intro member
  exact (List.nodup_append.mp distinct).2.2 node member node (by simp) rfl

/-- An edit between the last node of a path and its first leaves the path. -/
theorem path_edited {front rest : List Node} {first last changed : Node}
    (path : List.IsChain (Linked links) (first :: rest)) (distinct : (first :: rest).Nodup)
    (split : first :: rest = front ++ [last]) (outside : changed ∉ first :: rest)
    (next : ∀ node, node ≠ last → node ≠ changed → links'.next node = links.next node)
    (prev : ∀ node, node ≠ first → node ≠ changed → links'.prev node = links.prev node) :
    List.IsChain (Linked links') (first :: rest) := by
  apply path_congr path
  · intro node member
    have inside : node ∈ first :: rest := (List.dropLast_sublist _).subset member
    rw [split, List.dropLast_concat] at member
    rw [split] at distinct
    apply next node
    · exact fun same => not_mem_drop_last distinct (same ▸ member)
    · exact fun same => outside (same ▸ inside)
  · intro node member
    apply prev node
    · exact fun same => (List.nodup_cons.mp distinct).1 (same ▸ member)
    · exact fun same => outside (same ▸ List.mem_cons_of_mem _ member)

namespace NodeRing

variable {rest : List Node} {new entry right : Node}

theorem insert (ring : NodeRing links (right :: rest)) (fresh : new ∉ right :: rest)
    (inserted : Inserted links links' new (links.prev right) right) :
    NodeRing links' (right :: rest ++ [new]) := by
  -- name the last node, the one `new` goes after
  obtain ⟨front, last, split⟩ : ∃ front last, right :: rest = front ++ [last] :=
    ⟨_, _, (List.dropLast_append_getLast (List.cons_ne_nil right rest)).symm⟩
  have closing : Linked links last right := ring.close (by rw [split, List.getLast?_concat])
  have predecessor : links.prev right = last := closing.2
  rw [predecessor] at inserted
  have distinct := ring.1
  have path : List.IsChain (Linked links') (right :: rest) :=
    path_edited ring.path distinct split fresh inserted.next_other inserted.prev_other
  have extended : List.IsChain (Linked links') (right :: rest ++ [new]) := by
    rw [split] at path ⊢
    exact path_snoc path ⟨inserted.next_left, inserted.prev_new⟩
  have whole : (right :: rest ++ [new]).Nodup :=
    List.nodup_append_comm.mp (List.nodup_cons.mpr ⟨fresh, distinct⟩)
  exact ⟨whole, path_snoc extended ⟨inserted.next_new, inserted.prev_right⟩⟩

theorem remove (ring : NodeRing links (entry :: right :: rest))
    (bypassed : Bypassed links links' entry (links.prev entry) (links.next entry)) :
    NodeRing links' (right :: rest) := by
  obtain ⟨front, last, split⟩ : ∃ front last, right :: rest = front ++ [last] :=
    ⟨_, _, (List.dropLast_append_getLast (List.cons_ne_nil right rest)).symm⟩
  have closing : Linked links last entry := by
    apply ring.close
    rw [List.getLast?_cons_cons, split, List.getLast?_concat]
  have predecessor : links.prev entry = last := closing.2
  have successor : links.next entry = right := ring.next_eq
  rw [predecessor, successor] at bypassed
  have apart := (List.nodup_cons.mp ring.1).1
  have distinct := (List.nodup_cons.mp ring.1).2
  have path : List.IsChain (Linked links') (right :: rest) :=
    path_edited (List.isChain_cons_cons.mp ring.path).2 distinct split apart bypassed.next_other
      bypassed.prev_other
  refine ⟨distinct, ?_⟩
  have closed : List.IsChain (Linked links') (front ++ [last] ++ [right]) := by
    rw [split] at path
    exact path_snoc path ⟨bypassed.next_left, bypassed.prev_right⟩
  rw [← split] at closed
  exact closed

/-- Read from `right` on, a ring takes `new` as its last node. -/
theorem insert_inside {first : Node} {front back : List Node}
    (ring : NodeRing links (first :: (front ++ right :: back)))
    (fresh : new ∉ first :: (front ++ right :: back))
    (inserted : Inserted links links' new (links.prev right) right) :
    NodeRing links' (first :: (front ++ new :: right :: back)) := by
  have turned : NodeRing links (right :: (back ++ first :: front)) := by
    have cut : NodeRing links ((first :: front) ++ right :: back) := ring
    simpa using cut.rotate
  have missing : new ∉ right :: (back ++ first :: front) := by
    simp only [List.mem_cons, List.mem_append] at fresh ⊢
    tauto
  have joined := turned.insert missing inserted
  have cut : NodeRing links' ((right :: back) ++ (first :: (front ++ [new]))) := by
    simpa using joined
  simpa using cut.rotate

theorem remove_inside {first : Node} {front back : List Node}
    (ring : NodeRing links (first :: (front ++ entry :: back)))
    (bypassed : Bypassed links links' entry (links.prev entry) (links.next entry)) :
    NodeRing links' (first :: (front ++ back)) := by
  have cut : NodeRing links ((first :: front) ++ entry :: back) := ring
  have turned := cut.rotate
  -- from `entry` on there is a node after it, since `first` is another
  cases back with
  | nil =>
      have removed : NodeRing links' (first :: front) :=
        NodeRing.remove (by simpa using turned) bypassed
      simpa using removed
  | cons second back =>
      have removed : NodeRing links' (second :: (back ++ first :: front)) :=
        NodeRing.remove (by simpa using turned) bypassed
      have again : NodeRing links' ((second :: back) ++ (first :: front)) := by
        simpa using removed
      simpa using again.rotate

end NodeRing

/-! ## Families of rings -/

section Families

variable {Index : Type*} {head : Index → Node} {members : Index → List Node}

/-- Disjoint rings, one for each head. -/
structure RingFamily (links : Links Node) (head : Index → Node)
    (members : Index → List Node) : Prop where
  ring : ∀ index, NodeRing links (head index :: members index)
  apart : ∀ index other node, node ∈ head index :: members index →
    node ∈ head other :: members other → index = other

theorem RingFamily.head_not_mem (family : RingFamily links head members) (index other : Index) :
    head index ∉ members other := by
  intro member
  have same := family.apart index other (head index) (by simp) (List.mem_cons_of_mem _ member)
  subst same
  exact (List.nodup_cons.mp (family.ring index).nodup).1 member

theorem RingFamily.members_nodup (family : RingFamily links head members) (index : Index) :
    (members index).Nodup :=
  (List.nodup_cons.mp (family.ring index).nodup).2

variable [DecidableEq Node]

/-- Where `new` goes among the members of a ring when it is put before
`right`: at the end when `right` is not a member, that is, when it is the head. -/
def insertBefore (right new : Node) : List Node → List Node
  | [] => [new]
  | node :: rest =>
      if node = right then new :: node :: rest else node :: insertBefore right new rest

theorem insert_before_split {right new : Node} {front back : List Node} (absent : right ∉ front) :
    insertBefore right new (front ++ right :: back) = front ++ new :: right :: back := by
  induction front with
  | nil => simp [insertBefore]
  | cons node front induction =>
      rw [List.mem_cons, not_or] at absent
      simp only [List.cons_append, insertBefore, if_neg (Ne.symm absent.1), induction absent.2]

theorem insert_before_absent {right new : Node} {nodes : List Node} (absent : right ∉ nodes) :
    insertBefore right new nodes = nodes ++ [new] := by
  induction nodes with
  | nil => rfl
  | cons node nodes induction =>
      rw [List.mem_cons, not_or] at absent
      simp only [List.cons_append, insertBefore, if_neg (Ne.symm absent.1), induction absent.2]

theorem insert_before_perm (right new : Node) (nodes : List Node) :
    (insertBefore right new nodes).Perm (new :: nodes) := by
  induction nodes with
  | nil => exact List.Perm.refl _
  | cons first nodes induction =>
      rw [insertBefore]
      split_ifs with here
      · exact List.Perm.refl _
      · exact (induction.cons first).trans (List.Perm.swap new first nodes)

@[simp] theorem mem_insert_before {right new node : Node} {nodes : List Node} :
    node ∈ insertBefore right new nodes ↔ node = new ∨ node ∈ nodes :=
  (insert_before_perm right new nodes).mem_iff.trans List.mem_cons

namespace RingFamily

variable [DecidableEq Index] {index : Index} {entry new right : Node}

omit [DecidableEq Node] in
theorem update_mem {changed : List Node} {other : Index} {node : Node} :
    node ∈ head other :: Function.update members index changed other ↔
      node = head other ∨ node ∈ if other = index then changed else members other := by
  by_cases same : other = index
  · subst same
    simp
  · simp [same]

theorem mem_update_insert {other : Index} {node : Node}
    (member : node ∈ Function.update members index
      (insertBefore right new (members index)) other) :
    (node = new ∧ other = index) ∨ node ∈ members other := by
  by_cases same : other = index
  · subst same
    rw [Function.update_self, mem_insert_before] at member
    exact member.imp_left fun equal => ⟨equal, rfl⟩
  · rw [Function.update_of_ne same] at member
    exact Or.inr member

theorem insert (family : RingFamily links head members)
    (inside : right ∈ head index :: members index)
    (fresh : ∀ other, new ∉ head other :: members other)
    (inserted : Inserted links links' new (links.prev right) right) :
    RingFamily links' head
      (Function.update members index (insertBefore right new (members index))) := by
  constructor
  case ring =>
      intro other
      by_cases same : other = index
      · subst same
        rw [Function.update_self]
        by_cases first : right = head other
        · subst first
          rw [insert_before_absent (family.head_not_mem other other)]
          exact (family.ring other).insert (fresh other) inserted
        · have member : right ∈ members other := (List.mem_cons.mp inside).resolve_left first
          obtain ⟨front, back, split⟩ := List.append_of_mem member
          have distinct := family.members_nodup other
          have absent : right ∉ front := by
            rw [split] at distinct
            exact fun early => (List.nodup_append.mp distinct).2.2 right early right (by simp) rfl
          have whole := family.ring other
          have outside := fresh other
          rw [split] at whole outside ⊢
          rw [insert_before_split absent]
          exact whole.insert_inside outside inserted
      · rw [Function.update_of_ne same]
        apply (family.ring other).congr
        intro node member
        have notIndex : node ∉ head index :: members index := fun both =>
          same (family.apart other index node member both)
        have notNew : node ≠ new := fun equal => fresh other (equal ▸ member)
        have notRight : node ≠ right := fun equal => notIndex (equal ▸ inside)
        have notLeft : node ≠ links.prev right := fun equal =>
          notIndex (equal ▸ (family.ring index).prev_mem inside)
        exact ⟨inserted.next_other node notLeft notNew, inserted.prev_other node notRight notNew⟩
  case apart =>
      have cases_mem : ∀ other node,
          node ∈ head other :: Function.update members index
            (insertBefore right new (members index)) other →
          (node = new ∧ other = index) ∨ node ∈ head other :: members other := by
        intro other node member
        rcases List.mem_cons.mp member with first | later
        · exact Or.inr (List.mem_cons.mpr (Or.inl first))
        · exact (mem_update_insert later).imp_right (List.mem_cons_of_mem _)
      intro one two node memberOne memberTwo
      rcases cases_mem one node memberOne with ⟨newOne, atOne⟩ | oldOne
      · rcases cases_mem two node memberTwo with ⟨-, atTwo⟩ | oldTwo
        · rw [atOne, atTwo]
        · exact absurd (newOne ▸ oldTwo) (fresh two)
      · rcases cases_mem two node memberTwo with ⟨newTwo, -⟩ | oldTwo
        · exact absurd (newTwo ▸ oldOne) (fresh one)
        · exact family.apart one two node oldOne oldTwo

theorem remove (family : RingFamily links head members) (inside : entry ∈ members index)
    (bypassed : Bypassed links links' entry (links.prev entry) (links.next entry)) :
    RingFamily links' head (Function.update members index ((members index).erase entry)) := by
  constructor
  case ring =>
      intro other
      by_cases same : other = index
      · subst same
        rw [Function.update_self]
        obtain ⟨front, back, absent, split, erased⟩ := List.exists_erase_eq inside
        rw [erased]
        have whole := family.ring other
        rw [split] at whole
        exact whole.remove_inside bypassed
      · rw [Function.update_of_ne same]
        apply (family.ring other).congr
        intro node member
        have notIndex : node ∉ head index :: members index := fun both =>
          same (family.apart other index node member both)
        have own : entry ∈ head index :: members index := List.mem_cons_of_mem _ inside
        have notEntry : node ≠ entry := fun equal => notIndex (equal ▸ own)
        have notRight : node ≠ links.next entry := fun equal =>
          notIndex (equal ▸ (family.ring index).next_mem own)
        have notLeft : node ≠ links.prev entry := fun equal =>
          notIndex (equal ▸ (family.ring index).prev_mem own)
        exact ⟨bypassed.next_other node notLeft notEntry,
          bypassed.prev_other node notRight notEntry⟩
  case apart =>
      have smaller : ∀ other node,
          node ∈ head other :: Function.update members index ((members index).erase entry) other →
          node ∈ head other :: members other := by
        intro other node member
        rw [update_mem] at member
        split_ifs at member with same
        · subst same
          exact List.mem_cons.mpr (member.imp_right List.mem_of_mem_erase)
        · exact List.mem_cons.mpr member
      intro one two node memberOne memberTwo
      exact family.apart one two node (smaller one node memberOne) (smaller two node memberTwo)

theorem not_mem_after_remove (family : RingFamily links head members)
    (inside : entry ∈ members index) (other : Index) :
    entry ∉ head other :: Function.update members index ((members index).erase entry) other := by
  rw [update_mem]
  split_ifs with same
  · subst same
    rintro (first | erased)
    · exact family.head_not_mem other other (first ▸ inside)
    · exact (family.members_nodup other).not_mem_erase erased
  · intro member
    exact same (family.apart other index entry (List.mem_cons.mpr member)
      (List.mem_cons_of_mem _ inside))

end RingFamily

end Families

end ChaoOS.LinkedRing
