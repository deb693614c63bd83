import ChaoOS.LinkedRing
import Mathlib.Data.List.Rotate

/-!
# Rings as cyclic sequences

A memory holds any number of pairwise disjoint rings, each given by its node
sequence read from some node on; the empty sequence stands for a ring that is
gone. An edit puts a list of nodes in the place of one node. Since a sequence
may be turned before it is edited, an edit has to be justified only for a ring
read from the edited node.
-/

namespace ChaoOS.RingSequences

open ChaoOS.LinkedRing

set_option autoImplicit false

variable {Node : Type*} [DecidableEq Node]

/-! ## Putting a list of nodes in the place of one -/

/-- The sequence with `value` in the place of `target`. -/
def substitute (target : Node) (value nodes : List Node) : List Node :=
  nodes.flatMap fun node => if node = target then value else [node]

section Substitute

variable {target node : Node} {value nodes left right rest : List Node}

@[simp] theorem substitute_nil : substitute target value [] = [] := rfl

@[simp] theorem substitute_cons :
    substitute target value (node :: rest) =
      (if node = target then value else [node]) ++ substitute target value rest := rfl

@[simp] theorem substitute_append :
    substitute target value (left ++ right) =
      substitute target value left ++ substitute target value right :=
  List.flatMap_append

theorem substitute_absent (absent : target ∉ nodes) : substitute target value nodes = nodes := by
  induction nodes with
  | nil => rfl
  | cons node nodes induction =>
      rw [List.mem_cons, not_or] at absent
      rw [substitute_cons, if_neg (Ne.symm absent.1), induction absent.2]
      rfl

theorem substitute_first (distinct : (target :: rest).Nodup) :
    substitute target value (target :: rest) = value ++ rest := by
  rw [substitute_cons, if_pos rfl, substitute_absent (List.nodup_cons.mp distinct).1]

theorem mem_substitute :
    node ∈ substitute target value nodes ↔
      node ≠ target ∧ node ∈ nodes ∨ target ∈ nodes ∧ node ∈ value := by
  induction nodes with
  | nil => simp
  | cons first nodes induction =>
      rw [substitute_cons, List.mem_append, induction]
      by_cases here : first = target
      · subst here
        rw [if_pos rfl]
        simp only [List.mem_cons]
        tauto
      · rw [if_neg here]
        simp only [List.mem_cons, List.not_mem_nil, or_false, Ne.symm here, false_or]
        constructor
        · rintro (rfl | other)
          · exact Or.inl ⟨here, Or.inl rfl⟩
          · tauto
        · tauto

/-- Editing and turning a sequence can be done in either order. -/
theorem substitute_rotated (turned : nodes.IsRotated left) :
    (substitute target value nodes).IsRotated (substitute target value left) := by
  obtain ⟨count, within, rfl⟩ := List.isRotated_iff_mod.mp turned
  rw [List.rotate_eq_drop_append_take within]
  conv_lhs => rw [← List.take_append_drop count nodes]
  rw [substitute_append, substitute_append]
  exact List.isRotated_append

end Substitute

omit [DecidableEq Node] in
theorem ring_of_rotated {links : Links Node} {nodes turned : List Node}
    (ring : NodeRing links nodes) (rotated : nodes.IsRotated turned) : NodeRing links turned := by
  obtain ⟨count, within, rfl⟩ := List.isRotated_iff_mod.mp rotated
  rw [List.rotate_eq_drop_append_take within]
  rw [← List.take_append_drop count nodes] at ring
  exact ring.rotate

omit [DecidableEq Node] in
theorem rotated_to {node : Node} {nodes : List Node} (member : node ∈ nodes) :
    ∃ rest, nodes.IsRotated (node :: rest) := by
  obtain ⟨left, right, rfl⟩ := List.append_of_mem member
  exact ⟨right ++ left, List.isRotated_append⟩

/-! ## Edits at the node a ring is read from -/

section Edits

variable {links links' : Links Node} {rest : List Node} {old new left right : Node}

/-- `links'` has `new` in the place of `old`, between the neighbours of `old`,
and is otherwise `links`. -/
structure Replaced (links links' : Links Node) (old new : Node) : Prop where
  next_left : links'.next (links.prev old) = new
  next_new : links'.next new = links.next old
  prev_new : links'.prev new = links.prev old
  prev_right : links'.prev (links.next old) = new
  next_other : ∀ node, node ≠ links.prev old → node ≠ new → links'.next node = links.next node
  prev_other : ∀ node, node ≠ links.next old → node ≠ new → links'.prev node = links.prev node

omit [DecidableEq Node]

theorem ring_insert_before (ring : NodeRing links (right :: rest)) (fresh : new ∉ right :: rest)
    (inserted : Inserted links links' new (links.prev right) right) :
    NodeRing links' (new :: right :: rest) :=
  (ring.insert fresh inserted).rotate

theorem ring_insert_after (ring : NodeRing links (left :: rest)) (fresh : new ∉ left :: rest)
    (inserted : Inserted links links' new left (links.next left)) :
    NodeRing links' (left :: new :: rest) := by
  cases rest with
  | nil =>
      have closing : Linked links left left := ring.close (by simp)
      rw [closing.1] at inserted
      exact ring.insert fresh (by rw [closing.2]; exact inserted)
  | cons right rest =>
      have linked : Linked links left right := (List.isChain_cons_cons.mp ring.2).1
      rw [linked.1] at inserted
      have turned : NodeRing links (right :: (rest ++ [left])) := ring.rotate_one
      have missing : new ∉ right :: (rest ++ [left]) := by
        simp only [List.mem_cons, List.mem_append] at fresh ⊢
        tauto
      have joined := turned.insert missing (by rw [linked.2]; exact inserted)
      have cut : NodeRing links' ((right :: rest) ++ [left, new]) := by simpa using joined
      exact cut.rotate

theorem ring_replace (ring : NodeRing links (old :: right :: rest))
    (fresh : new ∉ right :: rest) (replaced : Replaced links links' old new) :
    NodeRing links' (new :: right :: rest) := by
  obtain ⟨front, last, split⟩ : ∃ front last, right :: rest = front ++ [last] :=
    ⟨_, _, (List.dropLast_append_getLast (List.cons_ne_nil right rest)).symm⟩
  have closing : Linked links last old := by
    apply ring.close
    rw [List.getLast?_cons_cons, split, List.getLast?_concat]
  have predecessor : links.prev old = last := closing.2
  have successor : links.next old = right := ring.next_eq
  obtain ⟨nextLeft, nextNew, prevNew, prevRight, nextOther, prevOther⟩ := replaced
  rw [predecessor] at nextLeft prevNew nextOther
  rw [successor] at nextNew prevRight prevOther
  have distinct := (List.nodup_cons.mp ring.1).2
  have path : List.IsChain (Linked links') (right :: rest) :=
    path_edited (List.isChain_cons_cons.mp ring.path).2 distinct split fresh nextOther prevOther
  have closed : List.IsChain (Linked links') (right :: rest ++ [new]) := by
    rw [split] at path ⊢
    exact path_snoc path ⟨nextLeft, prevNew⟩
  exact ⟨List.nodup_cons.mpr ⟨fresh, distinct⟩,
    List.isChain_cons_cons.mpr ⟨⟨nextNew, prevRight⟩, closed⟩⟩

end Edits

/-! ## Families -/

variable {Index : Type*} {links links' links'' : Links Node}
  {rings rings' rings'' : Index → List Node}

structure Rings (links : Links Node) (rings : Index → List Node) : Prop where
  ring : ∀ index, rings index ≠ [] → NodeRing links (rings index)
  apart : ∀ index other node, node ∈ rings index → node ∈ rings other → index = other

/-- The node is none of the operands and shares no ring with one. -/
def Elsewhere (rings : Index → List Node) (operands : List Node) (node : Node) : Prop :=
  node ∉ operands ∧ ∀ index, node ∈ rings index → ∀ operand ∈ operands, operand ∉ rings index

section Elsewhere

variable {operands smaller value : List Node} {node target extra : Node}

omit [DecidableEq Node] in
theorem Elsewhere.mono (outside : Elsewhere rings operands node) (subset : smaller ⊆ operands) :
    Elsewhere rings smaller node := by
  refine ⟨fun member => outside.1 (subset member), ?_⟩
  intro index inside operand named
  exact outside.2 index inside operand (subset named)

theorem Elsewhere.substitute (outside : Elsewhere rings operands node) (named : target ∈ operands)
    (values : value ⊆ operands) :
    Elsewhere (fun index => substitute target value (rings index)) operands node := by
  refine ⟨outside.1, ?_⟩
  intro index inside operand isOperand there
  rw [mem_substitute] at inside there
  rcases inside with ⟨-, inside⟩ | ⟨-, isValue⟩
  · rcases there with ⟨-, there⟩ | ⟨there, -⟩
    · exact outside.2 index inside operand isOperand there
    · exact outside.2 index inside target named there
  · exact outside.1 (values isValue)

end Elsewhere

/-- The sequences change from `rings` to `rings'`, and the links of the nodes
that have nothing to do with the operands stay. -/
structure Reshaped (links links' : Links Node) (rings rings' : Index → List Node)
    (operands : List Node) : Prop where
  family : Rings links' rings'
  elsewhere : ∀ node, Elsewhere rings operands node →
    links'.next node = links.next node ∧ links'.prev node = links.prev node

omit [DecidableEq Node] in
theorem Rings.member_ring {index : Index} {node : Node} (family : Rings links rings)
    (member : node ∈ rings index) : NodeRing links (rings index) :=
  family.ring index (List.ne_nil_of_mem member)

/-- An edit at `target` is right when it is right on the ring of `target`, read
from there on, and keeps the nodes of the other rings. -/
theorem Rings.rewrite {index : Index} {target : Node} {value operands : List Node}
    (family : Rings links rings) (inside : target ∈ rings index)
    (fresh : ∀ node ∈ operands, node = target ∨ ∀ other, node ∉ rings other)
    (named : value ⊆ operands)
    (changed : ∀ rest, NodeRing links (target :: rest) →
      (∀ node ∈ target :: rest, node ∈ rings index) →
      value ++ rest ≠ [] → NodeRing links' (value ++ rest))
    (kept : ∀ node, Elsewhere rings operands node →
      links'.next node = links.next node ∧ links'.prev node = links.prev node) :
    Reshaped links links' rings (fun other => substitute target value (rings other)) operands := by
  refine ⟨⟨?_, ?_⟩, kept⟩
  · intro other present
    by_cases here : target ∈ rings other
    · have same := family.apart other index target here inside
      subst same
      obtain ⟨rest, turned⟩ := rotated_to here
      have whole := ring_of_rotated (family.member_ring here) turned
      have edited : (substitute target value (rings other)).IsRotated (value ++ rest) := by
        rw [← substitute_first whole.nodup]
        exact substitute_rotated turned
      refine ring_of_rotated (changed rest whole ?_ ?_) edited.symm
      · exact fun node member => turned.mem_iff.mpr member
      · intro gone
        rw [gone, List.isRotated_nil_iff] at edited
        exact present edited
    · rw [substitute_absent here] at present ⊢
      apply (family.ring other present).congr
      intro node member
      apply kept node
      refine ⟨?_, ?_⟩
      · intro operand
        rcases fresh node operand with rfl | outside
        · exact here member
        · exact outside other member
      · intro place there operand isOperand
        have same := family.apart place other node there member
        subst same
        rcases fresh operand isOperand with rfl | outside
        · exact here
        · exact outside place
  · intro one two node memberOne memberTwo
    rw [mem_substitute] at memberOne memberTwo
    rcases memberOne with ⟨otherOne, memberOne⟩ | ⟨hereOne, valueOne⟩
    · rcases memberTwo with ⟨otherTwo, memberTwo⟩ | ⟨hereTwo, valueTwo⟩
      · exact family.apart one two node memberOne memberTwo
      · exact absurd memberOne ((fresh node (named valueTwo)).resolve_left otherOne one)
    · rcases memberTwo with ⟨otherTwo, memberTwo⟩ | ⟨hereTwo, valueTwo⟩
      · exact absurd memberTwo ((fresh node (named valueOne)).resolve_left otherTwo two)
      · exact family.apart one two target hereOne hereTwo

namespace Reshaped

variable {operands before after : List Node}

omit [DecidableEq Node] in
theorem trans (first : Reshaped links links' rings rings' before)
    (second : Reshaped links' links'' rings' rings'' after)
    (apart : ∀ node, Elsewhere rings operands node →
      Elsewhere rings before node ∧ Elsewhere rings' after node) :
    Reshaped links links'' rings rings'' operands := by
  refine ⟨second.family, ?_⟩
  intro node outside
  obtain ⟨outsideFirst, outsideSecond⟩ := apart node outside
  obtain ⟨next, prev⟩ := first.elsewhere node outsideFirst
  obtain ⟨next', prev'⟩ := second.elsewhere node outsideSecond
  exact ⟨next'.trans next, prev'.trans prev⟩

omit [DecidableEq Node] in
/-- The node a sequence is read from does not matter. -/
theorem turn (reshaped : Reshaped links links' rings rings' operands)
    (rotated : ∀ index, (rings' index).IsRotated (rings'' index)) :
    Reshaped links links' rings rings'' operands := by
  refine ⟨⟨?_, ?_⟩, reshaped.elsewhere⟩
  · intro index present
    have turned := rotated index
    refine ring_of_rotated (reshaped.family.ring index ?_) turned
    intro gone
    rw [gone, List.isRotated_nil_iff'] at turned
    exact present turned.symm
  · intro one two node memberOne memberTwo
    exact reshaped.family.apart one two node ((rotated one).mem_iff.mpr memberOne)
      ((rotated two).mem_iff.mpr memberTwo)

end Reshaped

end ChaoOS.RingSequences
