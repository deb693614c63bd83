import ChaoOS.ListHead
import ChaoOS.RingSequences
import Mathlib.Logic.Equiv.Basic

/-!
# The list functions as operations on sequences

Each function of `klib/list.h` that changes links is an operation with operands
among the nodes of a memory that holds any number of rings. What it should do
to the node sequences is stated without links; what it does to the links is the
model of `ListHead`.
-/

namespace ChaoOS.ListSequences

open ChaoOS.LinkedRing ChaoOS.ListHead ChaoOS.RingSequences

set_option autoImplicit false

variable {Node : Type*} [DecidableEq Node]

inductive ListOp (Node : Type*) where
  | add (new head : Node)
  | addTail (new head : Node)
  | del (entry : Node)
  | replace (old new : Node)
  | moveToHead (node dstList : Node)
  | moveToTail (node dstList : Node)
  | swap (entry1 entry2 : Node)

namespace ListOp

def run (null : Node) (links : Links Node) : ListOp Node → Links Node
  | add new head => listAdd links new head
  | addTail new head => listAddTail links new head
  | del entry => listDel null links entry
  | replace old new => listReplace links old new
  | moveToHead node dstList => listMoveToHead null links node dstList
  | moveToTail node dstList => listMoveToTail null links node dstList
  | swap entry1 entry2 => listSwap null links entry1 entry2

def operands : ListOp Node → List Node
  | add new head => [new, head]
  | addTail new head => [new, head]
  | del entry => [entry]
  | replace old new => [old, new]
  | moveToHead node dstList => [node, dstList]
  | moveToTail node dstList => [node, dstList]
  | swap entry1 entry2 => [entry1, entry2]

/-- What the operation should make of a node sequence. The front of the list of
`head` is the place after it, and the back of it the place before it. -/
def sequence : ListOp Node → List Node → List Node
  | add new head => substitute head [head, new]
  | addTail new head => substitute head [new, head]
  | del entry => substitute entry []
  | replace old new => substitute old [new]
  | moveToHead node dstList => substitute dstList [dstList, node] ∘ substitute node []
  | moveToTail node dstList => substitute dstList [node, dstList] ∘ substitute node []
  | swap entry1 entry2 => List.map (Equiv.swap entry1 entry2)

variable {Index : Type*}

/-- What a caller has to see to: nodes to be put into a ring are in none, the
others are in one, and two nodes that change places are two. -/
def Admissible (rings : Index → List Node) : ListOp Node → Prop
  | add new head => (∀ index, new ∉ rings index) ∧ ∃ index, head ∈ rings index
  | addTail new head => (∀ index, new ∉ rings index) ∧ ∃ index, head ∈ rings index
  | del entry => ∃ index, entry ∈ rings index
  | replace old new => (∀ index, new ∉ rings index) ∧ ∃ index, old ∈ rings index
  | moveToHead node dstList =>
      node ≠ dstList ∧ (∃ index, node ∈ rings index) ∧ ∃ index, dstList ∈ rings index
  | moveToTail node dstList =>
      node ≠ dstList ∧ (∃ index, node ∈ rings index) ∧ ∃ index, dstList ∈ rings index
  | swap entry1 entry2 =>
      entry1 ≠ entry2 ∧ (∃ index, entry1 ∈ rings index) ∧ ∃ index, entry2 ∈ rings index

end ListOp

/-! ## The four edits -/

section Edits

variable {Index : Type*} {links : Links Node} {rings : Index → List Node} {index : Index}
  {null new head entry old : Node}

omit [DecidableEq Node] in
/-- A node elsewhere is no neighbour of an operand. -/
theorem not_neighbour {node operand : Node} {operands : List Node} (family : Rings links rings)
    (outside : Elsewhere rings operands node) (named : operand ∈ operands)
    (inside : operand ∈ rings index) :
    node ≠ links.next operand ∧ node ≠ links.prev operand := by
  have ring := family.member_ring inside
  constructor
  · rintro rfl
    exact outside.2 index (ring.next_mem inside) operand named inside
  · rintro rfl
    exact outside.2 index (ring.prev_mem inside) operand named inside

theorem list_add_reshapes (family : Rings links rings) (fresh : ∀ other, new ∉ rings other)
    (inside : head ∈ rings index) :
    Reshaped links (listAdd links new head) rings
      (fun other => substitute head [head, new] (rings other)) [new, head] := by
  have ring := family.member_ring inside
  have inserted : Inserted links (listAdd links new head) new head (links.next head) := by
    apply list_add_between_inserted
    · exact fun same => fresh index (same ▸ ring.next_mem inside)
    · exact fun same => fresh index (same ▸ inside)
  apply family.rewrite inside
  · simp [fresh]
  · simp
  · intro rest whole within _
    exact ring_insert_after whole (fun member => fresh index (within new member)) inserted
  · intro node outside
    have ⟨notNext, _⟩ := not_neighbour family outside (by simp) inside
    have ⟨notNew, notHead⟩ : node ≠ new ∧ node ≠ head := by simpa using outside.1
    exact ⟨inserted.next_other node notHead notNew, inserted.prev_other node notNext notNew⟩

theorem list_add_tail_reshapes (family : Rings links rings) (fresh : ∀ other, new ∉ rings other)
    (inside : head ∈ rings index) :
    Reshaped links (listAddTail links new head) rings
      (fun other => substitute head [new, head] (rings other)) [new, head] := by
  have ring := family.member_ring inside
  have inserted : Inserted links (listAddTail links new head) new (links.prev head) head := by
    apply list_add_tail_inserted
    · exact fun same => fresh index (same ▸ inside)
    · exact fun same => fresh index (same ▸ ring.prev_mem inside)
  apply family.rewrite inside
  · simp [fresh]
  · simp
  · intro rest whole within _
    exact ring_insert_before whole (fun member => fresh index (within new member)) inserted
  · intro node outside
    have ⟨_, notPrev⟩ := not_neighbour family outside (by simp) inside
    have ⟨notNew, notHead⟩ : node ≠ new ∧ node ≠ head := by simpa using outside.1
    exact ⟨inserted.next_other node notPrev notNew, inserted.prev_other node notHead notNew⟩

theorem list_del_elsewhere {node : Node} (notEntry : node ≠ entry)
    (notNext : node ≠ links.next entry) (notPrev : node ≠ links.prev entry) :
    (listDel null links entry).next node = links.next node ∧
      (listDel null links entry).prev node = links.prev node := by
  simp [listDel, listDelBetween, setNext, setPrev, notEntry, notNext, notPrev]

theorem list_del_reshapes (null : Node) (family : Rings links rings) (inside : entry ∈ rings index) :
    Reshaped links (listDel null links entry) rings
      (fun other => substitute entry [] (rings other)) [entry] := by
  apply family.rewrite inside
  · simp
  · simp
  · intro rest whole _ present
    cases rest with
    | nil => exact absurd rfl present
    | cons right rest =>
        have distinct := (List.nodup_cons.mp whole.nodup).1
        obtain ⟨last, ending⟩ : ∃ last, (right :: rest).getLast? = some last :=
          ⟨_, List.getLast?_eq_some_getLast (List.cons_ne_nil right rest)⟩
        have closing := whole.close (by rw [List.getLast?_cons_cons]; exact ending)
        apply whole.remove
        apply list_del_bypassed
        · rw [closing.2]
          exact fun same => distinct (same ▸ List.mem_of_getLast? ending)
        · rw [whole.next_eq]
          exact fun same => distinct (same ▸ List.mem_cons_self)
  · intro node outside
    have ⟨notNext, notPrev⟩ := not_neighbour family outside (by simp) inside
    have notEntry : node ≠ entry := by simpa using outside.1
    exact list_del_elsewhere notEntry notNext notPrev

theorem list_replace_replaced (notNext : new ≠ links.next old) (notPrev : new ≠ links.prev old)
    (accompanied : links.next old ≠ old) :
    Replaced links (listReplace links old new) old new := by
  constructor
  case next_left => simp [listReplace, setNext, setPrev, accompanied.symm]
  case next_new =>
      simp [listReplace, setNext, setPrev, accompanied.symm, notPrev]
  case prev_new => simp [listReplace, setNext, setPrev, accompanied.symm]
  case prev_right => simp [listReplace, setNext, setPrev, notNext.symm]
  case next_other =>
      intro node other fresh
      simp [listReplace, setNext, setPrev, accompanied.symm, other, fresh]
  case prev_other =>
      intro node other fresh
      simp [listReplace, setNext, setPrev, other, fresh]

/-- The successor of a lone node is the node itself, whose predecessor has been
written when it is read again. -/
theorem list_replace_alone (new : Node) (alone : links.next old = old) :
    Linked (listReplace links old new) new new ∧
      ∀ node, node ≠ new → node ≠ old →
        (listReplace links old new).next node = links.next node ∧
          (listReplace links old new).prev node = links.prev node := by
  refine ⟨?_, ?_⟩
  · simp [Linked, listReplace, setNext, setPrev, alone]
  · intro node notNew notOldNode
    simp [listReplace, setNext, setPrev, alone, notNew, notOldNode]

theorem list_replace_reshapes (family : Rings links rings) (fresh : ∀ other, new ∉ rings other)
    (inside : old ∈ rings index) :
    Reshaped links (listReplace links old new) rings
      (fun other => substitute old [new] (rings other)) [old, new] := by
  have ring := family.member_ring inside
  have replaced : links.next old ≠ old → Replaced links (listReplace links old new) old new := by
    apply list_replace_replaced
    · exact fun same => fresh index (same ▸ ring.next_mem inside)
    · exact fun same => fresh index (same ▸ ring.prev_mem inside)
  apply family.rewrite inside
  · simp [fresh]
  · simp
  · intro rest whole within _
    cases rest with
    | nil =>
        have alone := (list_replace_alone new whole.next_single).1
        exact ⟨List.nodup_singleton new,
          List.isChain_cons_cons.mpr ⟨alone, List.IsChain.singleton new⟩⟩
    | cons right rest =>
        apply ring_replace whole
        · exact fun member => fresh index (within new (List.mem_cons_of_mem _ member))
        · apply replaced
          rw [whole.next_eq]
          exact fun same => (List.nodup_cons.mp whole.nodup).1 (same ▸ List.mem_cons_self)
  · intro node outside
    have ⟨notNext, notPrev⟩ := not_neighbour family outside (by simp) inside
    have ⟨notOldNode, notNew⟩ : node ≠ old ∧ node ≠ new := by simpa using outside.1
    by_cases alone : links.next old = old
    · exact (list_replace_alone new alone).2 node notNew notOldNode
    · have changed := replaced alone
      exact ⟨changed.next_other node notPrev notNew, changed.prev_other node notNext notNew⟩

end Edits

/-! ## Moves -/

section Moves

variable {Index : Type*} {links : Links Node} {rings : Index → List Node} {index target : Index}
  {null node dstList : Node}

theorem not_mem_deleted (other : Index) : node ∉ substitute node [] (rings other) := by
  rw [mem_substitute]
  simp

theorem mem_deleted (inside : dstList ∈ rings target) (distinct : node ≠ dstList) :
    dstList ∈ substitute node [] (rings target) :=
  mem_substitute.mpr (Or.inl ⟨distinct.symm, inside⟩)

theorem elsewhere_moved {other : Node} (outside : Elsewhere rings [node, dstList] other) :
    Elsewhere rings [node] other ∧
      Elsewhere (fun place => substitute node [] (rings place)) [node, dstList] other :=
  ⟨outside.mono (by simp), outside.substitute (by simp) (by simp)⟩

theorem list_move_to_head_reshapes (family : Rings links rings) (inside : node ∈ rings index)
    (place : dstList ∈ rings target) (distinct : node ≠ dstList) :
    Reshaped links (listMoveToHead null links node dstList) rings
      (fun other => (ListOp.moveToHead node dstList).sequence (rings other)) [node, dstList] := by
  have removed := list_del_reshapes null family inside
  have added := list_add_reshapes removed.family not_mem_deleted (mem_deleted place distinct)
  exact removed.trans added fun _ => elsewhere_moved

theorem list_move_to_tail_reshapes (family : Rings links rings) (inside : node ∈ rings index)
    (place : dstList ∈ rings target) (distinct : node ≠ dstList) :
    Reshaped links (listMoveToTail null links node dstList) rings
      (fun other => (ListOp.moveToTail node dstList).sequence (rings other)) [node, dstList] := by
  have removed := list_del_reshapes null family inside
  have added := list_add_tail_reshapes removed.family not_mem_deleted (mem_deleted place distinct)
  exact removed.trans added fun _ => elsewhere_moved

end Moves

/-! ## The exchange

`list_swap` takes `entry2` out, puts it in the place of `entry1` and adds
`entry1` after the node that was before `entry2`. -/

section Swap

variable {Index : Type*} {links : Links Node} {rings : Index → List Node} {index target : Index}
  {null entry1 entry2 pos : Node} {nodes rest : List Node}

theorem map_swap_absent (absent : entry2 ∉ nodes) :
    nodes.map (Equiv.swap entry1 entry2) = substitute entry1 [entry2] nodes := by
  induction nodes with
  | nil => rfl
  | cons node nodes induction =>
      rw [List.mem_cons, not_or] at absent
      rw [List.map_cons, induction absent.2, substitute_cons]
      by_cases here : node = entry1
      · rw [if_pos here, here, Equiv.swap_apply_left]
        rfl
      · rw [if_neg here, Equiv.swap_apply_of_ne_of_ne here (Ne.symm absent.1)]
        rfl

/-- The sequences when `entry2` has the place of `entry1`. -/
def placed (rings : Index → List Node) (entry1 entry2 : Node) (index : Index) : List Node :=
  substitute entry1 [entry2] (substitute entry2 [] (rings index))

theorem mem_placed {node : Node} (distinct : entry1 ≠ entry2) :
    node ∈ placed rings entry1 entry2 index ↔
      node ≠ entry1 ∧ node ≠ entry2 ∧ node ∈ rings index ∨
        node = entry2 ∧ entry1 ∈ rings index := by
  simp only [placed, mem_substitute, List.mem_singleton, List.not_mem_nil, and_false, or_false]
  tauto

/-- What the first two steps of `list_swap` leave. -/
theorem swap_placed (null : Node) (family : Rings links rings) (inside1 : entry1 ∈ rings index)
    (inside2 : entry2 ∈ rings target) (distinct : entry1 ≠ entry2) :
    Reshaped links (listReplace (listDel null links entry2) entry1 entry2) rings
      (placed rings entry1 entry2) [entry1, entry2] := by
  have removed := list_del_reshapes null family inside2
  have substituted := list_replace_reshapes removed.family not_mem_deleted
    (mem_deleted inside1 distinct.symm)
  refine removed.trans substituted ?_
  intro node outside
  exact ⟨outside.mono (by simp), outside.substitute (by simp) (by simp)⟩

theorem placed_then_added (distinct : entry1 ≠ entry2) (whole : (pos :: entry2 :: rest).Nodup) :
    substitute (if pos = entry1 then entry2 else pos)
        [if pos = entry1 then entry2 else pos, entry1]
        (substitute entry1 [entry2] (substitute entry2 [] (pos :: entry2 :: rest))) =
      (pos :: entry2 :: rest).map (Equiv.swap entry1 entry2) := by
  simp only [List.nodup_cons, List.mem_cons, not_or] at whole
  obtain ⟨⟨notSame, notRest⟩, absent, -⟩ := whole
  have removed : substitute entry2 [] (pos :: entry2 :: rest) = pos :: rest := by
    simp [notSame, substitute_absent absent]
  rw [removed, List.map_cons, List.map_cons, map_swap_absent absent, Equiv.swap_apply_right]
  by_cases adjacent : pos = entry1
  · subst adjacent
    simp [substitute_absent notRest, substitute_absent absent]
  · have missing : pos ∉ substitute entry1 [entry2] rest := by
      rw [mem_substitute]
      simp [notRest, notSame]
    rw [if_neg adjacent, Equiv.swap_apply_of_ne_of_ne adjacent notSame]
    simp [adjacent, substitute_absent missing]

omit [DecidableEq Node] in
/-- A ring with another node beside `entry2` is read from its predecessor on. -/
theorem read_from_prev (family : Rings links rings) (inside : entry2 ∈ rings target)
    (accompanied : rings target ≠ [entry2]) :
    ∃ rest, (rings target).IsRotated (links.prev entry2 :: entry2 :: rest) ∧
      (links.prev entry2 :: entry2 :: rest).Nodup := by
  obtain ⟨others, turned⟩ := rotated_to inside
  have whole := ring_of_rotated (family.member_ring inside) turned
  rcases List.eq_nil_or_concat others with rfl | ⟨rest, last, rfl⟩
  · exact absurd (List.isRotated_singleton_iff.mp turned) accompanied
  · have closing : Linked links last entry2 := by
      apply whole.close
      rw [List.concat_eq_append, ← List.cons_append, List.getLast?_concat]
    rw [closing.2]
    have again : (rings target).IsRotated (last :: entry2 :: rest) := by
      refine turned.trans ?_
      rw [List.concat_eq_append, ← List.cons_append]
      exact List.isRotated_concat last (entry2 :: rest)
    exact ⟨rest, again, (again.nodup_iff).mp (family.member_ring inside).nodup⟩

theorem list_swap_rotated (family : Rings links rings)
    (inside2 : entry2 ∈ rings target) (distinct : entry1 ≠ entry2)
    (accompanied : rings target ≠ [entry2]) (other : Index) :
    (substitute (if links.prev entry2 = entry1 then entry2 else links.prev entry2)
        [if links.prev entry2 = entry1 then entry2 else links.prev entry2, entry1]
        (placed rings entry1 entry2 other)).IsRotated
      ((rings other).map (Equiv.swap entry1 entry2)) := by
  obtain ⟨rest, turned, whole⟩ := read_from_prev family inside2 accompanied
  by_cases here : entry2 ∈ rings other
  · have same := family.apart other target entry2 here inside2
    subst same
    rw [placed]
    refine (substitute_rotated (substitute_rotated (substitute_rotated turned))).trans ?_
    rw [placed_then_added distinct whole]
    exact (turned.map _).symm
  · -- the predecessor of `entry2` is in the ring of `entry2`, so not in this one
    have inside := turned.mem_iff.mpr List.mem_cons_self
    have missing : links.prev entry2 ∉ rings other := fun member =>
      here (family.apart other target _ member inside ▸ inside2)
    have notSame : links.prev entry2 ≠ entry2 := by
      simp only [List.nodup_cons, List.mem_cons, not_or] at whole
      exact whole.1.1
    rw [placed, substitute_absent here, map_swap_absent here]
    rw [substitute_absent]
    rw [mem_substitute]
    by_cases adjacent : links.prev entry2 = entry1
    · rw [if_pos adjacent]
      rw [adjacent] at missing
      simp [here, missing]
    · rw [if_neg adjacent]
      simp [missing, notSame]

theorem list_swap_reshapes (family : Rings links rings) (inside1 : entry1 ∈ rings index)
    (inside2 : entry2 ∈ rings target) (distinct : entry1 ≠ entry2)
    (accompanied : rings target ≠ [entry2]) :
    Reshaped links (listSwap null links entry1 entry2) rings
      (fun other => (rings other).map (Equiv.swap entry1 entry2)) [entry1, entry2] := by
  obtain ⟨rest, turned, whole⟩ := read_from_prev family inside2 accompanied
  have inside := turned.mem_iff.mpr List.mem_cons_self
  have notSame : links.prev entry2 ≠ entry2 := by
    simp only [List.nodup_cons, List.mem_cons, not_or] at whole
    exact whole.1.1
  have exchanged := swap_placed null family inside1 inside2 distinct
  have fresh : ∀ other, entry1 ∉ placed rings entry1 entry2 other := by
    intro other
    rw [mem_placed distinct]
    simp [distinct]
  obtain ⟨place, there⟩ : ∃ place,
      (if links.prev entry2 = entry1 then entry2 else links.prev entry2) ∈
        placed rings entry1 entry2 place := by
    by_cases adjacent : links.prev entry2 = entry1
    · rw [if_pos adjacent]
      exact ⟨index, (mem_placed distinct).mpr (Or.inr ⟨rfl, inside1⟩)⟩
    · rw [if_neg adjacent]
      exact ⟨target, (mem_placed distinct).mpr (Or.inl ⟨adjacent, notSame, inside⟩)⟩
  have added := list_add_reshapes exchanged.family fresh there
  refine Reshaped.turn (exchanged.trans added ?_)
    (list_swap_rotated family inside2 distinct accompanied)
  intro node outside
  refine ⟨outside, ?_⟩
  have wider : Elsewhere rings [entry1, entry2, links.prev entry2] node := by
    refine ⟨?_, ?_⟩
    · have ⟨_, notPrev⟩ := not_neighbour family outside (by simp) inside2
      have own : node ≠ entry1 ∧ node ≠ entry2 := by simpa using outside.1
      simp [own, notPrev]
    · intro place member operand named
      have own := outside.2 place member
      simp only [List.mem_cons, List.not_mem_nil, or_false] at named own
      rcases named with rfl | rfl | rfl
      · exact own _ (Or.inl rfl)
      · exact own _ (Or.inr rfl)
      · intro near
        exact own entry2 (Or.inr rfl) (family.apart place target _ near inside ▸ inside2)
  have edited : Elsewhere (placed rings entry1 entry2) [entry1, entry2, links.prev entry2] node :=
    (wider.substitute (by simp) (by simp)).substitute (by simp) (by simp)
  apply edited.mono
  split_ifs <;> simp

/-- Added after `entry2` itself, `entry1` comes to stand behind it. -/
theorem list_swap_alone (null : Node) (family : Rings links rings) (inside1 : entry1 ∈ rings index)
    (alone : rings target = [entry2]) (distinct : entry1 ≠ entry2) :
    (listSwap null links entry1 entry2).prev entry1 = entry2 := by
  have inside2 : entry2 ∈ rings target := by simp [alone]
  have own : links.prev entry2 = entry2 := by
    have ring := family.member_ring inside2
    rw [alone] at ring
    exact (ring.close (by simp)).2
  have exchanged := swap_placed null family inside1 inside2 distinct
  have there : entry2 ∈ placed rings entry1 entry2 index :=
    (mem_placed distinct).mpr (Or.inr ⟨rfl, inside1⟩)
  have after := (exchanged.family.member_ring there).next_mem there
  rw [mem_placed distinct] at after
  rw [listSwap, own, if_neg distinct.symm, listAdd]
  apply (list_add_between_inserted _ distinct).prev_new
  intro same
  rw [← same] at after
  simp [distinct] at after

end Swap

/-! ## All operations -/

section Operations

variable {Index : Type*} {links : Links Node} {rings : Index → List Node}

/-- The second node of an exchange has another node in its ring. -/
def ListOp.SwapsAccompanied (rings : Index → List Node) : ListOp Node → Prop
  | .swap _ entry2 => ∀ index, rings index ≠ [entry2]
  | _ => True

theorem list_op_edits_sequences_iff (null : Node) (family : Rings links rings)
    (operation : ListOp Node) (admissible : operation.Admissible rings) :
    Reshaped links (operation.run null links) rings
        (fun index => operation.sequence (rings index)) operation.operands ↔
      operation.SwapsAccompanied rings := by
  cases operation with
  | add new head =>
      obtain ⟨fresh, index, inside⟩ := admissible
      exact iff_of_true (list_add_reshapes family fresh inside) trivial
  | addTail new head =>
      obtain ⟨fresh, index, inside⟩ := admissible
      exact iff_of_true (list_add_tail_reshapes family fresh inside) trivial
  | del entry =>
      obtain ⟨index, inside⟩ := admissible
      exact iff_of_true (list_del_reshapes null family inside) trivial
  | replace old new =>
      obtain ⟨fresh, index, inside⟩ := admissible
      exact iff_of_true (list_replace_reshapes family fresh inside) trivial
  | moveToHead node dstList =>
      obtain ⟨distinct, ⟨index, inside⟩, target, place⟩ := admissible
      exact iff_of_true (list_move_to_head_reshapes family inside place distinct) trivial
  | moveToTail node dstList =>
      obtain ⟨distinct, ⟨index, inside⟩, target, place⟩ := admissible
      exact iff_of_true (list_move_to_tail_reshapes family inside place distinct) trivial
  | swap entry1 entry2 =>
      obtain ⟨distinct, ⟨index, inside1⟩, target, inside2⟩ := admissible
      constructor
      · -- a lone `entry2` should leave its ring to `entry1` alone
        intro reshaped other alone
        have ring := reshaped.family.ring other
        simp only [ListOp.sequence, alone, List.map_cons, List.map_nil,
          Equiv.swap_apply_right] at ring
        have own : Linked (listSwap null links entry1 entry2) entry1 entry1 :=
          (ring (List.cons_ne_nil _ _)).close (by simp)
        exact distinct (own.2.symm.trans (list_swap_alone null family inside1 alone distinct))
      · intro accompanied
        exact list_swap_reshapes family inside1 inside2 distinct (accompanied target)

end Operations

/-! ### A ring of two nodes beside a ring of one -/

def pairAndSingle : Bool → List Nat
  | false => [1, 2]
  | true => [3]

def pairAndSingleLinks : Links Nat where
  next := fun node => if node = 1 then 2 else if node = 2 then 1 else node
  prev := fun node => if node = 1 then 2 else if node = 2 then 1 else node

theorem pair_and_single_rings : Rings pairAndSingleLinks pairAndSingle := by
  constructor
  · intro index _
    cases index <;> simp [pairAndSingle, pairAndSingleLinks, NodeRing, Linked]
  · intro index other node
    cases index <;> cases other <;> simp [pairAndSingle] <;> omega

/-- Exchanged with a node of the pair, the lone node is right as `entry1`. -/
theorem list_op_edits_sequences_sample :
    (ListOp.swap 3 1).SwapsAccompanied pairAndSingle ∧
      Reshaped pairAndSingleLinks (ListOp.run 0 pairAndSingleLinks (ListOp.swap 3 1))
        pairAndSingle (fun index => (ListOp.swap 3 1).sequence (pairAndSingle index))
        (ListOp.swap 3 1).operands := by
  have accompanied : (ListOp.swap 3 1).SwapsAccompanied pairAndSingle := by
    intro index
    cases index <;> decide
  have admissible : (ListOp.swap 3 1).Admissible pairAndSingle :=
    ⟨by decide, ⟨true, by decide⟩, ⟨false, by decide⟩⟩
  exact ⟨accompanied,
    (list_op_edits_sequences_iff 0 pair_and_single_rings _ admissible).mpr accompanied⟩

/-- As `entry2` it pulls the other node behind itself instead of giving it the
ring. -/
theorem list_swap_joins_lone_node :
    Rings pairAndSingleLinks pairAndSingle ∧ (ListOp.swap 1 3).Admissible pairAndSingle ∧
      ¬Reshaped pairAndSingleLinks (ListOp.run 0 pairAndSingleLinks (ListOp.swap 1 3))
        pairAndSingle (fun index => (ListOp.swap 1 3).sequence (pairAndSingle index))
        (ListOp.swap 1 3).operands := by
  refine ⟨pair_and_single_rings, ⟨by decide, ⟨false, by decide⟩, ⟨true, by decide⟩⟩, ?_⟩
  intro reshaped
  have ring : NodeRing (listSwap 0 pairAndSingleLinks 1 3) [1] :=
    reshaped.family.ring true (by decide)
  have behind : (listSwap 0 pairAndSingleLinks 1 3).next 1 = 2 := by decide
  exact absurd (ring.next_single.symm.trans behind) (by decide)

end ChaoOS.ListSequences
