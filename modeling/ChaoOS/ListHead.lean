import ChaoOS.LinkedRing

/-!
# The intrusive lists of `klib/list.h`

A `list_head` is a node of a type with a null node; memory is the two links of
each node. What the functions do to rings follows from the edits of
`LinkedRing`.
-/

namespace ChaoOS.ListHead

open ChaoOS.LinkedRing

set_option autoImplicit false

variable {Node : Type*} [DecidableEq Node]

def setNext (links : Links Node) (node value : Node) : Links Node :=
  { links with next := Function.update links.next node value }

def setPrev (links : Links Node) (node value : Node) : Links Node :=
  { links with prev := Function.update links.prev node value }

/-- `_list_add`. -/
def listAddBetween (links : Links Node) (new left right : Node) : Links Node :=
  let links := setNext links new right
  let links := setPrev links new left
  let links := setNext links left new
  setPrev links right new

def listAdd (links : Links Node) (new head : Node) : Links Node :=
  listAddBetween links new head (links.next head)

def listAddTail (links : Links Node) (new head : Node) : Links Node :=
  listAddBetween links new (links.prev head) head

/-- `_list_del`. -/
def listDelBetween (links : Links Node) (prev next : Node) : Links Node :=
  setPrev (setNext links prev next) next prev

def listDel (null : Node) (links : Links Node) (entry : Node) : Links Node :=
  let links := listDelBetween links (links.prev entry) (links.next entry)
  setPrev (setNext links entry null) entry null

def listReplace (links : Links Node) (old new : Node) : Links Node :=
  let links := setNext links new (links.next old)
  let links := setPrev links (links.next new) new
  let links := setPrev links new (links.prev old)
  setNext links (links.prev new) new

def listMoveToHead (null : Node) (links : Links Node) (node dstList : Node) : Links Node :=
  listAdd (listDel null links node) node dstList

def listMoveToTail (null : Node) (links : Links Node) (node dstList : Node) : Links Node :=
  listAddTail (listDel null links node) node dstList

def listSwap (null : Node) (links : Links Node) (entry1 entry2 : Node) : Links Node :=
  let pos := links.prev entry2
  let links := listDel null links entry2
  let links := listReplace links entry1 entry2
  let pos := if pos = entry1 then entry2 else pos
  listAdd links entry1 pos

/-! ## The edits they make -/

theorem list_add_between_inserted {links : Links Node} {new left right : Node}
    (notRight : new ≠ right) (notLeft : new ≠ left) :
    Inserted links (listAddBetween links new left right) new left right := by
  constructor
  case next_left => simp [listAddBetween, setNext, setPrev]
  case next_new => simp [listAddBetween, setNext, setPrev, notLeft]
  case prev_new => simp [listAddBetween, setNext, setPrev, notRight]
  case prev_right => simp [listAddBetween, setNext, setPrev]
  case next_other =>
      intro node other fresh
      simp [listAddBetween, setNext, setPrev, other, fresh]
  case prev_other =>
      intro node other fresh
      simp [listAddBetween, setNext, setPrev, other, fresh]

theorem list_add_tail_inserted {links : Links Node} {new right : Node} (notRight : new ≠ right)
    (notLeft : new ≠ links.prev right) :
    Inserted links (listAddTail links new right) new (links.prev right) right :=
  list_add_between_inserted notRight notLeft

theorem list_del_bypassed {null : Node} {links : Links Node} {entry : Node}
    (notPrev : links.prev entry ≠ entry) (notNext : links.next entry ≠ entry) :
    Bypassed links (listDel null links entry) entry (links.prev entry) (links.next entry) := by
  constructor
  case next_left => simp [listDel, listDelBetween, setNext, setPrev, notPrev]
  case prev_right => simp [listDel, listDelBetween, setNext, setPrev, notNext]
  case next_other =>
      intro node other gone
      simp [listDel, listDelBetween, setNext, setPrev, other, gone]
  case prev_other =>
      intro node other gone
      simp [listDel, listDelBetween, setNext, setPrev, other, gone]

/-! ## On a family of rings -/

section Families

variable {Index : Type*} [DecidableEq Index] {links : Links Node} {head : Index → Node}
  {members : Index → List Node} {null entry new right : Node} {index target : Index}

theorem list_add_tail_family (family : RingFamily links head members)
    (inside : right ∈ head index :: members index)
    (fresh : ∀ other, new ∉ head other :: members other) :
    RingFamily (listAddTail links new right) head
      (Function.update members index (insertBefore right new (members index))) := by
  apply family.insert inside fresh
  apply list_add_tail_inserted
  · exact fun same => fresh index (same ▸ inside)
  · exact fun same => fresh index (same ▸ (family.ring index).prev_mem inside)

omit [DecidableEq Node] [DecidableEq Index] in
/-- A member has its head beside it, so it is not its own neighbour. -/
theorem member_neighbours (family : RingFamily links head members)
    (inside : entry ∈ members index) :
    links.prev entry ≠ entry ∧ links.next entry ≠ entry := by
  have whole := family.ring index
  have distinct : head index ≠ entry := fun same => family.head_not_mem index index (same ▸ inside)
  obtain ⟨rest, turned, same⟩ := whole.turn_to (List.mem_cons_of_mem _ inside)
  have other : head index ∈ rest := by
    have member := (same (head index)).mp List.mem_cons_self
    exact (List.mem_cons.mp member).resolve_left distinct
  cases rest with
  | nil => simp at other
  | cons second rest =>
      have fresh := (List.nodup_cons.mp turned.nodup).1
      obtain ⟨last, ending⟩ : ∃ last, (second :: rest).getLast? = some last :=
        ⟨_, List.getLast?_eq_some_getLast (List.cons_ne_nil second rest)⟩
      have closing := turned.close (by rw [List.getLast?_cons_cons]; exact ending)
      have successor : links.next entry = second := turned.next_eq
      rw [closing.2, successor]
      exact ⟨fun equal => fresh (equal ▸ List.mem_of_getLast? ending),
        fun equal => fresh (equal ▸ List.mem_cons_self)⟩

theorem list_del_family (family : RingFamily links head members)
    (inside : entry ∈ members index) :
    RingFamily (listDel null links entry) head
      (Function.update members index ((members index).erase entry)) := by
  obtain ⟨notPrev, notNext⟩ := member_neighbours family inside
  exact family.remove inside (list_del_bypassed notPrev notNext)

/-- The members of each ring after `entry` has moved from ring `index` to its
place before `right` in ring `target`. -/
def moveMember (members : Index → List Node) (index target : Index) (entry right : Node) :
    Index → List Node :=
  let rest := Function.update members index ((members index).erase entry)
  Function.update rest target (insertBefore right entry (rest target))

theorem mem_move_member (family : RingFamily links head members) (inside : entry ∈ members index)
    {other : Index} {node : Node} :
    node ∈ moveMember members index target entry right other ↔
      node = entry ∧ other = target ∨ node ≠ entry ∧ node ∈ members other := by
  have erased : node ∈ Function.update members index ((members index).erase entry) other ↔
      node ≠ entry ∧ node ∈ members other := by
    by_cases here : other = index
    · subst here
      rw [Function.update_self]
      exact (family.members_nodup other).mem_erase_iff
    · rw [Function.update_of_ne here]
      constructor
      · intro member
        refine ⟨?_, member⟩
        rintro rfl
        exact here (family.apart other index node (List.mem_cons_of_mem _ member)
          (List.mem_cons_of_mem _ inside))
      · exact fun both => both.2
  rw [moveMember]
  by_cases there : other = target
  · subst there
    rw [Function.update_self, mem_insert_before, erased]
    simp
  · rw [Function.update_of_ne there, erased]
    simp [there]

theorem list_move_to_tail_family (family : RingFamily links head members)
    (inside : entry ∈ members index) (place : right ∈ head target :: members target)
    (distinct : right ≠ entry) :
    RingFamily (listMoveToTail null links entry right) head
      (moveMember members index target entry right) := by
  apply list_add_tail_family (list_del_family family inside)
  · rw [RingFamily.update_mem]
    rcases List.mem_cons.mp place with first | member
    · exact Or.inl first
    · refine Or.inr ?_
      split_ifs with same
      · subst same
        exact (List.mem_erase_of_ne distinct).mpr member
      · exact member
  · exact family.not_mem_after_remove inside

end Families

end ChaoOS.ListHead
