import ChaoOS.IndexList
import ChaoOS.SliceHeapModel

/-!
# The three lists of a manager

`Threads` says that the lists of a manager are well formed and that together
they have every allocator once: `place` tells which list an allocator is on.
Both list moves of the source keep this, the one in `kfree` also for an
allocator of another list than it expects, as long as that allocator is not the
first of its list.
-/

namespace ChaoOS.SliceLists

open ChaoOS.IndexList ChaoOS.SliceHeapModel
open ChaoOS.SliceHeapModel.Manager (nextOf prevOf)

set_option autoImplicit false

/-- The part of an allocator that is not a link. -/
def contentOf (manager : Manager) (index : Nat) : Nat × Nat × FramePtr :=
  ((manager.allocs index).firstAvai, (manager.allocs index).avaiNum,
    (manager.allocs index).targetPage)

structure Threads (manager : Manager) (place : Nat → ListName) : Prop where
  lists : ∀ name, ∃ nodes,
    Linked (nextOf manager) (prevOf manager) endFlag (manager.head name) nodes ∧
      ∀ index, index ∈ nodes ↔ index < endFlag ∧ place index = name

/-! ## Reading a manager after an update -/

section Updates

variable (manager : Manager) (index other value : Nat) (name target : ListName)
  (change : SliceAllocator → SliceAllocator)

@[simp] theorem head_set_head : (manager.setHead name value).head target =
    if target = name then value else manager.head target := by
  cases name <;> cases target <;> rfl

@[simp] theorem next_of_set_head : nextOf (manager.setHead name value) = nextOf manager := by
  cases name <;> rfl

@[simp] theorem prev_of_set_head : prevOf (manager.setHead name value) = prevOf manager := by
  cases name <;> rfl

@[simp] theorem content_of_set_head : contentOf (manager.setHead name value) = contentOf manager := by
  cases name <;> rfl

@[simp] theorem head_modify : (manager.modify index change).head target = manager.head target := by
  cases target <;> rfl

@[simp] theorem allocs_modify : (manager.modify index change).allocs other =
    if other = index then change (manager.allocs other) else manager.allocs other := rfl

@[simp] theorem next_of_set_next : nextOf (manager.setNext index value) other =
    if other = index then value else nextOf manager other := by
  simp only [nextOf, Manager.setNext, allocs_modify, apply_ite SliceAllocator.nextAllocator]

@[simp] theorem prev_of_set_next : prevOf (manager.setNext index value) other =
    prevOf manager other := by
  simp only [prevOf, Manager.setNext, allocs_modify, apply_ite SliceAllocator.prevAllocator, ite_self]

@[simp] theorem next_of_set_prev : nextOf (manager.setPrev index value) other =
    nextOf manager other := by
  simp only [nextOf, Manager.setPrev, allocs_modify, apply_ite SliceAllocator.nextAllocator, ite_self]

@[simp] theorem prev_of_set_prev : prevOf (manager.setPrev index value) other =
    if other = index then value else prevOf manager other := by
  simp only [prevOf, Manager.setPrev, allocs_modify, apply_ite SliceAllocator.prevAllocator]

@[simp] theorem content_of_set_next : contentOf (manager.setNext index value) other =
    contentOf manager other := by
  simp only [contentOf, Manager.setNext, allocs_modify, apply_ite SliceAllocator.firstAvai,
    apply_ite SliceAllocator.avaiNum, apply_ite SliceAllocator.targetPage, ite_self]

@[simp] theorem content_of_set_prev : contentOf (manager.setPrev index value) other =
    contentOf manager other := by
  simp only [contentOf, Manager.setPrev, allocs_modify, apply_ite SliceAllocator.firstAvai,
    apply_ite SliceAllocator.avaiNum, apply_ite SliceAllocator.targetPage, ite_self]

@[simp] theorem head_set_next : (manager.setNext index value).head target = manager.head target :=
  head_modify manager index target _

@[simp] theorem head_set_prev : (manager.setPrev index value).head target = manager.head target :=
  head_modify manager index target _

@[simp] theorem head_set_prev_of :
    (manager.setPrevOf index value).head target = manager.head target := by
  unfold Manager.setPrevOf
  split_ifs <;> simp

@[simp] theorem next_of_set_prev_of : nextOf (manager.setPrevOf index value) other =
    nextOf manager other := by
  unfold Manager.setPrevOf
  split_ifs <;> simp

@[simp] theorem prev_of_set_prev_of : prevOf (manager.setPrevOf index value) other =
    if other = index ∧ index ≠ endFlag then value else prevOf manager other := by
  unfold Manager.setPrevOf
  by_cases last : index = endFlag
  · simp [last]
  · simp [last]

@[simp] theorem content_of_set_prev_of : contentOf (manager.setPrevOf index value) other =
    contentOf manager other := by
  unfold Manager.setPrevOf
  split_ifs <;> simp

@[simp] theorem record_set_head : (manager.setHead name value).sliceSize = manager.sliceSize ∧
    (manager.setHead name value).next = manager.next := by
  cases name <;> exact ⟨rfl, rfl⟩

@[simp] theorem record_set_prev_of : (manager.setPrevOf index value).sliceSize = manager.sliceSize ∧
    (manager.setPrevOf index value).next = manager.next := by
  unfold Manager.setPrevOf
  split_ifs <;> exact ⟨rfl, rfl⟩

@[simp] theorem record_set_link : (manager.setNext index value).sliceSize = manager.sliceSize ∧
    (manager.setNext index value).next = manager.next ∧
    (manager.setPrev index value).sliceSize = manager.sliceSize ∧
    (manager.setPrev index value).next = manager.next :=
  ⟨rfl, rfl, rfl, rfl⟩

end Updates

/-! ## The move in `kmalloc_helper` -/

section MoveFields

variable (manager : Manager) {source target : ListName}

theorem move_head_next_of (apart : source ≠ target) (index : Nat) :
    nextOf (manager.moveHead source target) index =
      if index = manager.head source then manager.head target else nextOf manager index := by
  unfold Manager.moveHead
  dsimp only
  split_ifs <;> simp_all [apart.symm]

theorem move_head_head (apart : source ≠ target) (name : ListName) :
    (manager.moveHead source target).head name =
      if name = target then manager.head source
      else if name = source then nextOf manager (manager.head source)
      else manager.head name := by
  unfold Manager.moveHead
  dsimp only
  split_ifs <;> simp_all

theorem move_head_prev_of (apart : source ≠ target) (index : Nat) :
    prevOf (manager.moveHead source target) index =
      if index = manager.head target ∧ manager.head target ≠ endFlag then manager.head source
      else if index = manager.head source ∧ manager.head target ≠ endFlag then
        if manager.head target = nextOf manager (manager.head source) then
          prevOf manager (manager.head source)
        else prevOf manager (manager.head target)
      else if index = nextOf manager (manager.head source) ∧
          nextOf manager (manager.head source) ≠ endFlag then
        prevOf manager (manager.head source)
      else prevOf manager index := by
  unfold Manager.moveHead
  dsimp only
  by_cases empty : manager.head target = endFlag
  · simp [apart.symm, empty]
  · simp only [head_set_head, apart.symm, if_false, head_set_prev_of, empty, ne_eq,
      not_false_eq_true, if_true, prev_of_set_head, prev_of_set_prev, prev_of_set_next,
      prev_of_set_prev_of, and_true]
    split_ifs <;> simp_all

theorem move_head_content (index : Nat) :
    contentOf (manager.moveHead source target) index = contentOf manager index := by
  unfold Manager.moveHead
  dsimp only
  split_ifs <;> simp

theorem move_head_record : (manager.moveHead source target).sliceSize = manager.sliceSize ∧
    (manager.moveHead source target).next = manager.next := by
  unfold Manager.moveHead
  dsimp only
  split_ifs <;> simp

/-! ## The move in `kfree` -/

theorem move_node_next_of (apart : source ≠ target) (moved index : Nat) :
    nextOf (manager.moveNode source target moved) index =
      if index = moved then manager.head target
      else if index = prevOf manager moved ∧ prevOf manager moved ≠ endFlag then
        nextOf manager moved
      else nextOf manager index := by
  unfold Manager.moveNode
  dsimp only
  by_cases first : prevOf manager moved = endFlag
  · simp [first, apart.symm]
  · simp [first]

theorem move_node_prev_of (apart : source ≠ target) (moved index : Nat) :
    prevOf (manager.moveNode source target moved) index =
      if index = manager.head target ∧ manager.head target ≠ endFlag then moved
      else if index = moved then endFlag
      else if index = nextOf manager moved ∧ nextOf manager moved ≠ endFlag then
        prevOf manager moved
      else prevOf manager index := by
  unfold Manager.moveNode
  dsimp only
  by_cases first : prevOf manager moved = endFlag
  · simp [first, apart.symm]
  · simp [first]

theorem move_node_head (moved : Nat) (name : ListName) :
    (manager.moveNode source target moved).head name =
      if name = target then moved
      else if name = source ∧ prevOf manager moved = endFlag then nextOf manager moved
      else manager.head name := by
  unfold Manager.moveNode
  dsimp only
  by_cases first : prevOf manager moved = endFlag
  · simp [first]
  · simp [first]

theorem move_node_content (moved index : Nat) :
    contentOf (manager.moveNode source target moved) index = contentOf manager index := by
  unfold Manager.moveNode
  dsimp only
  split_ifs <;> simp

theorem move_node_record (moved : Nat) :
    (manager.moveNode source target moved).sliceSize = manager.sliceSize ∧
      (manager.moveNode source target moved).next = manager.next := by
  unfold Manager.moveNode
  dsimp only
  split_ifs <;> simp

end MoveFields

/-! ## Both moves keep the lists -/

section Moves

variable {manager : Manager} {place : Nat → ListName} {source target : ListName}

theorem Threads.head_mem (threads : Threads manager place) {name : ListName}
    (nonempty : manager.head name ≠ endFlag) :
    manager.head name < endFlag ∧ place (manager.head name) = name := by
  rcases threads.lists name with ⟨nodes, linked, members⟩
  exact (members _).mp (follows_head_mem linked.follows nonempty)

/-- Allocators of different lists are different. -/
theorem Threads.head_ne (threads : Threads manager place) {name : ListName} {index : Nat}
    (inside : index < endFlag) (elsewhere : place index ≠ name) : manager.head name ≠ index := by
  intro same
  have nonempty : manager.head name ≠ endFlag := by
    rw [same]
    exact Nat.ne_of_lt inside
  have facts := threads.head_mem nonempty
  rw [same] at facts
  exact elsewhere facts.2

theorem Threads.next_place (threads : Threads manager place) {index : Nat}
    (inside : index < endFlag) : nextOf manager index = endFlag ∨
      (nextOf manager index < endFlag ∧ place (nextOf manager index) = place index) := by
  rcases threads.lists (place index) with ⟨nodes, linked, members⟩
  rcases follows_next_mem linked.follows ((members index).mpr ⟨inside, rfl⟩) with listed | last
  · exact Or.inr ((members _).mp listed)
  · exact Or.inl last

theorem Threads.prev_place (threads : Threads manager place) {index : Nat}
    (inside : index < endFlag) : prevOf manager index = endFlag ∨
      (prevOf manager index < endFlag ∧ place (prevOf manager index) = place index) := by
  rcases threads.lists (place index) with ⟨nodes, linked, members⟩
  rcases back_linked_prev_mem linked.back ((members index).mpr ⟨inside, rfl⟩) with last | listed
  · exact Or.inl last
  · exact Or.inr ((members _).mp listed)

section MoveNode

variable {index : Nat}

/-- A node of another list has none of the forward links that change. -/
theorem Threads.moved_next (threads : Threads manager place) (apart : source ≠ target)
    (inside : index < endFlag) {item : Nat} (bound : item < endFlag)
    (elsewhere : place item ≠ place index) :
    nextOf (manager.moveNode source target index) item = nextOf manager item := by
  have different : item ≠ index := by
    intro same
    rw [same] at elsewhere
    exact elsewhere rfl
  have notPrev : item ≠ prevOf manager index := by
    intro same
    rcases threads.prev_place inside with last | ⟨_, here⟩
    · omega
    · rw [← same] at here
      exact elsewhere here
  rw [move_node_next_of manager apart]
  simp [different, notPrev]

/-- Of the backward links only that of the first node of the target list changes. -/
theorem Threads.moved_prev (threads : Threads manager place) (apart : source ≠ target)
    (inside : index < endFlag) {item : Nat} (bound : item < endFlag)
    (elsewhere : place item ≠ place index) (notFirst : item ≠ manager.head target) :
    prevOf (manager.moveNode source target index) item = prevOf manager item := by
  have different : item ≠ index := by
    intro same
    rw [same] at elsewhere
    exact elsewhere rfl
  have notNext : item ≠ nextOf manager index := by
    intro same
    rcases threads.next_place inside with last | ⟨_, here⟩
    · omega
    · rw [← same] at here
      exact elsewhere here
  rw [move_node_prev_of manager apart]
  simp [different, notNext, notFirst]

variable {name : ListName} {nodes : List Nat}

/-- The target list has the node in front. -/
theorem Threads.moved_target (threads : Threads manager place) (apart : source ≠ target)
    (inside : index < endFlag) (leaves : place index ≠ target)
    (linked : Linked (nextOf manager) (prevOf manager) endFlag (manager.head target) nodes)
    (members : ∀ item, item ∈ nodes ↔ item < endFlag ∧ place item = target) :
    Linked (nextOf (manager.moveNode source target index))
      (prevOf (manager.moveNode source target index)) endFlag
      ((manager.moveNode source target index).head target) (index :: nodes) := by
  have notTarget := threads.head_ne inside leaves
  have elsewhere : ∀ item ∈ nodes, item < endFlag ∧ place item ≠ place index := by
    intro item listed
    have facts := (members item).mp listed
    exact ⟨facts.1, by rw [facts.2]; exact leaves.symm⟩
  rw [move_node_head manager, if_pos rfl]
  apply linked.push
  · intro listed
    exact (elsewhere index listed).2 rfl
  · exact Nat.ne_of_lt inside
  · rw [move_node_next_of manager apart, if_pos rfl]
  · intro item listed
    exact threads.moved_next apart inside (elsewhere item listed).1 (elsewhere item listed).2
  · rw [move_node_prev_of manager apart]
    simp [notTarget.symm]
  · intro occupied
    rw [move_node_prev_of manager apart]
    simp [occupied]
  · intro item listed notFirst
    exact threads.moved_prev apart inside (elsewhere item listed).1 (elsewhere item listed).2 notFirst

/-- The list the node was on goes past it. -/
theorem Threads.moved_own (threads : Threads manager place) (apart : source ≠ target)
    (inside : index < endFlag) (leaves : place index ≠ target)
    (expected : manager.head (place index) = index → place index = source)
    (linked : Linked (nextOf manager) (prevOf manager) endFlag (manager.head (place index)) nodes)
    (members : ∀ item, item ∈ nodes ↔ item < endFlag ∧ place item = place index) :
    Linked (nextOf (manager.moveNode source target index))
      (prevOf (manager.moveNode source target index)) endFlag
      ((manager.moveNode source target index).head (place index)) (nodes.erase index) := by
  have member : index ∈ nodes := (members index).mpr ⟨inside, rfl⟩
  have sent : (manager.moveNode source target index).head (place index) =
      if prevOf manager index = endFlag then nextOf manager index
      else manager.head (place index) := by
    rw [move_node_head manager, if_neg leaves]
    by_cases first : prevOf manager index = endFlag
    · have isHead := linked.head_of_prev member first
      rw [if_pos ⟨expected isHead, first⟩, if_pos first]
    · rw [if_neg (fun both => first both.2), if_neg first]
  rw [sent]
  apply linked.unlink member
  · intro item listed different
    have bound := ((members item).mp listed).1
    rw [move_node_next_of manager apart, if_neg different]
    by_cases before : item = prevOf manager index
    · have occupied : prevOf manager index ≠ endFlag := by omega
      rw [if_pos ⟨before, occupied⟩, if_pos before]
    · rw [if_neg (fun both => before both.1), if_neg before]
  · intro item listed different
    have facts := (members item).mp listed
    have notFirst := threads.head_ne facts.1 (by rw [facts.2]; exact leaves)
    rw [move_node_prev_of manager apart]
    by_cases after : item = nextOf manager index
    · have occupied : nextOf manager index ≠ endFlag := by omega
      simp [← after, notFirst.symm, different, Nat.ne_of_lt facts.1]
    · simp [after, notFirst.symm, different]

/-- Any other list stays as it is. -/
theorem Threads.moved_other (threads : Threads manager place) (apart : source ≠ target)
    (inside : index < endFlag)
    (expected : manager.head (place index) = index → place index = source)
    (notTarget : name ≠ target) (notOwn : name ≠ place index)
    (linked : Linked (nextOf manager) (prevOf manager) endFlag (manager.head name) nodes)
    (members : ∀ item, item ∈ nodes ↔ item < endFlag ∧ place item = name) :
    Linked (nextOf (manager.moveNode source target index))
      (prevOf (manager.moveNode source target index)) endFlag
      ((manager.moveNode source target index).head name) nodes := by
  have elsewhere : ∀ item ∈ nodes, item < endFlag ∧ place item ≠ place index := by
    intro item listed
    have facts := (members item).mp listed
    exact ⟨facts.1, by rw [facts.2]; exact notOwn⟩
  have sameHead : (manager.moveNode source target index).head name = manager.head name := by
    rw [move_node_head manager, if_neg notTarget, if_neg]
    intro both
    rcases threads.lists (place index) with ⟨_, ownLinked, ownMembers⟩
    have isHead := ownLinked.head_of_prev ((ownMembers index).mpr ⟨inside, rfl⟩) both.2
    exact notOwn (both.1.trans (expected isHead).symm)
  rw [sameHead]
  apply linked.congr
  · intro item listed
    exact threads.moved_next apart inside (elsewhere item listed).1 (elsewhere item listed).2
  · intro item listed
    have facts := (members item).mp listed
    apply threads.moved_prev apart inside (elsewhere item listed).1 (elsewhere item listed).2
    exact (threads.head_ne facts.1 (by rw [facts.2]; exact notTarget)).symm

end MoveNode

/-- `kfree` unlinks an allocator from the list it is on, provided that list is
the expected one or the allocator has a predecessor. -/
theorem Threads.move_node (threads : Threads manager place) (apart : source ≠ target) {index : Nat}
    (inside : index < endFlag) (leaves : place index ≠ target)
    (expected : manager.head (place index) = index → place index = source) :
    Threads (manager.moveNode source target index) (Function.update place index target) := by
  constructor
  intro name
  rcases threads.lists name with ⟨nodes, linked, members⟩
  by_cases toTarget : name = target
  · subst toTarget
    refine ⟨index :: nodes, threads.moved_target apart inside leaves linked members, ?_⟩
    intro other
    rw [List.mem_cons, members, Function.update_apply]
    by_cases here : other = index
    · simp [here, inside]
    · simp [here]
  · by_cases own : name = place index
    · subst own
      refine ⟨nodes.erase index, threads.moved_own apart inside leaves expected linked members, ?_⟩
      intro other
      rw [linked.nodup.mem_erase_iff, members, Function.update_apply]
      by_cases here : other = index
      · rw [if_pos here]
        exact iff_of_false (fun both => both.1 here) fun both => leaves both.2.symm
      · rw [if_neg here]
        simp [here]
    · refine ⟨nodes, threads.moved_other apart inside expected toTarget own linked members, ?_⟩
      intro other
      rw [members, Function.update_apply]
      by_cases here : other = index
      · rw [if_pos here, here]
        simp [Ne.symm toTarget, Ne.symm own]
      · rw [if_neg here]

theorem Threads.congr {manager' : Manager} (threads : Threads manager place)
    (sameNext : ∀ index, nextOf manager' index = nextOf manager index)
    (samePrev : ∀ index, prevOf manager' index = prevOf manager index)
    (sameHead : ∀ name, manager'.head name = manager.head name) : Threads manager' place := by
  constructor
  intro name
  rcases threads.lists name with ⟨nodes, linked, members⟩
  rw [sameHead name]
  exact ⟨nodes, linked.congr (fun item _ => sameNext item) (fun item _ => samePrev item), members⟩

/-- On well formed lists the move in `kmalloc_helper` is the one in `kfree`. -/
theorem Threads.move_head (threads : Threads manager place) (apart : source ≠ target)
    (nonempty : manager.head source ≠ endFlag) :
    Threads (manager.moveHead source target)
      (Function.update place (manager.head source) target) := by
  rcases threads.head_mem nonempty with ⟨inside, placed⟩
  have leaves : place (manager.head source) ≠ target := by
    rw [placed]
    exact apart
  have notTarget := threads.head_ne inside leaves
  have firstLink : prevOf manager (manager.head source) = endFlag := by
    rcases threads.lists source with ⟨_, linked, _⟩
    exact linked.anchored nonempty
  have targetLink : manager.head target ≠ endFlag → prevOf manager (manager.head target) = endFlag := by
    rcases threads.lists target with ⟨_, linked, _⟩
    exact linked.anchored
  apply (threads.move_node apart inside leaves fun _ => placed).congr
  · intro index
    rw [move_head_next_of manager apart, move_node_next_of manager apart]
    simp [firstLink]
  · intro index
    rw [move_head_prev_of manager apart, move_node_prev_of manager apart, firstLink]
    by_cases empty : manager.head target = endFlag
    · by_cases here : index = manager.head source
      · simp [empty, here, firstLink]
      · simp [empty, here]
    · simp [empty, targetLink empty]
  · intro name
    rw [move_head_head manager apart, move_node_head manager]
    simp [firstLink]

end Moves

end ChaoOS.SliceLists
