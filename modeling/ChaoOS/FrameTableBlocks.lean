import ChaoOS.IndexList
import ChaoOS.BuddyLayout
import ChaoOS.FrameTableModel

/-!
# The blocks a frame table stands for

The abstract content of the buddy system is two relations between block starts
and levels: the free blocks and the allocated ones. `Represents` says that a
table and its lists carry exactly these. While a call is running one block may
be in its hands: its entry is exempt until the call puts it back. The index
`framesNumber` stands for no such block.

The lists are `Threaded`, not `Linked`: an allocation pops a list without
repairing the back link of the new first block.
-/

namespace ChaoOS.FrameTableBlocks

open ChaoOS.KernelMath ChaoOS.IndexList ChaoOS.DyadicTiling ChaoOS.BuddyLayout
open ChaoOS.FrameTableModel

set_option autoImplicit false

def nextOf (mem : NormalMem) (index : Nat) : Nat := (mem.page index).nextFrame

def prevOf (mem : NormalMem) (index : Nat) : Nat := (mem.page index).prevFrame

structure Represents (mem : NormalMem) (held : Nat) (free taken : Blocks) : Prop where
  freeHead : ∀ index level, free index level ↔ index < mem.framesNumber ∧ index ≠ held ∧
    (mem.page index).flags = pageFrameBlockHead ∧ (mem.page index).level = level
  takenHead : ∀ index level, taken index level ↔ index < mem.framesNumber ∧ index ≠ held ∧
    (mem.page index).flags = pageFrameAllocated + pageFrameBlockHead ∧
    (mem.page index).level = level
  plain : ∀ index, index < mem.framesNumber → index ≠ held →
    (∀ level, ¬free index level) → (∀ level, ¬taken index level) →
    (mem.page index).flags = pageFrameAllocated ∧ (mem.page index).level = 0
  lists : ∀ level, level < buddyMaxLevel → ∃ nodes,
    Threaded (nextOf mem) (prevOf mem) mem.framesNumber (mem.freeLists level) nodes ∧
      ∀ index, index ∈ nodes ↔ free index level
  identity : ∀ index, index < mem.framesNumber → (mem.page index).index = index ∧
    (mem.page index).physicAddr = add32 mem.base (index * pageFrameSize)

/-- Between two calls no entry of the table is exempt. -/
theorem not_exempt_iff {framesNumber index : Nat} {entry : Prop} :
    (index < framesNumber ∧ index ≠ framesNumber ∧ entry) ↔ index < framesNumber ∧ entry := by
  constructor
  · rintro ⟨inside, -, holds⟩
    exact ⟨inside, holds⟩
  · rintro ⟨inside, holds⟩
    exact ⟨inside, Nat.ne_of_lt inside, holds⟩

section Facts

variable {mem : NormalMem} {held : Nat} {free taken : Blocks}

theorem Represents.free_lt (rep : Represents mem held free taken) {index level : Nat}
    (member : free index level) : index < mem.framesNumber :=
  ((rep.freeHead index level).mp member).1

theorem Represents.free_level (rep : Represents mem held free taken) {index level other : Nat}
    (left : free index level) (right : free index other) : level = other := by
  have leftLevel := ((rep.freeHead index level).mp left).2.2.2
  have rightLevel := ((rep.freeHead index other).mp right).2.2.2
  exact leftLevel.symm.trans rightLevel

theorem Represents.not_both (rep : Represents mem held free taken) {index level other : Nat}
    (left : free index level) (right : taken index other) : False := by
  have freeFlags := ((rep.freeHead index level).mp left).2.2.1
  have takenFlags := ((rep.takenHead index other).mp right).2.2.1
  rw [freeFlags] at takenFlags
  revert takenFlags
  decide

/-- A list that is not empty starts with a free block of its level. -/
theorem Represents.head_free (rep : Represents mem held free taken) {level : Nat}
    (bound : level < buddyMaxLevel) (nonempty : mem.freeLists level ≠ mem.framesNumber) :
    free (mem.freeLists level) level := by
  rcases rep.lists level bound with ⟨nodes, threaded, members⟩
  exact (members _).mp (follows_head_mem threaded.follows nonempty)

theorem Represents.head_le (rep : Represents mem held free taken) {level : Nat}
    (bound : level < buddyMaxLevel) : mem.freeLists level ≤ mem.framesNumber := by
  by_cases empty : mem.freeLists level = mem.framesNumber
  · exact empty.le
  · exact (rep.free_lt (rep.head_free bound empty)).le

end Facts

/-! ## Moves between the lists and the running call -/

@[simp] theorem next_of_set_free_list (mem : NormalMem) (level index : Nat) :
    nextOf (mem.setFreeList level index) = nextOf mem := rfl

@[simp] theorem prev_of_set_free_list (mem : NormalMem) (level index : Nat) :
    prevOf (mem.setFreeList level index) = prevOf mem := rfl

/-- What pushing the block `index` on the list of `level` leaves behind. The
back link of the pushed entry itself is left open. -/
structure Pushed (mem mem' : NormalMem) (index level : Nat) : Prop where
  sameBase : mem'.base = mem.base
  sameNumber : mem'.framesNumber = mem.framesNumber
  ownFlags : (mem'.page index).flags = pageFrameBlockHead
  ownLevel : (mem'.page index).level = level
  ownNext : nextOf mem' index = mem.freeLists level
  sameFlags : ∀ other, other ≠ index → (mem'.page other).flags = (mem.page other).flags
  sameLevel : ∀ other, other ≠ index → (mem'.page other).level = (mem.page other).level
  sameNext : ∀ other, other ≠ index → nextOf mem' other = nextOf mem other
  headPrev : mem.freeLists level ≠ mem.framesNumber → prevOf mem' (mem.freeLists level) = index
  samePrev : ∀ other, other ≠ index → other ≠ mem.freeLists level →
    prevOf mem' other = prevOf mem other
  sameIdentity : ∀ other, (mem'.page other).index = (mem.page other).index ∧
    (mem'.page other).physicAddr = (mem.page other).physicAddr
  ownList : mem'.freeLists level = index
  sameLists : ∀ other, other ≠ level → mem'.freeLists other = mem.freeLists other

section Moves

variable {mem mem' : NormalMem} {held : Nat} {free taken : Blocks}

/-- Reading an entry changes nothing the blocks depend on. -/
theorem Represents.read (rep : Represents mem held free taken) (index : Nat) :
    Represents (mem.read index) held free taken :=
  ⟨rep.freeHead, rep.takenHead, rep.plain, rep.lists, rep.identity⟩

/-- Popping the first block of a list hands it to the running call. -/
theorem Represents.pop (rep : Represents mem mem.framesNumber free taken) {level : Nat}
    (bound : level < buddyMaxLevel) (nonempty : mem.freeLists level ≠ mem.framesNumber) :
    Represents (mem.setFreeList level (nextOf mem (mem.freeLists level))) (mem.freeLists level)
      (without free (mem.freeLists level)) taken := by
  have head := rep.head_free bound nonempty
  constructor
  · intro index height
    simp only [without, rep.freeHead, frames_number_set_free_list, page_set_free_list]
    constructor
    · rintro ⟨⟨inside, _, flags, same⟩, different⟩
      exact ⟨inside, different, flags, same⟩
    · rintro ⟨inside, different, flags, same⟩
      exact ⟨⟨inside, Nat.ne_of_lt inside, flags, same⟩, different⟩
  · intro index height
    simp only [rep.takenHead, frames_number_set_free_list, page_set_free_list]
    constructor
    · intro member
      refine ⟨member.1, ?_, member.2.2⟩
      intro same
      subst same
      exact rep.not_both head ((rep.takenHead _ height).mpr member)
    · intro member
      exact ⟨member.1, Nat.ne_of_lt member.1, member.2.2⟩
  · intro index inside different notFree notTaken
    apply rep.plain index inside (Nat.ne_of_lt inside)
    · intro height member
      exact notFree height ⟨member, different⟩
    · exact notTaken
  · intro height heightBound
    rcases rep.lists height heightBound with ⟨nodes, threaded, members⟩
    by_cases same : height = level
    · subst same
      cases nodes with
      | nil => exact absurd threaded.follows nonempty
      | cons first rest =>
          have start : mem.freeLists height = first := threaded.follows.1
          refine ⟨rest, ?_, ?_⟩
          · simpa using threaded.pop
          · intro index
            have fresh := (List.nodup_cons.mp threaded.nodup).1
            rw [without, ← members index, start, List.mem_cons]
            constructor
            · intro later
              refine ⟨Or.inr later, ?_⟩
              intro equal
              exact fresh (equal ▸ later)
            · intro listed
              exact listed.1.resolve_left listed.2
    · refine ⟨nodes, ?_, ?_⟩
      · simpa [same] using threaded
      · intro index
        rw [members index, without]
        constructor
        · intro member
          refine ⟨member, ?_⟩
          intro equal
          subst equal
          exact same (rep.free_level member head)
        · exact And.left
  · exact rep.identity

/-- An entry whose flags and level stay marks the same kind of block, whichever
entry is in the hands of the running call. -/
theorem head_elsewhere {head : Prop} {index held' height status : Nat}
    (marked : head ↔ index < mem.framesNumber ∧ index ≠ held ∧
      (mem.page index).flags = status ∧ (mem.page index).level = height)
    (kept : index < mem.framesNumber → (index ≠ held' ↔ index ≠ held))
    (sameFlags : (mem'.page index).flags = (mem.page index).flags)
    (sameLevel : (mem'.page index).level = (mem.page index).level) :
    head ↔ index < mem.framesNumber ∧ index ≠ held' ∧
      (mem'.page index).flags = status ∧ (mem'.page index).level = height := by
  rw [marked, sameFlags, sameLevel]
  apply and_congr_right
  intro inside
  exact and_congr_left' (kept inside).symm

theorem with_block_elsewhere {blocks : Blocks} {index other level height : Nat}
    (different : other ≠ index) : withBlock blocks index level other height ↔ blocks other height :=
  or_iff_left fun both => different both.1

theorem with_block_own {blocks : Blocks} {index level height : Nat}
    (fresh : ¬blocks index height) : withBlock blocks index level index height ↔ level = height := by
  rw [withBlock, or_iff_right fresh]
  exact ⟨fun both => both.2.symm, fun same => ⟨rfl, same.symm⟩⟩

/-- Putting a block at the front of a list. The block is either the one in the
hands of the running call or an entry that starts no block. -/
theorem Represents.push (rep : Represents mem held free taken) {index level held' : Nat}
    (pushed : Pushed mem mem' index level) (bound : level < buddyMaxLevel)
    (inside : index < mem.framesNumber)
    (notFree : ∀ height, ¬free index height) (notTaken : ∀ height, ¬taken index height)
    (released : index ≠ held') (kept : ∀ other, other < mem.framesNumber → other ≠ index →
      (other ≠ held' ↔ other ≠ held)) :
    Represents mem' held' (withBlock free index level) taken := by
  have freeElsewhere : ∀ other height, free other height → other ≠ index := by
    intro other height member equal
    exact notFree height (equal ▸ member)
  constructor
  · intro other height
    rw [pushed.sameNumber]
    by_cases same : other = index
    · subst same
      rw [pushed.ownFlags, pushed.ownLevel, with_block_own (notFree height)]
      exact ⟨fun equal => ⟨inside, released, rfl, equal⟩, fun marked => marked.2.2.2⟩
    · rw [with_block_elsewhere same]
      exact head_elsewhere (rep.freeHead other height) (fun inTable => kept other inTable same)
        (pushed.sameFlags other same) (pushed.sameLevel other same)
  · intro other height
    rw [pushed.sameNumber]
    by_cases same : other = index
    · subst same
      rw [pushed.ownFlags]
      exact iff_of_false (notTaken height) fun marked => absurd marked.2.2.1 (by decide)
    · exact head_elsewhere (rep.takenHead other height) (fun inTable => kept other inTable same)
        (pushed.sameFlags other same) (pushed.sameLevel other same)
  · intro other otherInside different otherNotFree otherNotTaken
    rw [pushed.sameNumber] at otherInside
    have distinct : other ≠ index := by
      intro same
      exact otherNotFree level (Or.inr ⟨same, rfl⟩)
    rw [pushed.sameFlags other distinct, pushed.sameLevel other distinct]
    apply rep.plain other otherInside ((kept other otherInside distinct).mp different)
    · intro height member
      exact otherNotFree height (Or.inl member)
    · exact otherNotTaken
  · intro height heightBound
    rcases rep.lists height heightBound with ⟨nodes, threaded, members⟩
    have elsewhere : ∀ item ∈ nodes, item ≠ index := fun item listed =>
      freeElsewhere item height ((members item).mp listed)
    rw [pushed.sameNumber]
    by_cases same : height = level
    · subst same
      refine ⟨index :: nodes, ?_, ?_⟩
      · rw [pushed.ownList]
        apply threaded.push
        · intro listed
          exact elsewhere index listed rfl
        · exact Nat.ne_of_lt inside
        · exact pushed.ownNext
        · intro item listed
          exact pushed.sameNext item (elsewhere item listed)
        · exact pushed.headPrev
        · intro item listed different
          exact pushed.samePrev item (elsewhere item listed) different
      · intro other
        rw [List.mem_cons, members, withBlock, or_comm, and_iff_left rfl]
    · refine ⟨nodes, ?_, ?_⟩
      · rw [pushed.sameLists height same]
        apply threaded.congr
        · intro item listed
          exact pushed.sameNext item (elsewhere item listed)
        · intro item listed
          have member := (members item).mp listed
          apply pushed.samePrev item (elsewhere item listed)
          intro equal
          by_cases empty : mem.freeLists level = mem.framesNumber
          · exact Nat.ne_of_lt (rep.free_lt member) (equal.trans empty)
          · have head := rep.head_free bound empty
            rw [← equal] at head
            exact same (rep.free_level member head)
      · intro other
        rw [members, withBlock, or_iff_left fun both => same both.2]
  · intro other otherInside
    rw [pushed.sameNumber] at otherInside
    rw [(pushed.sameIdentity other).1, (pushed.sameIdentity other).2, pushed.sameBase]
    exact rep.identity other otherInside

theorem place_block_pushed {index level : Nat} (inside : index < mem.framesNumber)
    (head : mem.freeLists level ≠ mem.framesNumber → mem.freeLists level < mem.framesNumber)
    (distinct : mem.freeLists level ≠ index) :
    Pushed mem (placeBlock mem index level) index level := by
  constructor
  · rfl
  · rfl
  · simp [placeBlock, inside, distinct.symm]
  · simp [placeBlock, inside, distinct.symm]
  · simp [placeBlock, nextOf, inside, distinct.symm]
  · intro other different
    simp only [placeBlock, page_set_free_list, page_modify_other different,
      page_modify_keeps PageFrame.flags, implies_true]
  · intro other different
    simp only [placeBlock, page_set_free_list, page_modify_other different,
      page_modify_keeps PageFrame.level, implies_true]
  · intro other different
    simp only [placeBlock, nextOf, page_set_free_list, page_modify_other different,
      page_modify_keeps PageFrame.nextFrame, implies_true]
  · intro nonempty
    simp [placeBlock, prevOf, head nonempty]
  · intro other different notHead
    simp [placeBlock, prevOf, different, notHead]
  · intro other
    simp only [placeBlock, page_set_free_list, page_modify_keeps PageFrame.index,
      page_modify_keeps PageFrame.physicAddr, implies_true, and_self]
  · simp [placeBlock]
  · intro other different
    simp [placeBlock, different]

theorem push_right_pushed {pageIndex level : Nat}
    (inside : buddy pageIndex level < mem.framesNumber)
    (head : mem.freeLists level ≠ mem.framesNumber → mem.freeLists level < mem.framesNumber)
    (distinct : mem.freeLists level ≠ buddy pageIndex level) :
    Pushed mem (pushRight mem pageIndex level) (buddy pageIndex level) level := by
  rw [buddy] at inside distinct ⊢
  constructor
  · rfl
  · rfl
  · simp [pushRight, inside]
  · simp [pushRight, inside, distinct.symm]
  · simp [pushRight, nextOf, inside, distinct.symm]
  · intro other different
    simp only [pushRight, page_set_free_list, page_modify_other different,
      page_modify_keeps PageFrame.flags, implies_true]
  · intro other different
    simp only [pushRight, page_set_free_list, page_modify_other different,
      page_modify_keeps PageFrame.level, implies_true]
  · intro other different
    simp only [pushRight, nextOf, page_set_free_list, page_modify_other different,
      page_modify_keeps PageFrame.nextFrame, implies_true]
  · intro nonempty
    simp [pushRight, prevOf, head nonempty, distinct]
  · intro other different notHead
    simp [pushRight, prevOf, different, notHead]
  · intro other
    simp only [pushRight, page_set_free_list, page_modify_keeps PageFrame.index,
      page_modify_keeps PageFrame.physicAddr, implies_true, and_self]
  · simp [pushRight]
  · intro other different
    simp [pushRight, different]

theorem release_block_pushed {index level : Nat} (inside : index < mem.framesNumber)
    (head : mem.freeLists level ≠ mem.framesNumber → mem.freeLists level < mem.framesNumber)
    (distinct : mem.freeLists level ≠ index) :
    Pushed mem (releaseBlock mem index level) index level := by
  constructor
  · simp [releaseBlock]
  · simp [releaseBlock]
  · simp [releaseBlock, inside, distinct.symm]
  · simp [releaseBlock, inside, distinct.symm]
  · simp [releaseBlock, nextOf, inside, distinct.symm]
  · intro other different
    simp only [releaseBlock, page_set_free_list, page_modify_other different,
      page_modify_inside_keeps PageFrame.flags, implies_true]
  · intro other different
    simp only [releaseBlock, page_set_free_list, page_modify_other different,
      page_modify_inside_keeps PageFrame.level, implies_true]
  · intro other different
    simp only [releaseBlock, nextOf, page_set_free_list, page_modify_other different,
      page_modify_inside_keeps PageFrame.nextFrame, implies_true]
  · intro nonempty
    simp [releaseBlock, prevOf, head nonempty, distinct]
  · intro other different notHead
    simp [releaseBlock, prevOf, different, notHead]
  · intro other
    simp only [releaseBlock, page_set_free_list, page_modify_keeps PageFrame.index,
      page_modify_inside_keeps PageFrame.index, page_modify_keeps PageFrame.physicAddr,
      page_modify_inside_keeps PageFrame.physicAddr, implies_true, and_self]
  · simp [releaseBlock]
  · intro other different
    simp [releaseBlock, different]

theorem release_block_prev {index level : Nat} (inside : index < mem.framesNumber) :
    prevOf (releaseBlock mem index level) index = mem.framesNumber := by
  simp [releaseBlock, prevOf, inside]

/-- The block in the hands of an allocation becomes an allocated block. -/
theorem Represents.claim (rep : Represents mem held free taken) (inside : held < mem.framesNumber)
    (level : Nat) :
    Represents (claimBlock mem held level) mem.framesNumber free (withBlock taken held level) := by
  have heldFree : ∀ height, ¬free held height := fun height member =>
    ((rep.freeHead held height).mp member).2.1 rfl
  have same : ∀ other, other ≠ held → (claimBlock mem held level).page other = mem.page other := by
    intro other different
    simp [claimBlock, different]
  have freed : ∀ other, other ≠ held → other < mem.framesNumber →
      (other ≠ mem.framesNumber ↔ other ≠ held) :=
    fun other different inTable => iff_of_true (Nat.ne_of_lt inTable) different
  have ownFlags : ((claimBlock mem held level).page held).flags =
      pageFrameAllocated + pageFrameBlockHead := by
    simp [claimBlock, inside]
  have ownLevel : ((claimBlock mem held level).page held).level = level := by
    simp [claimBlock, inside]
  constructor
  · intro index height
    change free index height ↔ index < mem.framesNumber ∧ _
    by_cases here : index = held
    · subst here
      rw [ownFlags]
      exact iff_of_false (heldFree height) fun marked => absurd marked.2.2.1 (by decide)
    · exact head_elsewhere (rep.freeHead index height) (freed index here) (by rw [same index here])
        (by rw [same index here])
  · intro index height
    change withBlock taken held level index height ↔ index < mem.framesNumber ∧ _
    by_cases here : index = held
    · subst here
      have fresh : ¬taken index height := fun member => ((rep.takenHead _ _).mp member).2.1 rfl
      rw [ownFlags, ownLevel, with_block_own fresh]
      exact ⟨fun equal => ⟨inside, Nat.ne_of_lt inside, rfl, equal⟩, fun marked => marked.2.2.2⟩
    · rw [with_block_elsewhere here]
      exact head_elsewhere (rep.takenHead index height) (freed index here) (by rw [same index here])
        (by rw [same index here])
  · intro index indexInside _ notFree notTaken
    have here : index ≠ held := by
      intro equal
      exact notTaken level (Or.inr ⟨equal, rfl⟩)
    rw [same index here]
    apply rep.plain index indexInside here notFree
    intro height member
    exact notTaken height (Or.inl member)
  · intro height bound
    rcases rep.lists height bound with ⟨nodes, threaded, members⟩
    refine ⟨nodes, ?_, members⟩
    have elsewhere : ∀ item ∈ nodes, item ≠ held := by
      intro item listed equal
      exact heldFree height (equal ▸ (members item).mp listed)
    apply threaded.congr
    · intro item listed
      rw [nextOf, same item (elsewhere item listed), nextOf]
    · intro item listed
      rw [prevOf, same item (elsewhere item listed), prevOf]
  · intro index indexInside
    have known := rep.identity index indexInside
    by_cases here : index = held
    · subst here
      simpa [claimBlock, inside] using known
    · rw [same index here]
      exact known

/-- A free call takes an allocated block into its hands without touching it. -/
theorem Represents.grab (rep : Represents mem mem.framesNumber free taken) {index level : Nat}
    (member : taken index level) : Represents mem index free (without taken index) := by
  have notFree : ∀ height, ¬free index height := fun height other => rep.not_both other member
  constructor
  · intro other height
    rw [rep.freeHead]
    constructor
    · intro listed
      refine ⟨listed.1, ?_, listed.2.2⟩
      intro equal
      subst equal
      exact notFree height ((rep.freeHead other height).mpr listed)
    · intro listed
      exact ⟨listed.1, Nat.ne_of_lt listed.1, listed.2.2⟩
  · intro other height
    rw [without, rep.takenHead]
    constructor
    · intro listed
      exact ⟨listed.1.1, listed.2, listed.1.2.2⟩
    · intro listed
      exact ⟨⟨listed.1, Nat.ne_of_lt listed.1, listed.2.2⟩, listed.2.1⟩
  · intro other inside different otherFree otherTaken
    apply rep.plain other inside (Nat.ne_of_lt inside) otherFree
    intro height listed
    exact otherTaken height ⟨listed, different⟩
  · exact rep.lists
  · exact rep.identity

end Moves

end ChaoOS.FrameTableBlocks
