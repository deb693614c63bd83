import ChaoOS.KernelMath

/-!
# The buddy system of `kernel/pmm.c`

A direct transcription of the frame table and its eleven free lists. A list is
threaded through the table by frame indices, and `framesNumber`, one past the
last index, is the end mark of every list.

The table has `framesNumber` entries. A read past its end finds no block head
and a write past its end changes no entry; results about memory as a whole ask
that the word it changes is outside the pool. `accesses` is bookkeeping: it keeps
the index of every table entry the code reads or writes, newest first, so that
the bounds of those accesses can be stated.
-/

namespace ChaoOS.FrameTableModel

open ChaoOS.KernelMath

set_option autoImplicit false

def buddyMaxLevel : Nat := 11

def pageFrameSize : Nat := 4096

def pageFrameBlockHead : Nat := 2

def pageFrameAllocated : Nat := 1

structure PageFrame where
  flags : Nat
  level : Nat
  physicAddr : Nat
  index : Nat
  prevFrame : Nat
  nextFrame : Nat
  allocator : Nat
  deriving DecidableEq, Repr

/-- What a read past the end of the table finds. -/
def outsideFrame : PageFrame :=
  { flags := 0, level := 0, physicAddr := 0, index := 0, prevFrame := 0, nextFrame := 0,
    allocator := 0 }

structure NormalMem where
  base : Nat
  length : Nat
  framesNumber : Nat
  freeLists : Nat → Nat
  frames : Nat → PageFrame
  accesses : List Nat

namespace NormalMem

def page (mem : NormalMem) (index : Nat) : PageFrame :=
  if index < mem.framesNumber then mem.frames index else outsideFrame

/-- Records that `pages[index]` is read; the value read is `mem.page index`. -/
def read (mem : NormalMem) (index : Nat) : NormalMem :=
  { mem with accesses := index :: mem.accesses }

/-- An assignment to fields of `pages[index]`. -/
def modify (mem : NormalMem) (index : Nat) (change : PageFrame → PageFrame) : NormalMem :=
  { mem with
    frames := fun other => if other = index then change (mem.frames other) else mem.frames other
    accesses := index :: mem.accesses }

/-- An assignment under the test `index < frames_number`. -/
def modifyInside (mem : NormalMem) (index : Nat) (change : PageFrame → PageFrame) : NormalMem :=
  if index < mem.framesNumber then mem.modify index change else mem

def setFreeList (mem : NormalMem) (level index : Nat) : NormalMem :=
  { mem with freeLists := fun other => if other = level then index else mem.freeLists other }

/-- Sends whatever leads to an unlinked block on to its successor: the list head
when the block has no predecessor, else the predecessor's forward link. -/
def bypass (mem : NormalMem) (level prev next : Nat) : NormalMem :=
  if prev = mem.framesNumber then mem.setFreeList level next
  else mem.modify prev fun frame => { frame with nextFrame := next }

end NormalMem

/-! ## `init_normal_mem_zone` -/

def initialFrame (memBase framesNumber i : Nat) : PageFrame where
  flags := pageFrameAllocated
  level := 0
  physicAddr := add32 memBase (i * pageFrameSize)
  index := i
  prevFrame := framesNumber
  nextFrame := framesNumber
  allocator := 0

/-- The zone once the lists and the table entries are filled in, before any
block is placed. -/
def clearedZone (memBase framesNumber : Nat) : NormalMem where
  base := memBase
  length := framesNumber * pageFrameSize % wordSize
  framesNumber := framesNumber
  freeLists := fun _ => framesNumber
  frames := initialFrame memBase framesNumber
  accesses := (List.range framesNumber).reverse

/-- The inner `while`: halve the block until it ends inside the table. The
difference is taken on unsigned words, as in the source. -/
def shrinkBlock (framesNumber i : Nat) : Nat → Nat → Nat → Nat × Nat
  | 0, blockPageSize, blockLevel => (blockPageSize, blockLevel)
  | fuel + 1, blockPageSize, blockLevel =>
      if sub32 framesNumber blockPageSize < i then
        shrinkBlock framesNumber i fuel (blockPageSize / 2) (blockLevel - 1)
      else (blockPageSize, blockLevel)

def placeBlock (mem : NormalMem) (i blockLevel : Nat) : NormalMem :=
  let mem := mem.modify i fun frame => { frame with flags := pageFrameBlockHead }
  let mem := mem.modify i fun frame => { frame with level := blockLevel }
  let tmp := mem.freeLists blockLevel
  let mem := mem.modify i fun frame => { frame with nextFrame := tmp }
  let mem := mem.modify tmp fun frame => { frame with prevFrame := i }
  mem.setFreeList blockLevel i

def placeBlocks : Nat → Nat → Nat → Nat → NormalMem → NormalMem
  | 0, _, _, _, mem => mem
  | fuel + 1, i, blockPageSize, blockLevel, mem =>
      if i < mem.framesNumber then
        let block := shrinkBlock mem.framesNumber i buddyMaxLevel blockPageSize blockLevel
        placeBlocks fuel (i + block.1) block.1 block.2 (placeBlock mem i block.2)
      else mem

/-- The zone `init_normal_mem_zone` leaves for a pool of `framesNumber` frames
that starts at `memBase`. -/
def initNormalMemZone (memBase framesNumber : Nat) : NormalMem :=
  placeBlocks framesNumber 0 (1 <<< (buddyMaxLevel - 1)) (buddyMaxLevel - 1)
    (clearedZone memBase framesNumber)

/-! ## Allocation -/

/-- The first level from `current` on whose list is not empty. -/
def availableLevel (mem : NormalMem) : Nat → Nat → Nat
  | 0, current => current
  | fuel + 1, current =>
      if current < buddyMaxLevel ∧ mem.freeLists current = mem.framesNumber then
        availableLevel mem fuel (current + 1)
      else current

/-- One round of the split loop: the upper half goes on the list of `current`. -/
def pushRight (mem : NormalMem) (pageIndex current : Nat) : NormalMem :=
  let right := pageIndex ^^^ (1 <<< current)
  let mem := mem.modify right fun frame => { frame with level := current }
  let mem := mem.modify (mem.freeLists current) fun frame => { frame with prevFrame := right }
  let mem := mem.modify right fun frame => { frame with nextFrame := mem.freeLists current }
  let mem := mem.modify right fun frame => { frame with flags := pageFrameBlockHead }
  mem.setFreeList current right

def splitBlock (level pageIndex : Nat) : Nat → NormalMem → NormalMem
  | 0, mem => mem
  | current + 1, mem =>
      if level < current + 1 then splitBlock level pageIndex current (pushRight mem pageIndex current)
      else mem

def claimBlock (mem : NormalMem) (pageIndex level : Nat) : NormalMem :=
  let mem := mem.modify pageIndex fun frame =>
    { frame with flags := pageFrameAllocated + pageFrameBlockHead }
  let mem := mem.modify pageIndex fun frame => { frame with level := level }
  let mem := mem.modify pageIndex fun frame => { frame with prevFrame := mem.framesNumber }
  mem.modify pageIndex fun frame => { frame with nextFrame := mem.framesNumber }

/-- The returned frame pointer is given by its table index, `none` being null. -/
def buddySystemGetFramePageBlock (level : Nat) (mem : NormalMem) : Option Nat × NormalMem :=
  let currentLevel := availableLevel mem buddyMaxLevel level
  if buddyMaxLevel ≤ currentLevel then (none, mem)
  else
    let pageIndex := mem.freeLists currentLevel
    let mem := mem.read pageIndex
    let mem := mem.setFreeList currentLevel (mem.page pageIndex).nextFrame
    let mem := splitBlock level pageIndex currentLevel mem
    (some pageIndex, claimBlock mem pageIndex level)

/-- `none` when the call does not return, which is left to `power_of_2`. -/
def frameAlloc (framePageNumber : Nat) (mem : NormalMem) : Option (Option Nat × NormalMem) := do
  let level ← powerOf2 (nextPowerOf2 framePageNumber)
  some (buddySystemGetFramePageBlock level mem)

def pageCount (byteSize : Nat) : Nat :=
  byteSize / pageFrameSize + if 0 < byteSize % pageFrameSize then 1 else 0

/-- The returned address is zero when there is no block. -/
def physicAlloc (byteSize : Nat) (mem : NormalMem) : Option (Nat × NormalMem) := do
  let (retPage, mem) ← frameAlloc (pageCount byteSize) mem
  match retPage with
  | none => some (0, mem)
  | some index => some ((mem.page index).physicAddr, mem.read index)

/-! ## Release -/

/-- The swap in the loop makes the lower index the head of the merged block. -/
def lowerOf (pageIndex buddyIndex : Nat) : Nat :=
  if buddyIndex < pageIndex then buddyIndex else pageIndex

def upperOf (pageIndex buddyIndex : Nat) : Nat :=
  if buddyIndex < pageIndex then pageIndex else buddyIndex

/-- One round of the coalescing loop, for a buddy the loop test has accepted. -/
def mergeBuddy (mem : NormalMem) (level pageIndex buddyIndex : Nat) : NormalMem :=
  let mem := mem.read buddyIndex
  let prev := (mem.page buddyIndex).prevFrame
  let next := (mem.page buddyIndex).nextFrame
  let mem := mem.bypass level prev next
  let mem := mem.modifyInside next fun frame => { frame with prevFrame := prev }
  let upper := upperOf pageIndex buddyIndex
  let mem := mem.modify upper fun frame => { frame with flags := pageFrameAllocated }
  let mem := mem.modify upper fun frame => { frame with level := 0 }
  mem.modify (lowerOf pageIndex buddyIndex) fun frame => { frame with level := level + 1 }

/-- The loop ends by itself at level 10, so its fuel is the level left to climb. -/
def coalesce : Nat → NormalMem → Nat → Nat → NormalMem × Nat × Nat
  | 0, mem, pageIndex, level => (mem, pageIndex, level)
  | fuel + 1, mem, pageIndex, level =>
      let buddyIndex := pageIndex ^^^ (1 <<< level)
      if level < buddyMaxLevel - 1 then
        let mem := mem.read buddyIndex
        if level = (mem.page buddyIndex).level ∧ (mem.page buddyIndex).flags = pageFrameBlockHead then
          coalesce fuel (mergeBuddy mem level pageIndex buddyIndex)
            (lowerOf pageIndex buddyIndex) (level + 1)
        else (mem, pageIndex, level)
      else (mem, pageIndex, level)

def releaseBlock (mem : NormalMem) (pageIndex level : Nat) : NormalMem :=
  let mem := mem.modify pageIndex fun frame => { frame with flags := pageFrameBlockHead }
  let mem := mem.modify pageIndex fun frame => { frame with level := level }
  let tmp := mem.freeLists level
  let mem := mem.modify pageIndex fun frame => { frame with nextFrame := mem.freeLists level }
  let mem := mem.modifyInside tmp fun frame => { frame with prevFrame := pageIndex }
  let mem := mem.modify pageIndex fun frame => { frame with prevFrame := mem.framesNumber }
  mem.setFreeList level pageIndex

/-- The guard tests the head flag twice, as the source does; it never looks at
the allocated flag. -/
def buddySystemFreeFramePageBlock (pageIndex : Nat) (mem : NormalMem) : Nat × NormalMem :=
  if mem.framesNumber ≤ pageIndex then (0, mem)
  else
    let mem := mem.read pageIndex
    if (mem.page pageIndex).flags &&& pageFrameBlockHead = 0 ∨
        (mem.page pageIndex).flags &&& pageFrameBlockHead = 0 then (0, mem)
    else
      let level := (mem.page pageIndex).level
      let merged := coalesce buddyMaxLevel mem pageIndex level
      (1, releaseBlock merged.1 merged.2.1 merged.2.2)

def physicFree (physicAddr : Nat) (mem : NormalMem) : Nat × NormalMem :=
  if physicAddr = 0 then (0, mem)
  else buddySystemFreeFramePageBlock (sub32 physicAddr mem.base / pageFrameSize) mem

def frameFree (frame : Option Nat) (mem : NormalMem) : Nat × NormalMem :=
  match frame with
  | none => (0, mem)
  | some position => buddySystemFreeFramePageBlock (mem.page position).index (mem.read position)

/-! ## Reading a table after an update -/

section Updates

variable (mem : NormalMem) (index other level value : Nat) (change : PageFrame → PageFrame)

@[simp] theorem page_read : (mem.read index).page other = mem.page other := by
  unfold NormalMem.page NormalMem.read
  rfl

@[simp] theorem page_set_free_list : (mem.setFreeList level value).page other = mem.page other := by
  unfold NormalMem.page NormalMem.setFreeList
  rfl

@[simp] theorem frames_number_read : (mem.read index).framesNumber = mem.framesNumber := by
  simp only [NormalMem.read]

@[simp] theorem frames_number_modify :
    (mem.modify index change).framesNumber = mem.framesNumber := by
  simp only [NormalMem.modify]

@[simp] theorem frames_number_set_free_list :
    (mem.setFreeList level value).framesNumber = mem.framesNumber := by
  simp only [NormalMem.setFreeList]

@[simp] theorem base_read : (mem.read index).base = mem.base := rfl

@[simp] theorem base_modify : (mem.modify index change).base = mem.base := rfl

@[simp] theorem base_set_free_list : (mem.setFreeList level value).base = mem.base := rfl

@[simp] theorem free_lists_read : (mem.read index).freeLists = mem.freeLists := rfl

@[simp] theorem free_lists_modify : (mem.modify index change).freeLists = mem.freeLists := rfl

@[simp] theorem free_lists_set_free_list :
    (mem.setFreeList level value).freeLists other =
      if other = level then value else mem.freeLists other := rfl

@[simp] theorem page_modify : (mem.modify index change).page other =
    if other = index ∧ other < mem.framesNumber then change (mem.page other) else mem.page other := by
  unfold NormalMem.page NormalMem.modify
  by_cases same : other = index
  · subst same
    by_cases inside : other < mem.framesNumber <;> simp [inside]
  · simp [same]

theorem page_modify_other {mem : NormalMem} {index other : Nat} {change : PageFrame → PageFrame}
    (different : other ≠ index) :
    (mem.modify index change).page other = mem.page other := by
  rw [page_modify, if_neg fun both => different both.1]

/-- A field that a change leaves alone is the same everywhere. -/
theorem page_modify_keeps {Field : Type*} {mem : NormalMem} {index other : Nat}
    {change : PageFrame → PageFrame} (field : PageFrame → Field)
    (kept : ∀ frame, field (change frame) = field frame) :
    field ((mem.modify index change).page other) = field (mem.page other) := by
  rw [page_modify]
  split_ifs
  · exact kept _
  · rfl

@[simp] theorem frames_number_modify_inside :
    (mem.modifyInside index change).framesNumber = mem.framesNumber := by
  unfold NormalMem.modifyInside
  split_ifs <;> rfl

@[simp] theorem base_modify_inside : (mem.modifyInside index change).base = mem.base := by
  unfold NormalMem.modifyInside
  split_ifs <;> rfl

@[simp] theorem free_lists_modify_inside :
    (mem.modifyInside index change).freeLists = mem.freeLists := by
  unfold NormalMem.modifyInside
  split_ifs <;> rfl

/-- On the table itself the test makes no difference. -/
@[simp] theorem page_modify_inside : (mem.modifyInside index change).page other =
    if other = index ∧ other < mem.framesNumber then change (mem.page other) else mem.page other := by
  unfold NormalMem.modifyInside
  by_cases inside : index < mem.framesNumber
  · rw [if_pos inside, page_modify]
  · have outside : ¬(other = index ∧ other < mem.framesNumber) := by
      intro both
      exact inside (both.1 ▸ both.2)
    rw [if_neg inside, if_neg outside]

theorem page_modify_inside_keeps {Field : Type*} {mem : NormalMem} {index other : Nat}
    {change : PageFrame → PageFrame} (field : PageFrame → Field)
    (kept : ∀ frame, field (change frame) = field frame) :
    field ((mem.modifyInside index change).page other) = field (mem.page other) := by
  rw [page_modify_inside]
  split_ifs
  · exact kept _
  · rfl

@[simp] theorem frames_number_bypass :
    (mem.bypass level index value).framesNumber = mem.framesNumber := by
  unfold NormalMem.bypass
  split_ifs <;> rfl

@[simp] theorem base_bypass : (mem.bypass level index value).base = mem.base := by
  unfold NormalMem.bypass
  split_ifs <;> rfl

@[simp] theorem free_lists_bypass : (mem.bypass level index value).freeLists other =
    if other = level ∧ index = mem.framesNumber then value else mem.freeLists other := by
  unfold NormalMem.bypass
  by_cases last : index = mem.framesNumber
  · simp [last]
  · simp [last]

@[simp] theorem page_bypass : (mem.bypass level index value).page other =
    if other = index ∧ other < mem.framesNumber then
      { mem.page other with nextFrame := value }
    else mem.page other := by
  unfold NormalMem.bypass
  by_cases last : index = mem.framesNumber
  · have outside : ¬(other = index ∧ other < mem.framesNumber) := by omega
    rw [if_pos last, if_neg outside, page_set_free_list]
  · rw [if_neg last, page_modify]

end Updates

end ChaoOS.FrameTableModel
