import ChaoOS.PageDirectory
import ChaoOS.FrameTableModel

/-!
# The slice allocators of `kernel/kmm.c`

A transcription of `kmalloc` and `kfree`. Manager records are kept by the
address of the page they fill, the fields of a frame table entry that this file
uses by the entry, and the bytes of the slice pages in one byte memory. An
allocator's address is that of its manager plus its offset in the record.

`frame_alloc` and `physic_alloc` answer with a frame of the pool or with null.
The answers a call of `kmalloc` gets are an argument of the call; a call that
asks for more answers than it is given is not described.
-/

namespace ChaoOS.SliceHeapModel

open ChaoOS.KernelMath ChaoOS.PageDirectory
open ChaoOS.FrameTableModel (pageCount)

set_option autoImplicit false

def sliceSizes : List Nat := [16, 32, 64, 128, 256, 512, 1024, 2048]

def pageSliceLevel : Nat := 8

def maxAlloc : Nat := (1 <<< 10) * pageSize

/-- `NUM_OF_ALLOC_PER_MANAGER`, which is also `END_FLAG`. -/
def endFlag : Nat := 408

def sliceEnd : Nat := 0xFF

def sliceSizeAt (level : Nat) : Nat := sliceSizes.getD level 0

/-- A pointer to a frame table entry. `unbacked` is the null that `frame_alloc`
answered, moved up by `PAGE_OFFSET`: it is not null any more. -/
inductive FramePtr where
  | null
  | entry (index : Nat)
  | unbacked
  deriving DecidableEq, Repr

structure FrameEntry where
  physicAddr : Nat
  allocator : Nat

structure SliceAllocator where
  prevAllocator : Nat
  nextAllocator : Nat
  firstAvai : Nat
  avaiNum : Nat
  targetPage : FramePtr

structure Manager where
  sliceSize : Nat
  free : Nat
  pFull : Nat
  full : Nat
  next : Nat
  allocs : Nat → SliceAllocator

structure Heap where
  base : Nat
  allocMs : Nat → Nat
  managers : Nat → Manager
  frames : FramePtr → FrameEntry
  memory : Nat → Nat
  /-- The frames taken from the frame allocator and not given back. -/
  framesInUse : List Nat

/-! ## Lists of allocators -/

inductive ListName where
  | free
  | pFull
  | full
  deriving DecidableEq, Repr

namespace Manager

def head (manager : Manager) : ListName → Nat
  | .free => manager.free
  | .pFull => manager.pFull
  | .full => manager.full

def setHead (manager : Manager) (name : ListName) (index : Nat) : Manager :=
  match name with
  | .free => { manager with free := index }
  | .pFull => { manager with pFull := index }
  | .full => { manager with full := index }

def nextOf (manager : Manager) (index : Nat) : Nat := (manager.allocs index).nextAllocator

def prevOf (manager : Manager) (index : Nat) : Nat := (manager.allocs index).prevAllocator

def modify (manager : Manager) (index : Nat) (change : SliceAllocator → SliceAllocator) : Manager :=
  { manager with
    allocs := fun other =>
      if other = index then change (manager.allocs other) else manager.allocs other }

def setNext (manager : Manager) (index next : Nat) : Manager :=
  manager.modify index fun allocator => { allocator with nextAllocator := next }

def setPrev (manager : Manager) (index prev : Nat) : Manager :=
  manager.modify index fun allocator => { allocator with prevAllocator := prev }

/-- An assignment to `prev_allocator` under the test that there is a node. -/
def setPrevOf (manager : Manager) (index prev : Nat) : Manager :=
  if index ≠ endFlag then manager.setPrev index prev else manager

/-- The move in `kmalloc_helper`: the first allocator of one list becomes the
first of another. Its back link is only written when that other list has a
first allocator to copy it from. -/
def moveHead (manager : Manager) (source target : ListName) : Manager :=
  let index := manager.head source
  let next := manager.nextOf index
  let manager := manager.setPrevOf next (manager.prevOf index)
  let manager := manager.setHead source next
  let first := manager.head target
  let manager := manager.setNext index first
  let manager :=
    if first ≠ endFlag then
      (manager.setPrev index (manager.prevOf first)).setPrev first index
    else manager
  manager.setHead target index

/-- The move in `kfree`: an allocator is unlinked where it stands and becomes
the first of another list. Without a predecessor it is taken to be the first
of `source`. -/
def moveNode (manager : Manager) (source target : ListName) (index : Nat) : Manager :=
  let prev := manager.prevOf index
  let next := manager.nextOf index
  let manager := manager.setPrevOf next prev
  let manager :=
    if prev ≠ endFlag then manager.setNext prev next else manager.setHead source next
  let manager := manager.setNext index (manager.head target)
  let manager := manager.setPrev index endFlag
  let manager := manager.setPrevOf (manager.head target) index
  manager.setHead target index

end Manager

/-! ## Pages and managers -/

namespace Heap

def setManager (heap : Heap) (address : Nat) (manager : Manager) : Heap :=
  { heap with
    managers := fun other => if other = address then manager else heap.managers other }

def modifyManager (heap : Heap) (address : Nat) (change : Manager → Manager) : Heap :=
  heap.setManager address (change (heap.managers address))

def modifyAlloc (heap : Heap) (address index : Nat) (change : SliceAllocator → SliceAllocator) :
    Heap :=
  heap.modifyManager address fun manager => manager.modify index change

def storeByte (heap : Heap) (address value : Nat) : Heap :=
  { heap with memory := store heap.memory address value }

def setFrameAllocator (heap : Heap) (page : FramePtr) (allocator : Nat) : Heap :=
  { heap with
    frames := fun other =>
      if other = page then { heap.frames other with allocator := allocator } else heap.frames other }

def take (heap : Heap) : Option Nat → Heap
  | none => heap
  | some index => { heap with framesInUse := index :: heap.framesInUse }

/-- A block of several frames, given by its first one. -/
def takeBlock (heap : Heap) (count : Nat) : Option Nat → Heap
  | none => heap
  | some index => { heap with framesInUse := List.range' index count ++ heap.framesInUse }

end Heap

/-- What `physic_alloc` returns for an answer of the frame allocator. -/
def answerAddress (heap : Heap) : Option Nat → Nat
  | none => 0
  | some index => (heap.frames (.entry index)).physicAddr

def answerPtr : Option Nat → FramePtr
  | none => .unbacked
  | some index => .entry index

def allocatorAddress (manager index : Nat) : Nat := add32 manager (12 + 10 * index)

def pageAddressOf (heap : Heap) (page : FramePtr) : Nat :=
  add32 (heap.frames page).physicAddr pageOffset

def initialAllocator (i : Nat) : SliceAllocator where
  prevAllocator := if i = 0 then endFlag else i - 1
  nextAllocator := if i = endFlag - 1 then endFlag else i + 1
  firstAvai := 0
  avaiNum := 0
  targetPage := .null

def newManager (sliceSize next : Nat) : Manager where
  sliceSize := sliceSize
  free := 0
  pFull := endFlag
  full := endFlag
  next := next
  allocs := initialAllocator

/-- A new manager becomes the first of its level. -/
def addManager (heap : Heap) (level next : Nat) (answer : Option Nat) : Nat × Heap :=
  let address := add32 (answerAddress heap answer) pageOffset
  let heap := (heap.take answer).setManager address (newManager (sliceSizeAt level) next)
  (address,
    { heap with
      allocMs := fun other => if other = level then address else heap.allocMs other })

/-- The heap before `init_kmm`: a pool of frames at `base`, nothing taken. -/
def bootHeap (base : Nat) (memory : Nat → Nat) : Heap where
  base := base
  allocMs := fun _ => 0
  managers := fun _ => newManager 0 0
  frames := fun page =>
    match page with
    | .entry index => ⟨add32 base (index * pageSize), 0⟩
    | _ => ⟨0, 0⟩
  memory := memory
  framesInUse := []

/-- `init_kmm`, one level for each answer of the frame allocator. -/
def initKmm : Nat → List (Option Nat) → Heap → Heap
  | _, [], heap => heap
  | level, answer :: answers, heap => initKmm (level + 1) answers (addManager heap level 0 answer).2

/-! ## Slices of one page -/

def isLinkedMode (sliceSize : Nat) : Bool := decide (sliceSize ≤ 256)

def linkedSlices (sliceSize : Nat) : Nat := (pageSize - 4) / (sliceSize + 1)

def bitmapSlices (sliceSize : Nat) : Nat := pageSize / sliceSize

/-- The loop of `init_linked_page`. The counter is a byte; the last header the
loop wrote is returned with the memory. -/
def linkHeaders (realSliceSize limit : Nat) :
    Nat → Nat → Nat → Nat → (Nat → Nat) → Nat × (Nat → Nat)
  | 0, _, _, nextAvail, memory => (nextAvail, memory)
  | fuel + 1, i, address, nextAvail, memory =>
      if add32 address realSliceSize ≤ limit then
        linkHeaders realSliceSize limit fuel ((i + 1) % 256) (add32 address realSliceSize) address
          (store memory address ((i + 1) % 256))
      else (nextAvail, memory)

def storeWord (memory : Nat → Nat) (address value : Nat) : Nat → Nat :=
  store (store (store (store memory address (value % 256)) (address + 1) (value / 256 % 256))
    (address + 2) (value / 65536 % 256)) (address + 3) (value / 16777216 % 256)

def initLinkedPage (heap : Heap) (manager index sliceSize : Nat) : Heap :=
  let page := pageAddressOf heap ((heap.managers manager).allocs index).targetPage
  let memory := storeWord heap.memory page (allocatorAddress manager index)
  let headers := linkHeaders (sliceSize + 1) (add32 page pageSize) pageSize 0 (add32 page 4) page memory
  { heap with memory := store headers.2 headers.1 sliceEnd }

/-- The loop of `get_slice_addr` over the bits of the map. -/
def firstZeroBit (bitmap bits : Nat) : Nat → Nat → Nat
  | 0, i => i
  | fuel + 1, i =>
      if i < bits then
        if (bitmap >>> (7 - i)) &&& 1 = 0 then i else firstZeroBit bitmap bits fuel (i + 1)
      else i

/-- The address of the slice, whether the page is now full, and the heap. -/
def getSliceAddr (heap : Heap) (manager index sliceSize : Nat) (linked : Bool) : Nat × Bool × Heap :=
  let allocator := (heap.managers manager).allocs index
  let page := pageAddressOf heap allocator.targetPage
  if linked then
    let header := add32 page (4 + allocator.firstAvai * (sliceSize + 1))
    let nextAvail := heap.memory header
    let heap := heap.storeByte header sliceEnd
    let heap := heap.modifyAlloc manager index fun allocator => { allocator with firstAvai := nextAvail }
    (add32 header 1, decide (nextAvail = sliceEnd), heap)
  else
    let bits := bitmapSlices sliceSize
    let i := firstZeroBit allocator.firstAvai bits bits 0
    let bitmap := allocator.firstAvai ||| (1 <<< (7 - i))
    let heap := heap.modifyAlloc manager index fun allocator => { allocator with firstAvai := bitmap }
    (add32 page (i * sliceSize), decide (bitmap >>> (8 - bits) = 0xFF >>> (8 - bits)), heap)

/-! ## `kmalloc` -/

/-- `avai_num -= 1` on a byte. -/
def countDown (allocator : SliceAllocator) : SliceAllocator :=
  { allocator with avaiNum := (allocator.avaiNum + 255) % 256 }

def takePartial (heap : Heap) (manager : Nat) (linked : Bool) : Nat × Heap :=
  let index := (heap.managers manager).pFull
  let slice := getSliceAddr heap manager index (heap.managers manager).sliceSize linked
  let heap :=
    if slice.2.1 then slice.2.2.modifyManager manager fun manager => manager.moveHead .pFull .full
    else slice.2.2
  (slice.1, heap.modifyAlloc manager index countDown)

/-- A page for an allocator that has none. -/
def assignPage (heap : Heap) (manager index : Nat) (linked : Bool) (answer : Option Nat) : Heap :=
  let sliceSize := (heap.managers manager).sliceSize
  let heap := heap.take answer
  let heap := heap.setFrameAllocator (answerPtr answer) (allocatorAddress manager index)
  let heap := heap.modifyAlloc manager index fun allocator =>
    { allocator with targetPage := answerPtr answer, avaiNum := pageSize / sliceSize % 256 }
  if linked then
    let heap := heap.modifyAlloc manager index fun allocator =>
      { allocator with avaiNum := linkedSlices sliceSize % 256 }
    initLinkedPage heap manager index sliceSize
  else heap

def takeFirst (heap : Heap) (manager : Nat) (linked : Bool) : Nat × Heap :=
  let index := (heap.managers manager).free
  let page := pageAddressOf heap ((heap.managers manager).allocs index).targetPage
  let address := if linked then add32 (add32 page 4) 1 else page
  let heap :=
    if linked then
      let header := add32 page 4
      let nextAvail := heap.memory header
      (heap.storeByte header sliceEnd).modifyAlloc manager index fun allocator =>
        { allocator with firstAvai := nextAvail }
    else heap.modifyAlloc manager index fun allocator => { allocator with firstAvai := 0x80 }
  let heap := heap.modifyManager manager fun manager => manager.moveHead .free .pFull
  (address, heap.modifyAlloc manager index countDown)

def takeFree (heap : Heap) (manager : Nat) (linked : Bool) (answers : List (Option Nat)) :
    Option (Nat × Heap) :=
  let index := (heap.managers manager).free
  if ((heap.managers manager).allocs index).targetPage = .null then
    match answers with
    | [] => none
    | answer :: _ => some (takeFirst (assignPage heap manager index linked answer) manager linked)
  else some (takeFirst heap manager linked)

/-- The first manager with room serves the request. A new manager has an empty
`p_full` list and a free allocator, so it serves its first request from there.
The fuel bounds the length of the chain of managers, each of which fills a page
of its own. -/
def kmallocHelper : Nat → Nat → Nat → Bool → List (Option Nat) → Heap → Option (Nat × Heap)
  | 0, _, _, _, _, _ => none
  | fuel + 1, manager, level, linked, answers, heap =>
      if manager = 0 then
        match answers with
        | [] => none
        | answer :: answers =>
            let added := addManager heap level (heap.allocMs level) answer
            takeFree added.2 added.1 linked answers
      else if (heap.managers manager).pFull ≠ endFlag then some (takePartial heap manager linked)
      else if (heap.managers manager).free ≠ endFlag then takeFree heap manager linked answers
      else kmallocHelper fuel (heap.managers manager).next level linked answers heap

def managerFuel : Nat := 2 ^ 20 + 1

/-- The first level whose slices are large enough. -/
def sliceLevel (byteSize : Nat) : Nat → Nat → Nat
  | 0, level => level
  | fuel + 1, level =>
      if level < pageSliceLevel then
        if byteSize ≤ sliceSizeAt level then level else sliceLevel byteSize fuel (level + 1)
      else level

def kmalloc (byteSize : Nat) (answers : List (Option Nat)) (heap : Heap) : Option (Nat × Heap) :=
  if maxAlloc < byteSize then some (0, heap)
  else
    let level := sliceLevel byteSize pageSliceLevel 0
    if level < pageSliceLevel then
      kmallocHelper managerFuel (heap.allocMs level) level (decide (level ≤ 4)) answers heap
    else
      match answers with
      | [] => none
      | answer :: _ =>
          some (add32 (answerAddress heap answer) pageOffset,
            heap.takeBlock (nextPowerOf2 (pageCount byteSize)) answer)

/-! ## `kfree` -/

/-- `avai_num += 1` on a byte. -/
def countUp (allocator : SliceAllocator) : SliceAllocator :=
  { allocator with avaiNum := (allocator.avaiNum + 1) % 256 }

/-- `physic_free` of one slice page; a null address is not freed. -/
def givePage (heap : Heap) (physicAddr index : Nat) : Heap :=
  if physicAddr = 0 then heap else { heap with framesInUse := heap.framesInUse.erase index }

/-- Marks a slice free. In linked mode the old chain head goes to the first
byte of the slice itself, not to the header byte before it. -/
def returnSlice (heap : Heap) (manager index address : Nat) : Heap :=
  let page := address &&& pageMask
  let sliceSize := (heap.managers manager).sliceSize
  let firstAvai := ((heap.managers manager).allocs index).firstAvai
  if isLinkedMode sliceSize then
    let slice := sub32 (sub32 address page) 4 % 65536 / (sliceSize + 1)
    (heap.storeByte address firstAvai).modifyAlloc manager index fun allocator =>
      { allocator with firstAvai := slice % 256 }
  else
    let slice := sub32 address page % 65536 / sliceSize
    heap.modifyAlloc manager index fun allocator =>
      { allocator with firstAvai := firstAvai ^^^ (1 <<< (7 - slice)) }

def sliceSum (sliceSize : Nat) : Nat :=
  if isLinkedMode sliceSize then linkedSlices sliceSize % 256 else bitmapSlices sliceSize % 256

/-- The frame table index of the page of an address. -/
def frameIndexOf (heap : Heap) (address : Nat) : Nat :=
  sub32 (sub32 (address &&& pageMask) pageOffset) heap.base / pageSize

/-- The manager of an allocator, and the allocator's place in it. -/
def managerOf (allocator : Nat) : Nat := allocator &&& pageMask

def indexOf (allocator : Nat) : Nat := sub32 allocator (managerOf allocator + 12) / 10 % 65536

def kfree (address : Nat) (heap : Heap) : Heap :=
  if address = 0 then heap
  else
    let frame := frameIndexOf heap address
    let allocator := (heap.frames (.entry frame)).allocator
    let manager := managerOf allocator
    let index := indexOf allocator
    let heap := heap.modifyAlloc manager index countUp
    let heap := returnSlice heap manager index address
    let avaiNum := ((heap.managers manager).allocs index).avaiNum
    if sliceSum (heap.managers manager).sliceSize = avaiNum then
      let heap := heap.setFrameAllocator (.entry frame) 0
      let heap := givePage heap (sub32 (address &&& pageMask) pageOffset) frame
      let heap := heap.modifyAlloc manager index fun allocator =>
        { allocator with targetPage := .null, avaiNum := 0 }
      heap.modifyManager manager fun record => record.moveNode .pFull .free index
    else if avaiNum = 1 then
      heap.modifyManager manager fun record => record.moveNode .full .pFull index
    else heap

end ChaoOS.SliceHeapModel
