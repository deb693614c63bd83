import ChaoOS.FrameTableRejects
import ChaoOS.FrameTableReturns
import ChaoOS.RequestSizing
import ChaoOS.SliceHeapInvariant

/-!
# The slice heap over the buddy system

`kmalloc` puts its frame requests to the buddy system and `kfree` gives an
emptied page back to it. The state is both halves: the zone, and the managers
with their view of the frame table. The requests of a call are listed first, in
the order in which the code makes them, and the answers are handed to the model
of `kmm.c`. The buddy system and the slice allocators write different fields of
a table entry.
-/

namespace ChaoOS.KernelHeap

open ChaoOS.KernelMath ChaoOS.GuardedRun ChaoOS.PageDirectory ChaoOS.SliceHeapModel
open ChaoOS.SliceHeapInvariant
open ChaoOS.FrameTableModel
open ChaoOS.FrameTableRejects (get_block_entry free_block_cases free_block_entry
  place_blocks_entry)
open ChaoOS.FrameTableReturns (free_block_identity)

set_option autoImplicit false

structure Kernel where
  zone : NormalMem
  heap : Heap

/-! ## Frame requests -/

/-- How many single frames `kmalloc_helper` asks for: one for a page, and one
more before it for a new manager. -/
def frameRequests (heap : Heap) : Nat → Nat → Nat
  | 0, _ => 0
  | fuel + 1, manager =>
      if manager = 0 then 2
      else if (heap.managers manager).pFull ≠ endFlag then 0
      else if (heap.managers manager).free ≠ endFlag then
        if ((heap.managers manager).allocs (heap.managers manager).free).targetPage = .null then 1
        else 0
      else frameRequests heap fuel (heap.managers manager).next

/-- The frame requests of a call of `kmalloc`, as page counts. -/
def requestedPages (byteSize : Nat) (heap : Heap) : List Nat :=
  let level := sliceLevel byteSize pageSliceLevel 0
  if level < pageSliceLevel then
    List.replicate (frameRequests heap managerFuel (heap.allocMs level)) 1
  else [pageCount byteSize]

/-- Requests put to the buddy system one after the other. -/
def frameAnswers : List Nat → NormalMem → Option (List (Option Nat) × NormalMem)
  | [], zone => some ([], zone)
  | pages :: rest, zone =>
      (frameAlloc pages zone).bind fun first =>
        (frameAnswers rest first.2).map fun others => (first.1 :: others.1, others.2)

/-! ## The two calls -/

def kmallocOn (byteSize : Nat) (kernel : Kernel) : Option (Nat × Kernel) :=
  if maxAlloc < byteSize then some (0, kernel)
  else
    (frameAnswers (requestedPages byteSize kernel.heap) kernel.zone).bind fun answers =>
      (kmalloc byteSize answers.1 kernel.heap).map fun result => (result.1, ⟨answers.2, result.2⟩)

/-- The allocator that `kfree` finds for an address. -/
def allocatorOf (heap : Heap) (address : Nat) : Nat :=
  (heap.frames (.entry (frameIndexOf heap address))).allocator

/-- With the slice at `address` the allocator has all its slices back. -/
def EmptiesPage (heap : Heap) (allocator : Nat) : Prop :=
  sliceSum (heap.managers (managerOf allocator)).sliceSize =
    (((heap.managers (managerOf allocator)).allocs (indexOf allocator)).avaiNum + 1) % 256

instance (heap : Heap) (allocator : Nat) : Decidable (EmptiesPage heap allocator) :=
  inferInstanceAs (Decidable (_ = _))

/-- `none` is a call that follows a null allocator: address 0 is not mapped, and
the page fault handler does not return. -/
def kfreeOn (address : Nat) (kernel : Kernel) : Option Kernel :=
  if address = 0 then some kernel
  else if allocatorOf kernel.heap address = 0 then none
  else if EmptiesPage kernel.heap (allocatorOf kernel.heap address) then
    some ⟨(physicFree (sub32 (address &&& pageMask) pageOffset) kernel.zone).2,
      kfree address kernel.heap⟩
  else some ⟨kernel.zone, kfree address kernel.heap⟩

/-! ## Runs -/

inductive KernelOp where
  | kmalloc (byteSize : Nat)
  | kfree (address : Nat)
  | write (address value : Nat)

def kernelStep (kernel : Kernel) : KernelOp → Option Kernel
  | .kmalloc byteSize => (kmallocOn byteSize kernel).map Prod.snd
  | .kfree address => kfreeOn address kernel
  | .write address value => some { kernel with heap := kernel.heap.storeByte address value }

/-- The frame table as `kmm.c` reads it, before it has taken any frame. -/
def heapOver (zone : NormalMem) (memory : Nat → Nat) : Heap :=
  { bootHeap zone.base memory with
    frames := fun page =>
      match page with
      | .entry index => ⟨(zone.page index).physicAddr, (zone.page index).allocator⟩
      | _ => ⟨0, 0⟩ }

/-- The state after `init_normal_mem_zone` and `init_kmm`, which asks for a page
for each of the eight levels. -/
def bootKernel (base framesNumber : Nat) (memory : Nat → Nat) : Option Kernel :=
  (frameAnswers (List.replicate pageSliceLevel 1) (initNormalMemZone base framesNumber)).map
    fun answers =>
      ⟨answers.2, initKmm 0 answers.1 (heapOver (initNormalMemZone base framesNumber) memory)⟩

/-- The states that calls of `kmalloc` and `kfree` and writes of the clients lead
to, whatever their arguments. -/
def Reachable (base framesNumber : Nat) (kernel : Kernel) : Prop :=
  ∃ memory start ops, bootKernel base framesNumber memory = some start ∧
    runFrom kernelStep start ops = some kernel

theorem reachable_boot {base framesNumber : Nat} {memory : Nat → Nat} {start : Kernel}
    (boot : bootKernel base framesNumber memory = some start) : Reachable base framesNumber start :=
  ⟨memory, start, [], boot, rfl⟩

theorem sample_kernel_pool : Pool 0x200000 1024 := ⟨by decide, by decide⟩

/-! ## What every run keeps -/

/-- A frame that an allocator is noted for is in use. -/
def Owned (heap : Heap) : Prop :=
  ∀ k, (heap.frames (.entry k)).allocator ≠ 0 → k ∈ heap.framesInUse

structure Keeps (heap heap' : Heap) : Prop where
  base : heap'.base = heap.base
  physical : ∀ page, (heap'.frames page).physicAddr = (heap.frames page).physicAddr
  owned : Owned heap → Owned heap'

section Keeping

variable {heap heap' heap'' : Heap}

theorem keeps_refl (heap : Heap) : Keeps heap heap := ⟨rfl, fun _ => rfl, fun owned => owned⟩

theorem Keeps.trans (first : Keeps heap heap') (second : Keeps heap' heap'') : Keeps heap heap'' :=
  ⟨second.base.trans first.base, fun page => (second.physical page).trans (first.physical page),
    fun owned => second.owned (first.owned owned)⟩

/-- What leaves the frame table alone keeps it. -/
theorem keeps_of_same (base : heap'.base = heap.base) (frames : heap'.frames = heap.frames)
    (inUse : heap'.framesInUse = heap.framesInUse) : Keeps heap heap' := by
  refine ⟨base, fun page => by rw [frames], ?_⟩
  intro owned k
  rw [frames, inUse]
  exact owned k

theorem Keeps.modify_manager (before : Keeps heap heap') (address : Nat)
    (change : Manager → Manager) : Keeps heap (heap'.modifyManager address change) :=
  before.trans (keeps_of_same rfl rfl rfl)

theorem Keeps.modify_alloc (before : Keeps heap heap') (address index : Nat)
    (change : SliceAllocator → SliceAllocator) :
    Keeps heap (heap'.modifyAlloc address index change) :=
  before.modify_manager address _

theorem keeps_take (heap : Heap) (answer : Option Nat) : Keeps heap (heap.take answer) := by
  cases answer with
  | none => exact keeps_refl heap
  | some index =>
      refine ⟨rfl, fun _ => rfl, ?_⟩
      intro owned k named
      exact List.mem_cons_of_mem _ (owned k named)

theorem keeps_add_manager (heap : Heap) (level next : Nat) (answer : Option Nat) :
    Keeps heap (addManager heap level next answer).2 :=
  (keeps_take heap answer).trans (keeps_of_same rfl rfl rfl)

theorem Keeps.init_linked_page (before : Keeps heap heap') (manager index sliceSize : Nat) :
    Keeps heap (initLinkedPage heap' manager index sliceSize) :=
  before.trans (keeps_of_same rfl rfl rfl)

/-- The frame that gets an owner has just been taken. -/
theorem keeps_set_owner (heap : Heap) (answer : Option Nat) (owner : Nat) :
    Keeps heap ((heap.take answer).setFrameAllocator (answerPtr answer) owner) := by
  refine ⟨?_, ?_, ?_⟩
  · exact (keeps_take heap answer).base
  · intro page
    rw [← (keeps_take heap answer).physical page]
    unfold Heap.setFrameAllocator
    dsimp only
    split_ifs <;> rfl
  · intro owned k named
    unfold Heap.setFrameAllocator at named ⊢
    dsimp only at named ⊢
    split_ifs at named with same
    · cases answer with
      | none => exact absurd same (by simp [answerPtr])
      | some index =>
          rw [FramePtr.entry.inj same]
          exact List.mem_cons_self
    · exact (keeps_take heap answer).owned owned k named

theorem keeps_assign_page (heap : Heap) (manager index : Nat) (linked : Bool)
    (answer : Option Nat) : Keeps heap (assignPage heap manager index linked answer) := by
  unfold assignPage
  dsimp only
  split_ifs
  · apply Keeps.init_linked_page
    apply Keeps.modify_alloc
    apply Keeps.modify_alloc
    exact keeps_set_owner heap answer _
  · apply Keeps.modify_alloc
    exact keeps_set_owner heap answer _

theorem keeps_take_first (heap : Heap) (manager : Nat) (linked : Bool) :
    Keeps heap (takeFirst heap manager linked).2 := by
  unfold takeFirst
  cases linked <;> exact keeps_of_same rfl rfl rfl

theorem keeps_take_partial (heap : Heap) (manager : Nat) (linked : Bool) :
    Keeps heap (takePartial heap manager linked).2 := by
  unfold takePartial getSliceAddr
  dsimp only
  split_ifs <;> exact keeps_of_same rfl rfl rfl

theorem keeps_take_free {manager : Nat} {linked : Bool} {answers : List (Option Nat)}
    {result : Nat × Heap} (call : takeFree heap manager linked answers = some result) :
    Keeps heap result.2 := by
  unfold takeFree at call
  dsimp only at call
  split_ifs at call
  · cases answers with
    | nil => exact absurd call (by simp)
    | cons answer rest =>
        rw [← Option.some.inj call]
        exact (keeps_assign_page heap _ _ _ answer).trans (keeps_take_first _ _ _)
  · rw [← Option.some.inj call]
    exact keeps_take_first heap _ _

theorem keeps_helper (fuel : Nat) {manager level : Nat} {linked : Bool}
    {answers : List (Option Nat)} {result : Nat × Heap}
    (call : kmallocHelper fuel manager level linked answers heap = some result) :
    Keeps heap result.2 := by
  induction fuel generalizing manager with
  | zero => exact absurd call (by simp [kmallocHelper])
  | succ fuel induction =>
      unfold kmallocHelper at call
      split_ifs at call
      · cases answers with
        | nil => exact absurd call (by simp)
        | cons answer rest => exact (keeps_add_manager heap _ _ answer).trans (keeps_take_free call)
      · rw [← Option.some.inj call]
        exact keeps_take_partial heap _ _
      · exact keeps_take_free call
      · exact induction call

theorem keeps_take_block (heap : Heap) (count : Nat) (answer : Option Nat) :
    Keeps heap (heap.takeBlock count answer) := by
  cases answer with
  | none => exact keeps_refl heap
  | some index =>
      refine ⟨rfl, fun _ => rfl, ?_⟩
      intro owned k named
      exact List.mem_append_right _ (owned k named)

theorem keeps_kmalloc {byteSize : Nat} {answers : List (Option Nat)} {result : Nat × Heap}
    (call : kmalloc byteSize answers heap = some result) : Keeps heap result.2 := by
  unfold kmalloc at call
  dsimp only at call
  split_ifs at call
  · rw [← Option.some.inj call]
    exact keeps_refl heap
  · exact keeps_helper managerFuel call
  · cases answers with
    | nil => exact absurd call (by simp)
    | cons answer rest =>
        rw [← Option.some.inj call]
        exact keeps_take_block heap _ answer

theorem Keeps.return_slice (before : Keeps heap heap') (manager index address : Nat) :
    Keeps heap (returnSlice heap' manager index address) := by
  apply before.trans
  unfold returnSlice
  dsimp only
  split_ifs <;> exact keeps_of_same rfl rfl rfl

/-- The frame that is given back has no owner any more. -/
theorem keeps_give_page (heap : Heap) (physicAddr frame : Nat) :
    Keeps heap (givePage (heap.setFrameAllocator (.entry frame) 0) physicAddr frame) := by
  have disowned : ∀ k, ((heap.setFrameAllocator (.entry frame) 0).frames (.entry k)).allocator ≠ 0 →
      k ≠ frame ∧ (heap.frames (.entry k)).allocator ≠ 0 := by
    intro k named
    unfold Heap.setFrameAllocator at named
    dsimp only at named
    split_ifs at named with same
    · exact absurd rfl named
    · exact ⟨fun equal => same (congrArg FramePtr.entry equal), named⟩
  have physical : ∀ page, ((heap.setFrameAllocator (.entry frame) 0).frames page).physicAddr =
      (heap.frames page).physicAddr := by
    intro page
    unfold Heap.setFrameAllocator
    dsimp only
    split_ifs <;> rfl
  unfold givePage
  split_ifs
  · exact ⟨rfl, physical, fun owned k named => owned k (disowned k named).2⟩
  · refine ⟨rfl, physical, ?_⟩
    intro owned k named
    obtain ⟨different, before⟩ := disowned k named
    exact (List.mem_erase_of_ne different).mpr (owned k before)

theorem keeps_kfree (address : Nat) (heap : Heap) : Keeps heap (kfree address heap) := by
  unfold kfree
  dsimp only
  split_ifs
  · exact keeps_refl heap
  · apply Keeps.modify_manager
    apply Keeps.modify_alloc
    refine Keeps.trans ?_ (keeps_give_page _ _ _)
    apply Keeps.return_slice
    exact (keeps_refl heap).modify_alloc _ _ _
  · apply Keeps.modify_manager
    apply Keeps.return_slice
    exact (keeps_refl heap).modify_alloc _ _ _
  · apply Keeps.return_slice
    exact (keeps_refl heap).modify_alloc _ _ _

end Keeping

/-! ## The two halves fit -/

/-- The zone and the heap describe one frame table. -/
structure Wired (base framesNumber : Nat) (kernel : Kernel) : Prop where
  zoneBase : kernel.zone.base = base
  number : kernel.zone.framesNumber = framesNumber
  heapBase : kernel.heap.base = base
  table : ∀ k, (kernel.zone.page k).physicAddr =
    if k < framesNumber then base + k * pageSize else 0
  physical : ∀ k, (kernel.heap.frames (.entry k)).physicAddr =
    if k < framesNumber then base + k * pageSize else 0
  owned : Owned kernel.heap

section Wiring

variable {base framesNumber : Nat}

/-- What the calls of the buddy system leave alone. -/
structure ZoneKeeps (zone zone' : NormalMem) : Prop where
  base : zone'.base = zone.base
  number : zone'.framesNumber = zone.framesNumber
  physical : ∀ k, (zone'.page k).physicAddr = (zone.page k).physicAddr

theorem zone_keeps_refl (zone : NormalMem) : ZoneKeeps zone zone := ⟨rfl, rfl, fun _ => rfl⟩

theorem ZoneKeeps.trans {zone zone' zone'' : NormalMem} (first : ZoneKeeps zone zone')
    (second : ZoneKeeps zone' zone'') : ZoneKeeps zone zone'' :=
  ⟨second.base.trans first.base, second.number.trans first.number,
    fun k => (second.physical k).trans (first.physical k)⟩

theorem split_block_physical (level pageIndex current index : Nat) (zone : NormalMem) :
    ((splitBlock level pageIndex current zone).page index).physicAddr =
      (zone.page index).physicAddr := by
  induction current generalizing zone with
  | zero => rfl
  | succ current induction =>
      rw [splitBlock]
      split_ifs
      · rw [induction]
        simp only [pushRight, page_set_free_list, page_modify_keeps PageFrame.physicAddr,
          implies_true]
      · rfl

theorem get_block_keeps (level : Nat) (zone : NormalMem) :
    ZoneKeeps zone (buddySystemGetFramePageBlock level zone).2 := by
  obtain ⟨number, base, -⟩ := @get_block_entry zone _ level _ rfl
  refine ⟨base, number, ?_⟩
  intro k
  unfold buddySystemGetFramePageBlock
  dsimp only
  split_ifs
  · rfl
  · simp only [claimBlock, page_modify_keeps PageFrame.physicAddr, implies_true,
      split_block_physical, page_set_free_list, page_read]

theorem frame_alloc_keeps {pages : Nat} {zone : NormalMem} {answer : Option Nat × NormalMem}
    (call : frameAlloc pages zone = some answer) : ZoneKeeps zone answer.2 := by
  obtain ⟨level, -, found⟩ := Option.bind_eq_some_iff.mp call
  rw [← Option.some.inj found]
  exact get_block_keeps level zone

theorem frame_answers_keeps {requests : List Nat} {zone : NormalMem}
    {answers : List (Option Nat) × NormalMem} (call : frameAnswers requests zone = some answers) :
    ZoneKeeps zone answers.2 := by
  induction requests generalizing zone answers with
  | nil =>
      rw [← Option.some.inj call]
      exact zone_keeps_refl zone
  | cons pages rest induction =>
      obtain ⟨first, asked, later⟩ := Option.bind_eq_some_iff.mp call
      obtain ⟨others, answered, same⟩ := Option.map_eq_some_iff.mp later
      have keeps := (frame_alloc_keeps asked).trans (induction answered)
      rw [← same]
      exact keeps

theorem free_block_keeps (index : Nat) (zone : NormalMem) :
    ZoneKeeps zone (buddySystemFreeFramePageBlock index zone).2 := by
  have physical := fun k => (free_block_identity zone index k).2
  rcases free_block_cases index zone with ⟨-, -, same⟩ | ⟨head, level, call⟩
  · refine ⟨?_, ?_, physical⟩ <;> rw [same]
  · rw [call] at physical ⊢
    obtain ⟨number, base, -⟩ := free_block_entry head call
    exact ⟨base, number, physical⟩

theorem physic_free_keeps (physicAddr : Nat) (zone : NormalMem) :
    ZoneKeeps zone (physicFree physicAddr zone).2 := by
  rw [physicFree]
  split_ifs
  · exact zone_keeps_refl zone
  · exact free_block_keeps _ zone

theorem Wired.step {kernel : Kernel} (wired : Wired base framesNumber kernel) {zone : NormalMem}
    {heap : Heap} (zoneKeeps : ZoneKeeps kernel.zone zone) (keeps : Keeps kernel.heap heap) :
    Wired base framesNumber ⟨zone, heap⟩ :=
  ⟨zoneKeeps.base.trans wired.zoneBase, zoneKeeps.number.trans wired.number,
    keeps.base.trans wired.heapBase, fun k => (zoneKeeps.physical k).trans (wired.table k),
    fun k => (keeps.physical _).trans (wired.physical k), keeps.owned wired.owned⟩

theorem Wired.kmalloc {kernel : Kernel} (wired : Wired base framesNumber kernel) {byteSize : Nat}
    {result : Nat × Kernel} (call : kmallocOn byteSize kernel = some result) :
    Wired base framesNumber result.2 := by
  unfold kmallocOn at call
  split_ifs at call
  · rw [← Option.some.inj call]
    exact wired
  · obtain ⟨answers, asked, rest⟩ := Option.bind_eq_some_iff.mp call
    obtain ⟨served, taken, same⟩ := Option.map_eq_some_iff.mp rest
    rw [← same]
    exact wired.step (frame_answers_keeps asked) (keeps_kmalloc taken)

theorem kfree_on_cases {address : Nat} {kernel next : Kernel}
    (call : kfreeOn address kernel = some next) :
    next = kernel ∨ ∃ zone, next = ⟨zone, kfree address kernel.heap⟩ ∧
      (zone = kernel.zone ∨ ∃ physicAddr, zone = (physicFree physicAddr kernel.zone).2) := by
  unfold kfreeOn at call
  split_ifs at call
  · exact Or.inl (Option.some.inj call).symm
  · exact Or.inr ⟨_, (Option.some.inj call).symm, Or.inr ⟨_, rfl⟩⟩
  · exact Or.inr ⟨_, (Option.some.inj call).symm, Or.inl rfl⟩

theorem Wired.kfree {kernel next : Kernel} (wired : Wired base framesNumber kernel)
    {address : Nat} (call : kfreeOn address kernel = some next) :
    Wired base framesNumber next := by
  rcases kfree_on_cases call with same | ⟨zone, same, kept | ⟨physicAddr, freed⟩⟩
  · rw [same]
    exact wired
  · rw [same, kept]
    exact wired.step (zone_keeps_refl kernel.zone) (keeps_kfree address kernel.heap)
  · rw [same, freed]
    exact wired.step (physic_free_keeps physicAddr kernel.zone) (keeps_kfree address kernel.heap)

theorem kernel_step_wired (kernel : Kernel) (op : KernelOp) (next : Kernel)
    (wired : Wired base framesNumber kernel) (call : kernelStep kernel op = some next) :
    Wired base framesNumber next := by
  cases op with
  | kmalloc byteSize =>
      obtain ⟨result, served, same⟩ := Option.map_eq_some_iff.mp call
      rw [← same]
      exact wired.kmalloc served
  | kfree address => exact wired.kfree call
  | write address value =>
      rw [← Option.some.inj call]
      exact wired.step (zone_keeps_refl kernel.zone) (keeps_of_same rfl rfl rfl)

/-! ## The first state -/

theorem place_blocks_identity (fuel i blockPageSize blockLevel index : Nat) (zone : NormalMem) :
    ((placeBlocks fuel i blockPageSize blockLevel zone).page index).physicAddr =
        (zone.page index).physicAddr ∧
      ((placeBlocks fuel i blockPageSize blockLevel zone).page index).allocator =
        (zone.page index).allocator := by
  induction fuel generalizing i blockPageSize blockLevel zone with
  | zero => exact ⟨rfl, rfl⟩
  | succ fuel induction =>
      rw [placeBlocks]
      split_ifs
      · generalize shrinkBlock zone.framesNumber i buddyMaxLevel blockPageSize blockLevel = block
        obtain ⟨physical, owner⟩ :=
          induction (i + block.1) block.1 block.2 (placeBlock zone i block.2)
        refine ⟨physical.trans ?_, owner.trans ?_⟩
        · simp only [placeBlock, page_set_free_list, page_modify_keeps PageFrame.physicAddr,
            implies_true]
        · simp only [placeBlock, page_set_free_list, page_modify_keeps PageFrame.allocator,
            implies_true]
      · exact ⟨rfl, rfl⟩

theorem initial_frame_address (pool : Pool base framesNumber) {index : Nat}
    (inside : index < framesNumber) :
    (initialFrame base framesNumber index).physicAddr = base + index * pageSize := by
  have ends := pool.page_end inside
  have positive : 0 < pageSize := by decide
  rw [pageAt] at ends
  have small : base + index * pageSize < wordSize := by omega
  have sum := add32_of_lt small
  exact sum

theorem init_zone_identity (pool : Pool base framesNumber) (index : Nat) :
    ((initNormalMemZone base framesNumber).page index).physicAddr =
        (if index < framesNumber then base + index * pageSize else 0) ∧
      ((initNormalMemZone base framesNumber).page index).allocator = 0 := by
  obtain ⟨physical, owner⟩ := place_blocks_identity framesNumber 0 (1 <<< (buddyMaxLevel - 1))
    (buddyMaxLevel - 1) index (clearedZone base framesNumber)
  by_cases inside : index < framesNumber
  · have entry : (clearedZone base framesNumber).page index =
        initialFrame base framesNumber index := if_pos inside
    rw [if_pos inside, initNormalMemZone, physical, owner, entry]
    exact ⟨initial_frame_address pool inside, rfl⟩
  · have entry : (clearedZone base framesNumber).page index = outsideFrame := if_neg inside
    rw [if_neg inside, initNormalMemZone, physical, owner, entry]
    exact ⟨rfl, rfl⟩

theorem init_zone_keeps (base framesNumber : Nat) :
    (initNormalMemZone base framesNumber).base = base ∧
      (initNormalMemZone base framesNumber).framesNumber = framesNumber := by
  obtain ⟨number, same, -⟩ := place_blocks_entry framesNumber 0 (1 <<< (buddyMaxLevel - 1))
    (buddyMaxLevel - 1) (clearedZone base framesNumber)
  exact ⟨same, number⟩

theorem keeps_init_kmm (level : Nat) (answers : List (Option Nat)) (heap : Heap) :
    Keeps heap (initKmm level answers heap) := by
  induction answers generalizing level heap with
  | nil => exact keeps_refl heap
  | cons answer rest induction =>
      exact (keeps_add_manager heap level 0 answer).trans (induction (level + 1) _)

theorem boot_kernel_wired (pool : Pool base framesNumber) {memory : Nat → Nat} {start : Kernel}
    (boot : bootKernel base framesNumber memory = some start) : Wired base framesNumber start := by
  obtain ⟨answers, asked, same⟩ := Option.map_eq_some_iff.mp boot
  obtain ⟨initBase, initNumber⟩ := init_zone_keeps base framesNumber
  have identity := init_zone_identity pool
  have first : Wired base framesNumber ⟨initNormalMemZone base framesNumber,
      heapOver (initNormalMemZone base framesNumber) memory⟩ :=
    ⟨initBase, initNumber, initBase, fun k => (identity k).1, fun k => (identity k).1,
      fun k named => absurd (identity k).2 named⟩
  rw [← same]
  exact first.step (frame_answers_keeps asked) (keeps_init_kmm 0 answers.1 _)

theorem Reachable.wired (pool : Pool base framesNumber) {kernel : Kernel}
    (reachable : Reachable base framesNumber kernel) : Wired base framesNumber kernel := by
  obtain ⟨memory, start, ops, boot, run⟩ := reachable
  exact run_preserves kernel_step_wired (boot_kernel_wired pool boot) run

end Wiring

end ChaoOS.KernelHeap
