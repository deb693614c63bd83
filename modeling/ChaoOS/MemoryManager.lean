import ChaoOS.FrameTableRuns
import ChaoOS.HeapFrames
import ChaoOS.LargeBlocks
import ChaoOS.SliceHeapRuns

/-!
# The memory manager as a whole

`kmalloc`, `kfree` and the calls of the buddy system in any order, on one state.
Slices come from pages of the slice heap, requests of more than 2048 bytes and
requests for frames from blocks of the buddy system. Every region that is handed
out counts until it is given back.
-/

namespace ChaoOS.MemoryManager

open ChaoOS.KernelMath ChaoOS.GuardedRun ChaoOS.PageDirectory ChaoOS.SliceHeapModel
open ChaoOS.SliceHeapInvariant ChaoOS.SliceHeapMalloc ChaoOS.SliceHeapFree
open ChaoOS.FrameTableModel ChaoOS.FrameTableFree ChaoOS.KernelHeap ChaoOS.HeapFrames
open ChaoOS.LargeBlocks (requestLevel get_block_claimed)
open ChaoOS.FrameTableRuns (Block Client FrameOp clientStep ClientSound LinksRepaired)

set_option autoImplicit false

/-- `live` has the pointers that `kmalloc` returned, with the sizes asked for;
`direct` the blocks that were asked of the buddy system itself. -/
structure MemoryState where
  kernel : Kernel
  live : List (Nat × Nat)
  direct : List Block

inductive MemoryOp where
  | kmalloc (byteSize : Nat)
  | kfree (address : Nat)
  | frames (op : FrameOp)
  | write (address value : Nat)

namespace MemoryState

def zoneClient (memory : MemoryState) : Client := ⟨memory.kernel.zone, memory.direct⟩

end MemoryState

def memoryStep (memory : MemoryState) : MemoryOp → Option MemoryState
  | .kmalloc byteSize =>
      (kmallocOn byteSize memory.kernel).map fun result =>
        { memory with
          kernel := result.2
          live := if result.1 = 0 then memory.live else (result.1, byteSize) :: memory.live }
  | .kfree address =>
      (kfreeOn address memory.kernel).map fun kernel =>
        { memory with kernel := kernel, live := dropPointer address memory.live }
  | .frames op =>
      (clientStep memory.zoneClient op).map fun client =>
        { memory with kernel := { memory.kernel with zone := client.mem }, direct := client.blocks }
  | .write address value =>
      some { memory with
        kernel := { memory.kernel with heap := memory.kernel.heap.storeByte address value } }

/-- The start and the length of a block in the kernel's linear map. -/
def blockRegion (base : Nat) (block : Block) : Nat × Nat :=
  (pageAt base block.1, pageSize * 2 ^ block.2)

def regions (memory : MemoryState) : List (Nat × Nat) :=
  memory.live ++ memory.direct.map (blockRegion memory.kernel.zone.base)

/-- The buddy system has a block for each request that the call makes. -/
def Granted (kernel : Kernel) (byteSize : Nat) : Prop :=
  byteSize ≤ maxAlloc →
    (frameAnswers (requestedPages byteSize kernel.heap) kernel.zone).all
      fun answers => answers.1.all Option.isSome

/-- Requests are granted; slices are freed that are live, where neither the full
list nor a free list has a stale first link; writes stay in live regions. -/
def Permits (memory : MemoryState) : MemoryOp → Prop
  | .kmalloc byteSize => Granted memory.kernel byteSize
  | .kfree address =>
      (∃ region ∈ memory.live, region.1 = address ∧ region.2 ≤ 2048) ∧
        ¬ReleasesFullHead memory.kernel.heap address ∧
        (EmptiesPage memory.kernel.heap (allocatorOf memory.kernel.heap address) →
          SafeToFree memory.kernel.zone (frameIndexOf memory.kernel.heap address))
  | .frames op => LinksRepaired memory.zoneClient op
  | .write address _ =>
      ∃ region ∈ regions memory, region.1 ≤ address ∧ address < region.1 + region.2

instance (kernel : Kernel) (byteSize : Nat) : Decidable (Granted kernel byteSize) :=
  inferInstanceAs (Decidable (_ → _))

instance (memory : MemoryState) : (op : MemoryOp) → Decidable (Permits memory op)
  | .kmalloc _ => inferInstanceAs (Decidable (Granted _ _))
  | .kfree _ => inferInstanceAs (Decidable (_ ∧ _ ∧ _))
  | .frames _ => inferInstanceAs (Decidable (LinksRepaired _ _))
  | .write _ _ => inferInstanceAs (Decidable (∃ region ∈ _, _))

def RegionsApart (left right : Nat × Nat) : Prop :=
  left.1 + left.2 ≤ right.1 ∨ right.1 + right.2 ≤ left.1

/-- All regions lie in the linear map of the pool and no two have a byte in
common. -/
structure MemorySafe (base framesNumber : Nat) (memory : MemoryState) : Prop where
  inside : ∀ region ∈ regions memory, pageAt base 0 ≤ region.1 ∧
    region.1 + region.2 ≤ pageAt base framesNumber
  apart : (regions memory).Pairwise RegionsApart

/-! ## Who has which block -/

/-- A request that `kmalloc` hands on to the buddy system. -/
def isLarge (region : Nat × Nat) : Bool := 2048 < region.2

def blockOf (base : Nat) (region : Nat × Nat) : Block :=
  ((region.1 - pageAt base 0) / pageSize, requestLevel region.2)

namespace MemoryState

def slices (memory : MemoryState) : List (Nat × Nat) := memory.live.filter fun region => !isLarge region

def large (memory : MemoryState) : List (Nat × Nat) := memory.live.filter isLarge

end MemoryState

/-- The blocks in use, where `pages` are the frames of the slice heap. -/
def heldBlocks (base : Nat) (pages : List Nat) (memory : MemoryState) : List Block :=
  memory.direct ++ (memory.large.map (blockOf base) ++ pages.map fun k => (k, 0))

structure MemorySound (base framesNumber : Nat) (pages : List Nat) (memory : MemoryState) : Prop where
  wired : Wired base framesNumber memory.kernel
  blocks : ClientSound framesNumber ⟨memory.kernel.zone, heldBlocks base pages memory⟩
  heap : ∃ chains place,
    HeapSound False framesNumber chains place (withFrames memory.kernel.heap pages) memory.slices
  large : ∀ region ∈ memory.large, region.1 = pageAt base (blockOf base region).1 ∧
    region.2 ≤ pageSize * 2 ^ (blockOf base region).2

/-! ## Regions in sound states -/

section Regions

variable {base framesNumber : Nat} {pages : List Nat} {memory : MemoryState}

/-- Two halves of a list whose members are apart from each other are all apart. -/
theorem pairwise_of_halves {α : Type*} {relation : α → α → Prop} {half : α → Bool}
    (swap : ∀ {left right}, relation left right → relation right left) {items : List α}
    (first : (items.filter half).Pairwise relation)
    (second : (items.filter fun item => !half item).Pairwise relation)
    (cross : ∀ left ∈ items.filter half, ∀ right ∈ items.filter (fun item => !half item),
      relation left right) : items.Pairwise relation := by
  induction items with
  | nil => exact List.Pairwise.nil
  | cons item rest induction =>
      by_cases kind : half item = true
      · rw [List.filter_cons_of_pos kind] at first cross
        rw [List.filter_cons_of_neg (by simp [kind])] at second cross
        rw [List.pairwise_cons] at first ⊢
        refine ⟨?_, induction first.2 second fun left member =>
          cross left (List.mem_cons_of_mem _ member)⟩
        intro other member
        by_cases same : half other = true
        · exact first.1 other (List.mem_filter.mpr ⟨member, same⟩)
        · exact cross item List.mem_cons_self other (List.mem_filter.mpr ⟨member, by simp [same]⟩)
      · rw [List.filter_cons_of_neg kind] at first cross
        rw [List.filter_cons_of_pos (by simp [kind])] at second cross
        rw [List.pairwise_cons] at second ⊢
        refine ⟨?_, induction first second.2 fun left member right later =>
          cross left member right (List.mem_cons_of_mem _ later)⟩
        intro other member
        by_cases same : half other = true
        · exact swap (cross other (List.mem_filter.mpr ⟨member, same⟩) item List.mem_cons_self)
        · exact second.1 other (List.mem_filter.mpr ⟨member, by simp [same]⟩)

/-- The block that a region is part of. -/
def InBlock (base : Nat) (block : Block) (region : Nat × Nat) : Prop :=
  pageAt base block.1 ≤ region.1 ∧ region.1 + region.2 ≤ pageAt base (block.1 + 2 ^ block.2)

theorem page_at_add (base index count : Nat) :
    pageAt base (index + count) = pageAt base index + pageSize * count := by
  unfold pageAt
  rw [Nat.add_mul, Nat.mul_comm count]
  omega

theorem page_at_mono {base index other : Nat} (ordered : index ≤ other) :
    pageAt base index ≤ pageAt base other := by
  unfold pageAt
  exact Nat.add_le_add_left (Nat.mul_le_mul_right pageSize ordered) _

/-- Blocks of one list that differ have no page in common. -/
theorem blocks_apart (sound : MemorySound base framesNumber pages memory) {left right : Block}
    (leftHeld : left ∈ heldBlocks base pages memory)
    (rightHeld : right ∈ heldBlocks base pages memory) (different : left ≠ right) :
    left.1 + 2 ^ left.2 ≤ right.1 ∨ right.1 + 2 ^ right.2 ≤ left.1 := by
  obtain ⟨free, taken, zone, held⟩ := sound.blocks.sound
  rcases zone.layout.tiling.apart (Or.inr (held left leftHeld)) (Or.inr (held right rightHeld)) with
    same | apart
  · exact absurd (Prod.ext same.1 same.2) different
  · exact apart

theorem block_inside (sound : MemorySound base framesNumber pages memory) {block : Block}
    (held : block ∈ heldBlocks base pages memory) : block.1 + 2 ^ block.2 ≤ framesNumber := by
  obtain ⟨free, taken, zone, all⟩ := sound.blocks.sound
  have inside := zone.layout.tiling.inside (Or.inr (all block held))
  rw [sound.blocks.number] at inside
  exact inside

theorem regions_apart_of_blocks {left right : Block} {region other : Nat × Nat}
    (apart : left.1 + 2 ^ left.2 ≤ right.1 ∨ right.1 + 2 ^ right.2 ≤ left.1)
    (here : InBlock base left region) (there : InBlock base right other) :
    RegionsApart region other := by
  unfold InBlock at here there
  rcases apart with below | above
  · exact Or.inl (le_trans here.2 (le_trans (page_at_mono below) there.1))
  · exact Or.inr (le_trans there.2 (le_trans (page_at_mono above) here.1))

theorem direct_in_block (base : Nat) (block : Block) :
    InBlock base block (blockRegion base block) :=
  ⟨le_rfl, le_of_eq (page_at_add _ _ _).symm⟩

theorem large_in_block (sound : MemorySound base framesNumber pages memory) {region : Nat × Nat}
    (member : region ∈ memory.large) : InBlock base (blockOf base region) region := by
  obtain ⟨start, fits⟩ := sound.large region member
  refine ⟨le_of_eq start.symm, ?_⟩
  rw [page_at_add, ← start]
  exact Nat.add_le_add_left fits _

theorem slice_in_block (sound : MemorySound base framesNumber pages memory) {region : Nat × Nat}
    (member : region ∈ memory.slices) : ∃ k ∈ pages, InBlock base (k, 0) region := by
  obtain ⟨chains, place, heap⟩ := sound.heap
  rcases heap.listed region.1 region.2 member with
    ⟨level, m, i, k, j, kept, inside, _, target, slice, address, fits⟩
  obtain ⟨-, held, -⟩ := heap.held_at kept inside target
  have range := slice_in_page (withFrames memory.kernel.heap pages).base k kept.1 slice
  have own : (withFrames memory.kernel.heap pages).base = base := sound.wired.heapBase
  rw [own] at range address
  refine ⟨k, held.inUse, ?_⟩
  unfold InBlock
  rw [page_at_add, address]
  dsimp only
  omega

theorem mem_held_direct {block : Block} (member : block ∈ memory.direct) :
    block ∈ heldBlocks base pages memory :=
  List.mem_append_left _ member

theorem mem_held_large {region : Nat × Nat} (member : region ∈ memory.large) :
    blockOf base region ∈ heldBlocks base pages memory :=
  List.mem_append_right _ (List.mem_append_left _ (List.mem_map_of_mem member))

theorem mem_held_page {k : Nat} (member : k ∈ pages) :
    (k, 0) ∈ heldBlocks base pages memory :=
  List.mem_append_right _ (List.mem_append_right _ (List.mem_map.mpr ⟨k, member, rfl⟩))

/-- The three kinds of blocks are never one block twice. -/
theorem held_disjoint (sound : MemorySound base framesNumber pages memory) :
    memory.direct.Nodup ∧ (memory.large.map (blockOf base)).Nodup ∧ pages.Nodup ∧
      (∀ block ∈ memory.direct, ∀ region ∈ memory.large, block ≠ blockOf base region) ∧
      (∀ block ∈ memory.direct, ∀ k ∈ pages, block ≠ (k, 0)) ∧
      ∀ region ∈ memory.large, ∀ k ∈ pages, blockOf base region ≠ (k, 0) := by
  have nodup := sound.blocks.nodup
  unfold heldBlocks at nodup
  rw [List.nodup_append, List.nodup_append] at nodup
  obtain ⟨direct, ⟨large, single, largeSingle⟩, directOther⟩ := nodup
  refine ⟨direct, large, List.Nodup.of_map _ single, ?_, ?_, ?_⟩
  · intro block member region listed
    exact directOther block member _ (List.mem_append_left _ (List.mem_map_of_mem listed))
  · intro block member k listed
    exact directOther block member _
      (List.mem_append_right _ (List.mem_map.mpr ⟨k, listed, rfl⟩))
  · intro region member k listed
    exact largeSingle _ (List.mem_map_of_mem member) _ (List.mem_map.mpr ⟨k, listed, rfl⟩)

theorem memory_safe (sound : MemorySound base framesNumber pages memory) :
    MemorySafe base framesNumber memory := by
  obtain ⟨direct, large, -, directLarge, directPage, largePage⟩ := held_disjoint sound
  have own : memory.kernel.zone.base = base := sound.wired.zoneBase
  have bounds : ∀ {block region}, block ∈ heldBlocks base pages memory →
      InBlock base block region →
      pageAt base 0 ≤ region.1 ∧ region.1 + region.2 ≤ pageAt base framesNumber := by
    intro block region held inBlock
    have inside := block_inside sound held
    exact ⟨le_trans (page_at_mono (Nat.zero_le _)) inBlock.1,
      le_trans inBlock.2 (page_at_mono inside)⟩
  constructor
  case inside =>
    intro region member
    rcases List.mem_append.mp member with live | block
    · by_cases kind : isLarge region = true
      · have listed : region ∈ memory.large := List.mem_filter.mpr ⟨live, kind⟩
        exact bounds (mem_held_large listed) (large_in_block sound listed)
      · have listed : region ∈ memory.slices := List.mem_filter.mpr ⟨live, by simp [kind]⟩
        obtain ⟨k, page, inBlock⟩ := slice_in_block sound listed
        exact bounds (mem_held_page page) inBlock
    · obtain ⟨held, listed, rfl⟩ := List.mem_map.mp block
      rw [own]
      exact bounds (mem_held_direct listed) (direct_in_block base held)
  case apart =>
    rw [regions, List.pairwise_append]
    refine ⟨?_, ?_, ?_⟩
    · apply @pairwise_of_halves _ RegionsApart isLarge Or.symm
      · have distinct := List.pairwise_map.mp large
        apply distinct.imp_of_mem
        intro left right leftLive rightLive different
        exact regions_apart_of_blocks
          (blocks_apart sound (mem_held_large leftLive) (mem_held_large rightLive) different)
          (large_in_block sound leftLive) (large_in_block sound rightLive)
      · obtain ⟨chains, place, heap⟩ := sound.heap
        have distinct := List.pairwise_map.mp heap.nodup
        exact distinct.imp_of_mem fun leftLive rightLive different =>
          SliceHeapRuns.pointers_apart heap leftLive rightLive different
      · intro left leftLive right rightLive
        obtain ⟨k, page, inBlock⟩ := slice_in_block sound rightLive
        exact regions_apart_of_blocks
          (blocks_apart sound (mem_held_large leftLive) (mem_held_page page)
            (largePage left leftLive k page)) (large_in_block sound leftLive) inBlock
    · rw [List.pairwise_map, own]
      apply direct.imp_of_mem
      intro left right leftLive rightLive different
      exact regions_apart_of_blocks
        (blocks_apart sound (mem_held_direct leftLive) (mem_held_direct rightLive) different)
        (direct_in_block base left) (direct_in_block base right)
    · intro region live other block
      obtain ⟨held, listed, rfl⟩ := List.mem_map.mp block
      rw [own]
      by_cases kind : isLarge region = true
      · have large : region ∈ memory.large := List.mem_filter.mpr ⟨live, kind⟩
        exact regions_apart_of_blocks
          (blocks_apart sound (mem_held_large large) (mem_held_direct listed)
            (directLarge held listed region large).symm) (large_in_block sound large)
          (direct_in_block base held)
      · have slice : region ∈ memory.slices := List.mem_filter.mpr ⟨live, by simp [kind]⟩
        obtain ⟨k, page, inBlock⟩ := slice_in_block sound slice
        exact regions_apart_of_blocks
          (blocks_apart sound (mem_held_page page) (mem_held_direct listed)
            (directPage held listed k page).symm) inBlock (direct_in_block base held)

end Regions

end ChaoOS.MemoryManager
