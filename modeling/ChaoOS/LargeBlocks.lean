import ChaoOS.KernelHeap
import ChaoOS.SliceHeapFree

/-!
# Blocks of whole pages

Above 2048 bytes `kmalloc` answers with a block of the buddy system, but `kfree`
looks for the slice allocator of the page all the same. The `allocator` field of
the block's first frame is only ever set for a slice page, so `kfree` follows a
null pointer, unless the frame is at the same time the page of an allocator.
-/

namespace ChaoOS.LargeBlocks

open ChaoOS.KernelMath ChaoOS.PageDirectory ChaoOS.SliceHeapModel ChaoOS.SliceHeapInvariant
open ChaoOS.SliceHeapMalloc ChaoOS.SliceHeapFree
open ChaoOS.DyadicTiling (buddy buddy_mul)
open ChaoOS.FrameTableModel ChaoOS.FrameTableRejects ChaoOS.FrameTableFree ChaoOS.FrameTableAlloc
open ChaoOS.FrameTableReturns (physic_free_of_page)
open ChaoOS.KernelHeap

set_option autoImplicit false

/-- The level of the block that serves a request. -/
def requestLevel (byteSize : Nat) : Nat :=
  (powerOf2 (nextPowerOf2 (pageCount byteSize))).getD 0

/-- The first block of the first list that can serve `level`. -/
def firstFit (level : Nat) (zone : NormalMem) : Nat :=
  zone.freeLists (availableLevel zone buddyMaxLevel level)

/-- The block is no allocated block any more, and a free block at the head of its
list covers it: after coalescing that block may be a larger one. -/
def BlockFree (zone : NormalMem) (index level : Nat) : Prop :=
  (zone.page index).flags ≠ pageFrameAllocated + pageFrameBlockHead ∧
    ∃ top, top < buddyMaxLevel ∧ IsFreeBlock zone (zone.freeLists top) top ∧
      zone.freeLists top ≤ index ∧ index + 2 ^ level ≤ zone.freeLists top + 2 ^ top

/-- `kfree(kmalloc(n))` returns, and the block is free again. -/
def FreedAgain (byteSize : Nat) (kernel : Kernel) : Prop :=
  ∃ ptr taken freed, kmallocOn byteSize kernel = some (ptr, taken) ∧
    kfreeOn ptr taken = some freed ∧
    BlockFree freed.zone (firstFit (requestLevel byteSize) kernel.zone) (requestLevel byteSize)

/-- The frame is noted as the page of an allocator that has all its slices back
but one. -/
def LastSliceOut (heap : Heap) (index : Nat) : Prop :=
  (heap.frames (.entry index)).allocator ≠ 0 ∧
    EmptiesPage heap (heap.frames (.entry index)).allocator

/-! ## The block that is taken -/

section Taking

variable {zone zone' : NormalMem} {level block : Nat}

/-- The entry of a block that has just been handed out. -/
theorem get_block_claimed (call : buddySystemGetFramePageBlock level zone = (some block, zone')) :
    block = firstFit level zone ∧ level < buddyMaxLevel ∧
      (block < zone.framesNumber →
        (zone'.page block).flags = pageFrameAllocated + pageFrameBlockHead ∧
          (zone'.page block).level = level) := by
  have least := (available_level_spec zone buddyMaxLevel level (Nat.le_add_left _ _)).1
  unfold buddySystemGetFramePageBlock at call
  dsimp only at call
  split_ifs at call with exhausted
  · exact absurd (congrArg Prod.fst call) (by simp)
  · obtain ⟨same, table⟩ := Prod.mk.inj call
    have block_eq := Option.some.inj same
    refine ⟨block_eq.symm, Nat.lt_of_le_of_lt least (Nat.lt_of_not_le exhausted), ?_⟩
    intro inside
    rw [← table, block_eq]
    have number := (split_block_frames_number level block
      (availableLevel zone buddyMaxLevel level) ((zone.read block).setFreeList
        (availableLevel zone buddyMaxLevel level) ((zone.read block).page block).nextFrame)).1
    constructor
    · rw [(claim_block_entry _ block level block).1, number]
      exact if_pos ⟨rfl, inside⟩
    · simp only [claimBlock, page_modify, frames_number_modify, apply_ite PageFrame.level, ite_self,
        number, true_and]
      exact if_pos inside

end Taking

/-! ## The block that is given back -/

/-- The buddy index is one block further, below or above, wherever the block
starts. -/
theorem buddy_apart (index level : Nat) :
    buddy index level + 2 ^ level = index ∨ buddy index level = index + 2 ^ level := by
  have power : 1 <<< level = 2 ^ level := Nat.one_shiftLeft level
  have quotient : buddy index level / 2 ^ level = (index / 2 ^ level) ^^^ 1 := by
    rw [buddy, power, Nat.xor_div_two_pow, Nat.div_self (Nat.two_pow_pos level)]
  have rest : buddy index level % 2 ^ level = index % 2 ^ level := by
    rw [buddy, power, Nat.xor_mod_two_pow, Nat.mod_self, Nat.xor_zero]
  have whole := Nat.div_add_mod (buddy index level) (2 ^ level)
  have own := Nat.div_add_mod index (2 ^ level)
  rw [quotient, rest] at whole
  rcases Nat.even_or_odd (index / 2 ^ level) with even | odd
  · rw [Nat.xor_one_of_even even, Nat.mul_add, Nat.mul_one] at whole
    right
    omega
  · rw [Nat.xor_one_of_odd odd] at whole
    obtain ⟨half, twice⟩ := odd
    rw [twice, Nat.add_sub_cancel] at whole
    rw [twice, Nat.mul_add, Nat.mul_one] at own
    left
    omega

theorem merged_covers (index level : Nat) :
    lowerOf index (buddy index level) ≤ index ∧
      index + 2 ^ level ≤ lowerOf index (buddy index level) + 2 ^ (level + 1) := by
  have apart := buddy_apart index level
  rw [lower_of_eq_min, Nat.two_pow_succ]
  generalize 2 ^ level = width at *
  generalize buddy index level = other at *
  omega

theorem coalesce_covers (fuel : Nat) (zone : NormalMem) (index level : Nat) :
    (coalesce fuel zone index level).2.1 ≤ index ∧
      index + 2 ^ level ≤ (coalesce fuel zone index level).2.1 +
        2 ^ (coalesce fuel zone index level).2.2 ∧
      (level < buddyMaxLevel → (coalesce fuel zone index level).2.2 < buddyMaxLevel) := by
  induction fuel generalizing zone index level with
  | zero => exact ⟨Nat.le_refl _, Nat.le_refl _, fun bound => bound⟩
  | succ fuel induction =>
      rw [coalesce]
      dsimp only
      split_ifs with below
      · obtain ⟨low, high, bound⟩ := induction
          (mergeBuddy (zone.read (buddy index level)) level index (buddy index level))
          (lowerOf index (buddy index level)) (level + 1)
        obtain ⟨lower, upper⟩ := merged_covers index level
        exact ⟨low.trans lower, upper.trans high, fun _ => bound (by omega)⟩
      · exact ⟨Nat.le_refl _, Nat.le_refl _, fun bound => bound⟩
      · exact ⟨Nat.le_refl _, Nat.le_refl _, fun bound => bound⟩

theorem release_heads_list {zone : NormalMem} {index : Nat} (level : Nat)
    (inside : index < zone.framesNumber) :
    (releaseBlock zone index level).freeLists level = index ∧
      IsFreeBlock (releaseBlock zone index level) index level := by
  have number : (releaseBlock zone index level).framesNumber = zone.framesNumber := by
    simp [releaseBlock]
  have flags := (release_block_entry zone index level index).1
  rw [if_pos ⟨rfl, inside⟩] at flags
  refine ⟨by simp [releaseBlock], ?_, flags, ?_⟩
  · rw [number]
    exact inside
  · simp only [releaseBlock, page_set_free_list, page_modify, page_modify_inside,
      frames_number_modify, frames_number_modify_inside, apply_ite PageFrame.level, ite_self,
      true_and]
    exact if_pos inside

/-- Whatever the lists look like, an allocated block that is freed is free then. -/
theorem free_block_frees {zone : NormalMem} {index level : Nat}
    (inside : index < zone.framesNumber) (bound : level < buddyMaxLevel)
    (flags : (zone.page index).flags = pageFrameAllocated + pageFrameBlockHead)
    (ownLevel : (zone.page index).level = level) :
    BlockFree (buddySystemFreeFramePageBlock index zone).2 index level := by
  have head : ¬NoHead zone index := by
    intro noHead
    rcases noHead with outside | clear
    · exact absurd inside (Nat.not_lt.mpr outside)
    · rw [flags] at clear
      exact absurd clear (by decide)
  have call : buddySystemFreeFramePageBlock index zone =
      (1, releaseBlock (coalesce buddyMaxLevel (zone.read index) index level).1
        (coalesce buddyMaxLevel (zone.read index) index level).2.1
        (coalesce buddyMaxLevel (zone.read index) index level).2.2) := by
    rw [buddySystemFreeFramePageBlock, if_neg (Nat.not_le.mpr inside)]
    dsimp only
    rw [page_read, flags, ownLevel]
    exact if_neg (by decide)
  have entry := (free_block_entry head call).2.2.2
  obtain ⟨low, high, top⟩ := coalesce_covers buddyMaxLevel (zone.read index) index level
  have number := (coalesce_number buddyMaxLevel index level (zone.read index)).1
  rw [call]
  generalize coalesce buddyMaxLevel (zone.read index) index level = merged at *
  have held : merged.2.1 < merged.1.framesNumber := by
    rw [number]
    exact Nat.lt_of_le_of_lt low inside
  obtain ⟨list, free⟩ := release_heads_list merged.2.2 held
  refine ⟨?_, merged.2.2, top bound, ?_⟩
  · intro still
    rcases entry with plain | freed
    · rw [plain] at still
      exact absurd still (by decide)
    · rw [freed] at still
      exact absurd still (by decide)
  · rw [list]
    exact ⟨free, low, high⟩

/-! ## `kfree` of a block -/

section Blocks

variable {base framesNumber : Nat} {kernel : Kernel} {byteSize address : Nat} {zone : NormalMem}

/-- A block that `physic_alloc` finds, and where `kmalloc` says it is. -/
structure BlockTaken (base framesNumber byteSize : Nat) (kernel : Kernel) (block : Nat)
    (zone : NormalMem) : Prop where
  inside : block < framesNumber
  bound : requestLevel byteSize < buddyMaxLevel
  number : zone.framesNumber = framesNumber
  zoneBase : zone.base = base
  flags : (zone.page block).flags = pageFrameAllocated + pageFrameBlockHead
  level : (zone.page block).level = requestLevel byteSize
  returned : kmallocOn byteSize kernel = some (pageAt base block,
    ⟨zone, kernel.heap.takeBlock (nextPowerOf2 (pageCount byteSize)) (some block)⟩)
  nonnull : base + block * pageSize ≠ 0

theorem block_taken (pool : Pool base framesNumber) (wired : Wired base framesNumber kernel)
    (large : 2048 < byteSize) (allowed : byteSize ≤ maxAlloc)
    (found : physicAlloc byteSize kernel.zone = some (address, zone)) (nonnull : address ≠ 0) :
    ∃ zone', BlockTaken base framesNumber byteSize kernel
      (firstFit (requestLevel byteSize) kernel.zone) zone' := by
  obtain ⟨⟨answer, zone'⟩, asked, rest⟩ := Option.bind_eq_some_iff.mp found
  obtain ⟨level, sized, call⟩ := Option.bind_eq_some_iff.mp asked
  have own : requestLevel byteSize = level := by
    rw [requestLevel, sized, Option.getD_some]
  cases answer with
  | none => exact absurd (congrArg Prod.fst (Option.some.inj rest)).symm nonnull
  | some block =>
      obtain ⟨isFirst, bound, claimed⟩ := get_block_claimed (Option.some.inj call)
      have keeps := frame_alloc_keeps asked
      have physical := (keeps.physical block).trans (wired.table block)
      have place := (congrArg Prod.fst (Option.some.inj rest)).symm.trans physical
      split_ifs at place with inside
      · have word := pool.page_end inside
        have positive : 0 < pageSize := by decide
        have pointer : add32 (base + block * pageSize) pageOffset = pageAt base block := by
          rw [pageAt] at word
          rw [add32_of_lt (by omega), pageAt]
          omega
        have here := claimed (by rw [wired.number]; exact inside)
        rw [own, ← isFirst]
        refine ⟨zone', inside, by rw [own]; exact bound, keeps.number.trans wired.number,
          keeps.base.trans wired.zoneBase, here.1, by rw [own]; exact here.2, ?_,
          by rw [← place]; exact nonnull⟩
        have requests : requestedPages byteSize kernel.heap = [pageCount byteSize] :=
          if_neg (large_slice_level large)
        have answered : frameAnswers [pageCount byteSize] kernel.zone =
            some ([some block], zone') := by
          rw [frameAnswers, asked]
          rfl
        rw [kmallocOn, if_neg (Nat.not_lt.mpr allowed), requests, answered, Option.bind_some,
          SliceHeapModel.kmalloc, if_neg (Nat.not_lt.mpr allowed)]
        dsimp only
        rw [if_neg (large_slice_level large), answerAddress, wired.physical, if_pos inside, pointer,
          Option.map_some]
      · exact absurd place nonnull

theorem page_in_page (base k : Nat) : InPage base k (pageAt base k) :=
  ⟨Nat.le_refl _, Nat.lt_add_of_pos_right (by decide)⟩

/-- What `kfree` does with a block depends on the owner noted for its first frame. -/
theorem BlockTaken.free_call {block : Nat} (pool : Pool base framesNumber)
    (wired : Wired base framesNumber kernel)
    (taken : BlockTaken base framesNumber byteSize kernel block zone) (count : Nat) :
    kfreeOn (pageAt base block) ⟨zone, kernel.heap.takeBlock count (some block)⟩ =
      if (kernel.heap.frames (.entry block)).allocator = 0 then none
      else if EmptiesPage kernel.heap (kernel.heap.frames (.entry block)).allocator then
        some ⟨(buddySystemFreeFramePageBlock block zone).2,
          kfree (pageAt base block) (kernel.heap.takeBlock count (some block))⟩
      else some ⟨zone, kfree (pageAt base block) (kernel.heap.takeBlock count (some block))⟩ := by
  have heapBase : (kernel.heap.takeBlock count (some block)).base = base := wired.heapBase
  have word := pool.page_end taken.inside
  have someAddress := page_at_ne_zero base block
  have physical : sub32 (pageAt base block &&& pageMask) pageOffset = base + block * pageSize := by
    rw [page_of_address pool taken.inside (page_in_page base block),
      sub32_of_le (by omega) (by rw [pageAt]; omega), pageAt, Nat.add_assoc, Nat.add_sub_cancel_left]
  have index : sub32 (base + block * pageSize) zone.base / pageFrameSize = block := by
    rw [pageAt] at word
    rw [taken.zoneBase, sub32_of_le (by omega) (Nat.le_add_right _ _), Nat.add_sub_cancel_left]
    exact Nat.mul_div_cancel block (by decide)
  have frame : frameIndexOf (kernel.heap.takeBlock count (some block)) (pageAt base block) =
      block := by
    rw [← heapBase] at pool ⊢
    exact frame_of_address pool taken.inside (page_in_page _ block)
  rw [kfreeOn, if_neg someAddress, allocatorOf, frame, physical,
    physic_free_of_page taken.nonnull index]
  rfl

/-- `kfree(kmalloc(n))` gives the block back exactly when the block's first frame
is at the same time the page of an allocator that has one slice out. -/
theorem large_block_freed_iff (pool : Pool base framesNumber)
    (reachable : Reachable base framesNumber kernel) (large : 2048 < byteSize)
    (allowed : byteSize ≤ maxAlloc)
    (found : physicAlloc byteSize kernel.zone = some (address, zone)) (nonnull : address ≠ 0) :
    FreedAgain byteSize kernel ↔
      LastSliceOut kernel.heap (firstFit (requestLevel byteSize) kernel.zone) := by
  have wired := reachable.wired pool
  obtain ⟨zone', taken⟩ := block_taken pool wired large allowed found nonnull
  have release := taken.free_call pool wired (nextPowerOf2 (pageCount byteSize))
  constructor
  · rintro ⟨ptr, after, freed, served, given, free⟩
    rw [taken.returned] at served
    obtain ⟨samePtr, sameKernel⟩ := Prod.mk.inj (Option.some.inj served)
    rw [← samePtr, ← sameKernel, release] at given
    split_ifs at given with unowned emptied
    · exact ⟨unowned, emptied⟩
    · rw [← Option.some.inj given] at free
      exact absurd taken.flags free.1
  · rintro ⟨owned, emptied⟩
    rw [if_neg owned, if_pos emptied] at release
    refine ⟨_, _, _, taken.returned, release, ?_⟩
    exact free_block_frees (by rw [taken.number]; exact taken.inside) taken.bound taken.flags
      taken.level

/-- A block whose first frame no allocator has taken is lost: `kfree` never
returns. -/
theorem fresh_block_not_freed (pool : Pool base framesNumber)
    (reachable : Reachable base framesNumber kernel) (large : 2048 < byteSize)
    (allowed : byteSize ≤ maxAlloc)
    (found : physicAlloc byteSize kernel.zone = some (address, zone)) (nonnull : address ≠ 0)
    (fresh : firstFit (requestLevel byteSize) kernel.zone ∉ kernel.heap.framesInUse) :
    ∃ ptr taken, kmallocOn byteSize kernel = some (ptr, taken) ∧ kfreeOn ptr taken = none := by
  have wired := reachable.wired pool
  obtain ⟨zone', taken⟩ := block_taken pool wired large allowed found nonnull
  refine ⟨_, _, taken.returned, ?_⟩
  rw [taken.free_call pool wired]
  apply if_pos
  by_contra owned
  exact fresh (wired.owned _ owned)

end Blocks

/-- A kernel stack right after `init_kmm`, in a pool of 1024 frames. -/
theorem sample_stack_block : ∃ start address zone,
    bootKernel 0x200000 1024 (fun _ => 0) = some start ∧
      physicAlloc 0x4000 start.zone = some (address, zone) ∧ address ≠ 0 ∧
      firstFit (requestLevel 0x4000) start.zone ∉ start.heap.framesInUse := by
  have facts : ((bootKernel 0x200000 1024 fun _ => 0).bind fun start =>
      (physicAlloc 0x4000 start.zone).map fun found =>
        decide (found.1 ≠ 0 ∧
          firstFit (requestLevel 0x4000) start.zone ∉ start.heap.framesInUse)) = some true := by
    decide +kernel
  obtain ⟨start, boot, found⟩ := Option.bind_eq_some_iff.mp facts
  obtain ⟨⟨address, zone⟩, call, holds⟩ := Option.map_eq_some_iff.mp found
  obtain ⟨nonnull, fresh⟩ := of_decide_eq_true holds
  exact ⟨start, address, zone, boot, call, nonnull, fresh⟩

theorem large_block_freed_sample : ∃ start, bootKernel 0x200000 1024 (fun _ => 0) = some start ∧
    (FreedAgain 0x4000 start ↔
      LastSliceOut start.heap (firstFit (requestLevel 0x4000) start.zone)) := by
  obtain ⟨start, address, zone, boot, found, nonnull, -⟩ := sample_stack_block
  exact ⟨start, boot, large_block_freed_iff sample_kernel_pool (reachable_boot boot) (by decide)
    (by decide) found nonnull⟩

/-- The first kernel stack cannot be freed. -/
theorem stack_block_faults : ¬∀ base framesNumber kernel byteSize address zone,
    SliceHeapInvariant.Pool base framesNumber → Reachable base framesNumber kernel →
      2048 < byteSize → byteSize ≤ maxAlloc →
      physicAlloc byteSize kernel.zone = some (address, zone) → address ≠ 0 →
      FreedAgain byteSize kernel := by
  intro always
  obtain ⟨start, address, zone, boot, found, nonnull, fresh⟩ := sample_stack_block
  have reachable := reachable_boot boot
  have large : 2048 < 0x4000 := by decide
  obtain ⟨ptr, taken, served, lost⟩ := fresh_block_not_freed sample_kernel_pool reachable
    large (by decide) found nonnull fresh
  obtain ⟨other, after, freed, again, given, -⟩ := always 0x200000 1024 start 0x4000 address zone
    sample_kernel_pool reachable large (by decide) found nonnull
  rw [served] at again
  obtain ⟨samePtr, sameKernel⟩ := Prod.mk.inj (Option.some.inj again)
  rw [← samePtr, ← sameKernel, lost] at given
  exact absurd given (by simp)

end ChaoOS.LargeBlocks
