import ChaoOS.MemorySafety
import Mathlib.Data.List.Pairwise

/-!
# What stands in the regions

`kmalloc` writes headers into the pages of the slice heap and `kfree` a link into
the slice that it takes back. A region that somebody keeps has none of these bytes,
so that it holds what was last written into it.
-/

namespace ChaoOS.MemoryContents

open ChaoOS.KernelMath ChaoOS.IndexList ChaoOS.GuardedRun ChaoOS.PageDirectory
open ChaoOS.SliceHeapModel ChaoOS.SliceLists ChaoOS.SliceHeapInvariant ChaoOS.SliceHeapAlloc
open ChaoOS.SliceHeapGrow ChaoOS.SliceHeapMalloc ChaoOS.SliceHeapFree ChaoOS.KernelHeap
open ChaoOS.HeapFrames ChaoOS.MemoryManager ChaoOS.MemoryRuns ChaoOS.MemorySafety
open ChaoOS.FrameTableModel (NormalMem)
open ChaoOS.FrameTableRuns (Block ClientSound FrameOp clientStep)
open ChaoOS.ZoneLayout (TableBelow tableRegion)

set_option autoImplicit false

/-- The start of the region that an operation gives back. -/
def givesBack (base : Nat) : MemoryOp → Option Nat
  | .kfree address => some address
  | .frames (.frameFree block) => some (pageAt base block.1)
  | .frames (.physicFree block) => some (pageAt base block.1)
  | _ => none

/-- The byte at `place` after an operation of the clients. -/
def written (place value : Nat) : MemoryOp → Nat
  | .write address value' => if address = place then value' else value
  | _ => value

/-! ## Bytes that the slice heap writes -/

section Slices

variable {framesNumber : Nat} {chains : Nat → List Nat} {place : Nat → Nat → SliceHeapModel.ListName}
  {heap : Heap} {live : List (Nat × Nat)} {level m i k address : Nat} {frames : List Nat}

/-- `address` is in a live slice, or in no page that the heap has or is offered. -/
def Untouched (heap : Heap) (live : List (Nat × Nat)) (frames : List Nat) (address : Nat) : Prop :=
  (∃ region ∈ live, region.1 ≤ address ∧ address < region.1 + region.2) ∨
    ∀ k, k ∈ heap.framesInUse ∨ k ∈ frames → ¬InPage heap.base k address

/-- The page and the slice that a byte of a live region is in. -/
theorem live_byte_slice (sound : HeapSound False framesNumber chains place heap live)
    {region : Nat × Nat} (member : region ∈ live) (low : region.1 ≤ address)
    (high : address < region.1 + region.2) :
    ∃ level m i k j, Kept chains level m ∧ i < endFlag ∧ targetOf heap m i = .entry k ∧
      sliceAt heap.base level k j ≤ address ∧
      address < sliceAt heap.base level k j + sliceSizeAt level ∧ InPage heap.base k address := by
  obtain ⟨level, m, i, k, j, kept, inside, -, target, slice, start, fits⟩ :=
    sound.listed region.1 region.2 member
  have range := slice_in_page heap.base k kept.1 slice
  rw [start] at low high
  exact ⟨level, m, i, k, j, kept, inside, target, low, by omega, by omega, by omega⟩

/-- A live slice has no header in it. -/
theorem untouched_off_header (sound : HeapSound False framesNumber chains place heap live)
    (kept : Kept chains level m) (inside : i < endFlag)
    (target : targetOf heap m i = .entry k) (linked : level ≤ 4) {j : Nat}
    (slice : j < slicesAt level) (untouched : Untouched heap live frames address) :
    address ≠ headerAt heap.base level k j := by
  intro same
  have here := header_mem_page heap.base k linked slice
  rw [← same] at here
  rcases untouched with ⟨region, member, low, high⟩ | outside
  · obtain ⟨level', m', i', k', j', kept', inside', target', lower, upper, there⟩ :=
      live_byte_slice sound member low high
    have sameFrame : k' = k := page_unique there here
    subst sameFrame
    obtain ⟨sameManager, -⟩ := sound.owner_unique kept inside target kept' inside' target'
    subst sameManager
    have sameLevel := sound.level_unique kept kept'
    subst sameLevel
    exact header_not_in_slice linked lower upper same.symm
  · exact outside k (Or.inl (sound.held_at kept inside target).2.1.inUse) here

/-- No live slice is in a page that is still on offer. -/
theorem untouched_off_fresh (sound : HeapSound False framesNumber chains place heap live)
    (fresh : FreshFrames framesNumber heap frames) (untouched : Untouched heap live frames address) :
    ∀ k ∈ frames, ¬InPage heap.base k address := by
  intro k offered here
  rcases untouched with ⟨region, member, low, high⟩ | outside
  · obtain ⟨level', m', i', k', j', kept', inside', target', -, -, there⟩ :=
      live_byte_slice sound member low high
    have used := (sound.held_at kept' inside' target').2.1.inUse
    rw [page_unique there here] at used
    exact (fresh.2 k offered).2 used
  · exact outside k (Or.inr offered) here

/-- `get_slice_addr` writes the header of the slice. -/
theorem get_slice_memory (sound : HeapSound False framesNumber chains place heap live)
    (kept : Kept chains level m) (inside : i < endFlag)
    (held : HeldPage False framesNumber heap live level m i .pFull k)
    (untouched : Untouched heap live frames address) :
    (getSliceAddr heap m i (heap.managers m).sliceSize (decide (level ≤ 4))).2.2.memory address =
      heap.memory address := by
  by_cases linked : level ≤ 4
  · obtain ⟨chain, state, nonempty⟩ := held.page.linked linked
    cases chain with
    | nil => exact absurd rfl (nonempty rfl)
    | cons j rest =>
        have slice := (state.idle j List.mem_cons_self).1
        rw [get_slice_header sound.mapped linked (sound.size level m kept) held.inside held.target
          slice state.follows.1]
        change store heap.memory _ _ address = _
        rw [store, if_neg (untouched_off_header sound kept inside held.target linked slice untouched)]
  · rw [decide_eq_false linked]
    rfl

theorem take_partial_memory (sound : HeapSound False framesNumber chains place heap live)
    (kept : Kept chains level m) (nonempty : (heap.managers m).head .pFull ≠ endFlag)
    (untouched : Untouched heap live frames address) :
    (takePartial heap m (decide (level ≤ 4))).2.memory address = heap.memory address := by
  obtain ⟨inside, placed⟩ := (sound.threads level m kept).head_mem nonempty
  obtain ⟨k, held, -⟩ := sound.held level m _ kept inside (by rw [placed]; decide)
  rw [placed] at held
  have slice := get_slice_memory sound kept inside held untouched
  unfold takePartial
  dsimp only
  split_ifs
  · exact slice
  · exact slice

/-- A new page gets its headers and the first of them is taken. -/
theorem take_free_memory (sound : HeapSound False framesNumber chains place heap live)
    (kept : Kept chains level m) (nonempty : (heap.managers m).head .free ≠ endFlag)
    (fresh : FreshFrames framesNumber heap frames) {result : Nat × Heap}
    (call : takeFree heap m (decide (level ≤ 4)) (frames.map some) = some result)
    (outside : ∀ k ∈ frames, ¬InPage heap.base k address) :
    result.2.memory address = heap.memory address := by
  obtain ⟨inside, placed⟩ := (sound.threads level m kept).head_mem nonempty
  have bare := sound.bare level m _ kept inside placed
  have page : ((heap.managers m).allocs (heap.managers m).free).targetPage = .null := bare
  unfold takeFree at call
  rw [if_pos page] at call
  cases frames with
  | nil => exact absurd call (by simp)
  | cons k rest =>
      have frame := (fresh.2 k List.mem_cons_self).1
      have off := outside k List.mem_cons_self
      have assigned := @assign_page_spec framesNumber heap level m ((heap.managers m).head .free) k
        sound.mapped kept.1 (sound.size level m kept) frame
      obtain ⟨memory, first, served, elsewhere, -⟩ :=
        take_first_spec sound kept frame assigned rfl
      rw [← Option.some.inj call]
      have stands : (takeFirst (assignPage heap m ((heap.managers m).head .free)
          (decide (level ≤ 4)) (some k)) m (decide (level ≤ 4))).2.memory address =
            heap.memory address := by
        rw [served]
        exact (elsewhere address off).trans (assigned.touches.memory address off)
      exact stands

theorem kmalloc_helper_memory (sound : HeapSound False framesNumber chains place heap live)
    (bound : level < 8) (fresh : FreshFrames framesNumber heap frames)
    (untouched : Untouched heap live frames address) (fuel : Nat) {nodes : List Nat}
    (follows : Follows (fun m => (heap.managers m).next) 0 m nodes)
    (listed : ∀ other ∈ nodes, other ∈ chains level) {result : Nat × Heap}
    (call : kmallocHelper fuel m level (decide (level ≤ 4)) (frames.map some) heap = some result) :
    result.2.memory address = heap.memory address := by
  induction fuel generalizing m nodes with
  | zero => exact absurd call (by simp [kmallocHelper])
  | succ fuel induction =>
      unfold kmallocHelper at call
      cases nodes with
      | nil =>
          have last : m = 0 := follows
          rw [if_pos last] at call
          cases frames with
          | nil => exact absurd call (by simp)
          | cons k rest =>
              have first := fresh.2 k List.mem_cons_self
              obtain ⟨start, added⟩ := add_manager_added level sound.mapped first.1
              have after := added.sound sound bound first.1 first.2
              have manager : Kept (Function.update chains level (pageAt heap.base k :: chains level))
                  level (pageAt heap.base k) := (kept_cons bound).mpr (Or.inl ⟨rfl, rfl⟩)
              have call' : takeFree (addManager heap level (heap.allocMs level) (some k)).2
                  (pageAt heap.base k) (decide (level ≤ 4)) (rest.map some) = some result := by
                rw [← start]
                exact call
              have off : ∀ other ∈ rest, ¬InPage
                  (addManager heap level (heap.allocMs level) (some k)).2.base other address := by
                intro other member
                rw [added.base]
                exact untouched_off_fresh sound fresh untouched other (List.mem_cons_of_mem k member)
              have nonempty : ((addManager heap level (heap.allocMs level) (some k)).2.managers
                  (pageAt heap.base k)).head .free ≠ endFlag := by
                rw [added.manager]
                change 0 ≠ endFlag
                decide
              have same := take_free_memory after manager nonempty (fresh.tail added.inUse) call' off
              rw [same, added.memory]
      | cons first rest =>
          have same : m = first := follows.1
          have kept : Kept chains level m := by
            rw [same]
            exact ⟨bound, listed first List.mem_cons_self⟩
          rw [if_neg (by rw [same]; exact follows.2.1)] at call
          split_ifs at call with partly free
          · rw [← Option.some.inj call]
            exact take_partial_memory sound kept partly untouched
          · exact take_free_memory sound kept free fresh call
              (untouched_off_fresh sound fresh untouched)
          · have tail : Follows (fun m => (heap.managers m).next) 0 (heap.managers m).next rest := by
              rw [same]
              exact follows.2.2
            exact induction tail (fun other member =>
              listed other (List.mem_cons_of_mem first member)) call

/-- A request for a slice leaves the bytes of the others. -/
theorem kmalloc_memory (sound : HeapSound False framesNumber chains place heap live) {n : Nat}
    (small : n ≤ 2048) (fresh : FreshFrames framesNumber heap frames)
    (untouched : Untouched heap live frames address) {result : Nat × Heap}
    (call : kmalloc n (frames.map some) heap = some result) :
    result.2.memory address = heap.memory address := by
  have bound := (slice_level_bounds small).1
  have allowed : ¬maxAlloc < n := Nat.not_lt.mpr (le_trans small (by decide))
  unfold kmalloc at call
  rw [if_neg allowed] at call
  dsimp only at call
  rw [if_pos (show sliceLevel n pageSliceLevel 0 < pageSliceLevel from bound)] at call
  exact kmalloc_helper_memory sound bound fresh untouched managerFuel (sound.chain _ bound)
    (fun _ member => member) call

theorem return_slice_memory {freed : Nat} (heap : Heap) (manager index : Nat)
    (other : address ≠ freed) :
    (returnSlice heap manager index freed).memory address = heap.memory address := by
  unfold returnSlice
  dsimp only
  split_ifs
  · change store heap.memory freed _ address = _
    rw [store, if_neg other]
  · rfl

theorem give_page_memory (heap : Heap) (physicAddr index : Nat) :
    (givePage heap physicAddr index).memory = heap.memory := by
  unfold givePage
  split_ifs <;> rfl

@[simp] theorem modify_manager_memory (heap : Heap) (m : Nat) (change : Manager → Manager) :
    (heap.modifyManager m change).memory = heap.memory := rfl

@[simp] theorem modify_alloc_memory (heap : Heap) (m i : Nat)
    (change : SliceAllocator → SliceAllocator) :
    (heap.modifyAlloc m i change).memory = heap.memory := rfl

@[simp] theorem set_frame_allocator_memory (heap : Heap) (page : FramePtr) (allocator : Nat) :
    (heap.setFrameAllocator page allocator).memory = heap.memory := rfl

/-- `kfree` writes at the address that it is given only. -/
theorem kfree_memory {freed : Nat} (heap : Heap) (other : address ≠ freed) :
    (kfree freed heap).memory address = heap.memory address := by
  unfold kfree
  split_ifs with null
  · rfl
  · dsimp only
    split_ifs
    · rw [modify_manager_memory, modify_alloc_memory, give_page_memory, set_frame_allocator_memory,
        return_slice_memory _ _ _ other, modify_alloc_memory]
    · rw [modify_manager_memory, return_slice_memory _ _ _ other, modify_alloc_memory]
    · rw [return_slice_memory _ _ _ other, modify_alloc_memory]

end Slices

/-! ## Bytes of the regions -/

section Regions

variable {base framesNumber place : Nat} {pages : List Nat} {memory next : MemoryState}
  {region : Nat × Nat}

theorem mem_regions (sound : MemorySound base framesNumber pages memory) :
    region ∈ regions memory ↔
      region ∈ memory.live ∨ ∃ block ∈ memory.direct, blockRegion base block = region := by
  rw [regions, List.mem_append, List.mem_map, sound.wired.zoneBase]

/-- A region that is no slice is inside a block that is no page of the slice heap. -/
theorem region_block (sound : MemorySound base framesNumber pages memory)
    (member : region ∈ regions memory) (other : region ∉ memory.slices) :
    ∃ block ∈ heldBlocks base pages memory, (∀ k ∈ pages, block ≠ (k, 0)) ∧
      InBlock base block region := by
  obtain ⟨-, -, -, -, directPage, largePage⟩ := held_disjoint sound
  rcases (mem_regions sound).mp member with live | ⟨block, listed, same⟩
  · have large : region ∈ memory.large := by
      refine List.mem_filter.mpr ⟨live, ?_⟩
      by_contra kind
      exact other (List.mem_filter.mpr ⟨live, by simp [kind]⟩)
    exact ⟨blockOf base region, mem_held_large large, largePage region large,
      large_in_block sound large⟩
  · rw [← same]
    exact ⟨block, mem_held_direct listed, directPage block listed, direct_in_block base block⟩

theorem region_untouched (sound : MemorySound base framesNumber pages memory)
    (member : region ∈ regions memory) (low : region.1 ≤ place)
    (high : place < region.1 + region.2) {zone : NormalMem} {frames : List Nat}
    (ledger : ClientSound framesNumber
      ⟨zone, frames.reverse.map (fun k => (k, 0)) ++ heldBlocks base pages memory⟩) :
    Untouched (withFrames memory.kernel.heap pages) memory.slices frames place := by
  by_cases slice : region ∈ memory.slices
  · exact Or.inl ⟨region, slice, low, high⟩
  · right
    obtain ⟨block, held, single, inBlock⟩ := region_block sound member slice
    have own : (withFrames memory.kernel.heap pages).base = base := sound.wired.heapBase
    rw [own]
    rintro k (used | offered)
    · exact block_off_pages sound held single inBlock low high k used
    · intro here
      have apart := (FrameTableRuns.client_blocks_apart ledger).2
      rw [List.pairwise_append] at apart
      have new : (k, 0) ∈ frames.reverse.map fun k => ((k, 0) : Block) :=
        List.mem_map.mpr ⟨k, List.mem_reverse.mpr offered, rfl⟩
      have sides := apart.2.2 (k, 0) new block held
      have after := page_at_add base k 1
      obtain ⟨start, finish⟩ := inBlock
      obtain ⟨lower, upper⟩ := here
      rw [Nat.mul_one] at after
      rw [pow_zero] at sides
      dsimp only at sides
      rcases sides with below | above
      · have ordered := @page_at_mono base _ _ below
        omega
      · have ordered := @page_at_mono base _ _ above
        omega

/-- `kmalloc` writes into no region. -/
theorem kmalloc_keeps_byte {byteSize : Nat} {result : Nat × Kernel}
    (sound : MemorySound base framesNumber pages memory)
    (allowed : Granted memory.kernel byteSize) (call : kmallocOn byteSize memory.kernel = some result)
    (member : region ∈ regions memory) (low : region.1 ≤ place)
    (high : place < region.1 + region.2) :
    result.2.heap.memory place = memory.kernel.heap.memory place := by
  by_cases small : byteSize ≤ 2048
  · obtain ⟨frames, ledger, fresh, count, taken⟩ := slice_request_drawn sound small allowed call
    obtain ⟨chains, lists, heap⟩ := sound.heap
    exact kmalloc_memory heap small fresh (region_untouched sound member low high ledger) taken
  · unfold kmallocOn at call
    split_ifs at call with huge
    · rw [← Option.some.inj call]
    · obtain ⟨⟨answers, zone⟩, -, rest⟩ := Option.bind_eq_some_iff.mp call
      obtain ⟨⟨ptr, heap⟩, served, same⟩ := Option.map_eq_some_iff.mp rest
      rw [← same]
      cases answers with
      | nil =>
          unfold kmalloc at served
          rw [if_neg huge] at served
          dsimp only at served
          rw [if_neg (large_slice_level (Nat.lt_of_not_le small))] at served
          exact absurd served (by simp)
      | cons answer others =>
          rw [large_kmalloc (Nat.lt_of_not_le small) (Nat.le_of_not_lt huge)] at served
          rw [← (Prod.mk.inj (Option.some.inj served)).2]
          cases answer <;> rfl

/-- The pointer of a slice that is freed is in no other region. -/
theorem freed_outside (sound : MemorySound base framesNumber pages memory) {address : Nat}
    (permits : Permits memory (.kfree address)) (member : region ∈ regions memory)
    (different : address ≠ region.1) (low : region.1 ≤ place)
    (high : place < region.1 + region.2) : place ≠ address := by
  intro same
  obtain ⟨⟨other, live, start, -⟩, -, -⟩ := permits
  have unlike : region ≠ other := by
    intro equal
    rw [equal] at different
    exact different start.symm
  have symmetric : Std.Symm RegionsApart := ⟨fun _ _ => Or.symm⟩
  have apart := (memory_safe sound).apart.forall member (List.mem_append_left _ live) unlike
  unfold RegionsApart at apart
  omega

theorem kfree_keeps_byte {address : Nat} {kernel : Kernel}
    (call : kfreeOn address memory.kernel = some kernel) (other : place ≠ address) :
    kernel.heap.memory place = memory.kernel.heap.memory place := by
  unfold kfreeOn at call
  split_ifs at call
  · rw [← Option.some.inj call]
  · rw [← Option.some.inj call]
    exact kfree_memory _ other
  · rw [← Option.some.inj call]
    exact kfree_memory _ other

/-- A block that a call of the buddy system does not give back stays with its owner. -/
theorem direct_kept {op : FrameOp} {client : FrameTableRuns.Client} {block : Block}
    (call : clientStep memory.zoneClient op = some client) (listed : block ∈ memory.direct)
    (held : ∀ address ∈ givesBack base (.frames op), address ≠ pageAt base block.1) :
    block ∈ client.blocks := by
  cases op with
  | frameAlloc count =>
      simp only [clientStep] at call
      split_ifs at call
      obtain ⟨answer, -, same⟩ := Option.map_eq_some_iff.mp call
      rw [← same]
      exact List.mem_append_right _ listed
  | physicAlloc byteSize =>
      simp only [clientStep] at call
      split_ifs at call
      obtain ⟨answer, -, same⟩ := Option.map_eq_some_iff.mp call
      rw [← same]
      exact List.mem_append_right _ listed
  | frameFree freed =>
      simp only [clientStep] at call
      split_ifs at call
      have unlike : block ≠ freed := fun same => held _ rfl (by rw [same])
      rw [← Option.some.inj call]
      exact (List.mem_erase_of_ne unlike).mpr listed
  | physicFree freed =>
      simp only [clientStep] at call
      split_ifs at call
      have unlike : block ≠ freed := fun same => held _ rfl (by rw [same])
      rw [← Option.some.inj call]
      exact (List.mem_erase_of_ne unlike).mpr listed

/-- A region that an operation does not give back is there after it. -/
theorem region_stays {op : MemoryOp} {pages' : List Nat}
    (sound : MemorySound base framesNumber pages memory)
    (after : MemorySound base framesNumber pages' next) (step : memoryStep memory op = some next)
    (member : region ∈ regions memory) (held : ∀ address ∈ givesBack base op, address ≠ region.1) :
    region ∈ regions next := by
  rw [mem_regions after]
  rw [mem_regions sound] at member
  cases op with
  | kmalloc byteSize =>
      obtain ⟨result, -, same⟩ := Option.map_eq_some_iff.mp step
      rw [← same]
      apply member.imp_left
      intro live
      dsimp only
      split_ifs
      · exact live
      · exact List.mem_cons_of_mem _ live
  | kfree address =>
      obtain ⟨kernel, -, same⟩ := Option.map_eq_some_iff.mp step
      rw [← same]
      apply member.imp_left
      intro live
      exact List.mem_filter.mpr ⟨live, decide_eq_true (held address rfl).symm⟩
  | frames op =>
      obtain ⟨client, answered, same⟩ := Option.map_eq_some_iff.mp step
      rw [← same]
      rcases member with live | ⟨block, listed, start⟩
      · exact Or.inl live
      · rw [← start] at held
        exact Or.inr ⟨block, direct_kept answered listed held, start⟩
  | write address value =>
      rw [← Option.some.inj step]
      exact member

/-- One operation: the bytes of a region that it does not give back change by its
own write only. -/
theorem memory_step_keeps_byte {op : MemoryOp} (sound : MemorySound base framesNumber pages memory)
    (permits : Permits memory op) (step : memoryStep memory op = some next)
    (member : region ∈ regions memory) (held : ∀ address ∈ givesBack base op, address ≠ region.1)
    (low : region.1 ≤ place) (high : place < region.1 + region.2) :
    next.kernel.heap.memory place = written place (memory.kernel.heap.memory place) op := by
  cases op with
  | kmalloc byteSize =>
      obtain ⟨result, served, same⟩ := Option.map_eq_some_iff.mp step
      rw [← same]
      exact kmalloc_keeps_byte sound permits served member low high
  | kfree address =>
      obtain ⟨kernel, freed, same⟩ := Option.map_eq_some_iff.mp step
      rw [← same]
      have outside := freed_outside sound permits member (held address rfl) low high
      exact kfree_keeps_byte freed outside
  | frames op =>
      obtain ⟨client, -, same⟩ := Option.map_eq_some_iff.mp step
      rw [← same]
      rfl
  | write address value =>
      rw [← Option.some.inj step]
      change store memory.kernel.heap.memory address value place = _
      rw [store, written]
      exact ite_congr (propext eq_comm) (fun _ => rfl) fun _ => rfl

theorem memory_run_keeps_bytes {ops : List MemoryOp} {final : MemoryState}
    (sound : MemorySound base framesNumber pages memory)
    (permitted : Permitted memoryStep Permits memory ops)
    (run : runFrom memoryStep memory ops = some final) (member : region ∈ regions memory)
    (held : ∀ op ∈ ops, ∀ address ∈ givesBack base op, address ≠ region.1) :
    region ∈ regions final ∧ ∀ place, region.1 ≤ place → place < region.1 + region.2 →
      final.kernel.heap.memory place = ops.foldl (written place) (memory.kernel.heap.memory place) := by
  induction ops generalizing memory pages with
  | nil =>
      cases run
      exact ⟨member, fun _ _ _ => rfl⟩
  | cons op ops induction =>
      obtain ⟨next, step, rest⟩ := run_cons run
      obtain ⟨permits, later⟩ := permitted
      obtain ⟨pages', after⟩ := memory_step_sound sound permits step
      have own := held op List.mem_cons_self
      obtain ⟨stays, bytes⟩ := induction after (later next step) rest
        (region_stays sound after step member own)
        (fun other listed => held other (List.mem_cons_of_mem op listed))
      refine ⟨stays, ?_⟩
      intro place low high
      rw [bytes place low high, memory_step_keeps_byte sound permits step member own low high,
        List.foldl_cons]

/-- The slice before the kept one is freed, and a larger one has a new page. -/
def sampleKeepingOps : List MemoryOp :=
  [.write 0xC0208086 7, .write 0xC0208005 9, .kfree 0xC0208005, .kmalloc 100, .kmalloc 200,
    .frames (.frameAlloc 1)]

end Regions

end ChaoOS.MemoryContents
