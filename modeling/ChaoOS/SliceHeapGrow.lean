import ChaoOS.SliceHeapAlloc

/-!
# New pages and new managers

A free allocator has no page, so it gets one from the frame allocator; a level
whose managers are all full gets a new manager. The frames come from outside:
what is asked of them is that they are of the pool and not in use.
-/

namespace ChaoOS.SliceHeapGrow

open ChaoOS.KernelMath ChaoOS.IndexList ChaoOS.PageDirectory ChaoOS.SliceHeapModel
open ChaoOS.SliceLists ChaoOS.SlicePages ChaoOS.SliceHeapInvariant ChaoOS.SliceHeapAlloc

set_option autoImplicit false

section FreshFrames

variable {tidy : Prop} {framesNumber : Nat} {chains : Nat → List Nat}
  {place : Nat → Nat → ListName} {heap : Heap} {live : List (Nat × Nat)} {k : Nat}

theorem page_at_injective {base k other : Nat} (same : pageAt base k = pageAt base other) :
    k = other := by
  unfold pageAt pageSize at same
  omega

/-- No allocator holds a frame that is not in use. -/
theorem fresh_not_held (sound : HeapSound tidy framesNumber chains place heap live)
    (fresh : k ∉ heap.framesInUse) {level m i : Nat} (kept : Kept chains level m)
    (inside : i < endFlag) : targetOf heap m i ≠ .entry k := by
  intro target
  exact fresh (sound.held_at kept inside target).2.1.inUse

theorem fresh_not_manager (sound : HeapSound tidy framesNumber chains place heap live)
    (fresh : k ∉ heap.framesInUse) {level m : Nat} (kept : Kept chains level m) :
    m ≠ pageAt heap.base k := by
  intro same
  rcases sound.home level m kept with ⟨frame, _, used, address⟩
  rw [← page_at_injective (address.symm.trans same)] at fresh
  exact fresh used

/-- No live pointer is in a page that is not in use. -/
theorem fresh_not_live (sound : HeapSound tidy framesNumber chains place heap live)
    (fresh : k ∉ heap.framesInUse) {level : Nat} (bound : level < 8) :
    liveSlices heap.base level k live = ∅ := by
  rw [Finset.eq_empty_iff_forall_notMem]
  intro j member
  rw [liveSlices, Finset.mem_filter, Finset.mem_range, List.mem_map] at member
  rcases member.2 with ⟨⟨ptr, n⟩, listed, address⟩
  rcases sound.listed ptr n listed with
    ⟨level', m, i, frame, j', kept, inside, _, target, slice, there, _⟩
  have here := slice_mem_page heap.base k bound member.1
  have own := slice_mem_page heap.base frame kept.1 slice
  rw [← there] at own
  rw [← address] at here
  rw [page_unique own here] at target
  exact fresh_not_held sound fresh kept inside target

end FreshFrames

/-! ## A page for a free allocator -/

section NewPage

variable {tidy : Prop} {framesNumber : Nat} {chains : Nat → List Nat}
  {place : Nat → Nat → ListName} {heap : Heap} {live : List (Nat × Nat)} {level m i k : Nat}

theorem touches_take (m i k : Nat) : Touches heap (heap.take (some k)) m i k :=
  ⟨rfl, rfl, fun _ _ => rfl, ⟨rfl, rfl⟩, fun _ _ => rfl, fun _ _ => rfl, fun _ => rfl,
    fun _ _ => rfl, fun _ _ used => List.mem_cons_of_mem k used⟩

theorem touches_owner (m i k allocator : Nat) :
    Touches heap (heap.setFrameAllocator (.entry k) allocator) m i k := by
  refine ⟨rfl, rfl, fun _ _ => rfl, ⟨rfl, rfl⟩, fun _ _ => rfl, fun _ _ => rfl, ?_, ?_,
    fun _ _ used => used⟩
  · intro frame
    simp only [Heap.setFrameAllocator]
    split_ifs <;> rfl
  · intro other different
    simp [Heap.setFrameAllocator, different]

/-- `init_linked_page` threads all slices of the page. -/
theorem init_linked_page_spec (heap : Heap) (pool : Pool heap.base framesNumber) (frame : k < framesNumber)
    (linked : level ≤ 4)
    (page : pageAddressOf heap (targetOf heap m i) = pageAt heap.base k) :
    ∃ memory, initLinkedPage heap m i (sliceSizeAt level) = { heap with memory := memory } ∧
      (∀ address, ¬InPage heap.base k address → memory address = heap.memory address) ∧
      ∀ j, j < slicesAt level → memory (headerAt heap.base level k j) =
        if j + 1 = slicesAt level then sliceEnd else j + 1 := by
  have slices : slicesAt level = (pageSize - 4) / (sliceSizeAt level + 1) := by
    rw [slicesAt, if_pos linked, linkedSlices]
  have bounds := slices_bounds (show level < 8 by omega)
  have ends := pool.page_end frame
  have aligned := page_aligned (k := k) pool
  have used : slicesAt level * (sliceSizeAt level + 1) ≤ pageSize - 4 := by
    rw [slices]
    exact Nat.div_mul_le_self _ _
  have unused : pageSize - 4 < slicesAt level * (sliceSizeAt level + 1) + (sliceSizeAt level + 1) := by
    rw [slices]
    exact Nat.lt_div_mul_add (Nat.succ_pos _)
  have width : sliceSizeAt level ≤ 256 := by
    have all : ∀ index, index ≤ 4 → sliceSizeAt index ≤ 256 := by decide
    exact all level linked
  have limit : add32 (pageAt heap.base k) pageSize = pageAt heap.base k + pageSize := add32_of_lt ends
  unfold pageSize at used unused ends aligned
  have start : add32 (pageAt heap.base k) 4 = pageAt heap.base k + 4 := by
    apply add32_of_lt
    omega
  have enough : slicesAt level ≤ pageSize := by
    have small := bounds.2.1
    unfold sliceEnd at small
    unfold pageSize
    omega
  have written : HeadersLinked (pageAt heap.base k + 4) (sliceSizeAt level + 1) (slicesAt level) 0
      (pageAt heap.base k) (storeWord heap.memory (pageAt heap.base k) (allocatorAddress m i))
      (linkHeaders (sliceSizeAt level + 1) (pageAt heap.base k + pageSize) pageSize 0
        (pageAt heap.base k + 4 + 0 * (sliceSizeAt level + 1)) (pageAt heap.base k)
        (storeWord heap.memory (pageAt heap.base k) (allocatorAddress m i))) := by
    apply link_headers_spec (show 0 < sliceSizeAt level + 1 by omega) bounds.2.1 _ _ _ _ _ _ _
      (Nat.zero_le _)
    · rw [Nat.zero_add]
      exact enough
    · rw [Nat.succ_mul]
      unfold wordSize at *
      omega
    · unfold pageSize
      omega
    · rw [Nat.succ_mul]
      unfold pageSize
      omega
  rw [Nat.zero_mul, Nat.add_zero] at written
  generalize headers : linkHeaders (sliceSizeAt level + 1) (pageAt heap.base k + pageSize) pageSize 0
    (pageAt heap.base k + 4) (pageAt heap.base k)
    (storeWord heap.memory (pageAt heap.base k) (allocatorAddress m i)) = result at written
  have last : result.1 = headerAt heap.base level k (slicesAt level - 1) := by
    rw [written.last, if_neg (by omega)]
    rfl
  refine ⟨store result.2 (headerAt heap.base level k (slicesAt level - 1)) sliceEnd, ?_, ?_, ?_⟩
  · unfold initLinkedPage
    dsimp only
    rw [← targetOf, page, limit, start, headers, last]
  · intro address outside
    have inPage : ∀ offset, offset < 4 → InPage heap.base k (pageAt heap.base k + offset) := by
      intro offset small
      unfold InPage pageSize
      omega
    rw [store_outside (header_mem_page _ _ linked (by omega)) outside, written.frame]
    · unfold storeWord
      rw [store_outside (inPage 3 (by decide)) outside, store_outside (inPage 2 (by decide)) outside,
        store_outside (inPage 1 (by decide)) outside]
      exact store_outside (inPage 0 (by decide)) outside
    · intro j _ inside same
      rw [same] at outside
      exact outside (header_mem_page _ _ linked inside)
  · intro j inside
    rw [store]
    by_cases final : j + 1 = slicesAt level
    · rw [if_pos final, if_pos]
      rw [← final, Nat.add_sub_cancel]
    · rw [if_neg final, if_neg]
      · exact written.links j (Nat.zero_le j) inside
      · intro same
        have equal := header_at_injective same
        omega

/-- An allocator with a page none of whose slices is handed out. -/
structure PageAssigned (heap : Heap) (level m i k : Nat) (heap' : Heap) : Prop where
  touches : Touches heap heap' m i k
  threads : ∀ place, Threads (heap.managers m) place → Threads (heap'.managers m) place
  heads : ∀ name, (heap'.managers m).head name = (heap.managers m).head name
  target : targetOf heap' m i = .entry k
  avail : ((heap'.managers m).allocs i).avaiNum = slicesAt level
  owner : (heap'.frames (.entry k)).allocator = allocatorAddress m i
  inUse : k ∈ heap'.framesInUse
  headers : level ≤ 4 → ∀ j, j < slicesAt level → heap'.memory (headerAt heap.base level k j) =
    if j + 1 = slicesAt level then sliceEnd else j + 1

theorem modify_alloc_twice (m i : Nat) (first second : SliceAllocator → SliceAllocator) :
    (heap.modifyAlloc m i first).modifyAlloc m i second =
      heap.modifyAlloc m i fun allocator => second (first allocator) := by
  have managers : ((heap.modifyAlloc m i first).modifyAlloc m i second).managers =
      (heap.modifyAlloc m i fun allocator => second (first allocator)).managers := by
    funext other
    simp only [Heap.modifyAlloc, manager_modify_manager, if_pos]
    split_ifs
    · simp only [Manager.modify]
      congr 1
      funext j
      split_ifs <;> rfl
    · rfl
  exact congrArg (fun managers => { heap with managers := managers }) managers

def withPage (k avail : Nat) (allocator : SliceAllocator) : SliceAllocator :=
  { allocator with targetPage := .entry k, avaiNum := avail }

/-- The heap of `assignPage` before the headers are written. -/
def claimFrame (heap : Heap) (m i k avail : Nat) : Heap :=
  ((heap.take (some k)).setFrameAllocator (.entry k) (allocatorAddress m i)).modifyAlloc m i
    (withPage k avail)

theorem claim_frame_record (m i k avail : Nat) : (claimFrame heap m i k avail).managers m =
    (heap.managers m).modify i (withPage k avail) := by
  rw [claimFrame, Heap.modifyAlloc, manager_modify_manager, if_pos rfl]
  rfl

theorem claim_frame_target (m i k avail : Nat) :
    targetOf (claimFrame heap m i k avail) m i = .entry k := by
  rw [targetOf, claim_frame_record, allocs_modify, if_pos rfl]
  rfl

theorem claim_frame_touches (m i k avail : Nat) : Touches heap (claimFrame heap m i k avail) m i k := by
  apply Touches.trans (touches_take m i k)
  apply Touches.trans (touches_owner m i k (allocatorAddress m i))
  exact touches_alloc k (withPage k avail)

theorem page_claimed {memory : Nat → Nat}
    (outside : ∀ address, ¬InPage heap.base k address → memory address = heap.memory address)
    (headers : level ≤ 4 → ∀ j, j < slicesAt level → memory (headerAt heap.base level k j) =
      if j + 1 = slicesAt level then sliceEnd else j + 1) :
    PageAssigned heap level m i k
      { claimFrame heap m i k (slicesAt level) with memory := memory } := by
  have links : KeepsLinks (withPage k (slicesAt level)) := fun _ => ⟨rfl, rfl⟩
  have record : (claimFrame heap m i k (slicesAt level)).managers m =
      (heap.managers m).modify i (withPage k (slicesAt level)) := claim_frame_record _ _ _ _
  constructor
  · apply (claim_frame_touches m i k (slicesAt level)).trans
    exact touches_memory m i outside
  · intro place threads
    change Threads ((claimFrame heap m i k (slicesAt level)).managers m) place
    rw [record]
    exact threads_modify threads i links
  · intro name
    change ((claimFrame heap m i k (slicesAt level)).managers m).head name = _
    rw [record, head_modify]
  · exact claim_frame_target m i k (slicesAt level)
  · change (((claimFrame heap m i k (slicesAt level)).managers m).allocs i).avaiNum = _
    rw [record, allocs_modify, if_pos rfl]
    rfl
  · simp [claimFrame, Heap.modifyAlloc, Heap.modifyManager, Heap.setManager, Heap.setFrameAllocator]
  · exact List.mem_cons_self
  · exact headers

theorem assign_page_spec (mapped : Mapped framesNumber heap) (bound : level < 8)
    (size : (heap.managers m).sliceSize = sliceSizeAt level) (frame : k < framesNumber) :
    PageAssigned heap level m i k (assignPage heap m i (decide (level ≤ 4)) (some k)) := by
  have small := (slices_bounds bound).2.1
  unfold sliceEnd at small
  by_cases linked : level ≤ 4
  · have slices : linkedSlices (sliceSizeAt level) % 256 = slicesAt level := by
      rw [slicesAt, if_pos linked] at small ⊢
      exact Nat.mod_eq_of_lt (by omega)
    have assigned : assignPage heap m i (decide (level ≤ 4)) (some k) =
        initLinkedPage (claimFrame heap m i k (slicesAt level)) m i (sliceSizeAt level) := by
      rw [decide_eq_true linked, assignPage, if_pos rfl, modify_alloc_twice, size, slices]
      rfl
    have page : pageAddressOf (claimFrame heap m i k (slicesAt level))
        (targetOf (claimFrame heap m i k (slicesAt level)) m i) = pageAt heap.base k := by
      rw [claim_frame_target, pageAddressOf, (claim_frame_touches m i k (slicesAt level)).physical]
      exact mapped.page_address frame
    rcases init_linked_page_spec (claimFrame heap m i k (slicesAt level)) mapped.pool frame linked page
      with ⟨memory, written, outside, headers⟩
    rw [assigned, written]
    exact page_claimed outside fun _ => headers
  · have slices : pageSize / sliceSizeAt level % 256 = slicesAt level := by
      rw [slicesAt, if_neg linked, bitmapSlices] at small ⊢
      exact Nat.mod_eq_of_lt (by omega)
    have assigned : assignPage heap m i (decide (level ≤ 4)) (some k) =
        claimFrame heap m i k (slicesAt level) := by
      rw [decide_eq_false linked, assignPage, size, slices]
      rfl
    rw [assigned]
    exact page_claimed (fun _ _ => rfl) fun low => absurd low linked

/-- The first slice of a page comes without `get_slice_addr`. -/
theorem take_first_linked (mapped : Mapped framesNumber heap) (linked : level ≤ 4)
    (frame : k < framesNumber) {heap' : Heap} (assigned : PageAssigned heap level m i k heap')
    (isFirst : (heap.managers m).free = i) :
    takeFirst heap' m (decide (level ≤ 4)) = (sliceAt heap.base level k 0,
      servedHeap
        { heap' with memory := store heap'.memory (headerAt heap.base level k 0) sliceEnd } m i
        (heap'.memory (headerAt heap.base level k 0))
        fun manager => manager.moveHead .free .pFull) := by
  have ends := mapped.pool.page_end frame
  have free : (heap'.managers m).free = i := (assigned.heads .free).trans isFirst
  have page : pageAddressOf heap' ((heap'.managers m).allocs i).targetPage = pageAt heap.base k := by
    rw [← targetOf, assigned.target, pageAddressOf, assigned.touches.physical]
    exact mapped.page_address frame
  unfold pageSize at ends
  have header : add32 (pageAt heap.base k) 4 = headerAt heap.base level k 0 := by
    rw [add32_of_lt (by omega), headerAt, Nat.zero_mul, Nat.add_zero]
  have address : add32 (headerAt heap.base level k 0) 1 = sliceAt heap.base level k 0 := by
    rw [sliceAt, if_pos linked, headerAt, add32_of_lt (by omega)]
  rw [decide_eq_true linked, takeFirst, if_pos rfl, if_pos rfl, free, page, header, address]
  rfl

theorem take_first_bitmap (mapped : Mapped framesNumber heap) (high : 4 < level)
    (frame : k < framesNumber) {heap' : Heap} (assigned : PageAssigned heap level m i k heap')
    (isFirst : (heap.managers m).free = i) :
    takeFirst heap' m (decide (level ≤ 4)) = (sliceAt heap.base level k 0,
      servedHeap heap' m i 0x80 fun manager => manager.moveHead .free .pFull) := by
  have free : (heap'.managers m).free = i := (assigned.heads .free).trans isFirst
  have page : pageAddressOf heap' ((heap'.managers m).allocs i).targetPage = pageAt heap.base k := by
    rw [← targetOf, assigned.target, pageAddressOf, assigned.touches.physical]
    exact mapped.page_address frame
  have address : pageAt heap.base k = sliceAt heap.base level k 0 := by
    rw [sliceAt, if_neg (by omega), Nat.zero_mul, Nat.add_zero]
  rw [decide_eq_false (by omega), takeFirst, free, page, ← address]
  rfl

/-- The first slice of a new page in linked mode. -/
theorem first_linked_page (linked : level ≤ 4) {heap' : Heap}
    (assigned : PageAssigned heap level m i k heap') :
    PageOk tidy level .pFull
      (fun j => store heap'.memory (headerAt heap.base level k 0) sliceEnd (headerAt heap.base level k j))
      (heap'.memory (headerAt heap.base level k 0)) (slicesAt level - 1) {0} := by
  have bounds := slices_bounds (show level < 8 by omega)
  have whole : LinkedPage tidy (slicesAt level) (fun j => heap'.memory (headerAt heap.base level k j)) 0
      (slicesAt level) ∅ (List.range (slicesAt level)) :=
    linked_page_fresh (by omega) bounds.2.1 (assigned.headers linked)
  have order : List.range (slicesAt level) = 0 :: List.range' 1 (slicesAt level - 1) := by
    have count : slicesAt level = slicesAt level - 1 + 1 := by omega
    rw [List.range_eq_range']
    nth_rewrite 1 [count]
    rfl
  rw [order] at whole
  refine ⟨?_, ?_, Finset.singleton_nonempty 0, ?_⟩
  · intro _
    refine ⟨List.range' 1 (slicesAt level - 1), ?_, ?_⟩
    · exact linked_page_congr whole.take.2 fun j _ => store_header ..
    · intro _ empty
      have length := congrArg List.length empty
      rw [List.length_range', List.length_nil] at length
      omega
  · intro high
    omega
  · intro isFull
    exact absurd isFull (by decide)

/-- The first slice of a new page in bitmap mode. -/
theorem first_bitmap_page (mapped : 4 < level) (bound : level < 8) (header : Nat → Nat) :
    PageOk tidy level .pFull header 0x80 (slicesAt level - 1) {0} := by
  have bounds := slices_bounds bound
  have state := bitmap_page_first bounds.1 (bounds.2.2 mapped)
  refine ⟨?_, ?_, Finset.singleton_nonempty 0, ?_⟩
  · intro low
    omega
  · intro _
    refine ⟨state, ?_⟩
    intro _
    omega
  · intro isFull
    exact absurd isFull (by decide)

theorem take_first_spec (sound : HeapSound tidy framesNumber chains place heap live)
    (kept : Kept chains level m) (frame : k < framesNumber) {heap' : Heap}
    (assigned : PageAssigned heap level m i k heap') (isFirst : (heap.managers m).free = i) :
    ∃ memory first, takeFirst heap' m (decide (level ≤ 4)) = (sliceAt heap.base level k 0,
        servedHeap { heap' with memory := memory } m i first
          fun manager => manager.moveHead .free .pFull) ∧
      (∀ address, ¬InPage heap.base k address → memory address = heap'.memory address) ∧
      PageOk tidy level .pFull (fun j => memory (headerAt heap.base level k j)) first
        (slicesAt level - 1) {0} := by
  have slices := (slices_bounds kept.1).1
  by_cases linked : level ≤ 4
  · exact ⟨_, _, take_first_linked sound.mapped linked frame assigned isFirst,
      fun _ => store_outside (header_mem_page _ _ linked (by omega)),
      first_linked_page linked assigned⟩
  · exact ⟨heap'.memory, 0x80, take_first_bitmap sound.mapped (by omega) frame assigned isFirst,
      fun _ _ => rfl, first_bitmap_page (by omega) kept.1 _⟩

/-- A free allocator with a new frame serves the request. -/
theorem take_free_sound (sound : HeapSound tidy framesNumber chains place heap live)
    (kept : Kept chains level m) (nonempty : (heap.managers m).head .free ≠ endFlag)
    (frame : k < framesNumber) (fresh : k ∉ heap.framesInUse) {n : Nat}
    (fits : n ≤ sliceSizeAt level) (answers : List (Option Nat)) :
    ∃ result place', takeFree heap m (decide (level ≤ 4)) (some k :: answers) = some result ∧
      HeapSound tidy framesNumber chains place' result.2 ((result.1, n) :: live) := by
  have threads := sound.threads level m kept
  rcases threads.head_mem nonempty with ⟨inside, placed⟩
  generalize index : (heap.managers m).head .free = i at inside placed
  have bare := sound.bare level m i kept inside placed
  have assigned : PageAssigned heap level m i k
      (assignPage heap m i (decide (level ≤ 4)) (some k)) :=
    assign_page_spec sound.mapped kept.1 (sound.size level m kept) frame
  have served : takeFree heap m (decide (level ≤ 4)) (some k :: answers) =
      some (takeFirst (assignPage heap m i (decide (level ≤ 4)) (some k)) m (decide (level ≤ 4))) := by
    have free : (heap.managers m).free = i := index
    rw [takeFree, free, ← targetOf, if_pos bare]
  generalize assignPage heap m i (decide (level ≤ 4)) (some k) = heap' at assigned served
  rcases take_first_spec sound kept frame assigned index with ⟨memory, first, result, outside, page⟩
  have avail := assigned.avail
  have bounds := slices_bounds kept.1
  unfold sliceEnd at bounds
  have none_live := fresh_not_live sound fresh kept.1
  rw [served, result]
  refine ⟨_, Function.update place m (Function.update (place m) i .pFull), rfl, ?_⟩
  have touches : Touches heap { heap' with memory := memory } m i k := by
    apply assigned.touches.trans (touches_memory m i _)
    rw [assigned.touches.base]
    exact outside
  apply serve_sound sound kept inside touches (Or.inl bare)
    (fun _ _ _ kept' bound target => absurd target (fresh_not_held sound fresh kept' bound))
    (fun _ _ kept' => fresh_not_manager sound fresh kept') (move_head_moves .free .pFull) _
    (by decide) frame assigned.inUse assigned.target
    (assigned.owner.trans (sound.allocator_address kept inside)) (by omega) _ _ _ _ fits
  · have apartLists : ListName.free ≠ ListName.pFull := by decide
    have ready := threads_modify (assigned.threads _ threads) i (keeps_links_with_first first)
    have moved := ready.move_head apartLists
      (by rw [head_modify, assigned.heads]; exact nonempty)
    rw [head_modify, assigned.heads, index] at moved
    exact moved
  · rw [none_live]
    exact Finset.notMem_empty 0
  · change 0 < ((heap'.managers m).allocs i).avaiNum
    omega
  · change ((heap'.managers m).allocs i).avaiNum < 256
    omega
  · change PageOk tidy level .pFull _ first (((heap'.managers m).allocs i).avaiNum - 1) _
    rw [avail, none_live]
    exact page

end NewPage

/-! ## A new manager -/

/-- `init_allocator_manager` links all allocators into the free list. -/
theorem new_manager_threads (sliceSize next : Nat) :
    Threads (newManager sliceSize next) fun _ => .free := by
  have forward : ∀ count start, start + count = endFlag →
      Follows (newManager sliceSize next).nextOf endFlag start (List.range' start count) := by
    intro count
    induction count with
    | zero =>
        intro start total
        exact total
    | succ count induction =>
        intro start total
        refine ⟨rfl, by omega, ?_⟩
        have link : (newManager sliceSize next).nextOf start = start + 1 := by
          simp only [Manager.nextOf, newManager, initialAllocator]
          split_ifs with final
          · unfold endFlag at *
            omega
          · rfl
        rw [link]
        exact induction (start + 1) (by omega)
  have backward : ∀ count start, BackLinked (newManager sliceSize next).prevOf
      (if start = 0 then endFlag else start - 1) (List.range' start count) := by
    intro count
    induction count with
    | zero =>
        intro start
        trivial
    | succ count induction =>
        intro start
        exact ⟨rfl, induction (start + 1)⟩
  constructor
  intro name
  cases name with
  | free =>
      refine ⟨List.range endFlag, ⟨?_, List.nodup_range, ?_⟩, ?_⟩
      · rw [List.range_eq_range']
        exact forward endFlag 0 (Nat.zero_add _)
      · rw [List.range_eq_range']
        exact backward endFlag 0
      · intro index
        simp
  | pFull =>
      refine ⟨[], ⟨rfl, List.nodup_nil, trivial⟩, ?_⟩
      intro index
      simp
  | full =>
      refine ⟨[], ⟨rfl, List.nodup_nil, trivial⟩, ?_⟩
      intro index
      simp

section NewManager

variable {tidy : Prop} {framesNumber : Nat} {chains : Nat → List Nat}
  {place : Nat → Nat → ListName} {heap : Heap} {live : List (Nat × Nat)} {level k : Nat}

theorem kept_cons {address other m : Nat} (bound : level < 8) :
    Kept (Function.update chains level (address :: chains level)) other m ↔
      (other = level ∧ m = address) ∨ Kept chains other m := by
  unfold Kept
  by_cases here : other = level
  · rw [here, Function.update_self, List.mem_cons]
    constructor
    · intro both
      rcases both.2 with same | later
      · exact Or.inl ⟨rfl, same⟩
      · exact Or.inr ⟨bound, later⟩
    · intro either
      rcases either with same | later
      · exact ⟨bound, Or.inl same.2⟩
      · exact ⟨bound, Or.inr later.2⟩
  · rw [Function.update_of_ne here]
    simp [here]

/-- The heap `heap'` has a new manager of `level` in frame `k`. -/
structure ManagerAdded (heap : Heap) (level k : Nat) (heap' : Heap) : Prop where
  base : heap'.base = heap.base
  frames : heap'.frames = heap.frames
  memory : heap'.memory = heap.memory
  inUse : heap'.framesInUse = k :: heap.framesInUse
  allocMs : heap'.allocMs = Function.update heap.allocMs level (pageAt heap.base k)
  manager : heap'.managers (pageAt heap.base k) =
    newManager (sliceSizeAt level) (heap.allocMs level)
  others : ∀ m, m ≠ pageAt heap.base k → heap'.managers m = heap.managers m

theorem add_manager_added (level : Nat) (mapped : Mapped framesNumber heap)
    (frame : k < framesNumber) :
    (addManager heap level (heap.allocMs level) (some k)).1 = pageAt heap.base k ∧
      ManagerAdded heap level k (addManager heap level (heap.allocMs level) (some k)).2 := by
  have address : add32 (answerAddress heap (some k)) pageOffset = pageAt heap.base k :=
    mapped.page_address frame
  unfold addManager
  rw [address]
  refine ⟨rfl, rfl, rfl, rfl, rfl, ?_, if_pos rfl, fun _ different => if_neg different⟩
  funext other
  rw [Function.update_apply]
  rfl

theorem ManagerAdded.mapped {heap' : Heap} (added : ManagerAdded heap level k heap')
    (mapped : Mapped framesNumber heap) : Mapped framesNumber heap' := by
  constructor
  · rw [added.base]
    exact mapped.pool
  · rw [added.base, added.frames]
    exact mapped.physical

theorem ManagerAdded.held {heap' : Heap} (added : ManagerAdded heap level k heap')
    {other m i frame : Nat} {name : ListName} (different : m ≠ pageAt heap.base k)
    (page : HeldPage tidy framesNumber heap live other m i name frame) :
    HeldPage tidy framesNumber heap' live other m i name frame := by
  refine ⟨page.inside, ?_, ?_, ?_, ?_⟩
  · rw [added.inUse]
    exact List.mem_cons_of_mem k page.inUse
  · rw [targetOf, added.others m different]
    exact page.target
  · rw [added.frames]
    exact page.owner
  · rw [added.base, added.memory, added.others m different]
    exact page.page

/-- A manager in a new page becomes the first of its level. -/
theorem ManagerAdded.sound {heap' : Heap} (added : ManagerAdded heap level k heap')
    (sound : HeapSound tidy framesNumber chains place heap live)
    (bound : level < 8) (frame : k < framesNumber) (fresh : k ∉ heap.framesInUse) :
    HeapSound tidy framesNumber (Function.update chains level (pageAt heap.base k :: chains level))
      (Function.update place (pageAt heap.base k) fun _ => .free) heap' live := by
  have elsewhere : ∀ {other m}, Kept chains other m → m ≠ pageAt heap.base k :=
    fun kept => fresh_not_manager sound fresh kept
  have newPlace : Function.update place (pageAt heap.base k) (fun _ => .free) (pageAt heap.base k) =
      fun _ => .free := Function.update_self ..
  have oldPlace : ∀ {m}, m ≠ pageAt heap.base k →
      Function.update place (pageAt heap.base k) (fun _ => .free) m = place m :=
    fun different => Function.update_of_ne different ..
  have oldChain : ∀ other, other < 8 → Follows (fun m => (heap'.managers m).next) 0
      (heap.allocMs other) (chains other) := by
    intro other otherBound
    apply follows_congr (sound.chain other otherBound)
    intro m listed
    rw [added.others m (elsewhere ⟨otherBound, listed⟩)]
  constructor
  · exact (added.mapped sound.mapped).pool
  · exact (added.mapped sound.mapped).physical
  · intro other otherBound
    rw [added.allocMs]
    by_cases own : other = level
    · rw [own, Function.update_self, Function.update_self]
      refine ⟨rfl, ?_, ?_⟩
      · exact page_at_ne_zero heap.base k
      · have next : (fun m => (heap'.managers m).next) (pageAt heap.base k) = heap.allocMs level :=
          congrArg Manager.next added.manager
        rw [next]
        exact oldChain level bound
    · rw [Function.update_of_ne own, Function.update_of_ne own]
      exact oldChain other otherBound
  · intro other m kept
    rw [added.base, added.inUse]
    rcases (kept_cons bound).mp kept with own | old
    · exact ⟨k, frame, List.mem_cons_self, own.2⟩
    · rcases sound.home other m old with ⟨home, inside, used, there⟩
      exact ⟨home, inside, List.mem_cons_of_mem k used, there⟩
  · intro other m kept
    rcases (kept_cons bound).mp kept with own | old
    · rw [own.1, own.2, added.manager]
      rfl
    · rw [added.others m (elsewhere old)]
      exact sound.size other m old
  · intro other m kept
    rcases (kept_cons bound).mp kept with own | old
    · rw [own.2, added.manager, newPlace]
      exact new_manager_threads _ _
    · rw [added.others m (elsewhere old), oldPlace (elsewhere old)]
      exact sound.threads other m old
  · intro other m i kept inside
    rcases (kept_cons bound).mp kept with own | old
    · rw [own.2, targetOf, added.manager]
      exact fun _ => rfl
    · rw [oldPlace (elsewhere old), targetOf, added.others m (elsewhere old)]
      exact sound.bare other m i old inside
  · intro other m i kept inside
    rcases (kept_cons bound).mp kept with own | old
    · rw [own.2, newPlace]
      exact fun notFree => absurd rfl notFree
    · rw [oldPlace (elsewhere old), added.base]
      intro notFree
      rcases sound.held other m i old inside notFree with ⟨home, page, apart⟩
      refine ⟨home, added.held (elsewhere old) page, ?_⟩
      intro level' m' kept'
      rcases (kept_cons bound).mp kept' with own' | old'
      · rw [own'.2]
        intro same
        rw [page_at_injective same] at fresh
        exact fresh page.inUse
      · exact apart level' m' old'
  · intro ptr n member
    rcases sound.listed ptr n member with
      ⟨other, m, i, home, j, kept, inside, notFree, target, slice, there, fits⟩
    refine ⟨other, m, i, home, j, (kept_cons bound).mpr (Or.inr kept), inside, ?_, ?_, slice, ?_, fits⟩
    · rw [oldPlace (elsewhere kept)]
      exact notFree
    · rw [targetOf, added.others m (elsewhere kept)]
      exact target
    · rw [added.base]
      exact there
  · exact sound.nodup

end NewManager

end ChaoOS.SliceHeapGrow
