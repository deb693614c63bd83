import ChaoOS.SliceHeapInvariant

/-!
# Slices of partially used pages

One slice of one page becomes live and the allocator may change its list.
`take_slice_sound` is what every request ends in; here it is applied to the
first allocator of the `p_full` list, whose slice `get_slice_addr` chooses.
-/

namespace ChaoOS.SliceHeapAlloc

open ChaoOS.KernelMath ChaoOS.IndexList ChaoOS.PageDirectory ChaoOS.SliceHeapModel
open ChaoOS.SliceLists ChaoOS.SlicePages ChaoOS.SliceHeapInvariant
open ChaoOS.SliceHeapModel.Manager (nextOf prevOf)

set_option autoImplicit false

/-! ## One more live slice -/

section Taking

variable {tidy : Prop} {framesNumber : Nat} {chains : Nat → List Nat}
  {place : Nat → Nat → ListName} {heap heap' : Heap} {live : List (Nat × Nat)}
  {level m i k j n : Nat} {name : ListName}

theorem live_slices_cons {base : Nat} (bound : level < 8) (inside : j < slicesAt level) :
    liveSlices base level k ((sliceAt base level k j, n) :: live) =
      insert j (liveSlices base level k live) := by
  ext other
  simp only [liveSlices, Finset.mem_filter, Finset.mem_range, Finset.mem_insert, List.map_cons,
    List.mem_cons]
  constructor
  · intro member
    rcases member.2 with same | later
    · exact Or.inl (slice_at_injective bound same)
    · exact Or.inr ⟨member.1, later⟩
  · intro member
    rcases member with same | later
    · rw [same]
      exact ⟨inside, Or.inl rfl⟩
    · exact ⟨later.1, Or.inr later.2⟩

/-- A live pointer into a page is a slice of the allocator that holds the page. -/
theorem live_in_page (sound : HeapSound tidy framesNumber chains place heap live)
    (kept : Kept chains level m)
    (mine : ∀ level' m' i', Kept chains level' m' → i' < endFlag →
      targetOf heap m' i' = .entry k → m' = m ∧ i' = i)
    {ptr : Nat} (member : (ptr, n) ∈ live) (here : InPage heap.base k ptr) :
    ∃ j, j < slicesAt level ∧ ptr = sliceAt heap.base level k j ∧ n ≤ sliceSizeAt level := by
  rcases sound.listed ptr n member with
    ⟨level', m', i', k', j, kept', inside, _, target, slice, address, fits⟩
  have sameFrame : k' = k := by
    rw [address] at here
    exact page_unique (slice_mem_page _ _ kept'.1 slice) here
  rw [sameFrame] at target address
  rcases mine level' m' i' kept' inside target with ⟨sameManager, _⟩
  rw [sameManager] at kept'
  rw [sound.level_unique kept kept'] at slice address fits
  exact ⟨j, slice, address, fits⟩

/-- Handing out slice `j` of the page in frame `k`. -/
theorem take_slice_sound (sound : HeapSound tidy framesNumber chains place heap live)
    (kept : Kept chains level m) (inside : i < endFlag) (touches : Touches heap heap' m i k)
    (before : targetOf heap m i = .null ∨ targetOf heap m i = .entry k)
    (mine : ∀ level' m' i', Kept chains level' m' → i' < endFlag →
      targetOf heap m' i' = .entry k → m' = m ∧ i' = i)
    (apart : ∀ level' m', Kept chains level' m' → m' ≠ pageAt heap.base k)
    (threads : Threads (heap'.managers m) (Function.update (place m) i name))
    (notFree : name ≠ .free) (frame : k < framesNumber) (used : k ∈ heap'.framesInUse)
    (target : targetOf heap' m i = .entry k)
    (owner : (heap'.frames (.entry k)).allocator = m + (12 + 10 * i))
    (slice : j < slicesAt level) (fresh : j ∉ liveSlices heap.base level k live)
    (page : PageOk tidy level name (fun j => heap'.memory (headerAt heap.base level k j))
      ((heap'.managers m).allocs i).firstAvai ((heap'.managers m).allocs i).avaiNum
      (insert j (liveSlices heap.base level k live)))
    (fits : n ≤ sliceSizeAt level) :
    HeapSound tidy framesNumber chains (Function.update place m (Function.update (place m) i name))
      heap' ((sliceAt heap.base level k j, n) :: live) := by
  have here : InPage heap.base k (sliceAt heap.base level k j) := slice_mem_page _ _ kept.1 slice
  apply sound.update_page kept inside touches _ before mine apart threads
  · intro isFree
    exact absurd isFree notFree
  · intro _
    refine ⟨frame, used, target, owner, ?_⟩
    rw [touches.base, live_slices_cons kept.1 slice]
    exact page
  · intro ptr size member there
    refine ⟨notFree, ?_⟩
    rcases List.mem_cons.mp member with same | later
    · rcases Prod.mk.inj same with ⟨samePtr, sameSize⟩
      rw [samePtr, sameSize]
      exact ⟨j, slice, rfl, fits⟩
    · exact live_in_page sound kept mine later there
  · intro ptr size member elsewhere
    rcases List.mem_cons.mp member with same | later
    · rw [(Prod.mk.inj same).1] at elsewhere
      exact absurd here elsewhere
    · exact later
  · rw [List.map_cons, List.nodup_cons]
    refine ⟨?_, sound.nodup⟩
    intro listed
    apply fresh
    rw [liveSlices, Finset.mem_filter, Finset.mem_range]
    exact ⟨slice, listed⟩
  · intro ptr elsewhere
    rw [List.map_cons, List.mem_cons]
    constructor
    · intro either
      rcases either with same | later
      · rw [same] at elsewhere
        exact absurd here elsewhere
      · exact later
    · exact Or.inr

def KeepsLinks (change : SliceAllocator → SliceAllocator) : Prop :=
  ∀ allocator, (change allocator).nextAllocator = allocator.nextAllocator ∧
    (change allocator).prevAllocator = allocator.prevAllocator

theorem keeps_links_count_down : KeepsLinks countDown := fun _ => ⟨rfl, rfl⟩

/-- Changing an allocator without its links keeps the lists. -/
theorem threads_modify {manager : Manager} {place : Nat → ListName} (threads : Threads manager place)
    (index : Nat) {change : SliceAllocator → SliceAllocator} (links : KeepsLinks change) :
    Threads (manager.modify index change) place := by
  apply threads.congr
  · intro other
    simp only [nextOf, allocs_modify]
    split_ifs
    · exact (links _).1
    · rfl
  · intro other
    simp only [prevOf, allocs_modify]
    split_ifs
    · exact (links _).2
    · rfl
  · intro name
    exact head_modify manager index name change

def withFirst (first : Nat) (allocator : SliceAllocator) : SliceAllocator :=
  { allocator with firstAvai := first }

theorem keeps_links_with_first (first : Nat) : KeepsLinks (withFirst first) := fun _ => ⟨rfl, rfl⟩

/-- The allocator of a served request: its chain or map is updated, it may
change its list, and one slice less is available. -/
theorem served_content (manager : Manager) (index first : Nat) {move : Manager → Manager}
    (moved : ∀ manager, contentOf (move manager) index = contentOf manager index)
    (positive : 0 < (manager.allocs index).avaiNum) (byte : (manager.allocs index).avaiNum < 256) :
    contentOf ((move (manager.modify index (withFirst first))).modify index countDown) index =
      (first, (manager.allocs index).avaiNum - 1, (manager.allocs index).targetPage) := by
  have parts := Prod.mk.inj (moved (manager.modify index (withFirst first)))
  have rest := Prod.mk.inj parts.2
  rw [allocs_modify, if_pos rfl] at parts rest
  have lower : ((manager.allocs index).avaiNum + 255) % 256 = (manager.allocs index).avaiNum - 1 := by
    omega
  rw [contentOf, allocs_modify, if_pos rfl, countDown, parts.1, rest.1, rest.2, withFirst]
  exact congrArg (fun count => (first, count, (manager.allocs index).targetPage)) lower

/-- The heap of a served request, from the one in which the page is ready. -/
def servedHeap (heap : Heap) (m i first : Nat) (move : Manager → Manager) : Heap :=
  ((heap.modifyAlloc m i (withFirst first)).modifyManager m move).modifyAlloc m i countDown

theorem served_record (heap : Heap) (m i first : Nat) (move : Manager → Manager) :
    (servedHeap heap m i first move).managers m =
      (move ((heap.managers m).modify i (withFirst first))).modify i countDown := by
  rw [servedHeap, Heap.modifyAlloc, manager_modify_manager, if_pos rfl, manager_modify_manager,
    if_pos rfl, Heap.modifyAlloc, manager_modify_manager, if_pos rfl]

/-- A move of the allocator between the lists. -/
structure ListMove (move : Manager → Manager) : Prop where
  content : ∀ manager index, contentOf (move manager) index = contentOf manager index
  record : ∀ manager, (move manager).sliceSize = manager.sliceSize ∧ (move manager).next = manager.next

theorem move_head_moves (source target : ListName) :
    ListMove fun manager => manager.moveHead source target :=
  ⟨fun manager index => move_head_content manager index, fun manager => move_head_record manager⟩

theorem served_touches (heap : Heap) (m i k first : Nat) {move : Manager → Manager}
    (moves : ListMove move) : Touches heap (servedHeap heap m i first move) m i k := by
  apply Touches.trans (touches_alloc k (withFirst first))
  apply Touches.trans (touches_manager k (moves.record _) _) (touches_alloc k countDown)
  intro other _
  exact moves.content _ other

theorem serve_sound (sound : HeapSound tidy framesNumber chains place heap live)
    (kept : Kept chains level m) (inside : i < endFlag) (touches : Touches heap heap' m i k)
    (before : targetOf heap m i = .null ∨ targetOf heap m i = .entry k)
    (mine : ∀ level' m' i', Kept chains level' m' → i' < endFlag →
      targetOf heap m' i' = .entry k → m' = m ∧ i' = i)
    (apart : ∀ level' m', Kept chains level' m' → m' ≠ pageAt heap.base k)
    {move : Manager → Manager} (moves : ListMove move) {first : Nat}
    (threads : Threads (move ((heap'.managers m).modify i (withFirst first)))
      (Function.update (place m) i name))
    (notFree : name ≠ .free) (frame : k < framesNumber) (used : k ∈ heap'.framesInUse)
    (target : targetOf heap' m i = .entry k)
    (owner : (heap'.frames (.entry k)).allocator = m + (12 + 10 * i))
    (slice : j < slicesAt level) (fresh : j ∉ liveSlices heap.base level k live)
    (positive : 0 < ((heap'.managers m).allocs i).avaiNum)
    (byte : ((heap'.managers m).allocs i).avaiNum < 256)
    (page : PageOk tidy level name (fun j => heap'.memory (headerAt heap.base level k j)) first
      (((heap'.managers m).allocs i).avaiNum - 1) (insert j (liveSlices heap.base level k live)))
    (fits : n ≤ sliceSizeAt level) :
    HeapSound tidy framesNumber chains (Function.update place m (Function.update (place m) i name))
      (servedHeap heap' m i first move) ((sliceAt heap.base level k j, n) :: live) := by
  have content := served_content (heap'.managers m) i first
    (fun manager => moves.content manager i) positive byte
  rw [← targetOf, target, ← served_record] at content
  have parts := Prod.mk.inj content
  have rest := Prod.mk.inj parts.2
  apply take_slice_sound sound kept inside (touches.trans (served_touches heap' m i k first moves))
    before mine apart _ notFree frame used rest.2 owner slice fresh _ fits
  · rw [served_record]
    exact threads_modify threads i keeps_links_count_down
  · rw [parts.1, rest.1]
    exact page

end Taking

/-! ## A slice of a partially used page -/

section Partial

variable {tidy : Prop} {framesNumber : Nat} {chains : Nat → List Nat}
  {place : Nat → Nat → ListName} {heap : Heap} {live : List (Nat × Nat)}
  {level m i k : Nat}

/-- What `get_slice_addr` does to a page on the `p_full` list. -/
structure SliceTaken (tidy : Prop) (heap : Heap) (live : List (Nat × Nat)) (level m i k j : Nat)
    (filled : Bool) (memory : Nat → Nat) (first : Nat) : Prop where
  result : getSliceAddr heap m i (heap.managers m).sliceSize (decide (level ≤ 4)) =
    (sliceAt heap.base level k j, filled,
      { heap with memory := memory }.modifyAlloc m i (withFirst first))
  slice : j < slicesAt level
  fresh : j ∉ liveSlices heap.base level k live
  outside : ∀ address, ¬InPage heap.base k address → memory address = heap.memory address
  page : PageOk tidy level (if filled then .full else .pFull)
    (fun j => memory (headerAt heap.base level k j)) first
    (((heap.managers m).allocs i).avaiNum - 1) (insert j (liveSlices heap.base level k live))
  positive : 0 < ((heap.managers m).allocs i).avaiNum
  byte : ((heap.managers m).allocs i).avaiNum < 256

/-- A slice from the head of the chain. -/
theorem get_slice_header (mapped : Mapped framesNumber heap) (linked : level ≤ 4)
    (size : (heap.managers m).sliceSize = sliceSizeAt level) (frame : k < framesNumber)
    (target : targetOf heap m i = .entry k) {j : Nat} (slice : j < slicesAt level)
    (first : ((heap.managers m).allocs i).firstAvai = j) :
    getSliceAddr heap m i (heap.managers m).sliceSize (decide (level ≤ 4)) =
      (sliceAt heap.base level k j, decide (heap.memory (headerAt heap.base level k j) = sliceEnd),
        { heap with memory := store heap.memory (headerAt heap.base level k j) sliceEnd }.modifyAlloc
          m i (withFirst (heap.memory (headerAt heap.base level k j)))) := by
  have headerHere := header_mem_page heap.base k linked slice
  have ends := mapped.pool.page_end frame
  have page : pageAddressOf heap ((heap.managers m).allocs i).targetPage = pageAt heap.base k := by
    rw [← targetOf, target]
    exact mapped.page_address frame
  have header : add32 (pageAt heap.base k) (4 + ((heap.managers m).allocs i).firstAvai *
      ((heap.managers m).sliceSize + 1)) = headerAt heap.base level k j := by
    unfold InPage at headerHere
    rw [first, size, add32_of_lt, headerAt, Nat.add_assoc]
    unfold headerAt at headerHere
    omega
  have address : add32 (headerAt heap.base level k j) 1 = sliceAt heap.base level k j := by
    unfold InPage at headerHere
    rw [sliceAt, if_pos linked, add32_of_lt]
    have bound : level < 8 := by omega
    have range := slice_in_page heap.base k bound slice
    have positive := slice_size_pos bound
    unfold sliceAt at range
    rw [if_pos linked] at range
    omega
  unfold getSliceAddr
  dsimp only
  rw [decide_eq_true linked, if_pos rfl, page, header, address]
  rfl

/-- The slice of the first clear bit. -/
theorem get_slice_bit (mapped : Mapped framesNumber heap) (bound : level < 8) (high : 4 < level)
    (size : (heap.managers m).sliceSize = sliceSizeAt level) (frame : k < framesNumber)
    (target : targetOf heap m i = .entry k) {j : Nat} (slice : j < slicesAt level)
    (zeroBit : firstZeroBit ((heap.managers m).allocs i).firstAvai (slicesAt level)
      (slicesAt level) 0 = j) :
    getSliceAddr heap m i (heap.managers m).sliceSize (decide (level ≤ 4)) =
      (sliceAt heap.base level k j,
        decide ((((heap.managers m).allocs i).firstAvai ||| (1 <<< (7 - j))) >>>
          (8 - slicesAt level) = 0xFF >>> (8 - slicesAt level)),
        heap.modifyAlloc m i
          (withFirst (((heap.managers m).allocs i).firstAvai ||| (1 <<< (7 - j))))) := by
  have page : pageAddressOf heap ((heap.managers m).allocs i).targetPage = pageAt heap.base k := by
    rw [← targetOf, target]
    exact mapped.page_address frame
  have slices : bitmapSlices (heap.managers m).sliceSize = slicesAt level := by
    rw [size, slicesAt, if_neg (by omega)]
  have address : add32 (pageAt heap.base k) (j * (heap.managers m).sliceSize) =
      sliceAt heap.base level k j := by
    have range := slice_in_page heap.base k bound slice
    have ends := mapped.pool.page_end frame
    have wide := slice_size_pos bound
    unfold sliceAt at range ⊢
    rw [if_neg (by omega)] at range ⊢
    rw [size, add32_of_lt (by omega)]
  unfold getSliceAddr
  dsimp only
  rw [decide_eq_false (by omega), slices, zeroBit, page, address]
  rfl

theorem get_slice_linked (sound : HeapSound tidy framesNumber chains place heap live)
    (kept : Kept chains level m) (linked : level ≤ 4)
    (held : HeldPage tidy framesNumber heap live level m i .pFull k) :
    ∃ j filled memory first, SliceTaken tidy heap live level m i k j filled memory first := by
  rcases held.page.linked linked with ⟨chain, state, nonempty⟩
  cases chain with
  | nil => exact absurd rfl (nonempty rfl)
  | cons j rest =>
      rcases state.take with ⟨first, taken⟩
      have own := state.idle j List.mem_cons_self
      have small := (slices_bounds kept.1).2.1
      have headerHere := header_mem_page heap.base k linked own.1
      have emptied : rest = [] ↔ heap.memory (headerAt heap.base level k j) = sliceEnd :=
        follows_nil_iff taken.follows
      have counted := card_insert_live own.2 state.bound own.1 state.count
      have total := state.count
      unfold sliceEnd at small
      refine ⟨j, decide (heap.memory (headerAt heap.base level k j) = sliceEnd),
        store heap.memory (headerAt heap.base level k j) sliceEnd,
        heap.memory (headerAt heap.base level k j),
        get_slice_header sound.mapped linked (sound.size level m kept) held.inside held.target own.1
          first, own.1, own.2, fun _ => store_outside headerHere, ?_, counted.1, by omega⟩
      refine ⟨?_, ?_, Finset.insert_nonempty _ _, ?_⟩
      · intro _
        refine ⟨rest, linked_page_congr taken (fun other _ => store_header ..), ?_⟩
        intro stays ended
        rw [decide_eq_true (emptied.mp ended), if_pos rfl] at stays
        exact absurd stays (by decide)
      · intro high
        omega
      · intro isFull exact_chain
        have ended : rest = [] := by
          rw [emptied]
          by_contra more
          rw [decide_eq_false more] at isFull
          exact absurd isFull (by decide)
        rcases exact_chain with exact_chain | high
        · have everywhere : Finset.range (slicesAt level) ⊆
              insert j (liveSlices heap.base level k live) := by
            intro other member
            by_contra idle
            have listed := taken.whole exact_chain other (Finset.mem_range.mp member) idle
            rw [ended] at listed
            exact absurd listed List.not_mem_nil
          have size := Finset.card_le_card everywhere
          rw [Finset.card_range] at size
          have total := taken.count
          omega
        · omega

theorem get_slice_bitmap (sound : HeapSound tidy framesNumber chains place heap live)
    (kept : Kept chains level m) (mapped : 4 < level)
    (held : HeldPage tidy framesNumber heap live level m i .pFull k) :
    ∃ j filled memory first, SliceTaken tidy heap live level m i k j filled memory first := by
  rcases held.page.bitmap mapped with ⟨state, available⟩
  have positive := available rfl
  have few := (slices_bounds kept.1).2.2 mapped
  -- some slice is not live, so the loop finds a clear bit
  have clear : ∃ j, j < slicesAt level ∧
      ((heap.managers m).allocs i).firstAvai.testBit (7 - j) = false := by
    by_contra none_clear
    have everywhere : Finset.range (slicesAt level) ⊆ liveSlices heap.base level k live := by
      intro j member
      have inside := Finset.mem_range.mp member
      rw [← state.bits j (by omega)]
      by_contra unset
      exact none_clear ⟨j, inside, Bool.eq_false_iff.mpr unset⟩
    have size := Finset.card_le_card everywhere
    rw [Finset.card_range] at size
    have total := state.count
    omega
  rcases clear with ⟨some_clear, someInside, someBit⟩
  have found := first_zero_bit_spec ((heap.managers m).allocs i).firstAvai (slicesAt level)
    (slicesAt level) 0 (by omega) (Nat.zero_le _) (Nat.zero_le _) someInside someBit
  generalize zeroBit : firstZeroBit ((heap.managers m).allocs i).firstAvai (slicesAt level)
    (slicesAt level) 0 = j at found
  rcases state.take few found.1 found.2 with ⟨fresh, taken⟩
  have counted := card_insert_live fresh state.bound found.1 state.count
  have filledIff := full_test_iff taken few
  have total := state.count
  refine ⟨j, decide ((((heap.managers m).allocs i).firstAvai ||| (1 <<< (7 - j))) >>>
      (8 - slicesAt level) = 0xFF >>> (8 - slicesAt level)), heap.memory,
    ((heap.managers m).allocs i).firstAvai ||| (1 <<< (7 - j)),
    get_slice_bit sound.mapped kept.1 mapped (sound.size level m kept) held.inside held.target found.1
      zeroBit, found.1, fresh, fun _ _ => rfl, ?_, positive, by omega⟩
  refine ⟨?_, ?_, Finset.insert_nonempty _ _, ?_⟩
  · intro low
    omega
  · intro _
    refine ⟨taken, ?_⟩
    intro stays
    by_contra ended
    rw [decide_eq_true (filledIff.mpr (by omega)), if_pos rfl] at stays
    exact absurd stays (by decide)
  · intro isFull _
    apply filledIff.mp
    by_contra more
    rw [decide_eq_false more] at isFull
    exact absurd isFull (by decide)

/-- The move after `get_slice_addr`: a page that is now full changes its list. -/
def refile (filled : Bool) (manager : Manager) : Manager :=
  if filled then manager.moveHead .pFull .full else manager

theorem refile_threads {manager : Manager} {place : Nat → ListName} (threads : Threads manager place)
    (nonempty : manager.head .pFull ≠ endFlag) (filled : Bool) :
    Threads (refile filled manager)
      (Function.update place (manager.head .pFull) (if filled then .full else .pFull)) := by
  cases filled with
  | true =>
      have apart : ListName.pFull ≠ ListName.full := by decide
      exact threads.move_head apart nonempty
  | false =>
      have same : Function.update place (manager.head .pFull) .pFull = place := by
        rw [Function.update_eq_self_iff]
        exact (threads.head_mem nonempty).2.symm
      rw [if_neg (by decide), same]
      exact threads

theorem refile_moves (filled : Bool) : ListMove (refile filled) := by
  cases filled with
  | true => exact move_head_moves .pFull .full
  | false => exact ⟨fun _ _ => rfl, fun _ => ⟨rfl, rfl⟩⟩

theorem modify_refile (heap : Heap) (m : Nat) (filled : Bool) :
    (if filled then heap.modifyManager m fun manager => manager.moveHead .pFull .full else heap) =
      heap.modifyManager m (refile filled) := by
  cases filled with
  | true => rfl
  | false => exact (modify_manager_id heap m).symm

/-- The rest of a request is the same in both modes. -/
theorem take_partial_served {linked filled : Bool} {address first : Nat} {memory : Nat → Nat}
    (index : (heap.managers m).pFull = i)
    (result : getSliceAddr heap m i (heap.managers m).sliceSize linked =
      (address, filled, { heap with memory := memory }.modifyAlloc m i (withFirst first))) :
    takePartial heap m linked =
      (address, servedHeap { heap with memory := memory } m i first (refile filled)) := by
  unfold takePartial
  dsimp only
  rw [index, result, modify_refile]
  rfl

theorem take_partial_sound (sound : HeapSound tidy framesNumber chains place heap live)
    (kept : Kept chains level m) (nonempty : (heap.managers m).head .pFull ≠ endFlag) {n : Nat}
    (fits : n ≤ sliceSizeAt level) :
    ∃ place', HeapSound tidy framesNumber chains place'
      (takePartial heap m (decide (level ≤ 4))).2
      (((takePartial heap m (decide (level ≤ 4))).1, n) :: live) := by
  have threads := sound.threads level m kept
  rcases threads.head_mem nonempty with ⟨inside, placed⟩
  rcases sound.held level m _ kept inside (by rw [placed]; decide) with ⟨k, held, apart⟩
  rw [placed] at held
  generalize index : (heap.managers m).head .pFull = i at inside placed held
  have either : ∃ j filled memory first,
      SliceTaken tidy heap live level m i k j filled memory first := by
    by_cases linked : level ≤ 4
    · exact get_slice_linked sound kept linked held
    · exact get_slice_bitmap sound kept (by omega) held
  rcases either with ⟨j, filled, memory, first, taken⟩
  have result : takePartial heap m (decide (level ≤ 4)) = (sliceAt heap.base level k j,
      servedHeap { heap with memory := memory } m i first (refile filled)) :=
    take_partial_served index taken.result
  rw [result]
  apply Exists.intro
  apply serve_sound sound kept inside (touches_memory m i taken.outside) (Or.inr held.target)
    (fun _ _ _ => sound.owner_unique kept inside held.target) apart (refile_moves filled) _ _
    held.inside held.inUse held.target held.owner taken.slice taken.fresh taken.positive taken.byte
    taken.page fits
  · have moved := refile_threads (threads_modify threads i (keeps_links_with_first first))
      (by rw [head_modify]; exact nonempty) filled
    rw [head_modify, index] at moved
    exact moved
  · cases filled <;> decide

end Partial

end ChaoOS.SliceHeapAlloc
