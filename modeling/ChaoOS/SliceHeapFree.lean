import ChaoOS.SliceHeapMalloc

/-!
# `kfree`

From the address of a live slice `kfree` finds the page, the allocator that
holds it and that allocator's manager. Then the page is given back, or the
allocator moves from the full list to the partially used ones, or it stays.
-/

namespace ChaoOS.SliceHeapFree

open ChaoOS.KernelMath ChaoOS.IndexList ChaoOS.PageDirectory ChaoOS.SliceHeapModel
open ChaoOS.SliceLists ChaoOS.SlicePages ChaoOS.SliceHeapInvariant ChaoOS.SliceHeapAlloc
open ChaoOS.SliceHeapGrow

set_option autoImplicit false

/-! ## From an address to its allocator -/

section Decoding

variable {framesNumber base k : Nat}

theorem page_of_address (pool : Pool base framesNumber) (frame : k < framesNumber) {address : Nat}
    (here : InPage base k address) : address &&& pageMask = pageAt base k := by
  have aligned := page_aligned (k := k) pool
  have ends := pool.page_end frame
  rw [page_mask_eq]
  unfold InPage at here
  unfold wordSize at ends
  unfold pageSize at *
  omega

theorem frame_of_address {heap : Heap} (pool : Pool heap.base framesNumber) (frame : k < framesNumber)
    {address : Nat} (here : InPage heap.base k address) : frameIndexOf heap address = k := by
  have ends := pool.page_end frame
  have physical : sub32 (pageAt heap.base k) pageOffset = heap.base + k * pageSize := by
    rw [sub32_of_le (by omega) (by unfold pageAt; omega), pageAt, Nat.add_assoc,
      Nat.add_sub_cancel_left]
  have word : heap.base + k * pageSize < wordSize := by
    unfold pageAt at ends
    omega
  rw [frameIndexOf, page_of_address pool frame here, physical,
    sub32_of_le word (Nat.le_add_right _ _), Nat.add_sub_cancel_left,
    Nat.mul_div_cancel k (by decide)]

/-- The slice number `kfree` computes from the offset in the page. -/
theorem slice_of_address {level j : Nat} (bound : level < 8) (inside : j < slicesAt level)
    (pool : Pool base framesNumber) (frame : k < framesNumber) :
    (level ≤ 4 → sub32 (sub32 (sliceAt base level k j) (pageAt base k)) 4 % 65536 /
        (sliceSizeAt level + 1) = j) ∧
      (4 < level → sub32 (sliceAt base level k j) (pageAt base k) % 65536 /
        sliceSizeAt level = j) := by
  have range := slice_in_page base k bound inside
  have ends := pool.page_end frame
  have positive := slice_size_pos bound
  have offset : sub32 (sliceAt base level k j) (pageAt base k) =
      sliceAt base level k j - pageAt base k := sub32_of_le (by omega) range.1
  have small : sliceAt base level k j - pageAt base k < 65536 := by
    unfold pageSize at range
    omega
  have words : 65536 < wordSize := by decide
  rw [offset]
  constructor
  · intro linked
    have place : sliceAt base level k j - pageAt base k = 4 + (j * (sliceSizeAt level + 1) + 1) := by
      rw [sliceAt, if_pos linked, headerAt]
      omega
    rw [place] at small ⊢
    rw [sub32_of_le (by omega) (by omega), Nat.add_sub_cancel_left, Nat.mod_eq_of_lt (by omega),
      Nat.mul_comm, Nat.mul_add_div (by omega), Nat.div_eq_of_lt (by omega), Nat.add_zero]
  · intro mapped
    have place : sliceAt base level k j - pageAt base k = j * sliceSizeAt level := by
      rw [sliceAt, if_neg (by omega)]
      omega
    rw [place] at small ⊢
    rw [Nat.mod_eq_of_lt (by omega), Nat.mul_div_cancel j positive]

end Decoding

/-! ## The returned slice -/

theorem linked_mode_iff {level : Nat} (bound : level < 8) :
    isLinkedMode (sliceSizeAt level) = decide (level ≤ 4) := by
  have all : ∀ index, index < 8 → isLinkedMode (sliceSizeAt index) = decide (index ≤ 4) := by decide
  exact all level bound

theorem slice_sum_eq {level : Nat} (bound : level < 8) :
    sliceSum (sliceSizeAt level) = slicesAt level := by
  have all : ∀ index, index < 8 → sliceSum (sliceSizeAt index) = slicesAt index := by decide
  exact all level bound

/-- The chain head or the map after slice `j` was returned. -/
def returnedFirst (level first j : Nat) : Nat :=
  if level ≤ 4 then j else first ^^^ (1 <<< (7 - j))

def withReturn (first : Nat) (allocator : SliceAllocator) : SliceAllocator :=
  { countUp allocator with firstAvai := first }

/-- A live pointer is a slice of a page that an allocator holds. -/
structure LivePointer (tidy : Prop) (framesNumber : Nat) (chains : Nat → List Nat)
    (place : Nat → Nat → ListName) (heap : Heap) (live : List (Nat × Nat)) (ptr : Nat)
    (level m i k j : Nat) : Prop where
  kept : Kept chains level m
  inside : i < endFlag
  notFree : place m i ≠ .free
  held : HeldPage tidy framesNumber heap live level m i (place m i) k
  apart : ∀ level' m', Kept chains level' m' → m' ≠ pageAt heap.base k
  slice : j < slicesAt level
  address : ptr = sliceAt heap.base level k j
  member : j ∈ liveSlices heap.base level k live
  fits : ∃ n, (ptr, n) ∈ live ∧ n ≤ sliceSizeAt level

section Returning

variable {tidy : Prop} {framesNumber : Nat} {chains : Nat → List Nat}
  {place : Nat → Nat → ListName} {heap : Heap} {live : List (Nat × Nat)} {ptr level m i k j : Nat}

theorem live_pointer (sound : HeapSound tidy framesNumber chains place heap live)
    (listed : ptr ∈ live.map Prod.fst) :
    ∃ level m i k j, LivePointer tidy framesNumber chains place heap live ptr level m i k j := by
  rcases List.mem_map.mp listed with ⟨⟨address, n⟩, member, same⟩
  rcases sound.listed address n member with
    ⟨level, m, i, k, j, kept, inside, _, target, slice, there, fits⟩
  rcases sound.held_at kept inside target with ⟨notFree, held, apart⟩
  have here : ptr = sliceAt heap.base level k j := same.symm.trans there
  refine ⟨level, m, i, k, j, kept, inside, notFree, held, apart, slice, here, ?_, n, ?_, fits⟩
  · rw [liveSlices, Finset.mem_filter, Finset.mem_range, ← here]
    exact ⟨slice, listed⟩
  · rw [← same]
    exact member

theorem LivePointer.in_page
    (pointer : LivePointer tidy framesNumber chains place heap live ptr level m i k j) :
    InPage heap.base k ptr := by
  rw [pointer.address]
  exact slice_mem_page _ _ pointer.kept.1 pointer.slice

/-- The slice goes to the head of the chain, or its bit is cleared. No header
byte is written. -/
theorem return_slice_spec (sound : HeapSound tidy framesNumber chains place heap live)
    (pointer : LivePointer tidy framesNumber chains place heap live ptr level m i k j) :
    ∃ memory, returnSlice (heap.modifyAlloc m i countUp) m i ptr =
        { heap with memory := memory }.modifyAlloc m i
          (withReturn (returnedFirst level ((heap.managers m).allocs i).firstAvai j)) ∧
      (∀ address, ¬InPage heap.base k address → memory address = heap.memory address) ∧
      (level ≤ 4 → ∀ other, memory (headerAt heap.base level k other) =
        heap.memory (headerAt heap.base level k other)) := by
  have bound := pointer.kept.1
  have here := pointer.in_page
  have page := page_of_address sound.pool pointer.held.inside here
  have size : ((heap.modifyAlloc m i countUp).managers m).sliceSize = sliceSizeAt level := by
    rw [Heap.modifyAlloc, manager_modify_manager, if_pos rfl]
    exact sound.size level m pointer.kept
  have first : (((heap.modifyAlloc m i countUp).managers m).allocs i).firstAvai =
      ((heap.managers m).allocs i).firstAvai := by
    rw [Heap.modifyAlloc, manager_modify_manager, if_pos rfl, allocs_modify, if_pos rfl]
    rfl
  have numbers := slice_of_address bound pointer.slice sound.pool pointer.held.inside
  rw [← pointer.address] at numbers
  have small := (slices_bounds bound).2.1
  have slice := pointer.slice
  unfold sliceEnd at small
  unfold returnSlice returnedFirst
  dsimp only
  rw [page, size, first, linked_mode_iff bound]
  by_cases linked : level ≤ 4
  · refine ⟨store heap.memory ptr ((heap.managers m).allocs i).firstAvai, ?_, ?_, ?_⟩
    · rw [decide_eq_true linked, if_pos rfl, if_pos linked, numbers.1 linked,
        Nat.mod_eq_of_lt (by omega)]
      change ({ heap with memory := store heap.memory ptr _ }.modifyAlloc m i countUp).modifyAlloc
        m i (withFirst j) = _
      rw [modify_alloc_twice]
      rfl
    · exact fun _ => store_outside here
    · intro _ other
      rw [store, if_neg]
      have wide := slice_size_pos bound
      rw [pointer.address]
      exact header_not_in_slice linked (Nat.le_refl _) (by omega)
  · refine ⟨heap.memory, ?_, fun _ _ => rfl, fun low => absurd low linked⟩
    rw [decide_eq_false linked, if_neg (by decide), if_neg linked, numbers.2 (by omega)]
    exact modify_alloc_twice m i countUp _

/-- The live pointers after `ptr` was freed. -/
def dropPointer (ptr : Nat) (live : List (Nat × Nat)) : List (Nat × Nat) :=
  live.filter fun entry => entry.1 ≠ ptr

theorem mem_drop_pointer {other : Nat} :
    other ∈ (dropPointer ptr live).map Prod.fst ↔ other ≠ ptr ∧ other ∈ live.map Prod.fst := by
  simp [dropPointer, and_comm]

theorem live_slices_drop {base : Nat} (bound : level < 8) (address : ptr = sliceAt base level k j) :
    liveSlices base level k (dropPointer ptr live) = (liveSlices base level k live).erase j := by
  ext other
  simp only [liveSlices, Finset.mem_filter, Finset.mem_erase, mem_drop_pointer, address]
  constructor
  · intro member
    refine ⟨?_, member.1, member.2.2⟩
    intro same
    rw [same] at member
    exact member.2.1 rfl
  · intro member
    exact ⟨member.2.1, fun same => member.1 (slice_at_injective bound same), member.2.2⟩

/-- Taking back one slice: what is left to show is about its page only. -/
theorem give_slice_sound {heap' : Heap} {name : ListName}
    (sound : HeapSound tidy framesNumber chains place heap live)
    (pointer : LivePointer tidy framesNumber chains place heap live ptr level m i k j)
    (touches : Touches heap heap' m i k)
    (threads : Threads (heap'.managers m) (Function.update (place m) i name))
    (bare : name = .free → targetOf heap' m i = .null)
    (held : name ≠ .free →
      HeldPage tidy framesNumber heap' (dropPointer ptr live) level m i name k)
    (emptied : name = .free → (liveSlices heap.base level k live).erase j = ∅) :
    HeapSound tidy framesNumber chains (Function.update place m (Function.update (place m) i name))
      heap' (dropPointer ptr live) := by
  have bound := pointer.kept.1
  have here := pointer.in_page
  have mine : ∀ level' m' i', Kept chains level' m' → i' < endFlag →
      targetOf heap m' i' = .entry k → m' = m ∧ i' = i :=
    fun _ _ _ => sound.owner_unique pointer.kept pointer.inside pointer.held.target
  apply sound.update_page pointer.kept pointer.inside touches _ (Or.inr pointer.held.target) mine
    pointer.apart threads bare held
  · intro other n member inPage
    have old := (List.mem_filter.mp member).1
    rcases live_in_page sound pointer.kept mine old inPage with ⟨slice, inside, address, fits⟩
    refine ⟨?_, slice, inside, address, fits⟩
    intro isFree
    have left := emptied isFree
    rw [← live_slices_drop bound pointer.address, Finset.eq_empty_iff_forall_notMem] at left
    apply left slice
    rw [liveSlices, Finset.mem_filter, Finset.mem_range, ← address]
    exact ⟨inside, List.mem_map_of_mem member⟩
  · intro other n member _
    exact (List.mem_filter.mp member).1
  · exact (List.filter_sublist.map Prod.fst).nodup sound.nodup
  · intro other outside
    rw [mem_drop_pointer]
    refine ⟨fun both => both.2, fun listed => ⟨?_, listed⟩⟩
    intro same
    rw [same] at outside
    exact outside here

/-- The page after one of its slices was returned, on the list it goes to. -/
theorem returned_page {name : ListName} {header : Nat → Nat} {first avail : Nat} {slices : Finset Nat}
    (page : PageOk tidy level name header first avail slices) (bound : level < 8) (member : j ∈ slices)
    (exhausted : tidy → level ≤ 4 → avail = 0) (more : (slices.erase j).Nonempty) :
    PageOk tidy level (if avail = 0 then .pFull else name) header (returnedFirst level first j)
      (avail + 1) (slices.erase j) := by
  have bounds := slices_bounds bound
  refine ⟨?_, ?_, more, ?_⟩
  · intro linked
    rcases page.linked linked with ⟨chain, state, _⟩
    rw [returnedFirst, if_pos linked]
    exact ⟨[j], state.give bounds.2.1 member fun exact_chain => exhausted exact_chain linked,
      fun _ => List.cons_ne_nil j []⟩
  · intro mapped
    rw [returnedFirst, if_neg (by omega)]
    exact ⟨(page.bitmap mapped).1.give (bounds.2.2 mapped) member, fun _ => Nat.succ_pos _⟩
  · intro isFull strict
    exfalso
    split_ifs at isFull with none_left
    exact none_left (page.full isFull strict)

/-! ## The three cases of `kfree` -/

def clearPage (allocator : SliceAllocator) : SliceAllocator :=
  { allocator with targetPage := .null, avaiNum := 0 }

/-- The page goes back to the frame allocator and its allocator to the free list. -/
def releasePage (heap : Heap) (m i k physicAddr : Nat) : Heap :=
  ((givePage (heap.setFrameAllocator (.entry k) 0) physicAddr k).modifyAlloc m i
    clearPage).modifyManager m fun record => record.moveNode .pFull .free i

/-- The heap after the slice was marked free, before any list changes. -/
def returnedHeap (heap : Heap) (memory : Nat → Nat) (level m i j : Nat) : Heap :=
  { heap with memory := memory }.modifyAlloc m i
    (withReturn (returnedFirst level ((heap.managers m).allocs i).firstAvai j))

theorem returned_record (memory : Nat → Nat) (level m i j : Nat) :
    (returnedHeap heap memory level m i j).managers m = (heap.managers m).modify i
      (withReturn (returnedFirst level ((heap.managers m).allocs i).firstAvai j)) := by
  rw [returnedHeap, Heap.modifyAlloc, manager_modify_manager, if_pos rfl]

theorem returned_touches {memory : Nat → Nat}
    (outside : ∀ address, ¬InPage heap.base k address → memory address = heap.memory address) :
    Touches heap (returnedHeap heap memory level m i j) m i k :=
  (touches_memory m i outside).trans (touches_alloc k (withReturn _))

theorem kfree_cases (sound : HeapSound tidy framesNumber chains place heap live)
    (pointer : LivePointer tidy framesNumber chains place heap live ptr level m i k j) :
    ∃ memory, (∀ address, ¬InPage heap.base k address → memory address = heap.memory address) ∧
      (level ≤ 4 → ∀ other, memory (headerAt heap.base level k other) =
        heap.memory (headerAt heap.base level k other)) ∧
      (((returnedHeap heap memory level m i j).managers m).allocs i).avaiNum =
        ((heap.managers m).allocs i).avaiNum + 1 ∧
      kfree ptr heap =
        if slicesAt level = ((heap.managers m).allocs i).avaiNum + 1 then
          releasePage (returnedHeap heap memory level m i j) m i k
            (sub32 (pageAt heap.base k) pageOffset)
        else if ((heap.managers m).allocs i).avaiNum = 0 then
          (returnedHeap heap memory level m i j).modifyManager m
            fun record => record.moveNode .full .pFull i
        else returnedHeap heap memory level m i j := by
  have bound := pointer.kept.1
  have here := pointer.in_page
  have nonzero : ptr ≠ 0 := by
    unfold InPage pageAt pageOffset at here
    omega
  have place := sound.manager_address pointer.kept
  have decoded := allocator_decodes place.1 place.2.1 pointer.inside
  have counted := pointer.held.page.count
  have small := (slices_bounds bound).2.1
  unfold sliceEnd at small
  rcases return_slice_spec sound pointer with ⟨memory, returned, outside, headers⟩
  have size : ((returnedHeap heap memory level m i j).managers m).sliceSize = sliceSizeAt level := by
    rw [returned_record]
    exact sound.size level m pointer.kept
  have avail : (((returnedHeap heap memory level m i j).managers m).allocs i).avaiNum =
      ((heap.managers m).allocs i).avaiNum + 1 := by
    rw [returned_record, allocs_modify, if_pos rfl]
    exact Nat.mod_eq_of_lt (by omega)
  refine ⟨memory, outside, headers, avail, ?_⟩
  unfold kfree
  rw [if_neg nonzero]
  dsimp only
  rw [frame_of_address sound.pool pointer.held.inside here, pointer.held.owner, decoded.1, decoded.2,
    returned, ← returnedHeap, size, slice_sum_eq bound, avail,
    page_of_address sound.pool pointer.held.inside here]
  have counts : ((heap.managers m).allocs i).avaiNum + 1 = 1 ↔
      ((heap.managers m).allocs i).avaiNum = 0 := by
    omega
  simp only [counts]
  rfl

/-- The allocator of a live address and its manager, as `kfree` finds them. -/
def ownerOf (heap : Heap) (address : Nat) : Nat × Nat :=
  let allocator := (heap.frames (.entry (frameIndexOf heap address))).allocator
  (managerOf allocator, indexOf allocator)

/-- Freeing `address` empties the page of the first allocator on the full list.
`kfree` then takes that allocator for the first of the `p_full` list. -/
def ReleasesFullHead (heap : Heap) (address : Nat) : Prop :=
  let manager := heap.managers (ownerOf heap address).1
  let index := (ownerOf heap address).2
  (manager.allocs index).avaiNum + 1 = sliceSum manager.sliceSize ∧ manager.full = index

/-- Freeing `address` puts it before a chain that is not empty, on a page that
stays: `kfree` writes the rest of the chain into the slice, not into its header. -/
def DropsChain (heap : Heap) (address : Nat) : Prop :=
  let manager := heap.managers (ownerOf heap address).1
  let index := (ownerOf heap address).2
  isLinkedMode manager.sliceSize = true ∧ (manager.allocs index).avaiNum ≠ 0 ∧
    (manager.allocs index).avaiNum + 1 ≠ sliceSum manager.sliceSize

instance (heap : Heap) (address : Nat) : Decidable (ReleasesFullHead heap address) :=
  inferInstanceAs (Decidable (_ ∧ _))

instance (heap : Heap) (address : Nat) : Decidable (DropsChain heap address) :=
  inferInstanceAs (Decidable (_ ∧ _))

theorem owner_of_pointer (sound : HeapSound tidy framesNumber chains place heap live)
    (pointer : LivePointer tidy framesNumber chains place heap live ptr level m i k j) :
    ownerOf heap ptr = (m, i) := by
  have here := pointer.in_page
  have place := sound.manager_address pointer.kept
  have decoded := allocator_decodes place.1 place.2.1 pointer.inside
  rw [ownerOf, frame_of_address sound.pool pointer.held.inside here, pointer.held.owner, decoded.1,
    decoded.2]

theorem move_node_moves (source target : ListName) (index : Nat) :
    ListMove fun manager => manager.moveNode source target index :=
  ⟨fun manager other => move_node_content manager index other,
    fun manager => move_node_record manager index⟩

theorem keeps_links_with_return (first : Nat) : KeepsLinks (withReturn first) := fun _ => ⟨rfl, rfl⟩

theorem keeps_links_clear : KeepsLinks clearPage := fun _ => ⟨rfl, rfl⟩

/-- A page on the `p_full` list has an available slice. -/
theorem partial_page_avail {header : Nat → Nat} {first avail : Nat} {slices : Finset Nat}
    (page : PageOk tidy level .pFull header first avail slices) : 0 < avail := by
  by_cases linked : level ≤ 4
  · rcases page.linked linked with ⟨chain, state, nonempty⟩
    cases chain with
    | nil => exact absurd rfl (nonempty rfl)
    | cons slice rest =>
        have idle := state.idle slice List.mem_cons_self
        exact (card_insert_live idle.2 state.bound idle.1 state.count).1
  · exact (page.bitmap (by omega)).2 rfl

theorem touches_give (m i k physicAddr : Nat) : Touches heap (givePage heap physicAddr k) m i k := by
  unfold givePage
  split_ifs
  · exact ⟨rfl, rfl, fun _ _ => rfl, ⟨rfl, rfl⟩, fun _ _ => rfl, fun _ _ => rfl, fun _ => rfl,
      fun _ _ => rfl, fun _ _ used => used⟩
  · exact ⟨rfl, rfl, fun _ _ => rfl, ⟨rfl, rfl⟩, fun _ _ => rfl, fun _ _ => rfl, fun _ => rfl,
      fun _ _ => rfl, fun _ different used => (List.mem_erase_of_ne different).mpr used⟩

theorem release_touches (m i k physicAddr : Nat) :
    Touches heap (releasePage heap m i k physicAddr) m i k := by
  apply Touches.trans (touches_owner m i k 0)
  apply Touches.trans (touches_give m i k physicAddr)
  apply Touches.trans (touches_alloc k clearPage)
  apply touches_manager k ((move_node_moves .pFull .free i).record _)
  intro other _
  exact (move_node_moves .pFull .free i).content _ other

theorem release_record (m i k physicAddr : Nat) : (releasePage heap m i k physicAddr).managers m =
    ((heap.managers m).modify i clearPage).moveNode .pFull .free i := by
  have same : ((givePage (heap.setFrameAllocator (.entry k) 0) physicAddr k).managers m) =
      heap.managers m := by
    unfold givePage
    split_ifs <;> rfl
  rw [releasePage, manager_modify_manager, if_pos rfl, Heap.modifyAlloc, manager_modify_manager,
    if_pos rfl, same]

/-- The last slice of a page: the page is given back. -/
theorem release_sound (sound : HeapSound tidy framesNumber chains place heap live)
    (pointer : LivePointer tidy framesNumber chains place heap live ptr level m i k j)
    (memory : Nat → Nat)
    (outside : ∀ address, ¬InPage heap.base k address → memory address = heap.memory address)
    (last : slicesAt level = ((heap.managers m).allocs i).avaiNum + 1)
    (expected : ¬tidy → ¬ReleasesFullHead heap ptr) (physicAddr : Nat) :
    HeapSound tidy framesNumber chains
      (Function.update place m (Function.update (place m) i .free))
      (releasePage (returnedHeap heap memory level m i j) m i k physicAddr)
      (dropPointer ptr live) := by
  have counted := pointer.held.page.count
  have many := (slices_bounds pointer.kept.1).1
  have listOf : (heap.managers m).head (place m i) = i → place m i = .pFull := by
    intro isHead
    rcases placed : place m i with _ | _ | _
    · exact absurd placed pointer.notFree
    · rfl
    · exfalso
      by_cases strict : tidy ∨ 4 < level
      · have none_left := pointer.held.page.full placed strict
        omega
      · rw [not_or] at strict
        apply expected strict.1
        rw [placed] at isHead
        rw [ReleasesFullHead, owner_of_pointer sound pointer, sound.size level m pointer.kept,
          slice_sum_eq pointer.kept.1]
        exact ⟨last.symm, isHead⟩
  apply give_slice_sound sound pointer
    ((returned_touches outside).trans (release_touches m i k physicAddr))
  · rw [release_record, returned_record]
    apply Threads.move_node _ (by decide) pointer.inside pointer.notFree
    · rw [head_modify, head_modify]
      exact listOf
    · apply threads_modify _ i keeps_links_clear
      exact threads_modify (sound.threads level m pointer.kept) i (keeps_links_with_return _)
  · intro _
    have content := (move_node_moves .pFull .free i).content
      (((returnedHeap heap memory level m i j).managers m).modify i clearPage) i
    rw [← release_record m i k physicAddr] at content
    have target := (Prod.mk.inj (Prod.mk.inj content).2).2
    rw [targetOf, target, allocs_modify, if_pos rfl]
    rfl
  · intro notFree
    exact absurd rfl notFree
  · intro _
    have size : (liveSlices heap.base level k live).card = 1 := by omega
    rw [← Finset.card_eq_zero, Finset.card_erase_of_mem pointer.member, size]

/-- What an allocator that keeps its page looks like afterwards. -/
theorem held_returned (pointer : LivePointer tidy framesNumber chains place heap live ptr level m i k j)
    {memory : Nat → Nat}
    (headers : level ≤ 4 → ∀ other, memory (headerAt heap.base level k other) =
      heap.memory (headerAt heap.base level k other))
    (count : (((returnedHeap heap memory level m i j).managers m).allocs i).avaiNum =
      ((heap.managers m).allocs i).avaiNum + 1)
    (stays : slicesAt level ≠ ((heap.managers m).allocs i).avaiNum + 1)
    (exhausted : tidy → level ≤ 4 → ((heap.managers m).allocs i).avaiNum = 0)
    {move : Manager → Manager} (moves : ListMove move) :
    HeldPage tidy framesNumber ((returnedHeap heap memory level m i j).modifyManager m move)
      (dropPointer ptr live) level m i
      (if ((heap.managers m).allocs i).avaiNum = 0 then .pFull else place m i) k := by
  have counted := pointer.held.page.count
  have content := moves.content ((returnedHeap heap memory level m i j).managers m) i
  have parts := Prod.mk.inj content
  have rest := Prod.mk.inj parts.2
  have record : ((returnedHeap heap memory level m i j).modifyManager m move).managers m =
      move ((returnedHeap heap memory level m i j).managers m) := by
    rw [manager_modify_manager, if_pos rfl]
  have first : (((returnedHeap heap memory level m i j).managers m).allocs i).firstAvai =
      returnedFirst level ((heap.managers m).allocs i).firstAvai j := by
    rw [returned_record, allocs_modify, if_pos rfl]
    rfl
  refine ⟨pointer.held.inside, pointer.held.inUse, ?_, pointer.held.owner, ?_⟩
  · rw [targetOf, record, rest.2, returned_record, allocs_modify, if_pos rfl]
    exact pointer.held.target
  · rw [record, parts.1, rest.1, first, count]
    change PageOk tidy level _ (fun j => memory (headerAt heap.base level k j)) _ _
      (liveSlices heap.base level k (dropPointer ptr live))
    rw [live_slices_drop pointer.kept.1 pointer.address]
    apply PageOk.congr (returned_page pointer.held.page pointer.kept.1 pointer.member exhausted _)
    · exact fun linked other _ => headers linked other
    · rw [← Finset.card_pos, Finset.card_erase_of_mem pointer.member]
      have positive : 0 < (liveSlices heap.base level k live).card :=
        Finset.card_pos.mpr ⟨j, pointer.member⟩
      omega

/-- The first slice returned to a full page: the allocator changes its list. -/
theorem reopen_sound (sound : HeapSound tidy framesNumber chains place heap live)
    (pointer : LivePointer tidy framesNumber chains place heap live ptr level m i k j)
    {memory : Nat → Nat}
    (outside : ∀ address, ¬InPage heap.base k address → memory address = heap.memory address)
    (held : HeldPage tidy framesNumber ((returnedHeap heap memory level m i j).modifyManager m
      fun record => record.moveNode .full .pFull i) (dropPointer ptr live) level m i .pFull k)
    (none_left : ((heap.managers m).allocs i).avaiNum = 0) :
    HeapSound tidy framesNumber chains
      (Function.update place m (Function.update (place m) i .pFull))
      ((returnedHeap heap memory level m i j).modifyManager m
        fun record => record.moveNode .full .pFull i) (dropPointer ptr live) := by
  have placed : place m i = .full := by
    rcases found : place m i with _ | _ | _
    · exact absurd found pointer.notFree
    · have page := pointer.held.page
      rw [found] at page
      have available := partial_page_avail page
      omega
    · rfl
  apply give_slice_sound sound pointer
  · apply (returned_touches outside).trans
    apply touches_manager k ((move_node_moves .full .pFull i).record _)
    intro other _
    exact (move_node_moves .full .pFull i).content _ other
  · rw [manager_modify_manager, if_pos rfl, returned_record]
    apply Threads.move_node _ (by decide) pointer.inside
    · rw [placed]
      decide
    · exact fun _ => placed
    · exact threads_modify (sound.threads level m pointer.kept) i (keeps_links_with_return _)
  · intro isFree
    exact absurd isFree (by decide)
  · exact fun _ => held
  · intro isFree
    exact absurd isFree (by decide)

/-- A page that was partially used, and still is. -/
theorem stay_sound (sound : HeapSound tidy framesNumber chains place heap live)
    (pointer : LivePointer tidy framesNumber chains place heap live ptr level m i k j)
    {memory : Nat → Nat}
    (outside : ∀ address, ¬InPage heap.base k address → memory address = heap.memory address)
    (held : HeldPage tidy framesNumber (returnedHeap heap memory level m i j) (dropPointer ptr live)
      level m i (place m i) k) :
    HeapSound tidy framesNumber chains
      (Function.update place m (Function.update (place m) i (place m i)))
      (returnedHeap heap memory level m i j) (dropPointer ptr live) := by
  apply give_slice_sound sound pointer (returned_touches outside)
  · rw [Function.update_eq_self, returned_record]
    exact threads_modify (sound.threads level m pointer.kept) i (keeps_links_with_return _)
  · intro isFree
    exact absurd isFree pointer.notFree
  · exact fun _ => held
  · intro isFree
    exact absurd isFree pointer.notFree

theorem kfree_sound (sound : HeapSound tidy framesNumber chains place heap live)
    (listed : ptr ∈ live.map Prod.fst) (exact_chain : tidy → ¬DropsChain heap ptr)
    (expected : ¬tidy → ¬ReleasesFullHead heap ptr) :
    ∃ place', HeapSound tidy framesNumber chains place' (kfree ptr heap) (dropPointer ptr live) := by
  rcases live_pointer sound listed with ⟨level, m, i, k, j, pointer⟩
  rcases kfree_cases sound pointer with ⟨memory, outside, headers, count, result⟩
  rw [result]
  split_ifs with last none_left
  · exact ⟨_, release_sound sound pointer memory outside last expected _⟩
  · have exhausted : tidy → level ≤ 4 → ((heap.managers m).allocs i).avaiNum = 0 :=
      fun _ _ => none_left
    have held := held_returned pointer headers count last exhausted (move_node_moves .full .pFull i)
    rw [if_pos none_left] at held
    exact ⟨_, reopen_sound sound pointer outside held none_left⟩
  · have exhausted : tidy → level ≤ 4 → ((heap.managers m).allocs i).avaiNum = 0 := by
      intro strict linked
      by_contra more
      apply exact_chain strict
      rw [DropsChain, owner_of_pointer sound pointer, sound.size level m pointer.kept,
        slice_sum_eq pointer.kept.1, linked_mode_iff pointer.kept.1]
      exact ⟨decide_eq_true linked, more, fun full => last full.symm⟩
    have held := held_returned pointer headers count last exhausted
      ⟨fun _ _ => rfl, fun _ => ⟨rfl, rfl⟩⟩
    rw [if_neg none_left, modify_manager_id] at held
    exact ⟨_, stay_sound sound pointer outside held⟩

end Returning

end ChaoOS.SliceHeapFree
