import ChaoOS.SliceHeapGrow

/-!
# A manager that only serves

As long as nothing is freed, the allocators of a manager are taken in the order
of the free list and the slices of a page in the order of their addresses. What
the newest manager of a level looks like is then given by two numbers: how many
of its allocators have a page, and how many slices of the last page are out,
where a full page counts as none.
-/

namespace ChaoOS.DenseManagers

open ChaoOS.KernelMath ChaoOS.IndexList ChaoOS.PageDirectory ChaoOS.SliceHeapModel
open ChaoOS.SliceLists ChaoOS.SlicePages ChaoOS.SliceHeapInvariant ChaoOS.SliceHeapAlloc
open ChaoOS.SliceHeapGrow
open ChaoOS.SliceHeapModel.Manager (nextOf)

set_option autoImplicit false

/-- The first `filled` slices of a page are handed out. -/
structure PageFilled (level : Nat) (header : Nat → Nat) (first filled : Nat) : Prop where
  linked : level ≤ 4 → first = filled ∧ ∀ j, filled ≤ j → j < slicesAt level →
    header j = if j + 1 = slicesAt level then sliceEnd else j + 1
  bitmap : 4 < level → first = 256 - 2 ^ (8 - filled)

structure ManagerFilled (heap : Heap) (level m used filled k : Nat) : Prop where
  size : (heap.managers m).sliceSize = sliceSizeAt level
  free : (heap.managers m).free = used
  unused : ∀ i, used ≤ i → i < endFlag →
    targetOf heap m i = .null ∧ nextOf (heap.managers m) i = i + 1
  pFull : (heap.managers m).pFull = if filled = 0 then endFlag else used - 1
  page : filled ≠ 0 → 0 < used ∧ nextOf (heap.managers m) (used - 1) = endFlag ∧
    targetOf heap m (used - 1) = .entry k ∧
    PageFilled level (fun j => heap.memory (headerAt heap.base level k j))
      ((heap.managers m).allocs (used - 1)).firstAvai filled

/-- What happens elsewhere does not matter to a manager. -/
theorem ManagerFilled.congr {heap heap' : Heap} {level m used filled k : Nat}
    (state : ManagerFilled heap level m used filled k) (base : heap'.base = heap.base)
    (record : heap'.managers m = heap.managers m)
    (headers : filled ≠ 0 → level ≤ 4 → ∀ j, j < slicesAt level →
      heap'.memory (headerAt heap.base level k j) = heap.memory (headerAt heap.base level k j)) :
    ManagerFilled heap' level m used filled k := by
  refine ⟨?_, ?_, ?_, ?_, ?_⟩
  · rw [record]
    exact state.size
  · rw [record]
    exact state.free
  · intro i least inside
    rw [targetOf, record]
    exact state.unused i least inside
  · rw [record]
    exact state.pFull
  · intro partly
    obtain ⟨positive, last, target, page⟩ := state.page partly
    rw [targetOf, record, base]
    refine ⟨positive, last, target, ?_, page.bitmap⟩
    intro linked
    obtain ⟨first, links⟩ := page.linked linked
    refine ⟨first, ?_⟩
    intro j least inside
    exact (headers partly linked j inside).trans (links j least inside)

/-- A request that works on allocator `i` of `m` and the page in frame `k`. -/
structure PageServed (heap heap' : Heap) (m i k : Nat) : Prop where
  touches : Touches heap heap' m i k
  inUse : ∀ frame ∈ heap.framesInUse, frame ∈ heap'.framesInUse
  own : k ∈ heap'.framesInUse

/-! ## The map of a page in bitmap mode -/

/-- The loop stops at the first slice that is not out. -/
theorem first_zero_of_filled (slices filled : Nat) (few : slices ≤ 8) (room : filled < slices) :
    firstZeroBit (256 - 2 ^ (8 - filled)) slices slices 0 = filled := by
  have all : ∀ slices, slices < 9 → ∀ filled, filled < slices →
      firstZeroBit (256 - 2 ^ (8 - filled)) slices slices 0 = filled := by decide
  exact all slices (by omega) filled room

theorem set_next_bit (filled : Nat) (room : filled < 8) :
    (256 - 2 ^ (8 - filled)) ||| (1 <<< (7 - filled)) = 256 - 2 ^ (8 - (filled + 1)) := by
  have all : ∀ filled, filled < 8 →
      (256 - 2 ^ (8 - filled)) ||| (1 <<< (7 - filled)) = 256 - 2 ^ (8 - (filled + 1)) := by decide
  exact all filled room

theorem map_full_iff (slices filled : Nat) (few : slices ≤ 8) (room : filled ≤ slices) :
    (256 - 2 ^ (8 - filled)) >>> (8 - slices) = 0xFF >>> (8 - slices) ↔ filled = slices := by
  have all : ∀ slices, slices < 9 → ∀ filled, filled < slices + 1 →
      ((256 - 2 ^ (8 - filled)) >>> (8 - slices) = 0xFF >>> (8 - slices) ↔ filled = slices) := by
    decide
  exact all slices (by omega) filled (by omega)

/-! ## The record of a served request -/

section Records

variable {heap : Heap} {m i first : Nat} {move : Manager → Manager}

theorem next_of_modify (manager : Manager) (index other : Nat)
    {change : SliceAllocator → SliceAllocator} (links : KeepsLinks change) :
    nextOf (manager.modify index change) other = nextOf manager other := by
  simp only [nextOf, allocs_modify]
  split_ifs
  · exact (links _).1
  · rfl

theorem served_head (name : ListName) : ((servedHeap heap m i first move).managers m).head name =
    (move ((heap.managers m).modify i (withFirst first))).head name := by
  rw [served_record, head_modify]

theorem served_next (other : Nat) : nextOf ((servedHeap heap m i first move).managers m) other =
    nextOf (move ((heap.managers m).modify i (withFirst first))) other := by
  rw [served_record, next_of_modify _ _ _ keeps_links_count_down]

theorem served_first (moves : ListMove move) :
    (((servedHeap heap m i first move).managers m).allocs i).firstAvai = first ∧
      targetOf (servedHeap heap m i first move) m i = targetOf heap m i := by
  have parts := Prod.mk.inj (moves.content ((heap.managers m).modify i (withFirst first)) i)
  have target := (Prod.mk.inj parts.2).2
  rw [allocs_modify, if_pos rfl] at parts target
  rw [targetOf, served_record, allocs_modify, if_pos rfl]
  exact ⟨parts.1, target⟩

theorem served_page (moves : ListMove move) (k : Nat) {heap' : Heap}
    (touches : Touches heap heap' m i k)
    (inUse : ∀ frame ∈ heap.framesInUse, frame ∈ heap'.framesInUse)
    (own : k ∈ heap'.framesInUse) :
    PageServed heap (servedHeap heap' m i first move) m i k :=
  ⟨touches.trans (served_touches heap' m i k first moves), inUse, own⟩

end Records

/-! ## The next slice of the last page -/

section Partial

variable {framesNumber : Nat} {heap : Heap} {level m i used filled k : Nat}

theorem PageFilled.get_slice (mapped : Mapped framesNumber heap) (bound : level < 8)
    (size : (heap.managers m).sliceSize = sliceSizeAt level) (frame : k < framesNumber)
    (target : targetOf heap m i = .entry k) (room : filled < slicesAt level)
    (page : PageFilled level (fun j => heap.memory (headerAt heap.base level k j))
      ((heap.managers m).allocs i).firstAvai filled) :
    ∃ memory first, getSliceAddr heap m i (heap.managers m).sliceSize (decide (level ≤ 4)) =
        (sliceAt heap.base level k filled, decide (filled + 1 = slicesAt level),
          { heap with memory := memory }.modifyAlloc m i (withFirst first)) ∧
      (∀ address, ¬InPage heap.base k address → memory address = heap.memory address) ∧
      (filled + 1 < slicesAt level →
        PageFilled level (fun j => memory (headerAt heap.base level k j)) first (filled + 1)) := by
  by_cases linked : level ≤ 4
  · obtain ⟨first, headers⟩ := page.linked linked
    have header := headers filled (Nat.le_refl filled) room
    have result := get_slice_header mapped linked size frame target room first
    have small := (slices_bounds bound).2.1
    have full : heap.memory (headerAt heap.base level k filled) = sliceEnd ↔
        filled + 1 = slicesAt level := by
      rw [header]
      split_ifs with last
      · exact iff_of_true rfl last
      · refine iff_of_false ?_ last
        omega
    rw [decide_eq_decide.mpr full] at result
    refine ⟨_, _, result, fun _ => store_outside (header_mem_page _ _ linked room), ?_⟩
    intro more
    refine ⟨?_, fun high => absurd linked (Nat.not_le.mpr high)⟩
    intro _
    rw [header, if_neg (by omega)]
    refine ⟨rfl, ?_⟩
    intro j least inside
    rw [store_header, Function.update_of_ne (by omega)]
    exact headers j (by omega) inside
  · have high : 4 < level := by omega
    have few := (slices_bounds bound).2.2 high
    have first := page.bitmap high
    have zeroBit := first_zero_of_filled (slicesAt level) filled few room
    rw [← first] at zeroBit
    have result := get_slice_bit mapped bound high size frame target room zeroBit
    rw [first, set_next_bit filled (by omega),
      decide_eq_decide.mpr (map_full_iff (slicesAt level) (filled + 1) few room)] at result
    exact ⟨heap.memory, _, result, fun _ _ => rfl,
      fun _ => ⟨fun low => absurd low linked, fun _ => rfl⟩⟩

theorem refile_free (filled : Bool) (manager : Manager) :
    (refile filled manager).head .free = manager.head .free := by
  unfold refile
  split_ifs
  · rw [move_head_head manager (by decide)]
    rfl
  · rfl

theorem refile_p_full (filled : Bool) (manager : Manager) : (refile filled manager).head .pFull =
    if filled then nextOf manager (manager.head .pFull) else manager.head .pFull := by
  unfold refile
  split_ifs
  · rw [move_head_head manager (by decide)]
    rfl
  · rfl

theorem refile_next (filled : Bool) (manager : Manager) {index : Nat}
    (other : filled → index ≠ manager.head .pFull) :
    nextOf (refile filled manager) index = nextOf manager index := by
  unfold refile
  split_ifs with full
  · rw [move_head_next_of manager (by decide), if_neg (other full)]
  · rfl

/-- The newest page serves until its last slice is out. -/
theorem ManagerFilled.next_slice (mapped : Mapped framesNumber heap) (bound : level < 8)
    (state : ManagerFilled heap level m used filled k) (partly : filled ≠ 0)
    (room : filled < slicesAt level) (frame : k < framesNumber) (inUse : k ∈ heap.framesInUse) :
    ∃ heap', takePartial heap m (decide (level ≤ 4)) =
        (sliceAt heap.base level k filled, heap') ∧
      PageServed heap heap' m (used - 1) k ∧
      ManagerFilled heap' level m used ((filled + 1) % slicesAt level) k := by
  obtain ⟨some_used, last, target, page⟩ := state.page partly
  have pFull : (heap.managers m).pFull = used - 1 := by
    rw [state.pFull, if_neg partly]
  obtain ⟨memory, first, result, outside, after⟩ :=
    page.get_slice mapped bound state.size frame target room
  have touches := touches_memory m (used - 1) outside
  have moves := refile_moves (decide (filled + 1 = slicesAt level))
  have done : PageServed heap (servedHeap { heap with memory := memory } m (used - 1) first
      (refile (decide (filled + 1 = slicesAt level)))) m (used - 1) k :=
    served_page moves k touches (fun _ => id) inUse
  refine ⟨_, take_partial_served pFull result, done, ?_⟩
  constructor
  · exact done.touches.record.1.trans state.size
  · change (Manager.head _ .free) = used
    rw [served_head, refile_free, head_modify]
    exact state.free
  · intro i least inside
    have other : i ≠ used - 1 := by omega
    have content := done.touches.contents i other
    obtain ⟨bare, next⟩ := state.unused i least inside
    refine ⟨(Prod.mk.inj (Prod.mk.inj content).2).2.trans bare, ?_⟩
    rw [served_next, refile_next, next_of_modify _ _ _ (keeps_links_with_first first)]
    · exact next
    · rw [head_modify]
      exact fun _ same => other (same.trans pFull)
  · change (Manager.head _ .pFull) = _
    have current : Manager.head (heap.managers m) .pFull = used - 1 := pFull
    rw [served_head, refile_p_full, head_modify, current,
      next_of_modify _ _ _ (keeps_links_with_first first)]
    by_cases full : filled + 1 = slicesAt level
    · rw [decide_eq_true full, if_pos rfl, full, Nat.mod_self, if_pos rfl]
      exact last
    · have later : (filled + 1) % slicesAt level = filled + 1 := Nat.mod_eq_of_lt (by omega)
      rw [decide_eq_false full, if_neg (by decide), later, if_neg (Nat.succ_ne_zero filled)]
  · intro more
    have later : filled + 1 < slicesAt level := by
      by_contra full
      have same : filled + 1 = slicesAt level := by omega
      rw [same, Nat.mod_self] at more
      exact more rfl
    rw [Nat.mod_eq_of_lt later] at more ⊢
    have more : decide (filled + 1 = slicesAt level) = false := decide_eq_false (by omega)
    refine ⟨some_used, ?_, (served_first moves).2.trans target, ?_⟩
    · rw [served_next, refile_next _ _ (by rw [more]; exact fun never => absurd never (by decide)),
        next_of_modify _ _ _ (keeps_links_with_first first)]
      exact last
    · rw [(served_first moves).1]
      exact after later

end Partial

/-! ## The first slice of a new page -/

section NewPage

variable {framesNumber : Nat} {heap : Heap} {level m used k last : Nat}

theorem assign_page_next (heap : Heap) (m i j : Nat) (linked : Bool) (answer : Option Nat) :
    nextOf ((assignPage heap m i linked answer).managers m) j = nextOf (heap.managers m) j := by
  unfold assignPage initLinkedPage nextOf
  dsimp only
  split_ifs <;> cases answer <;>
    simp [Heap.modifyAlloc, Heap.modifyManager, Heap.setManager, Heap.setFrameAllocator, Heap.take,
      Manager.modify, apply_ite SliceAllocator.nextAllocator]

/-- The heap after the first slice of a page, from the one in which the page is
assigned. -/
theorem ManagerFilled.serve_first (state : ManagerFilled heap level m used 0 last)
    (room : used < endFlag) {heap' : Heap} (assigned : PageAssigned heap level m used k heap')
    (nexts : ∀ j, nextOf (heap'.managers m) j = nextOf (heap.managers m) j)
    {memory : Nat → Nat} {first : Nat}
    (outside : ∀ address, ¬InPage heap.base k address → memory address = heap'.memory address)
    (page : PageFilled level (fun j => memory (headerAt heap.base level k j)) first 1)
    (inUse : ∀ frame ∈ heap.framesInUse, frame ∈ heap'.framesInUse) :
    PageServed heap (servedHeap { heap' with memory := memory } m used first
        fun manager => manager.moveHead .free .pFull) m used k ∧
      ManagerFilled (servedHeap { heap' with memory := memory } m used first
        fun manager => manager.moveHead .free .pFull) level m (used + 1) 1 k := by
  have touches : Touches heap { heap' with memory := memory } m used k := by
    apply assigned.touches.trans (touches_memory m used _)
    rw [assigned.touches.base]
    exact outside
  have moves := move_head_moves .free .pFull
  have done : PageServed heap (servedHeap { heap' with memory := memory } m used first
      fun manager => manager.moveHead .free .pFull) m used k :=
    served_page moves k touches inUse assigned.inUse
  have apart : ListName.free ≠ ListName.pFull := by decide
  have free : (heap'.managers m).head .free = used := (assigned.heads .free).trans state.free
  have pFull : (heap'.managers m).head .pFull = endFlag := (assigned.heads .pFull).trans state.pFull
  refine ⟨done, ?_⟩
  constructor
  · exact done.touches.record.1.trans state.size
  · change (Manager.head _ .free) = used + 1
    rw [served_head, move_head_head _ apart, if_neg (by decide), if_pos rfl, head_modify, free,
      next_of_modify _ _ _ (keeps_links_with_first first), nexts]
    exact (state.unused used (Nat.le_refl used) room).2
  · intro i least inside
    obtain ⟨bare, next⟩ := state.unused i (by omega) inside
    have content := done.touches.contents i (by omega)
    refine ⟨(Prod.mk.inj (Prod.mk.inj content).2).2.trans bare, ?_⟩
    rw [served_next, move_head_next_of _ apart, head_modify, free, if_neg (by omega),
      next_of_modify _ _ _ (keeps_links_with_first first), nexts]
    exact next
  · change (Manager.head _ .pFull) = _
    rw [served_head, move_head_head _ apart, if_pos rfl, head_modify, free, if_neg (by decide),
      Nat.add_sub_cancel]
  · intro _
    refine ⟨Nat.succ_pos used, ?_, ?_, ?_⟩
    · rw [Nat.add_sub_cancel, served_next, move_head_next_of _ apart, head_modify, head_modify, free,
        if_pos rfl]
      exact pFull
    · rw [Nat.add_sub_cancel, (served_first moves).2]
      exact assigned.target
    · rw [Nat.add_sub_cancel, (served_first moves).1, done.touches.base]
      exact page

/-- The next free allocator gets a page and serves its first slice. -/
theorem ManagerFilled.first_slice (mapped : Mapped framesNumber heap) (bound : level < 8)
    (state : ManagerFilled heap level m used 0 last) (room : used < endFlag)
    (frame : k < framesNumber) (answers : List (Option Nat)) :
    ∃ heap', takeFree heap m (decide (level ≤ 4)) (some k :: answers) =
        some (sliceAt heap.base level k 0, heap') ∧
      PageServed heap heap' m used k ∧ ManagerFilled heap' level m (used + 1) 1 k := by
  have assigned : PageAssigned heap level m used k
      (assignPage heap m used (decide (level ≤ 4)) (some k)) :=
    assign_page_spec mapped bound state.size frame
  have nexts := fun j => assign_page_next heap m used j (decide (level ≤ 4)) (some k)
  have bare := (state.unused used (Nat.le_refl used) room).1
  have many := (slices_bounds bound).1
  have served : takeFree heap m (decide (level ≤ 4)) (some k :: answers) =
      some (takeFirst (assignPage heap m used (decide (level ≤ 4)) (some k)) m
        (decide (level ≤ 4))) := by
    rw [takeFree, state.free, ← targetOf, if_pos bare]
  have inUse : ∀ frame ∈ heap.framesInUse,
      frame ∈ (assignPage heap m used (decide (level ≤ 4)) (some k)).framesInUse := by
    intro other listed
    by_cases own : other = k
    · rw [own]
      exact assigned.inUse
    · exact assigned.touches.inUse other own listed
  rw [served]
  generalize assignPage heap m used (decide (level ≤ 4)) (some k) = heap' at *
  by_cases linked : level ≤ 4
  · rw [take_first_linked mapped linked frame assigned state.free]
    refine ⟨_, rfl, state.serve_first room assigned nexts
      (fun _ => store_outside (header_mem_page _ _ linked (by omega))) ?_ inUse⟩
    refine ⟨?_, fun high => absurd linked (Nat.not_le.mpr high)⟩
    intro _
    rw [assigned.headers linked 0 (by omega), if_neg (by omega)]
    refine ⟨rfl, ?_⟩
    intro j least inside
    rw [store_header, Function.update_of_ne (by omega)]
    exact assigned.headers linked j inside
  · rw [take_first_bitmap mapped (by omega) frame assigned state.free]
    exact ⟨_, rfl, state.serve_first room assigned nexts (fun _ _ => rfl)
      ⟨fun low => absurd low linked, fun _ => rfl⟩ inUse⟩

/-- All allocators of a new manager are free. -/
theorem new_manager_filled {next : Nat}
    (record : heap.managers m = newManager (sliceSizeAt level) next) (last : Nat) :
    ManagerFilled heap level m 0 0 last := by
  constructor
  · rw [record, newManager]
  · rw [record, newManager]
  · intro i _ inside
    rw [targetOf, nextOf, record]
    refine ⟨rfl, ?_⟩
    simp only [newManager, initialAllocator]
    unfold endFlag at *
    split_ifs with final
    · omega
    · rfl
  · rw [record, newManager]
    exact (if_pos rfl).symm
  · intro some_filled
    exact absurd rfl some_filled

end NewPage

end ChaoOS.DenseManagers
