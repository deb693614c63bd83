import ChaoOS.KernelHeap

/-!
# Refused frame requests

`alloc_one_page_mem_virtual` and `alloc_one_page_virtual` add `PAGE_OFFSET` to
what the buddy system answers without looking at it, and so does the last line
of `kmalloc`. A null answer is therefore taken for a page: a block request
returns `PAGE_OFFSET`, and a slice request goes on to change a manager.
-/

namespace ChaoOS.OutOfMemory

open ChaoOS.KernelMath ChaoOS.PageDirectory ChaoOS.SliceHeapModel ChaoOS.SliceHeapInvariant
open ChaoOS.FrameTableModel ChaoOS.KernelHeap

set_option autoImplicit false

/-- Null, with `kmms`, the managers and both halves of the frame table as they
were. -/
structure ReportsOutOfMemory (kernel : Kernel) (result : Nat × Kernel) : Prop where
  null : result.1 = 0
  allocMs : result.2.heap.allocMs = kernel.heap.allocMs
  managers : result.2.heap.managers = kernel.heap.managers
  owners : result.2.heap.frames = kernel.heap.frames
  table : result.2.zone.page = kernel.zone.page

/-! ## What a request for a page leaves behind -/

section Requests

variable {heap : Heap} {manager level : Nat} {linked : Bool} {answers : List (Option Nat)}

theorem answers_length {requests : List Nat} {zone : NormalMem}
    {answered : List (Option Nat) × NormalMem} (asked : frameAnswers requests zone = some answered) :
    answered.1.length = requests.length := by
  induction requests generalizing zone answered with
  | nil =>
      rw [← Option.some.inj asked]
      rfl
  | cons pages rest induction =>
      obtain ⟨first, -, later⟩ := Option.bind_eq_some_iff.mp asked
      obtain ⟨others, answered, same⟩ := Option.map_eq_some_iff.mp later
      rw [← same, List.length_cons, List.length_cons, induction answered]

theorem assign_page_free (index : Nat) (answer : Option Nat) :
    ((assignPage heap manager index linked answer).managers manager).free =
      (heap.managers manager).free := by
  unfold assignPage initLinkedPage
  dsimp only
  split_ifs <;> cases answer <;>
    simp [Heap.modifyAlloc, Heap.modifyManager, Heap.setManager, Heap.setFrameAllocator, Heap.take,
      Manager.modify]

theorem assign_page_alloc_ms (index : Nat) (answer : Option Nat) :
    (assignPage heap manager index linked answer).allocMs = heap.allocMs := by
  unfold assignPage
  dsimp only
  split_ifs <;> cases answer <;> rfl

theorem take_first_files :
    ((takeFirst heap manager linked).2.managers manager).pFull = (heap.managers manager).free := by
  unfold takeFirst
  cases linked <;>
    simp [Heap.modifyAlloc, Heap.modifyManager, Heap.setManager, Heap.storeByte, Manager.modify,
      Manager.moveHead, Manager.setHead, Manager.head]

theorem take_first_alloc_ms : (takeFirst heap manager linked).2.allocMs = heap.allocMs := by
  unfold takeFirst
  cases linked <;> rfl

/-- The allocator that gets the page becomes the first of the `p_full` list,
whatever the answer was. -/
theorem take_free_files {result : Nat × Heap}
    (call : takeFree heap manager linked answers = some result) :
    (result.2.managers manager).pFull = (heap.managers manager).free ∧
      result.2.allocMs = heap.allocMs := by
  unfold takeFree at call
  dsimp only at call
  split_ifs at call
  · cases answers with
    | nil => exact absurd call (by simp)
    | cons answer rest =>
        rw [← Option.some.inj call, take_first_files, take_first_alloc_ms, assign_page_free,
          assign_page_alloc_ms]
        exact ⟨rfl, rfl⟩
  · rw [← Option.some.inj call]
    exact ⟨take_first_files, take_first_alloc_ms⟩

theorem add_manager_head (heap : Heap) (level next : Nat) (answer : Option Nat) :
    (addManager heap level next answer).2.allocMs level = (addManager heap level next answer).1 :=
  if_pos rfl

theorem add_manager_free (heap : Heap) (level next : Nat) (answer : Option Nat) :
    ((addManager heap level next answer).2.managers
      (addManager heap level next answer).1).free = 0 := by
  simp only [addManager, Heap.setManager, if_true, newManager]

/-- A search that asks for a page changes `kmms` or a manager. The managers it
has passed over have no partially full allocator, and those it fills have one. -/
theorem helper_request_changes (fuel : Nat) {result : Nat × Heap}
    (mapped : ∀ answer, (addManager heap level (heap.allocMs level) answer).1 ≠ 0)
    (passed : heap.allocMs level = manager ∨
      (heap.managers (heap.allocMs level)).pFull = endFlag)
    (requests : 0 < frameRequests heap fuel manager)
    (call : kmallocHelper fuel manager level linked answers heap = some result) :
    ¬(result.2.allocMs = heap.allocMs ∧ result.2.managers = heap.managers) := by
  intro same
  obtain ⟨sameFirst, sameManagers⟩ := same
  induction fuel generalizing manager with
  | zero => exact absurd call (by simp [kmallocHelper])
  | succ fuel induction =>
      unfold kmallocHelper at call
      unfold frameRequests at requests
      split_ifs at call requests with last partly free
      · cases answers with
        | nil => exact absurd call (by simp)
        | cons answer rest =>
            obtain ⟨filled, first⟩ := take_free_files call
            have head : result.2.allocMs level =
                (addManager heap level (heap.allocMs level) answer).1 := by
              rw [first, add_manager_head]
            have fresh : (result.2.managers (heap.allocMs level)).pFull = 0 := by
              rw [← sameFirst, head, filled, add_manager_free]
            rcases passed with start | exhausted
            · rw [sameFirst, start, last] at head
              exact mapped answer head.symm
            · rw [sameManagers, exhausted] at fresh
              exact absurd fresh (by decide)
      · exact absurd requests (Nat.lt_irrefl 0)
      · have filled := (take_free_files call).1
        rw [sameManagers, not_not.mp partly] at filled
        exact free filled.symm
      · exact absurd requests (Nat.lt_irrefl 0)
      · apply induction _ requests call
        right
        rcases passed with start | exhausted
        · rw [start]
          exact not_not.mp partly
        · exact exhausted

theorem take_free_returns (offered : answers ≠ []) :
    (takeFree heap manager linked answers).isSome := by
  unfold takeFree
  dsimp only
  split_ifs
  · cases answers with
    | nil => exact absurd rfl offered
    | cons answer rest => rfl
  · rfl

/-- A search that asks for pages ends when all of them are answered. -/
theorem helper_request_returns (fuel : Nat) (requests : 0 < frameRequests heap fuel manager)
    (answered : answers.length = frameRequests heap fuel manager) :
    (kmallocHelper fuel manager level linked answers heap).isSome := by
  induction fuel generalizing manager with
  | zero => exact absurd requests (Nat.lt_irrefl 0)
  | succ fuel induction =>
      unfold frameRequests at requests answered
      unfold kmallocHelper
      split_ifs at requests answered ⊢
      · obtain ⟨first, second, both⟩ := List.length_eq_two.mp answered
        rw [both]
        exact take_free_returns (List.cons_ne_nil second [])
      · exact absurd requests (Nat.lt_irrefl 0)
      · apply take_free_returns
        intro empty
        rw [empty] at answered
        exact absurd answered (by decide)
      · exact absurd requests (Nat.lt_irrefl 0)
      · exact induction requests answered

end Requests

/-! ## Every refused request goes unreported -/

section Refusals

variable {base framesNumber : Nat} {kernel : Kernel}

/-- `PAGE_OFFSET` added to an answer is never null. -/
theorem offset_answer_ne_null (pool : Pool base framesNumber)
    (wired : Wired base framesNumber kernel) (answer : Option Nat) :
    add32 (answerAddress kernel.heap answer) pageOffset ≠ 0 := by
  cases answer with
  | none =>
      have offset : add32 0 pageOffset ≠ 0 := by decide
      exact offset
  | some k =>
      have positive : 0 < pageOffset := by decide
      rw [answerAddress, wired.physical]
      split_ifs with inside
      · have ends := pool.page_end inside
        rw [pageAt] at ends
        rw [add32_of_lt (by omega)]
        omega
      · have offset : add32 0 pageOffset ≠ 0 := by decide
        exact offset

theorem out_of_memory_unreported (pool : Pool base framesNumber)
    (reachable : Reachable base framesNumber kernel) {byteSize : Nat}
    (allowed : byteSize ≤ maxAlloc) {answers : List (Option Nat) × NormalMem}
    (asked : frameAnswers (requestedPages byteSize kernel.heap) kernel.zone = some answers)
    (refused : none ∈ answers.1) :
    ∃ result, kmallocOn byteSize kernel = some result ∧ ¬ReportsOutOfMemory kernel result := by
  have wired := reachable.wired pool
  have count := answers_length asked
  unfold kmallocOn kmalloc
  rw [if_neg (Nat.not_lt.mpr allowed), asked]
  dsimp only [Option.bind_some]
  rw [if_neg (Nat.not_lt.mpr allowed)]
  unfold requestedPages at count
  dsimp only at count
  split_ifs at count ⊢ with slices
  · rw [List.length_replicate] at count
    have requests := count ▸ List.length_pos_of_mem refused
    have returned : (kmallocHelper managerFuel
        (kernel.heap.allocMs (sliceLevel byteSize pageSliceLevel 0))
        (sliceLevel byteSize pageSliceLevel 0)
        (decide (sliceLevel byteSize pageSliceLevel 0 ≤ 4)) answers.1 kernel.heap).isSome :=
      helper_request_returns managerFuel requests count
    obtain ⟨served, call⟩ := Option.isSome_iff_exists.mp returned
    rw [call]
    refine ⟨_, rfl, ?_⟩
    intro reported
    exact helper_request_changes managerFuel (fun answer => offset_answer_ne_null pool wired answer)
      (Or.inl rfl) requests call ⟨reported.allocMs, reported.managers⟩
  · obtain ⟨answer, only⟩ := List.length_eq_one_iff.mp count
    rw [only]
    refine ⟨_, rfl, ?_⟩
    intro reported
    exact offset_answer_ne_null pool wired answer reported.null

end Refusals

/-- Right after `init_kmm` no block of 1024 frames is left in a pool of 1024. -/
theorem sample_boot_refuses : ∃ start answers,
    bootKernel 0x200000 1024 (fun _ => 0) = some start ∧
      frameAnswers (requestedPages 4194304 start.heap) start.zone = some answers ∧
      none ∈ answers.1 := by
  have refused : ((bootKernel 0x200000 1024 fun _ => 0).bind fun start =>
      (frameAnswers (requestedPages 4194304 start.heap) start.zone).map Prod.fst) =
        some [none] := by
    decide +kernel
  obtain ⟨start, boot, asked⟩ := Option.bind_eq_some_iff.mp refused
  obtain ⟨answers, answered, only⟩ := Option.map_eq_some_iff.mp asked
  exact ⟨start, answers, boot, answered, by rw [only]; exact List.mem_singleton_self none⟩

theorem out_of_memory_unreported_sample : ∃ start result,
    bootKernel 0x200000 1024 (fun _ => 0) = some start ∧
      kmallocOn 4194304 start = some result ∧ ¬ReportsOutOfMemory start result := by
  obtain ⟨start, answers, boot, asked, refused⟩ := sample_boot_refuses
  obtain ⟨result, served, unreported⟩ := out_of_memory_unreported sample_kernel_pool
    (reachable_boot boot) (by decide) asked refused
  exact ⟨start, result, boot, served, unreported⟩

/-- The refused block is handed out at `PAGE_OFFSET`. -/
theorem null_block_handed_out : ¬∀ base framesNumber kernel byteSize answers,
    Pool base framesNumber → Reachable base framesNumber kernel → byteSize ≤ maxAlloc →
      frameAnswers (requestedPages byteSize kernel.heap) kernel.zone = some answers →
      none ∈ answers.1 →
      ∃ result, kmallocOn byteSize kernel = some result ∧ ReportsOutOfMemory kernel result := by
  intro always
  obtain ⟨start, answers, boot, asked, refused⟩ := sample_boot_refuses
  obtain ⟨result, served, reported⟩ := always 0x200000 1024 start 4194304 answers
    sample_kernel_pool (reachable_boot boot) (by decide) asked refused
  have pointer : ((bootKernel 0x200000 1024 fun _ => 0).bind fun start =>
      (kmallocOn 4194304 start).map Prod.fst) = some 0xC0000000 := by
    decide +kernel
  rw [boot, Option.bind_some, served, Option.map_some, reported.null] at pointer
  exact absurd pointer (by decide)

end ChaoOS.OutOfMemory
