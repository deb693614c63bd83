import ChaoOS.KernelHeap
import ChaoOS.SliceHeapMalloc

/-!
# The slice heap draws frames and gives them back

The list of frames in use only records what the heap has taken: no call reads
it. So the heap behaves the same when the record holds the frames of the slice
heap alone, and what a call adds to the record or takes from it can be told from
the frames it was offered.
-/

namespace ChaoOS.HeapFrames

open ChaoOS.KernelMath ChaoOS.PageDirectory ChaoOS.SliceHeapModel ChaoOS.KernelHeap

set_option autoImplicit false

/-- The same heap with another record of its frames. -/
def withFrames (heap : Heap) (frames : List Nat) : Heap := { heap with framesInUse := frames }

section Records

variable {heap : Heap} {frames offered : List Nat}

theorem take_block_with_frames (heap : Heap) (count k : Nat) (frames : List Nat) :
    withFrames (heap.takeBlock count (some k)) frames = withFrames heap frames := rfl

theorem add_manager_with_frames (heap : Heap) (level next k : Nat) (frames : List Nat) :
    addManager (withFrames heap frames) level next (some k) =
      ((addManager heap level next (some k)).1,
        withFrames (addManager heap level next (some k)).2 (k :: frames)) := rfl

theorem assign_page_with_frames (heap : Heap) (manager index k : Nat) (linked : Bool)
    (frames : List Nat) :
    assignPage (withFrames heap frames) manager index linked (some k) =
      withFrames (assignPage heap manager index linked (some k)) (k :: frames) := by
  cases linked <;> rfl

theorem take_first_with_frames (heap : Heap) (manager : Nat) (linked : Bool)
    (frames : List Nat) :
    takeFirst (withFrames heap frames) manager linked =
      ((takeFirst heap manager linked).1, withFrames (takeFirst heap manager linked).2 frames) := by
  cases linked <;> rfl

theorem get_slice_with_frames (heap : Heap) (manager index sliceSize : Nat) (linked : Bool)
    (frames : List Nat) :
    getSliceAddr (withFrames heap frames) manager index sliceSize linked =
      ((getSliceAddr heap manager index sliceSize linked).1,
        (getSliceAddr heap manager index sliceSize linked).2.1,
        withFrames (getSliceAddr heap manager index sliceSize linked).2.2 frames) := by
  cases linked <;> rfl

theorem take_partial_with_frames (heap : Heap) (manager : Nat) (linked : Bool)
    (frames : List Nat) :
    takePartial (withFrames heap frames) manager linked =
      ((takePartial heap manager linked).1,
        withFrames (takePartial heap manager linked).2 frames) := by
  simp only [takePartial]
  have managers : (withFrames heap frames).managers = heap.managers := rfl
  rw [managers, get_slice_with_frames]
  dsimp only
  split_ifs <;> rfl

/-- The frames that a call has drawn stand before the others, the last one
first. -/
def Draws (offered : List Nat) (call : Heap → Option (Nat × Heap)) (heap : Heap)
    (result : Nat × Heap) : Prop :=
  ∃ count, ∀ frames, call (withFrames heap frames) =
    some (result.1, withFrames result.2 ((offered.take count).reverse ++ frames))

theorem take_free_draws {manager : Nat} {linked : Bool} {result : Nat × Heap}
    (call : takeFree heap manager linked (offered.map some) = some result) :
    Draws offered (fun heap => takeFree heap manager linked (offered.map some)) heap result := by
  unfold takeFree at call
  dsimp only at call
  split_ifs at call with bare
  · cases offered with
    | nil => exact absurd call (by simp)
    | cons k rest =>
        refine ⟨1, ?_⟩
        intro frames
        rw [← Option.some.inj call]
        unfold takeFree
        dsimp only
        have same : ((withFrames heap frames).managers manager) = heap.managers manager := rfl
        rw [same, if_pos bare]
        simp only [List.map_cons, assign_page_with_frames, take_first_with_frames, List.take_succ_cons,
          List.take_zero, List.reverse_singleton, List.singleton_append]
  · refine ⟨0, ?_⟩
    intro frames
    rw [← Option.some.inj call]
    unfold takeFree
    dsimp only
    have same : ((withFrames heap frames).managers manager) = heap.managers manager := rfl
    rw [same, if_neg bare, take_first_with_frames]
    rfl

theorem helper_draws (fuel : Nat) {manager level : Nat} {linked : Bool} {result : Nat × Heap}
    (call : kmallocHelper fuel manager level linked (offered.map some) heap = some result) :
    Draws offered (kmallocHelper fuel manager level linked (offered.map some)) heap result := by
  induction fuel generalizing manager with
  | zero => exact absurd call (by simp [kmallocHelper])
  | succ fuel induction =>
      have same : ∀ frames, (withFrames heap frames).managers manager = heap.managers manager :=
        fun _ => rfl
      unfold kmallocHelper at call
      split_ifs at call with last full free
      · cases offered with
        | nil => exact absurd call (by simp)
        | cons k rest =>
            obtain ⟨count, drawn⟩ := take_free_draws call
            refine ⟨count + 1, ?_⟩
            intro frames
            have step := drawn (k :: frames)
            unfold kmallocHelper
            rw [if_pos last]
            simp only [List.map_cons, List.take_succ_cons, List.reverse_cons, List.append_assoc,
              List.singleton_append]
            rw [add_manager_with_frames]
            exact step
      · refine ⟨0, ?_⟩
        intro frames
        rw [← Option.some.inj call]
        unfold kmallocHelper
        rw [if_neg last, same, if_pos full, take_partial_with_frames]
        rfl
      · obtain ⟨count, drawn⟩ := take_free_draws call
        refine ⟨count, ?_⟩
        intro frames
        unfold kmallocHelper
        rw [if_neg last, same, if_neg full, if_pos free]
        exact drawn frames
      · obtain ⟨count, drawn⟩ := induction call
        refine ⟨count, ?_⟩
        intro frames
        unfold kmallocHelper
        rw [if_neg last, same, if_neg full, if_neg free]
        exact drawn frames

/-- A request for a slice. -/
theorem kmalloc_draws {byteSize : Nat} {result : Nat × Heap} (small : byteSize ≤ 2048)
    (call : kmalloc byteSize (offered.map some) heap = some result) :
    Draws offered (kmalloc byteSize (offered.map some)) heap result := by
  have allowed : ¬maxAlloc < byteSize := by
    have most : maxAlloc = 4194304 := by decide
    omega
  have level := (SliceHeapMalloc.slice_level_bounds small).1
  unfold kmalloc at call
  rw [if_neg allowed] at call
  dsimp only at call
  rw [if_pos (show sliceLevel byteSize pageSliceLevel 0 < pageSliceLevel from level)] at call
  obtain ⟨count, drawn⟩ := helper_draws managerFuel call
  refine ⟨count, ?_⟩
  intro frames
  unfold kmalloc
  rw [if_neg allowed]
  dsimp only
  rw [if_pos (show sliceLevel byteSize pageSliceLevel 0 < pageSliceLevel from level)]
  exact drawn frames

/-! ## Giving a page back -/

theorem return_slice_with_frames (heap : Heap) (manager index address : Nat) (frames : List Nat) :
    returnSlice (withFrames heap frames) manager index address =
      withFrames (returnSlice heap manager index address) frames := by
  unfold returnSlice
  have same : (withFrames heap frames).managers manager = heap.managers manager := rfl
  dsimp only
  rw [same]
  split_ifs <;> rfl

/-- The count of free slices goes up by one, and the size stays. -/
theorem return_slice_count (heap : Heap) (manager index address : Nat) :
    let heap' := returnSlice (heap.modifyAlloc manager index countUp) manager index address
    ((heap'.managers manager).allocs index).avaiNum =
        (((heap.managers manager).allocs index).avaiNum + 1) % 256 ∧
      (heap'.managers manager).sliceSize = (heap.managers manager).sliceSize := by
  unfold returnSlice
  dsimp only
  split_ifs <;>
    simp [Heap.modifyAlloc, Heap.modifyManager, Heap.setManager, Heap.storeByte, Manager.modify,
      countUp]

/-- The record after `kfree`. -/
def givenBack (heap : Heap) (address : Nat) (frames : List Nat) : List Nat :=
  if EmptiesPage heap (allocatorOf heap address) then
    if sub32 (address &&& pageMask) pageOffset = 0 then frames
    else frames.erase (frameIndexOf heap address)
  else frames

theorem kfree_with_frames {address : Nat} (someAddress : address ≠ 0) (frames : List Nat) :
    kfree address (withFrames heap frames) =
      withFrames (kfree address heap) (givenBack heap address frames) := by
  obtain ⟨count, size⟩ := return_slice_count heap (managerOf (allocatorOf heap address))
    (indexOf (allocatorOf heap address)) address
  have start : (withFrames heap frames).modifyAlloc (managerOf (allocatorOf heap address))
      (indexOf (allocatorOf heap address)) countUp =
      withFrames (heap.modifyAlloc (managerOf (allocatorOf heap address))
        (indexOf (allocatorOf heap address)) countUp) frames := rfl
  have entry : ((withFrames heap frames).frames
      (.entry (frameIndexOf (withFrames heap frames) address))).allocator =
        allocatorOf heap address := rfl
  have own : (heap.frames (.entry (frameIndexOf heap address))).allocator =
      allocatorOf heap address := rfl
  have index : frameIndexOf (withFrames heap frames) address = frameIndexOf heap address := rfl
  unfold kfree
  rw [if_neg someAddress, if_neg someAddress]
  dsimp only
  rw [entry, own, index, start, return_slice_with_frames]
  generalize returned : returnSlice (heap.modifyAlloc (managerOf (allocatorOf heap address))
    (indexOf (allocatorOf heap address)) countUp) (managerOf (allocatorOf heap address))
    (indexOf (allocatorOf heap address)) address = heap' at *
  have managers : (withFrames heap' frames).managers = heap'.managers := rfl
  have emptied : sliceSum (heap'.managers (managerOf (allocatorOf heap address))).sliceSize =
      ((heap'.managers (managerOf (allocatorOf heap address))).allocs
        (indexOf (allocatorOf heap address))).avaiNum ↔
      EmptiesPage heap (allocatorOf heap address) := by
    rw [count, size]
    rfl
  simp only [managers, givenBack, emptied]
  split_ifs with empties null fresh
  · unfold givePage
    rw [if_pos null, if_pos null]
    rfl
  · unfold givePage
    rw [if_neg null, if_neg null]
    rfl
  · rfl
  · rfl

end Records

end ChaoOS.HeapFrames
