import ChaoOS.SliceHeapGrow

/-!
# `kmalloc` and `init_kmm`

Every request for a slice that is answered leaves the heap sound with one more
live pointer. A request is answered when the frame allocator has two frames to
offer, one for a manager and one for a page: the chain of managers is shorter
than the bound its search is given, since each manager fills a page of the pool.
-/

namespace ChaoOS.SliceHeapMalloc

open ChaoOS.KernelMath ChaoOS.IndexList ChaoOS.PageDirectory ChaoOS.SliceHeapModel
open ChaoOS.SliceLists ChaoOS.SlicePages ChaoOS.SliceHeapInvariant ChaoOS.SliceHeapAlloc
open ChaoOS.SliceHeapGrow

set_option autoImplicit false

/-- Frames of the pool that are not in use, as the frame allocator would offer
them one after the other. -/
def FreshFrames (framesNumber : Nat) (heap : Heap) (frames : List Nat) : Prop :=
  frames.Nodup ∧ ∀ k ∈ frames, k < framesNumber ∧ k ∉ heap.framesInUse

instance (framesNumber : Nat) (heap : Heap) (frames : List Nat) :
    Decidable (FreshFrames framesNumber heap frames) :=
  inferInstanceAs (Decidable (_ ∧ _))

/-- The request for `n` bytes was served, and its pointer is live. -/
def Served (tidy : Prop) (framesNumber : Nat) (live : List (Nat × Nat)) (n : Nat)
    (result : Nat × Heap) : Prop :=
  ∃ chains place, HeapSound tidy framesNumber chains place result.2 ((result.1, n) :: live)

theorem FreshFrames.tail {framesNumber k : Nat} {heap heap' : Heap} {rest : List Nat}
    (fresh : FreshFrames framesNumber heap (k :: rest))
    (used : heap'.framesInUse = k :: heap.framesInUse) : FreshFrames framesNumber heap' rest := by
  refine ⟨(List.nodup_cons.mp fresh.1).2, ?_⟩
  intro other member
  have facts := fresh.2 other (List.mem_cons_of_mem k member)
  rw [used, List.mem_cons, not_or]
  refine ⟨facts.1, ?_, facts.2⟩
  intro same
  rw [same] at member
  exact (List.nodup_cons.mp fresh.1).1 member

section Requests

variable {tidy : Prop} {framesNumber : Nat} {chains : Nat → List Nat}
  {place : Nat → Nat → ListName} {heap : Heap} {live : List (Nat × Nat)} {level m n : Nat}
  {frames : List Nat}

/-- A free allocator asks for one frame. -/
theorem take_free_served (sound : HeapSound tidy framesNumber chains place heap live)
    (kept : Kept chains level m) (nonempty : (heap.managers m).head .free ≠ endFlag)
    (fresh : FreshFrames framesNumber heap frames) (fits : n ≤ sliceSizeAt level) :
    (∀ result, takeFree heap m (decide (level ≤ 4)) (frames.map some) = some result →
        Served tidy framesNumber live n result) ∧
      (frames ≠ [] → (takeFree heap m (decide (level ≤ 4)) (frames.map some)).isSome) := by
  cases frames with
  | nil =>
      have inside := (sound.threads level m kept).head_mem nonempty
      have bare := sound.bare level m _ kept inside.1 inside.2
      refine ⟨?_, fun offered => absurd rfl offered⟩
      intro result served
      have none_left : takeFree heap m (decide (level ≤ 4)) [] = none := if_pos bare
      rw [List.map_nil, none_left] at served
      exact absurd served (by simp)
  | cons k rest =>
      have first := fresh.2 k List.mem_cons_self
      rcases take_free_sound sound kept nonempty first.1 first.2 fits (rest.map some) with
        ⟨result, place', served, after⟩
      rw [List.map_cons, served]
      refine ⟨?_, fun _ => rfl⟩
      intro other same
      rw [← Option.some.inj same]
      exact ⟨chains, place', after⟩

/-- A new manager serves its first request from a new page. -/
theorem new_manager_served (sound : HeapSound tidy framesNumber chains place heap live)
    (bound : level < 8) {k : Nat} {rest : List Nat}
    (fresh : FreshFrames framesNumber heap (k :: rest)) (fits : n ≤ sliceSizeAt level) :
    let added := addManager heap level (heap.allocMs level) (some k)
    (∀ result, takeFree added.2 added.1 (decide (level ≤ 4)) (rest.map some) = some result →
        Served tidy framesNumber live n result) ∧
      (rest ≠ [] → (takeFree added.2 added.1 (decide (level ≤ 4)) (rest.map some)).isSome) := by
  have first := fresh.2 k List.mem_cons_self
  rcases add_manager_added level sound.mapped first.1 with ⟨address, added⟩
  have after := added.sound sound bound first.1 first.2
  dsimp only
  rw [address]
  apply take_free_served after ((kept_cons bound).mpr (Or.inl ⟨rfl, rfl⟩)) _ _ fits
  · rw [added.manager]
    change 0 ≠ endFlag
    decide
  · exact fresh.tail added.inUse

/-- The search along the chain of managers. -/
theorem kmalloc_helper_served (sound : HeapSound tidy framesNumber chains place heap live)
    (bound : level < 8) (fresh : FreshFrames framesNumber heap frames)
    (fits : n ≤ sliceSizeAt level) (fuel : Nat) {nodes : List Nat}
    (follows : Follows (fun m => (heap.managers m).next) 0 m nodes)
    (listed : ∀ other ∈ nodes, other ∈ chains level) :
    (∀ result, kmallocHelper fuel m level (decide (level ≤ 4)) (frames.map some) heap = some result →
        Served tidy framesNumber live n result) ∧
      (nodes.length < fuel → 2 ≤ frames.length →
        (kmallocHelper fuel m level (decide (level ≤ 4)) (frames.map some) heap).isSome) := by
  induction fuel generalizing m nodes with
  | zero =>
      refine ⟨?_, fun short => absurd short (Nat.not_lt_zero _)⟩
      intro result served
      exact absurd served (by simp [kmallocHelper])
  | succ fuel induction =>
      unfold kmallocHelper
      cases nodes with
      | nil =>
          have last : m = 0 := follows
          rw [if_pos last]
          cases frames with
          | nil =>
              refine ⟨?_, fun _ offered => absurd offered (by simp)⟩
              intro result served
              exact absurd served (by simp)
          | cons k rest =>
              rcases new_manager_served sound bound fresh fits with ⟨served, returns⟩
              refine ⟨served, ?_⟩
              intro _ offered
              apply returns
              intro empty
              rw [empty] at offered
              exact absurd offered (by simp)
      | cons first rest =>
          have same : m = first := follows.1
          have kept : Kept chains level m := by
            rw [same]
            exact ⟨bound, listed first List.mem_cons_self⟩
          rw [if_neg (by rw [same]; exact follows.2.1)]
          split_ifs with partly free
          · refine ⟨?_, fun _ _ => rfl⟩
            intro result served
            rcases take_partial_sound sound kept partly fits with ⟨place', after⟩
            rw [← Option.some.inj served]
            exact ⟨chains, place', after⟩
          · rcases take_free_served sound kept free fresh fits with ⟨served, returns⟩
            refine ⟨served, ?_⟩
            intro _ offered
            apply returns
            intro empty
            rw [empty] at offered
            exact absurd offered (by decide)
          · have tail : Follows (fun m => (heap.managers m).next) 0 (heap.managers m).next rest := by
              rw [same]
              exact follows.2.2
            rcases induction tail fun other member => listed other (List.mem_cons_of_mem first member)
              with ⟨served, returns⟩
            refine ⟨served, ?_⟩
            intro short
            exact returns (Nat.lt_of_succ_lt_succ short)

/-- Each manager of a level fills a page of the pool. -/
theorem chain_short (sound : HeapSound tidy framesNumber chains place heap live) (bound : level < 8) :
    (chains level).length < managerFuel := by
  have inPool : chains level ⊆ (List.range framesNumber).map (pageAt heap.base) := by
    intro m listed
    rcases sound.home level m ⟨bound, listed⟩ with ⟨k, inside, _, address⟩
    rw [address]
    exact List.mem_map_of_mem (List.mem_range.mpr inside)
  have short := (List.subperm_of_subset (follows_nodup (sound.chain level bound)) inPool).length_le
  rw [List.length_map, List.length_range] at short
  exact Nat.lt_of_le_of_lt short sound.pool.frames_lt_fuel

end Requests

/-! ## The level of a request -/

theorem slice_level_spec (byteSize fuel level : Nat) (total : level + fuel = pageSliceLevel) :
    level ≤ sliceLevel byteSize fuel level ∧ sliceLevel byteSize fuel level ≤ pageSliceLevel ∧
      (sliceLevel byteSize fuel level < pageSliceLevel →
        byteSize ≤ sliceSizeAt (sliceLevel byteSize fuel level)) ∧
      ∀ lower, level ≤ lower → lower < sliceLevel byteSize fuel level →
        sliceSizeAt lower < byteSize := by
  induction fuel generalizing level with
  | zero =>
      have last : level = pageSliceLevel := total
      rw [sliceLevel]
      refine ⟨Nat.le_refl _, Nat.le_of_eq last, ?_, ?_⟩
      · intro below
        omega
      · intro lower low high
        omega
  | succ fuel induction =>
      rw [sliceLevel, if_pos (by omega)]
      split_ifs with fits
      · refine ⟨Nat.le_refl _, by omega, fun _ => fits, ?_⟩
        intro lower low high
        omega
      · rcases induction (level + 1) (by omega) with ⟨least, most, large, passed⟩
        refine ⟨by omega, most, large, ?_⟩
        intro lower low high
        rcases Nat.eq_or_lt_of_le low with same | later
        · rw [← same]
          exact Nat.lt_of_not_le fits
        · exact passed lower later high

theorem slice_level_bounds {byteSize : Nat} (small : byteSize ≤ 2048) :
    sliceLevel byteSize pageSliceLevel 0 < 8 ∧
      byteSize ≤ sliceSizeAt (sliceLevel byteSize pageSliceLevel 0) := by
  rcases slice_level_spec byteSize pageSliceLevel 0 (Nat.zero_add _) with ⟨_, most, large, passed⟩
  have below : sliceLevel byteSize pageSliceLevel 0 < pageSliceLevel := by
    apply Nat.lt_of_le_of_ne most
    intro last
    have largest := passed 7 (Nat.zero_le _) (by rw [last]; decide)
    have size : sliceSizeAt 7 = 2048 := by decide
    omega
  exact ⟨below, large below⟩

theorem large_slice_level {byteSize : Nat} (large : 2048 < byteSize) :
    ¬sliceLevel byteSize pageSliceLevel 0 < pageSliceLevel := by
  intro below
  obtain ⟨-, -, fits, -⟩ := slice_level_spec byteSize pageSliceLevel 0 (Nat.zero_add _)
  have widest : ∀ level, level < 8 → sliceSizeAt level ≤ 2048 := by decide
  exact absurd ((fits below).trans (widest _ below)) (Nat.not_le.mpr large)

/-! ## Whole requests and the start of a run -/

section Start

variable {tidy : Prop} {framesNumber : Nat} {chains : Nat → List Nat}
  {place : Nat → Nat → ListName} {heap : Heap} {live : List (Nat × Nat)} {n : Nat}
  {frames : List Nat}

theorem kmalloc_served (sound : HeapSound tidy framesNumber chains place heap live)
    (small : n ≤ 2048) (fresh : FreshFrames framesNumber heap frames) :
    (∀ result, kmalloc n (frames.map some) heap = some result →
        Served tidy framesNumber live n result) ∧
      (2 ≤ frames.length → (kmalloc n (frames.map some) heap).isSome) := by
  rcases slice_level_bounds small with ⟨bound, fits⟩
  have allowed : ¬maxAlloc < n := by
    have most : maxAlloc = 4194304 := by decide
    omega
  have short := chain_short sound bound
  rcases kmalloc_helper_served sound bound fresh fits managerFuel (sound.chain _ bound)
    (fun _ member => member) with ⟨served, returns⟩
  unfold kmalloc
  rw [if_neg allowed]
  dsimp only
  rw [if_pos (show sliceLevel n pageSliceLevel 0 < pageSliceLevel from bound)]
  exact ⟨served, returns short⟩

theorem boot_mapped {base : Nat} (pool : Pool base framesNumber) (memory : Nat → Nat) :
    Mapped framesNumber (bootHeap base memory) := by
  refine ⟨pool, ?_⟩
  intro k inside
  have ends := pool.page_end inside
  unfold pageAt at ends
  apply add32_of_lt
  omega

theorem boot_heap_sound {base : Nat} (pool : Pool base framesNumber) (memory : Nat → Nat) :
    HeapSound tidy framesNumber (fun _ => []) (fun _ _ => .free) (bootHeap base memory) [] := by
  have noManager : ∀ {level m}, ¬Kept (fun _ => []) level m := fun kept =>
    absurd kept.2 List.not_mem_nil
  constructor
  · exact pool
  · exact (boot_mapped pool memory).physical
  · intro level _
    rfl
  · exact fun _ _ kept => absurd kept noManager
  · exact fun _ _ kept => absurd kept noManager
  · exact fun _ _ kept => absurd kept noManager
  · exact fun _ _ _ kept => absurd kept noManager
  · exact fun _ _ _ kept => absurd kept noManager
  · exact fun _ _ member => absurd member List.not_mem_nil
  · exact List.nodup_nil

/-- `init_kmm` gives each level that has no manager yet a first one. -/
theorem init_kmm_sound (sound : HeapSound tidy framesNumber chains place heap live)
    (fresh : FreshFrames framesNumber heap frames) (level : Nat)
    (total : level + frames.length ≤ 8) (empty : ∀ other, level ≤ other → heap.allocMs other = 0) :
    ∃ chains' place', HeapSound tidy framesNumber chains' place'
      (initKmm level (frames.map some) heap) live := by
  induction frames generalizing chains place heap level with
  | nil => exact ⟨chains, place, sound⟩
  | cons k rest induction =>
      rw [List.length_cons] at total
      have first := fresh.2 k List.mem_cons_self
      rcases add_manager_added level sound.mapped first.1 with ⟨_, added⟩
      have after := added.sound sound (by omega) first.1 first.2
      rw [List.map_cons, initKmm, ← empty level (Nat.le_refl level)]
      apply induction after _ (level + 1) (by omega)
      · intro other above
        rw [added.allocMs, Function.update_of_ne (by omega)]
        exact empty other (by omega)
      · exact fresh.tail added.inUse

end Start

end ChaoOS.SliceHeapMalloc
