import ChaoOS.GuardedRun
import ChaoOS.SliceHeapFree

/-!
# Runs of the slice heap

A client asks for slices, frees pointers it holds and writes into its own
regions; the frame allocator offers frames that are not in use. The heap stays
sound along every such run, except that `kfree` can take an allocator of the
full list for the first one of the `p_full` list, and that it does not link a
returned slice to the rest of its chain.
-/

namespace ChaoOS.SliceHeapRuns

open ChaoOS.KernelMath ChaoOS.IndexList ChaoOS.PageDirectory ChaoOS.SliceHeapModel
open ChaoOS.SliceLists ChaoOS.SlicePages ChaoOS.SliceHeapInvariant ChaoOS.SliceHeapMalloc
open ChaoOS.SliceHeapFree ChaoOS.GuardedRun

set_option autoImplicit false

/-! ## Clients -/

/-- The live pointers are kept with the sizes they were asked for. -/
structure HeapClient where
  heap : Heap
  live : List (Nat × Nat)

/-- A request comes with the frames that the frame allocator offers during it. -/
inductive HeapOp where
  | kmalloc (byteSize : Nat) (frames : List Nat)
  | kfree (address : Nat)
  | write (address value : Nat)

def heapStep (client : HeapClient) : HeapOp → Option HeapClient
  | .kmalloc byteSize frames =>
      (kmalloc byteSize (frames.map some) client.heap).map fun result =>
        ⟨result.2, (result.1, byteSize) :: client.live⟩
  | .kfree address => some ⟨kfree address client.heap, dropPointer address client.live⟩
  | .write address value => some { client with heap := client.heap.storeByte address value }

/-- The client after `init_kmm` got `frames` for the first managers. -/
def freshClient (base : Nat) (memory : Nat → Nat) (frames : List Nat) : HeapClient :=
  ⟨initKmm 0 (frames.map some) (bootHeap base memory), []⟩

/-- Requests of at least `low` and at most `high` bytes, frees of live pointers
and writes into live regions. -/
def WellBehaved (framesNumber low high : Nat) (client : HeapClient) : HeapOp → Prop
  | .kmalloc byteSize frames =>
      low ≤ byteSize ∧ byteSize ≤ high ∧ FreshFrames framesNumber client.heap frames
  | .kfree address => address ∈ client.live.map Prod.fst
  | .write address _ => ∃ region ∈ client.live, region.1 ≤ address ∧ address < region.1 + region.2

/-- The operation is not a `kfree` in a state where `bad` holds of its pointer. -/
def Avoids (bad : Heap → Nat → Prop) (client : HeapClient) : HeapOp → Prop
  | .kfree address => ¬bad client.heap address
  | _ => True

instance (framesNumber low high : Nat) (client : HeapClient) :
    (op : HeapOp) → Decidable (WellBehaved framesNumber low high client op)
  | .kmalloc _ _ => inferInstanceAs (Decidable (_ ∧ _ ∧ _))
  | .kfree _ => inferInstanceAs (Decidable (_ ∈ _))
  | .write _ _ => inferInstanceAs (Decidable (∃ region ∈ _, _))

instance (bad : Heap → Nat → Prop) [∀ heap address, Decidable (bad heap address)]
    (client : HeapClient) : (op : HeapOp) → Decidable (Avoids bad client op)
  | .kmalloc _ _ => inferInstanceAs (Decidable True)
  | .kfree _ => inferInstanceAs (Decidable (¬_))
  | .write _ _ => inferInstanceAs (Decidable True)

def ClientSound (tidy : Prop) (framesNumber : Nat) (client : HeapClient) : Prop :=
  ∃ chains place, HeapSound tidy framesNumber chains place client.heap client.live

section Steps

variable {tidy : Prop} {framesNumber : Nat}

/-- A write into a live region reaches no header byte. -/
theorem write_sound {chains : Nat → List Nat} {place : Nat → Nat → ListName} {heap : Heap}
    {live : List (Nat × Nat)} (sound : HeapSound tidy framesNumber chains place heap live)
    {ptr n address : Nat} (value : Nat) (member : (ptr, n) ∈ live) (low : ptr ≤ address)
    (high : address < ptr + n) :
    HeapSound tidy framesNumber chains place (heap.storeByte address value) live := by
  have listed : ptr ∈ live.map Prod.fst := List.mem_map_of_mem member
  rcases live_pointer sound listed with ⟨level, m, i, k, j, pointer⟩
  rcases pointer.fits with ⟨size, again, fits⟩
  have sameSize : size = n := by
    have injective := List.inj_on_of_nodup_map sound.nodup again member rfl
    exact congrArg Prod.snd injective
  rw [sameSize] at fits
  have here : InPage heap.base k address := by
    have range := slice_in_page heap.base k pointer.kept.1 pointer.slice
    rw [← pointer.address] at range
    unfold InPage
    omega
  have target := pointer.held.target
  refine ⟨sound.pool, sound.physical, sound.chain, sound.home, sound.size, sound.threads, sound.bare,
    ?_, sound.listed, sound.nodup⟩
  intro level' m' i' kept' inside' notFree'
  rcases sound.held level' m' i' kept' inside' notFree' with ⟨frame, held, apart⟩
  refine ⟨frame, ⟨held.inside, held.inUse, held.target, held.owner, ?_⟩, apart⟩
  apply held.page.congr
  intro linked slice sliceInside
  change store heap.memory address value (headerAt heap.base level' frame slice) = _
  rw [store, if_neg]
  intro same
  have sameFrame : frame = k := by
    apply page_unique (header_mem_page heap.base frame linked sliceInside)
    rw [same]
    exact here
  have owner := sound.owner_unique pointer.kept pointer.inside target kept' inside'
    (by rw [← sameFrame]; exact held.target)
  rw [owner.1] at kept'
  rw [sound.level_unique pointer.kept kept', sameFrame] at same
  rw [sound.level_unique pointer.kept kept'] at linked
  rw [pointer.address] at low high
  exact header_not_in_slice linked low (by omega) same

theorem client_step_sound {client next : HeapClient} {op : HeapOp} {low high : Nat}
    (sound : ClientSound tidy framesNumber client) (bounded : high ≤ 2048)
    (behaved : WellBehaved framesNumber low high client op)
    (exact_chain : tidy → Avoids DropsChain client op)
    (expected : ¬tidy → Avoids ReleasesFullHead client op)
    (step : heapStep client op = some next) : ClientSound tidy framesNumber next := by
  rcases sound with ⟨chains, place, heapSound⟩
  cases op with
  | kmalloc byteSize frames =>
      rcases behaved with ⟨_, small, fresh⟩
      rcases Option.map_eq_some_iff.mp step with ⟨result, returned, same⟩
      rw [← same]
      exact (kmalloc_served heapSound (by omega) fresh).1 result returned
  | kfree address =>
      rw [← Option.some.inj step]
      rcases kfree_sound heapSound behaved exact_chain expected with ⟨place', after⟩
      exact ⟨chains, place', after⟩
  | write address value =>
      rw [← Option.some.inj step]
      rcases behaved with ⟨⟨ptr, n⟩, member, low, high⟩
      exact ⟨chains, place, write_sound heapSound value member low high⟩

/-- Frames for the first managers of all eight levels. -/
structure BootFrames (framesNumber : Nat) (frames : List Nat) : Prop where
  count : frames.length = 8
  nodup : frames.Nodup
  inside : ∀ k ∈ frames, k < framesNumber

theorem fresh_client_sound {base : Nat} (pool : Pool base framesNumber) (memory : Nat → Nat)
    {frames : List Nat} (boot : BootFrames framesNumber frames) :
    ClientSound tidy framesNumber (freshClient base memory frames) := by
  apply init_kmm_sound (boot_heap_sound pool memory) _ 0
  · rw [boot.count]
  · intro _ _
    rfl
  · refine ⟨boot.nodup, ?_⟩
    intro k member
    exact ⟨boot.inside k member, List.not_mem_nil⟩

end Steps

/-! ## Where the live regions are -/

/-- The managers a search from the head of `level` meets. -/
def Manages (heap : Heap) (level m : Nat) : Prop :=
  level < pageSliceLevel ∧
    ∃ nodes, Follows (fun m => (heap.managers m).next) 0 (heap.allocMs level) nodes ∧ m ∈ nodes

/-- Some allocator has the frame as its page. -/
def HoldsFrame (heap : Heap) (k : Nat) : Prop :=
  ∃ level m i, Manages heap level m ∧ i < endFlag ∧
    ((heap.managers m).allocs i).targetPage = .entry k

/-- Every live region is inside the page of a held frame, and no two overlap. -/
structure RegionsSafe (client : HeapClient) : Prop where
  inside : ∀ region ∈ client.live, ∃ k, HoldsFrame client.heap k ∧
    pageAddressOf client.heap (.entry k) ≤ region.1 ∧
    region.1 + region.2 ≤ pageAddressOf client.heap (.entry k) + pageSize
  apart : client.live.Pairwise fun left right =>
    left.1 + left.2 ≤ right.1 ∨ right.1 + right.2 ≤ left.1

section Regions

variable {tidy : Prop} {framesNumber : Nat} {chains : Nat → List Nat}
  {place : Nat → Nat → ListName} {heap : Heap} {live : List (Nat × Nat)}

theorem manages_iff (sound : HeapSound tidy framesNumber chains place heap live) {level m : Nat} :
    Manages heap level m ↔ Kept chains level m := by
  constructor
  · intro managed
    rcases managed with ⟨bound, nodes, follows, listed⟩
    rw [follows_unique follows (sound.chain level bound)] at listed
    exact ⟨bound, listed⟩
  · intro kept
    exact ⟨kept.1, chains level, sound.chain level kept.1, kept.2⟩

/-- Slices of different pointers do not overlap. -/
theorem pointers_apart (sound : HeapSound tidy framesNumber chains place heap live)
    {left right : Nat × Nat} (leftLive : left ∈ live) (rightLive : right ∈ live)
    (different : left.1 ≠ right.1) :
    left.1 + left.2 ≤ right.1 ∨ right.1 + right.2 ≤ left.1 := by
  rcases sound.listed left.1 left.2 leftLive with
    ⟨level, m, i, k, j, kept, inside, _, target, slice, address, fits⟩
  rcases sound.listed right.1 right.2 rightLive with
    ⟨level', m', i', k', j', kept', inside', _, target', slice', address', fits'⟩
  by_cases sameFrame : k' = k
  · rw [sameFrame] at target' address'
    have owner := sound.owner_unique kept inside target kept' inside' target'
    rw [owner.1] at kept'
    rw [sound.level_unique kept kept'] at address' fits'
    rcases Nat.lt_trichotomy j j' with below | same | above
    · have ordered := slice_apart heap.base k level below
      left
      omega
    · rw [same] at address
      exact absurd (address.trans address'.symm) different
    · have ordered := slice_apart heap.base k level above
      right
      omega
  · have range := slice_in_page heap.base k kept.1 slice
    have range' := slice_in_page heap.base k' kept'.1 slice'
    rw [address, address']
    unfold pageAt at range range'
    rcases Nat.lt_or_gt_of_ne sameFrame with below | above
    · have pages : (k' + 1) * pageSize ≤ k * pageSize := Nat.mul_le_mul_right _ below
      rw [Nat.succ_mul] at pages
      right
      omega
    · have pages : (k + 1) * pageSize ≤ k' * pageSize := Nat.mul_le_mul_right _ above
      rw [Nat.succ_mul] at pages
      left
      omega

theorem client_regions_safe {client : HeapClient} (sound : ClientSound tidy framesNumber client) :
    RegionsSafe client := by
  rcases sound with ⟨chains, place, heapSound⟩
  constructor
  · intro region member
    rcases heapSound.listed region.1 region.2 member with
      ⟨level, m, i, k, j, kept, inside, _, target, slice, address, fits⟩
    rcases heapSound.held_at kept inside target with ⟨_, held, _⟩
    have range := slice_in_page client.heap.base k kept.1 slice
    refine ⟨k, ⟨level, m, i, (manages_iff heapSound).mpr kept, inside, target⟩, ?_⟩
    rw [heapSound.page_address held.inside, address]
    exact ⟨range.1, by omega⟩
  · have distinct := List.pairwise_map.mp heapSound.nodup
    exact distinct.imp_of_mem fun leftLive rightLive different =>
      pointers_apart heapSound leftLive rightLive different

end Regions

/-- Along every run in which no `kfree` empties the page of the first allocator
of a full list, the live regions are inside held pages and do not overlap. -/
theorem guarded_run_regions_safe {base framesNumber : Nat} (pool : Pool base framesNumber)
    (memory : Nat → Nat) {frames : List Nat} (boot : BootFrames framesNumber frames)
    {ops : List HeapOp} {final : HeapClient}
    (permitted : Permitted heapStep
      (fun client op => WellBehaved framesNumber 0 2048 client op ∧ Avoids ReleasesFullHead client op)
      (freshClient base memory frames) ops)
    (run : runFrom heapStep (freshClient base memory frames) ops = some final) :
    RegionsSafe final := by
  have sound : ClientSound False framesNumber final := by
    apply run_invariant _ (fresh_client_sound pool memory boot) permitted run
    intro client op next before allowed step
    exact client_step_sound before (Nat.le_refl _) allowed.1 False.elim (fun _ => allowed.2) step
  exact client_regions_safe sound

theorem sample_pool : Pool 0x200000 64 := ⟨by decide, by decide⟩

theorem sample_boot : BootFrames 64 (List.range 8) := ⟨rfl, by decide, by decide⟩

theorem guarded_run_regions_safe_sample : ∃ final,
    runFrom heapStep (freshClient 0x200000 (fun _ => 0) (List.range 8))
      [.kmalloc 100 [8], .kmalloc 100 [], .kmalloc 2048 [9], .write 0xC0208005 7,
        .kfree 0xC0208005, .kmalloc 0 [10]] = some final ∧ RegionsSafe final := by
  have returns : (runFrom heapStep (freshClient 0x200000 (fun _ => 0) (List.range 8))
      [.kmalloc 100 [8], .kmalloc 100 [], .kmalloc 2048 [9], .write 0xC0208005 7,
        .kfree 0xC0208005, .kmalloc 0 [10]]).isSome := by
    decide +kernel
  rcases Option.isSome_iff_exists.mp returns with ⟨final, run⟩
  refine ⟨final, run, ?_⟩
  apply guarded_run_regions_safe sample_pool _ sample_boot _ run
  decide +kernel

/-- Fifteen slices fill the page at frame 8. Three more are on the page at frame 9;
the first of them is freed and taken again, which puts that page on the full
list too early. Freeing all three releases it from there, and the full page at
frame 8 becomes the first of the `p_full` list. -/
def staleHeadOps : List HeapOp :=
  .kmalloc 256 [8] :: List.replicate 14 (.kmalloc 256 []) ++
    [.kmalloc 256 [9], .kmalloc 256 [], .kmalloc 256 [], .kfree 0xC0209005, .kmalloc 256 [],
      .kfree 0xC0209005, .kfree 0xC0209106, .kfree 0xC0209207, .kmalloc 256 []]

/-- A level with one manager. -/
theorem manages_single {heap : Heap} {level m : Nat} (only : heap.allocMs level ≠ 0)
    (last : (heap.managers (heap.allocMs level)).next = 0) (managed : Manages heap level m) :
    m = heap.allocMs level := by
  rcases managed with ⟨_, nodes, follows, listed⟩
  have chain : Follows (fun m => (heap.managers m).next) 0 (heap.allocMs level)
      [heap.allocMs level] := ⟨rfl, only, last⟩
  rw [follows_unique follows chain] at listed
  exact List.mem_singleton.mp listed

/-- After that run a request is answered with a pointer outside all held pages. -/
theorem stale_head_wild_pointer : ¬∀ base framesNumber memory frames, Pool base framesNumber →
    BootFrames framesNumber frames → ∀ ops final,
      Permitted heapStep (WellBehaved framesNumber 0 2048) (freshClient base memory frames) ops →
      runFrom heapStep (freshClient base memory frames) ops = some final → RegionsSafe final := by
  intro always
  have reached : (runFrom heapStep (freshClient 0x200000 (fun _ => 0) (List.range 8))
      staleHeadOps).map (fun client => (client.live.head?,
        decide (∀ level : Nat, level < pageSliceLevel → client.heap.allocMs level ≠ 0 ∧
          (client.heap.managers (client.heap.allocMs level)).next = 0),
        decide (∀ level : Nat, level < pageSliceLevel → ∀ i : Nat, i < endFlag →
          ((client.heap.managers (client.heap.allocMs level)).allocs i).targetPage ∈
            [FramePtr.null, FramePtr.entry 8]), pageAddressOf client.heap (.entry 8))) =
      some (some (0xC0218004, 256), true, true, 0xC0208000) := by
    decide +kernel
  rcases Option.map_eq_some_iff.mp reached with ⟨final, run, facts⟩
  have safe := always 0x200000 64 (fun _ => 0) (List.range 8) sample_pool sample_boot staleHeadOps final
    (by decide +kernel) run
  simp only [Prod.mk.injEq, decide_eq_true_eq] at facts
  rcases facts with ⟨pointer, single, targets, page⟩
  rcases safe.inside _ (List.mem_of_mem_head? pointer) with ⟨k, ⟨level, m, i, managed, inside, target⟩, low, high⟩
  rw [manages_single (single level managed.1).1 (single level managed.1).2 managed] at target
  have held := targets level managed.1 i inside
  rw [target] at held
  have frame : k = 8 := by simpa using held
  rw [frame, page] at high
  exact absurd high (by decide)

end ChaoOS.SliceHeapRuns
