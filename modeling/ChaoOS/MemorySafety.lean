import ChaoOS.MemoryRuns
import ChaoOS.ZoneLayout

/-!
# Memory safety from boot

Right after `init_normal_mem_zone` there is a frame for each manager that
`init_kmm` sets up, so the memory manager starts in a sound state, and with the
steps every run keeps its regions apart.
-/

namespace ChaoOS.MemorySafety

open ChaoOS.KernelMath ChaoOS.IndexList ChaoOS.GuardedRun ChaoOS.PageDirectory
open ChaoOS.SliceHeapModel ChaoOS.SliceHeapInvariant ChaoOS.SliceHeapMalloc
open ChaoOS.DyadicTiling ChaoOS.BuddyLayout ChaoOS.FrameTableModel ChaoOS.FrameTableAlloc
open ChaoOS.FrameTableInit ChaoOS.KernelHeap ChaoOS.HeapFrames ChaoOS.MemoryManager
open ChaoOS.MemoryRuns
open ChaoOS.FrameTableRuns (Block ClientSound client_accesses)
open ChaoOS.ZoneLayout (TableBelow tableRegion)

set_option autoImplicit false

/-! ## Single frames right after boot -/

/-- Only single frames have been handed out, and those are listed. -/
def OnlySingles (framesNumber : Nat) (zone : NormalMem) (frames : List Nat) : Prop :=
  zone.framesNumber = framesNumber ∧ ∃ free taken, Sound zone free taken ∧
    ∀ index level, taken index level → level = 0 ∧ index ∈ frames

section Boot

variable {base framesNumber : Nat} {zone : NormalMem} {frames : List Nat}

/-- A page that nobody has is part of a free block. -/
theorem free_block_left (singles : OnlySingles framesNumber zone frames)
    (few : frames.length < framesNumber) {free taken : Blocks} (sound : Sound zone free taken)
    (only : ∀ index level, taken index level → level = 0 ∧ index ∈ frames) :
    ∃ index level, free index level := by
  have number := singles.1
  obtain ⟨page, inside, unused⟩ : ∃ page, page < framesNumber ∧ page ∉ frames := by
    by_contra none_left
    push Not at none_left
    have all : List.range framesNumber ⊆ frames := fun page member =>
      none_left page (List.mem_range.mp member)
    have short := (List.subperm_of_subset List.nodup_range all).length_le
    rw [List.length_range] at short
    omega
  rw [← number] at inside
  obtain ⟨index, level, tile, low, high⟩ := sound.layout.tiling.covers inside
  rcases tile with isFree | isTaken
  · exact ⟨index, level, isFree⟩
  · obtain ⟨single, listed⟩ := only index level isTaken
    rw [single, pow_zero] at high
    have same : index = page := by omega
    exact absurd (same ▸ listed) unused

/-- A zone with a free block serves a request for one frame. -/
theorem single_frame_served {free taken : Blocks} (sound : Sound zone free taken)
    {index level : Nat} (isFree : free index level) :
    ∃ k zone', buddySystemGetFramePageBlock 0 zone = (some k, zone') := by
  have bound := sound.level_lt (Or.inl isFree)
  obtain ⟨nodes, threaded, members⟩ := sound.represents.lists level bound
  have listed : index ∈ nodes := (members index).mpr isFree
  have nonempty : zone.freeLists level ≠ zone.framesNumber := by
    have follows := threaded.follows
    cases nodes with
    | nil => exact absurd listed List.not_mem_nil
    | cons first rest =>
        rw [follows.1]
        exact follows.2.1
  obtain ⟨-, skipped, -⟩ := available_level_spec zone buddyMaxLevel 0 (by omega)
  have found : ¬buddyMaxLevel ≤ availableLevel zone buddyMaxLevel 0 := by
    intro exhausted
    exact nonempty (skipped level (Nat.zero_le _) (Nat.lt_of_lt_of_le bound exhausted))
  unfold buddySystemGetFramePageBlock
  dsimp only
  rw [if_neg found]
  exact ⟨_, _, rfl⟩

theorem single_frame_granted (singles : OnlySingles framesNumber zone frames)
    (few : frames.length < framesNumber) :
    ∃ k zone', frameAlloc 1 zone = some (some k, zone') ∧
      OnlySingles framesNumber zone' (k :: frames) := by
  obtain ⟨number, free, taken, sound, only⟩ := singles
  obtain ⟨index, level, isFree⟩ := free_block_left ⟨number, free, taken, sound, only⟩ few sound only
  obtain ⟨k, zone', call⟩ := single_frame_served sound isFree
  have asked : frameAlloc 1 zone = some (buddySystemGetFramePageBlock 0 zone) := rfl
  refine ⟨k, zone', by rw [asked, call], ?_⟩
  rcases get_block_sound sound 0 call with ⟨nothing, -⟩ | ⟨found, free', same, handed⟩
  · exact absurd nothing (by simp)
  · have here : found = k := (Option.some.inj same).symm
    subst here
    refine ⟨handed.number.trans number, free', _, handed.sound, ?_⟩
    intro other height taken'
    rcases taken' with before | ⟨sameStart, sameLevel⟩
    · obtain ⟨single, listed⟩ := only other height before
      exact ⟨single, List.mem_cons_of_mem _ listed⟩
    · rw [sameStart]
      exact ⟨sameLevel, List.mem_cons_self⟩

theorem single_frames_granted : ∀ {count : Nat} {zone : NormalMem} {frames : List Nat},
    OnlySingles framesNumber zone frames → count + frames.length ≤ framesNumber →
    ∃ answers zone', frameAnswers (List.replicate count 1) zone = some (answers, zone') ∧
      answers.all Option.isSome ∧ answers.length = count := by
  intro count
  induction count with
  | zero => exact fun _ _ => ⟨[], _, rfl, rfl, rfl⟩
  | succ count induction =>
      intro zone frames singles room
      obtain ⟨k, between, asked, after⟩ := single_frame_granted singles (by omega)
      obtain ⟨answers, last, answered, all, length⟩ :=
        induction after (by rw [List.length_cons]; omega)
      refine ⟨some k :: answers, last, ?_, ?_, ?_⟩
      · rw [List.replicate_succ, frameAnswers, asked, Option.bind_some, answered, Option.map_some]
      · rw [List.all_cons, all]
        rfl
      · rw [List.length_cons, length]

/-! ## The first state -/

theorem init_kmm_draws : ∀ (frames : List Nat) (level : Nat) (heap : Heap),
    (initKmm level (frames.map some) heap).framesInUse = frames.reverse ++ heap.framesInUse := by
  intro frames
  induction frames with
  | nil => intro level heap; rfl
  | cons k rest induction =>
      intro level heap
      rw [List.map_cons, initKmm, induction, List.reverse_cons, List.append_assoc]
      rfl

theorem heap_over_sound (pool : SliceHeapInvariant.Pool base framesNumber) (memory : Nat → Nat) :
    HeapSound False framesNumber (fun _ => []) (fun _ _ => .free)
      (heapOver (initNormalMemZone base framesNumber) memory) [] := by
  have noManager : ∀ {level m}, ¬Kept (fun _ => []) level m := fun kept =>
    absurd kept.2 List.not_mem_nil
  have sameBase : (heapOver (initNormalMemZone base framesNumber) memory).base = base :=
    (init_zone_keeps base framesNumber).1
  constructor
  case pool => rw [sameBase]; exact pool
  case physical =>
    intro k inside
    have identity := (init_zone_identity pool k).1
    rw [if_pos inside] at identity
    rw [sameBase]
    exact identity
  case chain => intro level _; rfl
  case home => exact fun _ _ kept => absurd kept noManager
  case size => exact fun _ _ kept => absurd kept noManager
  case threads => exact fun _ _ kept => absurd kept noManager
  case bare => exact fun _ _ _ kept => absurd kept noManager
  case held => exact fun _ _ _ kept => absurd kept noManager
  case listed => exact fun _ _ member => absurd member List.not_mem_nil
  case nodup => exact List.nodup_nil

/-- The memory manager after `init_kmm`. -/
def freshMemory (kernel : Kernel) : MemoryState := ⟨kernel, [], []⟩

/-- `init_kmm` gets all the frames it asks for. -/
theorem boot_returns (room : 1024 ≤ framesNumber) (bound : framesNumber ≤ 2 ^ 20) (base : Nat) :
    ∃ answers zone', frameAnswers (List.replicate pageSliceLevel 1)
        (initNormalMemZone base framesNumber) = some (answers, zone') ∧
      answers.all Option.isSome ∧ answers.length = pageSliceLevel := by
  obtain ⟨free, sound, number, -⟩ := init_zone_sound base framesNumber room bound
  have singles : OnlySingles framesNumber (initNormalMemZone base framesNumber) [] :=
    ⟨number, free, noBlocks, sound, fun _ _ taken => absurd taken id⟩
  have levels : pageSliceLevel = 8 := rfl
  exact single_frames_granted singles (by rw [levels, List.length_nil]; omega)

theorem boot_sound (pool : SliceHeapInvariant.Pool base framesNumber) (room : 1024 ≤ framesNumber)
    {memory : Nat → Nat} {start : Kernel}
    (boot : bootKernel base framesNumber memory = some start) :
    ∃ pages, MemorySound base framesNumber pages (freshMemory start) := by
  have bound : framesNumber ≤ 2 ^ 20 := by
    have mapped := pool.mapped
    unfold wordSize pageSize at mapped
    omega
  have wired := boot_kernel_wired pool boot
  obtain ⟨answers, zone', asked, all, length⟩ := boot_returns room bound base
  obtain ⟨frames, rfl⟩ := answers_granted all
  obtain ⟨⟨answers, zone''⟩, again, same⟩ := Option.map_eq_some_iff.mp boot
  obtain ⟨sameAnswers, sameZone⟩ := Prod.mk.inj (Option.some.inj (again.symm.trans asked))
  subst sameAnswers
  subst sameZone
  subst same
  rw [List.length_map] at length
  have fresh : ClientSound framesNumber ⟨initNormalMemZone base framesNumber, []⟩ :=
    FrameTableRuns.fresh_client_sound base framesNumber room bound
  obtain ⟨blocks, inside⟩ := frame_answers_granted fresh again
  rw [List.append_nil] at blocks
  have distinct : frames.Nodup := List.nodup_reverse.mp (List.Nodup.of_map _ blocks.nodup)
  obtain ⟨chains, place, heap⟩ := init_kmm_sound (heap_over_sound pool memory)
    ⟨distinct, fun k member => ⟨inside k member, List.not_mem_nil⟩⟩ 0
    (by rw [length]; decide) (fun _ _ => rfl)
  have drawn := init_kmm_draws frames 0 (heapOver (initNormalMemZone base framesNumber) memory)
  refine ⟨frames.reverse, wired, ?_, ⟨chains, place, ?_⟩, ?_⟩
  · exact blocks
  · have record : frames.reverse = (initKmm 0 (frames.map some)
        (heapOver (initNormalMemZone base framesNumber) memory)).framesInUse := by
      rw [drawn]
      exact (List.append_nil _).symm
    rw [record]
    exact heap
  · intro region member
    exact absurd member List.not_mem_nil

theorem memory_run_sound (pool : SliceHeapInvariant.Pool base framesNumber)
    (room : 1024 ≤ framesNumber) {memory : Nat → Nat} {start : Kernel}
    (boot : bootKernel base framesNumber memory = some start) {ops : List MemoryOp}
    {final : MemoryState} (permitted : Permitted memoryStep Permits (freshMemory start) ops)
    (run : runFrom memoryStep (freshMemory start) ops = some final) :
    ∃ pages, MemorySound base framesNumber pages final := by
  have preserved : ∀ memory op next, (∃ pages, MemorySound base framesNumber pages memory) →
      Permits memory op → memoryStep memory op = some next →
      ∃ pages, MemorySound base framesNumber pages next := by
    rintro memory op next ⟨pages, before⟩ permits step
    exact memory_step_sound before permits step
  exact run_invariant preserved (boot_sound pool room boot) permitted run

/-- What starts in the pool is behind the frame table and the fields after it. -/
theorem off_table {kernelEnd : Nat} (below : TableBelow kernelEnd base framesNumber)
    {region : Nat × Nat} (inPool : pageAt base 0 ≤ region.1) :
    RegionsApart (tableRegion kernelEnd framesNumber) region := by
  unfold TableBelow at below
  unfold pageAt at inPool
  left
  unfold tableRegion
  omega

/-- Slices, a kernel stack and frames, some of them given back. -/
def sampleMemoryOps : List MemoryOp :=
  [.kmalloc 100, .kmalloc 0x4000, .frames (.frameAlloc 1), .kmalloc 2048, .write 0xC0208005 7,
    .kmalloc 2048, .kfree 0xC0208005, .frames (.physicAlloc 8192), .kmalloc 0]

end Boot

end ChaoOS.MemorySafety
