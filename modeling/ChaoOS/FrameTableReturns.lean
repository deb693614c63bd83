import ChaoOS.FrameTableGrants

/-!
# What a release does to a well-formed table

The contract of a release speaks of the flags, the levels and the links of the
entries. The index and the address an entry carries play no part in it: a
release neither reads nor writes them, so it does the same to the table whose
entries carry the right ones, and that table is sound.
-/

namespace ChaoOS.FrameTableReturns

open ChaoOS.KernelMath ChaoOS.IndexList ChaoOS.DyadicTiling ChaoOS.BuddyLayout
open ChaoOS.BlockPacking ChaoOS.FrameTableModel ChaoOS.FrameTableBlocks
open ChaoOS.FrameTableAlloc ChaoOS.FrameTableFree ChaoOS.FrameTableInit
open ChaoOS.FrameTableGrants

set_option autoImplicit false

/-! ## The index and address fields -/

def identifiedFrame (base index : Nat) (frame : PageFrame) : PageFrame :=
  { frame with index := index, physicAddr := add32 base (index * pageFrameSize) }

/-- The same table with its own index and address in every entry. -/
def identified (mem : NormalMem) : NormalMem :=
  { mem with frames := fun index => identifiedFrame mem.base index (mem.frames index) }

/-- A change of an entry that has nothing to do with its index and address. -/
def Anonymous (change : PageFrame → PageFrame) : Prop :=
  ∀ base index frame,
    identifiedFrame base index (change frame) = change (identifiedFrame base index frame)

section Identified

variable (mem : NormalMem) (index other level value : Nat) {change : PageFrame → PageFrame}

theorem identified_page_outside (outside : ¬other < mem.framesNumber) :
    (identified mem).page other = mem.page other := by
  have outside' : ¬other < (identified mem).framesNumber := outside
  rw [NormalMem.page, NormalMem.page, if_neg outside, if_neg outside']

theorem identified_page (inside : other < mem.framesNumber) :
    (identified mem).page other = identifiedFrame mem.base other (mem.page other) := by
  have inside' : other < (identified mem).framesNumber := inside
  rw [NormalMem.page, NormalMem.page, if_pos inside, if_pos inside']
  rfl

/-- A field other than these two reads the same. -/
theorem identified_field {Field : Type*} (field : PageFrame → Field)
    (apart : ∀ base index frame, field (identifiedFrame base index frame) = field frame) :
    field ((identified mem).page other) = field (mem.page other) := by
  by_cases inside : other < mem.framesNumber
  · rw [identified_page mem other inside, apart]
  · rw [identified_page_outside mem other inside]

@[simp] theorem identified_flags :
    ((identified mem).page other).flags = (mem.page other).flags :=
  identified_field mem other PageFrame.flags fun _ _ _ => rfl

@[simp] theorem identified_level :
    ((identified mem).page other).level = (mem.page other).level :=
  identified_field mem other PageFrame.level fun _ _ _ => rfl

@[simp] theorem identified_prev_frame :
    ((identified mem).page other).prevFrame = (mem.page other).prevFrame :=
  identified_field mem other PageFrame.prevFrame fun _ _ _ => rfl

@[simp] theorem identified_next_frame :
    ((identified mem).page other).nextFrame = (mem.page other).nextFrame :=
  identified_field mem other PageFrame.nextFrame fun _ _ _ => rfl

@[simp] theorem identified_frames_number : (identified mem).framesNumber = mem.framesNumber := rfl

@[simp] theorem identified_free_lists : (identified mem).freeLists = mem.freeLists := rfl

theorem identified_read : (identified mem).read index = identified (mem.read index) := rfl

theorem identified_set_free_list :
    (identified mem).setFreeList level value = identified (mem.setFreeList level value) := rfl

theorem identified_modify (anonymous : Anonymous change) :
    (identified mem).modify index change = identified (mem.modify index change) := by
  have frames : ((identified mem).modify index change).frames =
      (identified (mem.modify index change)).frames := by
    funext other
    simp only [identified, NormalMem.modify]
    split_ifs
    · exact (anonymous mem.base other (mem.frames other)).symm
    · rfl
  exact congrArg (fun frames => { mem.modify index change with frames := frames }) frames

theorem identified_modify_inside (anonymous : Anonymous change) :
    (identified mem).modifyInside index change = identified (mem.modifyInside index change) := by
  unfold NormalMem.modifyInside
  rw [identified_frames_number]
  split_ifs
  · exact identified_modify mem index anonymous
  · rfl

theorem identified_bypass :
    (identified mem).bypass level index value = identified (mem.bypass level index value) := by
  unfold NormalMem.bypass
  rw [identified_frames_number]
  split_ifs
  · rfl
  · exact identified_modify mem index fun _ _ _ => rfl

theorem identified_merge_buddy (held : Nat) :
    mergeBuddy (identified mem) level held other = identified (mergeBuddy mem level held other) := by
  unfold mergeBuddy
  simp only [identified_read, identified_prev_frame, identified_next_frame, identified_bypass]
  rw [identified_modify_inside _ _ fun _ _ _ => rfl, identified_modify _ _ fun _ _ _ => rfl,
    identified_modify _ _ fun _ _ _ => rfl, identified_modify _ _ fun _ _ _ => rfl]

theorem identified_release_block :
    releaseBlock (identified mem) index level = identified (releaseBlock mem index level) := by
  unfold releaseBlock
  dsimp only
  rw [identified_modify _ _ fun _ _ _ => rfl, identified_modify _ _ fun _ _ _ => rfl]
  rw [identified_free_lists, identified_modify _ _ fun _ _ _ => rfl,
    identified_modify_inside _ _ fun _ _ _ => rfl, identified_frames_number,
    identified_modify _ _ fun _ _ _ => rfl, identified_set_free_list]

theorem identified_coalesce (fuel : Nat) :
    coalesce fuel (identified mem) index level =
      (identified (coalesce fuel mem index level).1, (coalesce fuel mem index level).2) := by
  induction fuel generalizing mem index level with
  | zero => rfl
  | succ fuel induction =>
      rw [coalesce, coalesce]
      simp only [identified_read, identified_level, identified_flags, identified_merge_buddy]
      split_ifs
      · exact induction _ _ _
      · rfl
      · rfl

/-- A release neither reads nor writes the index and the address of an entry. -/
theorem identified_free_block :
    buddySystemFreeFramePageBlock index (identified mem) =
      ((buddySystemFreeFramePageBlock index mem).1,
        identified (buddySystemFreeFramePageBlock index mem).2) := by
  unfold buddySystemFreeFramePageBlock
  simp only [identified_read, identified_frames_number, identified_flags, identified_level,
    identified_coalesce, identified_release_block]
  split_ifs <;> rfl

theorem coalesce_identity (fuel : Nat) :
    ((coalesce fuel mem index level).1.page other).index = (mem.page other).index ∧
      ((coalesce fuel mem index level).1.page other).physicAddr = (mem.page other).physicAddr := by
  induction fuel generalizing mem index level with
  | zero => exact ⟨rfl, rfl⟩
  | succ fuel induction =>
      rw [coalesce]
      dsimp only
      split_ifs
      · have rest := induction (mergeBuddy (mem.read (index ^^^ (1 <<< level))) level index
          (index ^^^ (1 <<< level))) (lowerOf index (index ^^^ (1 <<< level))) (level + 1)
        rw [(merge_buddy_identity _ _ _ _ _).1, (merge_buddy_identity _ _ _ _ _).2, page_read] at rest
        exact rest
      · exact ⟨rfl, rfl⟩
      · exact ⟨rfl, rfl⟩

theorem free_block_identity :
    ((buddySystemFreeFramePageBlock index mem).2.page other).index = (mem.page other).index ∧
      ((buddySystemFreeFramePageBlock index mem).2.page other).physicAddr =
        (mem.page other).physicAddr := by
  unfold buddySystemFreeFramePageBlock
  dsimp only
  split_ifs
  · exact ⟨rfl, rfl⟩
  · exact ⟨rfl, rfl⟩
  · have merged := coalesce_identity (mem.read index) index other
      ((mem.read index).page index).level buddyMaxLevel
    rw [page_read] at merged
    simp only [releaseBlock, page_set_free_list, page_modify_keeps PageFrame.index,
      page_modify_inside_keeps PageFrame.index, page_modify_keeps PageFrame.physicAddr,
      page_modify_inside_keeps PageFrame.physicAddr, implies_true]
    exact merged

/-- Entries that differ in nothing but the two fields differ in nothing. -/
theorem page_of_identified {mem mem' : NormalMem}
    (same : (identified mem').page other = (identified mem).page other)
    (identity : (mem'.page other).index = (mem.page other).index ∧
      (mem'.page other).physicAddr = (mem.page other).physicAddr) :
    mem'.page other = mem.page other := by
  have field : ∀ {Field : Type} (read : PageFrame → Field),
      (∀ base index frame, read (identifiedFrame base index frame) = read frame) →
      read (mem'.page other) = read (mem.page other) := by
    intro Field read apart
    rw [← identified_field mem' other read apart, same, identified_field mem other read apart]
  have flags := field PageFrame.flags fun _ _ _ => rfl
  have level := field PageFrame.level fun _ _ _ => rfl
  have prev := field PageFrame.prevFrame fun _ _ _ => rfl
  have next := field PageFrame.nextFrame fun _ _ _ => rfl
  have allocator := field PageFrame.allocator fun _ _ _ => rfl
  cases left : mem'.page other
  cases right : mem.page other
  simp only [left, right] at flags level prev next allocator identity
  simp only [flags, level, prev, next, allocator, identity.1, identity.2]

end Identified

/-! ## Well-formed tables -/

/-- The lists are doubly linked and hold exactly the free heads, and the free
and allocated blocks fill the pool with no two free buddies among them. -/
structure WellFormed (mem : NormalMem) : Prop where
  lists : ∀ level < buddyMaxLevel, ∃ nodes,
    Linked (nextOf mem) (prevOf mem) mem.framesNumber (mem.freeLists level) nodes ∧
      ∀ index, index ∈ nodes ↔ IsFreeBlock mem index level
  heads : ∀ index level, IsFreeBlock mem index level → level < buddyMaxLevel ∧ 2 ^ level ∣ index
  packing : Packing mem.framesNumber (joined (IsFreeBlock mem) (Allocated mem))
  covers : ∀ page < mem.framesNumber, page ∈ pages (joined (IsFreeBlock mem) (Allocated mem))
  plain : ∀ index < mem.framesNumber, (∀ level, ¬IsFreeBlock mem index level) →
    (∀ level, ¬Allocated mem index level) →
    (mem.page index).flags = pageFrameAllocated ∧ (mem.page index).level = 0
  single : ∀ index level, level < buddyMaxLevel - 1 → IsFreeBlock mem index level →
    ¬IsFreeBlock mem (buddy index level) level

/-- The allocated blocks, too, are of a level the allocator serves and aligned. -/
def AllocatedAligned (mem : NormalMem) : Prop :=
  ∀ index level, Allocated mem index level → level < buddyMaxLevel ∧ 2 ^ level ∣ index

section Soundness

variable {mem mem' : NormalMem} {free taken : Blocks}

theorem free_not_allocated {index level height : Nat} (free : IsFreeBlock mem index level) :
    ¬Allocated mem index height := by
  intro allocated
  have flags := free.2.1
  rw [allocated.2.1] at flags
  exact absurd flags (by decide)

theorem sound_free_eq (sound : Sound mem free taken) : IsFreeBlock mem = free := by
  funext index level
  apply propext
  rw [sound.represents.freeHead, not_exempt_iff, IsFreeBlock]

theorem sound_allocated_eq (sound : Sound mem free taken) : Allocated mem = taken := by
  funext index level
  exact propext (sound_allocated_iff sound index level)

theorem sound_well_formed (sound : Sound mem free taken)
    (anchored : AnchoredBelow buddyMaxLevel mem) : WellFormed mem ∧ AllocatedAligned mem := by
  have freeEq := sound_free_eq sound
  have allocatedEq := sound_allocated_eq sound
  subst freeEq
  subst allocatedEq
  have rep := sound.represents
  have layout := sound.layout
  have known : ∀ index level, joined (IsFreeBlock mem) (Allocated mem) index level →
      level < buddyMaxLevel ∧ 2 ^ level ∣ index := fun index level tile =>
    ⟨sound.level_lt tile, layout.tiling.aligned tile⟩
  refine ⟨?_, fun index level allocated => known index level (Or.inr allocated)⟩
  constructor
  · intro level bound
    obtain ⟨nodes, threaded, members⟩ := rep.lists level bound
    exact ⟨nodes, threaded.linked (anchored level bound), members⟩
  · intro index level free
    exact known index level (Or.inl free)
  · exact packing_of_tiling layout.tiling
  · intro page inside
    exact pages_of_tiling layout.tiling inside
  · intro index inside notFree notTaken
    exact rep.plain index inside (Nat.ne_of_lt inside) notFree notTaken
  · exact layout.single

theorem WellFormed.anchored (well : WellFormed mem) : AnchoredBelow buddyMaxLevel mem := by
  intro level bound nonempty
  obtain ⟨nodes, linked, -⟩ := well.lists level bound
  exact linked.anchored nonempty

theorem well_formed_sound (well : WellFormed mem) (aligned : AllocatedAligned mem)
    (identity : ∀ index < mem.framesNumber, (mem.page index).index = index ∧
      (mem.page index).physicAddr = add32 mem.base (index * pageFrameSize)) :
    Sound mem (IsFreeBlock mem) (Allocated mem) := by
  have known : ∀ index level, joined (IsFreeBlock mem) (Allocated mem) index level →
      level < buddyMaxLevel ∧ 2 ^ level ∣ index := by
    rintro index level (free | allocated)
    · exact well.heads index level free
    · exact aligned index level allocated
  constructor
  · constructor
    · intro index level
      rw [not_exempt_iff, IsFreeBlock]
    · intro index level
      rw [not_exempt_iff, Allocated]
    · intro index inside _ notFree notTaken
      exact well.plain index inside notFree notTaken
    · intro level bound
      obtain ⟨nodes, linked, members⟩ := well.lists level bound
      exact ⟨nodes, linked.threaded, members⟩
    · exact identity
  · constructor
    · exact well.packing.tiling (fun index level tile => (known index level tile).2) well.covers
    · intro index level tile
      have bound := (known index level tile).1
      omega
    · intro index level free
      exact free_not_allocated free
    · exact well.single

/-- The flags, the levels, the links and the list heads are all there is to it. -/
theorem WellFormed.congr (well : WellFormed mem) (number : mem'.framesNumber = mem.framesNumber)
    (lists : mem'.freeLists = mem.freeLists) (free : IsFreeBlock mem' = IsFreeBlock mem)
    (allocated : Allocated mem' = Allocated mem)
    (page : ∀ index, (mem'.page index).flags = (mem.page index).flags ∧
      (mem'.page index).level = (mem.page index).level ∧
      nextOf mem' index = nextOf mem index ∧ prevOf mem' index = prevOf mem index) :
    WellFormed mem' := by
  constructor
  · intro level bound
    obtain ⟨nodes, linked, members⟩ := well.lists level bound
    rw [number, lists, free]
    refine ⟨nodes, linked.congr ?_ ?_, members⟩
    · intro item _
      exact (page item).2.2.1
    · intro item _
      exact (page item).2.2.2
  · rw [free]
    exact well.heads
  · rw [number, free, allocated]
    exact well.packing
  · rw [number, free, allocated]
    exact well.covers
  · rw [number, free, allocated]
    intro index
    rw [(page index).1, (page index).2.1]
    exact well.plain index
  · rw [free]
    exact well.single

theorem identified_free (mem : NormalMem) : IsFreeBlock (identified mem) = IsFreeBlock mem := by
  funext index level
  rw [IsFreeBlock, IsFreeBlock, identified_flags, identified_level, identified_frames_number]

theorem identified_allocated (mem : NormalMem) : Allocated (identified mem) = Allocated mem := by
  funext index level
  rw [Allocated, Allocated, identified_flags, identified_level, identified_frames_number]

theorem identified_well_formed : WellFormed (identified mem) ↔ WellFormed mem := by
  have page : ∀ index, ((identified mem).page index).flags = (mem.page index).flags ∧
      ((identified mem).page index).level = (mem.page index).level ∧
      nextOf (identified mem) index = nextOf mem index ∧
      prevOf (identified mem) index = prevOf mem index := fun index =>
    ⟨identified_flags mem index, identified_level mem index, identified_next_frame mem index,
      identified_prev_frame mem index⟩
  constructor
  · intro well
    apply well.congr (identified_frames_number mem).symm (identified_free_lists mem).symm
      (identified_free mem).symm (identified_allocated mem).symm
    intro index
    obtain ⟨flags, level, next, prev⟩ := page index
    exact ⟨flags.symm, level.symm, next.symm, prev.symm⟩
  · intro well
    exact well.congr (identified_frames_number mem) (identified_free_lists mem)
      (identified_free mem) (identified_allocated mem) page

theorem identified_aligned : AllocatedAligned (identified mem) ↔ AllocatedAligned mem := by
  rw [AllocatedAligned, identified_allocated, AllocatedAligned]

end Soundness

/-! ## The contract of a release -/

theorem well_formed_free_pages {mem : NormalMem} (well : WellFormed mem) :
    freePages mem = Set.Iio mem.framesNumber \ pages (Allocated mem) := by
  have listed : ∀ index level, Listed mem index level ↔ IsFreeBlock mem index level := by
    intro index level
    constructor
    · intro listed
      obtain ⟨nodes, linked, members⟩ := well.lists level listed.1
      exact (members index).mp ((listed_iff listed.1 linked.follows index).mp listed)
    · intro free
      have bound := (well.heads index level free).1
      obtain ⟨nodes, linked, members⟩ := well.lists level bound
      exact (listed_iff bound linked.follows index).mpr ((members index).mpr free)
  rw [freePages, pages_congr listed]
  exact pages_complement well.packing well.covers fun _ _ free => free_not_allocated free

/-- The allocated block `index` of `level` was taken back, and nothing else happened. -/
structure Returned (mem mem' : NormalMem) (index level : Nat) : Prop where
  number : mem'.framesNumber = mem.framesNumber
  wellFormed : WellFormed mem'
  aligned : AllocatedAligned mem'
  freed : freePages mem' = freePages mem ∪ span index level
  allocated : ∀ other height,
    Allocated mem' other height ↔ without (Allocated mem) index other height
  unchanged : ∀ other height, without (Allocated mem) index other height →
    ∀ page ∈ span other height, mem'.page page = mem.page page

theorem physic_free_of_page {mem : NormalMem} {address index : Nat} (nonnull : address ≠ 0)
    (page : sub32 address mem.base / pageFrameSize = index) :
    physicFree address mem = buddySystemFreeFramePageBlock index mem := by
  rw [physicFree, if_neg nonnull, page]

/-- Freeing the head of an allocated block, by its index or by an address in its
page, succeeds and leaves a well-formed table in which the pages of the block
have become free. -/
theorem free_block_contract {mem : NormalMem} (well : WellFormed mem)
    (aligned : AllocatedAligned mem) {index level : Nat} (allocated : Allocated mem index level) :
    ∃ mem', buddySystemFreeFramePageBlock index mem = (1, mem') ∧
      (∀ address, address ≠ 0 → sub32 address mem.base / pageFrameSize = index →
        physicFree address mem = (1, mem')) ∧
      Returned mem mem' index level := by
  have identity : ∀ other < mem.framesNumber, ((identified mem).page other).index = other ∧
      ((identified mem).page other).physicAddr = add32 mem.base (other * pageFrameSize) := by
    intro other inside
    rw [identified_page mem other inside]
    exact ⟨rfl, rfl⟩
  have sound := well_formed_sound (identified_well_formed.mpr well)
    (identified_aligned.mpr aligned) identity
  have anchored := (identified_well_formed.mpr well).anchored
  have lower : Anchored (identified mem) := fun height below =>
    anchored height (Nat.lt_of_lt_of_le below (Nat.sub_le _ _))
  rw [identified_free, identified_allocated] at sound
  obtain ⟨changed, free', call, back⟩ :=
    free_block_sound sound allocated (lower.safe_to_free index)
  rw [identified_free_block] at call
  obtain ⟨answer, table⟩ := Prod.mk.inj call
  have same := fun page => free_block_identity mem index page
  have byAddress : ∀ address, address ≠ 0 → sub32 address mem.base / pageFrameSize = index →
      physicFree address mem = buddySystemFreeFramePageBlock index mem :=
    fun address nonnull page => physic_free_of_page nonnull page
  generalize outcome : buddySystemFreeFramePageBlock index mem = result at *
  obtain ⟨first, mem'⟩ := result
  subst answer
  subst table
  have taken := sound_allocated_eq back.sound
  rw [identified_allocated] at taken
  obtain ⟨well', aligned'⟩ := sound_well_formed back.sound
    (back.anchored buddyMaxLevel (Nat.sub_le _ _) (le_refl _) anchored)
  rw [identified_well_formed] at well'
  rw [identified_aligned] at aligned'
  have number : mem'.framesNumber = mem.framesNumber := back.number
  have packed : Packing mem.framesNumber (Allocated mem) := well.packing.mono fun _ _ => Or.inr
  refine ⟨mem', rfl, byAddress, number, well', aligned', ?_, ?_, ?_⟩
  · rw [well_formed_free_pages well', taken, packed.pages_without allocated, number,
      well_formed_free_pages well]
    ext page
    constructor
    · rintro ⟨inside, outside⟩
      by_cases own : page ∈ span index level
      · exact Or.inr own
      · exact Or.inl ⟨inside, fun held => outside ⟨held, own⟩⟩
    · rintro (⟨inside, outside⟩ | own)
      · exact ⟨inside, fun held => outside held.1⟩
      · exact ⟨Nat.lt_of_lt_of_le own.2 (packed.inside allocated), fun held => held.2 own⟩
  · intro other height
    rw [taken]
  · intro other height kept page inside
    exact page_of_identified page (back.kept other height kept page inside.1 inside.2) (same page)

theorem free_block_contract_sample : ∃ mem',
    buddySystemFreeFramePageBlock 0
        (buddySystemGetFramePageBlock 3 (initNormalMemZone 0x200000 1024)).2 = (1, mem') ∧
      Returned (buddySystemGetFramePageBlock 3 (initNormalMemZone 0x200000 1024)).2 mem' 0 3 := by
  obtain ⟨free, sound, -⟩ := init_zone_sound 0x200000 1024 (by decide) (by decide)
  have anchored : AnchoredBelow buddyMaxLevel
      (buddySystemGetFramePageBlock 3 (initNormalMemZone 0x200000 1024)).2 := by
    unfold AnchoredBelow
    decide +kernel
  have allocated : Allocated (buddySystemGetFramePageBlock 3 (initNormalMemZone 0x200000 1024)).2
      0 3 := by
    unfold Allocated
    decide +kernel
  rcases get_block_sound sound 3 rfl with ⟨nothing, -⟩ | ⟨index, free', -, handed⟩
  · exfalso
    revert nothing
    decide +kernel
  · obtain ⟨well, aligned⟩ := sound_well_formed handed.sound anchored
    obtain ⟨mem', call, -, returned⟩ := free_block_contract well aligned allocated
    exact ⟨mem', call, returned⟩

/-! ## Allocated blocks off their place -/

/-- Three frames: one allocated frame and an allocated pair that starts at 1. -/
def unalignedPair : NormalMem where
  base := 0x200000
  length := 3 * pageFrameSize
  framesNumber := 3
  freeLists := fun _ => 3
  frames := fun index =>
    { flags := if index < 2 then 3 else 1
      level := if index = 1 then 1 else 0
      physicAddr := 0x200000 + index * pageFrameSize
      index := index
      prevFrame := 3
      nextFrame := 3
      allocator := 0 }
  accesses := []

theorem unaligned_pair_allocated (index level : Nat) :
    Allocated unalignedPair index level ↔ (index = 0 ∧ level = 0) ∨ (index = 1 ∧ level = 1) := by
  have entries : ∀ index < 3, (unalignedPair.page index).flags = (if index < 2 then 3 else 1) ∧
      (unalignedPair.page index).level = if index = 1 then 1 else 0 := by
    decide
  constructor
  · rintro ⟨inside, flags, same⟩
    have inside' : index < 3 := inside
    rw [(entries index inside').1] at flags
    rw [(entries index inside').2] at same
    have small : index < 2 := by
      by_contra large
      rw [if_neg large] at flags
      exact absurd flags (by decide)
    split_ifs at same with one
    · exact Or.inr ⟨one, same.symm⟩
    · exact Or.inl ⟨by omega, same.symm⟩
  · rintro (⟨rfl, rfl⟩ | ⟨rfl, rfl⟩)
    · unfold Allocated
      decide
    · unfold Allocated
      decide

theorem unaligned_pair_well_formed : WellFormed unalignedPair := by
  have noFree : ∀ index level, ¬IsFreeBlock unalignedPair index level := by
    have flags : ∀ index < 3, (unalignedPair.page index).flags ≠ pageFrameBlockHead := by decide
    intro index level free
    exact flags index free.1 free.2.1
  constructor
  · intro level _
    refine ⟨[], ⟨rfl, List.nodup_nil, trivial⟩, ?_⟩
    intro index
    constructor
    · intro listed
      exact absurd listed List.not_mem_nil
    · intro free
      exact absurd free (noFree index level)
  · intro index level free
    exact absurd free (noFree index level)
  · have known : ∀ index level, joined (IsFreeBlock unalignedPair) (Allocated unalignedPair)
        index level → (index = 0 ∧ level = 0) ∨ (index = 1 ∧ level = 1) := by
      rintro index level (free | allocated)
      · exact absurd free (noFree index level)
      · exact (unaligned_pair_allocated index level).mp allocated
    constructor
    · intro index level tile
      rcases known index level tile with ⟨rfl, rfl⟩ | ⟨rfl, rfl⟩ <;> decide
    · intro index level other height left right
      rcases known index level left with ⟨rfl, rfl⟩ | ⟨rfl, rfl⟩ <;>
        rcases known other height right with ⟨rfl, rfl⟩ | ⟨rfl, rfl⟩ <;> decide
  · intro page inside
    have inside' : page < 3 := inside
    by_cases first : page = 0
    · exact ⟨0, 0, Or.inr ((unaligned_pair_allocated 0 0).mpr (by decide)), by
        rw [first]
        exact start_mem_span 0 0⟩
    · refine ⟨1, 1, Or.inr ((unaligned_pair_allocated 1 1).mpr (by decide)), ?_⟩
      exact Set.mem_Ico.mpr ⟨by omega, by omega⟩
  · intro index inside _ notTaken
    have inside' : index < 3 := inside
    have last : index = 2 := by
      by_contra other
      have either : index = 0 ∨ index = 1 := by omega
      rcases either with zero | one
      · exact notTaken 0 ((unaligned_pair_allocated index 0).mpr (Or.inl ⟨zero, rfl⟩))
      · exact notTaken 1 ((unaligned_pair_allocated index 1).mpr (Or.inr ⟨one, rfl⟩))
    subst last
    decide
  · intro index level _ free
    exact absurd free (noFree index level)

/-- Freeing the pair puts a block of level 1 that starts at 1 on a free list. -/
theorem unaligned_release_breaks_table : ¬∀ mem, WellFormed mem → ∀ index level,
    Allocated mem index level → ∃ mem', buddySystemFreeFramePageBlock index mem = (1, mem') ∧
      WellFormed mem' := by
  intro always
  obtain ⟨mem', call, well⟩ := always unalignedPair unaligned_pair_well_formed 1 1
    ((unaligned_pair_allocated 1 1).mpr (by decide))
  have table : mem' = (buddySystemFreeFramePageBlock 1 unalignedPair).2 := by rw [call]
  have free : IsFreeBlock mem' 1 1 := by
    rw [table]
    decide +kernel
  exact absurd (well.heads 1 1 free).2 (by decide)

end ChaoOS.FrameTableReturns
