import ChaoOS.PageDirectory
import ChaoOS.FrameTableGrants

/-!
# A refused table in `map`

`map` asks `physic_alloc` for the frame of a missing table and does not look at
the answer. A null answer becomes the directory entry, and the page that is
cleared and filled in is the one at physical address zero.
-/

namespace ChaoOS.FailedMap

open ChaoOS.KernelMath ChaoOS.PageDirectory ChaoOS.FrameTableModel ChaoOS.FrameTableGrants

set_option autoImplicit false

/-- `sizeof(PAGE_SIZE)`, the size of an `int`. -/
def sizeofPageSize : Nat := 4

/-- `map` with the call of `physic_alloc`; `none` when that does not return. -/
def mapOn (memory : Memory) (zone : NormalMem) (pd va pa flags : Nat) :
    Option (Memory × NormalMem) :=
  if tableOf memory pd (pgdIndex va) = 0 then do
    let (frame, zone) ← physicAlloc sizeofPageSize zone
    some (map memory pd va pa flags frame, zone)
  else some (map memory pd va pa flags 0, zone)

/-- The words of the 32-bit address space are the same in both memories. -/
def Unchanged (before after : Memory) : Prop :=
  ∀ address, address < wordSize → address % 4 = 0 → after address = before address

/-- The words a refused `map` writes are there already. -/
structure AlreadyThere (memory : Memory) (pd va pa flags : Nat) : Prop where
  entry : pd = kernelAddress 0 ∨ memory (slot pd (pgdIndex va)) = flags
  table : ∀ j, j < 1024 → memory (slot (kernelAddress 0) j) =
    if j = pteIndex va then (pa &&& pageMask) ||| flags else 0

/-! ## The requested block -/

theorem one_page : nextPowerOf2 (pageCount sizeofPageSize) = 1 ∧ powerOf2 1 = some 0 := by
  decide

/-- A request for which there is no block leaves the frame table as it was. -/
theorem frame_alloc_refused {zone zone' : NormalMem}
    (refused : frameAlloc (pageCount sizeofPageSize) zone = some (none, zone')) : zone' = zone := by
  have block : buddySystemGetFramePageBlock 0 zone = (none, zone') := by
    rw [frameAlloc, one_page.1, one_page.2] at refused
    exact Option.some.inj refused
  rcases search_cases zone 0 with ⟨exhausted, -⟩ | lowest
  · rw [get_block_exhausted exhausted] at block
    exact (congrArg Prod.snd block).symm
  · simp only [buddySystemGetFramePageBlock, if_neg (Nat.not_le_of_lt lowest.bound)] at block
    exact absurd (congrArg Prod.fst block) (by simp)

/-! ## The words written -/

section Words

variable {memory : Memory} {pd va pa flags base index : Nat}

theorem word_slot {address : Nat} (word : address < wordSize) (aligned : address % 4 = 0) :
    ∃ base index, base < wordSize ∧ base % pageSize = 0 ∧ index < 1024 ∧
      address = slot base index := by
  have page : address / pageSize * pageSize < wordSize :=
    Nat.lt_of_le_of_lt (Nat.div_mul_le_self _ _) word
  have inside : address % pageSize / 4 < 1024 := by
    rw [pageSize]
    omega
  refine ⟨address / pageSize * pageSize, address % pageSize / 4, page, Nat.mul_mod_left _ _,
    inside, ?_⟩
  rw [slot_eq page (Nat.mul_mod_left _ _) inside, pageSize]
  omega

theorem map_refused_slot (pdWord : pd < wordSize) (pdAligned : pd % pageSize = 0)
    (address : va < wordSize) (empty : tableOf memory pd (pgdIndex va) = 0)
    (word : base < wordSize) (aligned : base % pageSize = 0) (inside : index < 1024) :
    map memory pd va pa flags 0 (slot base index) =
      if base = kernelAddress 0 then
        if index = pteIndex va then (pa &&& pageMask) ||| flags else 0
      else if base = pd ∧ index = pgdIndex va then flags
      else memory (slot base index) := by
  obtain ⟨-, directoryInside, tableInside⟩ := page_number_eq address
  have zeroWord := kernel_address_lt 0
  have zeroAligned := kernel_address_aligned (Nat.zero_mod pageSize)
  have inTable : slot base index = slot (kernelAddress 0) (pteIndex va) ↔
      base = kernelAddress 0 ∧ index = pteIndex va := by
    constructor
    · exact slot_injective word aligned inside zeroWord zeroAligned tableInside
    · rintro ⟨sameBase, sameIndex⟩
      rw [sameBase, sameIndex]
  have inDirectory : slot base index = slot pd (pgdIndex va) ↔ base = pd ∧ index = pgdIndex va := by
    constructor
    · exact slot_injective word aligned inside pdWord pdAligned directoryInside
    · rintro ⟨sameBase, sameIndex⟩
      rw [sameBase, sameIndex]
  simp only [PageDirectory.map, empty, if_true]
  rw [store, clear_page_slot zeroWord zeroAligned word aligned inside, store, Nat.zero_or]
  simp only [inTable, inDirectory]
  by_cases zero : base = kernelAddress 0
  · simp only [zero, true_and, if_true]
  · simp only [zero, false_and, if_false]

/-- The words that change under a refused `map`. -/
theorem map_refused_unchanged_iff (pdWord : pd < wordSize) (pdAligned : pd % pageSize = 0)
    (address : va < wordSize) (empty : tableOf memory pd (pgdIndex va) = 0) :
    Unchanged memory (map memory pd va pa flags 0) ↔ AlreadyThere memory pd va pa flags := by
  have zeroWord := kernel_address_lt 0
  have zeroAligned := kernel_address_aligned (Nat.zero_mod pageSize)
  obtain ⟨-, directoryInside, -⟩ := page_number_eq address
  have slotWord : ∀ base index, slot base index < wordSize := fun _ _ => Nat.mod_lt _ (by decide)
  have slotAligned : ∀ base index, base < wordSize → base % pageSize = 0 → index < 1024 →
      slot base index % 4 = 0 := by
    intro base index word aligned inside
    rw [slot_eq word aligned inside]
    rw [pageSize] at aligned
    omega
  constructor
  · intro unchanged
    constructor
    · by_cases zero : pd = kernelAddress 0
      · exact Or.inl zero
      · right
        rw [← unchanged _ (slotWord _ _) (slotAligned _ _ pdWord pdAligned directoryInside),
          map_refused_slot pdWord pdAligned address empty pdWord pdAligned directoryInside,
          if_neg zero, if_pos ⟨rfl, rfl⟩]
    · intro j inside
      rw [← unchanged _ (slotWord _ _) (slotAligned _ _ zeroWord zeroAligned inside),
        map_refused_slot pdWord pdAligned address empty zeroWord zeroAligned inside, if_pos rfl]
  · intro there other otherWord otherAligned
    obtain ⟨base, index, word, aligned, inside, rfl⟩ := word_slot otherWord otherAligned
    rw [map_refused_slot pdWord pdAligned address empty word aligned inside]
    split_ifs with zero position entry
    · rw [zero, there.table index inside, if_pos position]
    · rw [zero, there.table index inside, if_neg position]
    · rw [entry.1] at zero
      rw [entry.1, entry.2, there.entry.resolve_left zero]
    · rfl

end Words

/-! ## The call -/

/-- A `map` whose table is refused changes nothing exactly where what it writes is
there already. -/
theorem failed_map_unchanged_iff {memory : Memory} {zone zone' : NormalMem} {pd va pa flags : Nat}
    (pdWord : pd < wordSize) (pdAligned : pd % pageSize = 0) (address : va < wordSize)
    (empty : tableOf memory pd (pgdIndex va) = 0)
    (null : physicAlloc sizeofPageSize zone = some (0, zone')) :
    ∃ memory', mapOn memory zone pd va pa flags = some (memory', zone') ∧
      (Unchanged memory memory' ↔ AlreadyThere memory pd va pa flags) ∧
      (frameAlloc (pageCount sizeofPageSize) zone = some (none, zone') → zone' = zone) := by
  refine ⟨map memory pd va pa flags 0, ?_,
    map_refused_unchanged_iff pdWord pdAligned address empty, frame_alloc_refused⟩
  rw [mapOn, if_pos empty, null]
  rfl

/-- A pool with every frame handed out. -/
def exhaustedZone : NormalMem := clearedZone 0x200000 1024

theorem exhausted_zone_null : physicAlloc sizeofPageSize exhaustedZone = some (0, exhaustedZone) := by
  have exhausted : Exhausted exhaustedZone 0 := fun _ _ _ => rfl
  rw [physicAlloc, frameAlloc, one_page.1, one_page.2]
  simp only [Option.bind_eq_bind, Option.bind_some, get_block_exhausted exhausted]

theorem failed_map_unchanged_sample : ∃ memory',
    mapOn (fun _ => 0) exhaustedZone 0xC0120000 0xE0000000 0xE0000000 3 =
        some (memory', exhaustedZone) ∧
      ¬AlreadyThere (fun _ => 0) 0xC0120000 0xE0000000 0xE0000000 3 ∧
      ¬Unchanged (fun _ => 0) memory' := by
  have empty : tableOf (fun _ => 0) 0xC0120000 (pgdIndex 0xE0000000) = 0 := by decide
  have address : 0xE0000000 < wordSize := by decide
  obtain ⟨memory', call, changes, -⟩ := @failed_map_unchanged_iff _ _ _ _ _ 0xE0000000 3
    (by decide) (by decide) address empty exhausted_zone_null
  have missing : ¬AlreadyThere (fun _ => 0) 0xC0120000 0xE0000000 0xE0000000 3 := by
    intro there
    exact absurd there.entry (by decide)
  exact ⟨memory', call, missing, fun unchanged => missing (changes.mp unchanged)⟩

/-- A refused table leaves a directory entry, a cleared page zero and an entry
in it. -/
theorem failed_map_writes : ¬∀ (memory : Memory) (zone : NormalMem) (pd va pa flags : Nat),
    pd < wordSize → pd % pageSize = 0 → va < wordSize → pa < wordSize → flags < pageSize →
    tableOf memory pd (pgdIndex va) = 0 →
    physicAlloc sizeofPageSize zone = some (0, zone) →
    ∃ memory', mapOn memory zone pd va pa flags = some (memory', zone) ∧
      Unchanged memory memory' := by
  intro atomic
  obtain ⟨memory', call, unchanged⟩ := atomic (fun _ => 0) exhaustedZone 0xC0120000 0xE0000000
    0xE0000000 3 (by decide) (by decide) (by decide) (by decide) (by decide) (by decide)
    exhausted_zone_null
  have empty : tableOf (fun _ => 0) 0xC0120000 (pgdIndex 0xE0000000) = 0 := by decide
  rw [mapOn, if_pos empty, exhausted_zone_null] at call
  have written : map (fun _ => 0) 0xC0120000 0xE0000000 0xE0000000 3 0 = memory' :=
    congrArg Prod.fst (Option.some.inj call)
  have entry := unchanged (slot 0xC0120000 (pgdIndex 0xE0000000)) (by decide) (by decide)
  rw [← written] at entry
  exact absurd entry (by decide)

end ChaoOS.FailedMap
