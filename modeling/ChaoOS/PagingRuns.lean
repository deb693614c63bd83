import ChaoOS.AddressSpace
import ChaoOS.FailedMap
import ChaoOS.MemoryRuns
import ChaoOS.ZoneLayout

/-!
# Paging over the buddy system

`map` takes the frames of its tables from the pool that the rest of the kernel
takes its frames from. A run mixes `map`, `unmap`, the calls of the buddy system
and writes into blocks that were handed out, from the tables that the kernel has
once `kernel_main` has dropped the lowest 4 MiB.
-/

namespace ChaoOS.PagingRuns

open ChaoOS.KernelMath ChaoOS.GuardedRun ChaoOS.PageDirectory ChaoOS.KernelPageTables
open ChaoOS.BootPageTables ChaoOS.AddressSpace ChaoOS.ZoneLayout ChaoOS.FrameTableModel
open ChaoOS.FrameTableInit (init_zone_sound)
open ChaoOS.FailedMap (mapOn sizeofPageSize)
open ChaoOS.SliceHeapInvariant (pageAt)
open ChaoOS.FrameTableRuns (Block Client FrameOp clientStep ClientSound LinksRepaired freshClient
  client_blocks_apart client_physic_alloc client_step_sound fresh_client_sound frameAtAddress granted
  frame_at_own_address client_frame_alloc)
open ChaoOS.MemoryManager (RegionsApart blockRegion)
open ChaoOS.MemoryRuns (client_step_more client_step_keeps)

set_option autoImplicit false

/-! ## Steps -/

structure Paging where
  memory : Memory
  client : Client

inductive PagingOp where
  | map (va pa : Nat) (flags : PageFlags)
  | unmap (va : Nat)
  | frames (op : FrameOp)
  | write (address value : Nat)

def pagingStep (pd : Nat) (state : Paging) : PagingOp → Option Paging
  | .map va pa flags =>
      (mapOn state.memory state.client.mem pd va pa flags.bits).map fun result =>
        ⟨result.1, ⟨result.2, state.client.blocks⟩⟩
  | .unmap va => some { state with memory := unmap state.memory pd va }
  | .frames op => (clientStep state.client op).map fun client => { state with client := client }
  | .write address value => some { state with memory := store state.memory address value }

/-- An address of the kernel's linear mapping. -/
def Linear (va : Nat) : Prop := pageOffset ≤ va ∧ va < 0xF8000000

/-- There is a frame for a table. -/
def FrameLeft (zone : NormalMem) : Prop :=
  (physicAlloc sizeofPageSize zone).all fun answer => answer.1 ≠ 0

/-- Mappings outside the linear one, with a frame where a table is missing, and
writes of words in blocks that were handed out. -/
def Permits (pd : Nat) (state : Paging) : PagingOp → Prop
  | .map va _ _ => va < wordSize ∧ ¬Linear va ∧
      (tableOf state.memory pd (pgdIndex va) = 0 → FrameLeft state.client.mem)
  | .unmap va => va < wordSize ∧ ¬Linear va
  | .frames op => LinksRepaired state.client op
  | .write address _ => address % 4 = 0 ∧ ∃ block ∈ state.client.blocks,
      pageAt state.client.mem.base block.1 ≤ address ∧
        address < pageAt state.client.mem.base (block.1 + 2 ^ block.2)

instance (zone : NormalMem) : Decidable (FrameLeft zone) := inferInstanceAs (Decidable (_ = true))

instance (va : Nat) : Decidable (Linear va) := inferInstanceAs (Decidable (_ ∧ _))

/-! ## What a run is to leave -/

def notePaging (space : Space) : PagingOp → Space
  | .map va pa flags => space.mapped va pa flags
  | .unmap va => space.unmapped va
  | .frames _ => space
  | .write _ _ => space

def kernelFlags : PageFlags where
  bits := pagePresent ||| pageWrite
  small := by decide
  present := by decide

/-- The linear mapping and nothing else. -/
def kernelSpace : Space where
  table := fun k => if 768 ≤ k ∧ k < 992 then some kernelFlags else none
  page := fun n =>
    if 768 * 1024 ≤ n ∧ n < 992 * 1024 then some (entryFor ((n - 768 * 1024) * pageSize) kernelFlags)
    else none

/-- The processor and `get_mapping` agree with the space, and no block that was
handed out has a page of the directory or of a table. -/
structure Realizes (pd cr3 : Nat) (space : Space) (state : Paging) : Prop where
  translated : ∀ va, va < wordSize → translate state.memory cr3 va = space.translation va
  found : ∀ va, va < wordSize → ∀ old, getMapping state.memory pd va (some old) =
    match space.page (va / pageSize) with
    | some entry => (1, some entry.frame)
    | none => (0, some old)
  directory : ∀ block ∈ state.client.blocks, pd + pageSize ≤ pageAt state.client.mem.base block.1
  tables : ∀ k, k < 1024 → tableOf state.memory pd k ≠ 0 → ∀ block ∈ state.client.blocks,
    kernelAddress (tableOf state.memory pd k) + pageSize ≤ pageAt state.client.mem.base block.1 ∨
      pageAt state.client.mem.base (block.1 + 2 ^ block.2) ≤
        kernelAddress (tableOf state.memory pd k)

/-- The frame table and what the buddy system uses after it have no byte of the directory, of
a table or of a block that was handed out. -/
structure OffTable (kernelEnd framesNumber pd : Nat) (state : Paging) : Prop where
  directory : RegionsApart (tableRegion kernelEnd framesNumber) (pd, pageSize)
  tables : ∀ k, k < 1024 → tableOf state.memory pd k ≠ 0 →
    RegionsApart (tableRegion kernelEnd framesNumber)
      (kernelAddress (tableOf state.memory pd k), pageSize)
  blocks : ∀ block ∈ state.client.blocks,
    RegionsApart (tableRegion kernelEnd framesNumber) (blockRegion state.client.mem.base block)

/-- The pool is above the page tables of the image and inside the linear mapping. -/
structure PoolPlaced (image : PagingImage) (base framesNumber : Nat) : Prop where
  aligned : base % pageSize = 0
  inZone : base + pageSize * framesNumber ≤ kernelNormalZoneSize
  number : framesNumber ≤ 2 ^ 20
  directory : image.pgdK + pageSize ≤ pageOffset + base
  tables : image.tables + pageSize * kernelNormalZoneDirectorySize ≤ pageOffset + base

/-- The physical address of a table of `init_vmm`. -/
def linearTable (image : PagingImage) (k : Nat) : Nat :=
  image.tables + pageSize * (k - 768) - pageOffset

/-- `tables` are the blocks that `map` took, `frame` where the tables are. -/
structure PagingSound (image : PagingImage) (base framesNumber : Nat) (space : Space)
    (frame : Nat → Nat) (tables : List Block) (state : Paging) : Prop where
  laid : Laid image.pgdK space frame state.memory
  linear : ∀ k, 768 ≤ k → k < 992 → frame k = linearTable image k
  own : ∀ k, k < 1024 → ¬(768 ≤ k ∧ k < 992) → space.table k ≠ none →
    ∃ block ∈ tables, frame k = base + pageSize * block.1
  blocks : ClientSound framesNumber ⟨state.client.mem, state.client.blocks ++ tables⟩
  base : state.client.mem.base = base

/-! ## Where pages are -/

section Places

variable {image : PagingImage} {base framesNumber : Nat} {space : Space} {frame : Nat → Nat}
  {tables : List Block} {state : Paging}

theorem page_at_kernel (placed : PoolPlaced image base framesNumber) {index : Nat}
    (inside : index ≤ framesNumber) : kernelAddress (base + pageSize * index) = pageAt base index := by
  have zone := placed.inZone
  rw [kernelAddress, pageAt, add32_of_lt]
  · rw [Nat.mul_comm]
    omega
  · rw [kernelNormalZoneSize, pageSize] at zone
    rw [pageSize, pageOffset, wordSize]
    omega

theorem linear_table_kernel (image : PagingImage) {k : Nat} (low : 768 ≤ k) (high : k < 992) :
    kernelAddress (linearTable image k) = image.tables + pageSize * (k - 768) := by
  have count : kernelNormalZoneDirectorySize = 224 := by decide
  obtain ⟨start, last⟩ := image.tables_linked
  rw [count] at last
  apply kernel_address_sub
  · rw [pageSize, wordSize] at *
    omega
  · exact Nat.le_add_right_of_le start

theorem blocks_inside (sound : PagingSound image base framesNumber space frame tables state)
    {block : Block} (member : block ∈ state.client.blocks ++ tables) :
    block.1 + 2 ^ block.2 ≤ framesNumber :=
  (client_blocks_apart sound.blocks).1 block member

/-- A table and a block handed out have no byte in common. -/
theorem table_apart (placed : PoolPlaced image base framesNumber)
    (sound : PagingSound image base framesNumber space frame tables state) {k : Nat}
    (inside : k < 1024) (found : space.table k ≠ none) {block : Block}
    (held : block ∈ state.client.blocks) :
    kernelAddress (frame k) + pageSize ≤ pageAt base block.1 ∨
      pageAt base (block.1 + 2 ^ block.2) ≤ kernelAddress (frame k) := by
  by_cases linear : 768 ≤ k ∧ k < 992
  · have count : kernelNormalZoneDirectorySize = 224 := by decide
    have above := placed.tables
    rw [count] at above
    left
    rw [sound.linear k linear.1 linear.2, linear_table_kernel image linear.1 linear.2, pageAt]
    rw [pageSize] at *
    omega
  · obtain ⟨table, member, address⟩ := sound.own k inside linear found
    have bound := blocks_inside sound (List.mem_append_right _ member)
    have apart := (List.pairwise_append.mp (client_blocks_apart sound.blocks).2).2.2 block held
      table member
    have positive := Nat.two_pow_pos table.2
    rw [address, page_at_kernel placed (by omega)]
    unfold pageAt pageSize
    omega

theorem directory_below (placed : PoolPlaced image base framesNumber) (index : Nat) :
    image.pgdK + pageSize ≤ pageAt base index := by
  have above := placed.directory
  unfold pageAt
  omega

/-- The invariant says what the statement of a run does. -/
theorem PagingSound.realizes (placed : PoolPlaced image base framesNumber)
    (sound : PagingSound image base framesNumber space frame tables state) :
    Realizes image.pgdK (sub32 image.pgdK pageOffset) space state := by
  have loaded := init_vmm_cr3 image state.memory 0
  constructor
  case translated => exact fun va address => sound.laid.translate loaded address
  case found => exact fun va address old => sound.laid.get_mapping address old
  case directory =>
    intro block held
    rw [sound.base]
    exact directory_below placed block.1
  case tables =>
    intro k inside nonzero block held
    have found : space.table k ≠ none := fun missing =>
      nonzero ((sound.laid.missing_iff inside).mpr missing)
    rw [sound.laid.table_of inside, if_neg found, sound.base]
    exact table_apart placed sound inside found held

/-- The image is before the frame table, the pool behind it. -/
theorem PagingSound.off_table (placed : PoolPlaced image base framesNumber)
    (sound : PagingSound image base framesNumber space frame tables state) {K : Nat}
    (below : TableBelow K base framesNumber) (directory : image.pgdK + pageSize ≤ K + pageOffset)
    (linearTables : image.tables + pageSize * kernelNormalZoneDirectorySize ≤ K + pageOffset) :
    OffTable K framesNumber image.pgdK state := by
  have pool : ∀ index, pageOffset + K + (pageFrameEntrySize * framesNumber + behindTableSize) ≤
      pageAt base index := by
    intro index
    unfold TableBelow at below
    unfold pageAt
    omega
  constructor
  case directory =>
    right
    unfold tableRegion
    dsimp only
    omega
  case tables =>
    intro k inside nonzero
    have found : space.table k ≠ none := fun missing =>
      nonzero ((sound.laid.missing_iff inside).mpr missing)
    rw [sound.laid.table_of inside, if_neg found]
    by_cases linear : 768 ≤ k ∧ k < 992
    · have count : kernelNormalZoneDirectorySize = 224 := by decide
      rw [count] at linearTables
      rw [sound.linear k linear.1 linear.2, linear_table_kernel image linear.1 linear.2]
      right
      unfold tableRegion
      dsimp only
      rw [pageSize] at *
      omega
    · obtain ⟨table, member, address⟩ := sound.own k inside linear found
      have bound := blocks_inside sound (List.mem_append_right _ member)
      have positive := Nat.two_pow_pos table.2
      rw [address, page_at_kernel placed (by omega)]
      exact Or.inl (pool table.1)
  case blocks =>
    intro block _
    rw [sound.base]
    exact Or.inl (pool block.1)

end Places

/-! ## One step -/

section Steps

variable {image : PagingImage} {base framesNumber : Nat} {space : Space} {frame : Nat → Nat}
  {tables : List Block} {state next : Paging}

/-- What `physic_alloc` answers is the address of a block of its own. -/
theorem physic_alloc_block {zone zone' : NormalMem} {blocks : List Block}
    (invariant : ClientSound framesNumber ⟨zone, blocks⟩) {byteSize address : Nat}
    (call : physicAlloc byteSize zone = some (address, zone')) (nonzero : address ≠ 0) :
    ∃ block, ClientSound framesNumber ⟨zone', block :: blocks⟩ ∧ zone'.base = zone.base ∧
      address = add32 zone.base (block.1 * pageFrameSize) := by
  obtain ⟨⟨answer, taken⟩, asked, rest⟩ := Option.bind_eq_some_iff.mp call
  have after := client_frame_alloc invariant asked
  cases answer with
  | none => exact absurd (congrArg Prod.fst (Option.some.inj rest)).symm nonzero
  | some index =>
      obtain ⟨own, same⟩ := Prod.mk.inj (Option.some.inj rest)
      have kept := (KernelHeap.frame_alloc_keeps asked).base
      obtain ⟨free, held, sound, listed⟩ := after.sound
      have member := listed (index, (taken.page index).level) List.mem_cons_self
      have inside := sound.layout.tiling.start_lt (Or.inr member)
      refine ⟨(index, (taken.page index).level), ?_, ?_, ?_⟩
      · rw [← same]
        have number : taken.framesNumber = framesNumber := after.number
        rw [number] at inside
        exact FrameTableRuns.client_read after inside
      · rw [← same]
        exact kept
      · rw [← own, (sound.represents.identity index inside).2, kept]

theorem outside_linear {va : Nat} (word : va < wordSize) (outside : ¬Linear va) :
    ¬(768 ≤ pgdIndex va ∧ pgdIndex va < 992) := by
  have count : kernelNormalZoneDirectorySize = 224 := by decide
  obtain ⟨-, -, low, high⟩ := window_indices word
  rw [count] at high
  rintro ⟨first, last⟩
  exact outside ⟨low.mp first, high.mp last⟩

/-- A frame of the pool can be a table. -/
theorem pool_table_frame (placed : PoolPlaced image base framesNumber) {index : Nat}
    (inside : index < framesNumber) (nonzero : base + pageSize * index ≠ 0) :
    TableFrame image.pgdK (base + pageSize * index) := by
  have zone := placed.inZone
  have aligned := placed.aligned
  have below := directory_below placed index
  refine ⟨⟨?_, ?_⟩, nonzero, ?_⟩
  · rw [kernelNormalZoneSize, pageSize] at zone
    rw [pageSize, wordSize]
    omega
  · rw [Nat.add_mul_mod_self_left]
    exact aligned
  · rw [page_at_kernel placed (Nat.le_of_lt inside)]
    rw [pageSize] at below
    omega

theorem new_table_unused (placed : PoolPlaced image base framesNumber)
    (sound : PagingSound image base framesNumber space frame tables state) {zone : NormalMem}
    {block : Block} (taken : ClientSound framesNumber
      ⟨zone, block :: (state.client.blocks ++ tables)⟩) {other : Nat} (inside : other < 1024)
    (found : space.table other ≠ none) : frame other ≠ base + pageSize * block.1 := by
  obtain ⟨within, apart⟩ := client_blocks_apart taken
  have bound := within block List.mem_cons_self
  have positive := Nat.two_pow_pos block.2
  by_cases linear : 768 ≤ other ∧ other < 992
  · have count : kernelNormalZoneDirectorySize = 224 := by decide
    have above := placed.tables
    have kernel := linear_table_kernel image linear.1 linear.2
    rw [count] at above
    intro same
    rw [sound.linear other linear.1 linear.2] at same
    rw [same, page_at_kernel placed (by omega), pageAt] at kernel
    rw [pageSize] at *
    omega
  · obtain ⟨table, member, address⟩ := sound.own other inside linear found
    have separate := (List.pairwise_cons.mp apart).1 table (List.mem_append_right _ member)
    have width := Nat.two_pow_pos table.2
    rw [address, pageSize]
    omega

theorem map_sound (placed : PoolPlaced image base framesNumber)
    (sound : PagingSound image base framesNumber space frame tables state) {va pa : Nat}
    {flags : PageFlags} (permits : Permits image.pgdK state (.map va pa flags))
    (call : pagingStep image.pgdK state (.map va pa flags) = some next) :
    ∃ frame' tables',
      PagingSound image base framesNumber (space.mapped va pa flags) frame' tables' next := by
  have directoryPage : IsPage image.pgdK := ⟨image.pgd_lt, image.pgd_aligned⟩
  obtain ⟨address, outside, left⟩ := permits
  obtain ⟨-, inside, -⟩ := page_number_eq address
  have notLinear := outside_linear address outside
  obtain ⟨result, asked, same⟩ := Option.map_eq_some_iff.mp call
  subst same
  unfold mapOn at asked
  split_ifs at asked with missing
  · -- the table is a new frame of the pool
    obtain ⟨⟨answer, zone⟩, found, rest⟩ := Option.bind_eq_some_iff.mp asked
    have none_there := (sound.laid.missing_iff inside).mp missing
    have nonzero : answer ≠ 0 := by
      have granted := left missing
      rw [FrameLeft, found, Option.all_some] at granted
      exact of_decide_eq_true granted
    obtain ⟨block, taken, kept, at_block⟩ := physic_alloc_block sound.blocks found nonzero
    have within := (client_blocks_apart taken).1 block List.mem_cons_self
    have positive := Nat.two_pow_pos block.2
    have zone_end := placed.inZone
    have plain : answer = base + pageSize * block.1 := by
      rw [at_block, sound.base, add32_of_lt, pageFrameSize, pageSize, Nat.mul_comm]
      rw [kernelNormalZoneSize, pageSize] at zone_end
      rw [pageFrameSize, wordSize]
      omega
    have fresh := pool_table_frame placed (show block.1 < framesNumber by omega) (plain ▸ nonzero)
    have unused : ∀ other, other < 1024 → space.table other ≠ none → frame other ≠ answer := by
      intro other otherInside otherFound
      rw [plain]
      exact new_table_unused placed sound taken otherInside otherFound
    rw [← plain] at fresh
    have laid := sound.laid.map_absent directoryPage address none_there fresh unused pa flags
    rw [← Option.some.inj rest]
    refine ⟨_, block :: tables, laid, ?_, ?_, ?_, kept.trans sound.base⟩
    · intro k low high
      rw [Function.update_of_ne]
      · exact sound.linear k low high
      · rintro rfl
        exact notLinear ⟨low, high⟩
    · intro k kInside other there
      by_cases here : k = pgdIndex va
      · exact ⟨block, List.mem_cons_self, by rw [here, Function.update_self, plain]⟩
      · rw [Space.mapped] at there
        dsimp only at there
        rw [Function.update_of_ne here] at there ⊢
        obtain ⟨table, member, own⟩ := sound.own k kInside other there
        exact ⟨table, List.mem_cons_of_mem _ member, own⟩
    · exact FrameTableRuns.client_perm taken List.perm_middle
  · have there : space.table (pgdIndex va) ≠ none := fun none_there =>
      missing ((sound.laid.missing_iff inside).mpr none_there)
    rw [← Option.some.inj asked]
    refine ⟨frame, tables, sound.laid.map_present directoryPage address there pa flags 0,
      sound.linear, ?_, sound.blocks, sound.base⟩
    intro k kInside other found
    by_cases here : k = pgdIndex va
    · exact sound.own k kInside other (here ▸ there)
    · rw [Space.mapped] at found
      dsimp only at found
      rw [Function.update_of_ne here] at found
      exact sound.own k kInside other found

theorem frames_sound (placed : PoolPlaced image base framesNumber)
    (sound : PagingSound image base framesNumber space frame tables state) {op : FrameOp}
    {client : Client} (repaired : LinksRepaired state.client op)
    (call : clientStep state.client op = some client) :
    PagingSound image base framesNumber space frame tables { state with client := client } := by
  have wider := client_step_more tables call
  have still : LinksRepaired ⟨state.client.mem, state.client.blocks ++ tables⟩ op := by
    cases op <;> exact repaired
  exact ⟨sound.laid, sound.linear, sound.own,
    client_step_sound placed.number _ op _ sound.blocks still wider,
    (client_step_keeps call).base.trans sound.base⟩

/-- A write into a block reaches no directory and no table. -/
theorem write_sound (placed : PoolPlaced image base framesNumber)
    (sound : PagingSound image base framesNumber space frame tables state) {address value : Nat}
    (permits : Permits image.pgdK state (.write address value)) :
    PagingSound image base framesNumber space frame tables
      { state with memory := store state.memory address value } := by
  obtain ⟨-, block, held, low, high⟩ := permits
  rw [sound.base] at low high
  have directory := directory_below placed block.1
  refine ⟨sound.laid.congr ?_ ?_, sound.linear, sound.own, sound.blocks, sound.base⟩
  · intro k inside
    have place := slot_eq image.pgd_lt image.pgd_aligned inside
    change store state.memory address value (slot image.pgdK k) = _
    rw [store, if_neg]
    rw [place]
    rw [pageSize] at directory
    omega
  · intro k inside found j position
    have table := sound.laid.tables k inside found
    have place := slot_eq (kernel_address_lt (frame k)) (kernel_address_aligned table.aligned) position
    have apart := table_apart placed sound inside found held
    change store state.memory address value (slot (kernelAddress (frame k)) j) = _
    rw [store, if_neg]
    rw [place]
    rw [pageSize] at apart
    omega

theorem paging_step_sound (placed : PoolPlaced image base framesNumber)
    (sound : PagingSound image base framesNumber space frame tables state) {op : PagingOp}
    (permits : Permits image.pgdK state op) (call : pagingStep image.pgdK state op = some next) :
    ∃ frame' tables',
      PagingSound image base framesNumber (notePaging space op) frame' tables' next := by
  cases op with
  | map va pa flags => exact map_sound placed sound permits call
  | unmap va =>
      have directoryPage : IsPage image.pgdK := ⟨image.pgd_lt, image.pgd_aligned⟩
      rw [← Option.some.inj call]
      exact ⟨frame, tables, sound.laid.unmap directoryPage permits.1, sound.linear, sound.own,
        sound.blocks, sound.base⟩
  | frames op =>
      obtain ⟨client, answered, same⟩ := Option.map_eq_some_iff.mp call
      rw [← same]
      exact ⟨frame, tables, frames_sound placed sound permits answered⟩
  | write address value =>
      rw [← Option.some.inj call]
      exact ⟨frame, tables, write_sound placed sound permits⟩

end Steps

/-! ## Boot -/

/-- `kernel_main_init`, `init_vmm`, the reset of the first directory entry in
`kernel_main`, and `init_normal_mem_zone` for the frames from the physical kernel
end `K` to `E`. -/
def bootPaging (image : BootImage) (memory : Memory) (K E : Nat) : Paging :=
  let kernel := initVmm (kernelMainInit memory).1 image.pgdK image.tables pt0
  let layout := zoneLayout (K + pageOffset) E
  { memory := store kernel.1 (slot image.pgdK 0) 0
    client := freshClient layout.base layout.framesNumber }

section Boot

variable (image : BootImage) {memory : Memory} {K E : Nat}

theorem linear_entry_encoded {k j : Nat} (low : 768 ≤ k) (high : k < 992) (position : j < 1024) :
    linearEntry (k - 768) j = encodeEntry (kernelSpace.page (1024 * k + j)) := by
  have count : kernelNormalZoneDirectorySize = 224 := by decide
  have number : (k - 768) * 1024 + j = 1024 * k + j - 768 * 1024 := by omega
  have covered : 768 * 1024 ≤ 1024 * k + j ∧ 1024 * k + j < 992 * 1024 := by omega
  have word : (1024 * k + j - 768 * 1024) * pageSize < wordSize := by
    rw [pageSize, wordSize]
    omega
  have masked := mask_tagged word (Nat.mul_mod_left _ _) (show 0 < pageSize by decide)
  rw [Nat.or_zero] at masked
  rw [linear_entry_eq (by rw [count]; omega) position, number, kernelSpace]
  dsimp only
  rw [if_pos covered, encodeEntry, entryFor]
  dsimp only
  rw [masked]
  rfl

theorem linear_table_frame {k : Nat} (low : 768 ≤ k) (high : k < 992) :
    TableFrame image.pgdK (linearTable image.toPagingImage k) := by
  have count : kernelNormalZoneDirectorySize = 224 := by decide
  have kernel := linear_table_kernel image.toPagingImage low high
  have inside : k - 768 < kernelNormalZoneDirectorySize := by
    rw [count]
    omega
  have apart := image.pgd_ne_table inside
  have linked := image.linked_high.2
  have last := image.tables_linked.2
  rw [count] at last
  rw [image.table_address_eq inside, ← kernel] at apart
  refine ⟨⟨?_, table_physical_aligned image.toPagingImage _⟩, ?_, Ne.symm apart⟩
  · rw [linearTable]
    rw [pageSize, wordSize] at *
    omega
  · rw [linearTable]
    rw [pageOffset] at *
    omega

theorem boot_laid (zero : ∀ index, index < 1024 → memory (slot image.pgdK index) = 0) :
    Laid image.pgdK kernelSpace (linearTable image.toPagingImage) (bootPaging image memory K E).memory := by
  have count : kernelNormalZoneDirectorySize = 224 := by decide
  have directoryPage : IsPage image.pgdK := ⟨image.pgd_lt, image.pgd_aligned⟩
  have isLinear : ∀ {k}, kernelSpace.table k ≠ none → 768 ≤ k ∧ k < 992 := by
    intro k found
    by_contra outside
    exact found (if_neg outside)
  constructor
  case directory =>
    intro k inside
    change store _ (slot image.pgdK 0) 0 (slot image.pgdK k) = _
    rw [store_slot directoryPage (by decide) directoryPage inside]
    by_cases linear : 768 ≤ k ∧ k < 992
    · have index : 768 + (k - 768) = k := by omega
      have entry := init_vmm_directory image.toPagingImage (kernelMainInit memory).1 pt0
        (show k - 768 < kernelNormalZoneDirectorySize by rw [count]; omega)
      rw [index, directory_entry_eq image.toPagingImage (by rw [count]; omega)] at entry
      rw [if_neg (by omega), entry, kernelSpace]
      simp only [if_pos linear]
      rfl
    · rw [kernelSpace]
      simp only [if_neg linear]
      by_cases first : k = 0
      · rw [if_pos ⟨trivial, first⟩]
      · rw [if_neg (fun same => first same.2),
          init_vmm_directory_rest image.toPagingImage _ pt0 inside (by rw [count]; omega),
          if_neg first, boot_elsewhere memory image.pgd_lt image.pgd_aligned inside
            image.linked_high.1, zero k inside, ite_self]
  case entries =>
    intro k inside found j position
    obtain ⟨low, high⟩ := isLinear found
    have table := linear_table_frame image low high
    have below : k - 768 < kernelNormalZoneDirectorySize := by
      rw [count]
      omega
    change store _ (slot image.pgdK 0) 0 (slot _ j) = _
    rw [store_slot directoryPage (by decide) (kernel_page table.aligned) position,
      if_neg (fun same => table.apart same.1), linear_table_kernel image.toPagingImage low high,
      ← image.table_address_eq below, init_vmm_table image.toPagingImage _ pt0 below position]
    exact linear_entry_encoded low high position
  case absent =>
    intro k inside missing j position
    have outside : ¬(768 * 1024 ≤ 1024 * k + j ∧ 1024 * k + j < 992 * 1024) := by
      intro covered
      have linear : 768 ≤ k ∧ k < 992 := by omega
      rw [kernelSpace] at missing
      dsimp only at missing
      rw [if_pos linear] at missing
      exact absurd missing (Option.some_ne_none _)
    exact if_neg outside
  case tables =>
    intro k inside found
    obtain ⟨low, high⟩ := isLinear found
    exact linear_table_frame image low high
  case distinct =>
    intro k inside found other otherInside otherFound same
    obtain ⟨low, high⟩ := isLinear found
    obtain ⟨otherLow, otherHigh⟩ := isLinear otherFound
    have kernel := linear_table_kernel image.toPagingImage low high
    rw [same, linear_table_kernel image.toPagingImage otherLow otherHigh] at kernel
    rw [pageSize] at kernel
    omega

/-- The pool that `init_normal_mem_zone` makes is above an image that ends at the
kernel end. -/
theorem boot_pool_placed (limit : E ≤ kernelNormalZoneSize)
    (room : K + 1025 * (pageFrameSize + pageFrameEntrySize) ≤ E)
    (directory : image.pgdK + pageSize ≤ K + pageOffset)
    (tables : image.tables + pageSize * kernelNormalZoneDirectorySize ≤ K + pageOffset) :
    let layout := zoneLayout (K + pageOffset) E
    PoolPlaced image.toPagingImage layout.base layout.framesNumber ∧ 1024 ≤ layout.framesNumber := by
  have size : pageFrameSize + pageFrameEntrySize = 4118 := rfl
  rw [size] at room
  have more : K + 8236 ≤ E := by omega
  have number := zone_layout_frames_number limit more
  have bounds := zone_layout_base limit more
  intro layout
  change layout.framesNumber + 1 = _ at number
  change K + layout.framesNumber * 22 ≤ layout.base ∧ layout.base < K + layout.framesNumber * 22 +
    4096 ∧ layout.base % 4096 = 0 at bounds
  rw [kernelNormalZoneSize] at limit
  refine ⟨⟨bounds.2.2, ?_, ?_, ?_, ?_⟩, ?_⟩
  · rw [kernelNormalZoneSize, pageSize]
    omega
  all_goals omega

/-- After boot neither `map` nor anyone else has a block. -/
theorem fresh_client_alone (base : Nat) {framesNumber : Nat} (many : 1024 ≤ framesNumber)
    (bound : framesNumber ≤ 2 ^ 20) :
    ClientSound framesNumber
      ⟨(freshClient base framesNumber).mem, (freshClient base framesNumber).blocks ++ []⟩ := by
  rw [List.append_nil]
  exact fresh_client_sound base framesNumber many bound

theorem boot_paging_sound (zero : ∀ index, index < 1024 → memory (slot image.pgdK index) = 0)
    (limit : E ≤ kernelNormalZoneSize)
    (room : K + 1025 * (pageFrameSize + pageFrameEntrySize) ≤ E)
    (directory : image.pgdK + pageSize ≤ K + pageOffset)
    (tables : image.tables + pageSize * kernelNormalZoneDirectorySize ≤ K + pageOffset) :
    let layout := zoneLayout (K + pageOffset) E
    PagingSound image.toPagingImage layout.base layout.framesNumber kernelSpace
      (linearTable image.toPagingImage) [] (bootPaging image memory K E) := by
  intro layout
  obtain ⟨placed, many⟩ := boot_pool_placed image limit room directory tables
  have fresh := fresh_client_alone layout.base many placed.number
  refine ⟨boot_laid image zero, fun _ _ _ => rfl, ?_, ?_, ?_⟩
  · intro k inside outside found
    exact absurd (if_neg outside) found
  · exact fresh
  · exact (init_zone_sound layout.base layout.framesNumber many placed.number).choose_spec.2.2.1

/-- The invariant along a run from boot. -/
theorem paging_run_sound
    (zero : ∀ index, index < 1024 → memory (slot image.pgdK index) = 0)
    (limit : E ≤ kernelNormalZoneSize)
    (room : K + 1025 * (pageFrameSize + pageFrameEntrySize) ≤ E)
    (directory : image.pgdK + pageSize ≤ K + pageOffset)
    (tables : image.tables + pageSize * kernelNormalZoneDirectorySize ≤ K + pageOffset)
    {ops : List PagingOp} {final : Paging}
    (permitted : Permitted (pagingStep image.pgdK) (Permits image.pgdK)
      (bootPaging image memory K E) ops)
    (run : runFrom (pagingStep image.pgdK) (bootPaging image memory K E) ops = some final) :
    let layout := zoneLayout (K + pageOffset) E
    PoolPlaced image.toPagingImage layout.base layout.framesNumber ∧
      ∃ frame held, PagingSound image.toPagingImage layout.base layout.framesNumber
        (ops.foldl notePaging kernelSpace) frame held final := by
  intro layout
  obtain ⟨placed, -⟩ := boot_pool_placed image limit room directory tables
  have boot := boot_paging_sound image zero limit room directory tables
  have simulated : ∀ space state op next,
      (∃ frame held, PagingSound image.toPagingImage layout.base layout.framesNumber space frame held
        state) →
      Permits image.pgdK state op → pagingStep image.pgdK state op = some next →
      ∃ frame held, PagingSound image.toPagingImage layout.base layout.framesNumber
        (notePaging space op) frame held next := by
    rintro space state op next ⟨frame, held, sound⟩ permits call
    exact paging_step_sound placed sound permits call
  exact ⟨placed, run_simulation simulated ⟨_, _, boot⟩ permitted run⟩

end Boot

/-! ### A mapping after a request for a frame -/

/-- `map` always returns. -/
theorem map_returns (pd : Nat) (state : Paging) (va pa : Nat) (flags : PageFlags) :
    ∃ next, pagingStep pd state (.map va pa flags) = some next := by
  obtain ⟨answer, asked⟩ : ∃ answer, physicAlloc sizeofPageSize state.client.mem = some answer := by
    obtain ⟨pages, level⟩ := FailedMap.one_page
    rw [physicAlloc, frameAlloc, pages, level]
    dsimp only [Option.bind_eq_bind, Option.bind_some]
    split <;> exact ⟨_, rfl⟩
  simp only [pagingStep, mapOn]
  split_ifs
  · rw [asked]
    exact ⟨_, rfl⟩
  · exact ⟨_, rfl⟩

/-- There are frames for tables after the request of the runs below. -/
theorem sample_frame_left : ∃ client,
    clientStep (bootPaging sampleBootImage (fun _ => 0) 0x211000 0x620000).client (.frameAlloc 1) =
      some client ∧ FrameLeft client.mem := by
  have facts : ((clientStep (bootPaging sampleBootImage (fun _ => 0) 0x211000 0x620000).client
      (.frameAlloc 1)).any fun client => decide (FrameLeft client.mem)) = true := by
    decide +kernel
  obtain ⟨client, call, left⟩ := (Option.any_eq_true _ _).mp facts
  exact ⟨client, call, of_decide_eq_true left⟩

def sampleBoot : Paging := bootPaging sampleBootImage (fun _ => 0) 0x211000 0x620000

/-- A frame for someone else, then a mapping. -/
def sampleOps (va pa : Nat) : List PagingOp := [.frames (.frameAlloc 1), .map va pa kernelFlags]

theorem sample_run {va : Nat} (word : va < wordSize) (outside : ¬Linear va) (pa : Nat) :
    ∃ final, runFrom (pagingStep 0xC0130000) sampleBoot (sampleOps va pa) = some final ∧
      Permitted (pagingStep 0xC0130000) (Permits 0xC0130000) sampleBoot (sampleOps va pa) := by
  obtain ⟨client, call, left⟩ := sample_frame_left
  obtain ⟨final, mapped⟩ :=
    map_returns 0xC0130000 { sampleBoot with client := client } va pa kernelFlags
  have first : pagingStep 0xC0130000 sampleBoot (.frames (.frameAlloc 1)) =
      some { sampleBoot with client := client } := by
    rw [pagingStep, sampleBoot, call, Option.map_some]
  refine ⟨final, ?_, trivial, fun next step => ?_⟩
  · rw [sampleOps, runFrom, first, Option.bind_some, runFrom, mapped]
    rfl
  · rw [first] at step
    rw [← Option.some.inj step]
    exact ⟨⟨word, outside, fun _ => left⟩, fun _ _ => trivial⟩

end ChaoOS.PagingRuns
