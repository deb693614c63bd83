import ChaoOS.MemorySafety
import ChaoOS.MultibootMap
import ChaoOS.ZoneLayout

/-!
# From the memory map to the memory manager

`init_normal_mem_zone` looks for the usable entry of the multiboot map, puts the frame
table behind the kernel and the pool behind the table; `init_kmm` takes its first pages
from the pool. What the memory manager hands out later then lies in the memory that the
map calls usable.
-/

namespace ChaoOS.BootMemory

open ChaoOS.GuardedRun ChaoOS.KernelMath ChaoOS.MultibootMap ChaoOS.ZoneLayout
open ChaoOS.MemoryManager ChaoOS.MemoryRuns ChaoOS.MemorySafety
open ChaoOS.ByteMemory (Memory)
open ChaoOS.FrameTableModel (pageFrameSize)
open ChaoOS.KernelHeap (bootKernel frameAnswers)
open ChaoOS.KernelPageTables (PagingImage initVmm kernelNormalZoneSize walk walk_linear)
open ChaoOS.PageDirectory (pageOffset pageSize)
open ChaoOS.SliceHeapInvariant (Pool pageAt)

set_option autoImplicit false

/-- The layout from the first usable entry of the map. -/
def normalMemLayout (memory : Memory) (mmapAddr mmapLength kernelEnd : Nat) : Option Layout :=
  (inspectMap memory (add32 mmapAddr pageOffset) mmapLength).bind fun log =>
    log.endAddr.map fun endAddr => zoneLayout kernelEnd endAddr.toNat

/-- `init_normal_mem_zone` and `init_kmm`; `contents` is what the slices' pages hold. -/
def bootMemory (memory : Memory) (mmapAddr mmapLength kernelEnd : Nat) (contents : Nat → Nat) :
    Option MemoryState :=
  (normalMemLayout memory mmapAddr mmapLength kernelEnd).bind fun layout =>
    (bootKernel layout.base layout.framesNumber contents).map freshMemory

/-- A map of the Multiboot format that fits the address space, whose entries before the
usable one have the standard size, and whose usable entry is described by its low words. -/
structure StandardMap (memory : Memory) (mmapAddr mmapLength : Nat) (starts : List Nat)
    (entry : Nat) : Prop where
  fits : mmapAddr + pageOffset + mmapLength < wordSize
  entries : Entries memory (mmapAddr + pageOffset + mmapLength) (mmapAddr + pageOffset) starts
  standard : ∀ other ∈ unusable memory starts, size memory other = 20
  found : starts.find? (fun start => Usable memory start) = some entry
  base_high : baseAddrHigh memory entry = 0
  length_high : lengthHigh memory entry = 0

/-- The end of the memory that an entry describes. -/
def usableEnd (memory : Memory) (entry : Nat) : Nat := 0x100000 + (lengthLow memory entry).toNat

section Layouts

variable {memory : Memory} {mmapAddr mmapLength entry K : Nat} {starts : List Nat}

theorem end_addr_usable (standard : StandardMap memory mmapAddr mmapLength starts entry)
    (limit : usableEnd memory entry ≤ kernelNormalZoneSize) :
    (endAddr memory entry).toNat = usableEnd memory entry := by
  have usable : Usable memory entry := by simpa using List.find?_some standard.found
  unfold usableEnd kernelNormalZoneSize at *
  simp only [endAddr, standard.base_high, standard.length_high, usable.1]
  bv_omega

theorem layout_found (standard : StandardMap memory mmapAddr mmapLength starts entry)
    (limit : usableEnd memory entry ≤ kernelNormalZoneSize) (kernelEnd : Nat) :
    normalMemLayout memory mmapAddr mmapLength kernelEnd =
      some (zoneLayout kernelEnd (usableEnd memory entry)) := by
  have fits := standard.fits
  have start : add32 mmapAddr pageOffset = mmapAddr + pageOffset := add32_of_lt (by omega)
  have stop : add32 (mmapAddr + pageOffset) mmapLength = mmapAddr + pageOffset + mmapLength :=
    add32_of_lt fits
  have bounds := entries_bounds standard.entries
  unfold entrySize at bounds
  obtain ⟨log, walked, -, -, found⟩ := walk_entries fits standard.entries standard.standard
    (show starts.length < wordSize by omega)
  rw [standard.found, Option.map_some] at found
  rw [normalMemLayout, start, inspectMap, stop, walked, Option.bind_some, found, Option.map_some,
    end_addr_usable standard limit]

/-- The pool of a large enough region is one for the memory manager, inside the region. -/
theorem layout_pool {E : Nat} (limit : E ≤ kernelNormalZoneSize)
    (room : K + 1025 * (pageFrameSize + pageFrameEntrySize) ≤ E) :
    let layout := zoneLayout (K + pageOffset) E
    Pool layout.base layout.framesNumber ∧ 1024 ≤ layout.framesNumber ∧
      layout.base + pageSize * layout.framesNumber ≤ E := by
  intro layout
  have size : pageFrameSize + pageFrameEntrySize = 4118 := rfl
  rw [size] at room
  have more : K + 8236 ≤ E := by omega
  have number : layout.framesNumber + 1 = (E - K) / 4118 := zone_layout_frames_number limit more
  have bounds : K + layout.framesNumber * 22 ≤ layout.base ∧
      layout.base < K + layout.framesNumber * 22 + 4096 ∧ layout.base % 4096 = 0 :=
    zone_layout_base limit more
  have page : pageSize = 4096 := rfl
  rw [kernelNormalZoneSize] at limit
  rw [page]
  refine ⟨⟨page ▸ bounds.2.2, ?_⟩, by omega, by omega⟩
  rw [pageOffset, page, wordSize]
  omega

end Layouts

/-- The byte belongs to the usable memory from `tableEnd` on, and the kernel reaches it under
this address. -/
structure UsableByte (tables : PageDirectory.Memory × Nat) (tableEnd limit address : Nat) : Prop where
  linear : pageOffset ≤ address
  behind : tableEnd ≤ address - pageOffset
  inside : address - pageOffset < limit
  mapped : walk tables.1 tables.2 address = some (address - pageOffset)

section Boot

variable {memory : Memory} {mmapAddr mmapLength entry K : Nat} {starts : List Nat}

/-- The regions of a safe state, byte by byte. -/
theorem region_bytes_usable (image : PagingImage) (paging : PageDirectory.Memory) (pt0 : Nat)
    {base framesNumber tableEnd limit : Nat} {state : MemoryState}
    (safe : MemorySafe base framesNumber state) (behind : tableEnd ≤ base)
    (within : base + pageSize * framesNumber ≤ limit) (low : limit ≤ kernelNormalZoneSize)
    {region : Nat × Nat} (member : region ∈ regions state) {address : Nat}
    (first : region.1 ≤ address) (last : address < region.1 + region.2) :
    UsableByte (initVmm paging image.pgdK image.tables pt0) tableEnd limit address := by
  obtain ⟨start, stop⟩ := safe.inside region member
  unfold pageAt at start stop
  rw [Nat.mul_comm] at within
  have above : pageOffset ≤ address := by omega
  have under : address - pageOffset < limit := by omega
  refine ⟨above, by omega, under, ?_⟩
  have linear := walk_linear image paging pt0 (Nat.lt_of_lt_of_le under low)
  rwa [Nat.sub_add_cancel above] at linear

end Boot

/-- A reserved entry, and usable memory for 1024 frames behind a kernel that ends at two
megabytes. -/
def sampleUsableMap : Memory := ByteMemory.store (sampleMap 20) (0xC0010018 + 12) 5269526

theorem sample_map_standard :
    StandardMap sampleUsableMap 0x10000 48 [0xC0010000, 0xC0010018] 0xC0010018 := by
  constructor
  all_goals decide +kernel

def sampleRequests : List MemoryOp := [.kmalloc 100, .kmalloc 0x4000, .frames (.frameAlloc 1)]

end ChaoOS.BootMemory
