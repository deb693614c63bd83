import ChaoOS.FrameTableModel
import ChaoOS.KernelPageTables

/-!
# Where `init_normal_mem_zone` puts the frame table and the pool

The table of 22-byte entries starts at the physical end of the kernel, and the
pool of 4 KiB frames at the next page boundary after it. The frame count comes
from dividing the room by the size of a frame and its entry, less one; the one
frame given up pays for the rounding.
-/

namespace ChaoOS.ZoneLayout

open ChaoOS.FrameTableModel ChaoOS.KernelMath ChaoOS.KernelPageTables ChaoOS.PageDirectory

set_option autoImplicit false

/-- `sizeof(page_frame_t)`: two bytes and five words, packed. -/
def pageFrameEntrySize : Nat := 22

/-- `offsetof(page_frame_t, next_frame)`. Of the entry `pages[frames_number]` behind the
table the buddy system reads the flags and the level and writes `prev_frame`. -/
def behindTableSize : Nat := 14

/-- In the linear map, the table of a kernel that ends at `kernelEnd` and those fields. -/
def tableRegion (kernelEnd framesNumber : Nat) : Nat × Nat :=
  (pageOffset + kernelEnd, pageFrameEntrySize * framesNumber + behindTableSize)

/-- They end below the pool. For some kernel ends the rounding of the pool's start leaves
less than 14 bytes, and `prev_frame` reaches into the first frame. -/
def TableBelow (kernelEnd base framesNumber : Nat) : Prop :=
  kernelEnd + pageFrameEntrySize * framesNumber + behindTableSize ≤ base

instance (kernelEnd base framesNumber : Nat) :
    Decidable (TableBelow kernelEnd base framesNumber) :=
  inferInstanceAs (Decidable (_ ≤ _))

def alignMaskHelper : Nat := 0xFFF

/-- The fields of `normal_mem` that fix the layout; `frames` is the physical
address of the table. -/
structure Layout where
  frames : Nat
  base : Nat
  length : Nat
  framesNumber : Nat
  deriving Repr, DecidableEq

def zoneLayout (kernelEnd endAddr : Nat) : Layout :=
  let baseAddr := sub32 kernelEnd pageOffset
  let length := sub32 endAddr baseAddr
  let framesNumber := sub32 (length / (pageFrameSize + pageFrameEntrySize)) 1
  let memBase := add32 baseAddr (mul32 framesNumber pageFrameEntrySize)
  let memBase := add32 memBase alignMaskHelper &&& pageMask
  { frames := baseAddr
    base := memBase
    length := mul32 framesNumber pageFrameSize
    framesNumber := framesNumber }

/-- Every sum, difference and product of the layout, and of the loop that fills
the table in, is the one of the integers. -/
structure Unwrapped (kernelEnd endAddr : Nat) (layout : Layout) : Prop where
  base_addr : layout.frames + pageOffset = kernelEnd
  room : layout.frames ≤ endAddr
  frames_number : layout.framesNumber + 1 =
    (endAddr - layout.frames) / (pageFrameSize + pageFrameEntrySize)
  table_size : layout.framesNumber * pageFrameEntrySize < wordSize
  table_end : layout.frames + layout.framesNumber * pageFrameEntrySize < wordSize
  rounding : layout.frames + layout.framesNumber * pageFrameEntrySize + alignMaskHelper < wordSize
  length : layout.length = layout.framesNumber * pageFrameSize
  table_address : layout.frames + layout.framesNumber * pageFrameEntrySize + pageOffset < wordSize
  frame_address : ∀ i, i < layout.framesNumber →
    (initialFrame layout.base layout.framesNumber i).physicAddr = layout.base + i * pageFrameSize

section Room

variable {K E : Nat} (limit : E ≤ kernelNormalZoneSize) (room : K + 8236 ≤ E)

include limit room

theorem zone_layout_frames : (zoneLayout (K + pageOffset) E).frames = K := by
  rw [kernelNormalZoneSize] at limit
  have word : K + pageOffset < wordSize := by
    rw [pageOffset, wordSize]
    omega
  simp only [zoneLayout]
  rw [sub32_of_le word (by omega), Nat.add_sub_cancel]

theorem zone_layout_frames_number :
    (zoneLayout (K + pageOffset) E).framesNumber + 1 = (E - K) / 4118 := by
  have frames := zone_layout_frames limit room
  simp only [zoneLayout] at frames ⊢
  rw [kernelNormalZoneSize] at limit
  have word : E < wordSize := by
    rw [wordSize]
    omega
  have divided : (E - K) / (pageFrameSize + pageFrameEntrySize) = (E - K) / 4118 := rfl
  rw [frames, sub32_of_le word (by omega), divided,
    sub32_of_le (by rw [wordSize]; omega) (by omega)]
  omega

/-- Twenty-two bytes for each frame and the rounding fit below the pool's end. -/
theorem zone_layout_base :
    K + (zoneLayout (K + pageOffset) E).framesNumber * 22 ≤ (zoneLayout (K + pageOffset) E).base ∧
      (zoneLayout (K + pageOffset) E).base <
        K + (zoneLayout (K + pageOffset) E).framesNumber * 22 + 4096 ∧
      (zoneLayout (K + pageOffset) E).base % 4096 = 0 := by
  have frames := zone_layout_frames limit room
  have number := zone_layout_frames_number limit room
  rw [kernelNormalZoneSize] at limit
  have expanded : (zoneLayout (K + pageOffset) E).base =
      add32 (add32 (zoneLayout (K + pageOffset) E).frames
        (mul32 (zoneLayout (K + pageOffset) E).framesNumber pageFrameEntrySize)) alignMaskHelper &&&
        pageMask := rfl
  rw [frames] at expanded
  generalize zoneLayout (K + pageOffset) E = layout at *
  have small : K + layout.framesNumber * 22 + 4095 < wordSize := by
    rw [wordSize]
    omega
  have rounded : layout.base = (K + layout.framesNumber * 22 + 4095) / 4096 * 4096 := by
    rw [expanded, page_mask_eq, mul32, pageFrameEntrySize, alignMaskHelper,
      Nat.mod_eq_of_lt (show layout.framesNumber * 22 < wordSize by omega),
      add32_of_lt (show K + layout.framesNumber * 22 < wordSize by omega), add32_of_lt small,
      pageSize]
    rw [wordSize] at small
    omega
  omega

theorem zone_layout_unwrapped :
    Unwrapped (K + pageOffset) E (zoneLayout (K + pageOffset) E) := by
  have frames := zone_layout_frames limit room
  have number := zone_layout_frames_number limit room
  have bounds := zone_layout_base limit room
  have length : (zoneLayout (K + pageOffset) E).length =
      mul32 (zoneLayout (K + pageOffset) E).framesNumber pageFrameSize := rfl
  rw [kernelNormalZoneSize] at limit
  generalize zoneLayout (K + pageOffset) E = layout at *
  have size : pageFrameSize = 4096 := rfl
  have entry : pageFrameEntrySize = 22 := rfl
  have word : wordSize = 4294967296 := rfl
  constructor
  case base_addr => rw [frames]
  case room => omega
  case frames_number => rw [frames, number, size, entry]
  case table_size =>
      rw [entry, word]
      omega
  case table_end =>
      rw [entry, word]
      omega
  case rounding =>
      rw [entry, word, alignMaskHelper]
      omega
  case length =>
      rw [length, mul32, size, word]
      apply Nat.mod_eq_of_lt
      omega
  case table_address =>
      rw [entry, word, pageOffset]
      omega
  case frame_address =>
      intro i inside
      apply add32_of_lt
      rw [size, word]
      omega

end Room

/-- The table and the pool lie where `init_vmm` maps memory linearly: table,
pool and region end follow each other, and an address of either is read back
`PAGE_OFFSET` higher. -/
theorem zone_layout_mapped (image : PagingImage) (memory : Memory) (pt0 K E : Nat)
    (limit : E ≤ 0x38000000) (room : K + 8236 ≤ E) :
    let layout := zoneLayout (K + pageOffset) E
    let paging := initVmm memory image.pgdK image.tables pt0
    Unwrapped (K + pageOffset) E layout ∧
      1 ≤ layout.framesNumber ∧
      layout.frames = K ∧
      K + 22 * layout.framesNumber ≤ layout.base ∧
      layout.base % 4096 = 0 ∧
      layout.base + 4096 * layout.framesNumber ≤ E ∧
      ∀ a, (K ≤ a ∧ a < K + 22 * layout.framesNumber ∨
          layout.base ≤ a ∧ a < layout.base + 4096 * layout.framesNumber) →
        a + pageOffset < wordSize ∧ walk paging.1 paging.2 (a + pageOffset) = some a := by
  intro layout paging
  have unwrapped := zone_layout_unwrapped limit room
  have frames := zone_layout_frames limit room
  have number : layout.framesNumber + 1 = (E - K) / 4118 := zone_layout_frames_number limit room
  have bounds : K + layout.framesNumber * 22 ≤ layout.base ∧
      layout.base < K + layout.framesNumber * 22 + 4096 ∧ layout.base % 4096 = 0 :=
    zone_layout_base limit room
  have poolEnd : layout.base + 4096 * layout.framesNumber ≤ E := by omega
  refine ⟨unwrapped, by omega, frames, by omega, bounds.2.2, poolEnd, ?_⟩
  intro a covered
  have below : a < kernelNormalZoneSize := by
    rw [kernelNormalZoneSize]
    omega
  refine ⟨?_, walk_linear image memory pt0 below⟩
  rw [kernelNormalZoneSize] at below
  rw [pageOffset, wordSize]
  omega

def sampleImage : PagingImage where
  pgdK := 0xC0120000
  tables := 0xC0121000
  pgd_aligned := by decide
  tables_aligned := by decide
  pgd_linked := by decide
  tables_linked := by decide
  apart := by decide

theorem zone_layout_mapped_sample :
    (zoneLayout (0xF15000 + pageOffset) 0x7FE0000).base +
        4096 * (zoneLayout (0xF15000 + pageOffset) 0x7FE0000).framesNumber ≤ 0x7FE0000 ∧
      walk (initVmm (fun _ => 0) sampleImage.pgdK sampleImage.tables 0x2000).1
        (initVmm (fun _ => 0) sampleImage.pgdK sampleImage.tables 0x2000).2
        (0xF15000 + pageOffset) = some 0xF15000 := by
  obtain ⟨-, counted, -, -, -, poolEnd, mapped⟩ :=
    zone_layout_mapped sampleImage (fun _ => 0) 0x2000 0xF15000 0x7FE0000 (by decide) (by decide)
  exact ⟨poolEnd, (mapped 0xF15000 (Or.inl ⟨le_refl _, by omega⟩)).2⟩

end ChaoOS.ZoneLayout
