import ChaoOS.SliceHeapModel
import ChaoOS.TerminalModel

/-!
# The back buffer of `kernel/vbe.c`

`init_vbe` counts the pages of the screen with a division that drops the last,
incomplete page; the buffer is allocated with this many pages, and its clearing
loop runs over all pixels. The offsets that the loop and `swap_buffer` read or
write are kept in a log.
-/

namespace ChaoOS.BackBuffer

open ChaoOS.KernelMath ChaoOS.TerminalModel
open ChaoOS.PageDirectory (pageSize)
open ChaoOS.SliceHeapModel (maxAlloc)

set_option autoImplicit false

structure Buffer where
  bytes : Screen
  touched : List Nat

namespace Buffer

def write (buffer : Buffer) (offset value : Nat) : Buffer where
  bytes := Function.update buffer.bytes offset value
  touched := offset :: buffer.touched

/-- Records that a byte is read. -/
def read (buffer : Buffer) (offset : Nat) : Buffer :=
  { buffer with touched := offset :: buffer.touched }

end Buffer

/-- `put_pixel` on a buffer with its log. -/
def putPixelOn (screen : Buffer) (x bbs y pitch color : Nat) : Buffer :=
  let place := add32 (x * bbs / 8) (y * pitch)
  let screen := screen.write place (color &&& 255)
  let screen := screen.write (add32 place 1) ((color >>> 8) &&& 255)
  let screen := screen.write (add32 place 2) ((color >>> 16) &&& 255)
  screen.write (add32 place 3) ((color >>> 24) &&& 255)

/-- The video memory and `vbe_buffer`. -/
structure Display where
  vram : Buffer
  vbeBuffer : Buffer

def clearPixel (mode : Mode) (display : Display) (i j : Nat) : Display where
  vram := putPixelOn display.vram i mode.bpp j mode.pitch 0xffffff
  vbeBuffer := putPixelOn display.vbeBuffer i mode.bpp j mode.pitch 0xffffff

/-- The clearing loop of `init_vbe`. -/
def initVbe (mode : Mode) (display : Display) : Display :=
  (List.range mode.Xres).foldl
    (fun display i =>
      (List.range mode.Yres).foldl (fun display j => clearPixel mode display i j) display)
    display

/-- `memcpy` from the buffer to the video memory. -/
def swapBuffer (mode : Mode) (display : Display) : Display :=
  (List.range (vramSize mode)).foldl
    (fun display i =>
      { vram := display.vram.write i (display.vbeBuffer.bytes i)
        vbeBuffer := display.vbeBuffer.read i })
    display

/-- After `init_vbe` and some calls of the timer. -/
def displayAfter (mode : Mode) (start : Display) : Nat → Display
  | 0 => initVbe mode start
  | swaps + 1 => swapBuffer mode (displayAfter mode start swaps)

/-- A mode of four bytes a pixel whose buffer `kmalloc` does not refuse. -/
structure Supported (mode : Mode) : Prop where
  bpp : mode.bpp = 32
  pitch : mode.pitch = 4 * mode.Xres
  columns : 1 ≤ mode.Xres
  lines : 1 ≤ mode.Yres
  allowed : vramSize mode ≤ maxAlloc

/-! ## Logs of loops -/

def Touches (display : Display) (offset : Nat) : Prop := offset ∈ display.vbeBuffer.touched

/-- A loop touches what its rounds touch. -/
theorem fold_touches {Item : Type*} {body : Display → Item → Display} {adds : Item → Nat → Prop}
    (round : ∀ display item offset,
      Touches (body display item) offset ↔ adds item offset ∨ Touches display offset)
    (items : List Item) (display : Display) (offset : Nat) :
    Touches (items.foldl body display) offset ↔
      (∃ item ∈ items, adds item offset) ∨ Touches display offset := by
  induction items generalizing display with
  | nil => simp
  | cons first rest induction =>
      rw [List.foldl_cons, induction, round, ← or_assoc]
      simp only [List.mem_cons, exists_eq_or_imp, or_comm]

section Touched

variable {mode : Mode} {display : Display} {offset : Nat}

theorem clear_pixel_touches (mode : Mode) (display : Display) (i j offset : Nat) :
    Touches (clearPixel mode display i j) offset ↔
      (∃ index < 4, offset = add32 (add32 (i * mode.bpp / 8) (j * mode.pitch)) index) ∨
        Touches display offset := by
  have first : add32 (add32 (i * mode.bpp / 8) (j * mode.pitch)) 0 =
      add32 (i * mode.bpp / 8) (j * mode.pitch) :=
    add32_of_lt (Nat.mod_lt _ (by decide))
  simp only [Touches, clearPixel, putPixelOn, Buffer.write, List.mem_cons]
  generalize add32 (i * mode.bpp / 8) (j * mode.pitch) = place at *
  constructor
  · rintro (here | here | here | here | earlier)
    · exact Or.inl ⟨3, by decide, here⟩
    · exact Or.inl ⟨2, by decide, here⟩
    · exact Or.inl ⟨1, by decide, here⟩
    · exact Or.inl ⟨0, by decide, here.trans first.symm⟩
    · exact Or.inr earlier
  · rintro (⟨index, small, here⟩ | earlier)
    · have cases4 : index = 0 ∨ index = 1 ∨ index = 2 ∨ index = 3 := by omega
      rcases cases4 with zero | one | two | three
      · rw [zero, first] at here
        simp [here]
      · simp [here, one]
      · simp [here, two]
      · simp [here, three]
    · simp [earlier]

/-- The bytes of all pixels lie one after the other. -/
theorem pixel_bytes (supported : Supported mode) (offset : Nat) :
    (∃ i ∈ List.range mode.Xres, ∃ j ∈ List.range mode.Yres, ∃ index < 4,
      offset = add32 (add32 (i * mode.bpp / 8) (j * mode.pitch)) index) ↔
      offset < 4 * (mode.Yres * mode.Xres) := by
  constructor
  · rintro ⟨i, inX, j, inY, index, small, here⟩
    rw [List.mem_range] at inX inY
    rw [pixel_offset supported.bpp supported.pitch inX inY small, pixelByte] at here
    have bound := pixel_number_lt inX inY
    omega
  · intro inside
    have positive : 0 < mode.Xres := supported.columns
    have inX : offset / 4 % mode.Xres < mode.Xres := Nat.mod_lt _ positive
    have inY : offset / 4 / mode.Xres < mode.Yres :=
      (Nat.div_lt_iff_lt_mul positive).mpr (by omega)
    have small : offset % 4 < 4 := Nat.mod_lt _ (by decide)
    refine ⟨offset / 4 % mode.Xres, List.mem_range.mpr inX, offset / 4 / mode.Xres,
      List.mem_range.mpr inY, offset % 4, small, ?_⟩
    rw [pixel_offset supported.bpp supported.pitch inX inY small, pixelByte, Nat.mul_comm _ mode.Xres,
      Nat.div_add_mod]
    omega

theorem init_vbe_touches (supported : Supported mode) (display : Display) (offset : Nat) :
    Touches (initVbe mode display) offset ↔
      offset < 4 * (mode.Yres * mode.Xres) ∨ Touches display offset := by
  have column : ∀ (display : Display) (i offset : Nat),
      Touches ((List.range mode.Yres).foldl
        (fun display j => clearPixel mode display i j) display) offset ↔
        (∃ j ∈ List.range mode.Yres, ∃ index < 4,
          offset = add32 (add32 (i * mode.bpp / 8) (j * mode.pitch)) index) ∨
          Touches display offset := by
    intro display i offset
    exact fold_touches (fun display j => clear_pixel_touches mode display i j) _ display offset
  rw [initVbe, fold_touches column, pixel_bytes supported]

theorem swap_buffer_touches (mode : Mode) (display : Display) (offset : Nat) :
    Touches (swapBuffer mode display) offset ↔
      offset < vramSize mode ∨ Touches display offset := by
  have round : ∀ (display : Display) (i offset : Nat),
      Touches { vram := display.vram.write i (display.vbeBuffer.bytes i)
                vbeBuffer := display.vbeBuffer.read i } offset ↔
        offset = i ∨ Touches display offset := by
    intro display i offset
    exact List.mem_cons
  rw [swapBuffer, fold_touches round]
  simp only [List.mem_range, exists_eq_right']

end Touched

/-! ## The bound -/

section Bound

variable {mode : Mode}

/-- The size of the buffer is the size of the screen without its last, incomplete
page. -/
theorem vram_size_eq (supported : Supported mode) :
    vramSize mode = mode.Yres * mode.Xres / 1024 * pageSize := by
  have small := frame_size_lt supported.pitch
  have depth : nextPowerOf2 32 / 8 = 4 := by decide
  have commuted : mode.Xres * mode.Yres = mode.Yres * mode.Xres := Nat.mul_comm _ _
  simp only [vramSize, supported.bpp, depth, commuted]
  generalize mode.Yres * mode.Xres = area at small
  rw [pageSize]
  rw [wordSize] at *
  omega

theorem display_after_touches (supported : Supported mode) {start : Display}
    (blank : start.vbeBuffer.touched = []) (swaps offset : Nat) :
    Touches (displayAfter mode start swaps) offset ↔ offset < 4 * (mode.Yres * mode.Xres) := by
  induction swaps with
  | zero =>
      rw [displayAfter, init_vbe_touches supported, Touches, blank]
      simp
  | succ swaps induction =>
      rw [displayAfter, swap_buffer_touches, induction]
      have size := vram_size_eq supported
      rw [pageSize] at size
      omega

/-- Everything touched is inside the buffer exactly when the pixels fill whole
pages. -/
theorem back_buffer_inside_iff (supported : Supported mode) {start : Display}
    (blank : start.vbeBuffer.touched = []) (swaps : Nat) :
    (∀ offset ∈ (displayAfter mode start swaps).vbeBuffer.touched, offset < vramSize mode) ↔
      1024 ∣ mode.Xres * mode.Yres := by
  have touched := display_after_touches supported blank swaps
  have positive : 0 < mode.Yres * mode.Xres := Nat.mul_pos supported.lines supported.columns
  rw [vram_size_eq supported, Nat.mul_comm mode.Xres, pageSize]
  constructor
  · intro inside
    have last := inside (4 * (mode.Yres * mode.Xres) - 1) ((touched _).mpr (by omega))
    omega
  · intro whole offset member
    have bound := (touched offset).mp member
    omega

end Bound

/-! ### Two resolutions -/

theorem color_depth_fits : 32 < 2 ^ 8 := by decide

/-- The mode that the boot header asks for. -/
def requestedMode : Mode where
  Xres := 1024
  Yres := 768
  pitch := 4096
  bpp := 32
  Xres_lt := by decide
  Yres_lt := by decide
  pitch_lt := by decide
  bpp_lt := color_depth_fits

def smallerMode : Mode where
  Xres := 800
  Yres := 600
  pitch := 3200
  bpp := 32
  Xres_lt := by decide
  Yres_lt := by decide
  pitch_lt := by decide
  bpp_lt := color_depth_fits

def blankDisplay : Display := ⟨⟨fun _ => 0, []⟩, ⟨fun _ => 0, []⟩⟩

theorem requested_mode_supported : Supported requestedMode :=
  ⟨rfl, rfl, by decide, by decide, by decide +kernel⟩

theorem smaller_mode_supported : Supported smallerMode :=
  ⟨rfl, rfl, by decide, by decide, by decide +kernel⟩

theorem back_buffer_inside_sample :
    3145727 ∈ (displayAfter requestedMode blankDisplay 1).vbeBuffer.touched ∧
      ∀ offset ∈ (displayAfter requestedMode blankDisplay 1).vbeBuffer.touched,
        offset < vramSize requestedMode :=
  ⟨(display_after_touches requested_mode_supported rfl 1 3145727).mpr (by decide),
    (back_buffer_inside_iff requested_mode_supported rfl 1).mpr (by decide)⟩

/-- The last pixels of a screen of 800 by 600 pixels are outside. -/
theorem back_buffer_overrun : ¬∀ (mode : Mode) (start : Display) (swaps : Nat), Supported mode →
    start.vbeBuffer.touched = [] →
    ∀ offset ∈ (displayAfter mode start swaps).vbeBuffer.touched, offset < vramSize mode := by
  intro inside
  have always := inside smallerMode blankDisplay 0 smaller_mode_supported rfl
  have last := always 1919999 ((display_after_touches smaller_mode_supported rfl 0 1919999).mpr
    (by decide))
  exact absurd last (by decide +kernel)

end ChaoOS.BackBuffer
