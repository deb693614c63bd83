import ChaoOS.PageDirectory
import Mathlib.Logic.Function.Basic
import Mathlib.Tactic.Ring

/-!
# The graphical terminal

`kernel/terminal.c` draws characters into the back buffer of `kernel/vbe.c` and
scrolls it with the `memcpy` of the C library, which copies byte by byte from
the front. A screen is the bytes of the buffer by offset.
-/

namespace ChaoOS.TerminalModel

open ChaoOS.KernelMath
open ChaoOS.PageDirectory (pageSize)

set_option autoImplicit false

/-- The fields of `mode_info_block` that are read, all 16 bits wide but for
`bpp`. -/
structure Mode where
  Xres : Nat
  Yres : Nat
  pitch : Nat
  bpp : Nat
  Xres_lt : Xres < 2 ^ 16
  Yres_lt : Yres < 2 ^ 16
  pitch_lt : pitch < 2 ^ 16
  bpp_lt : bpp < 2 ^ 8

/-- The header fields of a font that are read, and its bitmaps by offset. -/
structure Font where
  height : Nat
  width : Nat
  bytesperglyph : Nat
  glyphs : Nat → Nat

abbrev Screen := Nat → Nat

def vramSize (mode : Mode) : Nat :=
  let bpp := nextPowerOf2 mode.bpp
  let pages := mode.Xres * mode.Yres % wordSize * (bpp / 8) % wordSize / pageSize
  pages * pageSize % wordSize

def putPixel (screen : Screen) (x bbs y pitch color : Nat) : Screen :=
  let place := add32 (x * bbs / 8) (y * pitch)
  let screen := Function.update screen place (color &&& 255)
  let screen := Function.update screen (add32 place 1) ((color >>> 8) &&& 255)
  let screen := Function.update screen (add32 place 2) ((color >>> 16) &&& 255)
  Function.update screen (add32 place 3) ((color >>> 24) &&& 255)

def memcpy (memory : Screen) (dst src size : Nat) : Screen :=
  (List.range size).foldl
    (fun memory i => Function.update memory (dst + i) (memory (src + i))) memory

/-- Two nested loops over the rows and columns of a rectangle, which both the
drawing of a character and the clearing of lines consist of. -/
def paint (mode : Mode) (screen : Screen) (x y width height : Nat) (color : Nat → Nat → Nat) :
    Screen :=
  (List.range height).foldl
    (fun screen i =>
      (List.range width).foldl
        (fun screen j => putPixel screen (x + j) mode.bpp (y + i) mode.pitch (color i j)) screen)
    screen

/-- `terminal_t` together with the buffer it draws in. Its position is never
read. -/
structure Terminal where
  width : Nat
  height : Nat
  charX : Nat
  charY : Nat
  rows : Nat
  cols : Nat
  bc : Nat
  fc : Nat
  vbeBuffer : Screen

def initMainTerminal (mode : Mode) (font : Font) (vbeBuffer : Screen) : Terminal :=
  { width := mode.Xres
    height := mode.Yres
    charX := 0
    charY := 0
    rows := mode.Yres / font.height % 2 ^ 16
    cols := mode.Xres / font.width % 2 ^ 16
    fc := 0x00000000
    bc := 0x00ffffff
    vbeBuffer := vbeBuffer }

def mainTerminalRoll (mode : Mode) (font : Font) (terminal : Terminal) : Terminal :=
  let lines := font.height * mode.Xres * 4 % wordSize
  let copied := memcpy terminal.vbeBuffer 0 lines (sub32 (vramSize mode) lines)
  { terminal with
    vbeBuffer := paint mode copied 0 (sub32 terminal.height font.height) terminal.width font.height
      fun _ _ => terminal.bc }

def mainTerminalNewline (mode : Mode) (font : Font) (terminal : Terminal) : Terminal :=
  let charY := (terminal.charY + 1) % 2 ^ 16
  let terminal := { terminal with charY := charY }
  let terminal :=
    if charY = terminal.rows then
      { mainTerminalRoll mode font terminal with charY := terminal.rows - 1 }
    else terminal
  { terminal with charX := 0 }

/-- The bit of a character's bitmap for line `i` and column `j`: the bits of all
lines stand one after the other. -/
def glyphBit (font : Font) (ch i j : Nat) : Bool :=
  let index := (j + i * font.width) / 8
  let bitOff := (j + i * font.width) % 8
  font.glyphs (add32 (ch * font.bytesperglyph % wordSize) index) &&& (1 <<< (7 - bitOff)) != 0

def newlineChar : Nat := 10

def mainTerminalPutchar (mode : Mode) (font : Font) (terminal : Terminal) (ch : Nat) : Terminal :=
  if ch = newlineChar then mainTerminalNewline mode font terminal
  else
    let pixelX := terminal.charX * font.width
    let pixelY := terminal.charY * font.height
    let drawn := paint mode terminal.vbeBuffer pixelX pixelY font.width font.height
      fun i j => if glyphBit font ch i j then terminal.fc else terminal.bc
    let charX := (terminal.charX + 1) % 2 ^ 16
    let terminal := { terminal with vbeBuffer := drawn, charX := charX }
    if charX = terminal.cols then mainTerminalNewline mode font terminal else terminal

def mainTerminalWrite (mode : Mode) (font : Font) (terminal : Terminal) (text : List Nat) :
    Terminal :=
  text.foldl (mainTerminalPutchar mode font) terminal

/-! ## Pictures

What a screen shows is a picture: a colour for each pixel. -/

def colorByte (color index : Nat) : Nat := (color >>> (8 * index)) &&& 255

/-- The offset of a byte of a pixel. -/
def pixelByte (mode : Mode) (x y index : Nat) : Nat := 4 * (y * mode.Xres + x) + index

def Shows (mode : Mode) (screen : Screen) (picture : Nat → Nat → Nat) : Prop :=
  ∀ x y index, x < mode.Xres → y < mode.Yres → index < 4 →
    screen (pixelByte mode x y index) = colorByte (picture x y) index

/-- Four bytes a pixel and no padding between the lines. -/
structure Mode.Plain (mode : Mode) : Prop where
  bpp : mode.bpp = 32
  pitch : mode.pitch = 4 * mode.Xres
  whole : pageSize ∣ 4 * mode.Xres * mode.Yres

section Pixels

variable {mode : Mode} {screen : Screen} {picture : Nat → Nat → Nat} {x y : Nat}

theorem pixel_number_lt (inX : x < mode.Xres) (inY : y < mode.Yres) :
    y * mode.Xres + x < mode.Yres * mode.Xres := by
  calc y * mode.Xres + x < y * mode.Xres + mode.Xres := by omega
    _ = (y + 1) * mode.Xres := by rw [Nat.succ_mul]
    _ ≤ mode.Yres * mode.Xres := Nat.mul_le_mul_right _ inY

theorem pixel_number_injective {x' y' : Nat} (inX : x < mode.Xres) (inX' : x' < mode.Xres)
    (same : y * mode.Xres + x = y' * mode.Xres + x') : x = x' ∧ y = y' := by
  have positive : 0 < mode.Xres := by omega
  have column : x = x' := by
    have taken := congrArg (· % mode.Xres) same
    simpa [Nat.mul_add_mod', Nat.mod_eq_of_lt inX, Nat.mod_eq_of_lt inX'] using taken
  subst column
  refine ⟨rfl, Nat.eq_of_mul_eq_mul_right positive (by omega)⟩

/-- The bytes of all pixels can be counted by a word. -/
theorem frame_size_lt (pitch : mode.pitch = 4 * mode.Xres) :
    4 * (mode.Yres * mode.Xres) < wordSize := by
  have narrow : 4 * mode.Xres < 2 ^ 16 := by
    rw [← pitch]
    exact mode.pitch_lt
  have bound : mode.Yres * (4 * mode.Xres) < 2 ^ 16 * 2 ^ 16 :=
    Nat.mul_lt_mul'' mode.Yres_lt narrow
  have size : wordSize = 2 ^ 16 * 2 ^ 16 := by decide
  rw [size]
  calc 4 * (mode.Yres * mode.Xres) = mode.Yres * (4 * mode.Xres) := by ring
    _ < 2 ^ 16 * 2 ^ 16 := bound

theorem Mode.Plain.size_lt (plain : mode.Plain) : 4 * (mode.Yres * mode.Xres) < wordSize :=
  frame_size_lt plain.pitch

theorem Mode.Plain.vram_size (plain : mode.Plain) :
    vramSize mode = 4 * (mode.Yres * mode.Xres) := by
  have small := plain.size_lt
  have whole : pageSize ∣ mode.Xres * mode.Yres * 4 := by
    have product : mode.Xres * mode.Yres * 4 = 4 * mode.Xres * mode.Yres := by ring
    rw [product]
    exact plain.whole
  have depth : nextPowerOf2 32 / 8 = 4 := by decide
  have commuted : mode.Xres * mode.Yres = mode.Yres * mode.Xres := Nat.mul_comm _ _
  have area : mode.Xres * mode.Yres % wordSize = mode.Xres * mode.Yres :=
    Nat.mod_eq_of_lt (by omega)
  have bytes : mode.Xres * mode.Yres * 4 % wordSize = mode.Xres * mode.Yres * 4 :=
    Nat.mod_eq_of_lt (by omega)
  simp only [vramSize, plain.bpp, depth, area, bytes, Nat.div_mul_cancel whole]
  omega

theorem pixel_offset (bpp : mode.bpp = 32) (pitch : mode.pitch = 4 * mode.Xres)
    (inX : x < mode.Xres) (inY : y < mode.Yres) {index : Nat} (small : index < 4) :
    add32 (add32 (x * mode.bpp / 8) (y * mode.pitch)) index = pixelByte mode x y index := by
  have bound := pixel_number_lt inX inY
  have size := frame_size_lt pitch
  have first : x * 32 / 8 = 4 * x := by omega
  have line : y * (4 * mode.Xres) = 4 * (y * mode.Xres) := by ring
  have start : add32 (4 * x) (4 * (y * mode.Xres)) = 4 * (y * mode.Xres + x) := by
    rw [add32_of_lt (by omega)]
    omega
  rw [bpp, pitch, first, line, start, add32_of_lt (by omega), pixelByte]

theorem pixel_places (plain : mode.Plain) (inX : x < mode.Xres) (inY : y < mode.Yres)
    {index : Nat} (small : index < 4) :
    add32 (add32 (x * mode.bpp / 8) (y * mode.pitch)) index = pixelByte mode x y index :=
  pixel_offset plain.bpp plain.pitch inX inY small

theorem pixel_byte_injective {x' y' index index' : Nat} (inX : x < mode.Xres)
    (inX' : x' < mode.Xres) (small : index < 4) (small' : index' < 4)
    (same : pixelByte mode x y index = pixelByte mode x' y' index') :
    (x = x' ∧ y = y') ∧ index = index' := by
  unfold pixelByte at same
  exact ⟨pixel_number_injective inX inX' (by omega), by omega⟩

/-- `put_pixel` writes the four bytes of the pixel. -/
theorem put_pixel_eq (plain : mode.Plain) (inX : x < mode.Xres) (inY : y < mode.Yres)
    (color : Nat) (place : Nat) :
    putPixel screen x mode.bpp y mode.pitch color place =
      if place = pixelByte mode x y 3 then colorByte color 3
      else if place = pixelByte mode x y 2 then colorByte color 2
      else if place = pixelByte mode x y 1 then colorByte color 1
      else if place = pixelByte mode x y 0 then colorByte color 0
      else screen place := by
  have first : add32 (x * mode.bpp / 8) (y * mode.pitch) = pixelByte mode x y 0 := by
    rw [← pixel_places plain inX inY (show 0 < 4 by omega)]
    exact (Nat.mod_eq_of_lt (Nat.mod_lt _ (by decide))).symm
  have second := pixel_places plain inX inY (show 1 < 4 by omega)
  have third := pixel_places plain inX inY (show 2 < 4 by omega)
  have fourth := pixel_places plain inX inY (show 3 < 4 by omega)
  rw [first] at second third fourth
  simp only [putPixel, first, second, third, fourth, Function.update_apply]
  rfl

/-- A pixel is put where the picture has it, and nowhere else. -/
theorem put_pixel_shows (plain : mode.Plain) (shown : Shows mode screen picture)
    (inX : x < mode.Xres) (inY : y < mode.Yres) (color : Nat) :
    Shows mode (putPixel screen x mode.bpp y mode.pitch color)
      (fun column line => if column = x ∧ line = y then color else picture column line) := by
  intro column line index inColumn inLine small
  rw [put_pixel_eq plain inX inY]
  by_cases here : column = x ∧ line = y
  · obtain ⟨rfl, rfl⟩ := here
    simp only [and_self, if_true, pixelByte, Nat.add_left_cancel_iff]
    have cases4 : index = 0 ∨ index = 1 ∨ index = 2 ∨ index = 3 := by omega
    rcases cases4 with rfl | rfl | rfl | rfl <;> rfl
  · have apart : ∀ other < 4, pixelByte mode column line index ≠ pixelByte mode x y other := by
      intro other below same
      exact here (pixel_byte_injective inColumn inX small below same).1
    rw [if_neg (apart 3 (by omega)), if_neg (apart 2 (by omega)), if_neg (apart 1 (by omega)),
      if_neg (apart 0 (by omega))]
    simp only [if_neg here]
    exact shown column line index inColumn inLine small

theorem Shows.congr {other : Nat → Nat → Nat} (shown : Shows mode screen picture)
    (same : ∀ x y, x < mode.Xres → y < mode.Yres → other x y = picture x y) :
    Shows mode screen other := by
  intro column line index inColumn inLine small
  rw [same column line inColumn inLine]
  exact shown column line index inColumn inLine small

/-- One line of a rectangle. -/
theorem line_shows (plain : mode.Plain) {color : Nat → Nat} (width : Nat)
    (inX : x + width ≤ mode.Xres) (inY : y < mode.Yres) (shown : Shows mode screen picture) :
    Shows mode
      ((List.range width).foldl
        (fun screen j => putPixel screen (x + j) mode.bpp y mode.pitch (color j)) screen)
      (fun column line => if line = y ∧ x ≤ column ∧ column < x + width then color (column - x)
        else picture column line) := by
  induction width with
  | zero =>
      apply shown.congr
      intro column line _ _
      exact if_neg (by omega)
  | succ width induction =>
      rw [List.range_succ, List.foldl_append, List.foldl_cons, List.foldl_nil]
      apply (put_pixel_shows plain (induction (by omega)) (by omega) inY (color width)).congr
      intro column line _ _
      by_cases last : column = x + width ∧ line = y
      · rw [if_pos last, if_pos (by omega), last.1, Nat.add_sub_cancel_left]
      · rw [if_neg last]
        by_cases before : line = y ∧ x ≤ column ∧ column < x + width
        · rw [if_pos before, if_pos (by omega)]
        · rw [if_neg before, if_neg (by omega)]

theorem paint_shows (plain : mode.Plain) {color : Nat → Nat → Nat} (width height : Nat)
    (inX : x + width ≤ mode.Xres) (inY : y + height ≤ mode.Yres)
    (shown : Shows mode screen picture) :
    Shows mode (paint mode screen x y width height color)
      (fun column line =>
        if (y ≤ line ∧ line < y + height) ∧ x ≤ column ∧ column < x + width then
          color (line - y) (column - x)
        else picture column line) := by
  unfold paint
  induction height with
  | zero =>
      apply shown.congr
      intro column line _ _
      exact if_neg (by omega)
  | succ height induction =>
      rw [List.range_succ, List.foldl_append, List.foldl_cons, List.foldl_nil]
      apply (line_shows plain width inX (by omega) (induction (by omega))).congr
      intro column line _ _
      by_cases last : line = y + height ∧ x ≤ column ∧ column < x + width
      · rw [if_pos last, if_pos (by omega), last.1, Nat.add_sub_cancel_left]
      · rw [if_neg last]
        by_cases before : (y ≤ line ∧ line < y + height) ∧ x ≤ column ∧ column < x + width
        · rw [if_pos before, if_pos (by omega)]
        · rw [if_neg before, if_neg (by omega)]

end Pixels

/-- A copy to lower addresses has overwritten nothing that it still has to
read. -/
theorem memcpy_down (memory : Screen) {dst src : Nat} (ordered : dst ≤ src) (size place : Nat) :
    memcpy memory dst src size place =
      if dst ≤ place ∧ place < dst + size then memory (src + (place - dst)) else memory place := by
  induction size generalizing place with
  | zero => exact (if_neg (by omega)).symm
  | succ size induction =>
      have unfolded : memcpy memory dst src (size + 1) =
          Function.update (memcpy memory dst src size) (dst + size)
            (memcpy memory dst src size (src + size)) := by
        simp only [memcpy, List.range_succ, List.foldl_append, List.foldl_cons, List.foldl_nil]
      rw [unfolded, Function.update_apply]
      by_cases last : place = dst + size
      · rw [if_pos last, induction, if_neg (by omega), if_pos (by omega), last,
          Nat.add_sub_cancel_left]
      · rw [if_neg last, induction]
        by_cases before : dst ≤ place ∧ place < dst + size
        · rw [if_pos before, if_pos (by omega)]
        · rw [if_neg before, if_neg (by omega)]

end ChaoOS.TerminalModel
