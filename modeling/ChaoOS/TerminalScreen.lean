import ChaoOS.TerminalModel

/-!
# The terminal shows its text

A reference terminal keeps a grid of cells and a cursor. Its picture has the
bitmap of a cell's character in the place of the cell and background everywhere
else. The terminal keeps showing the picture of the reference terminal that has
read the same characters.
-/

namespace ChaoOS.TerminalScreen

open ChaoOS.KernelMath ChaoOS.TerminalModel

set_option autoImplicit false

/-! ## The reference terminal -/

structure Grid where
  cells : Nat → Nat → Option Nat
  row : Nat
  col : Nat

def Grid.blank : Grid := { cells := fun _ _ => none, row := 0, col := 0 }

/-- The next line; behind the last one all rows move up and a blank one comes
in. -/
def Grid.newline (rows : Nat) (grid : Grid) : Grid :=
  if grid.row + 1 = rows then
    { cells := fun row col => if row + 1 < rows then grid.cells (row + 1) col else none
      row := grid.row
      col := 0 }
  else { grid with row := grid.row + 1, col := 0 }

/-- The grid with the character in the cell at the cursor. -/
def Grid.written (grid : Grid) (ch : Nat) : Grid :=
  { cells := fun row col =>
      if row = grid.row ∧ col = grid.col then some ch else grid.cells row col
    row := grid.row
    col := grid.col + 1 }

/-- A character goes to the cursor; a full row is left at once. -/
def Grid.put (rows cols : Nat) (grid : Grid) (ch : Nat) : Grid :=
  if ch = newlineChar then grid.newline rows
  else if (grid.written ch).col = cols then (grid.written ch).newline rows
  else grid.written ch

def Grid.write (rows cols : Nat) (grid : Grid) (text : List Nat) : Grid :=
  text.foldl (Grid.put rows cols) grid

def background : Nat := 0x00ffffff
def foreground : Nat := 0x00000000

/-- The colour of a line and column of a cell. -/
def cellColor (font : Font) (i j : Nat) : Option Nat → Nat
  | none => background
  | some ch => if glyphBit font ch i j then foreground else background

def Grid.picture (font : Font) (rows cols : Nat) (grid : Grid) (x y : Nat) : Nat :=
  if y / font.height < rows ∧ x / font.width < cols then
    cellColor font (y % font.height) (x % font.width)
      (grid.cells (y / font.height) (x / font.width))
  else background

/-! ## Fonts that fit -/

structure Fits (mode : Mode) (font : Font) : Prop where
  plain : mode.Plain
  width_pos : 1 ≤ font.width
  width_le : font.width ≤ mode.Xres
  height_pos : 1 ≤ font.height
  height_le : font.height ≤ mode.Yres

def rowsOf (mode : Mode) (font : Font) : Nat := mode.Yres / font.height

def colsOf (mode : Mode) (font : Font) : Nat := mode.Xres / font.width

section Rolling

variable {mode : Mode} {font : Font} {screen : Screen} {picture : Nat → Nat → Nat}

/-- The copy moves every line up that has one to take its place. -/
theorem copy_shows (fits : Fits mode font) (shown : Shows mode screen picture) :
    Shows mode
      (memcpy screen 0 (font.height * mode.Xres * 4 % wordSize)
        (sub32 (vramSize mode) (font.height * mode.Xres * 4 % wordSize)))
      (fun x y => if y + font.height < mode.Yres then picture x (y + font.height)
        else picture x y) := by
  have size := fits.plain.size_lt
  have tall : font.height * mode.Xres ≤ mode.Yres * mode.Xres :=
    Nat.mul_le_mul_right _ fits.height_le
  have lines : font.height * mode.Xres * 4 % wordSize = font.height * mode.Xres * 4 :=
    Nat.mod_eq_of_lt (by omega)
  rw [lines, fits.plain.vram_size, sub32_of_le size (by omega)]
  intro x y index inX inY small
  rw [memcpy_down _ (Nat.zero_le _)]
  have number := pixel_number_lt inX inY
  have sum : (y + font.height) * mode.Xres = y * mode.Xres + font.height * mode.Xres :=
    Nat.add_mul _ _ _
  by_cases above : y + font.height < mode.Yres
  · have moved := pixel_number_lt inX above
    have place : font.height * mode.Xres * 4 + (pixelByte mode x y index - 0) =
        pixelByte mode x (y + font.height) index := by
      unfold pixelByte
      omega
    rw [if_pos (by unfold pixelByte; omega), place]
    simp only [if_pos above]
    exact shown x (y + font.height) index inX above small
  · have below : mode.Yres * mode.Xres ≤ (y + font.height) * mode.Xres :=
      Nat.mul_le_mul_right _ (by omega)
    rw [if_neg (by unfold pixelByte; omega)]
    simp only [if_neg above]
    exact shown x y index inX inY small

/-- Rolling moves the picture up by the height of a character and clears what
comes in from below. -/
theorem roll_shows (fits : Fits mode font) {terminal : Terminal}
    (width : terminal.width = mode.Xres) (height : terminal.height = mode.Yres)
    (bc : terminal.bc = background) (shown : Shows mode terminal.vbeBuffer picture) :
    Shows mode (mainTerminalRoll mode font terminal).vbeBuffer
      (fun x y => if y + font.height < mode.Yres then picture x (y + font.height)
        else background) := by
  have tall := fits.height_le
  have word : mode.Yres < wordSize := lt_trans mode.Yres_lt (by decide)
  simp only [mainTerminalRoll, width, height, bc, sub32_of_le word tall]
  apply (paint_shows fits.plain mode.Xres font.height (by omega) (by omega)
    (copy_shows fits shown)).congr
  intro x y inX inY
  by_cases above : y + font.height < mode.Yres
  · rw [if_pos above, if_neg (by omega), if_pos above]
  · rw [if_neg above, if_pos (by omega)]

end Rolling

/-! ## Cells and pixels -/

section Cells

variable {mode : Mode} {font : Font} {grid : Grid} {rows cols x y : Nat}

theorem div_eq_iff_within (cell place : Nat) {size : Nat} (positive : 1 ≤ size) :
    place / size = cell ↔ cell * size ≤ place ∧ place < cell * size + size := by
  have step : (cell + 1) * size = cell * size + size := Nat.succ_mul cell size
  constructor
  · rintro rfl
    exact ⟨Nat.div_mul_le_self place size, Nat.lt_div_mul_add positive⟩
  · rintro ⟨lower, upper⟩
    have least : cell ≤ place / size := (Nat.le_div_iff_mul_le positive).mpr lower
    have most : place / size < cell + 1 :=
      (Nat.div_lt_iff_lt_mul positive).mpr (by rw [step]; exact upper)
    omega

theorem mod_eq_sub_within {size cell place : Nat} (here : place / size = cell) :
    place % size = place - cell * size := by
  have split := Nat.div_add_mod place size
  rw [here, Nat.mul_comm] at split
  omega

/-- The cell at the cursor gets the bitmap of the character. -/
theorem written_picture (fits : Fits mode font) (ch : Nat) (inRow : grid.row < rows)
    (inCol : grid.col < cols) :
    (grid.written ch).picture font rows cols x y =
      if (grid.row * font.height ≤ y ∧ y < grid.row * font.height + font.height) ∧
          grid.col * font.width ≤ x ∧ x < grid.col * font.width + font.width then
        if glyphBit font ch (y - grid.row * font.height) (x - grid.col * font.width) then foreground
        else background
      else grid.picture font rows cols x y := by
  have rowIff := div_eq_iff_within grid.row y fits.height_pos
  have colIff := div_eq_iff_within grid.col x fits.width_pos
  simp only [Grid.picture, Grid.written]
  by_cases here : y / font.height = grid.row ∧ x / font.width = grid.col
  · have inGrid : y / font.height < rows ∧ x / font.width < cols := by
      rw [here.1, here.2]
      exact ⟨inRow, inCol⟩
    rw [if_pos inGrid, if_pos here, cellColor, mod_eq_sub_within here.1,
      mod_eq_sub_within here.2, if_pos (And.intro (rowIff.mp here.1) (colIff.mp here.2))]
  · have outside : ¬((grid.row * font.height ≤ y ∧ y < grid.row * font.height + font.height) ∧
        grid.col * font.width ≤ x ∧ x < grid.col * font.width + font.width) := by
      rintro ⟨inLine, inColumn⟩
      exact here ⟨rowIff.mpr inLine, colIff.mpr inColumn⟩
    rw [if_neg outside, if_neg here]

/-- Moving the rows of the grid up is moving the picture up. -/
theorem scrolled_picture (fits : Fits mode font) (last : grid.row + 1 = rowsOf mode font) :
    (grid.newline (rowsOf mode font)).picture font (rowsOf mode font) cols x y =
      if y + font.height < mode.Yres then
        grid.picture font (rowsOf mode font) cols x (y + font.height)
      else background := by
  have positive := fits.height_pos
  have next : (y + font.height) / font.height = y / font.height + 1 :=
    Nat.add_div_right y positive
  have same : (y + font.height) % font.height = y % font.height := Nat.add_mod_right y font.height
  have reaches : ¬y + font.height < mode.Yres → ¬y / font.height + 1 < rowsOf mode font := by
    intro below
    rw [← next, rowsOf, not_lt]
    exact Nat.div_le_div_right (by omega)
  simp only [Grid.newline, if_pos last, Grid.picture, next, same]
  by_cases another : y / font.height + 1 < rowsOf mode font
  · have above : y + font.height < mode.Yres := by
      by_contra below
      exact reaches below another
    have here : y / font.height < rowsOf mode font := by omega
    simp only [above, another, here, if_true, true_and]
  · simp only [another, if_false, false_and, cellColor, ite_self]

end Cells

/-! ## The simulation -/

/-- The terminal has the cursor of the reference terminal, which may stand
behind the last column, and shows its picture. -/
structure Drawn (mode : Mode) (font : Font) (terminal : Terminal) (grid : Grid) : Prop where
  width : terminal.width = mode.Xres
  height : terminal.height = mode.Yres
  rows : terminal.rows = rowsOf mode font
  cols : terminal.cols = colsOf mode font
  bc : terminal.bc = background
  fc : terminal.fc = foreground
  charX : terminal.charX = grid.col
  charY : terminal.charY = grid.row
  inRow : grid.row < rowsOf mode font
  shown : Shows mode terminal.vbeBuffer
    (grid.picture font (rowsOf mode font) (colsOf mode font))

structure Matches (mode : Mode) (font : Font) (terminal : Terminal) (grid : Grid) : Prop
    extends Drawn mode font terminal grid where
  inCol : grid.col < colsOf mode font

section Simulation

variable {mode : Mode} {font : Font} {terminal : Terminal} {grid : Grid}

theorem rows_lt (mode : Mode) (font : Font) : rowsOf mode font < 2 ^ 16 :=
  lt_of_le_of_lt (Nat.div_le_self _ _) mode.Yres_lt

theorem cols_lt (mode : Mode) (font : Font) : colsOf mode font < 2 ^ 16 :=
  lt_of_le_of_lt (Nat.div_le_self _ _) mode.Xres_lt

theorem cols_pos (fits : Fits mode font) : 0 < colsOf mode font :=
  Nat.div_pos fits.width_le fits.width_pos

theorem rows_pos (fits : Fits mode font) : 0 < rowsOf mode font :=
  Nat.div_pos fits.height_le fits.height_pos

theorem newline_matches (fits : Fits mode font) (drawn : Drawn mode font terminal grid) :
    Matches mode font (mainTerminalNewline mode font terminal)
      (grid.newline (rowsOf mode font)) := by
  obtain ⟨width, height, rows, cols, bc, fc, charX, charY, inRow, shown⟩ := drawn
  have bound := rows_lt mode font
  have count : (terminal.charY + 1) % 2 ^ 16 = grid.row + 1 := by
    rw [charY]
    exact Nat.mod_eq_of_lt (by omega)
  by_cases last : grid.row + 1 = rowsOf mode font
  · have rolled : Shows mode
        (mainTerminalRoll mode font { terminal with charY := grid.row + 1 }).vbeBuffer _ :=
      roll_shows fits width height bc shown
    have after : mainTerminalNewline mode font terminal =
        { mainTerminalRoll mode font { terminal with charY := grid.row + 1 } with
          charY := rowsOf mode font - 1
          charX := 0 } := by
      simp only [mainTerminalNewline, count, rows, if_pos last]
    have next : grid.newline (rowsOf mode font) =
        { cells := (grid.newline (rowsOf mode font)).cells, row := grid.row, col := 0 } := by
      simp only [Grid.newline, if_pos last]
    rw [after, next]
    refine ⟨⟨width, height, rows, cols, bc, fc, rfl, ?_, inRow, ?_⟩, cols_pos fits⟩
    · simp only
      omega
    · apply rolled.congr
      intro x y _ _
      rw [← scrolled_picture fits last, next]
  · have after : mainTerminalNewline mode font terminal =
        { terminal with charY := grid.row + 1, charX := 0 } := by
      simp only [mainTerminalNewline, count, rows, if_neg last]
    have next : grid.newline (rowsOf mode font) = { grid with row := grid.row + 1, col := 0 } := by
      simp only [Grid.newline, if_neg last]
    rw [after, next]
    exact ⟨⟨width, height, rows, cols, bc, fc, rfl, rfl, by simp only; omega, shown⟩,
      cols_pos fits⟩

theorem character_drawn (fits : Fits mode font) (current : Matches mode font terminal grid)
    (ch : Nat) :
    Drawn mode font
      { terminal with
        vbeBuffer := paint mode terminal.vbeBuffer (grid.col * font.width) (grid.row * font.height)
          font.width font.height
          fun i j => if glyphBit font ch i j then foreground else background
        charX := grid.col + 1 }
      (grid.written ch) := by
  obtain ⟨⟨width, height, rows, cols, bc, fc, charX, charY, inRow, shown⟩, inCol⟩ := current
  have rightEnd : grid.col * font.width + font.width ≤ mode.Xres := by
    rw [← Nat.succ_mul]
    exact (Nat.mul_le_mul_right _ inCol).trans (Nat.div_mul_le_self _ _)
  have bottom : grid.row * font.height + font.height ≤ mode.Yres := by
    rw [← Nat.succ_mul]
    exact (Nat.mul_le_mul_right _ inRow).trans (Nat.div_mul_le_self _ _)
  refine ⟨width, height, rows, cols, bc, fc, rfl, charY, inRow, ?_⟩
  apply (paint_shows fits.plain font.width font.height rightEnd bottom shown).congr
  intro x y _ _
  exact written_picture fits ch inRow inCol

theorem putchar_matches (fits : Fits mode font) (current : Matches mode font terminal grid)
    (ch : Nat) :
    Matches mode font (mainTerminalPutchar mode font terminal ch)
      (grid.put (rowsOf mode font) (colsOf mode font) ch) := by
  by_cases newline : ch = newlineChar
  · rw [mainTerminalPutchar, if_pos newline, Grid.put, if_pos newline]
    exact newline_matches fits current.toDrawn
  · have drawn := character_drawn fits current ch
    obtain ⟨⟨-, -, -, cols, bc, fc, charX, charY, -, -⟩, inCol⟩ := current
    have bound := cols_lt mode font
    have count : (grid.col + 1) % 2 ^ 16 = grid.col + 1 := Nat.mod_eq_of_lt (by omega)
    have put : grid.put (rowsOf mode font) (colsOf mode font) ch =
        if grid.col + 1 = colsOf mode font then (grid.written ch).newline (rowsOf mode font)
        else grid.written ch := by
      rw [Grid.put, if_neg newline]
      rfl
    rw [put]
    simp only [charY, bc, fc, cols] at drawn
    simp only [mainTerminalPutchar, if_neg newline, charX, charY, bc, fc, cols, count]
    by_cases full : grid.col + 1 = colsOf mode font
    · rw [if_pos full, if_pos full]
      exact newline_matches fits drawn
    · rw [if_neg full, if_neg full]
      refine ⟨drawn, ?_⟩
      change grid.col + 1 < colsOf mode font
      omega

theorem write_matches (fits : Fits mode font) (current : Matches mode font terminal grid)
    (text : List Nat) :
    Matches mode font (mainTerminalWrite mode font terminal text)
      (grid.write (rowsOf mode font) (colsOf mode font) text) := by
  induction text generalizing terminal grid with
  | nil => exact current
  | cons ch text induction => exact induction (putchar_matches fits current ch)

theorem init_matches (fits : Fits mode font) {buffer : Screen}
    (clear : Shows mode buffer fun _ _ => background) :
    Matches mode font (initMainTerminal mode font buffer) Grid.blank := by
  refine ⟨⟨rfl, rfl, ?_, ?_, rfl, rfl, rfl, rfl, rows_pos fits, ?_⟩, cols_pos fits⟩
  · exact Nat.mod_eq_of_lt (rows_lt mode font)
  · exact Nat.mod_eq_of_lt (cols_lt mode font)
  · apply clear.congr
    intro x y _ _
    simp only [Grid.picture, Grid.blank, cellColor, ite_self]

end Simulation

/-- After every character the cursor is inside the grid, and at the end the
buffer shows the picture of the reference terminal. -/
theorem terminal_shows_text (mode : Mode) (font : Font) (fits : Fits mode font) (buffer : Screen)
    (clear : Shows mode buffer fun _ _ => background) (text : List Nat) :
    (∀ done, done <+: text →
      let terminal := mainTerminalWrite mode font (initMainTerminal mode font buffer) done
      terminal.charX < terminal.cols ∧ terminal.charY < terminal.rows) ∧
    Shows mode (mainTerminalWrite mode font (initMainTerminal mode font buffer) text).vbeBuffer
      ((Grid.blank.write (rowsOf mode font) (colsOf mode font) text).picture font
        (rowsOf mode font) (colsOf mode font)) := by
  have written := write_matches fits (init_matches fits clear)
  constructor
  · intro done _
    have current := written done
    simp only [current.charX, current.cols, current.charY, current.rows]
    exact ⟨current.inCol, current.inRow⟩
  · exact (written text).shown

/-! ### A small screen -/

/-- 32 by 32 pixels, one page of video memory. -/
def smallMode : Mode :=
  { Xres := 32
    Yres := 32
    pitch := 128
    bpp := 32
    Xres_lt := by decide
    Yres_lt := by decide
    pitch_lt := by decide
    bpp_lt := by decide }

/-- Two rows of four characters, with a margin on the right. -/
def smallFont : Font :=
  { height := 16, width := 7, bytesperglyph := 14, glyphs := fun offset => offset % 256 }

def whiteBuffer : Screen := fun offset => if offset % 4 = 3 then 0 else 255

/-- Three lines, so that the screen rolls. -/
def sampleText : List Nat := [97, 98, 10, 99, 100, 101, 102, 103]

theorem terminal_shows_text_sample :
    Shows smallMode
      (mainTerminalWrite smallMode smallFont (initMainTerminal smallMode smallFont whiteBuffer)
        sampleText).vbeBuffer
      ((Grid.blank.write 2 4 sampleText).picture smallFont 2 4) := by
  have fits : Fits smallMode smallFont :=
    ⟨⟨by decide, by decide, by decide⟩, by decide, by decide, by decide, by decide⟩
  have clear : Shows smallMode whiteBuffer fun _ _ => background := by
    intro x y index _ _ small
    have place : pixelByte smallMode x y index % 4 = index := by
      unfold pixelByte
      omega
    have bytes : ∀ byte < 4, (if byte = 3 then 0 else 255) = colorByte background byte := by
      decide
    rw [whiteBuffer, place]
    exact bytes index small
  exact (terminal_shows_text smallMode smallFont fits whiteBuffer clear sampleText).2

end ChaoOS.TerminalScreen
