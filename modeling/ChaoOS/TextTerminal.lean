import ChaoOS.ScrollHistory
import ChaoOS.TerminalModel

/-!
# The text terminal (`arch/i386/tty.c` and `vga.h`)

The terminal writes 16-bit entries into the text buffer at `VGA_MEMORY` and moves
the cursor through the index and data ports of the controller. The buffer is the
entries by index, so that `VGA_WIDTH*2` bytes are `VGA_WIDTH` entries.
-/

namespace ChaoOS.TextTerminal

open ChaoOS.KernelMath ChaoOS.ScrollHistory
open ChaoOS.TerminalModel (memcpy memcpy_down newlineChar)

set_option autoImplicit false

/-! ## `vga.h` -/

def vgaColorBlack : Nat := 0

def vgaColorLightGrey : Nat := 7

def vgaEntryColor (fg bg : Nat) : Nat := (fg ||| bg <<< 4) % 2 ^ 8

def vgaEntry (uc color : Nat) : Nat := (uc ||| color <<< 8) % 2 ^ 16

/-! ## The controller -/

/-- The register that the data port writes is the one selected last. -/
structure Crtc where
  index : Nat
  registers : Nat → Nat

def indexPort : Nat := 0x3D4

def dataPort : Nat := 0x3D5

def Crtc.outb (crtc : Crtc) (port value : Nat) : Crtc :=
  if port = indexPort then { crtc with index := value % 2 ^ 8 }
  else if port = dataPort then
    { crtc with registers := Function.update crtc.registers crtc.index (value % 2 ^ 8) }
  else crtc

/-- Registers 14 and 15 hold the place of the cursor. -/
def Crtc.cursor (crtc : Crtc) : Nat := crtc.registers 14 * 2 ^ 8 + crtc.registers 15

/-! ## `tty.c` -/

def vgaWidth : Nat := 80

def vgaHeight : Nat := 25

structure Tty where
  terminalRow : Nat
  terminalColumn : Nat
  terminalColor : Nat
  terminalBuffer : Nat → Nat
  crtc : Crtc

/-- A loop that writes one value to `count` entries from `first` on. -/
def fillEntries (buffer : Nat → Nat) (first count value : Nat) : Nat → Nat :=
  (List.range count).foldl (fun buffer x => Function.update buffer (first + x) value) buffer

def terminalInitialize (tty : Tty) : Tty :=
  let terminalColor := vgaEntryColor vgaColorLightGrey vgaColorBlack
  { tty with
    terminalRow := 0
    terminalColumn := 0
    terminalColor := terminalColor
    terminalBuffer :=
      (List.range vgaHeight).foldl
        (fun buffer y => fillEntries buffer (y * vgaWidth) vgaWidth (vgaEntry 32 terminalColor))
        tty.terminalBuffer }

def terminalSetcolor (tty : Tty) (color : Nat) : Tty := { tty with terminalColor := color % 2 ^ 8 }

def terminalPutentryat (tty : Tty) (c color x y : Nat) : Tty :=
  { tty with
    terminalBuffer := Function.update tty.terminalBuffer (y * vgaWidth + x) (vgaEntry c color) }

def terminalCursorMove (tty : Tty) : Tty :=
  let cursorLocation := (tty.terminalRow * vgaWidth + tty.terminalColumn) % 2 ^ 16
  let crtc := tty.crtc.outb 0x3D4 14
  let crtc := crtc.outb 0x3D5 (cursorLocation >>> 8)
  let crtc := crtc.outb 0x3D4 15
  let crtc := crtc.outb 0x3D5 cursorLocation
  { tty with crtc := crtc }

def terminalRoll (tty : Tty) : Tty :=
  let moved := (List.range (vgaHeight - 1)).foldl
    (fun buffer i => memcpy buffer (i * vgaWidth) ((i + 1) * vgaWidth) vgaWidth) tty.terminalBuffer
  { tty with
    terminalBuffer :=
      fillEntries moved (vgaWidth * (vgaHeight - 1)) vgaWidth (vgaEntry 32 tty.terminalColor) }

def terminalNewline (tty : Tty) : Tty :=
  let terminalRow := add32 tty.terminalRow 1
  let tty := { tty with terminalRow := terminalRow }
  let tty :=
    if terminalRow = vgaHeight then { terminalRoll tty with terminalRow := vgaHeight - 1 } else tty
  terminalCursorMove { tty with terminalColumn := 0 }

def terminalPutchar (tty : Tty) (c : Nat) : Tty :=
  let uc := c % 2 ^ 8
  if uc = newlineChar then terminalNewline tty
  else
    let tty := terminalPutentryat tty uc tty.terminalColor tty.terminalColumn tty.terminalRow
    let terminalColumn := add32 tty.terminalColumn 1
    let tty := { tty with terminalColumn := terminalColumn }
    if terminalColumn = vgaWidth then terminalNewline tty else tty

def terminalWrite (tty : Tty) (data : List Nat) : Tty :=
  terminalCursorMove (data.foldl terminalPutchar tty)

/-- `strlen` ends at the first zero. -/
def terminalWritestring (tty : Tty) (data : List Nat) : Tty :=
  terminalWrite tty (data.takeWhile fun c => c ≠ 0)

/-! ## Calls -/

inductive TtyOp where
  | putchar (c : Nat)
  | write (data : List Nat)
  | writestring (data : List Nat)
  | setcolor (color : Nat)
  | putentryat (c color x y : Nat)
  | newline
  | cursorMove

/-- A call converts its arguments to the types of the parameters. -/
def ttyStep (tty : Tty) : TtyOp → Tty
  | .putchar c => terminalPutchar tty c
  | .write data => terminalWrite tty data
  | .writestring data => terminalWritestring tty data
  | .setcolor color => terminalSetcolor tty color
  | .putentryat c color x y => terminalPutentryat tty (c % 2 ^ 8) (color % 2 ^ 8) x y
  | .newline => terminalNewline tty
  | .cursorMove => terminalCursorMove tty

/-- The calls that leave the cursor where the next character goes. -/
def MovesCursor : TtyOp → Bool
  | .putchar _ => false
  | .write _ => true
  | .writestring _ => true
  | .setcolor _ => false
  | .putentryat _ _ _ _ => false
  | .newline => true
  | .cursorMove => true

/-- `terminal_putentryat` does not test its place. -/
def InScreen : TtyOp → Prop
  | .putentryat _ _ x y => x < vgaWidth ∧ y < vgaHeight
  | _ => True

instance decidableInScreen : (op : TtyOp) → Decidable (InScreen op)
  | .putentryat _ _ _ _ => inferInstanceAs (Decidable (_ ∧ _))
  | .putchar _ => inferInstanceAs (Decidable True)
  | .write _ => inferInstanceAs (Decidable True)
  | .writestring _ => inferInstanceAs (Decidable True)
  | .setcolor _ => inferInstanceAs (Decidable True)
  | .newline => inferInstanceAs (Decidable True)
  | .cursorMove => inferInstanceAs (Decidable True)

/-! ## What has been written -/

/-- All lines that were ever written with the entries put among them, and the color for the
next entries. -/
structure Page where
  sheet : Sheet Nat
  color : Nat

def startColor : Nat := vgaEntryColor vgaColorLightGrey vgaColorBlack

def blankPage : Page := ⟨Sheet.empty (vgaEntry 32 startColor), startColor⟩

namespace Page

def newline (page : Page) : Page :=
  { page with sheet := page.sheet.newline vgaHeight (vgaEntry 32 page.color) }

def putchar (page : Page) (c : Nat) : Page :=
  if c % 2 ^ 8 = newlineChar then page.newline
  else
    { page with
      sheet := page.sheet.put vgaHeight vgaWidth (vgaEntry 32 page.color)
        (vgaEntry (c % 2 ^ 8) page.color) }

def note (page : Page) : TtyOp → Page
  | .putchar c => page.putchar c
  | .write data => data.foldl putchar page
  | .writestring data => (data.takeWhile fun c => c ≠ 0).foldl putchar page
  | .setcolor color => { page with color := color % 2 ^ 8 }
  | .putentryat c color x y =>
      { page with
        sheet := page.sheet.mark vgaHeight y x (vgaEntry (c % 2 ^ 8) (color % 2 ^ 8)) }
  | .newline => page.newline
  | .cursorMove => page

end Page

/-- The terminal is at the end of the sheet and its buffer, 25 rows of 80 entries and no
more, shows the last lines. -/
structure ShowsPage (before : Nat → Nat) (tty : Tty) (page : Page) : Prop where
  row : tty.terminalRow = page.sheet.history.row vgaHeight
  column : tty.terminalColumn = page.sheet.history.current.text.length
  short : page.sheet.history.current.text.length < vgaWidth
  color : tty.terminalColor = page.color
  entries : ∀ row col, row < vgaHeight → col < vgaWidth →
    tty.terminalBuffer (row * vgaWidth + col) = page.sheet.window vgaHeight row col
  outside : ∀ index, vgaHeight * vgaWidth ≤ index → tty.terminalBuffer index = before index
  fresh : page.sheet.Fresh vgaHeight

/-! ## Loops over the buffer -/

section Loops

variable (buffer : Nat → Nat)

theorem fill_entries_at (first value index : Nat) (count : Nat) :
    fillEntries buffer first count value index =
      if first ≤ index ∧ index < first + count then value else buffer index := by
  induction count with
  | zero => exact (if_neg (by omega)).symm
  | succ count induction =>
      have unfolded : fillEntries buffer first (count + 1) value =
          Function.update (fillEntries buffer first count value) (first + count) value := by
        simp only [fillEntries, List.range_succ, List.foldl_append, List.foldl_cons, List.foldl_nil]
      rw [unfolded, Function.update_apply, induction]
      split_ifs <;> first | rfl | omega

theorem fill_rows_at (value index rows : Nat) :
    (List.range rows).foldl (fun buffer y => fillEntries buffer (y * vgaWidth) vgaWidth value) buffer
        index =
      if index < rows * vgaWidth then value else buffer index := by
  induction rows with
  | zero => exact (if_neg (by omega)).symm
  | succ rows induction =>
      rw [List.range_succ, List.foldl_append, List.foldl_cons, List.foldl_nil, fill_entries_at,
        induction, Nat.succ_mul]
      split_ifs <;> first | rfl | omega

/-- Each row is overwritten only after it was copied one up. -/
theorem move_rows_at (index rows : Nat) :
    (List.range rows).foldl
        (fun buffer i => memcpy buffer (i * vgaWidth) ((i + 1) * vgaWidth) vgaWidth) buffer index =
      if index < rows * vgaWidth then buffer (index + vgaWidth) else buffer index := by
  induction rows generalizing index with
  | zero => exact (if_neg (by omega)).symm
  | succ rows induction =>
      have further : rows * vgaWidth ≤ (rows + 1) * vgaWidth := Nat.mul_le_mul_right _ (by omega)
      rw [List.range_succ, List.foldl_append, List.foldl_cons, List.foldl_nil,
        memcpy_down _ further]
      by_cases here : rows * vgaWidth ≤ index ∧ index < rows * vgaWidth + vgaWidth
      · have moved : (rows + 1) * vgaWidth + (index - rows * vgaWidth) = index + vgaWidth := by
          rw [Nat.succ_mul]
          omega
        rw [if_pos here, moved, induction, if_neg (by omega), if_pos (by rw [Nat.succ_mul]; omega)]
      · rw [if_neg here, induction, Nat.succ_mul]
        split_ifs <;> first | rfl | omega

end Loops

/-! ## The cursor -/

/-- The two registers after the four writes. -/
theorem cursor_move_registers (tty : Tty) :
    let cursorLocation := (tty.terminalRow * vgaWidth + tty.terminalColumn) % 2 ^ 16
    (terminalCursorMove tty).crtc.registers 14 = (cursorLocation >>> 8) % 2 ^ 8 ∧
      (terminalCursorMove tty).crtc.registers 15 = cursorLocation % 2 ^ 8 := by
  intro cursorLocation
  simp only [terminalCursorMove, Crtc.outb, indexPort, dataPort]
  constructor <;> simp [cursorLocation]

theorem cursor_move_cursor (tty : Tty) (inside : tty.terminalRow < vgaHeight)
    (short : tty.terminalColumn < vgaWidth) : (terminalCursorMove tty).crtc.cursor =
      tty.terminalRow * vgaWidth + tty.terminalColumn := by
  obtain ⟨high, low⟩ := cursor_move_registers tty
  rw [vgaWidth] at short
  rw [vgaHeight] at inside
  rw [Crtc.cursor, high, low, Nat.shiftRight_eq_div_pow, vgaWidth]
  omega

/-! ## The simulation -/

section Simulation

variable {before : Nat → Nat} {tty : Tty} {page : Page}

theorem initialize_shows (tty : Tty) :
    ShowsPage tty.terminalBuffer (terminalInitialize tty) blankPage := by
  constructor
  case row => rfl
  case column => rfl
  case short => decide
  case color => rfl
  case entries =>
    intro row col inRow inCol
    have inside : row * vgaWidth + col < vgaHeight * vgaWidth := by
      rw [vgaHeight] at inRow
      rw [vgaWidth] at inCol
      rw [vgaHeight, vgaWidth]
      omega
    have blank : (History.empty (vgaEntry 32 startColor)).window vgaHeight row col =
        vgaEntry 32 startColor := by
      unfold History.empty History.window
      split_ifs with shown
      · have top : row = 0 := Nat.le_zero.mp shown
        subst top
        rfl
      · rfl
    simp only [terminalInitialize]
    rw [fill_rows_at, if_pos inside]
    exact blank.symm
  case outside =>
    intro index beyond
    simp only [terminalInitialize]
    rw [fill_rows_at, if_neg (Nat.not_lt.mpr beyond)]
  case fresh => exact fun _ _ _ => rfl

theorem ShowsPage.row_lt (shows : ShowsPage before tty page) : tty.terminalRow < vgaHeight := by
  rw [shows.row]
  exact History.row_lt (by decide) _

theorem ShowsPage.cursor_move (shows : ShowsPage before tty page) :
    ShowsPage before (terminalCursorMove tty) page ∧
      (terminalCursorMove tty).crtc.cursor = tty.terminalRow * vgaWidth + tty.terminalColumn := by
  refine ⟨⟨shows.row, shows.column, shows.short, shows.color, shows.entries, shows.outside,
    shows.fresh⟩, ?_⟩
  apply cursor_move_cursor tty shows.row_lt
  rw [shows.column]
  exact shows.short

/-- What `terminal_roll` leaves in an entry. -/
theorem roll_entry (tty : Tty) {row col : Nat} (inRow : row < vgaHeight) (inCol : col < vgaWidth) :
    (terminalRoll tty).terminalBuffer (row * vgaWidth + col) =
      if row + 1 < vgaHeight then tty.terminalBuffer ((row + 1) * vgaWidth + col)
      else vgaEntry 32 tty.terminalColor := by
  rw [vgaHeight] at inRow
  rw [vgaWidth] at inCol
  simp only [terminalRoll]
  rw [fill_entries_at, move_rows_at, vgaHeight, vgaWidth]
  by_cases more : row + 1 < 25
  · have next : row * 80 + col + 80 = (row + 1) * 80 + col := by omega
    rw [if_neg (by omega), if_pos (by omega), if_pos more, next]
  · rw [if_pos (by omega), if_neg more]

theorem roll_outside (tty : Tty) {index : Nat} (beyond : vgaHeight * vgaWidth ≤ index) :
    (terminalRoll tty).terminalBuffer index = tty.terminalBuffer index := by
  rw [vgaHeight, vgaWidth] at beyond
  simp only [terminalRoll]
  rw [fill_entries_at, move_rows_at, vgaHeight, vgaWidth, if_neg (by omega), if_neg (by omega)]

/-- `terminal_newline` from any column: the current line may be full. -/
theorem newline_shows (row : tty.terminalRow = page.sheet.history.row vgaHeight)
    (color : tty.terminalColor = page.color)
    (entries : ∀ row col, row < vgaHeight → col < vgaWidth →
      tty.terminalBuffer (row * vgaWidth + col) = page.sheet.window vgaHeight row col)
    (outside : ∀ index, vgaHeight * vgaWidth ≤ index → tty.terminalBuffer index = before index)
    (fresh : page.sheet.Fresh vgaHeight) :
    ShowsPage before (terminalNewline tty) page.newline ∧
      (terminalNewline tty).crtc.cursor =
        (terminalNewline tty).terminalRow * vgaWidth + (terminalNewline tty).terminalColumn := by
  have below := History.row_lt (show 0 < vgaHeight by decide) page.sheet.history
  have count : add32 tty.terminalRow 1 = page.sheet.history.row vgaHeight + 1 := by
    rw [row, add32_of_lt]
    rw [vgaHeight] at below
    rw [vgaHeight, wordSize]
    omega
  have still := Sheet.fresh_newline fresh (vgaEntry 32 page.color)
  by_cases room : page.sheet.history.above.length + 1 < vgaHeight
  · obtain ⟨next, window⟩ := Sheet.newline_below room (vgaEntry 32 page.color)
    have higher := History.row_lt (show 0 < vgaHeight by decide)
      (page.sheet.newline vgaHeight (vgaEntry 32 page.color)).history
    have moved : terminalNewline tty = terminalCursorMove
        { tty with terminalRow := page.sheet.history.row vgaHeight + 1, terminalColumn := 0 } := by
      simp only [terminalNewline, count]
      rw [if_neg (by rw [next] at higher; omega)]
    have shows : ShowsPage before
        { tty with terminalRow := page.sheet.history.row vgaHeight + 1, terminalColumn := 0 }
        page.newline := by
      refine ⟨next.symm, rfl, Nat.zero_lt_succ 79, color, ?_, outside, still⟩
      intro r c inRow inCol
      rw [Page.newline]
      dsimp only
      rw [window]
      exact entries r c inRow inCol
    rw [moved]
    exact shows.cursor_move
  · obtain ⟨next, window⟩ := Sheet.newline_scrolls room fresh (vgaEntry 32 page.color)
    have last : page.sheet.history.row vgaHeight + 1 = vgaHeight := by
      unfold History.row
      rw [vgaHeight] at *
      omega
    have moved : terminalNewline tty = terminalCursorMove
        { terminalRoll { tty with terminalRow := vgaHeight } with
          terminalRow := vgaHeight - 1, terminalColumn := 0 } := by
      simp only [terminalNewline, count, last, if_true]
    have shows : ShowsPage before
        { terminalRoll { tty with terminalRow := vgaHeight } with
          terminalRow := vgaHeight - 1, terminalColumn := 0 } page.newline := by
      refine ⟨?_, rfl, Nat.zero_lt_succ 79, color, ?_, ?_, still⟩
      · rw [Page.newline]
        dsimp only
        rw [next]
        omega
      · intro r c inRow inCol
        rw [Page.newline]
        dsimp only
        rw [roll_entry _ inRow inCol, window r c inRow]
        by_cases more : r + 1 < vgaHeight
        · rw [if_pos more, if_pos more]
          exact entries (r + 1) c more inCol
        · rw [if_neg more, if_neg more]
          exact congrArg _ color
      · intro index beyond
        dsimp only
        rw [roll_outside _ beyond]
        exact outside index beyond
    rw [moved]
    exact shows.cursor_move

theorem ShowsPage.newline (shows : ShowsPage before tty page) :
    ShowsPage before (terminalNewline tty) page.newline ∧
      (terminalNewline tty).crtc.cursor =
        (terminalNewline tty).terminalRow * vgaWidth + (terminalNewline tty).terminalColumn :=
  newline_shows shows.row shows.color shows.entries shows.outside shows.fresh

/-- Entries have one place. -/
theorem entry_place {row col other place : Nat} (inCol : col < vgaWidth) (inPlace : place < vgaWidth) :
    row * vgaWidth + col = other * vgaWidth + place ↔ row = other ∧ col = place := by
  rw [vgaWidth] at *
  omega

/-- An entry that is put somewhere on the screen. -/
theorem put_entry_at (buffer : Nat → Nat) (value : Nat) {row col other place : Nat}
    (inCol : col < vgaWidth) (inPlace : place < vgaWidth) :
    Function.update buffer (other * vgaWidth + place) value (row * vgaWidth + col) =
      if row = other ∧ col = place then value else buffer (row * vgaWidth + col) := by
  rw [Function.update_apply]
  simp only [entry_place inCol inPlace]

theorem put_entry_outside (buffer : Nat → Nat) (value : Nat) {row col index : Nat}
    (inRow : row < vgaHeight) (inCol : col < vgaWidth) (beyond : vgaHeight * vgaWidth ≤ index) :
    Function.update buffer (row * vgaWidth + col) value index = buffer index := by
  rw [vgaHeight] at inRow
  rw [vgaWidth] at inCol
  rw [vgaHeight, vgaWidth] at beyond
  rw [Function.update_of_ne]
  rw [vgaWidth]
  omega

theorem ShowsPage.putentryat (shows : ShowsPage before tty page) (c color : Nat) {x y : Nat}
    (inside : x < vgaWidth ∧ y < vgaHeight) :
    ShowsPage before (terminalPutentryat tty (c % 2 ^ 8) (color % 2 ^ 8) x y)
      (page.note (.putentryat c color x y)) := by
  refine ⟨shows.row, shows.column, shows.short, shows.color, ?_, ?_,
    Sheet.fresh_mark shows.fresh _ inside.2⟩
  · intro row col inRow inCol
    simp only [terminalPutentryat, Page.note]
    rw [put_entry_at _ _ inCol inside.1, Sheet.window_mark, shows.entries row col inRow inCol]
  · intro index beyond
    simp only [terminalPutentryat]
    rw [put_entry_outside _ _ inside.2 inside.1 beyond]
    exact shows.outside index beyond

theorem ShowsPage.putchar (shows : ShowsPage before tty page) (c : Nat) :
    ShowsPage before (terminalPutchar tty c) (page.putchar c) := by
  unfold terminalPutchar Page.putchar
  dsimp only
  by_cases newline : c % 2 ^ 8 = newlineChar
  · rw [if_pos newline, if_pos newline]
    exact shows.newline.1
  · rw [if_neg newline, if_neg newline]
    let entry := vgaEntry (c % 2 ^ 8) page.color
    have count : add32 tty.terminalColumn 1 = page.sheet.history.current.text.length + 1 := by
      have short := shows.short
      rw [shows.column, add32_of_lt]
      rw [vgaWidth] at short
      rw [wordSize]
      omega
    have length : (page.sheet.written entry).history.current.text.length =
        page.sheet.history.current.text.length + 1 := by
      simp only [Sheet.written, History.written, List.length_append, List.length_singleton]
    have inRow := shows.row_lt
    have short := shows.short
    rw [← shows.column] at short
    have entries : ∀ row col, row < vgaHeight → col < vgaWidth →
        Function.update tty.terminalBuffer (tty.terminalRow * vgaWidth + tty.terminalColumn)
          (vgaEntry (c % 2 ^ 8) tty.terminalColor) (row * vgaWidth + col) =
          (page.sheet.written entry).window vgaHeight row col := by
      intro row col here inCol
      rw [put_entry_at _ _ inCol short, Sheet.window_written, shows.entries row col here inCol,
        shows.row, shows.column, shows.color]
    have outside : ∀ index, vgaHeight * vgaWidth ≤ index →
        Function.update tty.terminalBuffer (tty.terminalRow * vgaWidth + tty.terminalColumn)
          (vgaEntry (c % 2 ^ 8) tty.terminalColor) index = before index := by
      intro index beyond
      rw [put_entry_outside _ _ inRow short beyond]
      exact shows.outside index beyond
    have fresh := Sheet.fresh_written shows.fresh entry
    simp only [terminalPutentryat, count, Sheet.put]
    rw [length]
    by_cases full : page.sheet.history.current.text.length + 1 = vgaWidth
    · rw [if_pos full, if_pos full]
      let filled : Tty :=
        { tty with
          terminalColumn := page.sheet.history.current.text.length + 1
          terminalBuffer := Function.update tty.terminalBuffer
            (tty.terminalRow * vgaWidth + tty.terminalColumn) (vgaEntry (c % 2 ^ 8) tty.terminalColor) }
      exact (@newline_shows before filled { page with sheet := page.sheet.written entry }
        shows.row shows.color entries outside fresh).1
    · rw [if_neg full, if_neg full]
      refine ⟨shows.row, length.symm, ?_, shows.color, entries, outside, fresh⟩
      rw [shows.column] at short
      dsimp only
      rw [length]
      omega

theorem ShowsPage.putchars (shows : ShowsPage before tty page) (data : List Nat) :
    ShowsPage before (data.foldl terminalPutchar tty) (data.foldl Page.putchar page) := by
  induction data generalizing tty page with
  | nil => exact shows
  | cons c rest induction => exact induction (shows.putchar c)

theorem tty_step_shows (shows : ShowsPage before tty page) {op : TtyOp} (inside : InScreen op) :
    ShowsPage before (ttyStep tty op) (page.note op) ∧
      (MovesCursor op → (ttyStep tty op).crtc.cursor =
        (ttyStep tty op).terminalRow * vgaWidth + (ttyStep tty op).terminalColumn) := by
  cases op with
  | putchar c => exact ⟨shows.putchar c, fun moves => absurd moves Bool.false_ne_true⟩
  | write data =>
      obtain ⟨after, cursor⟩ := (shows.putchars data).cursor_move
      exact ⟨after, fun _ => cursor⟩
  | writestring data =>
      obtain ⟨after, cursor⟩ := (shows.putchars (data.takeWhile fun c => c ≠ 0)).cursor_move
      exact ⟨after, fun _ => cursor⟩
  | setcolor color =>
      exact ⟨⟨shows.row, shows.column, shows.short, rfl, shows.entries, shows.outside,
        shows.fresh⟩, fun moves => absurd moves Bool.false_ne_true⟩
  | putentryat c color x y =>
      exact ⟨shows.putentryat c color inside, fun moves => absurd moves Bool.false_ne_true⟩
  | newline => exact ⟨shows.newline.1, fun _ => shows.newline.2⟩
  | cursorMove => exact ⟨shows.cursor_move.1, fun _ => shows.cursor_move.2⟩

theorem tty_run_shows (shows : ShowsPage before tty page) {ops : List TtyOp}
    (inside : ∀ op ∈ ops, InScreen op) :
    ShowsPage before (ops.foldl ttyStep tty) (ops.foldl Page.note page) := by
  induction ops generalizing tty page with
  | nil => exact shows
  | cons op rest induction =>
      exact induction (tty_step_shows shows (inside op List.mem_cons_self)).1 fun other member =>
        inside other (List.mem_cons_of_mem op member)

end Simulation

/-- After any calls from `terminal_initialize` on that put no entry outside the screen, the
screen shows the last 25 lines of all that was written with the entries put among them,
nothing outside the 2000 entries has changed, and a call that moves the cursor leaves it
where the next character goes. -/
theorem text_terminal_shows_history (tty : Tty) (ops : List TtyOp) (last : TtyOp)
    (inside : ∀ op ∈ ops ++ [last], InScreen op) :
    let final := (ops ++ [last]).foldl ttyStep (terminalInitialize tty)
    ShowsPage tty.terminalBuffer final ((ops ++ [last]).foldl Page.note blankPage) ∧
      (MovesCursor last →
        final.crtc.cursor = final.terminalRow * vgaWidth + final.terminalColumn) := by
  have shows := tty_run_shows (initialize_shows tty) fun op member =>
    inside op (List.mem_append_left _ member)
  rw [List.foldl_append, List.foldl_append]
  exact tty_step_shows shows (inside last (List.mem_append_right _ (List.mem_singleton_self last)))

def sampleTty : Tty := ⟨0, 0, 0, fun _ => 0, ⟨0, fun _ => 0⟩⟩

def sampleCalls : List TtyOp :=
  [.write [10], .putentryat 65 0x1F 3 1, .putentryat 66 0x1F 0 1, .write [67],
    .write (List.replicate 23 10)]

/-- Two entries are put in the second row and one is written over; with one more line the row
moves to the top. -/
theorem text_terminal_shows_history_sample :
    let final := (sampleCalls ++ [TtyOp.newline]).foldl ttyStep (terminalInitialize sampleTty)
    final.terminalBuffer 3 = vgaEntry 65 0x1F ∧ final.terminalBuffer 0 = vgaEntry 67 startColor ∧
      final.crtc.cursor = 24 * vgaWidth := by
  obtain ⟨shows, cursor⟩ :=
    text_terminal_shows_history sampleTty sampleCalls TtyOp.newline (by decide)
  have row : ((sampleCalls ++ [TtyOp.newline]).foldl Page.note blankPage).sheet.history.row
      vgaHeight = 24 := by decide +kernel
  have column : ((sampleCalls ++ [TtyOp.newline]).foldl Page.note blankPage).sheet.history.current.text
      = [] := by decide +kernel
  refine ⟨(shows.entries 0 3 (by decide) (by decide)).trans (by decide +kernel),
    (shows.entries 0 0 (by decide) (by decide)).trans (by decide +kernel), (cursor rfl).trans ?_⟩
  rw [shows.row, shows.column, row, column]
  rfl

end ChaoOS.TextTerminal
