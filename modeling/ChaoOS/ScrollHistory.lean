import Mathlib.Data.List.GetD
import Mathlib.Tactic.SplitIfs

/-!
# A window on the last lines of a history

Everything that has been written, line by line, and what of it a window of some
height shows: the last lines, the newest of them at the bottom once there are
enough. Rows that no line has reached show what the window started with. On a
sheet cells can also be marked anywhere in the window; a mark moves with its line
and lasts until the line is written there.
-/

namespace ChaoOS.ScrollHistory

set_option autoImplicit false

variable {Cell : Type*}

/-- Columns that are not written yet show `fill`. -/
structure Line (Cell : Type*) where
  fill : Cell
  text : List Cell

def Line.cell (line : Line Cell) (col : Nat) : Cell := line.text.getD col line.fill

/-- The lines above the current one, the nearest first. -/
structure History (Cell : Type*) where
  start : Cell
  current : Line Cell
  above : List (Line Cell)

namespace History

variable (height : Nat) (history : History Cell)

def empty (start : Cell) : History Cell := ⟨start, ⟨start, []⟩, []⟩

/-- The line `distance` lines above the current one. -/
def lineAbove (distance : Nat) : Line Cell :=
  (history.current :: history.above).getD distance ⟨history.start, []⟩

/-- The row of the window that the current line is in. -/
def row : Nat := min history.above.length (height - 1)

def window (row col : Nat) : Cell :=
  if row ≤ history.row height then (history.lineAbove (history.row height - row)).cell col
  else history.start

/-- The next line. One that comes in at the bottom shows `fill`, one on a row
that was there before shows what the window started with. -/
def newline (fill : Cell) : History Cell :=
  { history with
    current := ⟨if history.above.length + 1 < height then history.start else fill, []⟩
    above := history.current :: history.above }

def written (cell : Cell) : History Cell :=
  { history with
    current := { history.current with text := history.current.text ++ [cell] } }

variable {height : Nat} {history : History Cell} {row col : Nat}

theorem line_above_newline (fill : Cell) (distance : Nat) :
    (history.newline height fill).lineAbove (distance + 1) = history.lineAbove distance := by
  simp only [newline, lineAbove, List.getD_cons_succ]

theorem row_lt (positive : 0 < height) (history : History Cell) : history.row height < height := by
  unfold History.row
  omega

/-- As long as there are rows below, nothing moves. -/
theorem newline_below (room : history.above.length + 1 < height) (fill : Cell) :
    (history.newline height fill).row height = history.row height + 1 ∧
      ∀ row col, (history.newline height fill).window height row col = history.window height row col := by
  have next : (history.newline height fill).row height = history.row height + 1 := by
    simp only [History.row, newline, List.length_cons]
    omega
  refine ⟨next, fun row col => ?_⟩
  have bottom : (history.newline height fill).current = ⟨history.start, []⟩ := by
    simp only [newline, if_pos room]
  simp only [window, next]
  by_cases shown : row ≤ history.row height
  · have distance : history.row height + 1 - row = history.row height - row + 1 := by omega
    rw [if_pos shown, if_pos (by omega), distance, line_above_newline]
  · rw [if_neg shown]
    by_cases entered : row ≤ history.row height + 1
    · have distance : history.row height + 1 - row = 0 := by omega
      rw [if_pos entered, distance, lineAbove, List.getD_cons_zero, bottom]
      rfl
    · rw [if_neg entered]
      rfl

/-- At the bottom all rows move up and a row with `fill` comes in. -/
theorem newline_scrolls (bottom : ¬history.above.length + 1 < height) (fill : Cell) :
    (history.newline height fill).row height = history.row height ∧
      ∀ row col, row < height → (history.newline height fill).window height row col =
        if row + 1 < height then history.window height (row + 1) col else fill := by
  have last : history.row height = height - 1 := by
    unfold History.row
    omega
  have next : (history.newline height fill).row height = height - 1 := by
    simp only [History.row, newline, List.length_cons]
    omega
  refine ⟨next.trans last.symm, fun row col inside => ?_⟩
  have entered : (history.newline height fill).current = ⟨fill, []⟩ := by
    simp only [newline, if_neg bottom]
  simp only [window, next, last]
  rw [if_pos (show row ≤ height - 1 by omega)]
  by_cases more : row + 1 < height
  · have distance : height - 1 - row = height - 1 - (row + 1) + 1 := by omega
    rw [if_pos more, if_pos (show row + 1 ≤ height - 1 by omega), distance, line_above_newline]
  · have distance : height - 1 - row = 0 := by omega
    rw [if_neg more, distance, lineAbove, List.getD_cons_zero, entered]
    rfl

/-- A cell goes behind the text of its line. -/
theorem cell_append (line : Line Cell) (cell : Cell) (col : Nat) :
    Line.cell { line with text := line.text ++ [cell] } col =
      if col = line.text.length then cell else line.cell col := by
  simp only [Line.cell]
  by_cases behind : col = line.text.length
  · rw [if_pos behind, behind, List.getD_append_right _ _ _ _ (Nat.le_refl _), Nat.sub_self,
      List.getD_cons_zero]
  · rw [if_neg behind]
    rcases Nat.lt_or_ge col line.text.length with within | beyond
    · rw [List.getD_append _ _ _ _ within]
    · rw [List.getD_append_right _ _ _ _ beyond, List.getD_eq_default _ _ beyond,
        List.getD_eq_default]
      rw [List.length_singleton]
      omega

theorem window_written (cell : Cell) :
    (history.written cell).window height row col =
      if row = history.row height ∧ col = history.current.text.length then cell
      else history.window height row col := by
  have same : (history.written cell).row height = history.row height := rfl
  simp only [window, same]
  by_cases shown : row ≤ history.row height
  · rw [if_pos shown, if_pos shown]
    by_cases here : row = history.row height
    · subst here
      simp only [Nat.sub_self, lineAbove, List.getD_cons_zero, true_and]
      exact cell_append history.current cell col
    · obtain ⟨less, distance⟩ : ∃ less, history.row height - row = less + 1 :=
        ⟨history.row height - row - 1, by omega⟩
      rw [if_neg (fun both => here both.1), distance]
      simp only [lineAbove, List.getD_cons_succ, written]
  · rw [if_neg shown, if_neg shown, if_neg (fun both => shown (Nat.le_of_eq both.1))]
    rfl

end History

/-! ## Marks -/

/-- Marks are by the number of the line, from the first one on, and the column. -/
structure Sheet (Cell : Type*) where
  history : History Cell
  marks : Nat → Nat → Option Cell

namespace Sheet

variable (height : Nat) (sheet : Sheet Cell)

def empty (start : Cell) : Sheet Cell := ⟨History.empty start, fun _ _ => none⟩

/-- The number of the line, written or not, that a row of the window shows. -/
def lineAt (row : Nat) : Nat := sheet.history.above.length - sheet.history.row height + row

def window (row col : Nat) : Cell :=
  (sheet.marks (sheet.lineAt height row) col).getD (sheet.history.window height row col)

def setMark (line place : Nat) (mark : Option Cell) : Sheet Cell :=
  { sheet with
    marks := fun other col => if other = line ∧ col = place then mark else sheet.marks other col }

def mark (row col : Nat) (cell : Cell) : Sheet Cell :=
  sheet.setMark (sheet.lineAt height row) col (some cell)

def newline (fill : Cell) : Sheet Cell := { sheet with history := sheet.history.newline height fill }

def written (cell : Cell) : Sheet Cell :=
  { sheet.setMark sheet.history.above.length sheet.history.current.text.length none with
    history := sheet.history.written cell }

/-- A full line is left at once. -/
def put (width : Nat) (fill cell : Cell) : Sheet Cell :=
  if (sheet.written cell).history.current.text.length = width then
    (sheet.written cell).newline height fill
  else sheet.written cell

/-- No line below the window has a mark. -/
def Fresh : Prop := ∀ line col, sheet.lineAt height height ≤ line → sheet.marks line col = none

variable {height : Nat} {sheet : Sheet Cell} {row col : Nat}

theorem line_at_current : sheet.lineAt height (sheet.history.row height) =
    sheet.history.above.length := by
  unfold lineAt History.row
  omega

theorem line_at_inj {other : Nat} : sheet.lineAt height row = sheet.lineAt height other ↔ row = other := by
  unfold lineAt
  omega

theorem window_mark (cell : Cell) {place column : Nat} :
    (sheet.mark height place column cell).window height row col =
      if row = place ∧ col = column then cell else sheet.window height row col := by
  change (if sheet.lineAt height row = sheet.lineAt height place ∧ col = column then some cell
    else sheet.marks (sheet.lineAt height row) col).getD _ = _
  by_cases here : row = place ∧ col = column
  · rw [if_pos here, if_pos ⟨line_at_inj.mpr here.1, here.2⟩, Option.getD_some]
  · rw [if_neg here, if_neg fun both => here ⟨line_at_inj.mp both.1, both.2⟩]
    rfl

theorem fresh_mark (fresh : sheet.Fresh height) (cell : Cell) {place column : Nat}
    (inside : place < height) : (sheet.mark height place column cell).Fresh height := by
  intro line other beyond
  change sheet.lineAt height height ≤ line at beyond
  change (if line = sheet.lineAt height place ∧ other = column then some cell
    else sheet.marks line other) = none
  unfold lineAt at *
  rw [if_neg (by omega)]
  exact fresh line other beyond

theorem window_written (cell : Cell) :
    (sheet.written cell).window height row col =
      if row = sheet.history.row height ∧ col = sheet.history.current.text.length then cell
      else sheet.window height row col := by
  change (if sheet.lineAt height row = sheet.history.above.length ∧
      col = sheet.history.current.text.length then none
    else sheet.marks (sheet.lineAt height row) col).getD
      ((sheet.history.written cell).window height row col) = _
  rw [History.window_written, ← sheet.line_at_current]
  by_cases here : row = sheet.history.row height ∧ col = sheet.history.current.text.length
  · rw [if_pos here, if_pos here, if_pos ⟨line_at_inj.mpr here.1, here.2⟩, Option.getD_none]
  · rw [if_neg here, if_neg here, if_neg fun both => here ⟨line_at_inj.mp both.1, both.2⟩]
    rfl

theorem fresh_written (fresh : sheet.Fresh height) (cell : Cell) :
    (sheet.written cell).Fresh height := by
  intro line other beyond
  change sheet.lineAt height height ≤ line at beyond
  change (if line = sheet.history.above.length ∧ other = sheet.history.current.text.length then none
    else sheet.marks line other) = none
  split_ifs
  · rfl
  · exact fresh line other beyond

/-- As long as there are rows below, nothing moves. -/
theorem newline_below (room : sheet.history.above.length + 1 < height) (fill : Cell) :
    (sheet.newline height fill).history.row height = sheet.history.row height + 1 ∧
      ∀ row col, (sheet.newline height fill).window height row col = sheet.window height row col := by
  obtain ⟨next, window⟩ := History.newline_below room fill
  refine ⟨next, fun row col => ?_⟩
  have same : (sheet.newline height fill).lineAt height row = sheet.lineAt height row := by
    simp only [lineAt, newline, History.row, History.newline, List.length_cons]
    omega
  simp only [Sheet.window]
  rw [same]
  exact congrArg _ (window row col)

/-- At the bottom all rows move up, with their marks, and a row with `fill` comes in. -/
theorem newline_scrolls (bottom : ¬sheet.history.above.length + 1 < height)
    (fresh : sheet.Fresh height) (fill : Cell) :
    (sheet.newline height fill).history.row height = sheet.history.row height ∧
      ∀ row col, row < height → (sheet.newline height fill).window height row col =
        if row + 1 < height then sheet.window height (row + 1) col else fill := by
  obtain ⟨next, window⟩ := History.newline_scrolls bottom fill
  refine ⟨next, fun row col inside => ?_⟩
  have moved : (sheet.newline height fill).lineAt height row = sheet.lineAt height (row + 1) := by
    simp only [lineAt, newline, History.row, History.newline, List.length_cons]
    omega
  have entered := window row col inside
  simp only [Sheet.window]
  rw [moved]
  change (sheet.marks _ col).getD ((sheet.history.newline height fill).window height row col) = _
  rw [entered]
  by_cases more : row + 1 < height
  · rw [if_pos more, if_pos more]
  · have last : row + 1 = height := by omega
    rw [if_neg more, if_neg more, last, fresh _ col (Nat.le_refl _), Option.getD_none]

theorem fresh_newline (fresh : sheet.Fresh height) (fill : Cell) :
    (sheet.newline height fill).Fresh height := by
  intro line col beyond
  apply fresh line col
  apply Nat.le_trans _ beyond
  simp only [lineAt, newline, History.row, History.newline, List.length_cons]
  omega

end Sheet

end ChaoOS.ScrollHistory
