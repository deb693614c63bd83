import ChaoOS.KernelMath

/-!
# The keyboard driver

`keyboard_input_handler` of `kernel/keyboard.c` takes one scancode at a time.
Beside the driver's variables the state logs which places of `keymap` have been
read and what has been written to the output buffer and where.
-/

namespace ChaoOS.KeyboardModel

open ChaoOS.KernelMath

set_option autoImplicit false

def keyPressed : Nat := 1
def keyReleased : Nat := 0
def scancodeMask : Nat := 0x00FF
def charInvinsible : Nat := 0
def extendCodePrefix : Nat := 0xE0
def extendCodeFlush : Nat := 0

def lShiftPressed : Nat := 0x2A
def lShiftReleased : Nat := 0xAA
def rShiftPressed : Nat := 0x36
def rShiftReleased : Nat := 0xB6
def lAltPressed : Nat := 0x38
def lAltReleased : Nat := 0xB8
def rAltPressed : Nat := 0xE038
def rAltReleased : Nat := 0xE0B8
def lCtrlPressed : Nat := 0x1D
def lCtrlReleased : Nat := 0x9D
def rCtrlPressed : Nat := 0xE01D
def rCtrlReleased : Nat := 0xE09D
def capsLockPressed : Nat := 0x3A

def keyboardOutputBufferLength : Nat := 512

/-- A row of `keymap`: the character without and with shift. -/
def pair (plain shifted : Char) : Nat × Nat := (plain.toNat, shifted.toNat)

/-- A key whose two characters are this control code. -/
def control (code : Nat) : Nat × Nat := (code, code)

/-- The rows for scancodes 0x00 to 0x3A; quotes, backquote and backslash are
given by their codes. -/
def keymap : List (Nat × Nat) :=
  [control 0, control 3, pair '1' '!', pair '2' '@', pair '3' '#', pair '4' '$', pair '5' '%',
    pair '6' '^', pair '7' '&', pair '8' '*', pair '9' '(', pair '0' ')', pair '-' '_',
    pair '=' '+', control 8, control 9, pair 'q' 'Q', pair 'w' 'W', pair 'e' 'E', pair 'r' 'R',
    pair 't' 'T', pair 'y' 'Y', pair 'u' 'U', pair 'i' 'I', pair 'o' 'O', pair 'p' 'P',
    pair '[' '{', pair ']' '}', control 13, control charInvinsible, pair 'a' 'A', pair 's' 'S',
    pair 'd' 'D', pair 'f' 'F', pair 'g' 'G', pair 'h' 'H', pair 'j' 'J', pair 'k' 'K',
    pair 'l' 'L', pair ';' ':', (0x27, 0x22), (0x60, 0x7E), control charInvinsible,
    (0x5C, 0x7C), pair 'z' 'Z', pair 'x' 'X', pair 'c' 'C', pair 'v' 'V', pair 'b' 'B',
    pair 'n' 'N', pair 'm' 'M', pair ',' '<', pair '.' '>', pair '/' '?',
    control charInvinsible, pair '*' '*', control charInvinsible, pair ' ' ' ',
    control charInvinsible]

structure Keyboard where
  extendFlag : Nat
  crtlStatus : Nat
  shiftStatus : Nat
  altStatus : Nat
  capsLockStatus : Nat
  kIndex : Nat
  lookUps : List (Nat × Nat)
  writes : List (Nat × Nat)

/-- The state `init_keyboard` leaves at boot. -/
def initKeyboard : Keyboard :=
  { extendFlag := 0
    crtlStatus := 0
    shiftStatus := 0
    altStatus := 0
    capsLockStatus := 0
    kIndex := 0
    lookUps := []
    writes := [] }

/-- `keymap[scancode][column]`. -/
def keymapAt (scancode column : Nat) : Nat :=
  let row := keymap.getD scancode (0, 0)
  if column = 0 then row.1 else row.2

namespace Keyboard

def lookUp (kb : Keyboard) (scancode column : Nat) : Keyboard :=
  { kb with lookUps := kb.lookUps ++ [(scancode, column)] }

/-- `keyboard_output_buffer[k_index++] = c`. -/
def write (kb : Keyboard) (c : Nat) : Keyboard :=
  { kb with
    writes := kb.writes ++ [(kb.kIndex, c)]
    kIndex := add32 kb.kIndex 1 }

end Keyboard

/-- The default branch of the handler's second `switch`. -/
def readCharacter (kb : Keyboard) (scancode : Nat) : Keyboard :=
  if scancode > 0x3A then kb
  else
    let shifted := decide (kb.shiftStatus = keyPressed)
    let locked := decide (kb.capsLockStatus = keyPressed)
    let kb := kb.lookUp scancode 0
    let large := decide (keymapAt scancode 0 ≥ 'a'.toNat)
    -- the second operand of `&&` is read only when the first one is true
    let kb := if large then kb.lookUp scancode 1 else kb
    if large ∧ keymapAt scancode 1 ≤ 'z'.toNat then
      let offset := (shifted ^^ locked).toNat
      (kb.lookUp scancode offset).write (keymapAt scancode offset)
    else
      let kb := kb.lookUp scancode 0
      if keymapAt scancode 0 = charInvinsible then kb
      else
        let offset := shifted.toNat
        (kb.lookUp scancode offset).write (keymapAt scancode offset)

/-- The scancode after a prefix. -/
def extendedInput (kb : Keyboard) (scancode : Nat) : Keyboard :=
  if scancode = rAltPressed &&& scancodeMask then { kb with altStatus := keyPressed }
  else if scancode = rAltReleased &&& scancodeMask then { kb with altStatus := keyReleased }
  else if scancode = rCtrlPressed &&& scancodeMask then { kb with crtlStatus := keyPressed }
  else if scancode = rCtrlReleased &&& scancodeMask then { kb with crtlStatus := keyReleased }
  else kb

def plainInput (kb : Keyboard) (scancode : Nat) : Keyboard :=
  if scancode = extendCodePrefix then { kb with extendFlag := extendCodePrefix }
  else if scancode = lShiftPressed then { kb with shiftStatus := keyPressed }
  else if scancode = lShiftReleased then { kb with shiftStatus := keyReleased }
  else if scancode = rShiftPressed then { kb with shiftStatus := keyPressed }
  else if scancode = rShiftReleased then { kb with shiftStatus := keyReleased }
  else if scancode = lAltPressed then { kb with altStatus := keyPressed }
  else if scancode = lAltReleased then { kb with altStatus := keyReleased }
  else if scancode = lCtrlPressed then { kb with crtlStatus := keyPressed }
  else if scancode = lCtrlReleased then { kb with crtlStatus := keyReleased }
  else if scancode = capsLockPressed then
    { kb with
      capsLockStatus := if kb.capsLockStatus = keyPressed then keyReleased else keyPressed }
  else readCharacter kb scancode

def keyboardInputHandler (kb : Keyboard) (scancode : Nat) : Keyboard :=
  if kb.extendFlag = extendCodePrefix then
    extendedInput { kb with extendFlag := extendCodeFlush } scancode
  else plainInput kb scancode

def handleAll (kb : Keyboard) (scancodes : List Nat) : Keyboard :=
  scancodes.foldl keyboardInputHandler kb

/-! ## Reading a character -/

/-- The key of the scancode has a character, and the scancode is its press. -/
def visible (scancode : Nat) : Bool :=
  decide (scancode ≤ 0x3A) && decide (keymapAt scancode 0 ≠ charInvinsible)

/-- Nothing has happened but look-ups inside the table. -/
structure Looked (kb after : Keyboard) : Prop where
  places : ∃ places, after = { kb with lookUps := kb.lookUps ++ places } ∧
    ∀ place ∈ places, place.1 < keymap.length ∧ place.2 < 2

namespace Looked

variable {kb after : Keyboard} {scancode column : Nat}

theorem refl (kb : Keyboard) : Looked kb kb := ⟨[], by simp, by simp⟩

theorem look_up (looked : Looked kb after) (within : scancode ≤ 0x3A) (narrow : column < 2) :
    Looked kb (after.lookUp scancode column) := by
  obtain ⟨places, rfl, inside⟩ := looked.places
  refine ⟨places ++ [(scancode, column)], by simp [Keyboard.lookUp], ?_⟩
  intro place member
  rcases List.mem_append.mp member with before | last
  · exact inside place before
  · rw [List.mem_singleton.mp last]
    have rows : keymap.length = 59 := by decide
    exact ⟨by simp only; omega, narrow⟩

end Looked

/-- A scancode that is no press of a key with a character leaves look-ups; one
that is puts a character at `k_index`. -/
theorem read_character_cases (kb : Keyboard) (scancode : Nat) :
    ∃ looked, Looked kb looked ∧
      (visible scancode = false ∧ readCharacter kb scancode = looked ∨
        visible scancode = true ∧ ∃ c, readCharacter kb scancode = looked.write c) := by
  by_cases beyond : scancode > 0x3A
  · have unseen : visible scancode = false := by
      have notWithin : ¬scancode ≤ 0x3A := by omega
      simp [visible, notWithin]
    exact ⟨kb, Looked.refl kb, Or.inl ⟨unseen, if_pos beyond⟩⟩
  · have within : scancode ≤ 0x3A := by omega
    have once := (Looked.refl kb).look_up within (show 0 < 2 by omega)
    have first : Looked kb (if decide (keymapAt scancode 0 ≥ 'a'.toNat) then
        (kb.lookUp scancode 0).lookUp scancode 1 else kb.lookUp scancode 0) := by
      split_ifs
      · exact once.look_up within (by omega)
      · exact once
    rw [readCharacter, if_neg beyond]
    simp only
    generalize (if decide (keymapAt scancode 0 ≥ 'a'.toNat) = true then
      (kb.lookUp scancode 0).lookUp scancode 1 else kb.lookUp scancode 0) = read at first ⊢
    by_cases letter : decide (keymapAt scancode 0 ≥ 'a'.toNat) = true ∧
        keymapAt scancode 1 ≤ 'z'.toNat
    · have seen : visible scancode = true := by
        have large : keymapAt scancode 0 ≥ 97 := by simpa using letter.1
        have some : keymapAt scancode 0 ≠ charInvinsible := by
          rw [charInvinsible]
          omega
        simp [visible, within, some]
      rw [if_pos letter]
      exact ⟨_, first.look_up within (Bool.toNat_lt _), Or.inr ⟨seen, _, rfl⟩⟩
    · have second := first.look_up within (show 0 < 2 by omega)
      rw [if_neg letter]
      by_cases empty : keymapAt scancode 0 = charInvinsible
      · have unseen : visible scancode = false := by simp [visible, empty]
        rw [if_pos empty]
        exact ⟨_, second, Or.inl ⟨unseen, rfl⟩⟩
      · have seen : visible scancode = true := by simp [visible, within, empty]
        rw [if_neg empty]
        exact ⟨_, second.look_up within (Bool.toNat_lt _), Or.inr ⟨seen, _, rfl⟩⟩

end ChaoOS.KeyboardModel
