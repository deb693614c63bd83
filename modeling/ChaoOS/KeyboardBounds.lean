import ChaoOS.KeyboardModel

/-!
# Where the keyboard driver reads and writes

Every look-up in `keymap` is inside the table, whatever arrives. The characters
go to consecutive places of the output buffer, and nothing takes `k_index` back.
-/

namespace ChaoOS.KeyboardBounds

open ChaoOS.KernelMath ChaoOS.KeyboardModel

set_option autoImplicit false

/-- How many of the scancodes are presses of keys with a character and do not
stand directly after a prefix. The first argument says whether a prefix has
just been seen. -/
def visibleMakes : Bool → List Nat → Nat
  | _, [] => 0
  | true, _ :: rest => visibleMakes false rest
  | false, scancode :: rest =>
      if scancode = extendCodePrefix then visibleMakes true rest
      else (visible scancode).toNat + visibleMakes false rest

/-- All look-ups are inside the table, and `count` characters have been written
one after the other, at places that wrap with `k_index`. -/
structure Logged (kb : Keyboard) (count : Nat) : Prop where
  lookUps : ∀ place ∈ kb.lookUps, place.1 < keymap.length ∧ place.2 < 2
  index : kb.kIndex = count % wordSize
  writes : kb.writes.map Prod.fst = (List.range count).map (· % wordSize)

def SameLogs (kb after : Keyboard) : Prop :=
  after.kIndex = kb.kIndex ∧ after.writes = kb.writes ∧ after.lookUps = kb.lookUps

section Steps

variable {kb after : Keyboard} {count scancode : Nat}

theorem Logged.same (logged : Logged kb count) (same : SameLogs kb after) : Logged after count := by
  obtain ⟨index, writes, lookUps⟩ := same
  exact ⟨by rw [lookUps]; exact logged.lookUps, index.trans logged.index,
    by rw [writes]; exact logged.writes⟩

theorem Logged.looked (logged : Logged kb count) (looked : Looked kb after) :
    Logged after count := by
  obtain ⟨places, rfl, inside⟩ := looked.places
  refine ⟨?_, logged.index, logged.writes⟩
  intro place member
  rcases List.mem_append.mp member with before | later
  · exact logged.lookUps place before
  · exact inside place later

theorem Logged.write (logged : Logged kb count) (c : Nat) : Logged (kb.write c) (count + 1) := by
  refine ⟨logged.lookUps, ?_, ?_⟩
  · simp [Keyboard.write, add32, logged.index]
  · simp [Keyboard.write, List.range_succ, logged.writes, logged.index]

theorem read_character_logged (logged : Logged kb count) :
    Logged (readCharacter kb scancode) (count + (visible scancode).toNat) := by
  obtain ⟨looked, inside, ⟨unseen, same⟩ | ⟨seen, c, written⟩⟩ := read_character_cases kb scancode
  · rw [unseen, same]
    exact logged.looked inside
  · rw [seen, written]
    exact (logged.looked inside).write c

/-- The scancodes that `plainInput` treats by themselves. -/
def specialCodes : List Nat :=
  [extendCodePrefix, lShiftPressed, lShiftReleased, rShiftPressed, rShiftReleased, lAltPressed,
    lAltReleased, lCtrlPressed, lCtrlReleased, capsLockPressed]

theorem special_code_unseen : ∀ special ∈ specialCodes, visible special = false := by
  decide +kernel

theorem special_input_same {scancode : Nat} (kb : Keyboard) (special : scancode ∈ specialCodes) :
    SameLogs kb (plainInput kb scancode) := by
  simp only [specialCodes, List.mem_cons, List.not_mem_nil, or_false] at special
  rcases special with rfl | rfl | rfl | rfl | rfl | rfl | rfl | rfl | rfl | rfl
  all_goals exact ⟨rfl, rfl, rfl⟩

theorem ordinary_input {scancode : Nat} (kb : Keyboard) (ordinary : scancode ∉ specialCodes) :
    plainInput kb scancode = readCharacter kb scancode := by
  simp only [specialCodes, List.mem_cons, List.not_mem_nil, or_false, not_or] at ordinary
  obtain ⟨h0, h1, h2, h3, h4, h5, h6, h7, h8, h9⟩ := ordinary
  rw [plainInput, if_neg h0, if_neg h1, if_neg h2, if_neg h3, if_neg h4, if_neg h5, if_neg h6,
    if_neg h7, if_neg h8, if_neg h9]

/-- Reading a character touches the buffer and the log of look-ups, no status
and no flag. -/
theorem read_character_frame (kb : Keyboard) (scancode : Nat) :
    ∃ kIndex writes lookUps, readCharacter kb scancode =
      { kb with kIndex := kIndex, writes := writes, lookUps := lookUps } := by
  obtain ⟨looked, inside, ⟨-, same⟩ | ⟨-, c, written⟩⟩ := read_character_cases kb scancode
  · obtain ⟨places, rfl, -⟩ := inside.places
    exact ⟨_, _, _, same⟩
  · obtain ⟨places, rfl, -⟩ := inside.places
    exact ⟨_, _, _, written⟩

theorem read_character_flag (kb : Keyboard) (scancode : Nat) :
    (readCharacter kb scancode).extendFlag = kb.extendFlag := by
  obtain ⟨kIndex, writes, lookUps, same⟩ := read_character_frame kb scancode
  rw [same]

theorem plain_input_logged (logged : Logged kb count) :
    Logged (plainInput kb scancode) (count + (visible scancode).toNat) := by
  by_cases special : scancode ∈ specialCodes
  · rw [special_code_unseen scancode special]
    exact logged.same (special_input_same kb special)
  · rw [ordinary_input kb special]
    exact read_character_logged logged

theorem plain_input_flag (plain : kb.extendFlag ≠ extendCodePrefix) :
    (plainInput kb scancode).extendFlag = extendCodePrefix ↔ scancode = extendCodePrefix := by
  by_cases special : scancode ∈ specialCodes
  · simp only [specialCodes, List.mem_cons, List.not_mem_nil, or_false] at special
    rcases special with rfl | rfl | rfl | rfl | rfl | rfl | rfl | rfl | rfl | rfl
    · exact iff_of_true rfl rfl
    all_goals exact iff_of_false plain (by decide)
  · rw [ordinary_input kb special, read_character_flag]
    refine iff_of_false plain ?_
    rintro rfl
    exact special (by simp [specialCodes])

theorem extended_input_same (kb : Keyboard) (scancode : Nat) :
    SameLogs kb (extendedInput kb scancode) ∧
      (extendedInput kb scancode).extendFlag = kb.extendFlag := by
  unfold extendedInput
  split_ifs <;> exact ⟨⟨rfl, rfl, rfl⟩, rfl⟩

end Steps

theorem handle_all_logged (scancodes : List Nat) {kb : Keyboard} {count : Nat}
    (logged : Logged kb count) :
    Logged (handleAll kb scancodes)
      (count + visibleMakes (decide (kb.extendFlag = extendCodePrefix)) scancodes) := by
  induction scancodes generalizing kb count with
  | nil => simpa [handleAll, visibleMakes] using logged
  | cons scancode rest induction =>
      rw [handleAll, List.foldl_cons, ← handleAll]
      by_cases extended : kb.extendFlag = extendCodePrefix
      · have handled : keyboardInputHandler kb scancode =
            extendedInput { kb with extendFlag := extendCodeFlush } scancode := if_pos extended
        obtain ⟨same, flag⟩ :=
          extended_input_same { kb with extendFlag := extendCodeFlush } scancode
        have step : Logged (keyboardInputHandler kb scancode) count := by
          rw [handled]
          exact logged.same same
        have flushed : (keyboardInputHandler kb scancode).extendFlag ≠ extendCodePrefix := by
          rw [handled, flag]
          exact (by decide : extendCodeFlush ≠ extendCodePrefix)
        have later := induction step
        simpa [visibleMakes, extended, flushed] using later
      · have handled : keyboardInputHandler kb scancode = plainInput kb scancode :=
          if_neg extended
        have step : Logged (keyboardInputHandler kb scancode)
            (count + (visible scancode).toNat) := by
          rw [handled]
          exact plain_input_logged logged
        have flag : decide ((keyboardInputHandler kb scancode).extendFlag = extendCodePrefix) =
            decide (scancode = extendCodePrefix) := by
          rw [handled]
          exact decide_eq_decide.mpr (plain_input_flag extended)
        have later := induction step
        rw [flag] at later
        rw [decide_eq_false extended, visibleMakes]
        by_cases here : scancode = extendCodePrefix
        · have unseen : visible scancode = false :=
            special_code_unseen scancode (by simp [here, specialCodes])
          rw [unseen] at later
          rw [if_pos here]
          simpa [here] using later
        · rw [if_neg here, ← Nat.add_assoc]
          simpa [here] using later

/-- Consecutive places stay inside the buffer as long as there are no more than
it has. -/
theorem writes_inside_iff {kb : Keyboard} {count : Nat} (logged : Logged kb count) :
    (∀ write ∈ kb.writes, write.1 < keyboardOutputBufferLength) ↔
      count ≤ keyboardOutputBufferLength := by
  have size : keyboardOutputBufferLength < wordSize := by decide
  have places : (∀ write ∈ kb.writes, write.1 < keyboardOutputBufferLength) ↔
      ∀ place ∈ kb.writes.map Prod.fst, place < keyboardOutputBufferLength := by
    simp
  rw [places, logged.writes]
  constructor
  · intro inside
    by_contra more
    have member : keyboardOutputBufferLength ∈ List.range count := List.mem_range.mpr (by omega)
    have place := inside _ (List.mem_map_of_mem member)
    rw [Nat.mod_eq_of_lt size] at place
    omega
  · intro few place member
    obtain ⟨number, below, rfl⟩ := List.mem_map.mp member
    have smaller := List.mem_range.mp below
    exact lt_of_le_of_lt (Nat.mod_le _ _) (by omega)

theorem fresh_run_logged (scancodes : List Nat) :
    Logged (handleAll initKeyboard scancodes) (visibleMakes false scancodes) := by
  have initial : Logged initKeyboard 0 := ⟨by simp [initKeyboard], rfl, rfl⟩
  have logged := handle_all_logged scancodes initial
  have fresh : decide (initKeyboard.extendFlag = extendCodePrefix) = false := by decide
  rw [fresh, Nat.zero_add] at logged
  exact logged

theorem keyboard_in_bounds_iff (scancodes : List Nat) :
    ((∀ write ∈ (handleAll initKeyboard scancodes).writes,
          write.1 < keyboardOutputBufferLength) ∧
        ∀ place ∈ (handleAll initKeyboard scancodes).lookUps,
          place.1 < keymap.length ∧ place.2 < 2) ↔
      visibleMakes false scancodes ≤ keyboardOutputBufferLength := by
  have logged := fresh_run_logged scancodes
  rw [← writes_inside_iff logged]
  exact and_iff_left logged.lookUps

/-- The 513th `a` goes past the end of the buffer. -/
theorem long_typing_leaves_buffer :
    ¬∀ write ∈ (handleAll initKeyboard (List.replicate 513 0x1E)).writes,
      write.1 < keyboardOutputBufferLength := by
  rw [writes_inside_iff (fresh_run_logged _)]
  decide +kernel

end ChaoOS.KeyboardBounds
