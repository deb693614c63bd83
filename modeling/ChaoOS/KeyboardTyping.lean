import ChaoOS.GuardedRun
import ChaoOS.KeyboardBounds
import ChaoOS.KeyboardModifiers

/-!
# From keys to text

Beside the driver stands a typewriter that knows keys and not scancodes: a shift
that any shift key sets and any shift key resets, a caps lock that every press of its
key turns over, and a sheet. Whatever keys are pressed and released, the output buffer
holds what is on the sheet; and every text of characters that are on the keyboard has
keystrokes that leave it there.
-/

namespace ChaoOS.KeyboardTyping

open ChaoOS.KernelMath ChaoOS.GuardedRun ChaoOS.KeyboardModel ChaoOS.KeyboardBounds
open ChaoOS.KeyboardModifiers

set_option autoImplicit false

/-! ## The typewriter -/

structure Typist where
  shift : Bool
  caps : Bool
  text : List Nat

/-- A letter is large when exactly one of shift and caps lock is on; caps lock means
nothing to the other keys. -/
def keyCharacter (shift caps : Bool) (code : Nat) : Option Nat :=
  let small := keymapAt code 0
  let large := keymapAt code 1
  if small = charInvinsible then none
  else if 'a'.toNat ≤ small ∧ small ≤ 'z'.toNat then some (if shift ^^ caps then large else small)
  else some (if shift then large else small)

/-- The extended keys have no characters. -/
def Key.character (shift caps : Bool) (key : Key) : Option Nat :=
  if key.extended then none else keyCharacter shift caps key.code

def capsLockKey : Key := ⟨false, capsLockPressed⟩

def Typist.note (typist : Typist) : Event → Typist
  | .press key =>
      { shift := if Modifier.shift.Owns key then true else typist.shift
        caps := if key = capsLockKey then !typist.caps else typist.caps
        text := typist.text ++ (Key.character typist.shift typist.caps key).toList }
  | .release key =>
      { typist with shift := if Modifier.shift.Owns key then false else typist.shift }

def freshTypist : Typist := { shift := false, caps := false, text := [] }

/-! ## The driver keeps up with it -/

structure Follows (kb : Keyboard) (typist : Typist) : Prop where
  plain : kb.extendFlag ≠ extendCodePrefix
  shift : decide (kb.shiftStatus = keyPressed) = typist.shift
  caps : decide (kb.capsLockStatus = keyPressed) = typist.caps
  typed : kb.writes.map Prod.snd = typist.text

/-- The driver's test for a letter looks at the two columns, and finds the letters. -/
theorem letter_test : ∀ code < keymap.length,
    (keymapAt code 0 ≥ 'a'.toNat ∧ keymapAt code 1 ≤ 'z'.toNat ↔
      'a'.toNat ≤ keymapAt code 0 ∧ keymapAt code 0 ≤ 'z'.toNat) := by
  decide +kernel

theorem character_beyond (shift caps : Bool) {code : Nat} (beyond : keymap.length ≤ code) :
    keyCharacter shift caps code = none := by
  have empty : keymapAt code 0 = charInvinsible := by
    rw [keymapAt, List.getD_eq_default _ _ beyond]
    rfl
  rw [keyCharacter, if_pos empty]

theorem special_no_character (shift caps : Bool) {code : Nat} (special : code ∈ specialCodes) :
    keyCharacter shift caps code = none := by
  have none : ∀ shift caps, ∀ code ∈ specialCodes, keyCharacter shift caps code = none := by
    decide +kernel
  exact none shift caps code special

theorem keymap_at_column (code : Nat) (second : Bool) :
    keymapAt code second.toNat = if second then keymapAt code 1 else keymapAt code 0 := by
  cases second <;> rfl

section Steps

variable {kb : Keyboard} {code : Nat}

theorem looked_write_types {kb read : Keyboard} (same : read.writes = kb.writes) (code : Nat)
    (second : Bool) : ((read.lookUp code second.toNat).write (keymapAt code second.toNat)).writes.map
      Prod.snd = kb.writes.map Prod.snd ++
        [if second then keymapAt code 1 else keymapAt code 0] := by
  rw [← keymap_at_column, ← same]
  simp [Keyboard.write, Keyboard.lookUp]

theorem read_character_types (kb : Keyboard) (code : Nat) :
    (readCharacter kb code).writes.map Prod.snd = kb.writes.map Prod.snd ++
      (keyCharacter (decide (kb.shiftStatus = keyPressed))
        (decide (kb.capsLockStatus = keyPressed)) code).toList := by
  have rows : keymap.length = 59 := by decide
  by_cases beyond : code > 0x3A
  · rw [readCharacter, if_pos beyond, character_beyond _ _ (by omega)]
    exact (List.append_nil _).symm
  · have test := letter_test code (by omega)
    have same : (if decide (keymapAt code 0 ≥ 'a'.toNat) = true then
        (kb.lookUp code 0).lookUp code 1 else kb.lookUp code 0).writes = kb.writes := by
      split_ifs <;> rfl
    rw [readCharacter, if_neg beyond]
    generalize decide (kb.shiftStatus = keyPressed) = shifted
    generalize decide (kb.capsLockStatus = keyPressed) = locked
    simp only
    generalize (if decide (keymapAt code 0 ≥ 'a'.toNat) = true then
      (kb.lookUp code 0).lookUp code 1 else kb.lookUp code 0) = read at same ⊢
    simp only [decide_eq_true_eq, keyCharacter]
    by_cases letter : keymapAt code 0 ≥ 'a'.toNat ∧ keymapAt code 1 ≤ 'z'.toNat
    · have visible : keymapAt code 0 ≠ charInvinsible := by
        have large : keymapAt code 0 ≥ 97 := letter.1
        rw [charInvinsible]
        omega
      rw [if_pos letter, if_neg visible, if_pos (test.mp letter)]
      exact looked_write_types same code (shifted ^^ locked)
    · rw [if_neg letter]
      by_cases empty : keymapAt code 0 = charInvinsible
      · rw [if_pos empty, if_pos empty]
        simp [Keyboard.lookUp, same]
      · rw [if_neg empty, if_neg empty, if_neg (fun small => letter (test.mpr small))]
        exact @looked_write_types kb (read.lookUp code 0) same code shifted

/-- A press of a key without prefix, whatever the key. -/
theorem plain_input_types (kb : Keyboard) (code : Nat) :
    (plainInput kb code).writes.map Prod.snd = kb.writes.map Prod.snd ++
      (keyCharacter (decide (kb.shiftStatus = keyPressed))
        (decide (kb.capsLockStatus = keyPressed)) code).toList := by
  by_cases special : code ∈ specialCodes
  · rw [(special_input_same kb special).2.1, special_no_character _ _ special]
    exact (List.append_nil _).symm
  · rw [ordinary_input kb special]
    exact read_character_types kb code

theorem plain_input_caps (kb : Keyboard) (code : Nat) :
    (plainInput kb code).capsLockStatus = if code = capsLockPressed then
      if kb.capsLockStatus = keyPressed then keyReleased else keyPressed else kb.capsLockStatus := by
  by_cases special : code ∈ specialCodes
  · simp only [specialCodes, List.mem_cons, List.not_mem_nil, or_false] at special
    rcases special with rfl | rfl | rfl | rfl | rfl | rfl | rfl | rfl | rfl | rfl
    all_goals rfl
  · have other : code ≠ capsLockPressed := by
      rintro rfl
      exact special (by decide)
    obtain ⟨kIndex, writes, lookUps, same⟩ := read_character_frame kb code
    rw [ordinary_input kb special, same, if_neg other]

theorem extended_input_caps (kb : Keyboard) (code : Nat) :
    (extendedInput kb code).capsLockStatus = kb.capsLockStatus := by
  unfold extendedInput
  split_ifs <;> rfl

/-- An extended key types nothing and leaves the caps lock alone. -/
theorem extended_event (plain : kb.extendFlag ≠ extendCodePrefix) (scancode : Nat) :
    (handleAll kb [extendCodePrefix, scancode]).writes = kb.writes ∧
      (handleAll kb [extendCodePrefix, scancode]).capsLockStatus = kb.capsLockStatus := by
  rw [handle_extended plain, extended_input_caps]
  exact ⟨(extended_input_same _ scancode).1.2.1, rfl⟩

/-- What an event types and does to the caps lock. -/
theorem event_effect (event : Event) (plain : kb.extendFlag ≠ extendCodePrefix) (typist : Typist)
    (shift : decide (kb.shiftStatus = keyPressed) = typist.shift)
    (caps : decide (kb.capsLockStatus = keyPressed) = typist.caps)
    (typed : kb.writes.map Prod.snd = typist.text) :
    decide ((handleAll kb event.scancodes).capsLockStatus = keyPressed) =
        (typist.note event).caps ∧
      (handleAll kb event.scancodes).writes.map Prod.snd = (typist.note event).text := by
  cases event with
  | press key =>
      obtain ⟨extended, code⟩ := key
      cases extended with
      | true =>
          obtain ⟨writes, locked⟩ := extended_event plain code
          have other : (⟨true, code⟩ : Key) ≠ capsLockKey := by simp [capsLockKey]
          rw [show (Event.press ⟨true, code⟩).scancodes = [extendCodePrefix, code] from rfl, writes,
            locked, caps, typed, Typist.note, if_neg other]
          exact ⟨rfl, (List.append_nil _).symm⟩
      | false =>
          have same : (⟨false, code⟩ : Key) = capsLockKey ↔ code = capsLockPressed := by
            simp [capsLockKey]
          rw [show (Event.press ⟨false, code⟩).scancodes = [code] from rfl, handle_plain plain,
            plain_input_types, plain_input_caps, shift, caps, typed, Typist.note]
          refine ⟨?_, rfl⟩
          simp only [same, ← caps]
          split_ifs with own locked
          · rw [decide_eq_true locked]
            rfl
          · rw [decide_eq_false locked]
            rfl
          · rfl
  | release key =>
      obtain ⟨extended, code⟩ := key
      cases extended with
      | true =>
          obtain ⟨writes, locked⟩ := extended_event plain (code + 0x80)
          rw [show (Event.release ⟨true, code⟩).scancodes = [extendCodePrefix, code + 0x80] from rfl,
            writes, locked]
          exact ⟨caps, typed⟩
      | false =>
          have rows : keymap.length = 59 := by decide
          have other : code + 0x80 ≠ capsLockPressed := by
            rw [capsLockPressed]
            omega
          rw [show (Event.release ⟨false, code⟩).scancodes = [code + 0x80] from rfl,
            handle_plain plain, plain_input_types, plain_input_caps, if_neg other,
            character_beyond _ _ (by omega)]
          exact ⟨caps, (List.append_nil _).trans typed⟩

theorem event_shift {event : Event} (plain : kb.extendFlag ≠ extendCodePrefix)
    (physical : event.key.Physical) (typist : Typist)
    (shift : decide (kb.shiftStatus = keyPressed) = typist.shift) :
    decide ((handleAll kb event.scancodes).shiftStatus = keyPressed) =
      (typist.note event).shift := by
  have status := event_status physical plain Modifier.shift
  by_cases owned : Modifier.shift.Owns event.key
  · rw [if_pos owned] at status
    rw [show (handleAll kb event.scancodes).shiftStatus = _ from status]
    cases event with
    | press key => exact (if_pos owned).symm
    | release key => exact (if_pos owned).symm
  · rw [if_neg owned] at status
    rw [show (handleAll kb event.scancodes).shiftStatus = _ from status]
    cases event with
    | press key => exact shift.trans (if_neg owned).symm
    | release key => exact shift.trans (if_neg owned).symm

theorem event_follows {typist : Typist} {event : Event} (follows : Follows kb typist)
    (physical : event.key.Physical) :
    Follows (handleAll kb event.scancodes) (typist.note event) := by
  obtain ⟨caps, typed⟩ := event_effect event follows.plain typist follows.shift
    follows.caps follows.typed
  exact ⟨event_flag physical follows.plain, event_shift follows.plain physical typist follows.shift,
    caps, typed⟩

theorem fresh_follows : Follows initKeyboard freshTypist :=
  ⟨by decide, by decide, by decide, rfl⟩

theorem handle_all_append (kb : Keyboard) (first second : List Nat) :
    handleAll kb (first ++ second) = handleAll (handleAll kb first) second :=
  List.foldl_append

theorem events_follow {typist : Typist} {events : List Event} (follows : Follows kb typist)
    (physical : ∀ event ∈ events, event.key.Physical) :
    Follows (handleAll kb (events.flatMap Event.scancodes)) (events.foldl Typist.note typist) := by
  induction events generalizing kb typist with
  | nil => exact follows
  | cons event rest induction =>
      rw [List.flatMap_cons, handle_all_append, List.foldl_cons]
      apply induction (event_follows follows (physical event List.mem_cons_self))
      exact fun other member => physical other (List.mem_cons_of_mem _ member)

/-- The characters stand in the buffer one after the other. -/
theorem consecutive_writes {count : Nat} (logged : Logged kb count)
    (few : kb.writes.length < wordSize) :
    kb.writes = (List.range kb.writes.length).zip (kb.writes.map Prod.snd) := by
  have number : kb.writes.length = count := by
    have lengths := congrArg List.length logged.writes
    simpa using lengths
  apply List.zip_of_prod _ rfl
  rw [logged.writes, ← number]
  apply List.map_congr_left _ |>.trans (List.map_id _)
  intro place listed
  exact Nat.mod_eq_of_lt (Nat.lt_trans (List.mem_range.mp listed) few)

end Steps

/-- What is on the typewriter's sheet after the same keys. -/
def sheet (events : List Event) : Typist := events.foldl Typist.note freshTypist

theorem sheet_written {events : List Event} (physical : ∀ event ∈ events, event.key.Physical)
    (few : (sheet events).text.length < wordSize) :
    (handleAll initKeyboard (events.flatMap Event.scancodes)).writes =
      (List.range (sheet events).text.length).zip (sheet events).text := by
  have follows := events_follow fresh_follows physical
  have lengths := congrArg List.length follows.typed
  rw [List.length_map] at lengths
  rw [consecutive_writes (fresh_run_logged _) (lengths ▸ few), follows.typed, lengths]
  rfl

/-- Whatever keys are pressed and released, in any order and held as long as one likes,
the driver writes the characters of the sheet, one after the other from the start of the
buffer, and its shift and caps lock are those of the typewriter. -/
theorem driver_types_sheet {events : List Event} (physical : ∀ event ∈ events, event.key.Physical)
    (few : (sheet events).text.length < wordSize) :
    let kb := handleAll initKeyboard (events.flatMap Event.scancodes)
    kb.writes = (List.range (sheet events).text.length).zip (sheet events).text ∧
      (kb.shiftStatus = keyPressed ↔ (sheet events).shift = true) ∧
      (kb.capsLockStatus = keyPressed ↔ (sheet events).caps = true) := by
  have follows := events_follow fresh_follows physical
  refine ⟨sheet_written physical few, ?_, ?_⟩
  · rw [sheet, ← follows.shift]
    exact decide_eq_true_iff.symm
  · rw [sheet, ← follows.caps]
    exact decide_eq_true_iff.symm

/-- Two keys at once, a prefix, and a shift that the second release takes away. -/
def rollover : List Event :=
  [.press Modifier.shift.left, .press ⟨false, 0x1E⟩, .press ⟨false, 0x30⟩, .release ⟨false, 0x1E⟩,
    .release Modifier.shift.left, .press ⟨true, 0x1C⟩, .release ⟨false, 0x30⟩,
    .press ⟨false, 0x2E⟩]

theorem driver_types_sheet_sample :
    (handleAll initKeyboard (rollover.flatMap Event.scancodes)).writes =
      [(0, 'A'.toNat), (1, 'B'.toNat), (2, 'c'.toNat)] := by
  have typed := @driver_types_sheet rollover (by decide) (by decide)
  exact typed.1.trans (by decide)

/-! ## Keystrokes for a text -/

/-- The shift and the key that give a character. -/
def findStroke (caps : Bool) (c : Nat) : Option (Bool × Nat) :=
  ((List.range keymap.length).flatMap fun code => [(false, code), (true, code)]).find?
    fun stroke => keyCharacter stroke.1 caps stroke.2 == some c

def tap (key : Key) : List Event := [.press key, .release key]

/-- The key by itself, or inside a press and a release of the left shift. -/
def keystrokes (caps : Bool) (c : Nat) : List Event :=
  match findStroke caps c with
  | none => []
  | some (false, code) => tap ⟨false, code⟩
  | some (true, code) =>
      .press Modifier.shift.left :: (tap ⟨false, code⟩ ++ [.release Modifier.shift.left])

/-- Some key has the character. -/
def Typable (c : Nat) : Prop := ∃ shift code, keyCharacter shift false code = some c

/-- With caps lock on the shift of a letter is used the other way round. -/
theorem caps_swaps_shift (caps shift : Bool) (code : Nat) :
    ∃ other, keyCharacter other caps code = keyCharacter shift false code := by
  cases caps with
  | false => exact ⟨shift, rfl⟩
  | true =>
      by_cases letter : 'a'.toNat ≤ keymapAt code 0 ∧ keymapAt code 0 ≤ 'z'.toNat
      · refine ⟨!shift, ?_⟩
        simp only [keyCharacter, if_pos letter, Bool.xor_true, Bool.not_not, Bool.xor_false]
      · refine ⟨shift, ?_⟩
        simp only [keyCharacter, if_neg letter]

theorem find_stroke (caps : Bool) {c : Nat} (typable : Typable c) :
    ∃ shift code, findStroke caps c = some (shift, code) ∧ code < keymap.length ∧
      keyCharacter shift caps code = some c := by
  obtain ⟨shift, code, character⟩ := typable
  obtain ⟨other, same⟩ := caps_swaps_shift caps shift code
  have inside : code < keymap.length := by
    by_contra beyond
    rw [character_beyond _ _ (Nat.le_of_not_lt beyond)] at character
    cases character
  have found : (findStroke caps c).isSome := by
    rw [findStroke, List.find?_isSome]
    refine ⟨(other, code), ?_, ?_⟩
    · refine List.mem_flatMap.mpr ⟨code, List.mem_range.mpr inside, ?_⟩
      cases other <;> simp
    · rw [same, character]
      exact beq_self_eq_true _
  obtain ⟨⟨held, key⟩, stroke⟩ := Option.isSome_iff_exists.mp found
  have listed := List.mem_of_find?_eq_some stroke
  obtain ⟨row, member, pair⟩ := List.mem_flatMap.mp listed
  have own : key = row := by
    simp only [List.mem_cons, List.not_mem_nil, or_false, Prod.mk.injEq] at pair
    rcases pair with ⟨-, same⟩ | ⟨-, same⟩ <;> exact same
  refine ⟨held, key, stroke, own ▸ List.mem_range.mp member, ?_⟩
  rw [findStroke] at stroke
  have matched := List.find?_some stroke
  exact eq_of_beq matched

/-! ### The keystrokes are typed -/

theorem inside_physical {code : Nat} (inside : code < keymap.length) :
    Key.Physical ⟨false, code⟩ := by
  have rows : keymap.length = 59 := by decide
  refine ⟨?_, fun _ => ?_⟩
  · show code < 0x80
    omega
  · show code + 0x80 ≠ 0xE0
    omega

/-- A key with a character is no shift and no caps lock. -/
theorem character_key {shift caps : Bool} {code c : Nat}
    (character : keyCharacter shift caps code = some c) :
    ¬Modifier.shift.Owns ⟨false, code⟩ ∧ (⟨false, code⟩ : Key) ≠ capsLockKey := by
  have ordinary : code ∉ specialCodes := by
    intro special
    rw [special_no_character shift caps special] at character
    cases character
  constructor
  · intro owned
    exact ordinary (owned_plain_special owned).1
  · intro same
    have own : code = capsLockPressed := congrArg Key.code same
    exact ordinary (own ▸ by decide)

theorem tap_noted {shift caps : Bool} {code c : Nat} (text : List Nat)
    (character : keyCharacter shift caps code = some c) :
    (tap ⟨false, code⟩).foldl Typist.note ⟨shift, caps, text⟩ = ⟨shift, caps, text ++ [c]⟩ := by
  obtain ⟨free, other⟩ := character_key character
  have typed : Key.character shift caps ⟨false, code⟩ = some c := character
  simp only [tap, List.foldl_cons, List.foldl_nil, Typist.note, if_neg free, if_neg other, typed,
    Option.toList_some]

theorem keystrokes_noted {caps : Bool} {c : Nat} (text : List Nat) (typable : Typable c) :
    (keystrokes caps c).foldl Typist.note ⟨false, caps, text⟩ = ⟨false, caps, text ++ [c]⟩ := by
  obtain ⟨shift, code, stroke, inside, character⟩ := find_stroke caps typable
  rw [keystrokes, stroke]
  cases shift with
  | false => exact tap_noted text character
  | true =>
      have down : Typist.note ⟨false, caps, text⟩ (.press Modifier.shift.left) =
          ⟨true, caps, text⟩ := by
        have silent : (Key.character false caps Modifier.shift.left).toList = [] := by
          cases caps <;> decide
        have own : Modifier.shift.Owns Modifier.shift.left := Or.inl rfl
        have other : Modifier.shift.left ≠ capsLockKey := by decide
        simp only [Typist.note, if_pos own, if_neg other, silent, List.append_nil]
      have up : Typist.note ⟨true, caps, text ++ [c]⟩ (.release Modifier.shift.left) =
          ⟨false, caps, text ++ [c]⟩ := rfl
      simp only [List.foldl_cons, List.foldl_append, down, tap_noted text character, up,
        List.foldl_nil]

/-! ### A keyboard can send them -/

section Desks

variable {kb : Keyboard} {held : Key → Bool} {key : Key}

theorem press_runs (physical : key.Physical) (free : held key = false) :
    deskStep ⟨kb, held⟩ (.press key) =
      some ⟨handleAll kb (Event.press key).scancodes, Function.update held key true⟩ :=
  if_pos ⟨physical, free⟩

theorem release_runs (physical : key.Physical) (free : held key = false) :
    deskStep ⟨kb, Function.update held key true⟩ (.release key) =
      some ⟨handleAll kb (Event.release key).scancodes, held⟩ := by
  have down : Function.update held key true key = true := Function.update_self ..
  have back : Function.update (Function.update held key true) key false = held := by
    rw [Function.update_idem, ← free, Function.update_eq_self]
  simp only [deskStep, if_pos (And.intro physical down), back]

theorem tap_runs (physical : key.Physical) (free : held key = false) :
    runFrom deskStep ⟨kb, held⟩ (tap key) =
      some ⟨handleAll kb ((tap key).flatMap Event.scancodes), held⟩ := by
  simp only [tap, runFrom, press_runs physical free, Option.bind_some, release_runs physical free,
    List.flatMap_cons, List.flatMap_nil, List.append_nil, handle_all_append]

/-- What the driver has done at the end of a run of the desk. -/
theorem run_handles {desk final : Desk} {events : List Event}
    (run : runFrom deskStep desk events = some final) :
    final.kb = handleAll desk.kb (events.flatMap Event.scancodes) ∧
      ∀ event ∈ events, event.key.Physical := by
  induction events generalizing desk with
  | nil =>
      rw [← Option.some.inj run]
      exact ⟨rfl, by simp⟩
  | cons event rest induction =>
      obtain ⟨next, step, later⟩ := run_cons run
      obtain ⟨physical, handled, -⟩ := desk_step_cases step
      obtain ⟨kb, others⟩ := induction later
      rw [handled] at kb
      refine ⟨?_, List.forall_mem_cons.mpr ⟨physical, others⟩⟩
      rw [kb, List.flatMap_cons, handle_all_append]

theorem keystrokes_run (caps : Bool) {c : Nat} (typable : Typable c) :
    runFrom deskStep ⟨kb, fun _ => false⟩ (keystrokes caps c) =
      some ⟨handleAll kb ((keystrokes caps c).flatMap Event.scancodes), fun _ => false⟩ := by
  obtain ⟨shift, code, stroke, inside, character⟩ := find_stroke caps typable
  have physical := inside_physical inside
  rw [keystrokes, stroke]
  cases shift with
  | false => exact tap_runs physical rfl
  | true =>
      have left : Key.Physical Modifier.shift.left := by decide
      have different : (⟨false, code⟩ : Key) ≠ Modifier.shift.left := fun same =>
        (character_key character).1 (Or.inl same)
      have free : Function.update (fun _ : Key => false) Modifier.shift.left true ⟨false, code⟩ =
          false := Function.update_of_ne different ..
      have inner := @tap_runs (handleAll kb (Event.press Modifier.shift.left).scancodes) _ _
        physical free
      rw [runFrom, press_runs left rfl, Option.bind_some, run_append inner, runFrom,
        release_runs left rfl, Option.bind_some, runFrom]
      simp only [List.flatMap_cons, List.flatMap_append, List.flatMap_nil, List.append_nil,
        handle_all_append]

theorem text_runs (caps : Bool) {text : List Nat} (typable : ∀ c ∈ text, Typable c) :
    ∃ after, runFrom deskStep ⟨kb, fun _ => false⟩ (text.flatMap (keystrokes caps)) =
      some ⟨after, fun _ => false⟩ := by
  induction text generalizing kb with
  | nil => exact ⟨kb, rfl⟩
  | cons c rest induction =>
      rw [List.flatMap_cons, run_append (keystrokes_run caps (typable c List.mem_cons_self))]
      exact induction fun other member => typable other (List.mem_cons_of_mem _ member)

end Desks

theorem text_noted {caps : Bool} {text : List Nat} (before : List Nat)
    (typable : ∀ c ∈ text, Typable c) :
    (text.flatMap (keystrokes caps)).foldl Typist.note ⟨false, caps, before⟩ =
      ⟨false, caps, before ++ text⟩ := by
  induction text generalizing before with
  | nil => rw [List.flatMap_nil, List.foldl_nil, List.append_nil]
  | cons c rest induction =>
      rw [List.flatMap_cons, List.foldl_append,
        keystrokes_noted before (typable c List.mem_cons_self),
        induction _ fun other member => typable other (List.mem_cons_of_mem _ member),
        List.append_assoc, List.singleton_append]

/-- The keys of a text, after a turn of the caps lock if one likes. -/
def typing (locked : Bool) (text : List Nat) : List Event :=
  (if locked then tap capsLockKey else []) ++ text.flatMap (keystrokes locked)

/-- Every text of characters that are on the keyboard and that fits the buffer has
keystrokes, with caps lock on or off, that a keyboard can send and that leave exactly
the text in the buffer. -/
theorem typing_reaches_buffer (locked : Bool) {text : List Nat} (typable : ∀ c ∈ text, Typable c)
    (fits : text.length ≤ keyboardOutputBufferLength) :
    ∃ desk, runFrom deskStep freshDesk (typing locked text) = some desk ∧
      desk.kb.writes = (List.range text.length).zip text ∧ ∀ key, desk.held key = false := by
  obtain ⟨kb, first⟩ : ∃ kb, runFrom deskStep freshDesk (if locked then tap capsLockKey else []) =
      some ⟨kb, fun _ => false⟩ := by
    cases locked with
    | false => exact ⟨initKeyboard, rfl⟩
    | true => exact ⟨_, tap_runs (by decide) rfl⟩
  have turned : (if locked then tap capsLockKey else []).foldl Typist.note freshTypist =
      ⟨false, locked, []⟩ := by
    cases locked <;> rfl
  obtain ⟨after, rest⟩ := @text_runs kb locked text typable
  have run : runFrom deskStep freshDesk (typing locked text) = some ⟨after, fun _ => false⟩ :=
    (run_append first).trans rest
  obtain ⟨handled, physical⟩ := run_handles run
  have noted : (sheet (typing locked text)).text = text := by
    rw [sheet, typing, List.foldl_append, turned, text_noted [] typable]
    rfl
  have few : text.length < wordSize := Nat.lt_of_le_of_lt fits (by decide)
  have written := sheet_written physical (by rw [noted]; exact few)
  rw [noted] at written
  exact ⟨_, run, handled ▸ written, fun _ => rfl⟩

/-- `Hi you!` with caps lock on. -/
theorem typing_reaches_buffer_sample : ∃ desk,
    runFrom deskStep freshDesk (typing true (['H', 'i', ' ', 'y', 'o', 'u', '!'].map Char.toNat)) =
        some desk ∧
      desk.kb.writes =
        [(0, 72), (1, 105), (2, 32), (3, 121), (4, 111), (5, 117), (6, 33)] := by
  have typable : ∀ c ∈ ['H', 'i', ' ', 'y', 'o', 'u', '!'].map Char.toNat, Typable c := by
    have found : ∀ c ∈ ['H', 'i', ' ', 'y', 'o', 'u', '!'].map Char.toNat,
        ((findStroke false c).any fun stroke => keyCharacter stroke.1 false stroke.2 == some c) := by
      decide +kernel
    intro c listed
    obtain ⟨stroke, -, character⟩ := (Option.any_eq_true _ _).mp (found c listed)
    exact ⟨stroke.1, stroke.2, eq_of_beq character⟩
  obtain ⟨desk, run, written, -⟩ := typing_reaches_buffer true typable (by decide)
  exact ⟨desk, run, written⟩

end ChaoOS.KeyboardTyping
