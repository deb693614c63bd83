import ChaoOS.GuardedRun
import ChaoOS.KeyboardBounds

/-!
# Modifier keys

A keyboard sends a scancode when a key goes down and another when it comes up,
each after a prefix when the key is one of the extended ones. The driver keeps
one status for the left and the right key of a modifier.
-/

namespace ChaoOS.KeyboardModifiers

open ChaoOS.GuardedRun ChaoOS.KeyboardModel ChaoOS.KeyboardBounds

set_option autoImplicit false

/-! ## Keys and what they send -/

structure Key where
  extended : Bool
  code : Nat
  deriving DecidableEq

/-- A release adds 0x80 to the code of the key; no key's own scancode is the
prefix. -/
def Key.Physical (key : Key) : Prop :=
  key.code < 0x80 ∧ (key.extended = false → key.code + 0x80 ≠ extendCodePrefix)

instance (key : Key) : Decidable key.Physical :=
  inferInstanceAs (Decidable (_ ∧ (_ → _)))

inductive Event where
  | press (key : Key)
  | release (key : Key)

def Event.key : Event → Key
  | press key => key
  | release key => key

def Event.scancodes : Event → List Nat
  | press key => if key.extended then [extendCodePrefix, key.code] else [key.code]
  | release key =>
      if key.extended then [extendCodePrefix, key.code + 0x80] else [key.code + 0x80]

inductive Modifier where
  | shift
  | alt
  | ctrl
  deriving DecidableEq

namespace Modifier

def left : Modifier → Key
  | shift => ⟨false, 0x2A⟩
  | alt => ⟨false, 0x38⟩
  | ctrl => ⟨false, 0x1D⟩

def right : Modifier → Key
  | shift => ⟨false, 0x36⟩
  | alt => ⟨true, 0x38⟩
  | ctrl => ⟨true, 0x1D⟩

def status (kb : Keyboard) : Modifier → Nat
  | shift => kb.shiftStatus
  | alt => kb.altStatus
  | ctrl => kb.crtlStatus

/-- The key is one of the two of the modifier. -/
def Owns (modifier : Modifier) (key : Key) : Prop := key = modifier.left ∨ key = modifier.right

instance (modifier : Modifier) (key : Key) : Decidable (modifier.Owns key) :=
  inferInstanceAs (Decidable (_ ∨ _))

end Modifier

/-- The driver and the keys that are held down. -/
structure Desk where
  kb : Keyboard
  held : Key → Bool

/-- A key goes down when it is up and comes up when it is down. -/
def deskStep (desk : Desk) (event : Event) : Option Desk :=
  let after := handleAll desk.kb event.scancodes
  match event with
  | .press key =>
      if key.Physical ∧ desk.held key = false then
        some { kb := after, held := Function.update desk.held key true }
      else none
  | .release key =>
      if key.Physical ∧ desk.held key = true then
        some { kb := after, held := Function.update desk.held key false }
      else none

def freshDesk : Desk := { kb := initKeyboard, held := fun _ => false }

/-- Each status says whether one of the two keys is held. -/
def Tracks (desk : Desk) : Prop :=
  ∀ modifier : Modifier, modifier.status desk.kb = keyPressed ↔
    desk.held modifier.left = true ∨ desk.held modifier.right = true

/-- A modifier key comes up only when the other one is up. -/
def LastUp (desk : Desk) : Event → Prop
  | .press _ => True
  | .release key => ∀ modifier : Modifier,
      (key = modifier.left → desk.held modifier.right = false) ∧
        (key = modifier.right → desk.held modifier.left = false)

def Modifier.all : List Modifier := [shift, alt, ctrl]

theorem Modifier.mem_all (modifier : Modifier) : modifier ∈ Modifier.all := by
  cases modifier <;> decide

instance (desk : Desk) : (event : Event) → Decidable (LastUp desk event)
  | .press _ => inferInstanceAs (Decidable True)
  | .release key =>
      decidable_of_iff
        (∀ modifier ∈ Modifier.all, (key = modifier.left → desk.held modifier.right = false) ∧
          (key = modifier.right → desk.held modifier.left = false))
        ⟨fun every modifier => every modifier modifier.mem_all, fun every modifier _ => every modifier⟩

/-! ## What one event does to a status -/

section Statuses

variable {kb : Keyboard} {code : Nat}

theorem read_character_status (modifier : Modifier) (scancode : Nat) :
    modifier.status (readCharacter kb scancode) = modifier.status kb := by
  obtain ⟨kIndex, writes, lookUps, same⟩ := read_character_frame kb scancode
  rw [same]
  cases modifier <;> rfl

/-- The plain modifier keys send scancodes that `plainInput` treats. -/
theorem owned_plain_special {modifier : Modifier} (owned : modifier.Owns ⟨false, code⟩) :
    code ∈ specialCodes ∧ code + 0x80 ∈ specialCodes := by
  rcases owned with own | own
  · cases modifier <;> (simp only [Modifier.left, Key.mk.injEq, true_and] at own; subst own; decide)
  · cases modifier with
    | shift =>
        simp only [Modifier.right, Key.mk.injEq, true_and] at own
        subst own
        decide
    | _ => simp [Modifier.right] at own

theorem plain_press_status (modifier : Modifier) (small : code < 0x80) :
    modifier.status (plainInput kb code) =
      if modifier.Owns ⟨false, code⟩ then keyPressed else modifier.status kb := by
  by_cases special : code ∈ specialCodes
  · simp only [specialCodes, List.mem_cons, List.not_mem_nil, or_false] at special
    rcases special with rfl | rfl | rfl | rfl | rfl | rfl | rfl | rfl | rfl | rfl
    all_goals first
      | exact absurd small (by decide)
      | cases modifier <;> rfl
  · have other : ¬modifier.Owns ⟨false, code⟩ := fun owned =>
      special (owned_plain_special owned).1
    rw [ordinary_input kb special, read_character_status, if_neg other]

theorem plain_release_status (modifier : Modifier) (small : code < 0x80)
    (physical : code + 0x80 ≠ extendCodePrefix) :
    modifier.status (plainInput kb (code + 0x80)) =
      if modifier.Owns ⟨false, code⟩ then keyReleased else modifier.status kb := by
  by_cases special : code + 0x80 ∈ specialCodes
  · have codes : code = 0x2A ∨ code = 0x36 ∨ code = 0x38 ∨ code = 0x1D := by
      simp only [specialCodes, List.mem_cons, List.not_mem_nil, or_false, lShiftPressed,
        lShiftReleased, rShiftPressed, rShiftReleased, lAltPressed, lAltReleased, lCtrlPressed,
        lCtrlReleased, capsLockPressed, physical, false_or] at special
      omega
    rcases codes with rfl | rfl | rfl | rfl
    all_goals cases modifier <;> rfl
  · have other : ¬modifier.Owns ⟨false, code⟩ := fun owned =>
      special (owned_plain_special owned).2
    rw [ordinary_input kb special, read_character_status, if_neg other]

theorem extended_other_input {scancode : Nat} (altDown : scancode ≠ 0x38) (altUp : scancode ≠ 0xB8)
    (ctrlDown : scancode ≠ 0x1D) (ctrlUp : scancode ≠ 0x9D) : extendedInput kb scancode = kb := by
  have masks : rAltPressed &&& scancodeMask = 0x38 ∧ rAltReleased &&& scancodeMask = 0xB8 ∧
    rCtrlPressed &&& scancodeMask = 0x1D ∧ rCtrlReleased &&& scancodeMask = 0x9D := by decide
  rw [extendedInput, masks.1, masks.2.1, masks.2.2.1, masks.2.2.2, if_neg altDown, if_neg altUp,
    if_neg ctrlDown, if_neg ctrlUp]

theorem not_owns_extended {modifier : Modifier} (alt : code ≠ 0x38) (ctrl : code ≠ 0x1D) :
    ¬modifier.Owns ⟨true, code⟩ := by
  cases modifier <;> simp [Modifier.Owns, Modifier.left, Modifier.right, alt, ctrl]

theorem extended_press_status (modifier : Modifier) (small : code < 0x80) :
    modifier.status (extendedInput kb code) =
      if modifier.Owns ⟨true, code⟩ then keyPressed else modifier.status kb := by
  by_cases alt : code = 0x38
  · subst alt
    cases modifier <;> rfl
  · by_cases ctrl : code = 0x1D
    · subst ctrl
      cases modifier <;> rfl
    · rw [if_neg (not_owns_extended alt ctrl),
        extended_other_input alt (by omega) ctrl (by omega)]

theorem extended_release_status (modifier : Modifier) :
    modifier.status (extendedInput kb (code + 0x80)) =
      if modifier.Owns ⟨true, code⟩ then keyReleased else modifier.status kb := by
  by_cases alt : code = 0x38
  · subst alt
    cases modifier <;> rfl
  · by_cases ctrl : code = 0x1D
    · subst ctrl
      cases modifier <;> rfl
    · rw [if_neg (not_owns_extended alt ctrl),
        extended_other_input (by omega) (by omega) (by omega) (by omega)]

def Event.down : Event → Bool
  | press _ => true
  | release _ => false

/-- The status a key's event sets. -/
def Event.value : Event → Nat
  | press _ => keyPressed
  | release _ => keyReleased

theorem handle_plain {scancode : Nat} (plain : kb.extendFlag ≠ extendCodePrefix) :
    handleAll kb [scancode] = plainInput kb scancode := if_neg plain

theorem handle_extended {scancode : Nat} (plain : kb.extendFlag ≠ extendCodePrefix) :
    handleAll kb [extendCodePrefix, scancode] =
      extendedInput { kb with extendFlag := extendCodeFlush } scancode := by
  have first : keyboardInputHandler kb extendCodePrefix =
      { kb with extendFlag := extendCodePrefix } := if_neg plain
  rw [handleAll, List.foldl_cons, first]
  rfl

/-- An event of a modifier's key sets the status of the modifier, and no other
event does. -/
theorem event_status {event : Event} (physical : event.key.Physical)
    (plain : kb.extendFlag ≠ extendCodePrefix) (modifier : Modifier) :
    modifier.status (handleAll kb event.scancodes) =
      if modifier.Owns event.key then event.value else modifier.status kb := by
  have flushed : modifier.status { kb with extendFlag := extendCodeFlush } =
      modifier.status kb := by
    cases modifier <;> rfl
  cases event with
  | press key =>
      obtain ⟨extended, code⟩ := key
      have small : code < 0x80 := physical.1
      cases extended with
      | true =>
          rw [show (Event.press ⟨true, code⟩).scancodes = [extendCodePrefix, code] from rfl,
            handle_extended plain, extended_press_status modifier small, flushed]
          rfl
      | false =>
          rw [show (Event.press ⟨false, code⟩).scancodes = [code] from rfl,
            handle_plain plain, plain_press_status modifier small]
          rfl
  | release key =>
      obtain ⟨extended, code⟩ := key
      cases extended with
      | true =>
          rw [show (Event.release ⟨true, code⟩).scancodes = [extendCodePrefix, code + 0x80] from rfl,
            handle_extended plain, extended_release_status modifier, flushed]
          rfl
      | false =>
          have small : code < 0x80 := physical.1
          have single : code + 0x80 ≠ extendCodePrefix := physical.2 rfl
          rw [show (Event.release ⟨false, code⟩).scancodes = [code + 0x80] from rfl,
            handle_plain plain, plain_release_status modifier small single]
          rfl

theorem event_flag {event : Event} (physical : event.key.Physical)
    (plain : kb.extendFlag ≠ extendCodePrefix) :
    (handleAll kb event.scancodes).extendFlag ≠ extendCodePrefix := by
  have extended : ∀ scancode,
      (handleAll kb [extendCodePrefix, scancode]).extendFlag ≠ extendCodePrefix := by
    intro scancode
    rw [handle_extended plain, (extended_input_same _ _).2]
    exact (by decide : extendCodeFlush ≠ extendCodePrefix)
  have single : ∀ scancode, scancode ≠ extendCodePrefix →
      (handleAll kb [scancode]).extendFlag ≠ extendCodePrefix := by
    intro scancode other
    rw [handle_plain plain]
    exact fun flag => other ((plain_input_flag plain).mp flag)
  cases event with
  | press key =>
      obtain ⟨isExtended, code⟩ := key
      cases isExtended with
      | true => exact extended code
      | false =>
          have small : code < 0x80 := physical.1
          exact single code (by rw [extendCodePrefix]; omega)
  | release key =>
      obtain ⟨isExtended, code⟩ := key
      cases isExtended with
      | true => exact extended (code + 0x80)
      | false => exact single (code + 0x80) (physical.2 rfl)

end Statuses

/-! ## Runs -/

theorem desk_step_cases {desk next : Desk} {event : Event} (step : deskStep desk event = some next) :
    event.key.Physical ∧ next.kb = handleAll desk.kb event.scancodes ∧
      next.held = Function.update desk.held event.key event.down := by
  cases event with
  | press key =>
      simp only [deskStep, Option.ite_none_right_eq_some, Option.some.injEq] at step
      obtain ⟨⟨physical, -⟩, rfl⟩ := step
      exact ⟨physical, rfl, rfl⟩
  | release key =>
      simp only [deskStep, Option.ite_none_right_eq_some, Option.some.injEq] at step
      obtain ⟨⟨physical, -⟩, rfl⟩ := step
      exact ⟨physical, rfl, rfl⟩

theorem left_ne_right (modifier : Modifier) : modifier.left ≠ modifier.right := by
  cases modifier <;> decide

theorem desk_step_tracks_iff {desk next : Desk} {event : Event}
    (plain : desk.kb.extendFlag ≠ extendCodePrefix) (tracks : Tracks desk)
    (step : deskStep desk event = some next) : Tracks next ↔ LastUp desk event := by
  obtain ⟨physical, kb, held⟩ := desk_step_cases step
  have status := event_status physical plain
  have set : ∀ modifier : Modifier, modifier.Owns event.key →
      modifier.status next.kb = event.value := by
    intro modifier owned
    rw [kb, status modifier, if_pos owned]
  have apart : ∀ modifier : Modifier, ¬modifier.Owns event.key →
      (modifier.status next.kb = keyPressed ↔
        next.held modifier.left = true ∨ next.held modifier.right = true) := by
    intro modifier other
    have notLeft : modifier.left ≠ event.key := fun same => other (Or.inl same.symm)
    have notRight : modifier.right ≠ event.key := fun same => other (Or.inr same.symm)
    rw [kb, status modifier, if_neg other, held, Function.update_of_ne notLeft,
      Function.update_of_ne notRight]
    exact tracks modifier
  cases event with
  | press key =>
      simp only [Event.key, Event.value, Event.down] at set held apart
      refine iff_of_true ?_ trivial
      intro modifier
      by_cases owned : modifier.Owns key
      · refine iff_of_true (set modifier owned) ?_
        rw [held]
        rcases owned with rfl | rfl
        · exact Or.inl (Function.update_self _ _ _)
        · exact Or.inr (Function.update_self _ _ _)
      · exact apart modifier owned
  | release key =>
      simp only [Event.key, Event.value, Event.down] at set held apart
      have own : ∀ modifier : Modifier, modifier.Owns key →
          ((modifier.status next.kb = keyPressed ↔
              next.held modifier.left = true ∨ next.held modifier.right = true) ↔
            next.held modifier.left = false ∧ next.held modifier.right = false) := by
        intro modifier owned
        have up : modifier.status next.kb ≠ keyPressed := by
          rw [set modifier owned]
          decide
        simp [up]
      constructor
      · intro after modifier
        refine ⟨?_, ?_⟩
        · rintro rfl
          have both := (own modifier (Or.inl rfl)).mp (after modifier)
          rw [held, Function.update_of_ne (left_ne_right modifier).symm] at both
          exact both.2
        · rintro rfl
          have both := (own modifier (Or.inr rfl)).mp (after modifier)
          rw [held, Function.update_of_ne (left_ne_right modifier)] at both
          exact both.1
      · intro last modifier
        by_cases owned : modifier.Owns key
        · apply (own modifier owned).mpr
          rw [held]
          rcases owned with rfl | rfl
          · exact ⟨Function.update_self _ _ _,
              (Function.update_of_ne (left_ne_right modifier).symm _ _).trans
                ((last modifier).1 rfl)⟩
          · exact ⟨(Function.update_of_ne (left_ne_right modifier) _ _).trans
                ((last modifier).2 rfl), Function.update_self _ _ _⟩
        · exact apart modifier owned

theorem desk_step_flag {desk next : Desk} {event : Event}
    (plain : desk.kb.extendFlag ≠ extendCodePrefix) (step : deskStep desk event = some next) :
    next.kb.extendFlag ≠ extendCodePrefix := by
  obtain ⟨physical, kb, -⟩ := desk_step_cases step
  rw [kb]
  exact event_flag physical plain

theorem fresh_desk_tracks : Tracks freshDesk := by
  intro modifier
  cases modifier <;> simp [freshDesk, Modifier.status, initKeyboard, keyPressed]

/-- Along a run of key events the statuses are right after every event if and
only if a modifier key never comes up while the other one is down. -/
theorem modifier_tracking_iff (events : List Event) (final : Desk)
    (run : runFrom deskStep freshDesk events = some final) :
    (∀ before after state, events = before ++ after →
        runFrom deskStep freshDesk before = some state → Tracks state) ↔
      Permitted deskStep LastUp freshDesk events :=
  always_iff_permitted (fun _ _ _ plain step => desk_step_flag plain step)
    (fun _ _ _ plain tracks step => desk_step_tracks_iff plain tracks step)
    (by decide : freshDesk.kb.extendFlag ≠ extendCodePrefix) fresh_desk_tracks run

/-! ### Two keys of one modifier -/

/-- Left shift is held while `a` is typed, and right alt is used in between. -/
def sampleEvents : List Event :=
  [.press Modifier.shift.left, .press ⟨false, 0x1E⟩, .press Modifier.alt.right,
    .release ⟨false, 0x1E⟩, .release Modifier.alt.right, .release Modifier.shift.left]

theorem modifier_tracking_sample : ∃ final, runFrom deskStep freshDesk sampleEvents = some final ∧
    ∀ before after state, sampleEvents = before ++ after →
      runFrom deskStep freshDesk before = some state → Tracks state := by
  have returns : (runFrom deskStep freshDesk sampleEvents).isSome = true := by decide +kernel
  obtain ⟨final, run⟩ := Option.isSome_iff_exists.mp returns
  exact ⟨final, run, (modifier_tracking_iff sampleEvents final run).mpr (by decide +kernel)⟩

/-- Both shift keys go down and the left one comes up. -/
def overlappingEvents : List Event :=
  [.press Modifier.shift.left, .press Modifier.shift.right, .release Modifier.shift.left]

theorem overlapping_shifts_lose_track :
    ∃ state, runFrom deskStep freshDesk overlappingEvents = some state ∧ ¬Tracks state := by
  have run : (runFrom deskStep freshDesk overlappingEvents).map
      (fun state => (state.held Modifier.shift.right, Modifier.shift.status state.kb)) =
      some (true, keyReleased) := by
    decide +kernel
  obtain ⟨state, reached, facts⟩ := Option.map_eq_some_iff.mp run
  obtain ⟨held, status⟩ := Prod.mk.inj facts
  refine ⟨state, reached, ?_⟩
  intro tracks
  have pressed := (tracks .shift).mpr (Or.inr held)
  rw [status] at pressed
  exact absurd pressed (by decide)

end ChaoOS.KeyboardModifiers
