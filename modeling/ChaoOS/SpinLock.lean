import Mathlib.Data.Fintype.Basic
import ChaoOS.GuardedRun
import ChaoOS.KernelMath
import ChaoOS.ThreadPhases

/-!
# Processors on one spin lock

`spin_lock_acquire` and `spin_lock_release` of `kernel/sync.h`. The header keeps
them for more than one processor, so every access to the lock is a step of its
own: the test-and-set of each round, the store of the holder after it, and the two
stores of `INIT_SPIN_LOCK` in the release, the value first and the holder after it.
-/

namespace ChaoOS.SpinLock

open ChaoOS.GuardedRun ChaoOS.KernelMath ChaoOS.ThreadPhases

set_option autoImplicit false

/-- Where a thread is with respect to the lock. -/
inductive SpinPhase where
  | outside
  /-- in the loop of `spin_lock_acquire` -/
  | spinning
  /-- past a successful test-and-set, the holder not yet stored -/
  | passed
  /-- between the return of `spin_lock_acquire` and `spin_lock_release` -/
  | critical
  /-- between the two stores of the release -/
  | opened
  deriving DecidableEq, Repr

/-- `value` is zero for `__ATOMIC_RELAXED`; `holder` is a word, all ones for `-1`. -/
structure SpinState (Thread : Type*) extends Phases Thread SpinPhase where
  value : Nat
  holder : Nat

inductive SpinOp (Thread : Type*) where
  | spinLockAcquire (thread : Thread)
  | testAndSet (thread : Thread)
  | setHolder (thread : Thread)
  | resetValue (thread : Thread)
  | resetHolder (thread : Thread)
  deriving DecidableEq, Repr

variable {Thread : Type*} [DecidableEq Thread]

abbrev SpinState.setPhase (state : SpinState Thread) (thread : Thread) (phase : SpinPhase) :
    SpinState Thread :=
  { state with toPhases := state.move thread phase }

/-- One round of the loop of `spin_lock_acquire`. -/
def testAndSet (state : SpinState Thread) (thread : Thread) : SpinState Thread :=
  { state with value := 1 }.setPhase thread (if state.value = 0 then .passed else .spinning)

/-- The thread and the phase it takes the step in. -/
def SpinOp.place : SpinOp Thread → Thread × SpinPhase
  | .spinLockAcquire thread => (thread, .outside)
  | .testAndSet thread => (thread, .spinning)
  | .setHolder thread => (thread, .passed)
  | .resetValue thread => (thread, .critical)
  | .resetHolder thread => (thread, .opened)

def spinEffect (pid : Thread → Nat) (state : SpinState Thread) : SpinOp Thread → SpinState Thread
  | .spinLockAcquire thread => state.setPhase thread .spinning
  | .testAndSet thread => testAndSet state thread
  | .setHolder thread => { state with holder := pid thread }.setPhase thread .critical
  | .resetValue thread => { state with value := 0 }.setPhase thread .opened
  | .resetHolder thread => { state with holder := noHolder }.setPhase thread .outside

/-- `none` for a step the thread is not at. -/
def spinStep (pid : Thread → Nat) (state : SpinState Thread) (op : SpinOp Thread) :
    Option (SpinState Thread) :=
  if state.phase op.place.1 = op.place.2 then some (spinEffect pid state op) else none

/-- `SPIN_LOCK_INIT`. -/
def freeSpinLock : SpinState Thread where
  value := 0
  holder := noHolder
  phase := fun _ => .outside

/-! ## Owners -/

/-- Past a successful test-and-set and before the value is reset. -/
def Owns (state : SpinState Thread) (thread : Thread) : Prop :=
  state.phase thread = .passed ∨ state.phase thread = .critical

/-- The thread has stored its `pid` in `holder` and has not reset it. -/
def Signed (state : SpinState Thread) (thread : Thread) : Prop :=
  state.phase thread = .critical ∨ state.phase thread = .opened

structure SpinSound (pid : Thread → Nat) (state : SpinState Thread) : Prop where
  unique : ∀ one two, Owns state one → Owns state two → one = two
  taken : state.value ≠ 0 ↔ ∃ thread, Owns state thread
  named : state.holder = noHolder ∨ ∃ thread, Signed state thread ∧ state.holder = pid thread

/-- Every thread between the return of `spin_lock_acquire` and the release finds its
`pid` in `holder`. -/
def Identified (pid : Thread → Nat) (state : SpinState Thread) : Prop :=
  ∀ thread, state.phase thread = .critical → state.holder = pid thread

variable {pid : Thread → Nat} {state next : SpinState Thread} {thread other : Thread}
  {phase : SpinPhase}

theorem owns_set_phase : Owns (state.setPhase thread phase) other ↔
    if other = thread then phase = .passed ∨ phase = .critical else Owns state other :=
  holds_move fun phase : SpinPhase => phase = .passed ∨ phase = .critical

/-- The owners stay when both phases of the moved thread own the lock, or neither does. -/
theorem owns_set_alike (alike : phase = .passed ∨ phase = .critical ↔ Owns state thread) :
    Owns (state.setPhase thread phase) other ↔ Owns state other :=
  holds_move_alike (fun phase : SpinPhase => phase = .passed ∨ phase = .critical) alike

theorem signed_set_phase : Signed (state.setPhase thread phase) other ↔
    if other = thread then phase = .critical ∨ phase = .opened else Signed state other :=
  holds_move fun phase : SpinPhase => phase = .critical ∨ phase = .opened

omit [DecidableEq Thread] in
theorem free_spin_lock_sound : SpinSound pid (freeSpinLock : SpinState Thread) := by
  have nobody : ∀ thread, ¬Owns (freeSpinLock : SpinState Thread) thread := by
    simp [Owns, freeSpinLock]
  constructor
  case unique => exact fun one _ owns _ => absurd owns (nobody one)
  case taken => exact iff_of_false (fun value => value rfl) fun ⟨thread, owns⟩ => nobody thread owns
  case named => exact Or.inl rfl

omit [DecidableEq Thread] in
/-- A step that leaves the value alone and moves its thread between two phases that
both own the lock, or both do not. -/
theorem SpinSound.same_owners (sound : SpinSound pid state)
    (owners : ∀ other, Owns next other ↔ Owns state other) (value : next.value = state.value)
    (named : next.holder = noHolder ∨ ∃ thread, Signed next thread ∧ next.holder = pid thread) :
    SpinSound pid next := by
  constructor
  case unique =>
      intro one two ownsOne ownsTwo
      exact sound.unique one two ((owners one).mp ownsOne) ((owners two).mp ownsTwo)
  case taken =>
      rw [value, sound.taken]
      exact exists_congr fun thread => (owners thread).symm
  case named => exact named

omit [DecidableEq Thread] in
/-- The holder stays named when nobody's signature goes. -/
theorem SpinSound.still_named (sound : SpinSound pid state)
    (signed : ∀ other, Signed state other → Signed next other) (holder : next.holder = state.holder) :
    next.holder = noHolder ∨ ∃ thread, Signed next thread ∧ next.holder = pid thread := by
  rw [holder]
  rcases sound.named with reset | ⟨thread, signature, same⟩
  · exact Or.inl reset
  · exact Or.inr ⟨thread, signed thread signature, same⟩

theorem signed_elsewhere (unsigned : ¬Signed state thread) (signature : Signed state other) :
    Signed (state.setPhase thread phase) other := by
  have different : other ≠ thread := fun same => unsigned (same ▸ signature)
  rw [signed_set_phase, if_neg different]
  exact signature

theorem acquire_sound (sound : SpinSound pid state) (outside : state.phase thread = .outside) :
    SpinSound pid (state.setPhase thread .spinning) := by
  have unsigned : ¬Signed state thread := by simp [Signed, outside]
  apply sound.same_owners
  · exact fun other => owns_set_alike (by simp [Owns, outside])
  · rfl
  · exact sound.still_named (fun _ => signed_elsewhere unsigned) rfl

/-- The round that finds the lock free makes its thread the only owner; any other
leaves things as they were. -/
theorem test_and_set_sound (sound : SpinSound pid state)
    (spinning : state.phase thread = .spinning) : SpinSound pid (testAndSet state thread) := by
  have unsigned : ¬Signed state thread := by simp [Signed, spinning]
  have named : (testAndSet state thread).holder = noHolder ∨ ∃ other,
      Signed (testAndSet state thread) other ∧ (testAndSet state thread).holder = pid other :=
    sound.still_named (fun _ => signed_elsewhere unsigned) rfl
  by_cases free : state.value = 0
  · have nobody : ∀ other, ¬Owns state other := by
      intro other owns
      exact sound.taken.mpr ⟨other, owns⟩ free
    have only : ∀ other, Owns (testAndSet state thread) other ↔ other = thread := by
      intro other
      rw [testAndSet, if_pos free, owns_set_phase]
      split_ifs with own
      · simp [own]
      · exact iff_of_false (nobody other) own
    constructor
    case unique =>
        intro one two ownsOne ownsTwo
        rw [(only one).mp ownsOne, (only two).mp ownsTwo]
    case taken => exact iff_of_true (by simp [testAndSet]) ⟨thread, (only thread).mpr rfl⟩
    case named => exact named
  · have owners : ∀ other, Owns (testAndSet state thread) other ↔ Owns state other := by
      intro other
      rw [testAndSet, if_neg free]
      exact owns_set_alike (by simp [Owns, spinning])
    constructor
    case unique =>
        intro one two ownsOne ownsTwo
        exact sound.unique one two ((owners one).mp ownsOne) ((owners two).mp ownsTwo)
    case taken =>
        have owned := sound.taken.mp free
        exact iff_of_true (by simp [testAndSet]) (by simpa only [owners] using owned)
    case named => exact named

theorem set_holder_sound (sound : SpinSound pid state) (passed : state.phase thread = .passed) :
    SpinSound pid ({ state with holder := pid thread }.setPhase thread .critical) := by
  apply sound.same_owners
  · exact fun other => owns_set_alike (by simp [Owns, passed])
  · rfl
  · exact Or.inr ⟨thread, Or.inl (phase_set_self ..), rfl⟩

theorem reset_value_sound (sound : SpinSound pid state)
    (critical : state.phase thread = .critical) :
    SpinSound pid ({ state with value := 0 }.setPhase thread .opened) := by
  have nobody : ∀ other, ¬Owns ({ state with value := 0 }.setPhase thread .opened) other := by
    intro other owns
    rw [owns_set_phase] at owns
    split_ifs at owns with own
    · simp at owns
    · exact own (sound.unique other thread owns (Or.inr critical))
  constructor
  case unique => exact fun one _ owns _ => absurd owns (nobody one)
  case taken => exact iff_of_false (fun value => value rfl) fun ⟨other, owns⟩ => nobody other owns
  case named =>
      apply sound.still_named
      · intro other signature
        rw [signed_set_phase]
        split_ifs
        · exact Or.inr rfl
        · exact signature
      · rfl

theorem reset_holder_sound (sound : SpinSound pid state) (opened : state.phase thread = .opened) :
    SpinSound pid ({ state with holder := noHolder }.setPhase thread .outside) := by
  apply sound.same_owners
  · exact fun other => owns_set_alike (by simp [Owns, opened])
  · rfl
  · exact Or.inl rfl

theorem spin_step_sound {op : SpinOp Thread} (sound : SpinSound pid state)
    (stepped : spinStep pid state op = some next) : SpinSound pid next := by
  rw [spinStep, Option.ite_none_right_eq_some] at stepped
  obtain ⟨place, effect⟩ := stepped
  rw [← Option.some.inj effect]
  cases op with
  | spinLockAcquire thread => exact acquire_sound sound place
  | testAndSet thread => exact test_and_set_sound sound place
  | setHolder thread => exact set_holder_sound sound place
  | resetValue thread => exact reset_value_sound sound place
  | resetHolder thread => exact reset_holder_sound sound place

theorem spin_run_sound {ops : List (SpinOp Thread)} {final : SpinState Thread}
    (run : runFrom (spinStep pid) freeSpinLock ops = some final) : SpinSound pid final := by
  apply run_preserves _ free_spin_lock_sound run
  intro state op next sound stepped
  exact spin_step_sound sound stepped

/-- However the processors interleave, at most one thread is past the lock, the value
is set exactly while there is one, the holder field names nobody but a thread that has
the lock or is about to finish its release, and a round of a waiting thread succeeds
whenever nobody has the lock. -/
theorem spin_lock_excludes (pid : Thread → Nat) {ops : List (SpinOp Thread)}
    {final : SpinState Thread} (run : runFrom (spinStep pid) freeSpinLock ops = some final) :
    (∀ one two, Owns final one → Owns final two → one = two) ∧
      (final.value ≠ 0 ↔ ∃ thread, Owns final thread) ∧
      (final.holder = noHolder ∨ ∃ thread, Signed final thread ∧ final.holder = pid thread) ∧
      ∀ thread, final.phase thread = .spinning → (∀ other, ¬Owns final other) →
        ∃ next, spinStep pid final (.testAndSet thread) = some next ∧
          next.phase thread = .passed := by
  have sound := spin_run_sound run
  refine ⟨sound.unique, sound.taken, sound.named, fun thread spinning nobody => ?_⟩
  have free : final.value = 0 := by
    by_contra value
    obtain ⟨owner, owns⟩ := sound.taken.mp value
    exact nobody owner owns
  refine ⟨testAndSet final thread, if_pos spinning, ?_⟩
  rw [testAndSet, if_pos free, phase_set_self]

/-- Thread 1 gets the lock between the two stores of thread 0's release. -/
def overlappedRelease : List (SpinOp (Fin 2)) :=
  [.spinLockAcquire 0, .testAndSet 0, .setHolder 0, .spinLockAcquire 1, .testAndSet 1,
    .resetValue 0, .testAndSet 1]

theorem spin_lock_excludes_sample : ∃ final : SpinState (Fin 2),
    runFrom (spinStep fun thread => thread.val + 1) freeSpinLock overlappedRelease = some final ∧
      final.holder = 1 ∧ ∀ thread, Owns final thread → thread = 1 := by
  have facts : ((runFrom (spinStep fun thread : Fin 2 => thread.val + 1) freeSpinLock
      overlappedRelease).map fun final => (final.holder, final.phase 1)) = some (1, .passed) := by
    decide +kernel
  obtain ⟨final, run, inside⟩ := Option.map_eq_some_iff.mp facts
  obtain ⟨holder, passed⟩ := Prod.mk.inj inside
  refine ⟨final, run, holder, fun thread owns => ?_⟩
  exact (spin_lock_excludes (fun thread : Fin 2 => thread.val + 1) run).1 thread 1 owns
    (Or.inl passed)

/-! ## The holder -/

/-- No release resets the holder while another thread is inside. -/
def ReleasesAlone (state : SpinState Thread) : SpinOp Thread → Prop
  | .resetHolder _ => ∀ other, state.phase other ≠ .critical
  | _ => True

omit [DecidableEq Thread] in
theorem Identified.unchanged (identified : Identified pid state)
    (critical : ∀ other, next.phase other = .critical → state.phase other = .critical)
    (holder : next.holder = state.holder) : Identified pid next := by
  intro other inside
  rw [holder]
  exact identified other (critical other inside)

/-- The store of the holder is the only step that puts a name in, and the reset the
only one that takes one out. -/
theorem step_identified (named : ∀ thread, pid thread ≠ noHolder) {op : SpinOp Thread}
    (sound : SpinSound pid state) (identified : Identified pid state)
    (stepped : spinStep pid state op = some next) :
    Identified pid next ↔ ReleasesAlone state op := by
  have after := spin_step_sound sound stepped
  rw [spinStep, Option.ite_none_right_eq_some] at stepped
  obtain ⟨place, effect⟩ := stepped
  rw [← Option.some.inj effect] at after ⊢
  cases op with
  | spinLockAcquire thread =>
      refine iff_of_true (identified.unchanged (fun other inside => ?_) rfl) trivial
      exact phase_before (by decide) inside
  | testAndSet thread =>
      refine iff_of_true (identified.unchanged (fun other inside => ?_) rfl) trivial
      refine phase_before ?_ inside
      split_ifs <;> decide
  | setHolder thread =>
      refine iff_of_true (fun other inside => ?_) trivial
      rw [after.unique other thread (Or.inr inside) (Or.inr (phase_set_self ..))]
      rfl
  | resetValue thread =>
      refine iff_of_true (identified.unchanged (fun other inside => ?_) rfl) trivial
      exact phase_before (by decide) inside
  | resetHolder thread =>
      have same : ∀ other, (spinEffect pid state (.resetHolder thread)).phase other = .critical ↔
          state.phase other = .critical := by
        intro other
        refine ⟨phase_before (by decide), fun inside => ?_⟩
        have different : other ≠ thread := by
          intro own
          have both : SpinPhase.opened = SpinPhase.critical := place.symm.trans (own ▸ inside)
          exact absurd both (by decide)
        exact (phase_set_other _ _ different).trans inside
      constructor
      · intro identified other inside
        exact named other (identified other ((same other).mpr inside)).symm
      · intro alone other inside
        exact absurd ((same other).mp inside) (alone other)

/-- A run keeps the holder field right, at every moment, if and only if none of its
releases resets the holder while the next owner is already inside. -/
theorem holder_names_owner (named : ∀ thread, pid thread ≠ noHolder)
    {ops : List (SpinOp Thread)} {final : SpinState Thread}
    (run : runFrom (spinStep pid) freeSpinLock ops = some final) :
    (∀ before after reached, ops = before ++ after →
        runFrom (spinStep pid) freeSpinLock before = some reached → Identified pid reached) ↔
      Permitted (spinStep pid) ReleasesAlone freeSpinLock ops := by
  apply always_iff_permitted (fun _ _ _ sound stepped => spin_step_sound sound stepped) _
    free_spin_lock_sound _ run
  · intro state op next sound identified stepped
    exact step_identified named sound identified stepped
  · intro thread inside
    have outside : SpinPhase.outside = SpinPhase.critical := inside
    exact absurd outside (by decide)

instance decidableReleasesAlone [Fintype Thread] (state : SpinState Thread) :
    (op : SpinOp Thread) → Decidable (ReleasesAlone state op)
  | .resetHolder _ => inferInstanceAs (Decidable (∀ other, state.phase other ≠ .critical))
  | .spinLockAcquire _ | .testAndSet _ | .setHolder _ | .resetValue _ =>
      inferInstanceAs (Decidable True)

/-- A name that the release of thread 0 takes out of the lock of thread 1. -/
theorem holder_names_owner_sample :
    ¬∀ before after reached,
        overlappedRelease ++ [.setHolder 1, .resetHolder 0] = before ++ after →
      runFrom (spinStep fun thread : Fin 2 => thread.val + 1) freeSpinLock before = some reached →
        Identified (fun thread => thread.val + 1) reached := by
  have returns : (runFrom (spinStep fun thread : Fin 2 => thread.val + 1) freeSpinLock
      (overlappedRelease ++ [.setHolder 1, .resetHolder 0])).isSome = true := by
    decide +kernel
  obtain ⟨final, run⟩ := Option.isSome_iff_exists.mp returns
  rw [holder_names_owner (by decide) run]
  decide +kernel

end ChaoOS.SpinLock
