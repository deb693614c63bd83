import Mathlib.Data.Fintype.Basic
import Mathlib.Data.List.Nodup
import Mathlib.Logic.Function.Basic
import ChaoOS.GuardedRun
import ChaoOS.KernelMath
import ChaoOS.ThreadPhases

/-!
# Any number of threads on one mutex

`mutex_acquire` and `mutex_release` of `kernel/sync.h` at the steps between which
the timer can switch threads. `cli` makes the first test-and-set of an
acquisition one step with what follows it, up to the return or up to the switch
inside `task_schedule`, and makes the whole of `mutex_release` one step. The
`sti` that ends `task_schedule` leaves interrupts enabled for the rounds of the
loop after a wake-up: there the test-and-set, the store of the holder and the
move to the waiting list are steps of their own.

A thread is switched in only when it is off the waiting list, except by
`switchIn`, which runs a listed thread all the same.
-/

namespace ChaoOS.MutexMachine

open ChaoOS.GuardedRun ChaoOS.KernelMath ChaoOS.ThreadPhases

set_option autoImplicit false

/-- Where a thread is with respect to the mutex. -/
inductive Phase where
  /-- outside `mutex_acquire` and not between an acquisition and its release -/
  | outside
  /-- switched out in the loop of `mutex_acquire`, on the waiting list -/
  | asleep
  /-- taken off the waiting list, its next test-and-set still to come -/
  | woken
  /-- past a failed test-and-set with interrupts enabled, not yet listed -/
  | failed
  /-- past a successful one with interrupts enabled, the holder not yet stored -/
  | passed
  /-- between the return of `mutex_acquire` and `mutex_release` -/
  | critical
  deriving DecidableEq, Repr

/-- `value` is zero for `__ATOMIC_RELAXED`; `holder` is a word, all ones for `-1`. -/
structure MutexState (Thread : Type*) extends Phases Thread Phase where
  value : Nat
  holder : Nat
  waitingList : List Thread

inductive MutexOp (Thread : Type*) where
  | mutexAcquire (thread : Thread)
  | testAndSet (thread : Thread)
  | switchIn (thread : Thread)
  | listMoveToTail (thread : Thread)
  | setHolder (thread : Thread)
  | mutexRelease (thread : Thread)
  deriving DecidableEq, Repr

variable {Thread : Type*} [DecidableEq Thread]

abbrev MutexState.setPhase (state : MutexState Thread) (thread : Thread) (phase : Phase) :
    MutexState Thread :=
  { state with toPhases := state.move thread phase }

/-- `list_move_to_tail(&current_task->list_head, &lock->waiting_list)`. -/
def MutexState.sleepListed (state : MutexState Thread) (thread : Thread) : MutexState Thread :=
  { state with waitingList := state.waitingList.erase thread ++ [thread] }.setPhase thread .asleep

/-- A test-and-set with interrupts enabled. -/
def retry (state : MutexState Thread) (thread : Thread) : MutexState Thread :=
  if state.value = 0 then { state with value := 1 }.setPhase thread .passed
  else { state with value := 1 }.setPhase thread .failed

def mutexAcquire (pid : Thread → Nat) (state : MutexState Thread) (thread : Thread) :
    MutexState Thread :=
  if state.value = 0 then
    { state with value := 1, holder := pid thread }.setPhase thread .critical
  else { state with value := 1 }.sleepListed thread

/-- The first thread off the list, which only matters to it if it sleeps. -/
def wakeFirst (state : MutexState Thread) : MutexState Thread :=
  match state.waitingList with
  | [] => state
  | first :: rest =>
      { state with waitingList := rest }.setPhase first
        (if state.phase first = Phase.asleep then .woken else state.phase first)

def mutexRelease (state : MutexState Thread) (thread : Thread) : MutexState Thread :=
  { wakeFirst state with holder := noHolder, value := 0 }.setPhase thread .outside

/-- `none` for a step the thread is not at. -/
def step (pid : Thread → Nat) (state : MutexState Thread) :
    MutexOp Thread → Option (MutexState Thread)
  | .mutexAcquire thread =>
      if state.phase thread = .outside then some (mutexAcquire pid state thread) else none
  | .testAndSet thread =>
      if state.phase thread = .woken then some (retry state thread) else none
  | .switchIn thread =>
      if state.phase thread = .asleep then some (retry state thread) else none
  | .listMoveToTail thread =>
      if state.phase thread = .failed then some (state.sleepListed thread) else none
  | .setHolder thread =>
      if state.phase thread = .passed then
        some ({ state with holder := pid thread }.setPhase thread .critical)
      else none
  | .mutexRelease thread =>
      if state.phase thread = .critical then some (mutexRelease state thread) else none

/-- `MUTEX_INIT`. -/
def freeMutex : MutexState Thread where
  value := 0
  holder := noHolder
  waitingList := []
  phase := fun _ => .outside

/-- What a step can do. -/
theorem step_cases {pid : Thread → Nat} {state next : MutexState Thread} {op : MutexOp Thread}
    (stepped : step pid state op = some next) : ∃ thread,
    (state.phase thread = .outside ∧ op = .mutexAcquire thread ∧
      next = mutexAcquire pid state thread) ∨
    (state.phase thread = .woken ∧ op = .testAndSet thread ∧ next = retry state thread) ∨
    (state.phase thread = .asleep ∧ op = .switchIn thread ∧ next = retry state thread) ∨
    (state.phase thread = .failed ∧ op = .listMoveToTail thread ∧
      next = state.sleepListed thread) ∨
    (state.phase thread = .passed ∧ op = .setHolder thread ∧
      next = { state with holder := pid thread }.setPhase thread .critical) ∨
    (state.phase thread = .critical ∧ op = .mutexRelease thread ∧
      next = mutexRelease state thread) := by
  cases op with
  | mutexAcquire thread =>
      rw [step, Option.ite_none_right_eq_some] at stepped
      exact ⟨thread, Or.inl ⟨stepped.1, rfl, (Option.some.inj stepped.2).symm⟩⟩
  | testAndSet thread =>
      rw [step, Option.ite_none_right_eq_some] at stepped
      exact ⟨thread, Or.inr (Or.inl ⟨stepped.1, rfl, (Option.some.inj stepped.2).symm⟩)⟩
  | switchIn thread =>
      rw [step, Option.ite_none_right_eq_some] at stepped
      exact ⟨thread, Or.inr (Or.inr (Or.inl ⟨stepped.1, rfl, (Option.some.inj stepped.2).symm⟩))⟩
  | listMoveToTail thread =>
      rw [step, Option.ite_none_right_eq_some] at stepped
      exact ⟨thread, Or.inr (Or.inr (Or.inr (Or.inl
        ⟨stepped.1, rfl, (Option.some.inj stepped.2).symm⟩)))⟩
  | setHolder thread =>
      rw [step, Option.ite_none_right_eq_some] at stepped
      exact ⟨thread, Or.inr (Or.inr (Or.inr (Or.inr (Or.inl
        ⟨stepped.1, rfl, (Option.some.inj stepped.2).symm⟩))))⟩
  | mutexRelease thread =>
      rw [step, Option.ite_none_right_eq_some] at stepped
      exact ⟨thread, Or.inr (Or.inr (Or.inr (Or.inr (Or.inr
        ⟨stepped.1, rfl, (Option.some.inj stepped.2).symm⟩))))⟩

/-! ## Mutual exclusion -/

/-- Past a successful test-and-set and before the release. -/
def Owns (state : MutexState Thread) (thread : Thread) : Prop :=
  state.phase thread = .passed ∨ state.phase thread = .critical

structure Exclusive (pid : Thread → Nat) (state : MutexState Thread) : Prop where
  unique : ∀ thread other, Owns state thread → Owns state other → thread = other
  taken : ∀ thread, Owns state thread → state.value ≠ 0
  held : ∀ thread, state.phase thread = .critical → state.holder = pid thread

variable {pid : Thread → Nat} {state next : MutexState Thread}

omit [DecidableEq Thread] in
/-- Nobody owns a free mutex. -/
theorem Exclusive.free (exclusive : Exclusive pid state) (free : state.value = 0)
    (thread : Thread) : ¬Owns state thread := fun owns => exclusive.taken thread owns free

/-- A thread that does not own the mutex after its step leaves the others'
claims as they are. -/
theorem Exclusive.stays_out (exclusive : Exclusive pid state) (thread : Thread)
    (others : ∀ other, other ≠ thread → next.phase other = state.phase other)
    (gone : ¬Owns next thread) (value : state.value ≠ 0 → next.value ≠ 0)
    (holder : next.holder = state.holder) : Exclusive pid next := by
  have same : ∀ other, Owns next other → next.phase other = state.phase other := by
    intro other owns
    by_cases own : other = thread
    · exact absurd (own ▸ owns) gone
    · exact others other own
  have before : ∀ other, Owns next other → Owns state other := by
    intro other owns
    rw [Owns, ← same other owns]
    exact owns
  constructor
  case unique =>
      intro one two ownsOne ownsTwo
      exact exclusive.unique one two (before one ownsOne) (before two ownsTwo)
  case taken => exact fun other owns => value (exclusive.taken other (before other owns))
  case held =>
      intro other inside
      rw [holder]
      exact exclusive.held other ((same other (Or.inr inside)).symm.trans inside)

/-- A thread that takes the free mutex is its only owner. -/
theorem Exclusive.takes (exclusive : Exclusive pid state) (thread : Thread)
    (free : state.value = 0)
    (others : ∀ other, other ≠ thread → next.phase other = state.phase other)
    (value : next.value ≠ 0)
    (held : next.phase thread = .critical → next.holder = pid thread) : Exclusive pid next := by
  have only : ∀ other, Owns next other → other = thread := by
    intro other owns
    by_contra different
    rw [Owns, others other different] at owns
    exact exclusive.free free other owns
  constructor
  case unique =>
      intro one two ownsOne ownsTwo
      rw [only one ownsOne, only two ownsTwo]
  case taken => exact fun _ _ => value
  case held =>
      intro other inside
      have same := only other (Or.inr inside)
      subst same
      exact held inside

theorem retry_exclusive (exclusive : Exclusive pid state) (thread : Thread) :
    Exclusive pid (retry state thread) := by
  rw [retry]
  split_ifs with free
  · apply exclusive.takes thread free
    · exact fun other different => phase_set_other _ _ different
    · simp
    · simp
  · apply exclusive.stays_out thread
    · exact fun other different => phase_set_other _ _ different
    · simp [Owns]
    · simp
    · rfl

theorem sleep_listed_exclusive (exclusive : Exclusive pid state) (thread : Thread) :
    Exclusive pid (state.sleepListed thread) := by
  apply exclusive.stays_out thread
  · exact fun other different => phase_set_other _ _ different
  · simp [MutexState.sleepListed, Owns]
  · exact id
  · rfl

theorem mutex_acquire_exclusive (exclusive : Exclusive pid state) (thread : Thread) :
    Exclusive pid (mutexAcquire pid state thread) := by
  rw [mutexAcquire]
  split_ifs with free
  · apply exclusive.takes thread free
    · exact fun other different => phase_set_other _ _ different
    · simp
    · simp
  · apply sleep_listed_exclusive
    exact ⟨exclusive.unique, fun _ _ => by simp, exclusive.held⟩

theorem set_holder_exclusive (exclusive : Exclusive pid state) {thread : Thread}
    (passed : state.phase thread = .passed) :
    Exclusive pid ({ state with holder := pid thread }.setPhase thread .critical) := by
  have before : ∀ other,
      Owns ({ state with holder := pid thread }.setPhase thread .critical) other →
        Owns state other := by
    intro other owns
    by_cases own : other = thread
    · exact own ▸ Or.inl passed
    · rwa [Owns, phase_set_other _ _ own] at owns
  constructor
  case unique =>
      intro one two ownsOne ownsTwo
      exact exclusive.unique one two (before one ownsOne) (before two ownsTwo)
  case taken => exact fun other owns => exclusive.taken other (before other owns)
  case held =>
      intro other inside
      rw [exclusive.unique other thread (before other (Or.inr inside)) (Or.inl passed)]

/-- Waking a thread makes nobody an owner. -/
theorem wake_first_owns {thread : Thread} (owns : Owns (wakeFirst state) thread) :
    Owns state thread := by
  rw [wakeFirst] at owns
  cases list : state.waitingList with
  | nil => simpa [list] using owns
  | cons first rest =>
      simp only [list] at owns
      by_cases own : thread = first
      · subst own
        rw [Owns, phase_set_self] at owns
        split_ifs at owns with sleeping
        · exact absurd owns (by decide)
        · exact owns
      · rwa [Owns, phase_set_other _ _ own] at owns

theorem mutex_release_exclusive (exclusive : Exclusive pid state) {thread : Thread}
    (critical : state.phase thread = .critical) :
    Exclusive pid (mutexRelease state thread) := by
  have nobody : ∀ other, ¬Owns (mutexRelease state thread) other := by
    intro other owns
    by_cases own : other = thread
    · subst own
      rw [mutexRelease, Owns, phase_set_self] at owns
      exact absurd owns (by decide)
    · rw [mutexRelease, Owns, phase_set_other _ _ own] at owns
      exact own (exclusive.unique other thread (wake_first_owns owns) (Or.inr critical))
  constructor
  case unique => exact fun one _ owns _ => absurd owns (nobody one)
  case taken => exact fun other owns => absurd owns (nobody other)
  case held => exact fun other inside => absurd (Or.inr inside) (nobody other)

theorem step_exclusive {op : MutexOp Thread} (exclusive : Exclusive pid state)
    (stepped : step pid state op = some next) : Exclusive pid next := by
  obtain ⟨thread, cases⟩ := step_cases stepped
  rcases cases with ⟨-, -, rfl⟩ | ⟨-, -, rfl⟩ | ⟨-, -, rfl⟩ | ⟨-, -, rfl⟩ | ⟨passed, -, rfl⟩ |
    ⟨critical, -, rfl⟩
  · exact mutex_acquire_exclusive exclusive thread
  · exact retry_exclusive exclusive thread
  · exact retry_exclusive exclusive thread
  · exact sleep_listed_exclusive exclusive thread
  · exact set_holder_exclusive exclusive passed
  · exact mutex_release_exclusive exclusive critical

omit [DecidableEq Thread] in
theorem free_mutex_exclusive : Exclusive pid (freeMutex : MutexState Thread) := by
  have nobody : ∀ thread, ¬Owns (freeMutex : MutexState Thread) thread := by
    simp [Owns, freeMutex]
  exact ⟨fun one _ owns _ => absurd owns (nobody one), fun one owns => absurd owns (nobody one),
    fun one inside => absurd (Or.inr inside) (nobody one)⟩

/-- In every state any interleaving reaches, at most one thread is inside, and
then the mutex is taken and names it. -/
theorem mutual_exclusion (pid : Thread → Nat) {ops : List (MutexOp Thread)}
    {final : MutexState Thread} (run : runFrom (step pid) freeMutex ops = some final) :
    (∀ thread other, final.phase thread = .critical → final.phase other = .critical →
        thread = other) ∧
      ∀ thread, final.phase thread = .critical → final.value ≠ 0 ∧ final.holder = pid thread := by
  have exclusive : Exclusive pid final := by
    apply run_preserves _ free_mutex_exclusive run
    intro state op next exclusive stepped
    exact step_exclusive exclusive stepped
  refine ⟨fun thread other inside twin => ?_, fun thread inside => ?_⟩
  · exact exclusive.unique thread other (Or.inr inside) (Or.inr twin)
  · exact ⟨exclusive.taken thread (Or.inr inside), exclusive.held thread inside⟩

theorem mutual_exclusion_sample : ∃ final : MutexState (Fin 2),
    runFrom (step fun thread => thread.val + 1) freeMutex
      [.mutexAcquire 0, .mutexAcquire 1, .mutexRelease 0, .testAndSet 1, .setHolder 1] =
        some final ∧
      final.phase 1 = .critical ∧ final.value ≠ 0 ∧ final.holder = 2 := by
  have facts : ((runFrom (step fun thread : Fin 2 => thread.val + 1) freeMutex
      [.mutexAcquire 0, .mutexAcquire 1, .mutexRelease 0, .testAndSet 1, .setHolder 1]).map
        fun final => final.phase 1) = some .critical := by
    decide +kernel
  obtain ⟨final, run, inside⟩ := Option.map_eq_some_iff.mp facts
  exact ⟨final, run, inside, (mutual_exclusion _ run).2 1 inside⟩

/-! ## Wake-ups -/

/-- Whoever sleeps on the list will be looked after: the mutex is taken, or a
thread taken off the list has its test-and-set still to come. -/
def NoLostWakeUp (state : MutexState Thread) : Prop :=
  state.waitingList ≠ [] → state.value ≠ 0 ∨ ∃ thread, state.phase thread = .woken

/-- No listed thread is switched in, and no release finds the list empty while a
thread is on its way there, unless another thread is already woken. -/
def ReleasesInTime (state : MutexState Thread) : MutexOp Thread → Prop
  | .switchIn _ => False
  | .mutexRelease _ => state.waitingList = [] → (∃ thread, state.phase thread = .failed) →
      ∃ thread, state.phase thread = .woken
  | _ => True

structure Attended (state : MutexState Thread) : Prop where
  distinct : state.waitingList.Nodup
  listed : ∀ thread ∈ state.waitingList, state.phase thread = .asleep
  served : (state.waitingList ≠ [] ∨ ∃ thread, state.phase thread = .failed) →
    state.value ≠ 0 ∨ ∃ thread, state.phase thread = .woken

omit [DecidableEq Thread] in
/-- A step that leaves the mutex taken only has to keep the list in order. -/
theorem Attended.taken (distinct : next.waitingList.Nodup)
    (listed : ∀ thread ∈ next.waitingList, next.phase thread = .asleep) (value : next.value ≠ 0) :
    Attended next :=
  ⟨distinct, listed, fun _ => Or.inl value⟩

omit [DecidableEq Thread] in
theorem Attended.not_listed (attended : Attended state) {thread : Thread}
    (awake : state.phase thread ≠ .asleep) : thread ∉ state.waitingList :=
  fun member => awake (attended.listed thread member)

theorem Attended.listed_set_phase (attended : Attended state) {thread : Thread}
    (awake : state.phase thread ≠ .asleep) (phase : Phase) :
    ∀ other ∈ state.waitingList, (state.setPhase thread phase).phase other = .asleep := by
  intro other member
  have different : other ≠ thread := fun same => attended.not_listed awake (same ▸ member)
  rw [phase_set_other _ _ different]
  exact attended.listed other member

theorem sleep_listed_order (attended : Attended state) {thread : Thread}
    (awake : state.phase thread ≠ .asleep) :
    (state.sleepListed thread).waitingList.Nodup ∧
      ∀ other ∈ (state.sleepListed thread).waitingList,
        (state.sleepListed thread).phase other = .asleep := by
  have outside := attended.not_listed awake
  have list : (state.sleepListed thread).waitingList = state.waitingList ++ [thread] :=
    congrArg (· ++ [thread]) (List.erase_of_not_mem outside)
  rw [list]
  constructor
  · exact List.nodup_append_comm.mp (List.nodup_cons.mpr ⟨outside, attended.distinct⟩)
  · intro other member
    rcases List.mem_append.mp member with old | new
    · exact attended.listed_set_phase awake .asleep other old
    · rw [List.mem_singleton.mp new]
      exact phase_set_self _ _ _

theorem mutex_acquire_attended (attended : Attended state) {thread : Thread}
    (outside : state.phase thread = .outside) : Attended (mutexAcquire pid state thread) := by
  have awake : state.phase thread ≠ .asleep := by
    rw [outside]
    decide
  rw [mutexAcquire]
  split_ifs with free
  · exact Attended.taken attended.distinct (attended.listed_set_phase awake .critical)
      Nat.one_ne_zero
  · obtain ⟨distinct, listed⟩ := sleep_listed_order attended awake
    exact Attended.taken distinct listed Nat.one_ne_zero

theorem retry_attended (attended : Attended state) {thread : Thread}
    (woken : state.phase thread = .woken) : Attended (retry state thread) := by
  have awake : state.phase thread ≠ .asleep := by
    rw [woken]
    decide
  rw [retry]
  split_ifs
  · exact Attended.taken attended.distinct (attended.listed_set_phase awake .passed)
      Nat.one_ne_zero
  · exact Attended.taken attended.distinct (attended.listed_set_phase awake .failed)
      Nat.one_ne_zero

/-- A thread that reaches the list late has been looked after all along. -/
theorem sleep_listed_attended (attended : Attended state) {thread : Thread}
    (failed : state.phase thread = .failed) : Attended (state.sleepListed thread) := by
  have awake : state.phase thread ≠ .asleep := by
    rw [failed]
    decide
  obtain ⟨distinct, listed⟩ := sleep_listed_order attended awake
  refine ⟨distinct, listed, fun _ => ?_⟩
  rcases attended.served (Or.inr ⟨thread, failed⟩) with taken | ⟨other, woken⟩
  · exact Or.inl taken
  · refine Or.inr ⟨other, ?_⟩
    have different : other ≠ thread := by
      rintro rfl
      rw [woken] at failed
      exact absurd failed (by decide)
    exact (phase_set_other _ _ different).trans woken

theorem set_holder_attended (attended : Attended state) {thread : Thread}
    (passed : state.phase thread = .passed) (value : state.value ≠ 0) :
    Attended ({ state with holder := pid thread }.setPhase thread .critical) := by
  have awake : state.phase thread ≠ .asleep := by
    rw [passed]
    decide
  exact Attended.taken attended.distinct (attended.listed_set_phase awake .critical) value

theorem mutex_release_attended (attended : Attended state) {thread : Thread}
    (critical : state.phase thread = .critical)
    (inTime : state.waitingList = [] → (∃ other, state.phase other = .failed) →
      ∃ other, state.phase other = .woken) : Attended (mutexRelease state thread) := by
  have own : ∀ other, state.phase other ≠ .critical → other ≠ thread := by
    rintro other different rfl
    exact different critical
  rw [mutexRelease, wakeFirst]
  cases list : state.waitingList with
  | nil =>
      refine ⟨by simp [list], by simp [list], ?_⟩
      -- nobody is listed: only a late thread could need attention
      rintro (full | ⟨late, failed⟩)
      · exact absurd list full
      · have different : late ≠ thread := by
          rintro rfl
          rw [phase_set_self] at failed
          exact absurd failed (by decide)
        rw [phase_set_other _ _ different] at failed
        obtain ⟨other, woken⟩ := inTime list ⟨late, failed⟩
        refine Or.inr ⟨other, ?_⟩
        have apart := own other (by rw [woken]; decide)
        exact (phase_set_other _ _ apart).trans woken
  | cons first rest =>
      have sleeping : state.phase first = .asleep := attended.listed first (by simp [list])
      have firstApart := own first (by rw [sleeping]; decide)
      have distinct := attended.distinct
      rw [list, List.nodup_cons] at distinct
      refine ⟨distinct.2, ?_, fun _ => Or.inr ⟨first, ?_⟩⟩
      · intro other member
        have asleep : state.phase other = .asleep :=
          attended.listed other (by rw [list]; exact List.mem_cons_of_mem _ member)
        have apart := own other (by rw [asleep]; decide)
        have notFirst : other ≠ first := fun same => distinct.1 (same ▸ member)
        rw [phase_set_other _ _ apart]
        exact (phase_set_other _ _ notFirst).trans asleep
      · rw [phase_set_other _ _ firstApart]
        change (MutexState.setPhase _ first _).phase first = .woken
        rw [phase_set_self, if_pos sleeping]

theorem step_attended {op : MutexOp Thread} (exclusive : Exclusive pid state)
    (attended : Attended state) (allowed : ReleasesInTime state op)
    (stepped : step pid state op = some next) : Attended next := by
  obtain ⟨thread, cases⟩ := step_cases stepped
  rcases cases with ⟨outside, -, rfl⟩ | ⟨woken, -, rfl⟩ | ⟨-, rfl, -⟩ | ⟨failed, -, rfl⟩ |
    ⟨passed, -, rfl⟩ | ⟨critical, rfl, rfl⟩
  · exact mutex_acquire_attended attended outside
  · exact retry_attended attended woken
  · exact absurd allowed id
  · exact sleep_listed_attended attended failed
  · exact set_holder_attended attended passed (exclusive.taken thread (Or.inl passed))
  · exact mutex_release_attended attended critical allowed

/-- Along every run whose releases are in time, no wake-up is lost. -/
theorem timely_run_no_lost_wake_up (pid : Thread → Nat) {ops : List (MutexOp Thread)}
    {final : MutexState Thread} (permitted : Permitted (step pid) ReleasesInTime freeMutex ops)
    (run : runFrom (step pid) freeMutex ops = some final) : NoLostWakeUp final := by
  have preserved : ∀ state op next, (Exclusive pid state ∧ Attended state) →
      ReleasesInTime state op → step pid state op = some next →
      Exclusive pid next ∧ Attended next := by
    rintro state op next ⟨exclusive, attended⟩ allowed stepped
    exact ⟨step_exclusive exclusive stepped, step_attended exclusive attended allowed stepped⟩
  have initial : Exclusive pid (freeMutex : MutexState Thread) ∧
      Attended (freeMutex : MutexState Thread) := by
    refine ⟨free_mutex_exclusive, ?_, ?_, ?_⟩
    · exact List.nodup_nil
    · simp [freeMutex]
    · simp [freeMutex]
  obtain ⟨-, attended⟩ := run_invariant preserved initial permitted run
  exact fun full => attended.served (Or.inl full)

instance [Fintype Thread] (state : MutexState Thread) :
    (op : MutexOp Thread) → Decidable (ReleasesInTime state op)
  | .switchIn _ => inferInstanceAs (Decidable False)
  | .mutexRelease _ => inferInstanceAs (Decidable (_ → _ → _))
  | .mutexAcquire _ | .testAndSet _ | .listMoveToTail _ | .setHolder _ =>
      inferInstanceAs (Decidable True)

def samplePid (thread : Fin 3) : Nat := thread.val + 1

/-- Thread 1 is woken, but thread 2 takes the mutex before it. -/
def overtakenOps : List (MutexOp (Fin 3)) :=
  [.mutexAcquire 0, .mutexAcquire 1, .mutexRelease 0, .mutexAcquire 2, .testAndSet 1]

theorem timely_run_no_lost_wake_up_sample : ∃ final,
    Permitted (step samplePid) ReleasesInTime freeMutex
        (overtakenOps ++ [.listMoveToTail 1, .mutexRelease 2]) ∧
      runFrom (step samplePid) freeMutex
        (overtakenOps ++ [.listMoveToTail 1, .mutexRelease 2]) = some final ∧
      NoLostWakeUp final := by
  have permitted : Permitted (step samplePid) ReleasesInTime freeMutex
      (overtakenOps ++ [.listMoveToTail 1, .mutexRelease 2]) := by
    decide +kernel
  have ends : (runFrom (step samplePid) freeMutex
      (overtakenOps ++ [.listMoveToTail 1, .mutexRelease 2])).isSome = true := by
    decide +kernel
  obtain ⟨final, run⟩ := Option.isSome_iff_exists.mp ends
  exact ⟨final, permitted, run, timely_run_no_lost_wake_up _ permitted run⟩

/-- A woken thread is overtaken, fails its test-and-set and is preempted before
it reaches the list; the overtaker's release finds the list empty. -/
theorem late_sleeper_never_woken : ∃ final,
    runFrom (step samplePid) freeMutex
        (overtakenOps ++ [.mutexRelease 2, .listMoveToTail 1]) = some final ∧
      final.waitingList = [1] ∧ ¬NoLostWakeUp final := by
  have facts : ((runFrom (step samplePid) freeMutex
      (overtakenOps ++ [.mutexRelease 2, .listMoveToTail 1])).map fun final =>
        (final.waitingList, final.value, decide (∃ thread, final.phase thread = .woken))) =
      some ([1], 0, false) := by
    decide +kernel
  obtain ⟨final, run, values⟩ := Option.map_eq_some_iff.mp facts
  rw [Prod.mk.injEq, Prod.mk.injEq, decide_eq_false_iff_not] at values
  obtain ⟨list, value, nobody⟩ := values
  refine ⟨final, run, list, fun kept => ?_⟩
  rcases kept (by rw [list]; decide) with taken | woken
  · exact taken value
  · exact nobody woken

end ChaoOS.MutexMachine
