import ChaoOS.MutexMachine
import ChaoOS.TerminalScreen

/-!
# Threads that print

`print` of `stdio/printf.c` holds `io_lock` while it hands its bytes to `putchar`,
one after the other; between any two steps the timer may switch threads. The
terminal is the only state the threads share apart from the lock.
-/

namespace ChaoOS.ConcurrentPrint

open ChaoOS.GuardedRun ChaoOS.KernelMath ChaoOS.MutexMachine ChaoOS.TerminalModel
open ChaoOS.TerminalScreen ChaoOS.ThreadPhases

set_option autoImplicit false

/-- A call of `print` with the index of its loop. -/
structure Call where
  data : List Nat
  index : Nat

/-- A byte as the `char` that `putchar` passes on, sign-extended to a word. -/
def asChar (value : Nat) : Nat := if value < 128 then value else wordSize - 256 + value

/-- What of the call is on the terminal. -/
def Call.shown (call : Call) : List Nat := (call.data.take call.index).map asChar

/-- `printed` keeps the calls that have returned, in this order. -/
structure Console (Thread : Type*) where
  ioLock : MutexState Thread
  calls : Thread → Call
  terminal : Terminal
  printed : List (Thread × List Nat)

inductive PrintOp (Thread : Type*) where
  /-- `print(data, length)` up to the first test-and-set of `mutex_acquire` -/
  | print (thread : Thread) (data : List Nat)
  /-- a later step of `mutex_acquire` -/
  | acquire (op : MutexOp Thread)
  /-- one round of the loop -/
  | putchar (thread : Thread)
  /-- `mutex_release` and the return -/
  | finish (thread : Thread)

/-- The steps of `mutex_acquire` after its first. -/
def IsWaiting {Thread : Type*} : MutexOp Thread → Bool
  | .testAndSet _ => true
  | .switchIn _ => true
  | .listMoveToTail _ => true
  | .setHolder _ => true
  | .mutexAcquire _ => false
  | .mutexRelease _ => false

section Machine

variable {Thread : Type*} [DecidableEq Thread] (pid : Thread → Nat) (mode : Mode) (font : Font)

def printStep (state : Console Thread) : PrintOp Thread → Option (Console Thread)
  | .print thread data =>
      (step pid state.ioLock (.mutexAcquire thread)).map fun ioLock =>
        { state with ioLock := ioLock, calls := Function.update state.calls thread ⟨data, 0⟩ }
  | .acquire op =>
      if IsWaiting op then
        (step pid state.ioLock op).map fun ioLock => { state with ioLock := ioLock }
      else none
  | .putchar thread =>
      let call := state.calls thread
      if state.ioLock.phase thread = .critical then
        (call.data[call.index]?).map fun value =>
          { state with
            terminal := mainTerminalWrite mode font state.terminal [asChar value]
            calls := Function.update state.calls thread { call with index := call.index + 1 } }
      else none
  | .finish thread =>
      let call := state.calls thread
      if call.index = call.data.length then
        (step pid state.ioLock (.mutexRelease thread)).map fun ioLock =>
          { state with ioLock := ioLock, printed := state.printed ++ [(thread, call.data)] }
      else none

end Machine

def startConsole {Thread : Type*} (mode : Mode) (font : Font) (buffer : Screen) : Console Thread where
  ioLock := freeMutex
  calls := fun _ => ⟨[], 0⟩
  terminal := initMainTerminal mode font buffer
  printed := []

/-- The characters of the calls that have returned. -/
def wholeCalls {Thread : Type*} (printed : List (Thread × List Nat)) : List Nat :=
  printed.flatMap fun call => call.2.map asChar

/-- The terminal has the whole calls, and after them what the thread inside has
put of its own. -/
structure ShowsCalls {Thread : Type*} (mode : Mode) (font : Font) (state : Console Thread)
    (received : List Nat) : Prop where
  screen : Matches mode font state.terminal
    (Grid.blank.write (rowsOf mode font) (colsOf mode font) received)
  inside : ∀ thread, state.ioLock.phase thread = .critical →
    received = wholeCalls state.printed ++ (state.calls thread).shown
  outside : (∀ thread, state.ioLock.phase thread ≠ .critical) →
    received = wholeCalls state.printed

structure PrintSound {Thread : Type*} (pid : Thread → Nat) (mode : Mode) (font : Font)
    (state : Console Thread) : Prop where
  exclusive : Exclusive pid state.ioLock
  fresh : ∀ thread, state.ioLock.phase thread ≠ .critical →
    state.ioLock.phase thread ≠ .outside → (state.calls thread).index = 0
  shows : ∃ received, ShowsCalls mode font state received

section Steps

variable {Thread : Type*} [DecidableEq Thread] {pid : Thread → Nat} {mode : Mode} {font : Font}
  {state next : Console Thread}

omit [DecidableEq Thread] in
theorem shown_zero {call : Call} (none_put : call.index = 0) : call.shown = [] := by
  rw [Call.shown, none_put, List.take_zero, List.map_nil]

omit [DecidableEq Thread] in
/-- A step after which the same threads are inside, with the same calls, shows
the same. -/
theorem ShowsCalls.same {received : List Nat} (shows : ShowsCalls mode font state received)
    (terminal : next.terminal = state.terminal) (printed : next.printed = state.printed)
    (inside : ∀ thread, next.ioLock.phase thread = .critical ↔
      state.ioLock.phase thread = .critical)
    (calls : ∀ thread, state.ioLock.phase thread = .critical →
      next.calls thread = state.calls thread) : ShowsCalls mode font next received := by
  constructor
  case screen =>
    rw [terminal]
    exact shows.screen
  case inside =>
    intro thread critical
    have before := (inside thread).mp critical
    rw [printed, calls thread before]
    exact shows.inside thread before
  case outside =>
    intro nobody
    rw [printed]
    exact shows.outside fun thread critical => nobody thread ((inside thread).mpr critical)

omit [DecidableEq Thread] in
/-- A thread that comes in while nobody is inside has put nothing yet. -/
theorem ShowsCalls.enters {received : List Nat} (shows : ShowsCalls mode font state received)
    (thread : Thread) (terminal : next.terminal = state.terminal)
    (printed : next.printed = state.printed) (nobody : ∀ other, state.ioLock.phase other ≠ .critical)
    (only : ∀ other, next.ioLock.phase other = .critical → other = thread)
    (inside : next.ioLock.phase thread = .critical) (fresh : (next.calls thread).index = 0) :
    ShowsCalls mode font next received := by
  constructor
  case screen =>
    rw [terminal]
    exact shows.screen
  case inside =>
    intro other critical
    rw [only other critical, shown_zero fresh, List.append_nil, printed]
    exact shows.outside nobody
  case outside => exact fun none_there => absurd inside (none_there thread)

/-- The phase of the first test-and-set of a call. -/
theorem print_phase {lock : MutexState Thread} {thread : Thread} :
    (mutexAcquire pid lock thread).phase thread =
      if lock.value = 0 then Phase.critical else Phase.asleep := by
  rw [mutexAcquire]
  split_ifs <;> simp [MutexState.sleepListed]

theorem acquire_phase_other {lock : MutexState Thread} {thread other : Thread}
    (different : other ≠ thread) :
    (mutexAcquire pid lock thread).phase other = lock.phase other := by
  rw [mutexAcquire]
  split_ifs <;> exact phase_set_other _ _ different

theorem print_sound (sound : PrintSound pid mode font state) {thread : Thread} {data : List Nat}
    (call : printStep pid mode font state (.print thread data) = some next) :
    PrintSound pid mode font next := by
  obtain ⟨lock, stepped, same⟩ := Option.map_eq_some_iff.mp call
  have exclusive := step_exclusive sound.exclusive stepped
  rw [step, Option.ite_none_right_eq_some] at stepped
  obtain ⟨away, lockSame⟩ := stepped
  have lock_eq := Option.some.inj lockSame
  subst lock_eq
  subst same
  obtain ⟨received, shows⟩ := sound.shows
  have others : ∀ other, other ≠ thread →
      Function.update state.calls thread (Call.mk data 0) other = state.calls other :=
    fun other different => Function.update_of_ne different _ _
  refine ⟨exclusive, ?_, received, ?_⟩
  · intro other notInside notOutside
    by_cases own : other = thread
    · rw [own]
      simp only [Function.update_self]
    · simp only [acquire_phase_other own] at notInside notOutside
      simp only [others other own]
      exact sound.fresh other notInside notOutside
  · by_cases free : state.ioLock.value = 0
    · have inside : (mutexAcquire pid state.ioLock thread).phase thread = .critical := by
        rw [print_phase, if_pos free]
      refine shows.enters thread rfl rfl ?_ ?_ ?_ ?_
      · exact fun other critical => sound.exclusive.free free other (Or.inr critical)
      · exact fun other critical => exclusive.unique other thread (Or.inr critical) (Or.inr inside)
      · exact inside
      · simp only [Function.update_self]
    · have asleep : (mutexAcquire pid state.ioLock thread).phase thread = .asleep := by
        rw [print_phase, if_neg free]
      refine shows.same rfl rfl ?_ ?_
      · intro other
        by_cases own : other = thread
        · rw [own, away]
          simp only [asleep]
          decide
        · simp only [acquire_phase_other own]
      · intro other critical
        apply others
        rintro rfl
        rw [away] at critical
        exact absurd critical (by decide)

omit [DecidableEq Thread] in
/-- A waiting step that leaves the thread outside the critical section. -/
theorem waiting_sound (sound : PrintSound pid mode font state) {lock : MutexState Thread}
    (thread : Thread) (exclusive : Exclusive pid lock)
    (others : ∀ other, other ≠ thread → lock.phase other = state.ioLock.phase other)
    (notInside : state.ioLock.phase thread ≠ .critical)
    (notOutside : state.ioLock.phase thread ≠ .outside) (still : lock.phase thread ≠ .critical) :
    PrintSound pid mode font { state with ioLock := lock } := by
  obtain ⟨received, shows⟩ := sound.shows
  refine ⟨exclusive, ?_, received, ?_⟩
  · intro other inside outside
    by_cases own : other = thread
    · rw [own]
      exact sound.fresh thread notInside notOutside
    · simp only [others other own] at inside outside
      exact sound.fresh other inside outside
  · refine shows.same rfl rfl ?_ fun _ _ => rfl
    intro other
    by_cases own : other = thread
    · rw [own]
      exact iff_of_false still notInside
    · simp only [others other own]

omit [DecidableEq Thread] in
theorem set_holder_sound (sound : PrintSound pid mode font state) {lock : MutexState Thread}
    {thread : Thread} (exclusive : Exclusive pid lock)
    (others : ∀ other, other ≠ thread → lock.phase other = state.ioLock.phase other)
    (passed : state.ioLock.phase thread = .passed) (inside : lock.phase thread = .critical) :
    PrintSound pid mode font { state with ioLock := lock } := by
  obtain ⟨received, shows⟩ := sound.shows
  have fresh : (state.calls thread).index = 0 := by
    apply sound.fresh thread <;> rw [passed] <;> decide
  refine ⟨exclusive, ?_, received, ?_⟩
  · intro other notInside outside
    have own : other ≠ thread := by
      rintro rfl
      exact notInside inside
    simp only [others other own] at notInside outside
    exact sound.fresh other notInside outside
  · refine shows.enters thread rfl rfl ?_ ?_ inside fresh
    · intro other critical
      have same := sound.exclusive.unique other thread (Or.inr critical) (Or.inl passed)
      rw [same, passed] at critical
      exact absurd critical (by decide)
    · exact fun other critical => exclusive.unique other thread (Or.inr critical) (Or.inr inside)

theorem retry_phase {lock : MutexState Thread} (thread : Thread) :
    (retry lock thread).phase thread ≠ .critical ∧
      ∀ other, other ≠ thread → (retry lock thread).phase other = lock.phase other := by
  rw [retry]
  split_ifs
  · exact ⟨by rw [phase_set_self]; decide, fun other different => phase_set_other _ _ different⟩
  · exact ⟨by rw [phase_set_self]; decide, fun other different => phase_set_other _ _ different⟩

theorem acquire_sound (sound : PrintSound pid mode font state) {op : MutexOp Thread}
    (call : printStep pid mode font state (.acquire op) = some next) :
    PrintSound pid mode font next := by
  rw [printStep, Option.ite_none_right_eq_some] at call
  obtain ⟨waiting, asked⟩ := call
  obtain ⟨lock, stepped, same⟩ := Option.map_eq_some_iff.mp asked
  subst same
  have exclusive := step_exclusive sound.exclusive stepped
  obtain ⟨thread, cases⟩ := step_cases stepped
  rcases cases with ⟨-, rfl, -⟩ | ⟨woken, rfl, rfl⟩ | ⟨asleep, rfl, rfl⟩ | ⟨failed, rfl, rfl⟩ |
    ⟨passed, rfl, rfl⟩ | ⟨-, rfl, -⟩
  · exact absurd waiting Bool.false_ne_true
  · obtain ⟨still, others⟩ := @retry_phase _ _ state.ioLock thread
    exact waiting_sound sound thread exclusive others (by rw [woken]; decide) (by rw [woken]; decide) still
  · obtain ⟨still, others⟩ := @retry_phase _ _ state.ioLock thread
    exact waiting_sound sound thread exclusive others (by rw [asleep]; decide) (by rw [asleep]; decide) still
  · refine waiting_sound sound thread exclusive
      (fun other different => phase_set_other _ _ different) (by rw [failed]; decide)
      (by rw [failed]; decide) ?_
    rw [MutexState.sleepListed, phase_set_self]
    decide
  · exact set_holder_sound sound exclusive (fun other different => phase_set_other _ _ different)
      passed (phase_set_self _ _ _)
  · exact absurd waiting Bool.false_ne_true

omit [DecidableEq Thread] in
theorem shown_next {call : Call} {value : Nat} (there : call.data[call.index]? = some value) :
    Call.shown { call with index := call.index + 1 } = call.shown ++ [asChar value] := by
  have split : call.data.take (call.index + 1) = call.data.take call.index ++ [value] := by
    rw [List.take_add_one, there]
    rfl
  rw [Call.shown, split, List.map_append]
  rfl

theorem putchar_sound (fits : Fits mode font) (sound : PrintSound pid mode font state)
    {thread : Thread} (call : printStep pid mode font state (.putchar thread) = some next) :
    PrintSound pid mode font next := by
  rw [printStep, Option.ite_none_right_eq_some] at call
  obtain ⟨inside, asked⟩ := call
  obtain ⟨value, there, same⟩ := Option.map_eq_some_iff.mp asked
  subst same
  obtain ⟨received, shows⟩ := sound.shows
  have only : ∀ other, state.ioLock.phase other = .critical → other = thread := fun other critical =>
    sound.exclusive.unique other thread (Or.inr critical) (Or.inr inside)
  refine ⟨sound.exclusive, ?_, received ++ [asChar value], ?_, ?_, ?_⟩
  · intro other notInside outside
    have own : other ≠ thread := by
      rintro rfl
      exact notInside inside
    simp only [Function.update_of_ne own]
    exact sound.fresh other notInside outside
  · have whole : Grid.blank.write (rowsOf mode font) (colsOf mode font) (received ++ [asChar value]) =
        (Grid.blank.write (rowsOf mode font) (colsOf mode font) received).write (rowsOf mode font)
          (colsOf mode font) [asChar value] := List.foldl_append
    rw [whole]
    exact write_matches fits shows.screen [asChar value]
  · intro other critical
    rw [only other critical]
    simp only [Function.update_self]
    rw [shown_next there, shows.inside thread inside, List.append_assoc]
  · exact fun nobody => absurd inside (nobody thread)

theorem release_phase {lock : MutexState Thread} {thread : Thread} (exclusive : Exclusive pid lock)
    (inside : lock.phase thread = .critical) (other : Thread) :
    (mutexRelease lock thread).phase other ≠ .critical := by
  intro critical
  by_cases own : other = thread
  · rw [own, mutexRelease, phase_set_self] at critical
    exact absurd critical (by decide)
  · rw [mutexRelease, phase_set_other _ _ own] at critical
    have before := wake_first_owns (Or.inr critical)
    exact own (exclusive.unique other thread before (Or.inr inside))

/-- Whoever is in `mutex_acquire` after a release was there before it. -/
theorem release_phase_away {lock : MutexState Thread} {thread other : Thread}
    (away : (mutexRelease lock thread).phase other ≠ .outside) :
    other ≠ thread ∧ lock.phase other ≠ .outside := by
  have own : other ≠ thread := by
    rintro rfl
    exact away (phase_set_self _ _ _)
  refine ⟨own, ?_⟩
  rw [mutexRelease, phase_set_other _ _ own] at away
  intro outside
  apply away
  change (wakeFirst lock).phase other = .outside
  rw [wakeFirst]
  cases lock.waitingList with
  | nil => exact outside
  | cons first rest =>
      by_cases woken : other = first
      · subst woken
        rw [phase_set_self, outside, if_neg (by decide)]
      · rw [phase_set_other _ _ woken]
        exact outside

theorem finish_sound (sound : PrintSound pid mode font state) {thread : Thread}
    (call : printStep pid mode font state (.finish thread) = some next) :
    PrintSound pid mode font next := by
  rw [printStep, Option.ite_none_right_eq_some] at call
  obtain ⟨done, asked⟩ := call
  obtain ⟨lock, stepped, same⟩ := Option.map_eq_some_iff.mp asked
  subst same
  have exclusive := step_exclusive sound.exclusive stepped
  rw [step, Option.ite_none_right_eq_some] at stepped
  obtain ⟨inside, lockSame⟩ := stepped
  have lock_eq := Option.some.inj lockSame
  subst lock_eq
  obtain ⟨received, shows⟩ := sound.shows
  have empty := release_phase sound.exclusive inside
  have whole : received = wholeCalls (state.printed ++ [(thread, (state.calls thread).data)]) := by
    rw [shows.inside thread inside, Call.shown, done, List.take_length, wholeCalls, wholeCalls,
      List.flatMap_append, List.flatMap_singleton]
  refine ⟨exclusive, ?_, received, shows.screen, ?_, fun _ => whole⟩
  · intro other _ away
    obtain ⟨own, before⟩ := release_phase_away away
    apply sound.fresh other _ before
    intro critical
    exact own (sound.exclusive.unique other thread (Or.inr critical) (Or.inr inside))
  · exact fun other critical => absurd critical (empty other)

theorem print_step_sound (fits : Fits mode font) {op : PrintOp Thread}
    (sound : PrintSound pid mode font state) (call : printStep pid mode font state op = some next) :
    PrintSound pid mode font next := by
  cases op with
  | print thread data => exact print_sound sound call
  | acquire op => exact acquire_sound sound call
  | putchar thread => exact putchar_sound fits sound call
  | finish thread => exact finish_sound sound call

end Steps

/-! ## Runs -/

section Runs

variable {Thread : Type*} [DecidableEq Thread] {mode : Mode} {font : Font}

omit [DecidableEq Thread] in
theorem start_sound (pid : Thread → Nat) (fits : Fits mode font) {buffer : Screen}
    (clear : Shows mode buffer fun _ _ => background) :
    PrintSound pid mode font (startConsole mode font buffer) := by
  refine ⟨free_mutex_exclusive, fun _ _ _ => rfl, [], init_matches fits clear, ?_, fun _ => rfl⟩
  intro thread inside
  have outside : Phase.outside = Phase.critical := inside
  exact absurd outside (by decide)

/-- However threads interleave, the screen shows the texts of the calls of `print`
that have returned, each in one piece and in the order of their returns, and after
them as much of the text of the thread inside as that has put. -/
theorem prints_are_whole (pid : Thread → Nat) (fits : Fits mode font) {buffer : Screen}
    (clear : Shows mode buffer fun _ _ => background) {ops : List (PrintOp Thread)}
    {final : Console Thread}
    (run : runFrom (printStep pid mode font) (startConsole mode font buffer) ops = some final) :
    ∃ received,
      Shows mode final.terminal.vbeBuffer
        ((Grid.blank.write (rowsOf mode font) (colsOf mode font) received).picture font
          (rowsOf mode font) (colsOf mode font)) ∧
      (∀ thread, final.ioLock.phase thread = .critical →
        received = wholeCalls final.printed ++ (final.calls thread).shown) ∧
      ((∀ thread, final.ioLock.phase thread ≠ .critical) → received = wholeCalls final.printed) := by
  have preserved : ∀ state op next, PrintSound pid mode font state →
      printStep pid mode font state op = some next → PrintSound pid mode font next :=
    fun _ _ _ sound call => print_step_sound fits sound call
  have sound := run_preserves preserved (start_sound pid fits clear) run
  obtain ⟨received, shows⟩ := sound.shows
  exact ⟨received, shows.screen.shown, shows.inside, shows.outside⟩

end Runs

/-- Thread 1 asks for the lock while thread 0 has put one of its two bytes. -/
def samplePrints : List (PrintOp Nat) :=
  [.print 0 [97, 98], .putchar 0, .print 1 [99, 100], .putchar 0, .finish 0,
    .acquire (.testAndSet 1), .acquire (.setHolder 1), .putchar 1]

theorem small_fits : Fits smallMode smallFont :=
  ⟨⟨by decide, by decide, by decide⟩, by decide, by decide, by decide, by decide⟩

theorem white_clear : Shows smallMode whiteBuffer fun _ _ => background := by
  intro x y index _ _ small
  have place : pixelByte smallMode x y index % 4 = index := by
    unfold pixelByte
    omega
  have bytes : ∀ byte, byte < 4 → (if byte = 3 then 0 else 255) = colorByte background byte := by
    decide
  rw [whiteBuffer, place]
  exact bytes index small

theorem prints_are_whole_sample : ∃ final : Console Nat,
    runFrom (printStep (fun thread => thread + 1) smallMode smallFont)
        (startConsole smallMode smallFont whiteBuffer) samplePrints = some final ∧
      Shows smallMode final.terminal.vbeBuffer
        ((Grid.blank.write 2 4 [97, 98, 99]).picture smallFont 2 4) := by
  have facts : ((runFrom (printStep (fun thread : Nat => thread + 1) smallMode smallFont)
      (startConsole smallMode smallFont whiteBuffer) samplePrints).map fun final =>
        (final.ioLock.phase 1, wholeCalls final.printed ++ (final.calls 1).shown)) =
      some (.critical, [97, 98, 99]) := by
    decide +kernel
  obtain ⟨final, run, inside⟩ := Option.map_eq_some_iff.mp facts
  obtain ⟨critical, characters⟩ := Prod.mk.inj inside
  obtain ⟨received, shown, own, -⟩ :=
    prints_are_whole (fun thread : Nat => thread + 1) small_fits white_clear run
  rw [own 1 critical, characters] at shown
  exact ⟨final, run, shown⟩

end ChaoOS.ConcurrentPrint
