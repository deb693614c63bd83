import ChaoOS.GuardedRun
import ChaoOS.TaskModel
import ChaoOS.TaskRings
import ChaoOS.TimerRates

/-!
# Clock interrupts and the threads they switch

The handler of the clock, `timer_schedule` of `kernel/timer.c`, calls
`task_schedule` from its loop when the scheduler's timer is due. That call switches
to another thread in the middle of the loop and ends with `sti`: the loop of the
thread that was running waits in its frame until the thread is switched in again, and
from the call on interrupts are enabled, also inside the handler. A thread may so be
inside several handlers, each with its own place in the list.

A turn is a round of the loop up to the return of the callback, or the step to the
next timer. Callbacks other than `task_schedule` return with interrupts disabled and
leave the timers alone. A call of `register_timer` or `thread_create` is one step: the
code leaves interrupts enabled there, and one that comes between its writes is not
modelled.
-/

namespace ChaoOS.ClockInterrupts

open ChaoOS.GuardedRun ChaoOS.IndexList ChaoOS.KernelMath ChaoOS.TimerModel ChaoOS.TimerRates
open ChaoOS.TaskModel (Kernel Node TaskImage bootKernel initTask threadCreate taskSchedule)
open ChaoOS.TaskRings (sampleImage sampleBoot)

set_option autoImplicit false

/-- What a timer can call. -/
inductive Routine where
  | taskSchedule
  | other (fn : Nat)
  deriving DecidableEq, Repr

/-- The place of a handler in its loop: before the test of `current_timer`, or at the
return from the round of that timer. -/
inductive Frame where
  | visiting (current : Nat)
  | called (current : Nat)
  deriving DecidableEq, Repr

/-- `frames` are the handlers that each thread is inside, the innermost first. -/
structure Clock where
  timers : TimerState Routine
  kernel : Kernel
  frames : Node → List Frame
  enabled : Bool

def Clock.setFrames (clock : Clock) (frames : List Frame) : Clock :=
  { clock with frames := Function.update clock.frames clock.kernel.currentTask frames }

def Clock.setEnabled (clock : Clock) (enabled : Bool) : Clock := { clock with enabled := enabled }

/-- Whether the round of a timer calls the scheduler. -/
def Schedules (timer : Timer Routine) : Prop :=
  Due timer ∧ timer.callbackFunc = .taskSchedule

instance (timer : Timer Routine) : Decidable (Schedules timer) :=
  inferInstanceAs (Decidable (_ ∧ _))

/-- The running thread's innermost handler goes on. `iret` enables interrupts, as they
were where the handler came in. -/
def turn (clock : Clock) : Option Clock :=
  match clock.frames clock.kernel.currentTask with
  | [] => none
  | .visiting current :: rest =>
      if current = 0 then some ((clock.setFrames rest).setEnabled true)
      else
        let visited :=
          { clock.setFrames (.called current :: rest) with timers := visit clock.timers current }
        if Schedules (clock.timers.timer current) then
          some { visited with kernel := taskSchedule clock.kernel, enabled := true }
        else some visited
  | .called current :: rest =>
      some (clock.setFrames (.visiting (clock.timers.nextOf current) :: rest))

inductive ClockOp where
  | interrupt
  | turn
  | registerTimer (callback : Routine) (frequency address : Nat)
  | threadCreate (fn arg newTask newStack : Nat)
  deriving DecidableEq

/-- A thread's own code runs only outside its handlers. -/
def clockStep (image : TaskImage) (clock : Clock) : ClockOp → Option Clock
  | .interrupt =>
      if clock.enabled then
        let frames := clock.frames clock.kernel.currentTask
        some ((clock.setFrames (.visiting clock.timers.timers :: frames)).setEnabled false)
      else none
  | .turn => turn clock
  | .registerTimer callback frequency address =>
      if clock.frames clock.kernel.currentTask = [] then
        some { clock with timers := registerTimer clock.timers callback frequency address }
      else none
  | .threadCreate fn arg newTask newStack =>
      if clock.frames clock.kernel.currentTask = [] then
        (threadCreate image fn arg newTask newStack clock.kernel).map fun created =>
          { clock with kernel := created.2 }
      else none

/-- `kmalloc` answers a struct that is not in use, and only `init_schedule` registers
`task_schedule`. -/
def ClockAllowed (clock : Clock) : ClockOp → Prop
  | .registerTimer callback frequency address =>
      TimerAllowed clock.timers (.register callback frequency address) ∧ callback ≠ .taskSchedule
  | _ => True

instance decidableClockAllowed (clock : Clock) : (op : ClockOp) → Decidable (ClockAllowed clock op)
  | .registerTimer _ _ _ => inferInstanceAs (Decidable ((_ ∧ _ ∧ _) ∧ _))
  | .interrupt | .turn | .threadCreate .. => inferInstanceAs (Decidable True)

/-! ## A pass over the list -/

theorem follows_head {Item : Type*} {next : Item → Item} {stop head : Item} {nodes : List Item}
    (follows : Follows next stop head nodes) : head = nodes.headD stop := by
  cases nodes with
  | nil => exact follows
  | cons first rest => exact follows.1

theorem follows_after {Item : Type*} {next : Item → Item} {stop head node : Item}
    {front back : List Item} (follows : Follows next stop head (front ++ node :: back)) :
    next node = back.headD stop := by
  induction front generalizing head with
  | nil => exact follows_head follows.2.2
  | cons first rest induction => exact induction follows.2.2

section Passes

variable {settled timers : TimerState Routine} {passed : List Nat} {current : Nat}

theorem ticked_nil (state : TimerState Routine) : Ticked state [] state :=
  ⟨fun _ => rfl, rfl, rfl, rfl, rfl⟩

theorem ticked_next (visited : Ticked settled passed timers) : timers.nextOf = settled.nextOf := by
  funext address
  rw [TimerState.nextOf, visited.timer, TimerState.nextOf]
  split_ifs
  · rw [ticked]
  · rfl

theorem ticked_callback (visited : Ticked settled passed timers) (address : Nat) :
    (timers.timer address).callbackFunc = (settled.timer address).callbackFunc := by
  rw [visited.timer]
  split_ifs
  · rw [ticked]
  · rfl

theorem fired_by_append (timer : Nat → Timer Routine) (front back : List Nat) :
    firedBy timer (front ++ back) = firedBy timer front ++ firedBy timer back := by
  simp only [firedBy, List.filter_append, List.map_append]

/-- One more timer of the list is visited. -/
theorem ticked_visit (visited : Ticked settled passed timers) (fresh : current ∉ passed) :
    Ticked settled (passed ++ [current]) (visit timers current) := by
  have own : timers.timer current = settled.timer current := by
    rw [visited.timer, if_neg fresh]
  constructor
  case timer =>
      intro other
      rw [visit_timer]
      by_cases here : other = current
      · rw [if_pos here, here, own, if_pos (by simp)]
      · rw [if_neg here, visited.timer]
        simp only [List.mem_append, List.mem_singleton, here, or_false]
  case calls =>
      rw [visit_eq, fired_by_append, List.reverse_append, List.append_assoc, ← visited.calls,
        fired_by_cons, fired_by_nil, own]
      split_ifs <;> rfl
  case timers => rw [visit_eq, visited.timers]
  case held => rw [visit_eq, visited.held]
  case freed => rw [visit_eq, visited.freed]

/-- There is one way to visit the timers of a list. -/
theorem ticked_unique {other : TimerState Routine} (left : Ticked settled passed timers)
    (right : Ticked settled passed other) : timers = other := by
  have same : timers.timer = other.timer := by
    funext address
    exact (left.timer address).trans (right.timer address).symm
  have calls := left.calls.trans right.calls.symm
  have head := left.timers.trans right.timers.symm
  have held := left.held.trans right.held.symm
  have freed := left.freed.trans right.freed.symm
  cases timers
  cases other
  simp only at same calls head held freed
  subst same calls head held freed
  rfl

/-- A whole pass is what `timer_schedule` does when nothing comes between. -/
theorem ticked_schedules {nodes : List Nat} (scheduled : Scheduled settled nodes)
    (visited : Ticked settled nodes timers) :
    timerSchedule wordSize settled.timers settled = some timers := by
  obtain ⟨final, ends, whole, -⟩ := scheduled.tick
  rw [ends, ticked_unique visited whole]

end Passes

/-! ## Where the handlers are -/

/-- The scheduler's timer is the last one of the list, and its only scheduler. -/
structure Listed (settled : TimerState Routine) (others : List Nat) (last : Nat) : Prop where
  scheduled : Scheduled settled (others ++ [last])
  schedules : (settled.timer last).callbackFunc = .taskSchedule
  only : ∀ address ∈ others, (settled.timer address).callbackFunc ≠ .taskSchedule

/-- A handler with no timer left to visit. -/
def Through (last : Nat) (frame : Frame) : Prop := frame = .called last ∨ frame = .visiting 0

/-- A handler on its way through the list: behind the timers it has passed, or at the
return from the last of them. -/
def Underway (passed todo : List Nat) (frame : Frame) : Prop :=
  frame = .visiting (todo.headD 0) ∨ ∃ before current, passed = before ++ [current] ∧
    frame = .called current

/-- Interrupts are enabled, and every handler is through. -/
structure Resting (last : Nat) (settled : TimerState Routine) (clock : Clock) : Prop where
  enabled : clock.enabled = true
  through : ∀ thread, ∀ frame ∈ clock.frames thread, Through last frame
  timers : clock.timers = settled

/-- Interrupts are disabled, and the innermost handler is through. -/
structure Leaving (last : Nat) (settled : TimerState Routine) (clock : Clock) : Prop where
  disabled : clock.enabled = false
  through : ∀ thread, ∀ frame ∈ clock.frames thread, Through last frame
  timers : clock.timers = settled
  inside : clock.frames clock.kernel.currentTask ≠ []

/-- Interrupts are disabled, and the innermost handler has timers to visit. -/
structure Passing (others : List Nat) (last : Nat) (settled : TimerState Routine) (clock : Clock) :
    Prop where
  disabled : clock.enabled = false
  through : ∀ thread ≠ clock.kernel.currentTask, ∀ frame ∈ clock.frames thread, Through last frame
  pass : ∃ frame rest passed todo, clock.frames clock.kernel.currentTask = frame :: rest ∧
    (∀ frame ∈ rest, Through last frame) ∧ others ++ [last] = passed ++ todo ∧ todo ≠ [] ∧
    Ticked settled passed clock.timers ∧ Underway passed todo frame

/-- The timers as they were, or will be, between two passes, and whether there is a
pass under way. -/
inductive Stage (others : List Nat) (last : Nat) (settled : TimerState Routine) (clock : Clock) :
    Bool → Prop where
  | resting (resting : Resting last settled clock) : Stage others last settled clock false
  | leaving (leaving : Leaving last settled clock) : Stage others last settled clock false
  | passing (passing : Passing others last settled clock) : Stage others last settled clock true

structure ClockSound (others : List Nat) (last : Nat) (settled : TimerState Routine) (clock : Clock)
    (underway : Bool) : Prop where
  listed : Listed settled others last
  stage : Stage others last settled clock underway

/-- What is known of a clock: the settled timers, the kernel, and whether a pass is under
way. -/
structure Known where
  timers : TimerState Routine
  kernel : Kernel
  underway : Bool

/-- What a step does to it. -/
inductive Progress (image : TaskImage) (last : Nat) : ClockOp → Known → Known → Prop where
  | interrupt (timers : TimerState Routine) (kernel : Kernel) :
      Progress image last .interrupt ⟨timers, kernel, false⟩ ⟨timers, kernel, true⟩
  | onwards (known : Known) : Progress image last .turn known known
  | through {timers after : TimerState Routine} (kernel : Kernel)
      (tick : timerSchedule wordSize timers.timers timers = some after) :
      Progress image last .turn ⟨timers, kernel, true⟩
        ⟨after, if Schedules (timers.timer last) then taskSchedule kernel else kernel, false⟩
  | registered {timers : TimerState Routine} (kernel : Kernel) {callback : Routine}
      {frequency address : Nat}
      (free : TimerAllowed timers (.register callback frequency address)) :
      Progress image last (.registerTimer callback frequency address) ⟨timers, kernel, false⟩
        ⟨registerTimer timers callback frequency address, kernel, false⟩
  | created (timers : TimerState Routine) {kernel after : Kernel}
      {fn arg newTask newStack pid : Nat}
      (call : threadCreate image fn arg newTask newStack kernel = some (pid, after)) :
      Progress image last (.threadCreate fn arg newTask newStack) ⟨timers, kernel, false⟩
        ⟨timers, after, false⟩

section Steps

variable {image : TaskImage} {others : List Nat} {last : Nat} {settled : TimerState Routine}
  {clock next : Clock} {underway : Bool}

theorem frames_set_self (clock : Clock) (frames : List Frame) :
    (clock.setFrames frames).frames clock.kernel.currentTask = frames :=
  Function.update_self ..

theorem frames_set_other (clock : Clock) (frames : List Frame) {thread : Node}
    (other : thread ≠ clock.kernel.currentTask) :
    (clock.setFrames frames).frames thread = clock.frames thread :=
  Function.update_of_ne other ..

/-- All handlers are through when the running thread's are. -/
theorem through_set_frames {frames : List Frame}
    (elsewhere : ∀ thread ≠ clock.kernel.currentTask, ∀ frame ∈ clock.frames thread,
      Through last frame)
    (own : ∀ frame ∈ frames, Through last frame) :
    ∀ thread, ∀ frame ∈ (clock.setFrames frames).frames thread, Through last frame := by
  intro thread
  by_cases here : thread = clock.kernel.currentTask
  · rw [here, frames_set_self]
    exact own
  · rw [frames_set_other clock frames here]
    exact elsewhere thread here

theorem Listed.distinct (listed : Listed settled others last) : (others ++ [last]).Nodup :=
  listed.scheduled.nodup

/-- The list ends with the scheduler's timer. -/
theorem Listed.next_last (listed : Listed settled others last) : settled.nextOf last = 0 :=
  follows_after listed.scheduled.follows

/-- The step of a handler that is through, whether it ends the handler or not. -/
theorem through_turn (listed : Listed settled others last) (timers : clock.timers = settled)
    (through : ∀ thread, ∀ frame ∈ clock.frames thread, Through last frame)
    (stepped : turn clock = some next) :
    next.timers = settled ∧ next.kernel = clock.kernel ∧
      (∀ thread, ∀ frame ∈ next.frames thread, Through last frame) ∧
      (next.enabled = true ∨
        next.enabled = clock.enabled ∧ next.frames next.kernel.currentTask ≠ []) := by
  cases own : clock.frames clock.kernel.currentTask with
  | nil =>
      rw [turn, own] at stepped
      cases stepped
  | cons frame rest =>
      have others : ∀ other ∈ rest, Through last other := fun other member =>
        through _ other (own ▸ List.mem_cons_of_mem _ member)
      have elsewhere : ∀ thread ≠ clock.kernel.currentTask, ∀ frame ∈ clock.frames thread,
          Through last frame := fun thread _ => through thread
      rw [turn, own] at stepped
      rcases through _ frame (own ▸ List.mem_cons_self) with rfl | rfl
      · simp only [Option.some.injEq] at stepped
        subst stepped
        refine ⟨timers, rfl, through_set_frames elsewhere ?_, Or.inr ⟨rfl, ?_⟩⟩
        · intro frame member
          rcases List.mem_cons.mp member with rfl | later
          · exact Or.inr (congrArg Frame.visiting (timers ▸ listed.next_last))
          · exact others frame later
        · exact (frames_set_self clock _).trans_ne (List.cons_ne_nil _ _)
      · simp only [if_true, Option.some.injEq] at stepped
        subst stepped
        exact ⟨timers, rfl, through_set_frames elsewhere others, Or.inl rfl⟩

theorem resting_turn (listed : Listed settled others last) (resting : Resting last settled clock)
    (stepped : turn clock = some next) :
    next.kernel = clock.kernel ∧ Resting last settled next := by
  obtain ⟨timers, kernel, through, enabled⟩ :=
    through_turn listed resting.timers resting.through stepped
  refine ⟨kernel, ?_, through, timers⟩
  rcases enabled with enabled | ⟨same, -⟩
  · exact enabled
  · exact same.trans resting.enabled

theorem leaving_turn (listed : Listed settled others last) (leaving : Leaving last settled clock)
    (stepped : turn clock = some next) :
    next.kernel = clock.kernel ∧ Stage others last settled next false := by
  obtain ⟨timers, kernel, through, enabled⟩ :=
    through_turn listed leaving.timers leaving.through stepped
  refine ⟨kernel, ?_⟩
  rcases enabled with enabled | ⟨same, inside⟩
  · exact .resting ⟨enabled, through, timers⟩
  · exact .leaving ⟨same.trans leaving.disabled, through, timers, inside⟩

/-- An interrupt starts a pass in a handler of its own. -/
theorem resting_interrupt (listed : Listed settled others last)
    (resting : Resting last settled clock) (stepped : clockStep image clock .interrupt = some next) :
    next.kernel = clock.kernel ∧ Passing others last settled next := by
  have head : clock.timers.timers = (others ++ [last]).headD 0 := by
    rw [resting.timers]
    exact follows_head listed.scheduled.follows
  simp only [clockStep, if_pos resting.enabled, Option.some.injEq] at stepped
  subst stepped
  refine ⟨rfl, rfl, ?_, ?_⟩
  · intro thread other frame member
    have same := frames_set_other clock
      (.visiting clock.timers.timers :: clock.frames clock.kernel.currentTask) other
    exact resting.through thread frame (same ▸ member)
  · refine ⟨.visiting clock.timers.timers, clock.frames clock.kernel.currentTask, [],
      others ++ [last], ?_, resting.through _, rfl, by simp, ?_, ?_⟩
    · exact frames_set_self clock _
    · have same : clock.timers = settled := resting.timers
      exact same ▸ ticked_nil settled
    · exact Or.inl (congrArg Frame.visiting head)

/-- The return from a round: the handler is behind that timer. -/
theorem passing_called (listed : Listed settled others last) {rest : List Frame} {current : Nat}
    {before todo : List Nat} (disabled : clock.enabled = false)
    (elsewhere : ∀ thread ≠ clock.kernel.currentTask, ∀ frame ∈ clock.frames thread,
      Through last frame)
    (own : clock.frames clock.kernel.currentTask = .called current :: rest)
    (outer : ∀ frame ∈ rest, Through last frame)
    (split : others ++ [last] = before ++ [current] ++ todo) (left : todo ≠ [])
    (visited : Ticked settled (before ++ [current]) clock.timers)
    (stepped : turn clock = some next) :
    next.kernel = clock.kernel ∧ Passing others last settled next := by
  have follows := listed.scheduled.follows
  rw [split, List.append_assoc] at follows
  have onwards : clock.timers.nextOf current = todo.headD 0 := by
    rw [ticked_next visited]
    exact follows_after follows
  simp only [turn, own, onwards, Option.some.injEq] at stepped
  subst stepped
  refine ⟨rfl, disabled, ?_, ?_⟩
  · intro thread other frame member
    have same := frames_set_other clock (.visiting (todo.headD 0) :: rest) other
    exact elsewhere thread other frame (same ▸ member)
  · exact ⟨_, rest, before ++ [current], todo, frames_set_self clock _, outer, split, left, visited,
      Or.inl rfl⟩

/-- A round in the middle of the list. -/
theorem passing_visits (listed : Listed settled others last) {rest : List Frame} {current : Nat}
    {passed todo : List Nat} (disabled : clock.enabled = false)
    (elsewhere : ∀ thread ≠ clock.kernel.currentTask, ∀ frame ∈ clock.frames thread,
      Through last frame)
    (own : clock.frames clock.kernel.currentTask = .visiting current :: rest)
    (outer : ∀ frame ∈ rest, Through last frame)
    (split : others ++ [last] = passed ++ current :: todo)
    (visited : Ticked settled passed clock.timers) (stepped : turn clock = some next) :
    (next.kernel = clock.kernel ∧ Passing others last settled next) ∨
      ∃ after, Ticked settled (others ++ [last]) after ∧
        next.kernel =
          (if Schedules (settled.timer last) then taskSchedule clock.kernel else clock.kernel) ∧
        Stage others last after next false := by
  have inside : current ∈ others ++ [last] := by
    rw [split]
    simp
  have nonnull : current ≠ 0 := follows_ne_stop listed.scheduled.follows inside
  have fresh : current ∉ passed := by
    have distinct := listed.distinct
    rw [split] at distinct
    exact fun member => (List.nodup_append.mp distinct).2.2 current member current
      List.mem_cons_self rfl
  have whole := ticked_visit visited fresh
  have same : clock.timers.timer current = settled.timer current := by
    rw [visited.timer, if_neg fresh]
  rw [turn, own] at stepped
  simp only [if_neg nonnull, same] at stepped
  rcases List.eq_nil_or_concat todo with rfl | ⟨front, final, rfl⟩
  · -- the scheduler's timer is the last one
    obtain ⟨rfl, ends⟩ := List.append_inj' split rfl
    obtain rfl : last = current := List.singleton_inj.mp ends
    have through : ∀ thread, ∀ frame ∈ (clock.setFrames (.called last :: rest)).frames thread,
        Through last frame :=
      through_set_frames elsewhere (List.forall_mem_cons.mpr ⟨Or.inl rfl, outer⟩)
    refine Or.inr ⟨_, whole, ?_⟩
    split_ifs at stepped ⊢
    · simp only [Option.some.injEq] at stepped
      subst stepped
      exact ⟨rfl, .resting ⟨rfl, through, rfl⟩⟩
    · simp only [Option.some.injEq] at stepped
      subst stepped
      refine ⟨rfl, .leaving ⟨disabled, through, rfl, ?_⟩⟩
      exact (frames_set_self clock _).trans_ne (List.cons_ne_nil _ _)
  · have listing : others ++ [last] = (passed ++ current :: front) ++ [final] := by
      rw [split, List.append_assoc, List.cons_append, List.concat_eq_append]
    obtain ⟨rest', -⟩ := List.append_inj' listing rfl
    have other : ¬Schedules (settled.timer current) := by
      rintro ⟨-, called⟩
      exact listed.only current (by rw [rest']; simp) called
    rw [if_neg other, Option.some.injEq] at stepped
    subst stepped
    refine Or.inl ⟨rfl, disabled, ?_, ?_⟩
    · intro thread other frame member
      have same := frames_set_other clock (.called current :: rest) other
      exact elsewhere thread other frame (same ▸ member)
    · refine ⟨.called current, rest, passed ++ [current], front.concat final,
        frames_set_self clock _, outer, ?_, by simp, whole, Or.inr ⟨passed, current, rfl, rfl⟩⟩
      rw [split, List.append_assoc, List.singleton_append]

theorem Listed.tick {after : TimerState Routine} (listed : Listed settled others last)
    (visited : Ticked settled (others ++ [last]) after) : Listed after others last := by
  obtain ⟨final, -, whole, scheduled⟩ := listed.scheduled.tick
  rw [ticked_unique whole visited] at scheduled
  refine ⟨scheduled, ?_, fun address member => ?_⟩
  · rw [ticked_callback visited]
    exact listed.schedules
  · rw [ticked_callback visited]
    exact listed.only address member

theorem passing_turn (listed : Listed settled others last)
    (passing : Passing others last settled clock) (stepped : turn clock = some next) :
    (next.kernel = clock.kernel ∧ Passing others last settled next) ∨
      ∃ after, Ticked settled (others ++ [last]) after ∧
        next.kernel =
          (if Schedules (settled.timer last) then taskSchedule clock.kernel else clock.kernel) ∧
        Stage others last after next false := by
  obtain ⟨frame, rest, passed, todo, own, outer, split, left, visited, place⟩ := passing.pass
  rcases place with rfl | ⟨before, current, rfl, rfl⟩
  · obtain ⟨current, later, rfl⟩ := List.exists_cons_of_ne_nil left
    exact passing_visits listed passing.disabled passing.through own outer split visited stepped
  · exact Or.inl (passing_called listed passing.disabled passing.through own outer split left visited
      stepped)

/-- Every timer that is registered comes before the scheduler's. -/
theorem Listed.register {callback : Routine} {frequency address : Nat}
    (listed : Listed settled others last)
    (allowed : TimerAllowed settled (.register callback frequency address))
    (plain : callback ≠ .taskSchedule) :
    ∃ others', Listed (registerTimer settled callback frequency address) others' last := by
  by_cases accepted : Accepted frequency
  · have scheduled := listed.scheduled.register callback accepted allowed
    have unlisted : ∀ other ∈ others ++ [last], other ≠ address := by
      rintro other member rfl
      exact allowed.2.2 (listed.scheduled.held _ member)
    refine ⟨address :: others, scheduled, ?_, ?_⟩
    · rw [register_timer_eq accepted]
      simp only [if_neg (unlisted last (by simp))]
      exact listed.schedules
    · rw [register_timer_eq accepted]
      intro other member
      rcases List.mem_cons.mp member with rfl | later
      · simpa using plain
      · simp only [if_neg (unlisted other (List.mem_append_left _ later))]
        exact listed.only other later
  · rw [register_timer_rejected accepted]
    exact ⟨others, listed⟩

/-- A thread that runs its own code runs with interrupts enabled. -/
theorem outside_resting (stage : Stage others last settled clock underway)
    (outside : clock.frames clock.kernel.currentTask = []) :
    underway = false ∧ Resting last settled clock := by
  cases stage with
  | resting resting => exact ⟨rfl, resting⟩
  | leaving leaving => exact absurd outside leaving.inside
  | passing passing =>
      obtain ⟨frame, rest, passed, todo, own, -⟩ := passing.pass
      rw [own] at outside
      cases outside

theorem clock_step_sound {op : ClockOp} (sound : ClockSound others last settled clock underway)
    (allowed : ClockAllowed clock op) (stepped : clockStep image clock op = some next) :
    ∃ others' settled' underway', ClockSound others' last settled' next underway' ∧
      Progress image last op ⟨settled, clock.kernel, underway⟩ ⟨settled', next.kernel, underway'⟩ := by
  obtain ⟨listed, stage⟩ := sound
  cases op with
  | interrupt =>
      have enabled : clock.enabled = true := by
        by_contra disabled
        simp only [clockStep, if_neg disabled] at stepped
        cases stepped
      cases stage with
      | resting resting =>
          obtain ⟨kernel, passing⟩ := resting_interrupt listed resting stepped
          exact ⟨others, settled, true, ⟨listed, .passing passing⟩, kernel ▸ .interrupt _ _⟩
      | leaving leaving => exact absurd enabled (by rw [leaving.disabled]; decide)
      | passing passing => exact absurd enabled (by rw [passing.disabled]; decide)
  | turn =>
      cases stage with
      | resting resting =>
          obtain ⟨kernel, rests⟩ := resting_turn listed resting stepped
          exact ⟨others, settled, false, ⟨listed, .resting rests⟩, kernel ▸ .onwards _⟩
      | leaving leaving =>
          obtain ⟨kernel, stage⟩ := leaving_turn listed leaving stepped
          exact ⟨others, settled, false, ⟨listed, stage⟩, kernel ▸ .onwards _⟩
      | passing passing =>
          rcases passing_turn listed passing stepped with
            ⟨kernel, passes⟩ | ⟨after, visited, kernel, stage⟩
          · exact ⟨others, settled, true, ⟨listed, .passing passes⟩, kernel ▸ .onwards _⟩
          · refine ⟨others, after, false, ⟨listed.tick visited, stage⟩, ?_⟩
            rw [kernel]
            exact .through _ (ticked_schedules listed.scheduled visited)
  | registerTimer callback frequency address =>
      simp only [clockStep, Option.ite_none_right_eq_some, Option.some.injEq] at stepped
      obtain ⟨outside, rfl⟩ := stepped
      obtain ⟨rfl, resting⟩ := outside_resting stage outside
      obtain ⟨free, plain⟩ := allowed
      rw [resting.timers] at free
      obtain ⟨others', later⟩ := listed.register free plain
      refine ⟨others', _, false, ⟨later, .resting ⟨resting.enabled, resting.through, ?_⟩⟩, ?_⟩
      · exact congrArg (registerTimer · callback frequency address) resting.timers
      · exact .registered _ free
  | threadCreate fn arg newTask newStack =>
      simp only [clockStep, Option.ite_none_right_eq_some] at stepped
      obtain ⟨outside, created⟩ := stepped
      obtain ⟨⟨pid, after⟩, call, rfl⟩ := Option.map_eq_some_iff.mp created
      obtain ⟨rfl, resting⟩ := outside_resting stage outside
      refine ⟨others, settled, false, ⟨listed, .resting ?_⟩, .created settled call⟩
      exact ⟨resting.enabled, resting.through, resting.timers⟩

end Steps

/-! ## Whole runs -/

def taskSwitchFrequency : Nat := 500

/-- After `init_schedule`, whose `kmalloc` for the timer answers `last`; `memory` is what
is in the structs before they are used. -/
def startClock (memory : Nat → Timer Routine) (kernel : Kernel) (last : Nat) : Clock where
  timers := registerTimer (bootTimers memory) .taskSchedule taskSwitchFrequency last
  kernel := kernel
  frames := fun _ => []
  enabled := true

/-- The state between the two parts of a run. -/
theorem run_split {State Op : Type*} {step : State → Op → Option State} {before after : List Op}
    {state final : State} (run : runFrom step state (before ++ after) = some final) :
    ∃ middle, runFrom step state before = some middle ∧
      runFrom step middle after = some final := by
  induction before generalizing state with
  | nil => exact ⟨state, rfl, run⟩
  | cons op rest induction =>
      obtain ⟨next, first, later⟩ := run_cons run
      obtain ⟨middle, reached, ends⟩ := induction later
      exact ⟨middle, by rw [runFrom, first, Option.bind_some, reached], ends⟩

def countInterrupt (n : Nat) (op : ClockOp) : Nat := if op = .interrupt then n + 1 else n

def interrupts (ops : List ClockOp) : Nat := ops.count .interrupt

theorem fold_interrupts (n : Nat) (ops : List ClockOp) :
    ops.foldl countInterrupt n = n + interrupts ops := by
  induction ops generalizing n with
  | nil => rfl
  | cons op ops induction =>
      rw [List.foldl_cons, induction, interrupts, interrupts, countInterrupt]
      by_cases same : op = .interrupt
      · rw [if_pos same, same, List.count_cons_self]
        omega
      · rw [if_neg same, List.count_cons_of_ne same]

/-- The timer at `address` has been counted down by `n` interrupts, the one whose pass is
under way included. -/
def Timed (last address : Nat) (callback : Routine) (interval : Nat) (n : Nat) (clock : Clock) :
    Prop :=
  ∃ others settled underway nodes passes, ClockSound others last settled clock underway ∧
    Rated settled nodes address callback interval passes ∧ passes + underway.toNat = n

section Runs

variable {image : TaskImage} {others : List Nat} {last : Nat} {settled : TimerState Routine}
  {clock final : Clock} {underway : Bool} {callback : Routine} {address interval n : Nat}

theorem progress_rated {op : ClockOp} {before after : Known} {nodes : List Nat}
    (word : interval < wordSize) (rated : Rated before.timers nodes address callback interval n)
    (progress : Progress image last op before after) :
    ∃ nodes' passes, Rated after.timers nodes' address callback interval passes ∧
      passes + after.underway.toNat = countInterrupt (n + before.underway.toNat) op := by
  cases progress with
  | interrupt => exact ⟨nodes, n, rated, rfl⟩
  | onwards => exact ⟨nodes, n, rated, rfl⟩
  | through kernel tick => exact ⟨nodes, n + 1, rated.tick word tick, rfl⟩
  | registered kernel free =>
      obtain ⟨nodes', later⟩ := rated.step word free rfl
      exact ⟨nodes', n, later, rfl⟩
  | created => exact ⟨nodes, n, rated, rfl⟩

theorem clock_run_timed (word : interval < wordSize)
    (timed : Timed last address callback interval n clock) {ops : List ClockOp}
    (permitted : Permitted (clockStep image) ClockAllowed clock ops)
    (run : runFrom (clockStep image) clock ops = some final) :
    Timed last address callback interval (n + interrupts ops) final := by
  have simulated : ∀ n clock op next, Timed last address callback interval n clock →
      ClockAllowed clock op → clockStep image clock op = some next →
      Timed last address callback interval (countInterrupt n op) next := by
    rintro n clock op next ⟨others, settled, underway, nodes, passes, sound, rated, rfl⟩ allowed
      stepped
    obtain ⟨others', settled', underway', later, progress⟩ := clock_step_sound sound allowed stepped
    obtain ⟨nodes', passes', rated', count⟩ := progress_rated word rated progress
    exact ⟨others', settled', underway', nodes', passes', later, rated', count⟩
  rw [← fold_interrupts]
  exact run_simulation simulated timed permitted run

/-- With interrupts enabled no pass is under way. -/
theorem timed_enabled (timed : Timed last address callback interval n clock)
    (enabled : clock.enabled = true) :
    clock.timers.calls.count (address, callback) = n / period interval := by
  obtain ⟨others, settled, underway, nodes, passes, ⟨-, stage⟩, rated, rfl⟩ := timed
  cases stage with
  | resting resting =>
      rw [resting.timers]
      exact rated.calls
  | leaving leaving => exact absurd enabled (by rw [leaving.disabled]; decide)
  | passing passing => exact absurd enabled (by rw [passing.disabled]; decide)

/-- At any other time the pass under way may have called the timer already, or not. -/
theorem timed_bounds (word : interval < wordSize)
    (timed : Timed last address callback interval n clock) :
    (n - 1) / period interval ≤ clock.timers.calls.count (address, callback) ∧
      clock.timers.calls.count (address, callback) ≤ n / period interval := by
  obtain ⟨others, settled, underway, nodes, passes, ⟨listed, stage⟩, rated, rfl⟩ := timed
  have between : ∀ {timers : TimerState Routine}, timers = settled →
      (passes - 1) / period interval ≤ timers.calls.count (address, callback) ∧
        timers.calls.count (address, callback) ≤ passes / period interval := by
    rintro timers rfl
    rw [rated.calls]
    exact ⟨Nat.div_le_div_right (Nat.sub_le _ _), le_rfl⟩
  cases stage with
  | resting resting => exact between resting.timers
  | leaving leaving => exact between leaving.timers
  | passing passing =>
      obtain ⟨-, -, passed, todo, -, -, split, -, visited, -⟩ := passing.pass
      obtain ⟨final, ends, whole, -⟩ := listed.scheduled.tick
      have after := (rated.tick word ends).calls
      rw [whole.calls, split, fired_by_append, List.reverse_append, List.append_assoc,
        ← visited.calls, List.count_append] at after
      have before := rated.calls
      have sooner := congrArg (List.count (address, callback)) visited.calls
      rw [List.count_append, before] at sooner
      rw [Bool.toNat_true, Nat.add_sub_cancel]
      omega

theorem rated_registered {nodes : List Nat} {frequency : Nat} (scheduled : Scheduled settled nodes)
    (accepted : Accepted frequency)
    (allowed : TimerAllowed settled (.register callback frequency address)) :
    Rated (registerTimer settled callback frequency address) (address :: nodes) address callback
      (timerFre / frequency) 0 := by
  refine ⟨scheduled.register callback accepted allowed, List.mem_cons_self, ?_, ?_⟩
  · rw [register_timer_eq accepted]
    simp only [if_true]
    exact counted_registered (interval_lt frequency) settled.timers
  · rw [register_timer_eq accepted, Nat.zero_div, List.count_eq_zero]
    exact fun member => allowed.2.2 (scheduled.called _ member)

theorem timed_registered {frequency : Nat}
    (sound : ClockSound others last settled clock underway)
    (outside : clock.frames clock.kernel.currentTask = []) (accepted : Accepted frequency)
    (allowed : ClockAllowed clock (.registerTimer callback frequency address)) :
    Timed last address callback (timerFre / frequency) 0
      { clock with timers := registerTimer clock.timers callback frequency address } := by
  obtain ⟨-, resting⟩ := outside_resting sound.stage outside
  obtain ⟨free, plain⟩ := allowed
  rw [resting.timers] at free ⊢
  obtain ⟨others', listed⟩ := sound.listed.register free plain
  exact ⟨others', _, false, _, 0, ⟨listed, .resting ⟨resting.enabled, resting.through, rfl⟩⟩,
    rated_registered sound.listed.scheduled accepted free, rfl⟩

theorem start_sound (memory : Nat → Timer Routine) (kernel : Kernel) (nonnull : last ≠ 0)
    (word : last < wordSize) :
    ClockSound [] last (startClock memory kernel last).timers (startClock memory kernel last) false ∧
      Rated (startClock memory kernel last).timers [last] last .taskSchedule 2 0 := by
  have allowed : TimerAllowed (bootTimers memory)
      (.register .taskSchedule taskSwitchFrequency last) := ⟨nonnull, word, List.not_mem_nil⟩
  have rated := rated_registered (boot_scheduled memory) (by decide) allowed
  exact ⟨⟨⟨rated.toScheduled, rated.counted.called, nofun⟩, .resting ⟨rfl, nofun, rfl⟩⟩, rated⟩

/-- A timer counts the interrupts from its registration on. -/
theorem registered_timed {memory : Nat → Timer Routine} {kernel : Kernel} (nonnull : last ≠ 0)
    (word : last < wordSize) {before after : List ClockOp} {frequency : Nat}
    (accepted : Accepted frequency)
    (permitted : Permitted (clockStep image) ClockAllowed (startClock memory kernel last)
      (before ++ .registerTimer callback frequency address :: after))
    (run : runFrom (clockStep image) (startClock memory kernel last)
      (before ++ .registerTimer callback frequency address :: after) = some final) :
    Timed last address callback (timerFre / frequency) (interrupts after) final := by
  obtain ⟨sound, rated⟩ := start_sound memory kernel nonnull word
  obtain ⟨middle, reached, rest⟩ := run_split run
  obtain ⟨registered, step, later⟩ := run_cons rest
  obtain ⟨early, continued⟩ := permitted_append permitted
  obtain ⟨permission, onwards⟩ := continued middle reached
  obtain ⟨others, settled, underway, -, -, sound', -⟩ :=
    clock_run_timed (by decide) ⟨_, _, _, _, _, sound, rated, rfl⟩ early reached
  simp only [clockStep, Option.ite_none_right_eq_some, Option.some.injEq] at step
  obtain ⟨outside, rfl⟩ := step
  have counted := clock_run_timed (interval_lt frequency)
    (timed_registered sound' outside accepted permission)
    (onwards _ (if_pos outside)) later
  rwa [Nat.zero_add] at counted

/-- Clock interrupts may come wherever they are enabled, in a handler that has just
switched threads as well, and threads may be switched in the middle of the loop: a timer
of frequency `f` is called once in every `TIMER_FRE / f` interrupts from its registration
on, and the scheduler in every second one. -/
theorem timers_keep_rate {memory : Nat → Timer Routine} {kernel : Kernel} (nonnull : last ≠ 0)
    (word : last < wordSize) {before after : List ClockOp} {frequency : Nat}
    (accepted : Accepted frequency) (slow : frequency ≤ timerFre)
    (permitted : Permitted (clockStep image) ClockAllowed (startClock memory kernel last)
      (before ++ .registerTimer callback frequency address :: after))
    (run : runFrom (clockStep image) (startClock memory kernel last)
      (before ++ .registerTimer callback frequency address :: after) = some final)
    (enabled : final.enabled = true) :
    final.timers.calls.count (address, callback) = interrupts after / (timerFre / frequency) ∧
      final.timers.calls.count (last, .taskSchedule) = (interrupts before + interrupts after) / 2 := by
  obtain ⟨sound, rated⟩ := start_sound memory kernel nonnull word
  have counted := registered_timed nonnull word accepted permitted run
  have whole : Timed last last .taskSchedule 2 _ final :=
    clock_run_timed (by decide) ⟨_, _, _, _, _, sound, rated, rfl⟩ permitted run
  have positive : timerFre / frequency ≠ 0 := fun zero =>
    absurd ((interval_zero_iff accepted).mp zero) (Nat.not_lt_of_le slow)
  have total : interrupts (before ++ .registerTimer callback frequency address :: after) =
      interrupts before + interrupts after := by
    rw [interrupts, List.count_append, List.count_cons_of_ne (by simp)]
    rfl
  constructor
  · rw [timed_enabled counted enabled, period, if_neg positive]
  · rw [timed_enabled whole enabled, Bool.toNat_false, Nat.add_zero, Nat.zero_add, total]
    rfl

end Runs

/-- Three interrupts, the last of them inside the handler of the second. -/
def nestedInterrupts : List ClockOp :=
  .interrupt :: List.replicate 5 .turn ++ .interrupt :: List.replicate 3 .turn ++
    .interrupt :: List.replicate 7 .turn

def emptyTimer : Timer Routine := ⟨.other 0, 0, 0, 0⟩

theorem timers_keep_rate_sample : ∃ start final,
    initTask sampleImage 0xC1000000 (bootKernel sampleBoot) = some start ∧
      runFrom (clockStep sampleImage) (startClock (fun _ => emptyTimer) start 0xC1000200)
        (.registerTimer (.other 0xC0105000) 1000 0xC1000300 :: nestedInterrupts) = some final ∧
      final.timers.calls.count (0xC1000300, .other 0xC0105000) = 3 := by
  have facts : ((initTask sampleImage 0xC1000000 (bootKernel sampleBoot)).bind fun start =>
      (runFrom (clockStep sampleImage) (startClock (fun _ => emptyTimer) start 0xC1000200)
        (.registerTimer (.other 0xC0105000) 1000 0xC1000300 :: nestedInterrupts)).map fun final =>
          (final.enabled, decide (Permitted (clockStep sampleImage) ClockAllowed
            (startClock (fun _ => emptyTimer) start 0xC1000200)
            (.registerTimer (.other 0xC0105000) 1000 0xC1000300 :: nestedInterrupts)))) =
      some (true, true) := by
    decide +kernel
  obtain ⟨start, init, rest⟩ := Option.bind_eq_some_iff.mp facts
  obtain ⟨final, run, both⟩ := Option.map_eq_some_iff.mp rest
  obtain ⟨enabled, permitted⟩ := Prod.mk.inj both
  have rate := @timers_keep_rate sampleImage 0xC1000200 final (.other 0xC0105000) 0xC1000300
    (fun _ => emptyTimer) start (by decide) (by decide) [] nestedInterrupts 1000 (by decide)
    (by decide) (of_decide_eq_true permitted) run enabled
  exact ⟨start, final, init, run, rate.1⟩

end ChaoOS.ClockInterrupts
