import ChaoOS.ClockInterrupts
import ChaoOS.TaskFairness

/-!
# Time slices

`init_schedule` has every second clock interrupt call `task_schedule`. The threads of
the ring so take turns of two interrupts, wherever in their own code or in a handler
the interrupts meet them.
-/

namespace ChaoOS.TimeSlices

open ChaoOS.GuardedRun ChaoOS.KernelMath ChaoOS.LinkedRing ChaoOS.ListHead ChaoOS.RoundRobin
open ChaoOS.TimerModel ChaoOS.TimerRates ChaoOS.TaskModel ChaoOS.TaskRings ChaoOS.TaskFairness
open ChaoOS.ClockInterrupts

set_option autoImplicit false

/-! ## Turns under the clock -/

/-- The scheduler's timer has gone through `passes` interrupts, and the kernel takes turns
as the rotation says. -/
def Turning (last : Nat) (rotation : Rotation Node) (passes : Nat) (underway : Bool)
    (clock : Clock) : Prop :=
  ∃ others settled nodes, ClockSound others last settled clock underway ∧
    Rated settled nodes last .taskSchedule 2 passes ∧ TakesTurns rotation clock.kernel

/-- What a step adds to the turns: an event at most, and a selection where the scheduler
runs. -/
structure Turned (rotation : Rotation Node) (kernel : Kernel) (passes passes' : Nat)
    (events : List (Event Node)) : Prop where
  takes : TakesTurns (rotation.after events) kernel
  selected : ∀ node ∈ rotation.selections events, kernel.currentTask = node
  calls : Rotation.ticks events + passes / 2 = passes' / 2

section Steps

variable {image : TaskImage} {last : Nat} {rotation : Rotation Node}

theorem turned_none {kernel : Kernel} (takes : TakesTurns rotation kernel) (passes : Nat) :
    Turned rotation kernel passes passes [] :=
  ⟨takes, nofun, Nat.zero_add _⟩

/-- A pass runs the scheduler in every second interrupt. -/
theorem turned_pass {timers : TimerState Routine} {nodes : List Nat} {kernel : Kernel}
    {passes : Nat} (rated : Rated timers nodes last .taskSchedule 2 passes)
    (takes : TakesTurns rotation kernel) :
    ∃ events, Turned rotation
      (if Schedules (timers.timer last) then taskSchedule kernel else kernel) passes (passes + 1)
      events := by
  have two : period 2 = 2 := rfl
  have due := rated.counted.due_iff (show 2 < wordSize by decide)
  rw [two] at due
  have schedules : Schedules (timers.timer last) ↔ passes % 2 + 1 = 2 :=
    (and_iff_left rated.counted.called).trans due
  split_ifs with now
  · have odd := schedules.mp now
    obtain ⟨ticked, chosen⟩ := task_schedule_takes_turns takes
    refine ⟨[.tick], ticked, fun node member => ?_, ?_⟩
    · rw [Rotation.selections, Rotation.selections, List.mem_singleton] at member
      rw [chosen, member]
    · rw [Rotation.ticks, Rotation.ticks]
      omega
  · have even : ¬passes % 2 + 1 = 2 := fun odd => now (schedules.mpr odd)
    refine ⟨[], takes, fun node member => absurd member List.not_mem_nil, ?_⟩
    rw [Rotation.ticks]
    omega

theorem progress_turns {op : ClockOp} {before after : Known} {nodes : List Nat} {passes : Nat}
    (word : 2 < wordSize) (rated : Rated before.timers nodes last .taskSchedule 2 passes)
    (takes : TakesTurns rotation before.kernel) (progress : Progress image last op before after) :
    ∃ nodes' passes' events, Rated after.timers nodes' last .taskSchedule 2 passes' ∧
      passes' + after.underway.toNat = countInterrupt (passes + before.underway.toNat) op ∧
      Turned rotation after.kernel passes passes' events := by
  cases progress with
  | interrupt => exact ⟨nodes, passes, [], rated, rfl, turned_none takes passes⟩
  | onwards => exact ⟨nodes, passes, [], rated, rfl, turned_none takes passes⟩
  | through kernel tick =>
      dsimp only at rated takes ⊢
      obtain ⟨events, turned⟩ := turned_pass rated takes
      exact ⟨nodes, passes + 1, events, rated.tick word tick, rfl, turned⟩
  | registered kernel free =>
      obtain ⟨nodes', later⟩ := rated.step word free rfl
      exact ⟨nodes', passes, [], later, rfl, turned_none takes passes⟩
  | created timers call =>
      obtain ⟨-, arrived⟩ := thread_create_takes_turns takes call
      exact ⟨nodes, passes, [.arrive _], rated, rfl, arrived, nofun, Nat.zero_add _⟩

theorem turning_step {clock next : Clock} {op : ClockOp} {passes : Nat} {underway : Bool}
    (turning : Turning last rotation passes underway clock) (allowed : ClockAllowed clock op)
    (stepped : clockStep image clock op = some next) :
    ∃ passes' underway' events, Turning last (rotation.after events) passes' underway' next ∧
      passes' + underway'.toNat = countInterrupt (passes + underway.toNat) op ∧
      Turned rotation next.kernel passes passes' events := by
  obtain ⟨others, settled, nodes, sound, rated, takes⟩ := turning
  obtain ⟨others', settled', underway', later, progress⟩ := clock_step_sound sound allowed stepped
  obtain ⟨nodes', passes', events, rated', count, turned⟩ := progress_turns (by decide) rated takes progress
  exact ⟨passes', underway', events, ⟨others', settled', nodes', later, rated', turned.takes⟩, count,
    turned⟩

/-- A node is running at some moment of a run. -/
def RunsDuring (image : TaskImage) (clock : Clock) (ops : List ClockOp) (node : Node) : Prop :=
  ∃ front middle, front <+: ops ∧ runFrom (clockStep image) clock front = some middle ∧
    middle.kernel.currentTask = node

theorem runs_during_cons {clock next : Clock} {op : ClockOp} {ops : List ClockOp} {node : Node}
    (stepped : clockStep image clock op = some next) (during : RunsDuring image next ops node) :
    RunsDuring image clock (op :: ops) node := by
  obtain ⟨front, middle, inside, run, running⟩ := during
  refine ⟨op :: front, middle, List.cons_prefix_cons.mpr ⟨rfl, inside⟩, ?_, running⟩
  rw [runFrom, stepped, Option.bind_some, run]

theorem turning_run {ops : List ClockOp} {clock final : Clock} {passes : Nat} {underway : Bool}
    (turning : Turning last rotation passes underway clock)
    (permitted : Permitted (clockStep image) ClockAllowed clock ops)
    (run : runFrom (clockStep image) clock ops = some final) :
    ∃ passes' underway' events, Turning last (rotation.after events) passes' underway' final ∧
      passes' + underway'.toNat = passes + underway.toNat + interrupts ops ∧
      Rotation.ticks events + passes / 2 = passes' / 2 ∧
      ∀ node ∈ rotation.selections events, RunsDuring image clock ops node := by
  induction ops generalizing clock rotation passes underway with
  | nil =>
      rw [← Option.some.inj run]
      exact ⟨passes, underway, [], turning, rfl, Nat.zero_add _, nofun⟩
  | cons op rest induction =>
      obtain ⟨next, stepped, later⟩ := run_cons run
      obtain ⟨passes₁, underway₁, events₁, turning₁, count₁, turned⟩ :=
        turning_step turning permitted.1 stepped
      obtain ⟨passes', underway', events', turning', count', calls', selected'⟩ :=
        induction turning₁ (permitted.2 next stepped) later
      refine ⟨passes', underway', events₁ ++ events', ?_, ?_, ?_, ?_⟩
      · rw [Rotation.after_append]
        exact turning'
      · rw [count', count₁]
        have fold := fold_interrupts (passes + underway.toNat) (op :: rest)
        rw [List.foldl_cons, fold_interrupts] at fold
        exact fold
      · have first := turned.calls
        rw [Rotation.ticks_append]
        omega
      · intro node member
        rw [Rotation.selections_append] at member
        rcases List.mem_append.mp member with now | after
        · have running := turned.selected node now
          refine ⟨[op], next, List.cons_prefix_cons.mpr ⟨rfl, List.nil_prefix⟩, ?_, running⟩
          rw [runFrom, stepped]
          rfl
        · exact runs_during_cons stepped (selected' node after)

/-- The other tasks of the ring are those waiting for their turn, each once. -/
theorem waiting_in_ring {kernel : Kernel} (takes : TakesTurns rotation kernel) {members : List Node}
    (ring : NodeRing kernel.links (.head .tasks :: members)) :
    rotation.rest.length + 1 = members.length ∧
      ∀ node ∈ members, node = kernel.currentTask ∨ node ∈ rotation.rest := by
  obtain ⟨listed, scheduled⟩ := takes.scheduled
  have same : members = listed .tasks := ring.unique (scheduled.family.ring .tasks)
  have linked : ∀ node, node ∈ members ↔ node ∈ rotation.current :: rotation.rest := by
    intro node
    rw [List.mem_cons, takes.current, same]
    by_cases here : node = kernel.currentTask
    · exact iff_of_true (here ▸ scheduled.current) (Or.inl here)
    · rw [takes.rest_iff here, or_iff_right here]
      exact ⟨scheduled.in_ring, scheduled.mem_of_in_ring⟩
  have distinct : members.Nodup := (List.nodup_cons.mp ring.nodup).2
  constructor
  · exact ((List.perm_ext_iff_of_nodup distinct takes.distinct).mpr linked).length_eq.symm
  · intro node member
    have inside := List.mem_cons.mp ((linked node).mp member)
    rwa [takes.current] at inside

/-- From any moment on, while threads are created and timers registered and interrupts
come where they may, every thread of the ring runs before as many interrupts have come as
two for each thread and one more. -/
theorem every_thread_runs {memory : Nat → Timer Routine} {boot : Boot} {newTask : Nat}
    {start : Kernel} (init : initTask image newTask (bootKernel boot) = some start)
    (nonnull : last ≠ 0) (word : last < wordSize) {before later : List ClockOp}
    {middle final : Clock}
    (permitted : Permitted (clockStep image) ClockAllowed (startClock memory start last)
      (before ++ later))
    (reached : runFrom (clockStep image) (startClock memory start last) before = some middle)
    (run : runFrom (clockStep image) middle later = some final) {members : List Node}
    (ring : NodeRing middle.kernel.links (.head .tasks :: members))
    (long : 2 * members.length < interrupts later) {task : Node} (member : task ∈ members) :
    RunsDuring image middle later task := by
  obtain ⟨sound, rated⟩ := start_sound memory start nonnull word
  obtain ⟨early, onwards⟩ := permitted_append permitted
  have started : Turning last ⟨.task newTask, [], true⟩ 0 false (startClock memory start last) :=
    ⟨_, _, _, sound, rated, init_takes_turns init⟩
  obtain ⟨passes, underway, earlier, turning, -⟩ := turning_run started early reached
  obtain ⟨passes', underway', events, -, count, calls, selected⟩ :=
    turning_run turning (onwards middle reached) run
  obtain ⟨-, -, -, -, -, takes⟩ := turning
  generalize (Rotation.mk (Node.task newTask) [] true).after earlier = rotation at takes selected
  obtain ⟨current, rest, repeats⟩ := rotation
  obtain ⟨size, waits⟩ := waiting_in_ring takes ring
  rcases waits task member with here | waiting
  · exact ⟨[], middle, List.nil_prefix, rfl, here.symm⟩
  · obtain ⟨ahead, behind, rfl⟩ := List.append_of_mem waiting
    apply selected
    apply Rotation.selected_within
    -- the pass of the last interrupt may not be over, and the running task may be cached
    have pending := Bool.toNat_le underway'
    have cached := Bool.toNat_le repeats
    rw [List.length_append, List.length_cons] at size
    omega

end Steps

/-- Five interrupts, of which the fourth switches away in the middle of its loop. -/
def fiveInterrupts : List ClockOp :=
  (List.replicate 3 (.interrupt :: List.replicate 3 .turn)).flatten ++ [.interrupt, .turn, .interrupt]

theorem every_thread_runs_sample : ∃ start middle,
    initTask sampleImage 0xC1000000 (bootKernel sampleBoot) = some start ∧
      runFrom (clockStep sampleImage) (startClock (fun _ => emptyTimer) start 0xC1000200)
        [.threadCreate 0xC0102000 7 0xC1000100 0xC1004000] = some middle ∧
      RunsDuring sampleImage middle fiveInterrupts (.task 0xC1000100) := by
  have facts : ((initTask sampleImage 0xC1000000 (bootKernel sampleBoot)).bind fun start =>
      (runFrom (clockStep sampleImage) (startClock (fun _ => emptyTimer) start 0xC1000200)
        [.threadCreate 0xC0102000 7 0xC1000100 0xC1004000]).bind fun middle =>
          (runFrom (clockStep sampleImage) middle fiveInterrupts).map fun _ =>
            (decide (Permitted (clockStep sampleImage) ClockAllowed
              (startClock (fun _ => emptyTimer) start 0xC1000200)
              (.threadCreate 0xC0102000 7 0xC1000100 0xC1004000 :: fiveInterrupts)),
            decide (NodeRing middle.kernel.links
              [.head .tasks, .task 0xC1000100, .task 0xC1000000]))) =
      some (true, true) := by
    decide +kernel
  obtain ⟨start, init, rest⟩ := Option.bind_eq_some_iff.mp facts
  obtain ⟨middle, reached, rest⟩ := Option.bind_eq_some_iff.mp rest
  obtain ⟨final, run, both⟩ := Option.map_eq_some_iff.mp rest
  obtain ⟨permitted, ring⟩ := Prod.mk.inj both
  exact ⟨start, middle, init, reached, every_thread_runs init (by decide) (by decide)
    (of_decide_eq_true permitted) reached run (of_decide_eq_true ring) (by decide) (by simp)⟩

end ChaoOS.TimeSlices
