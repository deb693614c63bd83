import ChaoOS.TaskRings

/-!
# Sleeping and waking under the scheduler

A thread that blocks moves its own node to a waiting list before
`task_schedule` follows that node's links. When the node is also the one cached
in `_next_task`, the scheduler leaves the ring of `tasks`; in every other case
both scheduler pointers stay in it.
-/

namespace ChaoOS.BlockingSchedule

open ChaoOS.GuardedRun ChaoOS.KernelMath ChaoOS.LinkedRing ChaoOS.ListHead ChaoOS.TaskModel
  ChaoOS.TaskRings

set_option autoImplicit false

/-- No thread exits, and a thread falls asleep only while another task is the
cached one. -/
def SleepsApart (kernel : Kernel) (op : Op) : Prop :=
  (∀ pid, op ≠ .threadExit pid) ∧
    ∀ call ∈ triesCall kernel op, Blocks kernel call → kernel.nextTask ≠ kernel.currentTask

instance (kernel : Kernel) (op : Op) : Decidable (SleepsApart kernel op) :=
  have : Decidable (∀ pid, op ≠ .threadExit pid) :=
    match op with
    | .threadExit pid => isFalse fun never => never pid rfl
    | .threadCreate .. | .taskSchedule | .call _ | .resume | .mutexRelease _ =>
        isTrue fun _ => Op.noConfusion
  inferInstanceAs (Decidable (_ ∧ _))

variable {image : TaskImage} {kernel kernel' : Kernel} {members : Members}

theorem sleep_on_scheduled (scheduled : Scheduled kernel members) (ring : RingId)
    (apart : kernel.nextTask ≠ kernel.currentTask) :
    Scheduled (sleepOn ring kernel)
        (moveMember members .tasks ring kernel.currentTask (.head ring)) ∧
      (sleepOn ring kernel).currentTask = kernel.nextTask := by
  have running := scheduled.not_null scheduled.current
  have distinct : Node.head ring ≠ kernel.currentTask :=
    (scheduled.not_head scheduled.current ring).symm
  constructor
  · rw [sleepOn]
    apply task_schedule_scheduled
    · exact scheduled.move scheduled.current List.mem_cons_self distinct rfl rfl
    · exact running
    · apply (mem_move_member scheduled.family scheduled.current).mpr
      exact Or.inr ⟨apart, scheduled.next⟩
  · rw [sleepOn, task_schedule_eq (by exact running)]
    rfl

theorem wake_first_scheduled (scheduled : Scheduled kernel members) {ring : RingId}
    (waiting : ring ≠ .tasks) : ∃ members', Scheduled (wakeFirst ring kernel) members' := by
  rw [wakeFirst]
  split_ifs with some_waiting
  · have inside : kernel.links.next (.head ring) ∈ members ring := by
      have member := (scheduled.family.ring ring).next_mem List.mem_cons_self
      exact (List.mem_cons.mp member).resolve_left some_waiting
    have distinct : kernel.nextTask ≠ kernel.links.next (.head ring) := by
      intro same
      apply waiting
      exact scheduled.family.apart ring .tasks kernel.nextTask
        (List.mem_cons_of_mem _ (same ▸ inside)) (List.mem_cons_of_mem _ scheduled.next)
    have moved : ∀ node,
        node ∈ moveMember members ring .tasks (kernel.links.next (.head ring)) kernel.nextTask .tasks ↔
          node = kernel.links.next (.head ring) ∧ RingId.tasks = .tasks ∨
            node ≠ kernel.links.next (.head ring) ∧ node ∈ members .tasks :=
      fun node => mem_move_member scheduled.family inside
    refine ⟨moveMember members ring .tasks (kernel.links.next (.head ring)) kernel.nextTask,
      scheduled.move inside (List.mem_cons_of_mem _ scheduled.next) distinct rfl rfl,
      ?_, ?_⟩
    · apply (moved _).mpr
      by_cases same : kernel.currentTask = kernel.links.next (.head ring)
      · exact Or.inl ⟨same, rfl⟩
      · exact Or.inr ⟨same, scheduled.current⟩
    · exact (moved _).mpr (Or.inl ⟨rfl, rfl⟩)
  · exact ⟨members, scheduled⟩

theorem finish_call_scheduled (scheduled : Scheduled kernel members) (call : Call) :
    ∃ members', Scheduled (finishCall kernel call) members' := by
  cases call with
  | mutexAcquire lock => exact ⟨members, scheduled.set_lock lock _⟩
  | circularEnqueue ele queue =>
      rw [finishCall, enqueueElement]
      have waiting : RingId.consumer queue ≠ .tasks := RingId.noConfusion
      exact wake_first_scheduled ((scheduled.set_queue queue _).set_queue queue _) waiting
  | circularDequeue queue =>
      rw [finishCall, dequeueElement]
      have waiting : RingId.producer queue ≠ .tasks := RingId.noConfusion
      exact wake_first_scheduled ((scheduled.set_queue queue _).set_queue queue _) waiting

theorem attempt_scheduled (scheduled : Scheduled kernel members) (call : Call)
    (apart : Blocks kernel call → kernel.nextTask ≠ kernel.currentTask) :
    ∃ members', Scheduled (attempt call kernel) members' := by
  rw [attempt]
  split_ifs with blocks
  · have kept : Scheduled (setPending kernel (some call)) members :=
      scheduled.of_eq rfl rfl rfl rfl
    exact ⟨_, (sleep_on_scheduled kept call.waitsOn (apart blocks)).1⟩
  · have kept : Scheduled (setPending kernel none) members := scheduled.of_eq rfl rfl rfl rfl
    exact finish_call_scheduled kept call

theorem apart_step_scheduled {op : Op} (scheduled : Scheduled kernel members)
    (allowed : SleepsApart kernel op) (stepped : step image kernel op = some kernel') :
    ∃ members', Scheduled kernel' members' := by
  rcases step_cases stepped with ⟨-, same⟩ | ⟨call, tries, same⟩ |
    ⟨fn, arg, newTask, newStack, pid, -, created⟩ | ⟨lock, -, same⟩ | ⟨pid, exits, -⟩
  · subst same
    exact ⟨members, task_schedule_scheduled scheduled.toRings
      (scheduled.not_null scheduled.current) scheduled.next⟩
  · subst same
    exact attempt_scheduled scheduled call (allowed.2 call tries)
  · exact ⟨_, thread_create_scheduled scheduled created⟩
  · subst same
    obtain ⟨members', woken⟩ := wake_first_scheduled scheduled
      (show RingId.waitingList lock ≠ .tasks from RingId.noConfusion)
    exact ⟨members', woken.set_lock lock _⟩
  · exact absurd exits (allowed.1 pid)

/-- A thread that falls asleep hands the processor to the cached task. -/
theorem blocked_step_switches {op : Op} {call : Call} (scheduled : Scheduled kernel members)
    (allowed : SleepsApart kernel op) (tries : triesCall kernel op = some call)
    (blocks : Blocks kernel call) (stepped : step image kernel op = some kernel') :
    kernel'.currentTask = kernel.nextTask := by
  rcases step_cases stepped with ⟨other, -⟩ | ⟨tried, same, result⟩ |
    ⟨fn, arg, newTask, newStack, pid, other, -⟩ | ⟨lock, other, -⟩ | ⟨pid, other, -⟩
  case inr.inl =>
      have equal : tried = call := Option.some.inj (same.symm.trans tries)
      subst equal
      have kept : Scheduled (setPending kernel (some tried)) members :=
        scheduled.of_eq rfl rfl rfl rfl
      rw [result, attempt, if_pos blocks]
      exact (sleep_on_scheduled kept tried.waitsOn (allowed.2 tried tries blocks)).2
  all_goals
    subst other
    exact absurd tries (by simp [triesCall])

/-- Both scheduler pointers stay in the ring of `tasks` along every run in
which no thread falls asleep while it is itself the cached one. -/
theorem apart_run_stays_in_ring (image : TaskImage) (boot : Boot) {newTask : Nat} {ops : List Op}
    {start final : Kernel} (init : initTask image newTask (bootKernel boot) = some start)
    (permitted : Permitted (step image) SleepsApart start ops)
    (run : runFrom (step image) start ops = some final) :
    InTasksRing final final.nextTask ∧ InTasksRing final final.currentTask ∧
      ∀ op call after, SleepsApart final op → triesCall final op = some call →
        Blocks final call → step image final op = some after →
        after.currentTask ≠ final.currentTask ∧ InTasksRing after after.currentTask := by
  have initial : ∃ members, Scheduled start members := ⟨_, init_task_scheduled init⟩
  have preserved : ∀ kernel op next, (∃ members, Scheduled kernel members) →
      SleepsApart kernel op → step image kernel op = some next →
      ∃ members, Scheduled next members := by
    rintro kernel op next ⟨members, scheduled⟩ allowed stepped
    exact apart_step_scheduled scheduled allowed stepped
  obtain ⟨members, scheduled⟩ := run_invariant preserved initial permitted run
  refine ⟨scheduled.in_ring scheduled.next, scheduled.in_ring scheduled.current, ?_⟩
  intro op call after allowed tries blocks stepped
  have switched := blocked_step_switches scheduled allowed tries blocks stepped
  obtain ⟨members', kept⟩ := apart_step_scheduled scheduled allowed stepped
  refine ⟨?_, kept.in_ring kept.current⟩
  rw [switched]
  exact allowed.2 call tries blocks

/-! ## Two threads and one queue -/

/-- The first tick makes the new thread the cached one; then the first thread
sleeps on the empty queue, and is woken and goes on. -/
def sampleOps : List Op :=
  [sampleCreate, .taskSchedule, .call (.circularDequeue 0), .call (.circularEnqueue 5 0),
    .taskSchedule, .resume]

theorem apart_run_stays_in_ring_sample :
    ∃ start final, initTask sampleImage 0xC1000000 (bootKernel sampleBoot) = some start ∧
      Permitted (step sampleImage) SleepsApart start sampleOps ∧
      runFrom (step sampleImage) start sampleOps = some final ∧
      InTasksRing final final.nextTask := by
  have started : (initTask sampleImage 0xC1000000 (bootKernel sampleBoot)).isSome = true := by
    decide +kernel
  obtain ⟨start, init⟩ := Option.isSome_iff_exists.mp started
  have runs : ((initTask sampleImage 0xC1000000 (bootKernel sampleBoot)).map fun start =>
      decide (Permitted (step sampleImage) SleepsApart start sampleOps) &&
        (runFrom (step sampleImage) start sampleOps).isSome) = some true := by
    decide +kernel
  rw [init, Option.map_some, Option.some.injEq, Bool.and_eq_true, decide_eq_true_eq] at runs
  obtain ⟨permitted, ends⟩ := runs
  obtain ⟨final, run⟩ := Option.isSome_iff_exists.mp ends
  exact ⟨start, final, init, permitted, run,
    (apart_run_stays_in_ring sampleImage sampleBoot init permitted run).1⟩

/-- Before the first tick the running thread is the cached one. When it sleeps
then, the cached task becomes the head of the list it sleeps on, although
another task is in the ring. -/
theorem cached_thread_sleeps_off_ring :
    ∃ start final, initTask sampleImage 0xC1000000 (bootKernel sampleBoot) = some start ∧
      runFrom (step sampleImage) start [sampleCreate, .call (.circularDequeue 0)] = some final ∧
      final.links.next (.head .tasks) = .task 0xC1000100 ∧
      ¬InTasksRing final final.nextTask := by
  have facts : ((initTask sampleImage 0xC1000000 (bootKernel sampleBoot)).bind fun start =>
      (runFrom (step sampleImage) start [sampleCreate, .call (.circularDequeue 0)]).map fun final =>
        (final.links.next (.head .tasks), final.nextTask)) =
      some (.task 0xC1000100, .head (.consumer 0)) := by
    decide +kernel
  obtain ⟨start, init, rest⟩ := Option.bind_eq_some_iff.mp facts
  obtain ⟨final, run, values⟩ := Option.map_eq_some_iff.mp rest
  obtain ⟨linked, cached⟩ := Prod.mk.inj values
  refine ⟨start, final, init, run, linked, ?_⟩
  rintro ⟨⟨address, same⟩, -⟩
  rw [cached] at same
  exact Node.noConfusion same

end ChaoOS.BlockingSchedule
