import ChaoOS.RoundRobin
import ChaoOS.TaskRings

/-!
# The scheduler takes turns

Read from the running task on and without its head, the ring of `tasks` is the
queue of a round robin: `task_schedule` is a tick and `thread_create` an arrival
at the back. `_next_task` is the next turn, one step ahead of it.
-/

namespace ChaoOS.TaskFairness

open ChaoOS.GuardedRun ChaoOS.LinkedRing ChaoOS.ListHead ChaoOS.RoundRobin ChaoOS.TaskModel
  ChaoOS.TaskRings

set_option autoImplicit false

/-- The tasks among the nodes of a ring. -/
def turns (nodes : List Node) : List Node := nodes.filter (· ≠ .head .tasks)

structure TakesTurns (rotation : Rotation Node) (kernel : Kernel) : Prop where
  scheduled : ∃ members, Scheduled kernel members
  current : rotation.current = kernel.currentTask
  ring : ∃ nodes, NodeRing kernel.links (kernel.currentTask :: nodes) ∧ .head .tasks ∈ nodes ∧
    rotation.rest = turns nodes
  next : kernel.nextTask = rotation.next
  waiting : rotation.repeats = false → rotation.rest ≠ []

variable {image : TaskImage} {kernel kernel' : Kernel} {rotation : Rotation Node}

/-- Past the head, the successor of a task is the next one in the ring. -/
theorem next_task_turns {links : Links Node} {task : Node} {nodes : List Node}
    (ring : NodeRing links (task :: nodes)) (headed : .head .tasks ∈ nodes) :
    nextTaskOf links task = (turns nodes).headD task := by
  cases nodes with
  | nil => exact absurd headed List.not_mem_nil
  | cons second nodes =>
      have forward : links.next task = second := ring.next_eq
      rw [nextTaskOf, forward]
      by_cases head : second = .head .tasks
      · subst head
        rw [if_pos rfl]
        cases nodes with
        | nil =>
            have turned := ring.rotate_one
            rw [turned.next_eq]
            simp [turns]
        | cons third nodes =>
            have turned : NodeRing links (.head .tasks :: third :: (nodes ++ [task])) :=
              ring.rotate_one
            have distinct : third ≠ .head .tasks := by
              intro same
              exact (List.nodup_cons.mp turned.nodup).1 (same ▸ List.mem_cons_self)
            rw [turned.next_eq]
            simp [turns, distinct]
      · rw [if_neg head]
        simp [turns, head]

theorem turns_nodup {nodes : List Node} (distinct : nodes.Nodup) : (turns nodes).Nodup :=
  distinct.filter _

/-- The other tasks of the ring are those waiting for their turn. -/
theorem TakesTurns.rest_iff (takes : TakesTurns rotation kernel) {node : Node}
    (other : node ≠ kernel.currentTask) : node ∈ rotation.rest ↔ InTasksRing kernel node := by
  obtain ⟨members, scheduled⟩ := takes.scheduled
  obtain ⟨nodes, ring, headed, rest⟩ := takes.ring
  -- both ways of reading the ring have the same nodes
  obtain ⟨others, turned, same⟩ := (scheduled.family.ring .tasks).turn_to
    (List.mem_cons_of_mem _ scheduled.current)
  have listed : nodes = others := ring.unique turned
  rw [rest, turns, List.mem_filter, decide_eq_true_eq]
  constructor
  · rintro ⟨member, notHead⟩
    have inside := (same node).mpr (List.mem_cons_of_mem _ (listed ▸ member))
    exact scheduled.in_ring ((List.mem_cons.mp inside).resolve_left notHead)
  · intro linked
    have member := scheduled.mem_of_in_ring linked
    have inside := (same node).mp (List.mem_cons_of_mem _ member)
    rw [listed]
    exact ⟨(List.mem_cons.mp inside).resolve_left other, scheduled.not_head member _⟩

theorem TakesTurns.distinct (takes : TakesTurns rotation kernel) :
    (rotation.current :: rotation.rest).Nodup := by
  obtain ⟨nodes, ring, -, rest⟩ := takes.ring
  have split := List.nodup_cons.mp ring.nodup
  rw [takes.current, rest]
  exact List.nodup_cons.mpr ⟨fun member => split.1 (List.mem_of_mem_filter member),
    turns_nodup split.2⟩

/-! ## Ticks and arrivals -/

theorem init_takes_turns {boot : Boot} {newTask : Nat}
    (init : initTask image newTask (bootKernel boot) = some kernel) :
    TakesTurns ⟨.task newTask, [], true⟩ kernel := by
  obtain ⟨-, -, -, -, -, current, next, -⟩ := init_task_cases init
  have scheduled := init_task_scheduled init
  constructor
  case scheduled => exact ⟨_, scheduled⟩
  case current => exact current.symm
  case ring =>
      have ring := (scheduled.family.ring .tasks).rotate_one
      rw [initialMembers, Function.update_self] at ring
      rw [current]
      exact ⟨[.head .tasks], ring, by simp, by simp [turns]⟩
  case next => exact next
  case waiting => exact fun impossible => Bool.noConfusion impossible

theorem thread_create_takes_turns (takes : TakesTurns rotation kernel)
    {fn arg newTask newStack pid : Nat}
    (call : threadCreate image fn arg newTask newStack kernel = some (pid, kernel')) :
    .task newTask ∉ rotation.current :: rotation.rest ∧
      TakesTurns (rotation.arrive (.task newTask)) kernel' := by
  obtain ⟨members, scheduled⟩ := takes.scheduled
  obtain ⟨nodes, ring, headed, rest⟩ := takes.ring
  obtain ⟨answer, -, -, -, links, -, -, current, next, -⟩ := thread_create_cases call
  have fresh := scheduled.fresh answer.2.2.2 .tasks
  obtain ⟨others, turned, same⟩ := (scheduled.family.ring .tasks).turn_to
    (List.mem_cons_of_mem _ scheduled.current)
  have outside : Node.task newTask ∉ kernel.currentTask :: nodes := by
    rw [ring.unique turned]
    exact fun member => fresh ((same _).mpr member)
  have joined : NodeRing kernel'.links (kernel.currentTask :: (nodes ++ [.task newTask])) := by
    rw [links]
    apply ring.insert outside
    apply list_add_tail_inserted
    · exact fun equal => outside (equal ▸ List.mem_cons_self)
    · exact fun equal => outside (equal ▸ ring.prev_mem List.mem_cons_self)
  constructor
  · rw [takes.current, rest]
    intro member
    apply outside
    exact (List.mem_cons.mp member).elim (fun here => here ▸ List.mem_cons_self)
      fun later => List.mem_cons_of_mem _ (List.mem_of_mem_filter later)
  · constructor
    case scheduled => exact ⟨_, thread_create_scheduled scheduled call⟩
    case current => exact takes.current.trans current.symm
    case ring =>
        rw [current]
        refine ⟨nodes ++ [.task newTask], joined, List.mem_append_left _ headed, ?_⟩
        simp [Rotation.arrive, turns, rest]
    case next =>
        rw [next, takes.next, Rotation.next, Rotation.next, Rotation.arrive]
        cases repeats : rotation.repeats with
        | true => rfl
        | false =>
            have waiting := takes.waiting repeats
            cases queue : rotation.rest with
            | nil => exact absurd queue waiting
            | cons first queue => rfl
    case waiting => simp [Rotation.arrive]

/-- The ring as the next task sees it, with the running task at the back. -/
theorem turn_ring {links : Links Node} {task first : Node} {nodes rest : List Node}
    (ring : NodeRing links (task :: nodes)) (headed : .head .tasks ∈ nodes)
    (waiting : turns nodes = first :: rest) (isTask : task ≠ .head .tasks) :
    ∃ others, NodeRing links (first :: others) ∧ .head .tasks ∈ others ∧
      turns others = rest ++ [task] := by
  obtain ⟨front, back, split, skipped, notHead, tail⟩ := List.filter_eq_cons_iff.mp waiting
  have passed : turns front = [] := List.filter_eq_nil_iff.mpr skipped
  have firstTask : first ≠ .head .tasks := by simpa using notHead
  rw [split] at ring headed
  have cut : NodeRing links ((task :: front) ++ first :: back) := ring
  refine ⟨back ++ task :: front, cut.rotate, ?_, ?_⟩
  · simp only [List.mem_append, List.mem_cons] at headed ⊢
    rcases headed with before | here | after
    · exact Or.inr (Or.inr before)
    · exact absurd here.symm firstTask
    · exact Or.inl after
  · have ending : turns (task :: front) = [task] := by
      rw [turns, List.filter_cons_of_pos (by simpa using isTask)]
      exact congrArg (task :: ·) passed
    have whole : turns (back ++ task :: front) = turns back ++ turns (task :: front) :=
      List.filter_append ..
    rw [whole, ending]
    exact congrArg (· ++ [task]) tail

theorem task_schedule_takes_turns (takes : TakesTurns rotation kernel) :
    TakesTurns rotation.tick (taskSchedule kernel) ∧
      (taskSchedule kernel).currentTask = rotation.next := by
  obtain ⟨members, scheduled⟩ := takes.scheduled
  obtain ⟨nodes, ring, headed, rest⟩ := takes.ring
  have running := scheduled.not_null scheduled.current
  have kept := task_schedule_scheduled scheduled.toRings running scheduled.next
  rw [task_schedule_eq running] at kept ⊢
  have cached := takes.next
  refine ⟨?_, cached⟩
  obtain ⟨current, queue, repeats⟩ := rotation
  have currentEq : current = kernel.currentTask := takes.current
  have queueEq : queue = turns nodes := rest
  subst currentEq
  subst queueEq
  by_cases stays : repeats = true
  · -- the running task ran alone when it was cached
    subst stays
    have same : kernel.nextTask = kernel.currentTask := cached
    have ticked : (Rotation.mk kernel.currentTask (turns nodes) true).tick =
        ⟨kernel.currentTask, turns nodes, (turns nodes).isEmpty⟩ := rfl
    rw [ticked]
    constructor
    case scheduled => exact ⟨members, kept⟩
    case current => exact same.symm
    case ring =>
        rw [same]
        exact ⟨nodes, ring, headed, rfl⟩
    case next =>
        change nextTaskOf kernel.links kernel.nextTask = _
        rw [same, next_task_turns ring headed, Rotation.next]
        cases turns nodes with
        | nil => rfl
        | cons first others => rfl
    case waiting => simp
  · have moves : repeats = false := by simpa using stays
    subst moves
    have waiting : turns nodes ≠ [] := takes.waiting rfl
    cases queue : turns nodes with
    | nil => exact absurd queue waiting
    | cons first others =>
        have isTask := scheduled.not_head scheduled.current .tasks
        obtain ⟨after, turned, stillHeaded, order⟩ := turn_ring ring headed queue isTask
        have chosen : kernel.nextTask = first := by
          rw [cached, queue]
          rfl
        have ticked : (Rotation.mk kernel.currentTask (first :: others) false).tick =
            ⟨first, others ++ [kernel.currentTask], false⟩ := rfl
        rw [ticked]
        constructor
        case scheduled => exact ⟨members, kept⟩
        case current => exact chosen.symm
        case ring =>
            rw [chosen]
            exact ⟨after, turned, stillHeaded, order.symm⟩
        case next =>
            change nextTaskOf kernel.links kernel.nextTask = _
            rw [chosen, next_task_turns turned stillHeaded, order]
            cases others with
            | nil => rfl
            | cons second others => rfl
        case waiting => simp

/-! ## Whole runs -/

/-- Threads are created and scheduled, and do nothing else. -/
def OnlySchedules : Op → Prop
  | .threadCreate .. => True
  | .taskSchedule => True
  | _ => False

/-- The tasks that the `task_schedule` calls of a run select. -/
def selections (image : TaskImage) : Kernel → List Op → List Node
  | _, [] => []
  | kernel, op :: ops =>
      match step image kernel op with
      | none => []
      | some next =>
          if op = .taskSchedule then next.currentTask :: selections image next ops
          else selections image next ops

def eventOf : Op → Event Node
  | .threadCreate _ _ newTask _ => .arrive (.task newTask)
  | _ => .tick

/-- A run of the scheduler is a run of the round robin, with the same selections. -/
theorem run_takes_turns {ops : List Op} (only : ∀ op ∈ ops, OnlySchedules op)
    (takes : TakesTurns rotation kernel) (run : runFrom (step image) kernel ops = some kernel') :
    TakesTurns (rotation.after (ops.map eventOf)) kernel' ∧
      selections image kernel ops = rotation.selections (ops.map eventOf) ∧
      rotation.FreshArrivals (ops.map eventOf) := by
  induction ops generalizing kernel rotation with
  | nil =>
      have same : kernel = kernel' := Option.some.inj run
      rw [← same]
      exact ⟨takes, rfl, trivial⟩
  | cons op ops induction =>
      obtain ⟨next, first, rest⟩ := run_cons run
      have remaining : ∀ op ∈ ops, OnlySchedules op := fun other member =>
        only other (List.mem_cons_of_mem _ member)
      have own := only op List.mem_cons_self
      cases op with
      | threadCreate fn arg newTask newStack =>
          obtain ⟨pid, created⟩ := thread_create_step first
          obtain ⟨fresh, arrived⟩ := thread_create_takes_turns takes created
          obtain ⟨ends, same, arrivals⟩ := induction remaining arrived rest
          refine ⟨ends, ?_, fresh, arrivals⟩
          rw [selections, first]
          exact same
      | taskSchedule =>
          have moved : taskSchedule kernel = next := Option.some.inj first
          obtain ⟨ticked, chosen⟩ := task_schedule_takes_turns takes
          rw [moved] at ticked chosen
          obtain ⟨ends, same, arrivals⟩ := induction remaining ticked rest
          refine ⟨ends, ?_, arrivals⟩
          rw [selections, first]
          change next.currentTask :: selections image next ops = _
          rw [chosen, same]
          rfl
      | threadExit pid => exact absurd own id
      | call call => exact absurd own id
      | resume => exact absurd own id
      | mutexRelease lock => exact absurd own id

/-- Between two consecutive selections of a task, every other task that was in
the ring at the first of them is selected exactly once. -/
theorem every_other_task_once (image : TaskImage) (boot : Boot) {newTask : Nat}
    {before middle : List Op} {start waiting first last final : Kernel}
    (init : initTask image newTask (bootKernel boot) = some start)
    (only : ∀ op ∈ before ++ middle, OnlySchedules op)
    (reached : runFrom (step image) start before = some waiting)
    (selected : step image waiting .taskSchedule = some first)
    (passed : runFrom (step image) first middle = some last)
    (again : step image last .taskSchedule = some final)
    (same : final.currentTask = first.currentTask)
    (between : first.currentTask ∉ selections image first middle) (node : Node)
    (linked : InTasksRing first node) (other : node ≠ first.currentTask) :
    (selections image first middle).count node = 1 := by
  obtain ⟨waitingTurns, -, -⟩ := run_takes_turns
    (fun op member => only op (List.mem_append_left _ member)) (init_takes_turns init) reached
  have firstEq : taskSchedule waiting = first := Option.some.inj selected
  have finalEq : taskSchedule last = final := Option.some.inj again
  obtain ⟨firstTurns, -⟩ := task_schedule_takes_turns waitingTurns
  rw [firstEq] at firstTurns
  obtain ⟨lastTurns, selectedSame, arrivals⟩ := run_takes_turns
    (fun op member => only op (List.mem_append_right _ member)) firstTurns passed
  obtain ⟨-, chosen⟩ := task_schedule_takes_turns lastTurns
  rw [finalEq, same, ← firstTurns.current] at chosen
  rw [selectedSame, ← firstTurns.current] at between
  rw [selectedSame]
  exact Rotation.selected_once firstTurns.distinct (Rotation.tick_settled _) arrivals between
    chosen.symm ((firstTurns.rest_iff other).mpr linked)

theorem every_other_task_once_sample :
    ∃ start waiting first last final,
      initTask sampleImage 0xC1000000 (bootKernel sampleBoot) = some start ∧
      runFrom (step sampleImage) start [sampleCreate] = some waiting ∧
      step sampleImage waiting .taskSchedule = some first ∧
      runFrom (step sampleImage) first [.taskSchedule] = some last ∧
      step sampleImage last .taskSchedule = some final ∧
      final.currentTask = first.currentTask ∧
      (selections sampleImage first [.taskSchedule]).count (.task 0xC1000100) = 1 := by
  have facts : ((initTask sampleImage 0xC1000000 (bootKernel sampleBoot)).bind fun start =>
      (runFrom (step sampleImage) start [sampleCreate]).bind fun waiting =>
        (step sampleImage waiting .taskSchedule).bind fun first =>
          (runFrom (step sampleImage) first [.taskSchedule]).bind fun last =>
            (step sampleImage last .taskSchedule).map fun final =>
              (final.currentTask, first.currentTask,
                selections sampleImage first [.taskSchedule])) =
      some (.task 0xC1000000, .task 0xC1000000, [.task 0xC1000100]) := by
    decide +kernel
  obtain ⟨start, init, rest⟩ := Option.bind_eq_some_iff.mp facts
  obtain ⟨waiting, reached, rest⟩ := Option.bind_eq_some_iff.mp rest
  obtain ⟨first, selected, rest⟩ := Option.bind_eq_some_iff.mp rest
  obtain ⟨last, passed, rest⟩ := Option.bind_eq_some_iff.mp rest
  obtain ⟨final, again, values⟩ := Option.map_eq_some_iff.mp rest
  rw [Prod.mk.injEq, Prod.mk.injEq] at values
  obtain ⟨finalCurrent, firstCurrent, chosen⟩ := values
  obtain ⟨pid, created⟩ : ∃ pid, threadCreate sampleImage 0xC0102000 7 0xC1000100 0xC1004000 start =
      some (pid, waiting) := by
    obtain ⟨next, stepped, ends⟩ := run_cons reached
    rw [← Option.some.inj ends]
    exact thread_create_step stepped
  have scheduled := thread_create_scheduled (init_task_scheduled init) created
  have running := scheduled.not_null scheduled.current
  have moved : taskSchedule waiting = first := Option.some.inj selected
  have settled := task_schedule_scheduled scheduled.toRings running scheduled.next
  rw [moved] at settled
  have linked : InTasksRing first (.task 0xC1000100) := by
    apply settled.in_ring
    rw [Function.update_self, mem_insert_before]
    exact Or.inl rfl
  have same : final.currentTask = first.currentTask := finalCurrent.trans firstCurrent.symm
  refine ⟨start, waiting, first, last, final, init, reached, selected, passed, again, same, ?_⟩
  apply every_other_task_once sampleImage sampleBoot init _ reached selected passed again same _ _
    linked
  · rw [firstCurrent]
    decide
  · intro op member
    have either : op = sampleCreate ∨ op = .taskSchedule := by simpa using member
    rcases either with creation | tick
    · rw [creation]
      trivial
    · rw [tick]
      trivial
  · rw [chosen, firstCurrent]
    decide

end ChaoOS.TaskFairness
