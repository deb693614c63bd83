import ChaoOS.TaskModel

/-!
# The rings that tasks are linked in

Every list head of the kernel closes a ring, the rings are disjoint, and each
member of one is the `list_head` of an allocated task struct. Each operation
keeps this, as long as the two scheduler pointers it follows lie in the ring of
`tasks`.
-/

namespace ChaoOS.TaskRings

open ChaoOS.HashMapModel ChaoOS.KernelMath ChaoOS.LinkedRing ChaoOS.ListHead ChaoOS.TaskModel
open ChaoOS.PageDirectory (pageOffset)

set_option autoImplicit false

abbrev Members := RingId → List Node

structure Rings (kernel : Kernel) (members : Members) : Prop where
  family : RingFamily kernel.links Node.head members
  allocated : ∀ ring node, node ∈ members ring →
    ∃ address, node = .task address ∧ Allocated kernel.heap address

/-- Both scheduler pointers are tasks in the ring. -/
structure Scheduled (kernel : Kernel) (members : Members) : Prop extends Rings kernel members where
  current : kernel.currentTask ∈ members .tasks
  next : kernel.nextTask ∈ members .tasks

/-- A task whose `list_head` is linked in the ring of `tasks`. -/
def InTasksRing (kernel : Kernel) (node : Node) : Prop :=
  (∃ address, node = .task address) ∧
    ∃ members, NodeRing kernel.links (.head .tasks :: members) ∧ node ∈ members

variable {image : TaskImage} {kernel kernel' : Kernel} {members : Members}

theorem Rings.of_eq (rings : Rings kernel members) (links : kernel'.links = kernel.links)
    (heap : kernel'.heap = kernel.heap) : Rings kernel' members := by
  constructor
  case family =>
      rw [links]
      exact rings.family
  case allocated =>
      rw [heap]
      exact rings.allocated

theorem Rings.not_head (rings : Rings kernel members) {ring : RingId} {node : Node}
    (member : node ∈ members ring) (other : RingId) : node ≠ .head other := by
  obtain ⟨address, same, -⟩ := rings.allocated ring node member
  rw [same]
  exact Node.noConfusion

theorem Rings.not_null (rings : Rings kernel members) {ring : RingId} {node : Node}
    (member : node ∈ members ring) : node ≠ .null := by
  obtain ⟨address, same, -⟩ := rings.allocated ring node member
  rw [same]
  exact Node.noConfusion

/-- A struct that is not allocated is linked nowhere. -/
theorem Rings.fresh (rings : Rings kernel members) {address : Nat}
    (free : ¬Allocated kernel.heap address) (ring : RingId) :
    Node.task address ∉ Node.head ring :: members ring := by
  intro member
  rcases List.mem_cons.mp member with head | inside
  · exact Node.noConfusion head
  · obtain ⟨other, same, held⟩ := rings.allocated ring _ inside
    exact free (Node.task.inj same ▸ held)

theorem Scheduled.in_ring (scheduled : Scheduled kernel members) {node : Node}
    (member : node ∈ members .tasks) : InTasksRing kernel node := by
  obtain ⟨address, same, -⟩ := scheduled.allocated .tasks node member
  exact ⟨⟨address, same⟩, members .tasks, scheduled.family.ring .tasks, member⟩

theorem Rings.mem_of_in_ring (rings : Rings kernel members) {node : Node}
    (linked : InTasksRing kernel node) : node ∈ members .tasks := by
  obtain ⟨-, listed, ring, member⟩ := linked
  rw [(rings.family.ring .tasks).unique ring]
  exact member

theorem Scheduled.of_eq (scheduled : Scheduled kernel members)
    (links : kernel'.links = kernel.links) (heap : kernel'.heap = kernel.heap)
    (current : kernel'.currentTask = kernel.currentTask)
    (next : kernel'.nextTask = kernel.nextTask) : Scheduled kernel' members := by
  refine ⟨scheduled.toRings.of_eq links heap, ?_, ?_⟩
  · rw [current]
    exact scheduled.current
  · rw [next]
    exact scheduled.next

theorem Scheduled.set_lock (scheduled : Scheduled kernel members) (lock : Nat) (mutex : Mutex) :
    Scheduled (setLock kernel lock mutex) members :=
  scheduled.of_eq rfl rfl rfl rfl

theorem Scheduled.set_queue (scheduled : Scheduled kernel members) (queue : Nat)
    (contents : CircularQueue) : Scheduled (setQueue kernel queue contents) members :=
  scheduled.of_eq rfl rfl rfl rfl

/-- Moving a task to another ring keeps every ring. -/
theorem Rings.move (rings : Rings kernel members) {index target : RingId} {entry right : Node}
    (inside : entry ∈ members index) (place : right ∈ Node.head target :: members target)
    (distinct : right ≠ entry)
    (links : kernel'.links = listMoveToTail .null kernel.links entry right)
    (heap : kernel'.heap = kernel.heap) :
    Rings kernel' (moveMember members index target entry right) := by
  constructor
  case family =>
      rw [links]
      exact list_move_to_tail_family rings.family inside place distinct
  case allocated =>
      intro ring node member
      rw [heap]
      rcases (mem_move_member rings.family inside).mp member with ⟨moved, -⟩ | ⟨-, stayed⟩
      · exact rings.allocated index node (moved ▸ inside)
      · exact rings.allocated ring node stayed

/-! ## Scheduling -/

/-- `next_task` stays in the ring: it skips the head. -/
theorem Rings.next_task_mem (rings : Rings kernel members) {task : Node}
    (member : task ∈ members .tasks) : nextTaskOf kernel.links task ∈ members .tasks := by
  have ring := rings.family.ring .tasks
  have step := ring.next_mem (List.mem_cons_of_mem _ member)
  rw [nextTaskOf]
  split_ifs with head
  · rw [head]
    cases listed : members .tasks with
    | nil => simp [listed] at member
    | cons first rest =>
        rw [listed] at ring
        rw [ring.next_eq]
        exact List.mem_cons_self
  · exact (List.mem_cons.mp step).resolve_left head

/-- `task_schedule` runs the cached task and caches the one after it. -/
theorem task_schedule_eq (running : kernel.currentTask ≠ .null) :
    taskSchedule kernel =
      { kernel with
        currentTask := kernel.nextTask
        nextTask := nextTaskOf kernel.links kernel.nextTask } := by
  rw [taskSchedule, if_neg running]
  by_cases same : kernel.nextTask = kernel.currentTask
  · simp [same]
  · simp [same]

theorem task_schedule_scheduled (rings : Rings kernel members)
    (running : kernel.currentTask ≠ .null) (next : kernel.nextTask ∈ members .tasks) :
    Scheduled (taskSchedule kernel) members := by
  rw [task_schedule_eq running]
  exact ⟨rings.of_eq rfl rfl, next, rings.next_task_mem next⟩

/-! ## Creating a thread -/

/-- What `thread_create` leaves when it returns. -/
theorem thread_create_cases {fn arg newTask newStack pid : Nat}
    (call : threadCreate image fn arg newTask newStack kernel = some (pid, kernel')) :
    Answer image kernel.heap newTask ∧ Answer image (.kmalloc newTask :: kernel.heap) newStack ∧
      pid = kernel.currentPid ∧
      mapInsert kernel.currentPid newTask kernel.tasksMap = some kernel'.tasksMap ∧
      kernel'.links = listAddTail kernel.links (.task newTask) kernel.currentTask ∧
      kernel'.heap = .kmalloc newStack :: .kmalloc newTask :: kernel.heap ∧
      kernel'.currentPid = add32 kernel.currentPid 1 ∧
      kernel'.currentTask = kernel.currentTask ∧ kernel'.nextTask = kernel.nextTask ∧
      kernel'.pending = kernel.pending ∧
      (kernel'.task (.task newTask)).pid = kernel.currentPid ∧
      (kernel'.task (.task newTask)).stack = newStack ∧
      (kernel'.task (.task newTask)).pageDir = sub32 image.pgdK pageOffset ∧
      ∀ node, node ≠ .task newTask → kernel'.task node = kernel.task node := by
  rw [threadCreate] at call
  split_ifs at call with answers
  obtain ⟨tasksMap, inserted, result⟩ := Option.map_eq_some_iff.mp call
  obtain ⟨samePid, sameKernel⟩ := Prod.mk.inj result
  subst sameKernel
  refine ⟨answers.1, answers.2, samePid.symm, inserted, rfl, rfl, rfl, rfl, rfl, rfl, ?_, ?_, ?_,
    ?_⟩
  · simp [setTask]
  · simp [setTask]
  · simp [setTask]
  · intro node other
    simp [setTask, other]

theorem thread_create_rings (rings : Rings kernel members)
    (current : kernel.currentTask ∈ members .tasks) {fn arg newTask newStack pid : Nat}
    (call : threadCreate image fn arg newTask newStack kernel = some (pid, kernel')) :
    Rings kernel' (Function.update members .tasks
      (insertBefore kernel.currentTask (.task newTask) (members .tasks))) := by
  obtain ⟨answer, -, -, -, links, heap, -⟩ := thread_create_cases call
  have free := answer.2.2.2
  constructor
  case family =>
      rw [links]
      exact list_add_tail_family rings.family (List.mem_cons_of_mem _ current) (rings.fresh free)
  case allocated =>
      intro ring node member
      rw [heap]
      by_cases tasks : ring = .tasks
      · subst tasks
        rw [Function.update_self, mem_insert_before] at member
        rcases member with new | old
        · exact ⟨newTask, new, Or.inr (Or.inl rfl)⟩
        · obtain ⟨address, same, held⟩ := rings.allocated _ node old
          exact ⟨address, same, Or.inr (Or.inr held)⟩
      · rw [Function.update_of_ne tasks] at member
        obtain ⟨address, same, held⟩ := rings.allocated ring node member
        exact ⟨address, same, Or.inr (Or.inr held)⟩

theorem thread_create_scheduled (scheduled : Scheduled kernel members)
    {fn arg newTask newStack pid : Nat}
    (call : threadCreate image fn arg newTask newStack kernel = some (pid, kernel')) :
    Scheduled kernel' (Function.update members .tasks
      (insertBefore kernel.currentTask (.task newTask) (members .tasks))) := by
  obtain ⟨-, -, -, -, -, -, -, current, next, -⟩ := thread_create_cases call
  refine ⟨thread_create_rings scheduled.toRings scheduled.current call, ?_, ?_⟩
  · rw [current, Function.update_self, mem_insert_before]
    exact Or.inr scheduled.current
  · rw [next, Function.update_self, mem_insert_before]
    exact Or.inr scheduled.next

/-! ## The state `init_task` leaves -/

section Init

variable {boot : Boot}

theorem boot_family : RingFamily (bootKernel boot).links Node.head
    (fun _ => []) := by
  constructor
  case ring =>
      intro ring
      refine ⟨by simp, ?_⟩
      change List.IsChain _ [Node.head ring, Node.head ring]
      rw [List.isChain_pair]
      exact ⟨rfl, rfl⟩
  case apart =>
      intro ring other node here there
      rw [List.mem_singleton] at here there
      exact Node.head.inj (here.symm.trans there)

def initialMembers (newTask : Nat) : Members :=
  Function.update (fun _ => []) .tasks [.task newTask]

/-- What `init_task` leaves when it returns. -/
theorem init_task_cases {newTask : Nat}
    (call : initTask image newTask (bootKernel boot) = some kernel) :
    Answer image [] newTask ∧ mapInsert 0 newTask mapInit = some kernel.tasksMap ∧
      kernel.links = listAddTail (bootKernel boot).links (.task newTask)
        (.head .tasks) ∧
      kernel.heap = [.kmalloc newTask] ∧ kernel.currentPid = 1 ∧
      kernel.currentTask = .task newTask ∧ kernel.nextTask = .task newTask ∧
      (∀ node, kernel.pending node = none) ∧
      (kernel.task (.task newTask)).pid = 0 ∧
      (kernel.task (.task newTask)).stack = image.kernelStack ∧
      (kernel.task (.task newTask)).pageDir = sub32 image.pgdK pageOffset := by
  rw [initTask] at call
  split_ifs at call with answer
  obtain ⟨tasksMap, inserted, result⟩ := Option.map_eq_some_iff.mp call
  subst result
  refine ⟨answer, inserted, rfl, rfl, rfl, rfl, rfl, fun _ => rfl, ?_, ?_, ?_⟩
  · simp [setTask]
  · simp [setTask]
  · simp [setTask]

theorem init_task_scheduled {newTask : Nat}
    (call : initTask image newTask (bootKernel boot) = some kernel) :
    Scheduled kernel (initialMembers newTask) := by
  obtain ⟨-, -, links, heap, -, current, next, -⟩ := init_task_cases call
  have fresh : ∀ ring, Node.task newTask ∉ [Node.head ring] := by simp
  have family : RingFamily (listAddTail (bootKernel boot).links (.task newTask) (.head .tasks))
      Node.head (initialMembers newTask) :=
    list_add_tail_family boot_family List.mem_cons_self fresh
  constructor
  case toRings =>
      constructor
      case family =>
          rw [links]
          exact family
      case allocated =>
          intro ring node member
          rw [heap]
          by_cases tasks : ring = .tasks
          · subst tasks
            rw [initialMembers, Function.update_self, List.mem_singleton] at member
            exact ⟨newTask, member, Or.inl rfl⟩
          · simp [initialMembers, tasks] at member
  case current => simp [current, initialMembers]
  case next => simp [next, initialMembers]

end Init

/-! ## Operations -/

/-- The call whose waiting loop an operation enters or goes on with. -/
def triesCall (kernel : Kernel) : Op → Option Call
  | .call call => some call
  | .resume => kernel.pending kernel.currentTask
  | _ => none

theorem thread_create_step {fn arg newTask newStack : Nat}
    (stepped : step image kernel (.threadCreate fn arg newTask newStack) = some kernel') :
    ∃ pid, threadCreate image fn arg newTask newStack kernel = some (pid, kernel') := by
  cases busy : kernel.pending kernel.currentTask with
  | some call => simp [step, busy] at stepped
  | none =>
      simp only [step, busy] at stepped
      obtain ⟨⟨pid, after⟩, created, same⟩ := Option.map_eq_some_iff.mp stepped
      subst same
      exact ⟨pid, created⟩

/-- What an operation can do. -/
theorem step_cases {op : Op} (stepped : step image kernel op = some kernel') :
    (op = .taskSchedule ∧ kernel' = taskSchedule kernel) ∨
      (∃ call, triesCall kernel op = some call ∧ kernel' = attempt call kernel) ∨
      (∃ fn arg newTask newStack pid, op = .threadCreate fn arg newTask newStack ∧
        threadCreate image fn arg newTask newStack kernel = some (pid, kernel')) ∨
      (∃ lock, op = .mutexRelease lock ∧ kernel' = mutexRelease lock kernel) ∨
      (∃ pid, op = .threadExit pid ∧ threadExit pid kernel = some kernel') := by
  cases op with
  | taskSchedule => exact Or.inl ⟨rfl, (Option.some.inj stepped).symm⟩
  | threadCreate fn arg newTask newStack =>
      obtain ⟨pid, created⟩ := thread_create_step stepped
      exact Or.inr (Or.inr (Or.inl ⟨fn, arg, newTask, newStack, pid, rfl, created⟩))
  | threadExit pid =>
      cases busy : kernel.pending kernel.currentTask with
      | some call => simp [step, busy] at stepped
      | none =>
          simp only [step, busy] at stepped
          exact Or.inr (Or.inr (Or.inr (Or.inr ⟨pid, rfl, stepped⟩)))
  | call call =>
      cases busy : kernel.pending kernel.currentTask with
      | some call => simp [step, busy] at stepped
      | none =>
          simp only [step, busy] at stepped
          exact Or.inr (Or.inl ⟨call, rfl, (Option.some.inj stepped).symm⟩)
  | resume =>
      cases busy : kernel.pending kernel.currentTask with
      | none => simp [step, busy] at stepped
      | some call =>
          simp only [step, busy] at stepped
          exact Or.inr (Or.inl ⟨call, busy, (Option.some.inj stepped).symm⟩)
  | mutexRelease lock =>
      cases busy : kernel.pending kernel.currentTask with
      | some call => simp [step, busy] at stepped
      | none =>
          simp only [step, busy] at stepped
          exact Or.inr (Or.inr (Or.inr (Or.inl ⟨lock, rfl, (Option.some.inj stepped).symm⟩)))

/-! ## A machine with one new thread -/

def sampleImage : TaskImage where
  kernelStack := 0xC0110000
  pgdK := 0xC0120000
  threadExit := 0xC0101000
  pgd_linked := by decide

def sampleBoot : Boot where
  memory := fun _ => 0
  structs := fun _ => ⟨0, 0, 0, 0, 0, ⟨0, 0⟩, 0, .uninit⟩
  sizes := fun _ => 4
  arrays := fun _ _ => 0

def sampleCreate : Op := .threadCreate 0xC0102000 7 0xC1000100 0xC1004000

end ChaoOS.TaskRings
