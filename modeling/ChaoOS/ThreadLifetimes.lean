import Mathlib.Data.List.Perm.Subperm
import ChaoOS.TaskRings

/-!
# What a thread owns and what `thread_exit` frees

A linked task owns its struct and its stack, and no two tasks share either. Its
`page_dir` is the physical address of the kernel's own directory, which
`kmalloc` never answers. `thread_exit` unlinks the struct and frees it, but
leaves `_next_task` as it is.
-/

namespace ChaoOS.ThreadLifetimes

open ChaoOS.GuardedRun ChaoOS.HashMapModel ChaoOS.KernelMath ChaoOS.LinkedRing ChaoOS.ListHead
  ChaoOS.TaskModel ChaoOS.TaskRings
open ChaoOS.PageDirectory (pageOffset)

set_option autoImplicit false

structure Owned (image : TaskImage) (kernel : Kernel) (members : Members) : Prop
    extends Rings kernel members where
  answered : ∀ address, Allocated kernel.heap address →
    pageOffset ≤ address ∧ address ≠ image.kernelStack
  stack_held : ∀ ring node, node ∈ members ring → (kernel.task node).stack = image.kernelStack ∨
    Allocated kernel.heap (kernel.task node).stack
  stack_apart : ∀ ring other node address, node ∈ members ring →
    Node.task address ∈ members other → (kernel.task node).stack ≠ address
  stack_unique : ∀ ring other node twin, node ∈ members ring → twin ∈ members other →
    (kernel.task node).stack = (kernel.task twin).stack → node = twin
  page_dir : ∀ ring node, node ∈ members ring →
    (kernel.task node).pageDir = sub32 image.pgdK pageOffset

variable {image : TaskImage} {kernel kernel' : Kernel} {members : Members}

/-- The directory's physical address is below everything `kmalloc` answers. -/
theorem page_dir_lt (image : TaskImage) : sub32 image.pgdK pageOffset < pageOffset := by
  obtain ⟨linked, word⟩ := image.pgd_linked
  rw [sub32_of_le word linked]
  rw [wordSize] at word
  rw [pageOffset] at *
  omega

theorem Owned.of_eq (owned : Owned image kernel members) (links : kernel'.links = kernel.links)
    (heap : kernel'.heap = kernel.heap) (task : kernel'.task = kernel.task) :
    Owned image kernel' members := by
  refine ⟨owned.toRings.of_eq links heap, ?_, ?_, ?_, ?_, ?_⟩
  · rw [heap]
    exact owned.answered
  · rw [heap, task]
    exact owned.stack_held
  · rw [task]
    exact owned.stack_apart
  · rw [task]
    exact owned.stack_unique
  · rw [task]
    exact owned.page_dir

/-! ## Creation -/

theorem init_task_owned {boot : Boot} {newTask : Nat}
    (call : initTask image newTask (bootKernel boot) = some kernel) :
    Owned image kernel (initialMembers newTask) := by
  obtain ⟨answer, -, -, heap, -, -, -, -, -, stack, pageDir⟩ := init_task_cases call
  have only : ∀ ring node, node ∈ initialMembers newTask ring → node = .task newTask := by
    intro ring node member
    by_cases tasks : ring = .tasks
    · subst tasks
      simpa [initialMembers] using member
    · simp [initialMembers, tasks] at member
  refine ⟨(init_task_scheduled call).toRings, ?_, ?_, ?_, ?_, ?_⟩
  · intro address held
    rw [heap] at held
    have same : address = newTask := held.resolve_right id
    rw [same]
    exact ⟨answer.1, answer.2.2.1⟩
  · intro ring node member
    rw [only ring node member]
    exact Or.inl stack
  · intro ring other node address member there
    rw [only ring node member, stack, Node.task.inj (only other _ there)]
    exact answer.2.2.1.symm
  · intro ring other node twin member there _
    rw [only ring node member, only other twin there]
  · intro ring node member
    rw [only ring node member, pageDir]

theorem thread_create_owned (owned : Owned image kernel members)
    (current : kernel.currentTask ∈ members .tasks) {fn arg newTask newStack pid : Nat}
    (call : threadCreate image fn arg newTask newStack kernel = some (pid, kernel')) :
    Owned image kernel' (Function.update members .tasks
      (insertBefore kernel.currentTask (.task newTask) (members .tasks))) := by
  have rings := thread_create_rings owned.toRings current call
  obtain ⟨taskAnswer, stackAnswer, -, -, -, heap, -, -, -, -, -, stack, pageDir, others⟩ :=
    thread_create_cases call
  have split : ∀ ring node, node ∈ Function.update members .tasks
      (insertBefore kernel.currentTask (.task newTask) (members .tasks)) ring →
      node = .task newTask ∨ node ∈ members ring ∧ kernel'.task node = kernel.task node := by
    intro ring node member
    by_cases new : node = .task newTask
    · exact Or.inl new
    · have old := (RingFamily.mem_update_insert member).resolve_left fun both => new both.1
      exact Or.inr ⟨old, others node new⟩
  have newFree := taskAnswer.2.2.2
  have stackNew : newStack ≠ newTask ∧ ¬Allocated kernel.heap newStack :=
    not_or.mp stackAnswer.2.2.2
  -- an old task's stack is neither of the two new allocations
  have oldStack : ∀ ring node, node ∈ members ring →
      (kernel.task node).stack ≠ newTask ∧ (kernel.task node).stack ≠ newStack := by
    intro ring node member
    rcases owned.stack_held ring node member with static | held
    · rw [static]
      exact ⟨taskAnswer.2.2.1.symm, stackAnswer.2.2.1.symm⟩
    · exact ⟨fun same => newFree (same ▸ held), fun same => stackNew.2 (same ▸ held)⟩
  have oldTask : ∀ ring address, Node.task address ∈ members ring → newStack ≠ address := by
    intro ring address member same
    obtain ⟨held, equal, allocated⟩ := owned.allocated ring _ member
    rw [← Node.task.inj equal, ← same] at allocated
    exact stackNew.2 allocated
  refine ⟨rings, ?_, ?_, ?_, ?_, ?_⟩
  · intro address held
    rw [heap] at held
    rcases held with same | same | held
    · rw [same]
      exact ⟨stackAnswer.1, stackAnswer.2.2.1⟩
    · rw [same]
      exact ⟨taskAnswer.1, taskAnswer.2.2.1⟩
    · exact owned.answered address held
  · intro ring node member
    rw [heap]
    rcases split ring node member with new | ⟨old, kept⟩
    · rw [new, stack]
      exact Or.inr (Or.inl rfl)
    · rw [kept]
      exact (owned.stack_held ring node old).imp_right fun held => Or.inr (Or.inr held)
  · intro ring other node address member there
    rcases split ring node member with new | ⟨old, kept⟩
    · rw [new, stack]
      rcases split other _ there with same | ⟨linked, -⟩
      · rw [Node.task.inj same]
        exact stackNew.1
      · exact oldTask other address linked
    · rw [kept]
      rcases split other _ there with same | ⟨linked, -⟩
      · rw [Node.task.inj same]
        exact (oldStack ring node old).1
      · exact owned.stack_apart ring other node address old linked
  · intro ring other node twin member there same
    rcases split ring node member with new | ⟨old, kept⟩
    · rcases split other twin there with newTwin | ⟨oldTwin, keptTwin⟩
      · rw [new, newTwin]
      · rw [new, stack, keptTwin] at same
        exact absurd same.symm (oldStack other twin oldTwin).2
    · rcases split other twin there with newTwin | ⟨oldTwin, keptTwin⟩
      · rw [newTwin, stack, kept] at same
        exact absurd same (oldStack ring node old).2
      · rw [kept, keptTwin] at same
        exact owned.stack_unique ring other node twin old oldTwin same
  · intro ring node member
    rcases split ring node member with new | ⟨old, kept⟩
    · rw [new, pageDir]
    · rw [kept]
      exact owned.page_dir ring node old

/-! ## Exit -/

/-- The arguments `thread_exit` passes to `kfree`, in order, once it has found
`task`. -/
def exitFrees (kernel : Kernel) (task : Nat) : List Nat :=
  [(kernel.task (.task task)).stack, (kernel.task (.task task)).pageDir, task]

theorem thread_exit_cases {pid : Nat} (call : threadExit pid kernel = some kernel') :
    kernel' = kernel ∧ (pid = 0 ∨ ∃ value, mapFind pid 0 kernel.tasksMap = some (0, value)) ∨
      ∃ found task, pid ≠ 0 ∧ found ≠ 0 ∧ mapFind pid 0 kernel.tasksMap = some (found, task) ∧
        mapDelete pid kernel.tasksMap = some kernel'.tasksMap ∧
        kernel'.links = listDel .null kernel.links (.task task) ∧
        kernel'.heap = ((exitFrees kernel task).map HeapEvent.kfree).reverse ++ kernel.heap ∧
        kernel'.task = kernel.task ∧ kernel'.currentTask = kernel.currentTask ∧
        kernel'.nextTask = kernel.nextTask ∧ kernel'.currentPid = kernel.currentPid := by
  rw [threadExit] at call
  split_ifs at call with zero
  · exact Or.inl ⟨(Option.some.inj call).symm, Or.inl zero⟩
  · obtain ⟨⟨found, task⟩, answer, rest⟩ := Option.bind_eq_some_iff.mp call
    split_ifs at rest with missing
    · have none_found : found = 0 := missing
      rw [none_found] at answer
      exact Or.inl ⟨(Option.some.inj rest).symm, Or.inr ⟨task, answer⟩⟩
    · obtain ⟨tasksMap, deleted, result⟩ := Option.map_eq_some_iff.mp rest
      subst result
      exact Or.inr ⟨found, task, zero, missing, answer, deleted, rfl, rfl, rfl, rfl, rfl, rfl⟩

theorem allocated_after_exit {log : List HeapEvent} {freed : List Nat} {address : Nat} :
    Allocated ((freed.map HeapEvent.kfree).reverse ++ log) address ↔
      address ∉ freed ∧ Allocated log address := by
  induction freed generalizing log with
  | nil => simp
  | cons first freed induction =>
      have pushed : ((first :: freed).map HeapEvent.kfree).reverse ++ log =
          (freed.map HeapEvent.kfree).reverse ++ (.kfree first :: log) := by
        simp
      rw [pushed, induction, Allocated, List.mem_cons]
      tauto

/-- Removing a linked task frees nothing that another one owns. -/
theorem remove_task_owned (owned : Owned image kernel members) {task : Nat}
    (linked : Node.task task ∈ members .tasks)
    (links : kernel'.links = listDel .null kernel.links (.task task))
    (heap : kernel'.heap = ((exitFrees kernel task).map HeapEvent.kfree).reverse ++ kernel.heap)
    (structs : kernel'.task = kernel.task) :
    Owned image kernel'
      (Function.update members .tasks ((members .tasks).erase (.task task))) := by
  have stays : ∀ ring node, node ∈ Function.update members .tasks
      ((members .tasks).erase (.task task)) ring → node ∈ members ring ∧ node ≠ .task task := by
    intro ring node member
    have outside := owned.family.not_mem_after_remove linked ring
    refine ⟨?_, fun same => outside (List.mem_cons_of_mem _ (same ▸ member))⟩
    by_cases tasks : ring = .tasks
    · subst tasks
      rw [Function.update_self] at member
      exact List.mem_of_mem_erase member
    · rwa [Function.update_of_ne tasks] at member
  -- what a task that stays owns is still allocated
  have kept : ∀ address, Allocated kernel.heap address → address ≠ task →
      address ≠ (kernel.task (.task task)).stack → Allocated kernel'.heap address := by
    intro address held notTask notStack
    rw [heap, allocated_after_exit]
    refine ⟨?_, held⟩
    have notDirectory : address ≠ (kernel.task (.task task)).pageDir := by
      rw [owned.page_dir .tasks _ linked]
      have above := (owned.answered address held).1
      have below := page_dir_lt image
      omega
    simp [exitFrees, notTask, notStack, notDirectory]
  refine ⟨⟨?_, ?_⟩, ?_, ?_, ?_, ?_, ?_⟩
  · rw [links]
    exact list_del_family owned.family linked
  · intro ring node member
    obtain ⟨old, other⟩ := stays ring node member
    obtain ⟨address, same, held⟩ := owned.allocated ring node old
    refine ⟨address, same, kept address held ?_ ?_⟩
    · exact fun equal => other (same.trans (congrArg Node.task equal))
    · exact (owned.stack_apart .tasks ring _ address linked (same ▸ old)).symm
  · intro address held
    rw [heap, allocated_after_exit] at held
    exact owned.answered address held.2
  · intro ring node member
    obtain ⟨old, other⟩ := stays ring node member
    rw [structs]
    rcases owned.stack_held ring node old with static | held
    · exact Or.inl static
    · refine Or.inr (kept _ held ?_ ?_)
      · exact owned.stack_apart ring .tasks node task old linked
      · exact fun same => other (owned.stack_unique ring .tasks node _ old linked same)
  · rw [structs]
    intro ring other node address member there
    exact owned.stack_apart ring other node address (stays ring node member).1
      (stays other _ there).1
  · rw [structs]
    intro ring other node twin member there
    exact owned.stack_unique ring other node twin (stays ring node member).1
      (stays other twin there).1
  · rw [structs]
    intro ring node member
    exact owned.page_dir ring node (stays ring node member).1

/-! ## Pointers the scheduler keeps -/

/-- A task struct that has been freed and not been allocated again. -/
def Freed (kernel : Kernel) (node : Node) : Prop :=
  ∃ address, node = .task address ∧ HeapEvent.kfree address ∈ kernel.heap ∧
    ¬Allocated kernel.heap address

/-- Threads are created, scheduled and ended. The thread a `pid` names is a
linked one other than the running thread, and not the cached one. -/
def ExitsApart (kernel : Kernel) : Op → Prop
  | .threadCreate .. => True
  | .taskSchedule => True
  | .threadExit pid => pid ≠ 0 → ∀ task, mapFind pid 0 kernel.tasksMap = some (1, task) →
      InTasksRing kernel (.task task) ∧ .task task ≠ kernel.currentTask ∧
        .task task ≠ kernel.nextTask
  | _ => False

/-- `map_find` answers one or zero. -/
theorem map_find_found {pid value found : Nat} {map : HashMap}
    (call : mapFind pid 0 map = some (found, value)) (present : found ≠ 0) : found = 1 := by
  obtain ⟨index, -, answer⟩ := Option.map_eq_some_iff.mp call
  cases index with
  | none => exact absurd (Prod.mk.inj answer).1.symm present
  | some index => exact (Prod.mk.inj answer).1.symm

/-- Both scheduler pointers are linked tasks that own their memory. -/
structure Lasting (image : TaskImage) (kernel : Kernel) : Prop where
  owned : ∃ members, Owned image kernel members ∧ Scheduled kernel members

theorem Lasting.not_freed (lasting : Lasting image kernel) :
    ¬Freed kernel kernel.currentTask ∧ ¬Freed kernel kernel.nextTask := by
  obtain ⟨members, -, scheduled⟩ := lasting.owned
  have held : ∀ node, node ∈ members .tasks → ¬Freed kernel node := by
    rintro node member ⟨address, same, -, gone⟩
    obtain ⟨other, equal, allocated⟩ := scheduled.allocated .tasks node member
    rw [Node.task.inj (same.symm.trans equal)] at gone
    exact gone allocated
  exact ⟨held _ scheduled.current, held _ scheduled.next⟩

theorem apart_exit_lasting (lasting : Lasting image kernel) {pid : Nat}
    (allowed : ExitsApart kernel (.threadExit pid)) (call : threadExit pid kernel = some kernel') :
    Lasting image kernel' := by
  rcases thread_exit_cases call with ⟨same, -⟩ |
    ⟨found, task, nonzero, present, answer, -, links, heap, structs, current, next, -⟩
  · rw [same]
    exact lasting
  · obtain ⟨members, owned, scheduled⟩ := lasting.owned
    rw [map_find_found answer present] at answer
    obtain ⟨linked, notCurrent, notNext⟩ := allowed nonzero task answer
    have member := owned.mem_of_in_ring linked
    have removed := remove_task_owned owned member links heap structs
    refine ⟨_, removed, removed.toRings, ?_, ?_⟩
    · rw [current, Function.update_self]
      exact (List.mem_erase_of_ne notCurrent.symm).mpr scheduled.current
    · rw [next, Function.update_self]
      exact (List.mem_erase_of_ne notNext.symm).mpr scheduled.next

theorem apart_step_lasting {op : Op} (lasting : Lasting image kernel)
    (allowed : ExitsApart kernel op) (stepped : step image kernel op = some kernel') :
    Lasting image kernel' := by
  rcases step_cases stepped with ⟨-, same⟩ | ⟨call, tries, -⟩ |
    ⟨fn, arg, newTask, newStack, pid, -, created⟩ | ⟨lock, other, -⟩ | ⟨pid, exits, exited⟩
  · obtain ⟨members, owned, scheduled⟩ := lasting.owned
    have running := scheduled.not_null scheduled.current
    rw [same]
    refine ⟨members, ?_, task_schedule_scheduled owned.toRings running scheduled.next⟩
    rw [task_schedule_eq running]
    exact owned.of_eq rfl rfl rfl
  · cases op with
    | call _ => exact absurd allowed id
    | resume => exact absurd allowed id
    | threadCreate _ _ _ _ => exact absurd tries (by simp [triesCall])
    | threadExit _ => exact absurd tries (by simp [triesCall])
    | taskSchedule => exact absurd tries (by simp [triesCall])
    | mutexRelease _ => exact absurd tries (by simp [triesCall])
  · obtain ⟨members, owned, scheduled⟩ := lasting.owned
    exact ⟨_, thread_create_owned owned scheduled.current created,
      thread_create_scheduled scheduled created⟩
  · rw [other] at allowed
    exact absurd allowed id
  · rw [exits] at allowed
    exact apart_exit_lasting lasting allowed exited

/-- Along every run in which no thread exits while it is the cached one, both
scheduler pointers are tasks that have not been freed. -/
theorem apart_exits_keep_pointers (image : TaskImage) (boot : Boot) {newTask : Nat}
    {ops : List Op} {start final : Kernel}
    (init : initTask image newTask (bootKernel boot) = some start)
    (permitted : Permitted (step image) ExitsApart start ops)
    (run : runFrom (step image) start ops = some final) :
    ¬Freed final final.currentTask ∧ ¬Freed final final.nextTask ∧
      InTasksRing final final.currentTask ∧ InTasksRing final final.nextTask := by
  have initial : Lasting image start := ⟨_, init_task_owned init, init_task_scheduled init⟩
  have lasting : Lasting image final := by
    apply run_invariant _ initial permitted run
    intro kernel op next lasting allowed stepped
    exact apart_step_lasting lasting allowed stepped
  obtain ⟨members, -, scheduled⟩ := lasting.owned
  exact ⟨lasting.not_freed.1, lasting.not_freed.2, scheduled.in_ring scheduled.current,
    scheduled.in_ring scheduled.next⟩

theorem apart_exits_keep_pointers_sample :
    ∃ start final, initTask sampleImage 0xC1000000 (bootKernel sampleBoot) = some start ∧
      Permitted (step sampleImage) ExitsApart start
        [sampleCreate, .threadExit 1, .taskSchedule] ∧
      runFrom (step sampleImage) start [sampleCreate, .threadExit 1, .taskSchedule] = some final ∧
      ¬Freed final final.nextTask := by
  have runs : ((initTask sampleImage 0xC1000000 (bootKernel sampleBoot)).bind fun start =>
      runFrom (step sampleImage) start [sampleCreate, .threadExit 1, .taskSchedule]).isSome =
        true := by
    decide +kernel
  obtain ⟨final, found⟩ := Option.isSome_iff_exists.mp runs
  obtain ⟨start, init, run⟩ := Option.bind_eq_some_iff.mp found
  have facts : ((initTask sampleImage 0xC1000000 (bootKernel sampleBoot)).bind fun start =>
      (step sampleImage start sampleCreate).map fun created =>
        (mapFind 1 0 created.tasksMap, created.currentTask, created.nextTask)) =
      some (some (1, 0xC1000100), .task 0xC1000000, .task 0xC1000000) := by
    decide +kernel
  have permitted : Permitted (step sampleImage) ExitsApart start
      [sampleCreate, .threadExit 1, .taskSchedule] := by
    refine ⟨trivial, fun created first => ⟨fun _ task answer => ?_, fun _ _ => ?_⟩⟩
    · rw [init, Option.bind_some, first, Option.map_some, Option.some.injEq, Prod.mk.injEq,
        Prod.mk.injEq, answer, Option.some.injEq, Prod.mk.injEq] at facts
      obtain ⟨⟨-, named⟩, current, next⟩ := facts
      obtain ⟨pid, call⟩ := thread_create_step first
      have scheduled := thread_create_scheduled (init_task_scheduled init) call
      rw [named, current, next]
      refine ⟨scheduled.in_ring ?_, by decide, by decide⟩
      rw [Function.update_self, mem_insert_before]
      exact Or.inl rfl
    · exact ⟨trivial, fun _ _ => trivial⟩
  exact ⟨start, final, init, permitted, run,
    (apart_exits_keep_pointers sampleImage sampleBoot init permitted run).2.1⟩

/-- One tick caches the new thread; ending it then leaves `_next_task` on a
freed struct. -/
theorem cached_thread_exits_dangling :
    ∃ start final, initTask sampleImage 0xC1000000 (bootKernel sampleBoot) = some start ∧
      runFrom (step sampleImage) start [sampleCreate, .taskSchedule, .threadExit 1] = some final ∧
      final.currentTask = .task 0xC1000000 ∧ Freed final final.nextTask := by
  have facts : ((initTask sampleImage 0xC1000000 (bootKernel sampleBoot)).bind fun start =>
      (runFrom (step sampleImage) start [sampleCreate, .taskSchedule, .threadExit 1]).map
        fun final => (final.currentTask, final.nextTask, decide
          (HeapEvent.kfree 0xC1000100 ∈ final.heap ∧ ¬Allocated final.heap 0xC1000100))) =
      some (.task 0xC1000000, .task 0xC1000100, true) := by
    decide +kernel
  obtain ⟨start, init, rest⟩ := Option.bind_eq_some_iff.mp facts
  obtain ⟨final, run, values⟩ := Option.map_eq_some_iff.mp rest
  rw [Prod.mk.injEq, Prod.mk.injEq, decide_eq_true_eq] at values
  obtain ⟨current, next, freed, gone⟩ := values
  exact ⟨start, final, init, run, current, 0xC1000100, next, freed, gone⟩

/-! ## What is released -/

/-- Each address is allocated when its turn to be freed comes. -/
def FreedInTurn : List HeapEvent → List Nat → Prop
  | _, [] => True
  | log, address :: rest => Allocated log address ∧ FreedInTurn (.kfree address :: log) rest

/-- `thread_exit(pid)` returns, frees only what is allocated, and frees exactly
the struct and the stack of `task`. -/
def ReleasesThread (kernel : Kernel) (pid task : Nat) : Prop :=
  ∃ after freed, threadExit pid kernel = some after ∧
    after.heap = (freed.map HeapEvent.kfree).reverse ++ kernel.heap ∧
    FreedInTurn kernel.heap freed ∧
    ∀ address, address ∈ freed ↔ address = task ∨ address = (kernel.task (.task task)).stack

theorem FreedInTurn.nodup {log : List HeapEvent} {freed : List Nat}
    (turn : FreedInTurn log freed) : freed.Nodup ∧ ∀ address ∈ freed, Allocated log address := by
  induction freed generalizing log with
  | nil => simp
  | cons first freed induction =>
      obtain ⟨distinct, held⟩ := induction turn.2
      refine ⟨List.nodup_cons.mpr ⟨fun member => (held first member).1 rfl, distinct⟩, ?_⟩
      intro address member
      rcases List.mem_cons.mp member with same | later
      · rw [same]
        exact turn.1
      · exact (held address later).2

/-- Three calls of `kfree` cannot release two allocations. -/
theorem not_releases_thread (kernel : Kernel) (pid task : Nat) :
    ¬ReleasesThread kernel pid task := by
  rintro ⟨after, freed, call, heap, turn, exactly⟩
  have own : task ∈ freed := (exactly task).mpr (Or.inl rfl)
  rcases thread_exit_cases call with ⟨same, -⟩ | ⟨found, victim, -, -, -, -, -, frees, -⟩
  · rw [same] at heap
    have lengths := congrArg List.length heap
    rw [List.length_append, List.length_reverse, List.length_map] at lengths
    have none_freed : freed = [] := List.length_eq_zero_iff.mp (by omega)
    rw [none_freed] at own
    exact absurd own List.not_mem_nil
  · have same : freed = exitFrees kernel victim := by
      have reversed := List.append_cancel_right (heap.symm.trans frees)
      have mapped := List.reverse_injective reversed
      exact List.map_injective_iff.mpr (fun _ _ equal => HeapEvent.kfree.inj equal) mapped
    have distinct := turn.nodup.1
    have covered : freed ⊆ [task, (kernel.task (.task task)).stack] := by
      intro address member
      simpa using (exactly address).mp member
    have counted := (List.subperm_of_subset distinct covered).length_le
    rw [same] at counted
    simp [exitFrees] at counted

/-- Whatever the threads do, a struct that `thread_create` has filled in keeps
the address of the kernel's directory, and `kmalloc` answers kernel addresses. -/
structure StaticDirectory (image : TaskImage) (task : Nat) (kernel : Kernel) : Prop where
  answered : ∀ address, Allocated kernel.heap address → pageOffset ≤ address
  page_dir : (kernel.task (.task task)).pageDir = sub32 image.pgdK pageOffset

theorem task_schedule_frame (kernel : Kernel) :
    (taskSchedule kernel).heap = kernel.heap ∧ (taskSchedule kernel).task = kernel.task := by
  by_cases running : kernel.currentTask = .null
  · rw [taskSchedule, if_pos running]
    exact ⟨rfl, rfl⟩
  · rw [task_schedule_eq running]
    exact ⟨rfl, rfl⟩

theorem set_task_page_dir (kernel : Kernel) (node other : Node) (state : TaskState) :
    ((setTask kernel node fun struct => { struct with state := state }).task other).pageDir =
      (kernel.task other).pageDir := by
  by_cases same : other = node
  · subst same
    simp [setTask]
  · simp [setTask, same]

theorem wake_first_frame (ring : RingId) (kernel : Kernel) (node : Node) :
    (wakeFirst ring kernel).heap = kernel.heap ∧
      ((wakeFirst ring kernel).task node).pageDir = (kernel.task node).pageDir := by
  rw [wakeFirst]
  split_ifs
  · exact ⟨rfl, set_task_page_dir _ _ _ _⟩
  · exact ⟨rfl, rfl⟩

theorem attempt_frame (call : Call) (kernel : Kernel) (node : Node) :
    (attempt call kernel).heap = kernel.heap ∧
      ((attempt call kernel).task node).pageDir = (kernel.task node).pageDir := by
  rw [attempt]
  split_ifs
  · rw [sleepOn, (task_schedule_frame _).1, (task_schedule_frame _).2]
    exact ⟨rfl, set_task_page_dir _ _ _ _⟩
  · cases call with
    | mutexAcquire lock => exact ⟨rfl, rfl⟩
    | circularEnqueue ele queue => exact wake_first_frame _ _ node
    | circularDequeue queue => exact wake_first_frame _ _ node

/-- The heap log and the directory of a struct, before and after any operation. -/
theorem step_frame {op : Op} (stepped : step image kernel op = some kernel') (task : Nat) :
    ((∀ address, Allocated kernel.heap address → pageOffset ≤ address) →
        ∀ address, Allocated kernel'.heap address → pageOffset ≤ address) ∧
      ((kernel'.task (.task task)).pageDir = (kernel.task (.task task)).pageDir ∨
        (kernel'.task (.task task)).pageDir = sub32 image.pgdK pageOffset) := by
  rcases step_cases stepped with ⟨-, same⟩ | ⟨call, -, same⟩ |
    ⟨fn, arg, newTask, newStack, pid, -, created⟩ | ⟨lock, -, same⟩ | ⟨pid, -, exited⟩
  · rw [same, (task_schedule_frame kernel).1, (task_schedule_frame kernel).2]
    exact ⟨id, Or.inl rfl⟩
  · rw [same, (attempt_frame call kernel (.task task)).1]
    exact ⟨id, Or.inl (attempt_frame call kernel (.task task)).2⟩
  · obtain ⟨taskAnswer, stackAnswer, -, -, -, heap, -, -, -, -, -, -, pageDir, others⟩ :=
      thread_create_cases created
    constructor
    · intro above address held
      rw [heap] at held
      rcases held with equal | equal | held
      · rw [equal]
        exact stackAnswer.1
      · rw [equal]
        exact taskAnswer.1
      · exact above address held
    · by_cases new : Node.task task = .task newTask
      · rw [new]
        exact Or.inr pageDir
      · rw [others _ new]
        exact Or.inl rfl
  · have frame := wake_first_frame (.waitingList lock) kernel (.task task)
    have heap : kernel'.heap = kernel.heap := same ▸ frame.1
    rw [heap]
    exact ⟨id, Or.inl (same ▸ frame.2)⟩
  · rcases thread_exit_cases exited with ⟨same, -⟩ |
      ⟨found, victim, -, -, -, -, -, heap, structs, -⟩
    · rw [same]
      exact ⟨id, Or.inl rfl⟩
    · rw [heap, structs]
      exact ⟨fun above address held => above address (allocated_after_exit.mp held).2, Or.inl rfl⟩

theorem StaticDirectory.step {task : Nat} (static : StaticDirectory image task kernel) {op : Op}
    (stepped : step image kernel op = some kernel') : StaticDirectory image task kernel' := by
  obtain ⟨answered, kept | set⟩ := step_frame stepped task
  · exact ⟨answered static.answered, kept.trans static.page_dir⟩
  · exact ⟨answered static.answered, set⟩

theorem made_thread_static {fn arg task stack : Nat} {ops : List Op} {start final : Kernel}
    (above : ∀ address, Allocated start.heap address → pageOffset ≤ address)
    (made : .threadCreate fn arg task stack ∈ ops ∨ StaticDirectory image task start)
    (run : runFrom (step image) start ops = some final) : StaticDirectory image task final := by
  induction ops generalizing start with
  | nil =>
      have same : start = final := Option.some.inj run
      rw [← same]
      exact made.resolve_left List.not_mem_nil
  | cons op ops induction =>
      obtain ⟨next, first, rest⟩ := run_cons run
      have still := (step_frame first task).1 above
      apply induction still _ rest
      rcases made with listed | static
      · rcases List.mem_cons.mp listed with here | later
        · subst here
          obtain ⟨pid, created⟩ := thread_create_step first
          obtain ⟨-, -, -, -, -, -, -, -, -, -, -, -, pageDir, -⟩ := thread_create_cases created
          exact Or.inr ⟨still, pageDir⟩
        · exact Or.inl later
      · exact Or.inr (static.step first)

/-- No thread is ever released as it should be: its `page_dir` is passed to
`kfree` although `kmalloc` never answered it. -/
theorem thread_exit_never_releases (image : TaskImage) (boot : Boot) {newTask : Nat}
    {ops : List Op} {start final : Kernel}
    (init : initTask image newTask (bootKernel boot) = some start)
    (run : runFrom (step image) start ops = some final) {fn arg task stack : Nat}
    (made : .threadCreate fn arg task stack ∈ ops) (pid : Nat) :
    ¬ReleasesThread final pid task ∧ ¬FreedInTurn final.heap (exitFrees final task) := by
  refine ⟨not_releases_thread final pid task, fun turn => ?_⟩
  have above : ∀ address, Allocated start.heap address → pageOffset ≤ address := fun address held =>
    ((init_task_owned init).answered address held).1
  have static := made_thread_static above (Or.inl made) run
  have directory : (final.task (.task task)).pageDir ∈ exitFrees final task := by
    simp [exitFrees]
  have answered := static.answered _ (turn.nodup.2 _ directory)
  rw [static.page_dir] at answered
  have below := page_dir_lt image
  omega

theorem thread_exit_never_releases_sample :
    ∃ start final, initTask sampleImage 0xC1000000 (bootKernel sampleBoot) = some start ∧
      runFrom (step sampleImage) start [sampleCreate] = some final ∧
      ¬ReleasesThread final 1 0xC1000100 := by
  have runs : ((initTask sampleImage 0xC1000000 (bootKernel sampleBoot)).bind fun start =>
      runFrom (step sampleImage) start [sampleCreate]).isSome = true := by
    decide +kernel
  obtain ⟨final, found⟩ := Option.isSome_iff_exists.mp runs
  obtain ⟨start, init, run⟩ := Option.bind_eq_some_iff.mp found
  exact ⟨start, final, init, run,
    (thread_exit_never_releases sampleImage sampleBoot init run List.mem_cons_self 1).1⟩

/-- The second address `thread_exit` frees is no answer of `kmalloc`. -/
theorem exit_frees_static_directory :
    ∃ start final after, initTask sampleImage 0xC1000000 (bootKernel sampleBoot) = some start ∧
      runFrom (step sampleImage) start [sampleCreate] = some final ∧
      threadExit 1 final = some after ∧ HeapEvent.kfree 0x120000 ∈ after.heap ∧
      HeapEvent.kmalloc 0x120000 ∉ after.heap := by
  have facts : ((initTask sampleImage 0xC1000000 (bootKernel sampleBoot)).bind fun start =>
      (runFrom (step sampleImage) start [sampleCreate]).bind fun final =>
        (threadExit 1 final).map fun after => decide
          (HeapEvent.kfree 0x120000 ∈ after.heap ∧ HeapEvent.kmalloc 0x120000 ∉ after.heap)) =
      some true := by
    decide +kernel
  obtain ⟨start, init, rest⟩ := Option.bind_eq_some_iff.mp facts
  obtain ⟨final, run, rest⟩ := Option.bind_eq_some_iff.mp rest
  obtain ⟨after, exits, value⟩ := Option.map_eq_some_iff.mp rest
  exact ⟨start, final, after, init, run, exits, of_decide_eq_true value⟩

end ChaoOS.ThreadLifetimes
