import ChaoOS.ContextRuns
import ChaoOS.MemorySafety
import ChaoOS.TaskFairness
import ChaoOS.ThreadLifetimes
import ChaoOS.ThreadStart

/-!
# The memory of the threads

`thread_create` has the struct and the stack of a thread from `kmalloc`. Here the two
requests go to the memory manager, and the rest of the kernel, the arrays of
`tasks_map` among it, asks for memory and frees its own in between. What the model of
the threads asks of the answers then holds, and so does what the switches between
threads ask of their contexts and stacks.
-/

namespace ChaoOS.ThreadMemory

open ChaoOS.GuardedRun ChaoOS.KernelMath ChaoOS.LinkedRing ChaoOS.MemoryManager ChaoOS.MemoryRuns
open ChaoOS.MemorySafety ChaoOS.TaskRings ChaoOS.ThreadLifetimes
open ChaoOS.ByteMemory (RangesApart Word)
open ChaoOS.ContextRuns (Layout)
open ChaoOS.ContextSwitch (contextSize)
open ChaoOS.KernelHeap (kmallocOn)
open ChaoOS.PageDirectory (pageOffset pageSize)
open ChaoOS.SliceHeapFree (dropPointer)
open ChaoOS.SliceHeapInvariant (Pool pageAt)
open ChaoOS.SliceHeapModel (maxAlloc)
open ChaoOS.TaskFairness (OnlySchedules)
open ChaoOS.TaskModel (Allocated Answer Boot Node RingId TaskImage initTask stackSizeKernel
  taskSchedule threadCreate)
open ChaoOS.ThreadStart (taskSize)
open ChaoOS.ZoneLayout (TableBelow tableRegion)

set_option autoImplicit false

structure System where
  memory : MemoryState
  tasks : TaskModel.Kernel

/-- `kmalloc` with its answer. -/
def kmallocCall (byteSize : Nat) (memory : MemoryState) : Option (Nat × MemoryState) :=
  (kmallocOn byteSize memory.kernel).map fun result =>
    (result.1,
      { memory with
        kernel := result.2
        live := if result.1 = 0 then memory.live else (result.1, byteSize) :: memory.live })

def initThreads (image : TaskImage) (boot : Boot) (memory : MemoryState) : Option System :=
  (kmallocCall taskSize memory).bind fun newTask =>
    (initTask image newTask.1 (TaskModel.bootKernel boot)).map fun tasks => ⟨newTask.2, tasks⟩

def createThread (image : TaskImage) (fn arg : Nat) (system : System) : Option System :=
  (kmallocCall taskSize system.memory).bind fun newTask =>
    (kmallocCall stackSizeKernel newTask.2).bind fun newStack =>
      (threadCreate image fn arg newTask.1 newStack.1 system.tasks).map fun created =>
        ⟨newStack.2, created.2⟩

inductive SystemOp where
  | threadCreate (fn arg : Nat)
  | taskSchedule
  | memory (op : MemoryOp)

def systemStep (image : TaskImage) (system : System) : SystemOp → Option System
  | .threadCreate fn arg => createThread image fn arg system
  | .taskSchedule => some { system with tasks := taskSchedule system.tasks }
  | .memory op => (memoryStep system.memory op).map fun memory => { system with memory := memory }

def freedBy : MemoryOp → Option Nat
  | .kfree address => some address
  | _ => none

/-- Requests are granted, and nobody else frees what belongs to a thread. -/
def Allowed (system : System) : SystemOp → Prop
  | .threadCreate _ _ => Granted system.memory.kernel taskSize ∧
      ∀ answer ∈ kmallocCall taskSize system.memory, Granted answer.2.kernel stackSizeKernel
  | .taskSchedule => True
  | .memory op => Permits system.memory op ∧
      ∀ address ∈ freedBy op, ¬Allocated system.tasks.heap address

instance decidableAllowed (system : System) : (op : SystemOp) → Decidable (Allowed system op)
  | .threadCreate _ _ => inferInstanceAs (Decidable (_ ∧ _))
  | .taskSchedule => inferInstanceAs (Decidable True)
  | .memory _ => inferInstanceAs (Decidable (_ ∧ _))

/-! ## Answers of the memory manager -/

section Answers

variable {base framesNumber byteSize : Nat} {pages : List Nat} {memory : MemoryState}
  {answer : Nat × MemoryState}

theorem kmalloc_call_step (byteSize : Nat) (memory : MemoryState) :
    memoryStep memory (.kmalloc byteSize) = (kmallocCall byteSize memory).map Prod.snd := by
  rw [memoryStep, kmallocCall, Option.map_map]
  rfl

/-- A granted request has a region of its own. -/
theorem kmalloc_call_sound (sound : MemorySound base framesNumber pages memory)
    (most : byteSize ≤ maxAlloc) (allowed : Granted memory.kernel byteSize)
    (call : kmallocCall byteSize memory = some answer) :
    (∃ pages', MemorySound base framesNumber pages' answer.2) ∧
      answer.2.live = (answer.1, byteSize) :: memory.live := by
  have stepped : memoryStep memory (.kmalloc byteSize) = some answer.2 := by
    rw [kmalloc_call_step, call, Option.map_some]
  have permits : Permits memory (.kmalloc byteSize) := allowed
  refine ⟨memory_step_sound sound permits stepped, ?_⟩
  obtain ⟨result, served, same⟩ := Option.map_eq_some_iff.mp call
  have nonzero : result.1 ≠ 0 := by
    by_cases small : byteSize ≤ 2048
    · exact (slice_request_sound sound small allowed served).1
    · exact (large_request_sound sound (Nat.lt_of_not_le small) most allowed served).1
  rw [← same]
  exact if_neg nonzero

theorem region_inside (pool : Pool base framesNumber) (safe : MemorySafe base framesNumber memory)
    {region : Nat × Nat} (live : region ∈ memory.live) :
    pageAt base 0 ≤ region.1 ∧ region.1 + region.2 < wordSize := by
  obtain ⟨low, high⟩ := safe.inside region (List.mem_append_left _ live)
  have mapped := pool.mapped
  refine ⟨low, Nat.lt_of_le_of_lt high ?_⟩
  rw [pageAt]
  exact mapped

theorem regions_apart (safe : MemorySafe base framesNumber memory) {region other : Nat × Nat}
    (live : region ∈ memory.live) (otherLive : other ∈ memory.live) (different : region ≠ other) :
    RegionsApart region other := by
  have symmetric : Std.Symm RegionsApart := ⟨fun _ _ => Or.symm⟩
  exact safe.apart.forall (List.mem_append_left _ live) (List.mem_append_left _ otherLive) different

/-- What has just been handed out is an answer for the threads, when what they hold is
live. -/
theorem answer_accepted {image : TaskImage} {log : List TaskModel.HeapEvent} {ptr : Nat}
    {before : List (Nat × Nat)} (pool : Pool base framesNumber)
    (below : image.kernelStack < pageAt base 0) (safe : MemorySafe base framesNumber memory)
    (live : memory.live = (ptr, byteSize) :: before) (positive : 0 < byteSize)
    (held : ∀ address, Allocated log address → ∃ size, 0 < size ∧ (address, size) ∈ before) :
    Answer image log ptr := by
  have newest : (ptr, byteSize) ∈ memory.live := live ▸ List.mem_cons_self
  obtain ⟨low, high⟩ := region_inside pool safe newest
  have start : pageAt base 0 = pageOffset + base := by
    rw [pageAt, Nat.zero_mul, Nat.add_zero]
  refine ⟨by omega, by omega, by omega, fun allocated => ?_⟩
  obtain ⟨size, some_bytes, listed⟩ := held ptr allocated
  have apart := safe.apart
  rw [regions, live, List.cons_append, List.pairwise_cons] at apart
  have own := apart.1 (ptr, size) (List.mem_append_left _ listed)
  unfold RegionsApart at own
  omega

theorem memory_step_keeps_live {op : MemoryOp} {next : MemoryState} {region : Nat × Nat}
    (stepped : memoryStep memory op = some next) (live : region ∈ memory.live)
    (kept : ∀ address ∈ freedBy op, region.1 ≠ address) : region ∈ next.live := by
  cases op with
  | kmalloc byteSize =>
      obtain ⟨result, -, same⟩ := Option.map_eq_some_iff.mp stepped
      rw [← same]
      dsimp only
      split_ifs
      · exact live
      · exact List.mem_cons_of_mem _ live
  | kfree address =>
      obtain ⟨kernel, -, same⟩ := Option.map_eq_some_iff.mp stepped
      rw [← same]
      exact List.mem_filter.mpr ⟨live, decide_eq_true (kept address rfl)⟩
  | frames op =>
      obtain ⟨client, -, same⟩ := Option.map_eq_some_iff.mp stepped
      rw [← same]
      exact live
  | write address value =>
      rw [← Option.some.inj stepped]
      exact live

end Answers

/-! ## Threads and their regions -/

/-- The regions of the linked tasks, and of all that `task.c` holds. -/
structure Placed (image : TaskImage) (live : List (Nat × Nat)) (tasks : TaskModel.Kernel)
    (members : Members) : Prop where
  struct_live : ∀ ring address, .task address ∈ members ring → (address, taskSize) ∈ live
  stack_live : ∀ ring node, node ∈ members ring → (tasks.task node).stack = image.kernelStack ∨
    ((tasks.task node).stack, stackSizeKernel) ∈ live
  held_live : ∀ address, Allocated tasks.heap address → ∃ size, 0 < size ∧ (address, size) ∈ live

structure SystemSound (image : TaskImage) (base framesNumber : Nat) (system : System) : Prop where
  memory : ∃ pages, MemorySound base framesNumber pages system.memory
  pending : ∀ node, system.tasks.pending node = none
  threads : ∃ members, Owned image system.tasks members ∧ Scheduled system.tasks members ∧
    Placed image system.memory.live system.tasks members

section Steps

variable {base framesNumber : Nat} {image : TaskImage} {system next : System}
  {live : List (Nat × Nat)} {tasks tasks' : TaskModel.Kernel} {members : Members}

/-- A new thread has the two regions that were handed out last. -/
theorem placed_create (placed : Placed image live tasks members) {fn arg newTask newStack pid : Nat}
    (call : threadCreate image fn arg newTask newStack tasks = some (pid, tasks')) :
    Placed image ((newStack, stackSizeKernel) :: (newTask, taskSize) :: live) tasks'
      (Function.update members .tasks
        (insertBefore tasks.currentTask (.task newTask) (members .tasks))) := by
  obtain ⟨-, -, -, -, -, heap, -, -, -, -, -, stack, -, others⟩ := thread_create_cases call
  have older : ∀ {region}, region ∈ live →
      region ∈ (newStack, stackSizeKernel) :: (newTask, taskSize) :: live :=
    fun member => List.mem_cons_of_mem _ (List.mem_cons_of_mem _ member)
  constructor
  case struct_live =>
      intro ring address member
      rcases RingFamily.mem_update_insert member with ⟨new, -⟩ | old
      · rw [Node.task.inj new]
        exact List.mem_cons_of_mem _ List.mem_cons_self
      · exact older (placed.struct_live ring address old)
  case stack_live =>
      intro ring node member
      by_cases new : node = .task newTask
      · rw [new, stack]
        exact Or.inr List.mem_cons_self
      · have old := (RingFamily.mem_update_insert member).resolve_left fun both => new both.1
        rw [others node new]
        exact (placed.stack_live ring node old).imp_right older
  case held_live =>
      intro address allocated
      rw [heap] at allocated
      rcases allocated with same | same | earlier
      · exact ⟨stackSizeKernel, by decide, same ▸ List.mem_cons_self⟩
      · exact ⟨taskSize, by decide, same ▸ List.mem_cons_of_mem _ List.mem_cons_self⟩
      · obtain ⟨size, positive, member⟩ := placed.held_live address earlier
        exact ⟨size, positive, older member⟩

/-- What the threads hold stays where it is. -/
theorem placed_kept {live' : List (Nat × Nat)} (placed : Placed image live tasks members)
    (owned : Owned image tasks members)
    (kept : ∀ address size, Allocated tasks.heap address → (address, size) ∈ live →
      (address, size) ∈ live') : Placed image live' tasks members := by
  constructor
  case struct_live =>
      intro ring address member
      obtain ⟨other, same, allocated⟩ := owned.allocated ring _ member
      rw [← Node.task.inj same] at allocated
      exact kept address _ allocated (placed.struct_live ring address member)
  case stack_live =>
      intro ring node member
      rcases owned.stack_held ring node member with static | allocated
      · exact Or.inl static
      · exact (placed.stack_live ring node member).imp_right (kept _ _ allocated)
  case held_live =>
      intro address allocated
      obtain ⟨size, positive, member⟩ := placed.held_live address allocated
      exact ⟨size, positive, kept address size allocated member⟩

/-- Both requests of `thread_create` are answered as the model of the threads asks. -/
theorem thread_requests_accepted (pool : Pool base framesNumber)
    (below : image.kernelStack < pageAt base 0) (sound : SystemSound image base framesNumber system)
    {fn arg : Nat} (allowed : Allowed system (.threadCreate fn arg))
    {newTask newStack : Nat × MemoryState}
    (first : kmallocCall taskSize system.memory = some newTask)
    (second : kmallocCall stackSizeKernel newTask.2 = some newStack) :
    (∃ pages, MemorySound base framesNumber pages newStack.2) ∧
      newStack.2.live =
        (newStack.1, stackSizeKernel) :: (newTask.1, taskSize) :: system.memory.live ∧
      Answer image system.tasks.heap newTask.1 ∧
      Answer image (.kmalloc newTask.1 :: system.tasks.heap) newStack.1 := by
  obtain ⟨pages, before⟩ := sound.memory
  obtain ⟨members, -, -, placed⟩ := sound.threads
  obtain ⟨⟨pages₁, between⟩, live₁⟩ := kmalloc_call_sound before (by decide) allowed.1 first
  obtain ⟨⟨pages₂, after⟩, live₂⟩ :=
    kmalloc_call_sound between (by decide) (allowed.2 newTask first) second
  refine ⟨⟨pages₂, after⟩, by rw [live₂, live₁], ?_, ?_⟩
  · exact answer_accepted pool below (memory_safe between) live₁ (by decide) placed.held_live
  · apply answer_accepted pool below (memory_safe after) live₂ (by decide)
    intro address allocated
    rw [live₁]
    rcases allocated with same | earlier
    · exact ⟨taskSize, by decide, same ▸ List.mem_cons_self⟩
    · obtain ⟨size, positive, member⟩ := placed.held_live address earlier
      exact ⟨size, positive, List.mem_cons_of_mem _ member⟩

theorem create_sound (pool : Pool base framesNumber) (below : image.kernelStack < pageAt base 0)
    (sound : SystemSound image base framesNumber system) {fn arg : Nat}
    (allowed : Allowed system (.threadCreate fn arg))
    (call : createThread image fn arg system = some next) :
    SystemSound image base framesNumber next ∧ ∃ newTask newStack,
      TaskModel.step image system.tasks (.threadCreate fn arg newTask newStack) =
        some next.tasks := by
  obtain ⟨newTask, first, rest⟩ := Option.bind_eq_some_iff.mp call
  obtain ⟨newStack, second, created⟩ := Option.bind_eq_some_iff.mp rest
  obtain ⟨⟨pid, tasks⟩, made, rfl⟩ := Option.map_eq_some_iff.mp created
  obtain ⟨memory, live, -⟩ := thread_requests_accepted pool below sound allowed first second
  obtain ⟨members, owned, scheduled, placed⟩ := sound.threads
  obtain ⟨-, -, -, -, -, -, -, -, -, pending, -⟩ := thread_create_cases made
  constructor
  · refine ⟨memory, ?_, _, thread_create_owned owned scheduled.current made,
      thread_create_scheduled scheduled made, ?_⟩
    · rw [pending]
      exact sound.pending
    · rw [live]
      exact placed_create placed made
  · refine ⟨newTask.1, newStack.1, ?_⟩
    simp only [TaskModel.step, sound.pending, made, Option.map_some]

/-- The operation of the threads that an operation of the system is. -/
def RunsAs (image : TaskImage) (before after : TaskModel.Kernel) : Prop :=
  ∃ ops, (∀ op ∈ ops, OnlySchedules op) ∧ runFrom (TaskModel.step image) before ops = some after

theorem system_step_sound (pool : Pool base framesNumber)
    (below : image.kernelStack < pageAt base 0) (sound : SystemSound image base framesNumber system)
    {op : SystemOp} (allowed : Allowed system op) (stepped : systemStep image system op = some next) :
    SystemSound image base framesNumber next ∧ RunsAs image system.tasks next.tasks := by
  cases op with
  | threadCreate fn arg =>
      obtain ⟨kept, newTask, newStack, made⟩ := create_sound pool below sound allowed stepped
      refine ⟨kept, [.threadCreate fn arg newTask newStack], by simp [OnlySchedules], ?_⟩
      rw [runFrom, made]
      rfl
  | taskSchedule =>
      obtain ⟨members, owned, scheduled, placed⟩ := sound.threads
      have running := scheduled.not_null scheduled.current
      have same : next = { system with tasks := taskSchedule system.tasks } :=
        (Option.some.inj stepped).symm
      subst same
      refine ⟨⟨sound.memory, ?_, members, ?_, ?_, ?_⟩, [.taskSchedule], by simp [OnlySchedules], rfl⟩
      · rw [task_schedule_eq running]
        exact sound.pending
      · rw [task_schedule_eq running]
        exact owned.of_eq rfl rfl rfl
      · exact task_schedule_scheduled owned.toRings running scheduled.next
      · rw [task_schedule_eq running]
        exact ⟨placed.struct_live, placed.stack_live, placed.held_live⟩
  | memory op =>
      obtain ⟨memory, moved, rfl⟩ := Option.map_eq_some_iff.mp stepped
      obtain ⟨pages, before⟩ := sound.memory
      obtain ⟨members, owned, scheduled, placed⟩ := sound.threads
      refine ⟨⟨memory_step_sound before allowed.1 moved, sound.pending, members, owned, scheduled,
        ?_⟩, [], by simp, rfl⟩
      apply placed_kept placed owned
      intro address size allocated live
      exact memory_step_keeps_live moved live fun freed member same =>
        allowed.2 freed member (same ▸ allocated)

theorem RunsAs.trans {first second third : TaskModel.Kernel} (left : RunsAs image first second)
    (right : RunsAs image second third) : RunsAs image first third := by
  obtain ⟨before, onlyBefore, reached⟩ := left
  obtain ⟨after, onlyAfter, run⟩ := right
  refine ⟨before ++ after, ?_, (run_append reached).trans run⟩
  intro op member
  exact (List.mem_append.mp member).elim (onlyBefore op) (onlyAfter op)

/-! ## The spaces of the threads -/

/-- No byte of a linked struct is in a stack, and two tasks share neither. -/
theorem linked_apart (pool : Pool base framesNumber)
    (below : image.kernelStack + stackSizeKernel ≤ pageAt base 0)
    (safe : MemorySafe base framesNumber system.memory) {members : Members}
    (owned : Owned image system.tasks members)
    (placed : Placed image system.memory.live system.tasks members) {address other : Nat}
    (here : Node.task address ∈ members .tasks) (there : Node.task other ∈ members .tasks) :
    let stack := (system.tasks.task (.task address)).stack
    let otherStack := (system.tasks.task (.task other)).stack
    (address + taskSize < wordSize ∧ stack + stackSizeKernel < wordSize) ∧
      RangesApart address taskSize otherStack stackSizeKernel ∧
      (address ≠ other → RangesApart address taskSize other taskSize ∧
        RangesApart stack stackSizeKernel otherStack stackSizeKernel) := by
  intro stack otherStack
  have live := placed.struct_live .tasks address here
  have inside := region_inside pool safe live
  have stackWhole : stack + stackSizeKernel < wordSize := by
    rcases placed.stack_live .tasks _ here with static | held
    · have low := inside.1
      have high := inside.2
      have own : stack = image.kernelStack := static
      dsimp only at low high
      omega
    · exact (region_inside pool safe held).2
  refine ⟨⟨inside.2, stackWhole⟩, ?_, fun different => ⟨?_, ?_⟩⟩
  · rcases placed.stack_live .tasks _ there with static | held
    · have own : otherStack = image.kernelStack := static
      rw [own]
      exact Or.inr (le_trans below inside.1)
    · exact regions_apart safe live held (by simp [taskSize, stackSizeKernel])
  · exact regions_apart safe live (placed.struct_live .tasks other there) (by simp [different])
  · have unshared : stack ≠ otherStack := fun same =>
      different (Node.task.inj (owned.stack_unique .tasks .tasks _ _ here there same))
    rcases placed.stack_live .tasks _ here with static | held
    · rcases placed.stack_live .tasks _ there with otherStatic | otherHeld
      · exact absurd (static.trans otherStatic.symm) unshared
      · have own : stack = image.kernelStack := static
        rw [own]
        exact Or.inl (le_trans below (region_inside pool safe otherHeld).1)
    · rcases placed.stack_live .tasks _ there with otherStatic | otherHeld
      · have own : otherStack = image.kernelStack := otherStatic
        rw [own]
        exact Or.inr (le_trans below (region_inside pool safe held).1)
      · exact regions_apart safe held otherHeld fun same => unshared (Prod.mk.inj same).1

/-- The linked tasks with their contexts and stacks are threads that can be switched. -/
theorem linked_layout (pool : Pool base framesNumber)
    (below : image.kernelStack + stackSizeKernel ≤ pageAt base 0)
    (sound : SystemSound image base framesNumber system) :
    ∃ layout : Layout {address // InTasksRing system.tasks (.task address)}, ∀ thread,
      (layout.context thread).toNat = thread.1 + 20 ∧
      layout.low thread = (system.tasks.task (.task thread.1)).stack ∧
      layout.high thread = (system.tasks.task (.task thread.1)).stack + stackSizeKernel := by
  obtain ⟨pages, memory⟩ := sound.memory
  obtain ⟨members, owned, scheduled, placed⟩ := sound.threads
  have linked : ∀ thread : {address // InTasksRing system.tasks (.task address)},
      Node.task thread.1 ∈ members .tasks := fun thread => scheduled.mem_of_in_ring thread.2
  have facts := fun one two =>
    linked_apart pool below (memory_safe memory) owned placed (linked one) (linked two)
  have word : wordSize = 2 ^ 32 := rfl
  have size : taskSize = 60 := rfl
  have context : ∀ thread : {address // InTasksRing system.tasks (.task address)},
      (BitVec.ofNat 32 (thread.1 + 20)).toNat = thread.1 + 20 := by
    intro thread
    have inside := (facts thread thread).1.1
    rw [BitVec.toNat_ofNat]
    exact Nat.mod_eq_of_lt (by omega)
  refine ⟨{
    context := fun thread => BitVec.ofNat 32 (thread.1 + 20)
    low := fun thread => (system.tasks.task (.task thread.1)).stack
    high := fun thread => (system.tasks.task (.task thread.1)).stack + stackSizeKernel
    context_end := ?_
    stack_end := ?_
    contexts_apart := ?_
    stacks_apart := ?_
    context_off_stack := ?_ }, fun thread => ⟨context thread, rfl, rfl⟩⟩
  · intro thread
    have inside := (facts thread thread).1.1
    rw [context, contextSize]
    omega
  · intro thread
    exact Nat.le_of_lt (word ▸ (facts thread thread).1.2)
  · intro thread other different
    have apart := ((facts thread other).2.2 fun same => different (Subtype.ext same)).1
    rw [context, context, contextSize]
    unfold RangesApart at *
    omega
  · intro thread other different
    exact ((facts thread other).2.2 fun same => different (Subtype.ext same)).2
  · intro thread other
    have apart := (facts thread other).2.1
    rw [context, contextSize]
    unfold RangesApart at apart
    omega

/-- The static stack is before the frame table, what `kmalloc` gave is behind it. -/
theorem linked_off_table {kernelEnd : Nat} (below : TableBelow kernelEnd base framesNumber)
    (static : image.kernelStack + stackSizeKernel ≤ pageOffset + kernelEnd)
    (sound : SystemSound image base framesNumber system) {address : Nat}
    (linked : InTasksRing system.tasks (.task address)) :
    RegionsApart (tableRegion kernelEnd framesNumber) (address, taskSize) ∧
      RegionsApart (tableRegion kernelEnd framesNumber)
        ((system.tasks.task (.task address)).stack, stackSizeKernel) := by
  obtain ⟨pages, memory⟩ := sound.memory
  obtain ⟨members, -, scheduled, placed⟩ := sound.threads
  have here := scheduled.mem_of_in_ring linked
  have behind : ∀ region ∈ system.memory.live,
      RegionsApart (tableRegion kernelEnd framesNumber) region := by
    intro region live
    exact off_table below ((memory_safe memory).inside region (List.mem_append_left _ live)).1
  refine ⟨behind _ (placed.struct_live .tasks address here), ?_⟩
  rcases placed.stack_live .tasks _ here with own | held
  · rw [own]
    exact Or.inr static
  · exact behind _ held

/-! ## Runs from boot -/

theorem init_threads_sound {pages : List Nat} {memory : MemoryState}
    (sound : MemorySound base framesNumber pages memory)
    (granted : Granted memory.kernel taskSize) {boot : Boot}
    (init : initThreads image boot memory = some system) :
    SystemSound image base framesNumber system := by
  obtain ⟨newTask, call, rest⟩ := Option.bind_eq_some_iff.mp init
  obtain ⟨tasks, made, rfl⟩ := Option.map_eq_some_iff.mp rest
  obtain ⟨after, live⟩ := kmalloc_call_sound sound (by decide) granted call
  obtain ⟨-, -, -, heap, -, -, -, pending, -, stack, -⟩ := init_task_cases made
  have only : ∀ ring node, node ∈ initialMembers newTask.1 ring → node = .task newTask.1 := by
    intro ring node member
    by_cases tasks : ring = .tasks
    · subst tasks
      simpa [initialMembers] using member
    · simp [initialMembers, tasks] at member
  refine ⟨after, pending, _, init_task_owned made, init_task_scheduled made, ?_⟩
  rw [live]
  constructor
  case struct_live =>
      intro ring address member
      rw [Node.task.inj (only ring _ member)]
      exact List.mem_cons_self
  case stack_live =>
      intro ring node member
      rw [only ring node member]
      exact Or.inl stack
  case held_live =>
      intro address allocated
      rw [heap] at allocated
      rw [show address = newTask.1 from allocated.resolve_right id]
      exact ⟨taskSize, by decide, List.mem_cons_self⟩

end Steps

/-- Two threads, and requests of others before, between and after. -/
def sampleSystemOps : List SystemOp :=
  [.threadCreate 0xC0102000 7, .memory (.kmalloc 100), .taskSchedule, .taskSchedule,
    .threadCreate 0xC0103000 8, .memory (.frames (.frameAlloc 1)), .memory (.kmalloc 0x4000),
    .taskSchedule]

end ChaoOS.ThreadMemory
