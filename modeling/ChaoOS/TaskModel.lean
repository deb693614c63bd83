import ChaoOS.GuardedRun
import ChaoOS.HashMapModel
import ChaoOS.ListHead
import ChaoOS.PageDirectory

/-!
# Threads, the scheduler and what blocks on it

`kernel/task.c`, `kernel/schedule.c`, the mutex of `kernel/sync.h` and the
queue of `klib/queue.h`. A `task_struct_t*` is named by the node of its
`list_head`, so `container_of` is the identity on nodes, also on a node that is
no task's. The addresses that `kmalloc` answers are part of the operation that
calls it; an address that is still allocated, that is not a kernel address or
that belongs to the image is no answer. The table of the hash map is not logged.

A call runs from its start, or from the point where its thread is switched in
again, to its return or to the end of the `task_schedule` it sleeps in; the
timer's own `task_schedule` is an operation of its own between these. No tick
falls inside `circular_count`, so the lock of a queue is free whenever it is
asked for and is left out.
-/

namespace ChaoOS.TaskModel

open ChaoOS.HashMapModel ChaoOS.KernelMath ChaoOS.LinkedRing ChaoOS.ListHead
open ChaoOS.PageDirectory (Memory store pageOffset)

set_option autoImplicit false

inductive RingId where
  | tasks
  | waitingList (lock : Nat)
  | producer (queue : Nat)
  | consumer (queue : Nat)
  deriving DecidableEq, Repr

inductive Node where
  | null
  | head (ring : RingId)
  | task (address : Nat)
  deriving DecidableEq, Repr

inductive TaskState where
  | uninit
  | sleeping
  | runnable
  | zombie
  deriving DecidableEq, Repr

/-- The two registers `thread_create` fills in. -/
structure Context where
  esp : Nat
  eflags : Nat
  deriving DecidableEq, Repr

structure TaskStruct where
  flags : Nat
  priority : Nat
  pid : Nat
  ppid : Nat
  stack : Nat
  context : Context
  pageDir : Nat
  state : TaskState
  deriving DecidableEq, Repr

/-- `value` is zero for `__ATOMIC_RELAXED`; `holder` is a word, all ones for `-1`. -/
structure Mutex where
  value : Nat
  holder : Nat
  deriving DecidableEq, Repr

structure CircularQueue where
  begin : Nat
  count : Nat
  size : Nat
  arr : Nat → Nat

inductive HeapEvent where
  | kmalloc (address : Nat)
  | kfree (address : Nat)
  deriving DecidableEq, Repr

/-- The calls a thread can fall asleep in. -/
inductive Call where
  | mutexAcquire (lock : Nat)
  | circularEnqueue (ele queue : Nat)
  | circularDequeue (queue : Nat)
  deriving DecidableEq, Repr

/-- `heap` is the log of the `kmalloc` and `kfree` calls of `task.c`, newest
first; `pending` is the call a thread has not returned from. -/
structure Kernel where
  links : Links Node
  task : Node → TaskStruct
  currentTask : Node
  nextTask : Node
  currentPid : Nat
  tasksMap : HashMap
  memory : Memory
  heap : List HeapEvent
  locks : Nat → Mutex
  queues : Nat → CircularQueue
  pending : Node → Option Call

/-- Addresses the linker fixes; the directory is linked above `PAGE_OFFSET`. -/
structure TaskImage where
  kernelStack : Nat
  pgdK : Nat
  threadExit : Nat
  pgd_linked : pageOffset ≤ pgdK ∧ pgdK < wordSize

/-- Allocated and not freed since, as the log tells. -/
def Allocated : List HeapEvent → Nat → Prop
  | [], _ => False
  | .kmalloc address :: log, other => other = address ∨ Allocated log other
  | .kfree address :: log, other => other ≠ address ∧ Allocated log other

instance decidableAllocated : (log : List HeapEvent) → (address : Nat) →
    Decidable (Allocated log address)
  | [], _ => inferInstanceAs (Decidable False)
  | .kmalloc address :: log, other =>
      have := decidableAllocated log other
      inferInstanceAs (Decidable (other = address ∨ Allocated log other))
  | .kfree address :: log, other =>
      have := decidableAllocated log other
      inferInstanceAs (Decidable (other ≠ address ∧ Allocated log other))

/-- What `kmalloc` may answer. -/
def Answer (image : TaskImage) (log : List HeapEvent) (address : Nat) : Prop :=
  pageOffset ≤ address ∧ address < wordSize ∧ address ≠ image.kernelStack ∧ ¬Allocated log address

instance (image : TaskImage) (log : List HeapEvent) (address : Nat) :
    Decidable (Answer image log address) :=
  inferInstanceAs (Decidable (_ ∧ _))

def stackSizeKernel : Nat := 0x4000

def setTask (kernel : Kernel) (node : Node) (change : TaskStruct → TaskStruct) : Kernel :=
  { kernel with task := Function.update kernel.task node (change (kernel.task node)) }

/-! ## `task.c` -/

/-- What the kernel finds before `init_task`: memory, which holds structs that
nobody has filled in, and the sizes and arrays of the queues. -/
structure Boot where
  memory : Memory
  structs : Node → TaskStruct
  sizes : Nat → Nat
  arrays : Nat → Nat → Nat

/-- The statically initialised kernel: empty lists, free locks, empty queues. -/
def bootKernel (boot : Boot) : Kernel where
  links :=
    { next := fun node => match node with
        | .head ring => .head ring
        | _ => .null
      prev := fun node => match node with
        | .head ring => .head ring
        | _ => .null }
  task := boot.structs
  currentTask := .null
  nextTask := .null
  currentPid := 0
  tasksMap := mapInit
  memory := boot.memory
  heap := []
  locks := fun _ => { value := 0, holder := noHolder }
  queues := fun queue => { begin := 0, count := 0, size := boot.sizes queue, arr := boot.arrays queue }
  pending := fun _ => none

def initTask (image : TaskImage) (newTask : Nat) (kernel : Kernel) : Option Kernel :=
  if Answer image kernel.heap newTask then
    let kernel := { kernel with tasksMap := mapInit, currentPid := 0 }
    let kernel := { kernel with heap := .kmalloc newTask :: kernel.heap }
    let pid := kernel.currentPid
    let kernel := { kernel with currentPid := add32 kernel.currentPid 1 }
    let kernel := setTask kernel (.task newTask) fun struct =>
      { struct with
        flags := 0
        priority := 0
        pid := pid
        ppid := wordSize - 1
        stack := image.kernelStack
        pageDir := sub32 image.pgdK pageOffset
        state := .runnable }
    let kernel := { kernel with currentTask := .task newTask, nextTask := .task newTask }
    (mapInsert pid newTask kernel.tasksMap).map fun tasksMap =>
      { kernel with
        tasksMap := tasksMap
        links := listAddTail kernel.links (.task newTask) (.head .tasks) }
  else none

/-- The answer carries the new pid. -/
def threadCreate (image : TaskImage) (fn arg newTask newStack : Nat) (kernel : Kernel) :
    Option (Nat × Kernel) :=
  if Answer image kernel.heap newTask ∧ Answer image (.kmalloc newTask :: kernel.heap) newStack then
    let kernel := { kernel with heap := .kmalloc newStack :: .kmalloc newTask :: kernel.heap }
    let pid := kernel.currentPid
    let ppid := (kernel.task kernel.currentTask).pid
    let kernel := { kernel with currentPid := add32 kernel.currentPid 1 }
    let top := add32 newStack stackSizeKernel
    let memory := store kernel.memory (sub32 top 4) image.threadExit
    let memory := store memory (sub32 top 8) arg
    let memory := store memory (sub32 top 12) fn
    let kernel := { kernel with memory := memory }
    let kernel := setTask kernel (.task newTask) fun struct =>
      { struct with
        flags := 0
        priority := 0
        pid := pid
        ppid := ppid
        stack := newStack
        context := { esp := sub32 top 12, eflags := 0x200 }
        pageDir := sub32 image.pgdK pageOffset
        state := .runnable }
    (mapInsert pid newTask kernel.tasksMap).map fun tasksMap =>
      (pid,
        { kernel with
          tasksMap := tasksMap
          links := listAddTail kernel.links (.task newTask) kernel.currentTask })
  else none

/-- The removal of a task that `map_find` has found. -/
def removeTask (pid : Nat) (task : Nat) (kernel : Kernel) : Option Kernel :=
  (mapDelete pid kernel.tasksMap).map fun tasksMap =>
    let struct := kernel.task (.task task)
    { kernel with
      tasksMap := tasksMap
      links := listDel .null kernel.links (.task task)
      heap := .kfree task :: .kfree struct.pageDir :: .kfree struct.stack :: kernel.heap }

def threadExit (pid : Nat) (kernel : Kernel) : Option Kernel :=
  if pid = 0 then some kernel
  else
    (mapFind pid 0 kernel.tasksMap).bind fun answer =>
      if answer.1 = 0 then some kernel else removeTask pid answer.2 kernel

/-! ## `schedule.c` -/

/-- `next_task`. -/
def nextTaskOf (links : Links Node) (task : Node) : Node :=
  let nextListHead := links.next task
  if nextListHead = .head .tasks then links.next nextListHead else nextListHead

def taskSchedule (kernel : Kernel) : Kernel :=
  if kernel.currentTask = .null then kernel
  else
    let nextTmp := kernel.nextTask
    let kernel := { kernel with nextTask := nextTaskOf kernel.links kernel.nextTask }
    if nextTmp ≠ kernel.currentTask then { kernel with currentTask := nextTmp } else kernel

/-! ## `sync.h` and `queue.h` -/

/-- The body of each waiting loop: join a list, sleep and schedule. -/
def sleepOn (ring : RingId) (kernel : Kernel) : Kernel :=
  let kernel :=
    { kernel with links := listMoveToTail .null kernel.links kernel.currentTask (.head ring) }
  let kernel := setTask kernel kernel.currentTask fun struct => { struct with state := .sleeping }
  taskSchedule kernel

/-- Take the first task off a list, if there is one, and run it next. -/
def wakeFirst (ring : RingId) (kernel : Kernel) : Kernel :=
  let tmp := kernel.links.next (.head ring)
  if tmp ≠ .head ring then
    let kernel := { kernel with links := listMoveToTail .null kernel.links tmp kernel.nextTask }
    let kernel := { kernel with nextTask := tmp }
    setTask kernel kernel.nextTask fun struct => { struct with state := .runnable }
  else kernel

def setLock (kernel : Kernel) (lock : Nat) (mutex : Mutex) : Kernel :=
  { kernel with locks := Function.update kernel.locks lock mutex }

def setQueue (kernel : Kernel) (queue : Nat) (contents : CircularQueue) : Kernel :=
  { kernel with queues := Function.update kernel.queues queue contents }

/-- `circular_count`. -/
def circularCount (add : Nat) (queue : Nat) (kernel : Kernel) : Nat × Kernel :=
  let contents := kernel.queues queue
  let count := add32 contents.count add
  (count, setQueue kernel queue { contents with count := count })

def mutexRelease (lock : Nat) (kernel : Kernel) : Kernel :=
  let kernel := wakeFirst (.waitingList lock) kernel
  setLock kernel lock { value := 0, holder := noHolder }

/-- Whether the test of the waiting loop puts the running thread to sleep. -/
def Blocks (kernel : Kernel) : Call → Prop
  | .mutexAcquire lock => (kernel.locks lock).value ≠ 0
  | .circularEnqueue _ queue => (kernel.queues queue).size ≤ (kernel.queues queue).count
  | .circularDequeue queue => (kernel.queues queue).count = 0

instance (kernel : Kernel) : (call : Call) → Decidable (Blocks kernel call)
  | .mutexAcquire lock => inferInstanceAs (Decidable ((kernel.locks lock).value ≠ 0))
  | .circularEnqueue _ queue =>
      inferInstanceAs (Decidable ((kernel.queues queue).size ≤ (kernel.queues queue).count))
  | .circularDequeue queue => inferInstanceAs (Decidable ((kernel.queues queue).count = 0))

def Call.waitsOn : Call → RingId
  | .mutexAcquire lock => .waitingList lock
  | .circularEnqueue _ queue => .producer queue
  | .circularDequeue queue => .consumer queue

/-- Where `circular_enqueue` stores, with the count it has raised. -/
def enqueueIndex (queue : Nat) (counted : Nat × Kernel) : Nat :=
  let contents := counted.2.queues queue
  sub32 (add32 contents.begin counted.1) 1 % contents.size

def enqueueElement (ele queue : Nat) (kernel : Kernel) : Kernel :=
  let counted := circularCount 1 queue kernel
  let index := enqueueIndex queue counted
  let kernel := counted.2
  let contents := kernel.queues queue
  let kernel := setQueue kernel queue { contents with arr := Function.update contents.arr index ele }
  wakeFirst (.consumer queue) kernel

/-- The answer carries the element taken. -/
def dequeueElement (queue : Nat) (kernel : Kernel) : Nat × Kernel :=
  let kernel := (circularCount (wordSize - 1) queue kernel).2
  let contents := kernel.queues queue
  let ret := contents.arr contents.begin
  let kernel := setQueue kernel queue
    { contents with begin := add32 contents.begin 1 % contents.size }
  (ret, wakeFirst (.producer queue) kernel)

/-- What a call does once its waiting loop lets it through. -/
def finishCall (kernel : Kernel) : Call → Kernel
  | .mutexAcquire lock =>
      setLock kernel lock { value := 1, holder := (kernel.task kernel.currentTask).pid }
  | .circularEnqueue ele queue => enqueueElement ele queue kernel
  | .circularDequeue queue => (dequeueElement queue kernel).2

def setPending (kernel : Kernel) (call : Option Call) : Kernel :=
  { kernel with pending := Function.update kernel.pending kernel.currentTask call }

/-- One round of a call's loop, from its test on. -/
def attempt (call : Call) (kernel : Kernel) : Kernel :=
  if Blocks kernel call then sleepOn call.waitsOn (setPending kernel (some call))
  else finishCall (setPending kernel none) call

/-! ## Operations of the running thread -/

inductive Op where
  | threadCreate (fn arg newTask newStack : Nat)
  | threadExit (pid : Nat)
  | taskSchedule
  | call (call : Call)
  | resume
  | mutexRelease (lock : Nat)
  deriving DecidableEq, Repr

/-- A thread that is inside a call can only go on with it or be preempted. -/
def step (image : TaskImage) (kernel : Kernel) (op : Op) : Option Kernel :=
  match op, kernel.pending kernel.currentTask with
  | .taskSchedule, _ => some (taskSchedule kernel)
  | .resume, some call => some (attempt call kernel)
  | .resume, none => none
  | _, some _ => none
  | .threadCreate fn arg newTask newStack, none =>
      (threadCreate image fn arg newTask newStack kernel).map Prod.snd
  | .threadExit pid, none => threadExit pid kernel
  | .call call, none => some (attempt call kernel)
  | .mutexRelease lock, none => some (mutexRelease lock kernel)

end ChaoOS.TaskModel
