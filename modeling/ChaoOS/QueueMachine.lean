import ChaoOS.GuardedRun
import ChaoOS.KernelMath
import ChaoOS.ThreadPhases

/-!
# Any number of threads on one circular queue

`circular_enqueue` and `circular_dequeue` of `klib/queue.h`, cut at the steps
between which the timer can switch threads: each `circular_count` call is one
step, and so is every other read or write of `begin` and of `arr`, every test of
a waiting list and every move from or to one. The two operands of the index, and
the two effects of `arr[begin ++]`, come in either order.

A thread is switched in only when it is off the waiting lists, except by
`switchIn`, which runs a listed thread all the same. Moving the first node of an
empty list would take the list's own head into the ring of tasks; no step
follows the kernel there.
-/

namespace ChaoOS.QueueMachine

open ChaoOS.KernelMath ChaoOS.ThreadPhases

set_option autoImplicit false

/-- Where a thread is in the two calls, with the values it has read. -/
inductive Phase where
  | outside
  /-- the queue was full; the move to the list is next -/
  | enqFailed (ele : Nat)
  | enqAsleep (ele : Nat)
  /-- off the list; the test is next -/
  | enqWoken (ele : Nat)
  | enqPassed (ele : Nat)
  /-- `begin` is read; `circular_count(1)` is next -/
  | enqBegin (ele begin : Nat)
  /-- `circular_count(1)` has answered; `begin` is next -/
  | enqCounted (ele count : Nat)
  | enqIndexed (ele index : Nat)
  | enqWritten
  | enqWaking
  | deqFailed
  | deqAsleep
  | deqWoken
  | deqPassed
  /-- `circular_count(-1)` has answered -/
  | deqCounted
  | deqBegin (begin : Nat)
  /-- `begin` is increased, the slot still to be read -/
  | deqAdvanced (begin : Nat)
  /-- the slot is read, `begin` still to be increased -/
  | deqTaken (begin ret : Nat)
  | deqRead (ret : Nat)
  /-- `begin` is read for `begin %= size` -/
  | deqWrap (ret begin : Nat)
  | deqWrapped (ret : Nat)
  | deqWaking (ret : Nat)
  deriving DecidableEq, Repr

/-- `enqueued` and `dequeued` log the values: a call logs its own when it counts
it in and when it reads it. -/
structure QueueState (Thread : Type*) extends Phases Thread Phase where
  begin : Nat
  count : Nat
  arr : Nat → Nat
  producer : List Thread
  consumer : List Thread
  enqueued : List Nat
  dequeued : List Nat

inductive QueueOp (Thread : Type*) where
  | circularEnqueue (thread : Thread) (ele : Nat)
  | circularDequeue (thread : Thread)
  | testAgain (thread : Thread)
  | switchIn (thread : Thread)
  | listMoveToTail (thread : Thread)
  | readBegin (thread : Thread)
  | countUp (thread : Thread)
  | countDown (thread : Thread)
  | writeSlot (thread : Thread)
  | readSlot (thread : Thread)
  | advanceBegin (thread : Thread)
  | readWrap (thread : Thread)
  | writeWrap (thread : Thread)
  | testWaiting (thread : Thread)
  | wakeFirst (thread : Thread)
  deriving DecidableEq, Repr

variable {Thread : Type*} [DecidableEq Thread]

abbrev QueueState.setPhase (state : QueueState Thread) (thread : Thread) (phase : Phase) :
    QueueState Thread :=
  { state with toPhases := state.move thread phase }

/-- `circular_count(0)` and the test of `circular_enqueue`. -/
def testFull (size : Nat) (state : QueueState Thread) (thread : Thread) (ele : Nat) :
    QueueState Thread :=
  state.setPhase thread (if size ≤ state.count then .enqFailed ele else .enqPassed ele)

/-- `circular_count(0)` and the test of `circular_dequeue`. -/
def testEmpty (state : QueueState Thread) (thread : Thread) : QueueState Thread :=
  state.setPhase thread (if state.count = 0 then .deqFailed else .deqPassed)

def indexOf (size begin count : Nat) : Nat := sub32 (add32 begin count) 1 % size

/-- The phase of a thread taken off a list, which only matters to it if it sleeps. -/
def wokenPhase : Phase → Phase
  | .enqAsleep ele => .enqWoken ele
  | .deqAsleep => .deqWoken
  | phase => phase

/-- One step of `thread`; `none` for a step it is not at. -/
def step (size : Nat) (state : QueueState Thread) : QueueOp Thread → Option (QueueState Thread)
  | .circularEnqueue thread ele =>
      match state.phase thread with
      | .outside => some (testFull size state thread ele)
      | _ => none
  | .circularDequeue thread =>
      match state.phase thread with
      | .outside => some (testEmpty state thread)
      | _ => none
  | .testAgain thread =>
      match state.phase thread with
      | .enqWoken ele => some (testFull size state thread ele)
      | .deqWoken => some (testEmpty state thread)
      | _ => none
  | .switchIn thread =>
      match state.phase thread with
      | .enqAsleep ele => some (testFull size state thread ele)
      | .deqAsleep => some (testEmpty state thread)
      | _ => none
  | .listMoveToTail thread =>
      match state.phase thread with
      | .enqFailed ele =>
          some ({ state with producer := state.producer.erase thread ++ [thread] }.setPhase thread
            (.enqAsleep ele))
      | .deqFailed =>
          some ({ state with consumer := state.consumer.erase thread ++ [thread] }.setPhase thread
            .deqAsleep)
      | _ => none
  | .readBegin thread =>
      match state.phase thread with
      | .enqPassed ele => some (state.setPhase thread (.enqBegin ele state.begin))
      | .enqCounted ele count =>
          some (state.setPhase thread (.enqIndexed ele (indexOf size state.begin count)))
      | .deqCounted => some (state.setPhase thread (.deqBegin state.begin))
      | _ => none
  | .countUp thread =>
      let counted := add32 state.count 1
      match state.phase thread with
      | .enqPassed ele =>
          some ({ state with count := counted, enqueued := ele :: state.enqueued }.setPhase thread
            (.enqCounted ele counted))
      | .enqBegin ele begin =>
          some ({ state with count := counted, enqueued := ele :: state.enqueued }.setPhase thread
            (.enqIndexed ele (indexOf size begin counted)))
      | _ => none
  | .countDown thread =>
      match state.phase thread with
      | .deqPassed =>
          some ({ state with count := add32 state.count (wordSize - 1) }.setPhase thread
            .deqCounted)
      | _ => none
  | .writeSlot thread =>
      match state.phase thread with
      | .enqIndexed ele index =>
          some ({ state with arr := Function.update state.arr index ele }.setPhase thread
            .enqWritten)
      | _ => none
  | .readSlot thread =>
      match state.phase thread with
      | .deqBegin begin =>
          some ({ state with dequeued := state.arr begin :: state.dequeued }.setPhase thread
            (.deqTaken begin (state.arr begin)))
      | .deqAdvanced begin =>
          some ({ state with dequeued := state.arr begin :: state.dequeued }.setPhase thread
            (.deqRead (state.arr begin)))
      | _ => none
  | .advanceBegin thread =>
      match state.phase thread with
      | .deqBegin begin =>
          some ({ state with begin := add32 begin 1 }.setPhase thread (.deqAdvanced begin))
      | .deqTaken begin ret =>
          some ({ state with begin := add32 begin 1 }.setPhase thread (.deqRead ret))
      | _ => none
  | .readWrap thread =>
      match state.phase thread with
      | .deqRead ret => some (state.setPhase thread (.deqWrap ret state.begin))
      | _ => none
  | .writeWrap thread =>
      match state.phase thread with
      | .deqWrap ret begin =>
          some ({ state with begin := begin % size }.setPhase thread (.deqWrapped ret))
      | _ => none
  | .testWaiting thread =>
      match state.phase thread with
      | .enqWritten =>
          some (state.setPhase thread (if state.consumer = [] then .outside else .enqWaking))
      | .deqWrapped ret =>
          some (state.setPhase thread (if state.producer = [] then .outside else .deqWaking ret))
      | _ => none
  | .wakeFirst thread =>
      match state.phase thread, state.consumer, state.producer with
      | .enqWaking, first :: rest, _ =>
          some (({ state with consumer := rest }.setPhase first
            (wokenPhase (state.phase first))).setPhase thread .outside)
      | .deqWaking _, _, first :: rest =>
          some (({ state with producer := rest }.setPhase first
            (wokenPhase (state.phase first))).setPhase thread .outside)
      | _, _, _ => none

/-- `CIRCULAR_QUEUE_INIT` over an array of any contents. -/
def emptyQueue (arr : Nat → Nat) : QueueState Thread where
  begin := 0
  count := 0
  arr := arr
  producer := []
  consumer := []
  phase := fun _ => .outside
  enqueued := []
  dequeued := []

/-- What `circular_count(-1)` adds takes one away from a positive count. -/
theorem count_down {count : Nat} (small : count < wordSize) (positive : 0 < count) :
    add32 count (wordSize - 1) = count - 1 := by
  have wraps : count + (wordSize - 1) = count - 1 + wordSize := by omega
  rw [add32, wraps, Nat.add_mod_right]
  exact Nat.mod_eq_of_lt (by omega)

/-- What a step can do, one constructor for each way through the two calls. -/
inductive Move (size : Nat) (state : QueueState Thread) (thread : Thread) :
    QueueOp Thread → QueueState Thread → Prop where
  | testsFull {op : QueueOp Thread} (ele : Nat)
      (before : op = .circularEnqueue thread ele ∧ state.phase thread = .outside ∨
        op = .testAgain thread ∧ state.phase thread = .enqWoken ele ∨
        op = .switchIn thread ∧ state.phase thread = .enqAsleep ele) :
      Move size state thread op (testFull size state thread ele)
  | testsEmpty {op : QueueOp Thread}
      (before : op = .circularDequeue thread ∧ state.phase thread = .outside ∨
        op = .testAgain thread ∧ state.phase thread = .deqWoken ∨
        op = .switchIn thread ∧ state.phase thread = .deqAsleep) :
      Move size state thread op (testEmpty state thread)
  | enqSleeps (ele : Nat) (before : state.phase thread = .enqFailed ele) :
      Move size state thread (.listMoveToTail thread)
        ({ state with producer := state.producer.erase thread ++ [thread] }.setPhase thread
          (.enqAsleep ele))
  | deqSleeps (before : state.phase thread = .deqFailed) :
      Move size state thread (.listMoveToTail thread)
        ({ state with consumer := state.consumer.erase thread ++ [thread] }.setPhase thread
          .deqAsleep)
  | enqReadsFirst (ele : Nat) (before : state.phase thread = .enqPassed ele) :
      Move size state thread (.readBegin thread)
        (state.setPhase thread (.enqBegin ele state.begin))
  | enqReadsSecond (ele count : Nat) (before : state.phase thread = .enqCounted ele count) :
      Move size state thread (.readBegin thread)
        (state.setPhase thread (.enqIndexed ele (indexOf size state.begin count)))
  | deqReadsBegin (before : state.phase thread = .deqCounted) :
      Move size state thread (.readBegin thread) (state.setPhase thread (.deqBegin state.begin))
  | countsFirst (ele : Nat) (before : state.phase thread = .enqPassed ele) :
      Move size state thread (.countUp thread)
        ({ state with count := add32 state.count 1, enqueued := ele :: state.enqueued }.setPhase
          thread (.enqCounted ele (add32 state.count 1)))
  | countsSecond (ele begin : Nat) (before : state.phase thread = .enqBegin ele begin) :
      Move size state thread (.countUp thread)
        ({ state with count := add32 state.count 1, enqueued := ele :: state.enqueued }.setPhase
          thread (.enqIndexed ele (indexOf size begin (add32 state.count 1))))
  | countsDown (before : state.phase thread = .deqPassed) :
      Move size state thread (.countDown thread)
        ({ state with count := add32 state.count (wordSize - 1) }.setPhase thread .deqCounted)
  | writesSlot (ele index : Nat) (before : state.phase thread = .enqIndexed ele index) :
      Move size state thread (.writeSlot thread)
        ({ state with arr := Function.update state.arr index ele }.setPhase thread .enqWritten)
  | readsSlotFirst (begin : Nat) (before : state.phase thread = .deqBegin begin) :
      Move size state thread (.readSlot thread)
        ({ state with dequeued := state.arr begin :: state.dequeued }.setPhase thread
          (.deqTaken begin (state.arr begin)))
  | readsSlotSecond (begin : Nat) (before : state.phase thread = .deqAdvanced begin) :
      Move size state thread (.readSlot thread)
        ({ state with dequeued := state.arr begin :: state.dequeued }.setPhase thread
          (.deqRead (state.arr begin)))
  | advancesFirst (begin : Nat) (before : state.phase thread = .deqBegin begin) :
      Move size state thread (.advanceBegin thread)
        ({ state with begin := add32 begin 1 }.setPhase thread (.deqAdvanced begin))
  | advancesSecond (begin ret : Nat) (before : state.phase thread = .deqTaken begin ret) :
      Move size state thread (.advanceBegin thread)
        ({ state with begin := add32 begin 1 }.setPhase thread (.deqRead ret))
  | readsWrap (ret : Nat) (before : state.phase thread = .deqRead ret) :
      Move size state thread (.readWrap thread)
        (state.setPhase thread (.deqWrap ret state.begin))
  | writesWrap (ret begin : Nat) (before : state.phase thread = .deqWrap ret begin) :
      Move size state thread (.writeWrap thread)
        ({ state with begin := begin % size }.setPhase thread (.deqWrapped ret))
  | enqTests (before : state.phase thread = .enqWritten) :
      Move size state thread (.testWaiting thread)
        (state.setPhase thread (if state.consumer = [] then .outside else .enqWaking))
  | deqTests (ret : Nat) (before : state.phase thread = .deqWrapped ret) :
      Move size state thread (.testWaiting thread)
        (state.setPhase thread (if state.producer = [] then .outside else .deqWaking ret))
  | wakesConsumer (first : Thread) (rest : List Thread)
      (before : state.phase thread = .enqWaking) (listed : state.consumer = first :: rest) :
      Move size state thread (.wakeFirst thread)
        (({ state with consumer := rest }.setPhase first
          (wokenPhase (state.phase first))).setPhase thread .outside)
  | wakesProducer (ret : Nat) (first : Thread) (rest : List Thread)
      (before : state.phase thread = .deqWaking ret) (listed : state.producer = first :: rest) :
      Move size state thread (.wakeFirst thread)
        (({ state with producer := rest }.setPhase first
          (wokenPhase (state.phase first))).setPhase thread .outside)

theorem step_move {size : Nat} {state next : QueueState Thread} {op : QueueOp Thread}
    (stepped : step size state op = some next) : ∃ thread, Move size state thread op next := by
  cases op with
  | circularEnqueue thread ele =>
      refine ⟨thread, ?_⟩
      simp only [step] at stepped
      split at stepped <;> cases stepped
      next before => exact .testsFull ele (Or.inl ⟨rfl, before⟩)
  | circularDequeue thread =>
      refine ⟨thread, ?_⟩
      simp only [step] at stepped
      split at stepped <;> cases stepped
      next before => exact .testsEmpty (Or.inl ⟨rfl, before⟩)
  | testAgain thread =>
      refine ⟨thread, ?_⟩
      simp only [step] at stepped
      split at stepped <;> cases stepped
      next ele before => exact .testsFull ele (Or.inr (Or.inl ⟨rfl, before⟩))
      next before => exact .testsEmpty (Or.inr (Or.inl ⟨rfl, before⟩))
  | switchIn thread =>
      refine ⟨thread, ?_⟩
      simp only [step] at stepped
      split at stepped <;> cases stepped
      next ele before => exact .testsFull ele (Or.inr (Or.inr ⟨rfl, before⟩))
      next before => exact .testsEmpty (Or.inr (Or.inr ⟨rfl, before⟩))
  | listMoveToTail thread =>
      refine ⟨thread, ?_⟩
      simp only [step] at stepped
      split at stepped <;> cases stepped
      next ele before => exact .enqSleeps ele before
      next before => exact .deqSleeps before
  | readBegin thread =>
      refine ⟨thread, ?_⟩
      simp only [step] at stepped
      split at stepped <;> cases stepped
      next ele before => exact .enqReadsFirst ele before
      next ele count before => exact .enqReadsSecond ele count before
      next before => exact .deqReadsBegin before
  | countUp thread =>
      refine ⟨thread, ?_⟩
      simp only [step] at stepped
      split at stepped <;> cases stepped
      next ele before => exact .countsFirst ele before
      next ele begin before => exact .countsSecond ele begin before
  | countDown thread =>
      refine ⟨thread, ?_⟩
      simp only [step] at stepped
      split at stepped <;> cases stepped
      next before => exact .countsDown before
  | writeSlot thread =>
      refine ⟨thread, ?_⟩
      simp only [step] at stepped
      split at stepped <;> cases stepped
      next ele index before => exact .writesSlot ele index before
  | readSlot thread =>
      refine ⟨thread, ?_⟩
      simp only [step] at stepped
      split at stepped <;> cases stepped
      next begin before => exact .readsSlotFirst begin before
      next begin before => exact .readsSlotSecond begin before
  | advanceBegin thread =>
      refine ⟨thread, ?_⟩
      simp only [step] at stepped
      split at stepped <;> cases stepped
      next begin before => exact .advancesFirst begin before
      next begin ret before => exact .advancesSecond begin ret before
  | readWrap thread =>
      refine ⟨thread, ?_⟩
      simp only [step] at stepped
      split at stepped <;> cases stepped
      next ret before => exact .readsWrap ret before
  | writeWrap thread =>
      refine ⟨thread, ?_⟩
      simp only [step] at stepped
      split at stepped <;> cases stepped
      next ret begin before => exact .writesWrap ret begin before
  | testWaiting thread =>
      refine ⟨thread, ?_⟩
      simp only [step] at stepped
      split at stepped <;> cases stepped
      next before => exact .enqTests before
      next ret before => exact .deqTests ret before
  | wakeFirst thread =>
      refine ⟨thread, ?_⟩
      simp only [step] at stepped
      split at stepped <;> cases stepped
      next first rest before listed => exact .wakesConsumer first rest before listed
      next ret first rest before listed => exact .wakesProducer ret first rest before listed

end ChaoOS.QueueMachine
