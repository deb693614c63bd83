import Mathlib.Data.Fintype.Basic
import ChaoOS.QueueMachine
import ChaoOS.WakeDuties

/-!
# Wake-ups of the circular queue

A thread that sleeps is owed a wake-up as long as there is something for it.
Each element of the queue is answered for by a thread that is still on its way:
an enqueuer that has counted it and has yet to look at the list of consumers, or
a consumer that has been woken or has passed its test. Each free place is
answered for in the same way from the other side. So when nobody is on the way,
there is nothing left to wake for.
-/

namespace ChaoOS.QueueWakeUps

open ChaoOS.GuardedRun ChaoOS.KernelMath ChaoOS.QueueMachine ChaoOS.ThreadPhases
open ChaoOS.WakeDuties

set_option autoImplicit false

/-- On the way to waking a consumer or to taking an element. -/
def HelpsConsumers : Phase → Prop
  | .enqCounted _ _ | .enqIndexed _ _ | .enqWritten | .enqWaking => True
  | .deqWoken | .deqPassed => True
  | _ => False

/-- On the way to waking a producer or to filling a place. -/
def HelpsProducers : Phase → Prop
  | .deqCounted | .deqBegin _ | .deqAdvanced _ | .deqTaken _ _ | .deqRead _ | .deqWrap _ _ => True
  | .deqWrapped _ | .deqWaking _ => True
  | .enqWoken _ | .enqPassed _ | .enqBegin _ _ => True
  | _ => False

variable {Thread : Type*} [DecidableEq Thread] {thread : Thread}

/-! ## Both sides -/

def AsleepConsumer : Phase → Prop
  | .deqAsleep => True
  | _ => False

def FailedConsumer : Phase → Prop
  | .deqFailed => True
  | _ => False

def AsleepProducer : Phase → Prop
  | .enqAsleep _ => True
  | _ => False

def FailedProducer : Phase → Prop
  | .enqFailed _ => True
  | _ => False

/-- An element is something for a consumer, a free place for a producer. -/
structure Attended (size : Nat) (state : QueueState Thread) : Prop where
  bounded : state.count < wordSize
  consumers : Side AsleepConsumer FailedConsumer HelpsConsumers state.count state.consumer
    state.phase
  producers : Side AsleepProducer FailedProducer HelpsProducers (size - state.count)
    state.producer state.phase

/-- No listed thread is switched in, `count` does not wrap, nobody wakes from a
list that has been emptied, and no call finds the other side's list empty while
a thread is on its way there. -/
def WakesInTime (state : QueueState Thread) : QueueOp Thread → Prop
  | .switchIn _ => False
  | .countUp _ => state.count + 1 < wordSize
  | .countDown _ => 0 < state.count
  | .testWaiting thread =>
      if state.phase thread = .enqWritten then
        state.consumer = [] → ∀ other, ¬FailedConsumer (state.phase other)
      else state.producer = [] → ∀ other, ¬FailedProducer (state.phase other)
  | .wakeFirst thread =>
      if state.phase thread = .enqWaking then state.consumer ≠ [] else state.producer ≠ []
  | _ => True

variable {size : Nat} {state next : QueueState Thread} {op : QueueOp Thread}

theorem test_full_attended {old : Phase} {ele : Nat} (attended : Attended size state)
    (before : state.phase thread = old) (awakeConsumer : ¬AsleepConsumer old)
    (idle : ¬HelpsConsumers old) (awakeProducer : ¬AsleepProducer old) :
    Attended size (testFull size state thread ele) := by
  have noDuty : ∀ new, HelpsConsumers old → HelpsConsumers new := fun _ helps => absurd helps idle
  rw [testFull]
  split_ifs with full
  · exact ⟨attended.bounded, attended.consumers.quiet before awakeConsumer (noDuty _) id le_rfl,
      attended.producers.fails before awakeProducer (Nat.sub_eq_zero_of_le full)⟩
  · exact ⟨attended.bounded, attended.consumers.quiet before awakeConsumer (noDuty _) id le_rfl,
      attended.producers.quiet before awakeProducer (fun _ => trivial) id le_rfl⟩

theorem test_empty_attended {old : Phase} (attended : Attended size state)
    (before : state.phase thread = old) (awakeConsumer : ¬AsleepConsumer old)
    (awakeProducer : ¬AsleepProducer old) (idle : ¬HelpsProducers old) :
    Attended size (testEmpty state thread) := by
  have noDuty : ∀ new, HelpsProducers old → HelpsProducers new := fun _ helps => absurd helps idle
  rw [testEmpty]
  split_ifs with empty
  · exact ⟨attended.bounded, attended.consumers.fails before awakeConsumer empty,
      attended.producers.quiet before awakeProducer (noDuty _) id le_rfl⟩
  · exact ⟨attended.bounded,
      attended.consumers.quiet before awakeConsumer (fun _ => trivial) id le_rfl,
      attended.producers.quiet before awakeProducer (noDuty _) id le_rfl⟩

/-- A call that counts its element in answers for it, and one place is gone. -/
theorem count_up_attended {old new : Phase} {enqueued : List Nat} (attended : Attended size state)
    (room : state.count + 1 < wordSize) (before : state.phase thread = old)
    (awakeConsumer : ¬AsleepConsumer old) (idle : ¬HelpsConsumers old)
    (helping : HelpsConsumers new) (settledConsumer : ¬FailedConsumer new)
    (awakeProducer : ¬AsleepProducer old) (settledProducer : ¬FailedProducer new) :
    Attended size ({ state with count := add32 state.count 1, enqueued := enqueued }.setPhase
      thread new) := by
  rw [add32_of_lt room]
  refine ⟨room, ?_, ?_⟩
  · exact attended.consumers.gains before awakeConsumer idle helping settledConsumer le_rfl
  · have one : size - (state.count + 1) ≤ size - state.count - 1 := (Nat.sub_sub ..).ge
    exact attended.producers.loses before awakeProducer settledProducer one

theorem count_down_attended (attended : Attended size state) (stock : 0 < state.count)
    (before : state.phase thread = .deqPassed) :
    Attended size ({ state with count := add32 state.count (wordSize - 1) }.setPhase thread
      .deqCounted) := by
  rw [count_down attended.bounded stock]
  refine ⟨(Nat.sub_le ..).trans_lt attended.bounded, ?_, ?_⟩
  · exact attended.consumers.loses before id id le_rfl
  · have one : size - (state.count - 1) ≤ size - state.count + 1 := by omega
    exact attended.producers.gains before id id trivial id one

theorem asleep_consumer {phase : Phase} (asleep : AsleepConsumer phase) : phase = .deqAsleep := by
  cases phase <;> first | rfl | exact absurd asleep id

theorem asleep_producer {phase : Phase} (asleep : AsleepProducer phase) :
    ∃ ele, phase = .enqAsleep ele := by
  cases phase <;> first | exact ⟨_, rfl⟩ | exact absurd asleep id

theorem wake_consumer_attended {first : Thread} {rest : List Thread}
    (attended : Attended size state) (before : state.phase thread = .enqWaking)
    (listed : state.consumer = first :: rest) :
    Attended size (({ state with consumer := rest }.setPhase first
      (wokenPhase (state.phase first))).setPhase thread .outside) := by
  have consumers := attended.consumers
  rw [listed] at consumers
  have asleep := asleep_consumer (consumers.listed first List.mem_cons_self)
  have apart : thread ≠ first := by
    rintro rfl
    rw [before] at asleep
    cases asleep
  have kept : Function.update state.phase first Phase.deqWoken thread = .enqWaking := by
    rw [Function.update_of_ne apart, before]
  have idle : ∀ phase, AsleepConsumer phase → ¬HelpsConsumers phase := by
    intro phase sleeping
    rw [asleep_consumer sleeping]
    exact id
  have producers : Side AsleepProducer FailedProducer HelpsProducers (size - state.count)
      state.producer (Function.update state.phase first .deqWoken) :=
    attended.producers.quiet asleep id id id le_rfl
  rw [asleep]
  exact ⟨attended.bounded, consumers.wakes before id idle trivial,
    producers.quiet kept id id id le_rfl⟩

theorem wake_producer_attended {ret : Nat} {first : Thread} {rest : List Thread}
    (attended : Attended size state) (before : state.phase thread = .deqWaking ret)
    (listed : state.producer = first :: rest) :
    Attended size (({ state with producer := rest }.setPhase first
      (wokenPhase (state.phase first))).setPhase thread .outside) := by
  have producers := attended.producers
  rw [listed] at producers
  obtain ⟨ele, asleep⟩ := asleep_producer (producers.listed first List.mem_cons_self)
  have apart : thread ≠ first := by
    rintro rfl
    rw [before] at asleep
    cases asleep
  have kept : Function.update state.phase first (Phase.enqWoken ele) thread = .deqWaking ret := by
    rw [Function.update_of_ne apart, before]
  have idle : ∀ phase, AsleepProducer phase → ¬HelpsProducers phase := by
    intro phase sleeping
    obtain ⟨_, same⟩ := asleep_producer sleeping
    rw [same]
    exact id
  have consumers : Side AsleepConsumer FailedConsumer HelpsConsumers state.count state.consumer
      (Function.update state.phase first (.enqWoken ele)) :=
    attended.consumers.quiet asleep id id id le_rfl
  rw [asleep]
  exact ⟨attended.bounded, consumers.quiet kept id id id le_rfl,
    producers.wakes before id idle trivial⟩

/-- A step that neither counts nor lists keeps both sides when the thread keeps
its duties. -/
theorem Attended.quiet {old new : Phase} {begin : Nat} {arr : Nat → Nat} {dequeued : List Nat}
    (attended : Attended size state) (before : state.phase thread = old)
    (awakeConsumer : ¬AsleepConsumer old) (keptConsumer : HelpsConsumers old → HelpsConsumers new)
    (settledConsumer : ¬FailedConsumer new) (awakeProducer : ¬AsleepProducer old)
    (keptProducer : HelpsProducers old → HelpsProducers new)
    (settledProducer : ¬FailedProducer new) :
    Attended size
      ({ state with begin := begin, arr := arr, dequeued := dequeued }.setPhase thread new) := by
  constructor
  · exact attended.bounded
  · exact attended.consumers.quiet before awakeConsumer keptConsumer settledConsumer le_rfl
  · exact attended.producers.quiet before awakeProducer keptProducer settledProducer le_rfl

theorem move_attended (attended : Attended size state) (allowed : WakesInTime state op)
    (move : Move size state thread op next) : Attended size next := by
  cases move with
  | testsFull ele before =>
      rcases before with ⟨-, before⟩ | ⟨-, before⟩ | ⟨same, -⟩
      · exact test_full_attended attended before id id id
      · exact test_full_attended attended before id id id
      · subst same
        exact absurd allowed id
  | testsEmpty before =>
      rcases before with ⟨-, before⟩ | ⟨-, before⟩ | ⟨same, -⟩
      · exact test_empty_attended attended before id id id
      · exact test_empty_attended attended before id id id
      · subst same
        exact absurd allowed id
  | enqSleeps ele before =>
      exact ⟨attended.bounded, attended.consumers.quiet before id id id le_rfl,
        attended.producers.sleeps before trivial id id trivial⟩
  | deqSleeps before =>
      exact ⟨attended.bounded, attended.consumers.sleeps before trivial id id trivial,
        attended.producers.quiet before id id id le_rfl⟩
  | enqReadsFirst ele before =>
      exact attended.quiet before id id id id id id
  | enqReadsSecond ele count before =>
      exact attended.quiet before id id id id id id
  | deqReadsBegin before =>
      exact attended.quiet before id id id id id id
  | countsFirst ele before =>
      exact count_up_attended attended allowed before id id trivial id id id
  | countsSecond ele begin before =>
      exact count_up_attended attended allowed before id id trivial id id id
  | countsDown before => exact count_down_attended attended allowed before
  | writesSlot ele index before =>
      exact attended.quiet before id id id id id id
  | readsSlotFirst begin before =>
      exact attended.quiet before id id id id id id
  | readsSlotSecond begin before =>
      exact attended.quiet before id id id id id id
  | advancesFirst begin before =>
      exact attended.quiet before id id id id id id
  | advancesSecond begin ret before =>
      exact attended.quiet before id id id id id id
  | readsWrap ret before =>
      exact attended.quiet before id id id id id id
  | writesWrap ret begin before =>
      exact attended.quiet before id id id id id id
  | enqTests before =>
      rw [WakesInTime, if_pos before] at allowed
      split_ifs with empty
      · exact ⟨attended.bounded, attended.consumers.leaves empty (allowed empty) id,
          attended.producers.quiet before id id id le_rfl⟩
      · exact attended.quiet before id id id id id id
  | deqTests ret before =>
      rw [WakesInTime, if_neg (by rw [before]; exact Phase.noConfusion)] at allowed
      split_ifs with empty
      · exact ⟨attended.bounded, attended.consumers.quiet before id id id le_rfl,
          attended.producers.leaves empty (allowed empty) id⟩
      · exact attended.quiet before id id id id id id
  | wakesConsumer first rest before listed =>
      exact wake_consumer_attended attended before listed
  | wakesProducer ret first rest before listed =>
      exact wake_producer_attended attended before listed

/-! ## Whole runs -/

/-- Every call in progress sleeps. -/
def AllAsleep (state : QueueState Thread) : Prop :=
  ∀ thread, state.phase thread = .outside ∨ AsleepConsumer (state.phase thread) ∨
    AsleepProducer (state.phase thread)

/-- Nobody sleeps for good beside an element or a free place. -/
def NoLostWakeUp (size : Nat) (state : QueueState Thread) : Prop :=
  AllAsleep state →
    (state.consumer ≠ [] → state.count = 0) ∧ (state.producer ≠ [] → size ≤ state.count)

omit [DecidableEq Thread] in
theorem AllAsleep.nobody_helps (asleep : AllAsleep state) (thread : Thread) :
    ¬HelpsConsumers (state.phase thread) ∧ ¬HelpsProducers (state.phase thread) := by
  rcases asleep thread with outside | consumer | producer
  · rw [outside]
    exact ⟨id, id⟩
  · rw [asleep_consumer consumer]
    exact ⟨id, id⟩
  · obtain ⟨ele, same⟩ := asleep_producer producer
    rw [same]
    exact ⟨id, id⟩

omit [DecidableEq Thread] in
theorem Attended.no_lost_wake_up (attended : Attended size state) : NoLostWakeUp size state := by
  intro asleep
  constructor
  · intro listed
    have covered := attended.consumers.owed (Or.inl listed)
    exact covered.nobody fun thread => (asleep.nobody_helps thread).1
  · intro listed
    have covered := attended.producers.owed (Or.inl listed)
    have none := covered.nobody fun thread => (asleep.nobody_helps thread).2
    exact Nat.le_of_sub_eq_zero none

omit [DecidableEq Thread] in
theorem empty_queue_attended (arr : Nat → Nat) :
    Attended size (emptyQueue arr : QueueState Thread) := by
  have settled : ∀ failed : Phase → Prop, ¬failed .outside →
      ¬(([] : List Thread) ≠ [] ∨ ∃ _ : Thread, failed .outside) := by
    rintro failed outside (full | ⟨-, fails⟩)
    · exact full rfl
    · exact outside fails
  refine ⟨Nat.two_pow_pos 32, ⟨List.nodup_nil, ?_, ?_⟩, ⟨List.nodup_nil, ?_, ?_⟩⟩
  · exact fun _ member => absurd member List.not_mem_nil
  · exact fun owed => absurd owed (settled FailedConsumer id)
  · exact fun _ member => absurd member List.not_mem_nil
  · exact fun owed => absurd owed (settled FailedProducer id)

/-- Along every run whose wake-ups are in time, whoever sleeps once nobody else
is in a call has nothing to wake for. -/
theorem timely_run_leaves_no_sleeper_owed (size : Nat) (arr : Nat → Nat)
    {ops : List (QueueOp Thread)} {final : QueueState Thread}
    (permitted : Permitted (step size) WakesInTime (emptyQueue arr) ops)
    (run : runFrom (step size) (emptyQueue arr) ops = some final) :
    NoLostWakeUp size final := by
  have preserved : ∀ (state : QueueState Thread) op next, Attended size state →
      WakesInTime state op → step size state op = some next → Attended size next := by
    intro state op next attended allowed stepped
    obtain ⟨thread, move⟩ := step_move stepped
    exact move_attended attended allowed move
  have attended := run_invariant preserved (empty_queue_attended arr) permitted run
  exact attended.no_lost_wake_up

instance : DecidablePred FailedConsumer
  | .deqFailed => isTrue trivial
  | .outside | .enqFailed _ | .enqAsleep _ | .enqWoken _ | .enqPassed _ | .enqBegin _ _
  | .enqCounted _ _ | .enqIndexed _ _ | .enqWritten | .enqWaking | .deqAsleep | .deqWoken
  | .deqPassed | .deqCounted | .deqBegin _ | .deqAdvanced _ | .deqTaken _ _ | .deqRead _
  | .deqWrap _ _ | .deqWrapped _ | .deqWaking _ => isFalse id

instance : DecidablePred FailedProducer
  | .enqFailed _ => isTrue trivial
  | .outside | .enqAsleep _ | .enqWoken _ | .enqPassed _ | .enqBegin _ _ | .enqCounted _ _
  | .enqIndexed _ _ | .enqWritten | .enqWaking | .deqFailed | .deqAsleep | .deqWoken
  | .deqPassed | .deqCounted | .deqBegin _ | .deqAdvanced _ | .deqTaken _ _ | .deqRead _
  | .deqWrap _ _ | .deqWrapped _ | .deqWaking _ => isFalse id

instance [Fintype Thread] (state : QueueState Thread) :
    (op : QueueOp Thread) → Decidable (WakesInTime state op)
  | .switchIn _ => inferInstanceAs (Decidable False)
  | .countUp _ => inferInstanceAs (Decidable (_ < _))
  | .countDown _ => inferInstanceAs (Decidable (_ < _))
  | .testWaiting thread => inferInstanceAs (Decidable (if state.phase thread = .enqWritten then
      state.consumer = [] → ∀ other, ¬FailedConsumer (state.phase other)
      else state.producer = [] → ∀ other, ¬FailedProducer (state.phase other)))
  | .wakeFirst thread => inferInstanceAs (Decidable (if state.phase thread = .enqWaking then
      state.consumer ≠ [] else state.producer ≠ []))
  | .circularEnqueue _ _ | .circularDequeue _ | .testAgain _ | .listMoveToTail _ | .readBegin _
  | .writeSlot _ | .readSlot _ | .advanceBegin _ | .readWrap _ | .writeWrap _ =>
      inferInstanceAs (Decidable True)

/-- Thread `true` enqueues while thread `false` sleeps, which then takes the
element and sleeps again. -/
def wokenConsumerOps : List (QueueOp Bool) :=
  [.circularDequeue false, .listMoveToTail false, .circularEnqueue true 7, .readBegin true,
    .countUp true, .writeSlot true, .testWaiting true, .wakeFirst true, .testAgain false,
    .countDown false, .readBegin false, .readSlot false, .advanceBegin false, .readWrap false,
    .writeWrap false, .testWaiting false, .circularDequeue false, .listMoveToTail false]

theorem timely_run_leaves_no_sleeper_owed_sample : ∃ final,
    Permitted (step 1) WakesInTime (emptyQueue fun _ => 0) wokenConsumerOps ∧
      runFrom (step 1) (emptyQueue fun _ => 0) wokenConsumerOps = some final ∧
      final.consumer = [false] ∧ NoLostWakeUp 1 final := by
  have permitted : Permitted (step 1) WakesInTime (emptyQueue fun _ => 0) wokenConsumerOps := by
    decide +kernel
  have facts : ((runFrom (step 1) (emptyQueue fun _ => 0) wokenConsumerOps).map fun final =>
      final.consumer) = some [false] := by
    decide +kernel
  obtain ⟨final, run, listed⟩ := Option.map_eq_some_iff.mp facts
  exact ⟨final, permitted, run, listed,
    timely_run_leaves_no_sleeper_owed 1 (fun _ => 0) permitted run⟩

/-- Thread `false` finds the queue empty and is preempted; thread `true` enqueues
and finds no consumer on the list; thread `false` then goes to sleep beside the
element. -/
def lateConsumerOps : List (QueueOp Bool) :=
  [.circularDequeue false, .circularEnqueue true 7, .readBegin true, .countUp true, .writeSlot true,
    .testWaiting true, .listMoveToTail false]

theorem late_consumer_sleeps_beside_element : ∃ final,
    runFrom (step 1) (emptyQueue fun _ => 0) lateConsumerOps = some final ∧
      final.consumer = [false] ∧ final.count = 1 ∧ ¬NoLostWakeUp 1 final := by
  have facts : ((runFrom (step 1) (emptyQueue fun _ => 0) lateConsumerOps).map fun final =>
      (final.consumer, final.count, final.phase false, final.phase true)) =
      some ([false], 1, .deqAsleep, .outside) := by
    decide +kernel
  obtain ⟨final, run, values⟩ := Option.map_eq_some_iff.mp facts
  simp only [Prod.mk.injEq] at values
  obtain ⟨listed, count, sleeper, finished⟩ := values
  refine ⟨final, run, listed, count, fun kept => ?_⟩
  have asleep : AllAsleep final := by
    rw [AllAsleep, Bool.forall_bool, sleeper, finished]
    exact ⟨Or.inr (Or.inl trivial), Or.inl rfl⟩
  have emptied := (kept asleep).1 (by rw [listed]; decide)
  rw [count] at emptied
  exact absurd emptied (by decide)

end ChaoOS.QueueWakeUps
