import ChaoOS.QueueContents
import ChaoOS.TaskModel

/-!
# The circular queue between calls

Calls of `circular_enqueue` and `circular_dequeue` that are completed one after
the other. The elements of the queue lie around its array from `begin` on, so
that the queue is a first-in-first-out list of at most `size` elements. The
array indices that the calls use are kept in a log.
-/

namespace ChaoOS.QueueOrder

open ChaoOS.CircularLayout ChaoOS.GuardedRun ChaoOS.KernelMath ChaoOS.TaskModel
open ChaoOS.QueueMachine (indexOf)
open ChaoOS.QueueContents (index_of_eq)

set_option autoImplicit false

inductive QueueCall where
  | enqueue (ele : Nat)
  | dequeue
  deriving DecidableEq

/-- `returned` has the answers of `circular_dequeue`, oldest first. -/
structure QueueRun where
  kernel : Kernel
  returned : List Nat
  indices : List Nat

/-- One call from its test to its end; `none` for one that has to wait. -/
def callStep (queue : Nat) (run : QueueRun) : QueueCall → Option QueueRun
  | .enqueue ele =>
      if Blocks run.kernel (.circularEnqueue ele queue) then none
      else
        some
          { kernel := enqueueElement ele queue run.kernel
            returned := run.returned
            indices := enqueueIndex queue (circularCount 1 queue run.kernel) :: run.indices }
  | .dequeue =>
      let contents := run.kernel.queues queue
      if Blocks run.kernel (.circularDequeue queue) then none
      else
        let answer := dequeueElement queue run.kernel
        some
          { kernel := answer.2
            returned := run.returned ++ [answer.1]
            indices := contents.begin :: run.indices }

/-- A call is made only when it does not have to wait. -/
def CallAllowed (queue : Nat) (run : QueueRun) : QueueCall → Prop
  | .enqueue _ => (run.kernel.queues queue).count < (run.kernel.queues queue).size
  | .dequeue => 0 < (run.kernel.queues queue).count

instance (queue : Nat) (run : QueueRun) : (call : QueueCall) → Decidable (CallAllowed queue run call)
  | .enqueue _ => inferInstanceAs (Decidable (_ < _))
  | .dequeue => inferInstanceAs (Decidable (_ < _))

def enqueuedBy : List QueueCall → List Nat
  | [] => []
  | .enqueue ele :: calls => ele :: enqueuedBy calls
  | .dequeue :: calls => enqueuedBy calls

/-- The elements in the queue, oldest first. -/
def contentOf (contents : CircularQueue) : List Nat :=
  (List.range contents.count).map fun j => contents.arr ((contents.begin + j) % contents.size)

/-- A queue of `size` elements that has been given `enqueued`. -/
structure Fifo (queue size : Nat) (enqueued : List Nat) (run : QueueRun) : Prop where
  capacity : (run.kernel.queues queue).size = size
  begin_lt : (run.kernel.queues queue).begin < size
  count_le : (run.kernel.queues queue).count ≤ size
  order : enqueued = run.returned ++ contentOf (run.kernel.queues queue)
  indices : ∀ index ∈ run.indices, index < size

/-! ## The two calls -/

theorem wake_first_queues (ring : RingId) (kernel : Kernel) :
    (wakeFirst ring kernel).queues = kernel.queues := by
  unfold wakeFirst
  dsimp only
  split_ifs
  · rfl
  · rfl

section Calls

variable (kernel : Kernel) (queue : Nat)

theorem enqueue_index : enqueueIndex queue (circularCount 1 queue kernel) =
    indexOf (kernel.queues queue).size (kernel.queues queue).begin
      (add32 (kernel.queues queue).count 1) := by
  simp only [enqueueIndex, setQueue, circularCount, Function.update_self, indexOf]

theorem enqueue_contents (ele : Nat) : (enqueueElement ele queue kernel).queues queue =
    let contents := kernel.queues queue
    let count := add32 contents.count 1
    { contents with
      count := count
      arr := Function.update contents.arr (indexOf contents.size contents.begin count) ele } := by
  simp only [enqueueElement, enqueueIndex, wake_first_queues, setQueue, circularCount,
    Function.update_self, indexOf]

theorem dequeue_contents : (dequeueElement queue kernel).2.queues queue =
    let contents := kernel.queues queue
    { contents with
      count := add32 contents.count (wordSize - 1)
      begin := add32 contents.begin 1 % contents.size } := by
  simp only [dequeueElement, wake_first_queues, setQueue, circularCount, Function.update_self]

theorem dequeue_answer : (dequeueElement queue kernel).1 =
    (kernel.queues queue).arr (kernel.queues queue).begin := by
  simp only [dequeueElement, setQueue, circularCount, Function.update_self]

end Calls

/-! ## What a call does to the content -/

section Content

variable {contents : CircularQueue} {items : List Nat}

theorem content_length (contents : CircularQueue) : (contentOf contents).length = contents.count := by
  rw [contentOf, List.length_map, List.length_range]

theorem content_laid (contents : CircularQueue) :
    LaidOut contents.size (fun slot item => contents.arr slot = item) contents.begin
      (contentOf contents) := by
  intro index item found
  rw [contentOf, List.getElem?_map] at found
  obtain ⟨j, place, same⟩ := Option.map_eq_some_iff.mp found
  obtain ⟨inside, here⟩ := List.getElem?_eq_some_iff.mp place
  rw [List.getElem_range] at here
  rw [placeAt, here]
  exact same

/-- What is laid out from `begin` on is the content. -/
theorem content_of_laid (laid : LaidOut contents.size (fun slot item => contents.arr slot = item)
    contents.begin items) (length : items.length = contents.count) :
    contentOf contents = items := by
  have values : items.map id = (List.range items.length).map fun index =>
      contents.arr (placeAt contents.size contents.begin index) := LaidOut.values laid
  rw [List.map_id, length] at values
  exact values.symm

/-- An element is put behind the others. -/
theorem content_push (ele : Nat) {slot : Nat} (room : contents.count < contents.size)
    (free : slot = placeAt contents.size contents.begin contents.count) :
    contentOf { contents with
      count := contents.count + 1
      arr := Function.update contents.arr slot ele } = contentOf contents ++ [ele] := by
  have length := content_length contents
  apply content_of_laid
  · apply LaidOut.push
    · show LaidOut contents.size
        (fun place item => Function.update contents.arr slot ele place = item) contents.begin _
      rw [← List.map_id (contentOf contents)]
      refine (content_laid contents).map ?_
      intro index item found held
      have inside : index < contents.count := by
        rw [← length]
        exact (List.getElem?_eq_some_iff.mp found).1
      have other : placeAt contents.size contents.begin index ≠ slot := by
        intro same
        rw [free] at same
        have equal := place_at_injective (Nat.lt_trans inside room) room same
        omega
      rw [Function.update_of_ne other]
      exact held
    · rw [length, ← free]
      exact Function.update_self _ _ _
  · rw [List.length_append, List.length_singleton, length]

/-- The element at `begin` is the first one. -/
theorem content_pop (based : contents.begin < contents.size) (some_left : 0 < contents.count) :
    contentOf contents = contents.arr contents.begin ::
      contentOf { contents with
        count := contents.count - 1
        begin := (contents.begin + 1) % contents.size } := by
  have length := content_length contents
  obtain ⟨first, rest, split⟩ := List.exists_cons_of_length_pos (length ▸ some_left)
  have laid := content_laid contents
  rw [split] at laid length
  obtain ⟨held, later⟩ := laid.pop
  rw [place_at_zero based] at held
  rw [split, held]
  congr 1
  symm
  apply content_of_laid later
  rw [List.length_cons] at length
  exact Nat.eq_sub_of_add_eq length

end Content

/-! ## Runs -/

section Runs

variable {queue size : Nat} {enqueued : List Nat} {run : QueueRun}

/-- The two computations on words that a call makes. -/
theorem count_words {count : Nat} (small : count < 2 ^ 31) :
    add32 count 1 = count + 1 ∧ (0 < count → add32 count (wordSize - 1) = count - 1) := by
  unfold add32
  rw [wordSize]
  omega

theorem Fifo.enqueue (fifo : Fifo queue size enqueued run) (small : size < 2 ^ 31) (ele : Nat)
    (room : (run.kernel.queues queue).count < size) :
    ∃ next, callStep queue run (.enqueue ele) = some next ∧
      Fifo queue size (enqueued ++ [ele]) next := by
  have capacity := fifo.capacity
  have based := fifo.begin_lt
  have counted := (count_words (Nat.lt_trans room small)).1
  have passes : ¬Blocks run.kernel (.circularEnqueue ele queue) := by
    rw [Blocks, capacity]
    exact Nat.not_le_of_lt room
  have index : indexOf size (run.kernel.queues queue).begin ((run.kernel.queues queue).count + 1) =
      placeAt size (run.kernel.queues queue).begin (run.kernel.queues queue).count := by
    rw [index_of_eq (Nat.succ_pos _) (by rw [wordSize]; omega), placeAt]
    rfl
  have spare : (run.kernel.queues queue).count < (run.kernel.queues queue).size := by
    rw [capacity]
    exact room
  have content := content_push ele spare rfl
  refine ⟨_, if_neg passes, ?_⟩
  have after := enqueue_contents run.kernel queue ele
  dsimp only at after
  rw [counted, capacity, index] at after
  rw [capacity] at content
  constructor
  case capacity => rw [after]
  case begin_lt => rw [after]; exact based
  case count_le => rw [after]; exact room
  case order =>
      rw [fifo.order, List.append_assoc, after, ← content]
  case indices =>
      intro used member
      rcases List.mem_cons.mp member with same | earlier
      · rw [same, enqueue_index, capacity, counted, index]
        exact Nat.mod_lt _ (Nat.zero_lt_of_lt room)
      · exact fifo.indices used earlier

theorem Fifo.dequeue (fifo : Fifo queue size enqueued run) (small : size < 2 ^ 31)
    (some_left : 0 < (run.kernel.queues queue).count) :
    ∃ next, callStep queue run .dequeue = some next ∧ Fifo queue size enqueued next := by
  have capacity := fifo.capacity
  have based := fifo.begin_lt
  have bound := fifo.count_le
  have counted := (count_words (Nat.lt_of_le_of_lt bound small)).2 some_left
  have advanced := (count_words (Nat.lt_trans based small)).1
  have passes : ¬Blocks run.kernel (.circularDequeue queue) := Nat.ne_of_gt some_left
  have inside : (run.kernel.queues queue).begin < (run.kernel.queues queue).size := by
    rw [capacity]
    exact based
  have content := content_pop inside some_left
  refine ⟨_, if_neg passes, ?_⟩
  have after := dequeue_contents run.kernel queue
  dsimp only at after
  rw [counted, advanced, capacity] at after
  rw [capacity] at content
  constructor
  case capacity => rw [after]
  case begin_lt => rw [after]; exact Nat.mod_lt _ (Nat.zero_lt_of_lt based)
  case count_le => rw [after]; exact Nat.le_trans (Nat.sub_le _ _) bound
  case order =>
      rw [fifo.order, content, after, dequeue_answer, List.append_assoc, List.singleton_append]
  case indices =>
      intro used member
      rcases List.mem_cons.mp member with same | earlier
      · rw [same]
        exact based
      · exact fifo.indices used earlier

theorem Fifo.calls (fifo : Fifo queue size enqueued run) (small : size < 2 ^ 31)
    {calls : List QueueCall}
    (permitted : Permitted (callStep queue) (CallAllowed queue) run calls) :
    ∃ final, runFrom (callStep queue) run calls = some final ∧
      Fifo queue size (enqueued ++ enqueuedBy calls) final := by
  induction calls generalizing enqueued run with
  | nil =>
      refine ⟨run, rfl, ?_⟩
      rw [enqueuedBy, List.append_nil]
      exact fifo
  | cons call calls induction =>
      obtain ⟨allowed, later⟩ := permitted
      cases call with
      | enqueue ele =>
          have room : (run.kernel.queues queue).count < size := fifo.capacity ▸ allowed
          obtain ⟨next, step, grown⟩ := fifo.enqueue small ele room
          obtain ⟨final, ends, holds⟩ := induction grown (later next step)
          refine ⟨final, by rw [runFrom, step, Option.bind_some, ends], ?_⟩
          rw [enqueuedBy, ← List.singleton_append, ← List.append_assoc]
          exact holds
      | dequeue =>
          obtain ⟨next, step, shrunk⟩ := fifo.dequeue small allowed
          obtain ⟨final, ends, holds⟩ := induction shrunk (later next step)
          exact ⟨final, by rw [runFrom, step, Option.bind_some, ends], holds⟩

/-- A queue without elements, wherever `begin` is. -/
structure Empty (queue size : Nat) (kernel : Kernel) : Prop where
  capacity : (kernel.queues queue).size = size
  begin_lt : (kernel.queues queue).begin < size
  none_left : (kernel.queues queue).count = 0

theorem empty_fifo {kernel : Kernel} (empty : Empty queue size kernel) :
    Fifo queue size [] ⟨kernel, [], []⟩ := by
  refine ⟨empty.capacity, empty.begin_lt, ?_, ?_, ?_⟩
  · rw [empty.none_left]
    exact Nat.zero_le _
  · rw [contentOf, empty.none_left]
    rfl
  · intro index member
    exact absurd member List.not_mem_nil

/-- Completed calls on a queue that starts empty: at every point of the run the
queue is a first-in-first-out list of at most `size` elements. -/
theorem completed_calls_fifo (small : size < 2 ^ 31) {kernel : Kernel}
    (empty : Empty queue size kernel) {calls : List QueueCall}
    (permitted : Permitted (callStep queue) (CallAllowed queue) ⟨kernel, [], []⟩ calls)
    {before after : List QueueCall} (split : calls = before ++ after) :
    ∃ reached, runFrom (callStep queue) ⟨kernel, [], []⟩ before = some reached ∧
      Fifo queue size (enqueuedBy before) reached := by
  rw [split] at permitted
  exact (empty_fifo empty).calls small (permitted_append permitted).1

end Runs

/-- A kernel whose queues have three slots. -/
def threeSlots : Kernel :=
  bootKernel
    { memory := fun _ => 0
      structs := fun _ =>
        { flags := 0, priority := 0, pid := 0, ppid := 0, stack := 0, context := ⟨0, 0⟩,
          pageDir := 0, state := .uninit }
      sizes := fun _ => 3
      arrays := fun _ _ => 0 }

/-- Four elements pass through three slots. -/
theorem completed_calls_fifo_sample : ∃ reached,
    runFrom (callStep 0) ⟨threeSlots, [], []⟩
        [.enqueue 7, .enqueue 8, .dequeue, .enqueue 9, .enqueue 10, .dequeue] = some reached ∧
      Fifo 0 3 [7, 8, 9, 10] reached := by
  have permitted : Permitted (callStep 0) (CallAllowed 0) ⟨threeSlots, [], []⟩
      [.enqueue 7, .enqueue 8, .dequeue, .enqueue 9, .enqueue 10, .dequeue] := by decide +kernel
  exact completed_calls_fifo (by decide) ⟨rfl, by decide, rfl⟩ permitted (List.append_nil _).symm

end ChaoOS.QueueOrder
