import Mathlib.Data.Finset.Card
import Mathlib.Data.Fintype.Basic
import Mathlib.Data.List.Perm.Basic
import ChaoOS.CircularLayout
import ChaoOS.QueueMachine

/-!
# Contents of the circular queue

The elements counted in and not yet read lie in a row of slots. The oldest is
at `base`, which `begin` leaves while a dequeue has done one of the two halves
of `arr[begin ++]` and not the other. An element may still be on its way: its
enqueue is then known, and so is the slot it is going to write. As long as calls
overlap only where this picture allows it, nothing is lost and nothing is taken
twice.
-/

namespace ChaoOS.QueueContents

open ChaoOS.CircularLayout ChaoOS.GuardedRun ChaoOS.KernelMath ChaoOS.QueueMachine
open ChaoOS.ThreadPhases

set_option autoImplicit false

/-! ## Where a call stands -/

/-- A dequeue that has counted its element out and not yet read it. -/
def claimed : Phase → Bool
  | .deqCounted | .deqBegin _ | .deqAdvanced _ => true
  | _ => false

/-- A dequeue that has counted its element out and not yet increased `begin`. -/
def behind : Phase → Bool
  | .deqCounted | .deqBegin _ | .deqTaken _ _ => true
  | _ => false

/-- A dequeue that has increased `begin` and not yet read its slot. -/
def ahead : Phase → Bool
  | .deqAdvanced _ => true
  | _ => false

/-- A dequeue between its read of `begin` and the end of `begin %= size`. -/
def inSection : Phase → Bool
  | .deqBegin _ | .deqAdvanced _ | .deqTaken _ _ | .deqRead _ | .deqWrap _ _ => true
  | _ => false

/-- An enqueue that has counted its element in and not yet read `begin`. -/
def unindexed : Phase → Bool
  | .enqCounted _ _ => true
  | _ => false

/-- The element an enqueue has counted in and not yet written, and its slot. -/
def pendingSlot (size begin : Nat) : Phase → Option (Nat × Nat)
  | .enqCounted ele count => some (ele, indexOf size begin count)
  | .enqIndexed ele index => some (ele, index)
  | _ => none

/-- The value of `begin` an enqueue has read before it counts. -/
def beginRead : Phase → Option Nat
  | .enqBegin _ begin => some begin
  | _ => none

/-- The slot a dequeue is going to read. -/
def slotToRead : Phase → Option Nat
  | .deqBegin begin | .deqAdvanced begin => some begin
  | _ => none

variable {Thread : Type*}

/-- An element is counted in only while the queue has room, no dequeue is behind
with `begin` and the enqueue's own value of it is the current one; it does not
take the place a dequeue still has to read. None is counted out of an empty
queue. Dequeues go through `arr[begin ++]` and `begin %= size` one at a time, do
not increase `begin` between the two reads of an enqueue, and do not read a slot
that is still to be written. -/
def KeepsApart (size : Nat) (state : QueueState Thread) : QueueOp Thread → Prop
  | .countUp thread =>
      state.count < size ∧ (∀ other, behind (state.phase other) = false) ∧
        (∀ other, ahead (state.phase other) = true → state.count + 1 < size) ∧
        ∀ begin ∈ beginRead (state.phase thread), begin % size = state.begin % size
  | .countDown _ => 0 < state.count
  | .readBegin thread =>
      state.phase thread = .deqCounted → ∀ other, inSection (state.phase other) = false
  | .advanceBegin _ => ∀ other, unindexed (state.phase other) = false
  | .readSlot thread =>
      ∀ slot ∈ slotToRead (state.phase thread), ∀ other,
        ∀ pending ∈ pendingSlot size state.begin (state.phase other), pending.2 ≠ slot
  | .wakeFirst thread =>
      if state.phase thread = .enqWaking then state.consumer ≠ [] else state.producer ≠ []
  | _ => True

/-! ## The dequeue that moves `begin` -/

/-- Where `begin` is while a dequeue moves it past the slot at `base`. -/
def Placed (size base begin : Nat) : Phase → Prop
  | .deqBegin read => read = base ∧ begin = base
  | .deqAdvanced read => read = base ∧ begin = base + 1
  | .deqTaken read _ => begin = read ∧ read < size ∧ base = (read + 1) % size
  | .deqRead _ => begin ≤ size ∧ base = begin % size
  | .deqWrap _ read => read = begin ∧ begin ≤ size ∧ base = begin % size
  | _ => False

/-- At most one dequeue moves `begin`; while none does, it stands at `base`. -/
def Sectioned (size base begin : Nat) (phases : Thread → Phase) : Prop :=
  (begin = base ∧ ∀ thread, inSection (phases thread) = false) ∨
    ∃ thread, Placed size base begin (phases thread) ∧
      ∀ other, other ≠ thread → inSection (phases other) = false

variable {size base begin : Nat} {phases : Thread → Phase} {thread : Thread} {old new : Phase}

theorem Sectioned.placed (sectioned : Sectioned size base begin phases)
    (before : phases thread = old) (inside : inSection old = true) :
    Placed size base begin old ∧
      ∀ other, other ≠ thread → inSection (phases other) = false := by
  rw [← before] at inside ⊢
  rcases sectioned with ⟨-, nobody⟩ | ⟨owner, placed, only⟩
  · rw [nobody thread] at inside
    cases inside
  · by_cases same : thread = owner
    · subst same
      exact ⟨placed, only⟩
    · rw [only thread same] at inside
      cases inside

theorem Sectioned.empty (sectioned : Sectioned size base begin phases)
    (nobody : ∀ thread, inSection (phases thread) = false) : begin = base := by
  rcases sectioned with ⟨same, -⟩ | ⟨owner, placed, -⟩
  · exact same
  · have outside := nobody owner
    cases at_ : phases owner <;> rw [at_] at placed outside <;>
      first | exact absurd placed id | cases outside

theorem Sectioned.begin_le (sectioned : Sectioned size base begin phases) (based : base < size) :
    begin ≤ size := by
  rcases sectioned with ⟨same, -⟩ | ⟨owner, placed, -⟩
  · omega
  · cases at_ : phases owner <;> rw [at_] at placed <;>
      first | exact absurd placed id | (simp only [Placed] at placed; omega)

variable [DecidableEq Thread]

theorem Sectioned.apart (sectioned : Sectioned size base begin phases)
    (before : phases thread = old) (wasOutside : inSection old = false)
    (outside : inSection new = false) :
    Sectioned size base begin (Function.update phases thread new) := by
  rcases sectioned with ⟨same, nobody⟩ | ⟨owner, placed, only⟩
  · refine Or.inl ⟨same, ?_⟩
    rw [Function.forall_update_iff phases fun _ phase => inSection phase = false]
    exact ⟨outside, fun other _ => nobody other⟩
  · refine Or.inr ⟨owner, ?_, ?_⟩
    · have different : owner ≠ thread := by
        rintro rfl
        rw [before] at placed
        cases old <;> first | exact absurd placed id | cases wasOutside
      rwa [Function.update_of_ne different]
    · rw [Function.forall_update_iff phases fun other phase =>
        other ≠ owner → inSection phase = false]
      exact ⟨fun _ => outside, fun other _ => only other⟩

theorem Sectioned.moves {newBase newBegin : Nat}
    (only : ∀ other, other ≠ thread → inSection (phases other) = false)
    (placed : Placed size newBase newBegin new) :
    Sectioned size newBase newBegin (Function.update phases thread new) := by
  refine Or.inr ⟨thread, ?_, ?_⟩
  · rwa [Function.update_self]
  · intro other different
    rw [Function.update_of_ne different]
    exact only other different

theorem Sectioned.leaves (only : ∀ other, other ≠ thread → inSection (phases other) = false)
    (same : begin = base) (outside : inSection new = false) :
    Sectioned size base begin (Function.update phases thread new) := by
  refine Or.inl ⟨same, ?_⟩
  rw [Function.forall_update_iff phases fun _ phase => inSection phase = false]
  exact ⟨outside, only⟩

/-! ## What is stored -/

/-- A slot contains an element, or the enqueue that will write it there is known. -/
def Holds (size : Nat) (state : QueueState Thread) (slot : Nat) : Nat × Option Thread → Prop
  | (ele, none) => state.arr slot = ele
  | (ele, some writer) => pendingSlot size state.begin (state.phase writer) = some (ele, slot)

/-- The values an enqueue has read are at most the size. -/
def Bounded (size : Nat) : Phase → Prop
  | .enqBegin _ begin => begin ≤ size
  | .enqCounted _ count => 0 < count ∧ count ≤ size
  | _ => True

/-- The elements counted in and not yet read, oldest first. `claimants` are the
dequeues that have counted one of them out. -/
structure Contents (size : Nat) (state : QueueState Thread)
    (items : List (Nat × Option Thread)) (base : Nat) (claimants : Finset Thread) : Prop where
  based : base < size
  length : items.length = state.count + claimants.card
  fits : items.length ≤ size
  claims : ∀ thread, thread ∈ claimants ↔ claimed (state.phase thread) = true
  laid : LaidOut size (Holds size state) base items
  writers : ∀ thread, pendingSlot size state.begin (state.phase thread) ≠ none →
    ∃ ele, (ele, some thread) ∈ items
  bounded : ∀ thread, Bounded size (state.phase thread)
  sectioned : Sectioned size base state.begin state.phase
  kept : state.enqueued.Perm (state.dequeued ++ items.map Prod.fst)

def Stored (size : Nat) (state : QueueState Thread) : Prop :=
  ∃ items base claimants, Contents size state items base claimants

variable {state next : QueueState Thread} {items : List (Nat × Option Thread)}
  {claimants : Finset Thread}

omit [DecidableEq Thread] in
/-- The elements stay where they are when every enqueue keeps its slot. -/
theorem Contents.laid_kept (contents : Contents size state items base claimants)
    (arr : next.arr = state.arr)
    (pending : ∀ other, pendingSlot size next.begin (next.phase other) =
      pendingSlot size state.begin (state.phase other)) :
    LaidOut size (Holds size next) base items := by
  refine contents.laid.imp ?_
  rintro slot ⟨ele, writer⟩ - held
  cases writer with
  | none =>
      rw [Holds, arr]
      exact held
  | some writer =>
      rw [Holds, pending]
      exact held

theorem Contents.bounded_update (contents : Contents size state items base claimants)
    (thread : Thread) (own : Bounded size new) :
    ∀ other, Bounded size (Function.update state.phase thread new other) := by
  rw [Function.forall_update_iff state.phase fun _ phase => Bounded size phase]
  exact ⟨own, fun other _ => contents.bounded other⟩

theorem Contents.claims_update (contents : Contents size state items base claimants)
    (before : state.phase thread = old) (claim : claimed new = claimed old) :
    ∀ other, other ∈ claimants ↔ claimed (Function.update state.phase thread new other) = true := by
  rw [Function.forall_update_iff state.phase fun other phase =>
    other ∈ claimants ↔ claimed phase = true]
  refine ⟨?_, fun other _ => contents.claims other⟩
  rw [claim, ← before]
  exact contents.claims thread

theorem pending_update (before : phases thread = old) {later : Nat}
    (own : pendingSlot size later new = pendingSlot size begin old)
    (others : ∀ other, other ≠ thread →
      pendingSlot size later (phases other) = pendingSlot size begin (phases other)) :
    ∀ other, pendingSlot size later (Function.update phases thread new other) =
      pendingSlot size begin (phases other) := by
  rw [Function.forall_update_iff phases fun other phase =>
    pendingSlot size later phase = pendingSlot size begin (phases other)]
  exact ⟨before ▸ own, others⟩

/-- A step of one thread that moves no element. -/
theorem Contents.turn {later : Nat} {producer consumer : List Thread}
    (contents : Contents size state items base claimants) (before : state.phase thread = old)
    (claim : claimed new = claimed old) (bounded : Bounded size new)
    (own : pendingSlot size later new = pendingSlot size state.begin old)
    (others : ∀ other, other ≠ thread →
      pendingSlot size later (state.phase other) =
        pendingSlot size state.begin (state.phase other))
    (sectioned : Sectioned size base later (Function.update state.phase thread new)) :
    Contents size
      ({ state with begin := later, producer := producer, consumer := consumer }.setPhase thread
        new) items base claimants := by
  have pending : ∀ other,
      pendingSlot size later (Function.update state.phase thread new other) =
        pendingSlot size state.begin (state.phase other) :=
    pending_update before own others
  refine ⟨contents.based, contents.length, contents.fits, contents.claims_update before claim,
    contents.laid_kept rfl pending, ?_, contents.bounded_update thread bounded, sectioned,
    contents.kept⟩
  intro other writing
  exact contents.writers other fun none => writing ((pending other).trans none)

/-- A call that has nothing to do with any element. -/
def quiet : Phase → Bool
  | .enqCounted _ _ | .enqIndexed _ _ | .deqCounted | .deqBegin _ | .deqAdvanced _ => false
  | .deqTaken _ _ | .deqRead _ | .deqWrap _ _ => false
  | _ => true

theorem quiet_spec {phase : Phase} (idle : quiet phase = true) :
    claimed phase = false ∧ inSection phase = false ∧
      ∀ size begin, pendingSlot size begin phase = none := by
  cases phase <;> first | exact ⟨rfl, rfl, fun _ _ => rfl⟩ | cases idle

theorem Contents.quiet {producer consumer : List Thread}
    (contents : Contents size state items base claimants) (before : state.phase thread = old)
    (wasIdle : quiet old = true) (idle : quiet new = true) (bounded : Bounded size new) :
    Contents size
      ({ state with producer := producer, consumer := consumer }.setPhase thread new)
      items base claimants := by
  obtain ⟨oldClaim, oldOutside, oldPending⟩ := quiet_spec wasIdle
  obtain ⟨newClaim, newOutside, newPending⟩ := quiet_spec idle
  apply contents.turn before
  · rw [oldClaim, newClaim]
  · exact bounded
  · rw [oldPending, newPending]
  · exact fun _ _ => rfl
  · exact contents.sectioned.apart before oldOutside newOutside

/-! ## Counting -/

theorem index_of_eq {count : Nat} (positive : 0 < count) (small : begin + count < wordSize) :
    indexOf size begin count = (begin + count - 1) % size := by
  rw [indexOf, add32_of_lt small, sub32_of_le small (by omega)]

/-- While no dequeue is behind with `begin`, it stands right after what is
counted out. -/
theorem Contents.settled (contents : Contents size state items base claimants)
    (nobody : ∀ other, behind (state.phase other) = false) :
    (claimants = ∅ ∧ state.begin % size = base) ∨
      ∃ reader, claimants = {reader} ∧ ahead (state.phase reader) = true ∧
        state.begin = base + 1 := by
  have readers : ∀ other ∈ claimants, ∃ read, state.phase other = .deqAdvanced read := by
    intro other member
    have claim := (contents.claims other).mp member
    have settled := nobody other
    cases found : state.phase other <;> rw [found] at claim settled <;>
      first
        | exact ⟨_, rfl⟩
        | exact absurd claim Bool.false_ne_true
        | exact absurd settled.symm Bool.false_ne_true
  rcases claimants.eq_empty_or_nonempty with none | ⟨reader, member⟩
  · refine Or.inl ⟨none, ?_⟩
    rcases contents.sectioned with ⟨same, -⟩ | ⟨owner, placed, -⟩
    · rw [same]
      exact Nat.mod_eq_of_lt contents.based
    · have unclaimed : claimed (state.phase owner) ≠ true := by
        rw [Ne, ← contents.claims, none]
        exact Finset.notMem_empty owner
      have settled := nobody owner
      cases found : state.phase owner <;> rw [found] at placed unclaimed settled <;>
        first
          | exact absurd placed id
          | exact placed.2.symm
          | exact placed.2.2.symm
          | exact absurd rfl unclaimed
          | exact absurd settled.symm Bool.false_ne_true
  · obtain ⟨read, found⟩ := readers reader member
    obtain ⟨⟨-, begin⟩, only⟩ := contents.sectioned.placed found rfl
    refine Or.inr ⟨reader, ?_, by rw [found]; rfl, begin⟩
    apply Finset.eq_singleton_iff_unique_mem.mpr
    refine ⟨member, fun other twin => ?_⟩
    by_contra different
    obtain ⟨_, inside⟩ := readers other twin
    have outside := only other different
    rw [inside] at outside
    cases outside

/-- The next free place, and that there is one. -/
theorem Contents.free_place (contents : Contents size state items base claimants)
    (allowed : KeepsApart size state (.countUp thread)) :
    items.length < size ∧
      (state.begin + state.count) % size = placeAt size base items.length := by
  obtain ⟨room, nobody, reading, -⟩ := allowed
  have length := contents.length
  rcases contents.settled nobody with ⟨none, begin⟩ | ⟨reader, one, reads, begin⟩
  · rw [none, Finset.card_empty, Nat.add_zero] at length
    rw [length, placeAt, ← begin, Nat.mod_add_mod]
    exact ⟨room, rfl⟩
  · have spare := reading reader reads
    rw [one, Finset.card_singleton] at length
    rw [length, begin, placeAt, Nat.add_assoc, Nat.add_comm 1]
    exact ⟨spare, rfl⟩

theorem count_up_contents {ele : Nat} (contents : Contents size state items base claimants)
    (allowed : KeepsApart size state (.countUp thread)) (before : state.phase thread = old)
    (wasIdle : quiet old = true) (claim : claimed new = false) (outside : inSection new = false)
    (bounded : Bounded size new)
    (pending : pendingSlot size state.begin new =
      some (ele, (state.begin + state.count) % size)) :
    Contents size
      ({ state with count := state.count + 1, enqueued := ele :: state.enqueued }.setPhase
        thread new)
      (items ++ [(ele, some thread)]) base claimants := by
  obtain ⟨oldClaim, oldOutside, oldPending⟩ := quiet_spec wasIdle
  obtain ⟨room, place⟩ := contents.free_place allowed
  have length := contents.length
  refine ⟨contents.based, ?_, ?_, ?_, ?_, ?_, ?_, ?_, ?_⟩
  · rw [List.length_append, List.length_singleton, length]
    exact Nat.add_right_comm ..
  · rw [List.length_append, List.length_singleton]
    exact room
  · exact contents.claims_update before (claim.trans oldClaim.symm)
  · apply LaidOut.push
    · refine contents.laid.imp ?_
      rintro slot ⟨value, writer⟩ - held
      cases writer with
      | none => exact held
      | some writer =>
          have different : writer ≠ thread := by
            rintro rfl
            rw [Holds, before, oldPending] at held
            cases held
          rw [Holds, phase_set_other _ _ different]
          exact held
    · rw [Holds, phase_set_self, ← place]
      exact pending
  · intro other writing
    by_cases own : other = thread
    · subst own
      exact ⟨ele, List.mem_append_right _ List.mem_cons_self⟩
    · rw [phase_set_other _ _ own] at writing
      obtain ⟨value, member⟩ := contents.writers other writing
      exact ⟨value, List.mem_append_left _ member⟩
  · exact contents.bounded_update thread bounded
  · exact contents.sectioned.apart before oldOutside outside
  · change (ele :: state.enqueued).Perm (state.dequeued ++ (items ++ [(ele, some thread)]).map _)
    rw [List.map_append, ← List.append_assoc]
    exact (contents.kept.cons ele).trans (List.perm_append_singleton ele _).symm

theorem count_down_contents (contents : Contents size state items base claimants)
    (stock : 0 < state.count) (before : state.phase thread = .deqPassed) :
    Contents size ({ state with count := state.count - 1 }.setPhase thread .deqCounted)
      items base (insert thread claimants) := by
  have fresh : thread ∉ claimants := by
    rw [contents.claims, before]
    exact Bool.false_ne_true
  have pending : ∀ other, pendingSlot size state.begin
      (Function.update state.phase thread .deqCounted other) =
        pendingSlot size state.begin (state.phase other) :=
    pending_update before rfl fun _ _ => rfl
  refine ⟨contents.based, ?_, contents.fits, ?_, contents.laid_kept rfl pending, ?_, ?_, ?_,
    contents.kept⟩
  · have length := contents.length
    rw [Finset.card_insert_of_notMem fresh]
    change items.length = state.count - 1 + (claimants.card + 1)
    omega
  · intro other
    rw [Finset.mem_insert]
    by_cases own : other = thread
    · subst own
      rw [phase_set_self]
      exact iff_of_true (Or.inl rfl) rfl
    · rw [phase_set_other _ _ own, or_iff_right own]
      exact contents.claims other
  · intro other writing
    exact contents.writers other fun none => writing ((pending other).trans none)
  · exact contents.bounded_update thread trivial
  · exact contents.sectioned.apart before rfl rfl

/-! ## Slots -/

/-- The element of `thread` is no longer on its way. -/
def settle (thread : Thread) (item : Nat × Option Thread) : Nat × Option Thread :=
  (item.1, if item.2 = some thread then none else item.2)

omit [DecidableEq Thread] in
/-- No element but the thread's own is at the slot it writes. -/
theorem Contents.own_slot {ele slot : Nat} (contents : Contents size state items base claimants)
    (pending : pendingSlot size state.begin (state.phase thread) = some (ele, slot))
    {index : Nat} {item : Nat × Option Thread} (found : items[index]? = some item)
    (same : placeAt size base index = slot) : item = (ele, some thread) := by
  obtain ⟨value, member⟩ := contents.writers thread (by rw [pending]; exact Option.some_ne_none _)
  obtain ⟨own, ownFound⟩ := List.getElem?_of_mem member
  have held := contents.laid own _ ownFound
  rw [Holds, pending, Option.some.injEq, Prod.mk.injEq] at held
  have ownFits := (List.getElem?_eq_some_iff.mp ownFound).1.trans_le contents.fits
  have fits := (List.getElem?_eq_some_iff.mp found).1.trans_le contents.fits
  have equal : index = own := place_at_injective fits ownFits (same.trans held.2)
  rw [equal, ownFound, ← held.1] at found
  exact (Option.some.inj found).symm

theorem write_slot_contents {ele slot : Nat} (contents : Contents size state items base claimants)
    (before : state.phase thread = .enqIndexed ele slot) :
    Contents size
      ({ state with arr := Function.update state.arr slot ele }.setPhase thread .enqWritten)
      (items.map (settle thread)) base claimants := by
  have pending : pendingSlot size state.begin (state.phase thread) = some (ele, slot) := by
    rw [before]
    rfl
  refine ⟨contents.based, ?_, ?_, ?_, ?_, ?_, ?_, ?_, ?_⟩
  · rw [List.length_map]
    exact contents.length
  · rw [List.length_map]
    exact contents.fits
  · exact contents.claims_update before rfl
  · refine contents.laid.map ?_
    rintro index ⟨value, writer⟩ found held
    by_cases here : placeAt size base index = slot
    · have same := contents.own_slot pending found here
      cases same
      rw [settle, if_pos rfl, here]
      exact Function.update_self ..
    · cases writer with
      | none =>
          rw [settle, if_neg (Option.some_ne_none _).symm]
          exact (Function.update_of_ne here ..).trans held
      | some writer =>
          have different : writer ≠ thread := by
            rintro rfl
            rw [Holds, pending, Option.some.injEq, Prod.mk.injEq] at held
            exact here held.2.symm
          rw [settle, if_neg (fun same => different (Option.some.inj same)), Holds,
            phase_set_other _ _ different]
          exact held
  · intro other writing
    have different : other ≠ thread := by
      rintro rfl
      rw [phase_set_self] at writing
      exact writing rfl
    rw [phase_set_other _ _ different] at writing
    obtain ⟨value, member⟩ := contents.writers other writing
    refine ⟨value, List.mem_map.mpr ⟨_, member, ?_⟩⟩
    rw [settle, if_neg (fun same => different (Option.some.inj same))]
  · exact contents.bounded_update thread trivial
  · exact contents.sectioned.apart before rfl rfl
  · rw [List.map_map]
    exact contents.kept

omit [DecidableEq Thread] in
/-- A dequeue that has counted an element out finds the oldest at `base`. -/
theorem Contents.oldest (contents : Contents size state items base claimants)
    (claim : claimed (state.phase thread) = true)
    (written : ∀ other, ∀ pending ∈ pendingSlot size state.begin (state.phase other),
      pending.2 ≠ base) :
    ∃ rest, items = (state.arr base, none) :: rest := by
  have member := (contents.claims thread).mpr claim
  have positive : 0 < claimants.card := Finset.card_pos.mpr ⟨thread, member⟩
  have length := contents.length
  cases items with
  | nil =>
      rw [List.length_nil] at length
      omega
  | cons item rest =>
      obtain ⟨ele, writer⟩ := item
      have held := contents.laid.pop.1
      rw [place_at_zero contents.based] at held
      cases writer with
      | none =>
          rw [Holds] at held
          exact ⟨rest, by rw [held]⟩
      | some writer => exact absurd rfl (written writer (ele, base) held)

theorem read_slot_stored (contents : Contents size state items base claimants)
    (before : state.phase thread = old) (claim : claimed old = true)
    (released : claimed new = false)
    (own : ∀ begin, pendingSlot size begin old = none)
    (idle : ∀ begin, pendingSlot size begin new = none) (bounded : Bounded size new)
    (written : ∀ other, ∀ pending ∈ pendingSlot size state.begin (state.phase other),
      pending.2 ≠ base)
    (sectioned : Sectioned size ((base + 1) % size) state.begin
      (Function.update state.phase thread new)) :
    Stored size
      ({ state with dequeued := state.arr base :: state.dequeued }.setPhase thread new) := by
  obtain ⟨rest, oldest⟩ := contents.oldest (before ▸ claim) written
  subst oldest
  have member : thread ∈ claimants := (contents.claims thread).mpr (before ▸ claim)
  have pending : ∀ other, pendingSlot size state.begin
      (Function.update state.phase thread new other) =
        pendingSlot size state.begin (state.phase other) :=
    pending_update before ((idle _).trans (own _).symm) fun _ _ => rfl
  refine ⟨rest, (base + 1) % size, claimants.erase thread,
    Nat.mod_lt _ (Nat.zero_lt_of_lt contents.based), ?_, ?_, ?_, ?_, ?_, ?_, sectioned, ?_⟩
  · have length := contents.length
    have fewer := Finset.card_erase_add_one member
    rw [List.length_cons] at length
    change rest.length = state.count + (claimants.erase thread).card
    omega
  · exact (Nat.le_succ _).trans contents.fits
  · intro other
    rw [Finset.mem_erase]
    by_cases same : other = thread
    · subst same
      rw [phase_set_self, released]
      exact iff_of_false (fun both => both.1 rfl) Bool.false_ne_true
    · rw [phase_set_other _ _ same, and_iff_right same]
      exact contents.claims other
  · have laid : LaidOut size (Holds size
        ({ state with dequeued := state.arr base :: state.dequeued }.setPhase thread new)) base
        ((state.arr base, none) :: rest) := contents.laid_kept rfl pending
    exact laid.pop.2
  · intro other writing
    obtain ⟨value, listed⟩ :=
      contents.writers other fun none => writing ((pending other).trans none)
    rcases List.mem_cons.mp listed with first | later
    · cases first
    · exact ⟨value, later⟩
  · exact contents.bounded_update thread bounded
  · exact contents.kept.trans List.perm_middle

/-! ## `begin` -/

theorem pending_of_indexed {phase : Phase} (indexed : unindexed phase = false) (later : Nat) :
    pendingSlot size later phase = pendingSlot size begin phase := by
  cases phase with
  | enqCounted ele count => cases indexed
  | _ => rfl

omit [DecidableEq Thread] in
/-- Taking `begin` modulo `size` changes no slot. -/
theorem Contents.pending_wrapped (contents : Contents size state items base claimants)
    (small : 2 * size < wordSize) (begins : state.begin ≤ size) (other : Thread) :
    pendingSlot size (state.begin % size) (state.phase other) =
      pendingSlot size state.begin (state.phase other) := by
  cases found : state.phase other with
  | enqCounted ele count =>
      have bounded := contents.bounded other
      rw [found] at bounded
      obtain ⟨positive, fits⟩ := bounded
      have wrapped : state.begin % size ≤ state.begin := Nat.mod_le ..
      rw [pendingSlot, pendingSlot, index_of_eq positive (by omega),
        index_of_eq positive (by omega), Nat.add_sub_assoc positive, Nat.add_sub_assoc positive,
        Nat.mod_add_mod]
  | _ => rfl

theorem advance_contents {read : Nat} (contents : Contents size state items base claimants)
    (allowed : KeepsApart size state (.advanceBegin thread))
    (before : state.phase thread = old) (inside : inSection old = true)
    (claim : claimed new = claimed old) (bounded : Bounded size new)
    (own : ∀ begin, pendingSlot size begin old = none)
    (idle : ∀ begin, pendingSlot size begin new = none)
    (placed : Placed size base state.begin old → Placed size base (read + 1) new) :
    Contents size ({ state with begin := read + 1 }.setPhase thread new) items base claimants := by
  obtain ⟨was, only⟩ := contents.sectioned.placed before inside
  refine contents.turn before claim bounded ?_ ?_ ?_
  · rw [own, idle]
  · exact fun other _ => pending_of_indexed (allowed other) _
  · exact Sectioned.moves only (placed was)

theorem write_wrap_contents {ret read : Nat} (contents : Contents size state items base claimants)
    (small : 2 * size < wordSize) (before : state.phase thread = .deqWrap ret read) :
    Contents size ({ state with begin := read % size }.setPhase thread (.deqWrapped ret)) items base
      claimants := by
  obtain ⟨⟨same, begins, based⟩, only⟩ := contents.sectioned.placed before rfl
  subst same
  refine contents.turn before rfl trivial rfl ?_ ?_
  · exact fun other _ => contents.pending_wrapped small begins other
  · exact Sectioned.leaves only based.symm rfl

/-! ## Steps -/

theorem test_full_contents {ele : Nat} (contents : Contents size state items base claimants)
    (before : state.phase thread = old) (wasIdle : quiet old = true) :
    Contents size (testFull size state thread ele) items base claimants := by
  rw [testFull]
  split_ifs
  · exact contents.quiet before wasIdle rfl trivial
  · exact contents.quiet before wasIdle rfl trivial

theorem test_empty_contents (contents : Contents size state items base claimants)
    (before : state.phase thread = old) (wasIdle : quiet old = true) :
    Contents size (testEmpty state thread) items base claimants := by
  rw [testEmpty]
  split_ifs
  · exact contents.quiet before wasIdle rfl trivial
  · exact contents.quiet before wasIdle rfl trivial

theorem count_first_contents {ele : Nat} (contents : Contents size state items base claimants)
    (small : 2 * size < wordSize) (allowed : KeepsApart size state (.countUp thread))
    (before : state.phase thread = .enqPassed ele) :
    Contents size
      ({ state with count := add32 state.count 1, enqueued := ele :: state.enqueued }.setPhase
        thread (.enqCounted ele (add32 state.count 1)))
      (items ++ [(ele, some thread)]) base claimants := by
  have room : state.count < size := allowed.1
  have begins := contents.sectioned.begin_le contents.based
  rw [add32_of_lt (by omega)]
  refine count_up_contents contents allowed before rfl rfl rfl ⟨Nat.succ_pos _, room⟩ ?_
  rw [pendingSlot, index_of_eq (Nat.succ_pos _) (by omega)]
  rfl

theorem count_second_contents {ele read : Nat}
    (contents : Contents size state items base claimants) (small : 2 * size < wordSize)
    (allowed : KeepsApart size state (.countUp thread))
    (before : state.phase thread = .enqBegin ele read) :
    Contents size
      ({ state with count := add32 state.count 1, enqueued := ele :: state.enqueued }.setPhase
        thread (.enqIndexed ele (indexOf size read (add32 state.count 1))))
      (items ++ [(ele, some thread)]) base claimants := by
  have room : state.count < size := allowed.1
  have current : read % size = state.begin % size := by
    apply allowed.2.2.2
    rw [before]
    rfl
  have reads : read ≤ size := by
    have bounded := contents.bounded thread
    rwa [before] at bounded
  rw [add32_of_lt (by omega)]
  refine count_up_contents contents allowed before rfl rfl rfl trivial ?_
  rw [pendingSlot, index_of_eq (Nat.succ_pos _) (by omega), Nat.add_sub_assoc (Nat.succ_pos _),
    ← Nat.mod_add_mod, current, Nat.mod_add_mod]
  rfl

theorem woken_phase_cases (size : Nat) (phase : Phase) :
    wokenPhase phase = phase ∨
      quiet phase = true ∧ quiet (wokenPhase phase) = true ∧ Bounded size (wokenPhase phase) := by
  cases phase <;> first | exact Or.inl rfl | exact Or.inr ⟨rfl, rfl, trivial⟩

/-- Taking a thread off a list changes no call that has an element in hand. -/
theorem woken_contents (contents : Contents size state items base claimants) (first : Thread)
    (producer consumer : List Thread) :
    Contents size ({ state with producer := producer, consumer := consumer }.setPhase first
      (wokenPhase (state.phase first))) items base claimants := by
  rcases woken_phase_cases size (state.phase first) with same | ⟨wasIdle, idle, bounded⟩
  · rw [same, QueueState.setPhase, move_same _ _ _ rfl]
    exact ⟨contents.based, contents.length, contents.fits, contents.claims, contents.laid,
      contents.writers, contents.bounded, contents.sectioned, contents.kept⟩
  · exact contents.quiet rfl wasIdle idle bounded

/-- The waking thread is not changed by what it wakes, even if that is itself. -/
theorem waker_phase (before : state.phase thread = old) (waking : wokenPhase old = old)
    (first : Thread) :
    Function.update state.phase first (wokenPhase (state.phase first)) thread = old := by
  by_cases same : thread = first
  · subst same
    rw [Function.update_self, before, waking]
  · rw [Function.update_of_ne same, before]

theorem wake_contents (contents : Contents size state items base claimants) (first : Thread)
    (producer consumer : List Thread) (before : state.phase thread = old)
    (waking : wokenPhase old = old) (wasIdle : quiet old = true) :
    Contents size (({ state with producer := producer, consumer := consumer }.setPhase first
      (wokenPhase (state.phase first))).setPhase thread .outside) items base claimants := by
  have woken := woken_contents contents first producer consumer
  exact woken.quiet (waker_phase before waking first) wasIdle rfl trivial

theorem move_stored {op : QueueOp Thread} (small : 2 * size < wordSize)
    (stored : Stored size state) (allowed : KeepsApart size state op)
    (move : Move size state thread op next) : Stored size next := by
  obtain ⟨items, base, claimants, contents⟩ := stored
  cases move with
  | testsFull ele before =>
      refine ⟨items, base, claimants, ?_⟩
      rcases before with ⟨-, before⟩ | ⟨-, before⟩ | ⟨-, before⟩
      · exact test_full_contents contents before rfl
      · exact test_full_contents contents before rfl
      · exact test_full_contents contents before rfl
  | testsEmpty before =>
      refine ⟨items, base, claimants, ?_⟩
      rcases before with ⟨-, before⟩ | ⟨-, before⟩ | ⟨-, before⟩
      · exact test_empty_contents contents before rfl
      · exact test_empty_contents contents before rfl
      · exact test_empty_contents contents before rfl
  | enqSleeps ele before =>
      exact ⟨items, base, claimants,
        contents.quiet before rfl rfl trivial⟩
  | deqSleeps before =>
      exact ⟨items, base, claimants,
        contents.quiet before rfl rfl trivial⟩
  | enqReadsFirst ele before =>
      exact ⟨items, base, claimants, contents.quiet before rfl rfl
        (contents.sectioned.begin_le contents.based)⟩
  | enqReadsSecond ele count before =>
      exact ⟨items, base, claimants, contents.turn before rfl trivial rfl
        (fun _ _ => rfl) (contents.sectioned.apart before rfl rfl)⟩
  | deqReadsBegin before =>
      have nobody := allowed before
      have same := contents.sectioned.empty nobody
      exact ⟨items, base, claimants, contents.turn before rfl trivial rfl
        (fun _ _ => rfl) (Sectioned.moves (fun other _ => nobody other) ⟨same, same⟩)⟩
  | countsFirst ele before =>
      exact ⟨_, base, claimants, count_first_contents contents small allowed before⟩
  | countsSecond ele begin before =>
      exact ⟨_, base, claimants, count_second_contents contents small allowed before⟩
  | countsDown before =>
      have fits := contents.length.symm.le.trans contents.fits
      rw [count_down (by omega) allowed]
      exact ⟨items, base, _, count_down_contents contents allowed before⟩
  | writesSlot ele index before =>
      exact ⟨_, base, claimants, write_slot_contents contents before⟩
  | readsSlotFirst read before =>
      obtain ⟨⟨same, begins⟩, only⟩ := contents.sectioned.placed before rfl
      subst same
      have written := allowed read (by rw [before]; rfl)
      exact read_slot_stored contents before rfl rfl (fun _ => rfl) (fun _ => rfl) trivial written
        (Sectioned.moves only ⟨begins, contents.based, rfl⟩)
  | readsSlotSecond read before =>
      obtain ⟨⟨same, begins⟩, only⟩ := contents.sectioned.placed before rfl
      subst same
      have written := allowed read (by rw [before]; rfl)
      have placed : Placed size ((read + 1) % size) state.begin (.deqRead (state.arr read)) := by
        rw [begins]
        exact ⟨contents.based, rfl⟩
      exact read_slot_stored contents before rfl rfl (fun _ => rfl) (fun _ => rfl) trivial written
        (Sectioned.moves only placed)
  | advancesFirst read before =>
      obtain ⟨⟨same, -⟩, -⟩ := contents.sectioned.placed before rfl
      have based := contents.based
      rw [add32_of_lt (by omega)]
      refine ⟨items, base, claimants, advance_contents contents allowed before rfl rfl trivial
        (fun _ => rfl) (fun _ => rfl) ?_⟩
      rintro ⟨reads, -⟩
      exact ⟨reads, congrArg (· + 1) reads⟩
  | advancesSecond read ret before =>
      obtain ⟨⟨-, fits, -⟩, -⟩ := contents.sectioned.placed before rfl
      rw [add32_of_lt (by omega)]
      refine ⟨items, base, claimants, advance_contents contents allowed before rfl rfl trivial
        (fun _ => rfl) (fun _ => rfl) ?_⟩
      rintro ⟨-, reads, based⟩
      exact ⟨reads, based⟩
  | readsWrap ret before =>
      obtain ⟨⟨begins, based⟩, only⟩ := contents.sectioned.placed before rfl
      exact ⟨items, base, claimants, contents.turn before rfl trivial rfl
        (fun _ _ => rfl) (Sectioned.moves only ⟨rfl, begins, based⟩)⟩
  | writesWrap ret read before =>
      exact ⟨items, base, claimants, write_wrap_contents contents small before⟩
  | enqTests before =>
      refine ⟨items, base, claimants, ?_⟩
      split_ifs
      · exact contents.quiet before rfl rfl trivial
      · exact contents.quiet before rfl rfl trivial
  | deqTests ret before =>
      refine ⟨items, base, claimants, ?_⟩
      split_ifs
      · exact contents.quiet before rfl rfl trivial
      · exact contents.quiet before rfl rfl trivial
  | wakesConsumer first rest before listed =>
      exact ⟨items, base, claimants,
        wake_contents contents first state.producer rest before rfl rfl⟩
  | wakesProducer ret first rest before listed =>
      exact ⟨items, base, claimants,
        wake_contents contents first rest state.consumer before rfl rfl⟩

/-! ## Whole runs -/

/-- While no call is in progress, the values that went in are those that came out
and the `count` values stored from `begin` on. -/
def Conserved (size : Nat) (state : QueueState Thread) : Prop :=
  (∀ thread, state.phase thread = .outside) →
    state.count ≤ size ∧
      state.enqueued.Perm (state.dequeued ++
        (List.range state.count).map fun index => state.arr ((state.begin + index) % size))

omit [DecidableEq Thread] in
theorem Contents.conserved (contents : Contents size state items base claimants) :
    Conserved size state := by
  intro idle
  have unclaimed : claimants = ∅ := by
    apply Finset.eq_empty_of_forall_notMem
    intro thread member
    rw [contents.claims, idle] at member
    exact Bool.false_ne_true member
  have length := contents.length
  rw [unclaimed, Finset.card_empty, Nat.add_zero] at length
  have begins : state.begin = base := by
    apply contents.sectioned.empty
    intro thread
    rw [idle]
    rfl
  have written : LaidOut size (fun slot item => state.arr slot = item.1) base items := by
    refine contents.laid.imp ?_
    rintro slot ⟨ele, writer⟩ - held
    cases writer with
    | none => exact held
    | some writer =>
        rw [Holds, idle] at held
        cases held
  have values := written.values
  rw [length, ← begins] at values
  refine ⟨length ▸ contents.fits, ?_⟩
  have kept := contents.kept
  rw [values] at kept
  exact kept

omit [DecidableEq Thread] in
theorem empty_queue_stored (arr : Nat → Nat) (positive : 0 < size) :
    Stored size (emptyQueue arr : QueueState Thread) := by
  refine ⟨[], 0, ∅, positive, rfl, Nat.zero_le _, ?_, ?_, ?_, fun _ => trivial,
    Or.inl ⟨rfl, fun _ => rfl⟩, List.Perm.nil⟩
  · exact fun _ => iff_of_false (Finset.notMem_empty _) Bool.false_ne_true
  · intro index item found
    cases found
  · exact fun _ writing => absurd rfl writing

/-- Along every run whose calls keep apart, the queue loses and duplicates
nothing. -/
theorem kept_apart_run_conserves (size : Nat) (arr : Nat → Nat) (positive : 0 < size)
    (small : 2 * size < wordSize) {ops : List (QueueOp Thread)} {final : QueueState Thread}
    (permitted : Permitted (step size) (KeepsApart size) (emptyQueue arr) ops)
    (run : runFrom (step size) (emptyQueue arr) ops = some final) : Conserved size final := by
  have preserved : ∀ (state : QueueState Thread) op next, Stored size state →
      KeepsApart size state op → step size state op = some next → Stored size next := by
    intro state op next stored allowed stepped
    obtain ⟨thread, move⟩ := step_move stepped
    exact move_stored small stored allowed move
  obtain ⟨items, base, claimants, contents⟩ :=
    run_invariant preserved (empty_queue_stored arr positive) permitted run
  exact contents.conserved

instance [Fintype Thread] (state : QueueState Thread) :
    (op : QueueOp Thread) → Decidable (KeepsApart size state op)
  | .countUp thread => inferInstanceAs (Decidable (state.count < size ∧
      (∀ other, behind (state.phase other) = false) ∧
      (∀ other, ahead (state.phase other) = true → state.count + 1 < size) ∧
      ∀ begin ∈ beginRead (state.phase thread), begin % size = state.begin % size))
  | .countDown _ => inferInstanceAs (Decidable (0 < state.count))
  | .readBegin thread => inferInstanceAs (Decidable (state.phase thread = .deqCounted →
      ∀ other, inSection (state.phase other) = false))
  | .advanceBegin _ =>
      inferInstanceAs (Decidable (∀ other, unindexed (state.phase other) = false))
  | .readSlot thread => inferInstanceAs (Decidable (∀ slot ∈ slotToRead (state.phase thread),
      ∀ other, ∀ pending ∈ pendingSlot size state.begin (state.phase other), pending.2 ≠ slot))
  | .wakeFirst thread => inferInstanceAs (Decidable (if state.phase thread = .enqWaking then
      state.consumer ≠ [] else state.producer ≠ []))
  | .circularEnqueue _ _ | .circularDequeue _ | .testAgain _ | .switchIn _ | .listMoveToTail _
  | .writeSlot _ | .readWrap _ | .writeWrap _ | .testWaiting _ => inferInstanceAs (Decidable True)

/-- Two threads enqueue side by side, then one of them takes the first element. -/
def sideBySideOps : List (QueueOp Bool) :=
  [.circularEnqueue false 5, .circularEnqueue true 6, .readBegin false, .countUp false,
    .countUp true, .readBegin true, .writeSlot true, .writeSlot false, .testWaiting false,
    .testWaiting true, .circularDequeue false, .countDown false, .readBegin false,
    .advanceBegin false, .readSlot false, .readWrap false, .writeWrap false, .testWaiting false]

theorem kept_apart_run_conserves_sample : ∃ final,
    Permitted (step 2) (KeepsApart 2) (emptyQueue fun _ => 0) sideBySideOps ∧
      runFrom (step 2) (emptyQueue fun _ => 0) sideBySideOps = some final ∧
      final.enqueued = [6, 5] ∧ final.dequeued = [5] ∧ Conserved 2 final := by
  have permitted : Permitted (step 2) (KeepsApart 2) (emptyQueue fun _ => 0) sideBySideOps := by
    decide +kernel
  have facts : ((runFrom (step 2) (emptyQueue fun _ => 0) sideBySideOps).map fun final =>
      (final.enqueued, final.dequeued)) = some ([6, 5], [5]) := by
    decide +kernel
  obtain ⟨final, run, values⟩ := Option.map_eq_some_iff.mp facts
  rw [Prod.mk.injEq] at values
  exact ⟨final, permitted, run, values.1, values.2,
    kept_apart_run_conserves 2 (fun _ => 0) (by decide) (by decide) permitted run⟩

/-- Two enqueues find the one free place and both take it. -/
def crowdedOps : List (QueueOp Bool) :=
  [.circularEnqueue false 5, .circularEnqueue true 6, .readBegin false, .countUp false,
    .writeSlot false, .testWaiting false, .readBegin true, .countUp true, .writeSlot true,
    .testWaiting true]

theorem crowded_enqueues_overfill : ∃ final,
    runFrom (step 1) (emptyQueue fun _ => 0) crowdedOps = some final ∧
      (∀ thread, final.phase thread = .outside) ∧ final.count = 2 ∧ ¬Conserved 1 final := by
  have facts : ((runFrom (step 1) (emptyQueue fun _ => 0) crowdedOps).map fun final =>
      (decide (∀ thread, final.phase thread = .outside), final.count)) = some (true, 2) := by
    decide +kernel
  obtain ⟨final, run, values⟩ := Option.map_eq_some_iff.mp facts
  rw [Prod.mk.injEq, decide_eq_true_eq] at values
  obtain ⟨idle, count⟩ := values
  refine ⟨final, run, idle, count, fun kept => ?_⟩
  have fits := (kept idle).1
  rw [count] at fits
  exact absurd fits (by decide)

end ChaoOS.QueueContents
