import Mathlib.Data.List.Perm.Subperm
import ChaoOS.GuardedRun
import ChaoOS.IndexList
import ChaoOS.KernelMath

/-!
# The timers of `kernel/timer.c`

Timers are structs at addresses that `kmalloc` answers, linked from `timers`
through their `next` fields; a null pointer ends the list. `calls` is the log of
the callbacks that `timer_schedule` has called, each with the timer it was
called for, newest first, and `freed` the log of the structs given to `kfree`.
-/

namespace ChaoOS.TimerModel

open ChaoOS.GuardedRun ChaoOS.IndexList ChaoOS.KernelMath

set_option autoImplicit false

def timerFrequencyMax : Nat := 1193180

def timerFrequencyMin : Nat := 2

def timerFre : Nat := 1000

structure Timer (Callback : Type*) where
  callbackFunc : Callback
  interval : Nat
  elapse : Nat
  next : Nat

/-- The struct at address zero is whatever words are there. -/
structure TimerState (Callback : Type*) where
  timers : Nat
  timer : Nat → Timer Callback
  calls : List (Nat × Callback)
  held : List Nat
  freed : List Nat

variable {Callback : Type*}

namespace TimerState

def modify (state : TimerState Callback) (address : Nat)
    (change : Timer Callback → Timer Callback) : TimerState Callback :=
  { state with
    timer := fun other =>
      if other = address then change (state.timer other) else state.timer other }

def nextOf (state : TimerState Callback) (address : Nat) : Nat := (state.timer address).next

/-- `kmalloc`, which answers `address`. -/
def kmalloc (state : TimerState Callback) (address : Nat) : TimerState Callback :=
  { state with held := address :: state.held }

def kfree (state : TimerState Callback) (address : Nat) : TimerState Callback :=
  { state with held := state.held.erase address, freed := address :: state.freed }

end TimerState

/-- One round of the loop in `timer_schedule`, up to `current_timer->next`. -/
def visit (state : TimerState Callback) (current : Nat) : TimerState Callback :=
  let state := state.modify current fun timer => { timer with elapse := sub32 timer.elapse 1 }
  if (state.timer current).elapse = 0 then
    let state := state.modify current fun timer => { timer with elapse := timer.interval }
    { state with calls := (current, (state.timer current).callbackFunc) :: state.calls }
  else state

/-- `none` when the list is longer than the fuel. -/
def timerSchedule : Nat → Nat → TimerState Callback → Option (TimerState Callback)
  | 0, _, _ => none
  | fuel + 1, current, state =>
      if current = 0 then some state
      else
        let state := visit state current
        timerSchedule fuel (state.nextOf current) state

/-- `address` is what `kmalloc` answers, should it be called. -/
def registerTimer (state : TimerState Callback) (callback : Callback) (frequency address : Nat) :
    TimerState Callback :=
  if timerFrequencyMin ≤ frequency ∧ frequency ≤ timerFrequencyMax then
    let state := state.kmalloc address
    let interval := timerFre / frequency
    let state := state.modify address fun timer => { timer with callbackFunc := callback }
    let state := state.modify address fun timer => { timer with elapse := interval }
    let state := state.modify address fun timer => { timer with interval := interval }
    let state := state.modify address fun timer => { timer with next := 0 }
    if state.timers = 0 then { state with timers := address }
    else
      let state := state.modify address fun timer => { timer with next := state.timers }
      { state with timers := address }
  else state

/-- The loop of `unregister_timer`; the answer is `current` and `prev`. -/
def findTimer (state : TimerState Callback) (timer : Nat) : Nat → Nat → Nat → Option (Nat × Nat)
  | 0, _, _ => none
  | fuel + 1, current, prev =>
      if current ≠ 0 ∧ current ≠ timer then
        findTimer state timer fuel (state.nextOf current) current
      else some (current, prev)

/-- What `unregister_timer` does after its loop. -/
def unlinkTimer (state : TimerState Callback) (timer : Nat) (found : Nat × Nat) :
    TimerState Callback :=
  let (current, prev) := found
  if current = timer then
    let state :=
      if prev ≠ 0 then state.modify prev fun node => { node with next := state.nextOf current }
      else { state with timers := state.nextOf current }
    state.kfree timer
  else state

def unregisterTimer (state : TimerState Callback) (timer : Nat) : Option (TimerState Callback) :=
  (findTimer state timer wordSize state.timers state.timers).map (unlinkTimer state timer)

/-! ## The list -/

/-- The structs reached from `timers` are `nodes`, in order. -/
structure Registered (state : TimerState Callback) (nodes : List Nat) : Prop where
  follows : Follows state.nextOf 0 state.timers nodes
  words : ∀ address ∈ nodes, address < wordSize

section Lists

variable {state : TimerState Callback} {nodes : List Nat}

theorem Registered.nodup (registered : Registered state nodes) : nodes.Nodup :=
  follows_nodup registered.follows

theorem Registered.unique (registered : Registered state nodes) {other : List Nat}
    (same : Registered state other) : nodes = other :=
  follows_unique registered.follows same.follows

/-- A walk along the list ends within the fuel of the model. -/
theorem Registered.length_lt (registered : Registered state nodes) : nodes.length < wordSize := by
  have zero : 0 ∉ nodes := fun member => follows_ne_stop registered.follows member rfl
  have nodup : (0 :: nodes).Nodup := List.nodup_cons.mpr ⟨zero, registered.nodup⟩
  have inside : (0 :: nodes) ⊆ List.range wordSize := by
    intro address member
    rcases List.mem_cons.mp member with null | listed
    · rw [null, List.mem_range, wordSize]
      decide
    · exact List.mem_range.mpr (registered.words address listed)
  have bound := (nodup.subperm inside).length_le
  rw [List.length_cons, List.length_range] at bound
  exact bound

end Lists

/-! ## `timer_schedule` -/

/-- The decremented counter is zero. -/
def Due (timer : Timer Callback) : Prop := sub32 timer.elapse 1 = 0

instance (timer : Timer Callback) : Decidable (Due timer) :=
  inferInstanceAs (Decidable (_ = _))

/-- What a tick does to one timer. -/
def ticked (timer : Timer Callback) : Timer Callback :=
  { timer with elapse := if Due timer then timer.interval else sub32 timer.elapse 1 }

theorem ticked_elapse (timer : Timer Callback) : (ticked timer).elapse =
    if Due timer then timer.interval else sub32 timer.elapse 1 := by
  rw [ticked]

/-- The calls of one tick, in the order of the list. -/
def firedBy (timer : Nat → Timer Callback) (nodes : List Nat) : List (Nat × Callback) :=
  (nodes.filter fun address => Due (timer address)).map
    fun address => (address, (timer address).callbackFunc)

theorem fired_by_nil (timer : Nat → Timer Callback) : firedBy timer [] = [] := by
  simp only [firedBy, List.filter_nil, List.map_nil]

theorem fired_by_cons (timer : Nat → Timer Callback) (first : Nat) (rest : List Nat) :
    firedBy timer (first :: rest) =
      if Due (timer first) then (first, (timer first).callbackFunc) :: firedBy timer rest
      else firedBy timer rest := by
  simp only [firedBy, List.filter_cons]
  by_cases due : Due (timer first)
  · simp only [due, decide_true, if_true, List.map_cons]
  · simp only [due, decide_false, Bool.false_eq_true, if_false]

theorem fired_by_congr {timer timer' : Nat → Timer Callback} {nodes : List Nat}
    (same : ∀ address ∈ nodes, timer' address = timer address) :
    firedBy timer' nodes = firedBy timer nodes := by
  induction nodes with
  | nil => rw [fired_by_nil, fired_by_nil]
  | cons first rest induction =>
      rw [fired_by_cons, fired_by_cons, same first List.mem_cons_self,
        induction fun address member => same address (List.mem_cons_of_mem _ member)]

section Schedule

variable (state : TimerState Callback)

theorem visit_eq (current : Nat) : visit state current =
    { state with
      timer := fun other =>
        if other = current then ticked (state.timer other) else state.timer other
      calls :=
        if Due (state.timer current) then
          (current, (state.timer current).callbackFunc) :: state.calls
        else state.calls } := by
  by_cases due : sub32 (state.timer current).elapse 1 = 0
  · simp only [visit, TimerState.modify, if_true, due, ticked, Due, TimerState.mk.injEq, true_and,
      and_true]
    funext other
    by_cases here : other = current
    · simp only [here, if_true, due]
    · simp only [if_neg here]
  · simp only [visit, TimerState.modify, if_true, due, if_false, ticked, Due, TimerState.mk.injEq,
      true_and, and_true]
    funext other
    by_cases here : other = current
    · simp only [here, if_true, due, if_false]
    · simp only [if_neg here]

theorem visit_timer (current other : Nat) : (visit state current).timer other =
    if other = current then ticked (state.timer other) else state.timer other := by
  simp only [visit_eq]

theorem visit_next (current : Nat) : (visit state current).nextOf = state.nextOf := by
  funext other
  rw [TimerState.nextOf, visit_timer, TimerState.nextOf]
  by_cases here : other = current
  · rw [if_pos here, ticked]
  · rw [if_neg here]

/-- A tick visits every listed timer once and no other. -/
structure Ticked (state : TimerState Callback) (nodes : List Nat) (final : TimerState Callback) :
    Prop where
  timer : ∀ other, final.timer other =
    if other ∈ nodes then ticked (state.timer other) else state.timer other
  calls : final.calls = (firedBy state.timer nodes).reverse ++ state.calls
  timers : final.timers = state.timers
  held : final.held = state.held
  freed : final.freed = state.freed

theorem timer_schedule_ticks {nodes : List Nat} {current fuel : Nat}
    (follows : Follows state.nextOf 0 current nodes) (enough : nodes.length < fuel) :
    ∃ final, timerSchedule fuel current state = some final ∧ Ticked state nodes final := by
  induction nodes generalizing state current fuel with
  | nil =>
      obtain ⟨fuel, rfl⟩ := Nat.exists_eq_succ_of_ne_zero (Nat.ne_of_gt enough)
      have null : current = 0 := follows
      refine ⟨state, by rw [timerSchedule, if_pos null], ?_, ?_, rfl, rfl, rfl⟩
      · intro other
        rw [if_neg List.not_mem_nil]
      · rw [fired_by_nil, List.reverse_nil, List.nil_append]
  | cons first rest induction =>
      obtain ⟨fuel, rfl⟩ := Nat.exists_eq_succ_of_ne_zero (Nat.ne_of_gt (Nat.zero_lt_of_lt enough))
      obtain ⟨fresh, -⟩ := List.nodup_cons.mp (follows_nodup follows)
      obtain ⟨same, inside, tail⟩ := follows
      subst same
      rw [← visit_next state current] at tail
      obtain ⟨final, ends, visited⟩ := induction (visit state current) tail
        (Nat.lt_of_succ_lt_succ enough)
      have later : ∀ address ∈ rest, (visit state current).timer address = state.timer address := by
        intro address member
        rw [visit_timer, if_neg]
        intro here
        exact fresh (here ▸ member)
      have calls := visited.calls
      rw [fired_by_congr later] at calls
      refine ⟨final, ?_, ?_, ?_, ?_, ?_, ?_⟩
      · rw [timerSchedule, if_neg inside]
        exact ends
      · intro other
        rw [visited.timer other, visit_timer]
        by_cases here : other = current
        · rw [here, if_neg fresh, if_pos List.mem_cons_self, if_pos rfl]
        · simp only [List.mem_cons, here, false_or, if_false]
      · rw [calls, fired_by_cons]
        simp only [visit_eq]
        split_ifs
        · rw [List.reverse_cons, List.append_assoc, List.singleton_append]
        · rfl
      · rw [visited.timers]
        simp only [visit_eq]
      · rw [visited.held]
        simp only [visit_eq]
      · rw [visited.freed]
        simp only [visit_eq]

end Schedule

/-! ## `register_timer` -/

section Register

variable {state : TimerState Callback} {nodes : List Nat} {callback : Callback}
  {frequency address : Nat}

def Accepted (frequency : Nat) : Prop :=
  timerFrequencyMin ≤ frequency ∧ frequency ≤ timerFrequencyMax

instance (frequency : Nat) : Decidable (Accepted frequency) :=
  inferInstanceAs (Decidable (_ ∧ _))

theorem register_timer_eq (accepted : Accepted frequency) :
    registerTimer state callback frequency address =
      { state with
        timers := address
        timer := fun other =>
          if other = address then
            { callbackFunc := callback, interval := timerFre / frequency,
              elapse := timerFre / frequency, next := state.timers }
          else state.timer other
        held := address :: state.held } := by
  unfold registerTimer
  rw [if_pos (show timerFrequencyMin ≤ frequency ∧ frequency ≤ timerFrequencyMax from accepted)]
  by_cases null : state.timers = 0
  · simp only [TimerState.modify, TimerState.kmalloc, null, if_true, TimerState.mk.injEq, true_and,
      and_true]
    funext other
    by_cases here : other = address
    · simp only [here, if_true]
    · simp only [if_neg here]
  · simp only [TimerState.modify, TimerState.kmalloc, null, if_false, TimerState.mk.injEq, true_and,
      and_true]
    funext other
    by_cases here : other = address
    · simp only [here, if_true]
    · simp only [if_neg here]

theorem register_timer_rejected (rejected : ¬Accepted frequency) :
    registerTimer state callback frequency address = state :=
  if_neg rejected

/-- The new timer becomes the first of the list. -/
theorem Registered.register (registered : Registered state nodes) (accepted : Accepted frequency)
    (nonnull : address ≠ 0) (word : address < wordSize) (fresh : address ∉ nodes) :
    Registered (registerTimer state callback frequency address) (address :: nodes) := by
  rw [register_timer_eq accepted]
  constructor
  · refine ⟨rfl, nonnull, ?_⟩
    simp only [TimerState.nextOf, if_true]
    apply follows_congr registered.follows
    intro item member
    have other : item ≠ address := fun same => fresh (same ▸ member)
    simp only [TimerState.nextOf, if_neg other]
  · intro item member
    rcases List.mem_cons.mp member with same | listed
    · rw [same]
      exact word
    · exact registered.words item listed

/-- A tick leaves the list as it was. -/
theorem Registered.tick {final : TimerState Callback} (registered : Registered state nodes)
    (visited : Ticked state nodes final) : Registered final nodes := by
  refine ⟨?_, registered.words⟩
  rw [visited.timers]
  apply follows_congr registered.follows
  intro item member
  rw [TimerState.nextOf, visited.timer, if_pos member, ticked, TimerState.nextOf]

end Register

end ChaoOS.TimerModel
