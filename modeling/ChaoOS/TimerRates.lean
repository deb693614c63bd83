import ChaoOS.TimerModel

/-!
# How often a timer is called

The counter of a timer is decremented before it is tested. One that starts at
the interval is called every `interval` ticks; one that starts at zero has to go
through all words first. The interval is zero for the frequencies above
`TIMER_FRE`.
-/

namespace ChaoOS.TimerRates

open ChaoOS.GuardedRun ChaoOS.KernelMath ChaoOS.TimerModel

set_option autoImplicit false

variable {Callback : Type*}

inductive TimerOp (Callback : Type*) where
  | register (callback : Callback) (frequency address : Nat)
  | tick

def timerStep (state : TimerState Callback) : TimerOp Callback → Option (TimerState Callback)
  | .register callback frequency address => some (registerTimer state callback frequency address)
  | .tick => timerSchedule wordSize state.timers state

/-- `kmalloc` answers a struct that is not in use. -/
def TimerAllowed (state : TimerState Callback) : TimerOp Callback → Prop
  | .register _ _ address => address ≠ 0 ∧ address < wordSize ∧ address ∉ state.held
  | .tick => True

/-- Before the first timer is registered; `memory` is what is in the structs. -/
def bootTimers (memory : Nat → Timer Callback) : TimerState Callback where
  timers := 0
  timer := memory
  calls := []
  held := []
  freed := []

def countTick (n : Nat) : TimerOp Callback → Nat
  | .register _ _ _ => n
  | .tick => n + 1

def ticks (ops : List (TimerOp Callback)) : Nat := ops.foldl countTick 0

/-! ## One counter -/

/-- The ticks from one call to the next. -/
def period (interval : Nat) : Nat := if interval = 0 then wordSize else interval

theorem period_pos (interval : Nat) : 0 < period interval := by
  unfold period wordSize
  split_ifs <;> omega

/-- A timer registered with `interval`, `n` ticks later. -/
structure Counted (timer : Timer Callback) (callback : Callback) (interval n : Nat) : Prop where
  called : timer.callbackFunc = callback
  reload : timer.interval = interval
  elapse : timer.elapse = (period interval - n % period interval) % wordSize

section Counter

variable {timer : Timer Callback} {callback : Callback} {interval n : Nat}

/-- One decrement modulo `2 ^ 32`. -/
theorem countdown_step {p r : Nat} (small : p ≤ wordSize) (inside : r < p) :
    (sub32 ((p - r) % wordSize) 1 = 0 ↔ r + 1 = p) ∧
      sub32 ((p - r) % wordSize) 1 = (p - (r + 1)) % wordSize := by
  unfold sub32
  rw [wordSize] at *
  omega

theorem next_mod {p : Nat} (positive : 0 < p) (n : Nat) :
    (n + 1) % p = if n % p + 1 = p then 0 else n % p + 1 := by
  have inside := Nat.mod_lt n positive
  have split : n + 1 = n % p + 1 + p * (n / p) := by
    have whole := Nat.mod_add_div n p
    omega
  rw [split, Nat.add_mul_mod_self_left]
  split_ifs with last
  · rw [last, Nat.mod_self]
  · exact Nat.mod_eq_of_lt (by omega)

theorem period_le (word : interval < wordSize) : period interval ≤ wordSize := by
  unfold period
  split_ifs <;> omega

/-- What is loaded after a call counts a whole period. -/
theorem period_reload (word : interval < wordSize) : interval = period interval % wordSize := by
  unfold period
  split_ifs with zero
  · rw [zero, Nat.mod_self]
  · rw [Nat.mod_eq_of_lt word]

theorem Counted.due_iff (counted : Counted timer callback interval n)
    (word : interval < wordSize) : Due timer ↔ n % period interval + 1 = period interval := by
  have inside := Nat.mod_lt n (period_pos interval)
  rw [Due, counted.elapse, (countdown_step (period_le word) inside).1]

theorem last_iff_dvd {p : Nat} (positive : 0 < p) (n : Nat) : n % p + 1 = p ↔ p ∣ n + 1 := by
  rw [Nat.dvd_iff_mod_eq_zero, next_mod positive]
  by_cases last : n % p + 1 = p
  · rw [if_pos last]
    exact iff_of_true last rfl
  · rw [if_neg last]
    exact iff_of_false last (Nat.succ_ne_zero _)

theorem Counted.ticked (counted : Counted timer callback interval n)
    (word : interval < wordSize) : Counted (ticked timer) callback interval (n + 1) := by
  have inside := Nat.mod_lt n (period_pos interval)
  have due := counted.due_iff word
  constructor
  case called => rw [TimerModel.ticked, counted.called]
  case reload => rw [TimerModel.ticked, counted.reload]
  case elapse =>
      rw [ticked_elapse, next_mod (period_pos interval)]
      by_cases last : n % period interval + 1 = period interval
      · rw [if_pos (due.mpr last), if_pos last, Nat.sub_zero, counted.reload]
        exact period_reload word
      · rw [if_neg (fun now => last (due.mp now)), if_neg last, counted.elapse]
        exact (countdown_step (period_le word) inside).2

/-- A timer that has just been registered. -/
theorem counted_registered (word : interval < wordSize) (next : Nat) :
    Counted { callbackFunc := callback, interval := interval, elapse := interval, next := next }
      callback interval 0 := by
  refine ⟨rfl, rfl, ?_⟩
  rw [Nat.zero_mod, Nat.sub_zero]
  exact period_reload word

end Counter

/-! ## Intervals and frequencies -/

theorem interval_lt (frequency : Nat) : timerFre / frequency < wordSize :=
  Nat.lt_of_le_of_lt (Nat.div_le_self _ _) (by decide)

theorem interval_zero_iff {frequency : Nat} (accepted : Accepted frequency) :
    timerFre / frequency = 0 ↔ timerFre < frequency := by
  have positive : 0 < frequency := Nat.lt_of_lt_of_le (by decide) accepted.1
  rw [Nat.div_eq_zero_iff]
  omega

/-- A period of all words is one tick only where no tick has passed. -/
theorem rate_iff {frequency : Nat} (accepted : Accepted frequency) (n : Nat) :
    n / period (timerFre / frequency) = n / max 1 (timerFre / frequency) ↔
      frequency ≤ timerFre ∨ n = 0 := by
  by_cases fast : timerFre < frequency
  · have zero := (interval_zero_iff accepted).mpr fast
    rw [period, if_pos zero, zero, Nat.max_eq_left (Nat.zero_le 1), Nat.div_one]
    constructor
    · intro same
      by_contra ticking
      have less := Nat.div_lt_self (Nat.pos_of_ne_zero fun none => ticking (Or.inr none))
        (show 1 < wordSize by decide)
      omega
    · intro slow
      rw [slow.resolve_left (Nat.not_le_of_lt fast), Nat.zero_div]
  · have nonzero : timerFre / frequency ≠ 0 := fun zero => fast ((interval_zero_iff accepted).mp zero)
    rw [period, if_neg nonzero, Nat.max_eq_right (Nat.pos_of_ne_zero nonzero)]
    exact iff_of_true rfl (Or.inl (Nat.le_of_not_lt fast))

/-! ## The calls of a tick -/

section Calls

variable [DecidableEq Callback] {timer : Nat → Timer Callback} {callback : Callback}
  {address : Nat} {nodes : List Nat}

omit [DecidableEq Callback] in
theorem fired_by_listed {call : Nat × Callback} (member : call ∈ firedBy timer nodes) :
    call.1 ∈ nodes := by
  obtain ⟨node, fired, same⟩ := List.mem_map.mp member
  rw [← same]
  exact List.mem_of_mem_filter fired

theorem count_fired_by (nodup : nodes.Nodup) (listed : address ∈ nodes)
    (called : (timer address).callbackFunc = callback) :
    (firedBy timer nodes).count (address, callback) = if Due (timer address) then 1 else 0 := by
  induction nodes with
  | nil => exact absurd listed List.not_mem_nil
  | cons first rest induction =>
      obtain ⟨fresh, nodup⟩ := List.nodup_cons.mp nodup
      rw [fired_by_cons]
      by_cases here : first = address
      · rw [here] at fresh ⊢
        have others : (firedBy timer rest).count (address, callback) = 0 :=
          List.count_eq_zero.mpr fun member => fresh (fired_by_listed member)
        split_ifs with due
        · rw [called, List.count_cons_self, others]
        · exact others
      · have later := (List.mem_cons.mp listed).resolve_left (Ne.symm here)
        have different : (first, (timer first).callbackFunc) ≠ (address, callback) :=
          fun same => here (Prod.mk.inj same).1
        rw [← induction nodup later]
        split_ifs with due
        · rw [List.count_cons_of_ne different]
        · rfl

end Calls

/-! ## Runs -/

/-- Listed timers and called ones are structs that `kmalloc` has answered. -/
structure Scheduled (state : TimerState Callback) (nodes : List Nat) : Prop
    extends Registered state nodes where
  held : ∀ address ∈ nodes, address ∈ state.held
  called : ∀ call ∈ state.calls, call.1 ∈ state.held

section Runs

variable {state : TimerState Callback} {nodes : List Nat}

theorem boot_scheduled (memory : Nat → Timer Callback) : Scheduled (bootTimers memory) [] where
  follows := rfl
  words := by simp
  held := by simp
  called := by simp [bootTimers]

theorem Scheduled.tick (scheduled : Scheduled state nodes) :
    ∃ final, timerSchedule wordSize state.timers state = some final ∧ Ticked state nodes final ∧
      Scheduled final nodes := by
  obtain ⟨final, ends, visited⟩ :=
    timer_schedule_ticks state scheduled.follows scheduled.length_lt
  refine ⟨final, ends, visited, scheduled.toRegistered.tick visited, ?_, ?_⟩
  · rw [visited.held]
    exact scheduled.held
  · intro call member
    rw [visited.calls] at member
    rw [visited.held]
    rcases List.mem_append.mp member with now | earlier
    · exact scheduled.held _ (fired_by_listed (List.mem_reverse.mp now))
    · exact scheduled.called call earlier

theorem Scheduled.register (scheduled : Scheduled state nodes) (callback : Callback)
    {frequency address : Nat} (accepted : Accepted frequency)
    (allowed : TimerAllowed state (.register callback frequency address)) :
    Scheduled (registerTimer state callback frequency address) (address :: nodes) := by
  obtain ⟨nonnull, word, fresh⟩ := allowed
  have unlisted : address ∉ nodes := fun member => fresh (scheduled.held address member)
  refine ⟨scheduled.toRegistered.register accepted nonnull word unlisted, ?_, ?_⟩
  · rw [register_timer_eq accepted]
    intro item member
    rcases List.mem_cons.mp member with same | listed
    · rw [same]
      exact List.mem_cons_self
    · exact List.mem_cons_of_mem _ (scheduled.held item listed)
  · rw [register_timer_eq accepted]
    intro call member
    exact List.mem_cons_of_mem _ (scheduled.called call member)

/-- Every permitted step is taken. -/
theorem step_scheduled (scheduled : Scheduled state nodes) (op : TimerOp Callback)
    (allowed : TimerAllowed state op) :
    ∃ next, timerStep state op = some next ∧ ∃ nodes', Scheduled next nodes' := by
  cases op with
  | register callback frequency address =>
      refine ⟨_, rfl, ?_⟩
      by_cases accepted : Accepted frequency
      · exact ⟨_, scheduled.register callback accepted allowed⟩
      · rw [register_timer_rejected accepted]
        exact ⟨nodes, scheduled⟩
  | tick =>
      obtain ⟨final, ends, -, later⟩ := scheduled.tick
      exact ⟨final, ends, nodes, later⟩

theorem run_scheduled (scheduled : Scheduled state nodes) {ops : List (TimerOp Callback)}
    (permitted : Permitted timerStep TimerAllowed state ops) :
    ∃ final, runFrom timerStep state ops = some final ∧ ∃ nodes', Scheduled final nodes' := by
  have taken : ∀ state op, (∃ nodes : List Nat, Scheduled state nodes) → TimerAllowed state op →
      ∃ next : TimerState Callback, timerStep state op = some next ∧
        ∃ nodes', Scheduled next nodes' := by
    intro state op listed allowed
    obtain ⟨nodes, scheduled⟩ := listed
    exact step_scheduled scheduled op allowed
  exact run_reaches taken ⟨nodes, scheduled⟩ permitted

/-- The timer at `address`, `n` ticks after it was registered. -/
structure Rated [DecidableEq Callback] (state : TimerState Callback) (nodes : List Nat)
    (address : Nat) (callback : Callback) (interval n : Nat) : Prop
    extends Scheduled state nodes where
  listed : address ∈ nodes
  counted : Counted (state.timer address) callback interval n
  calls : state.calls.count (address, callback) = n / period interval

variable [DecidableEq Callback] {callback : Callback} {address interval n : Nat}

theorem Rated.tick (rated : Rated state nodes address callback interval n)
    (word : interval < wordSize) {next : TimerState Callback}
    (step : timerSchedule wordSize state.timers state = some next) :
    Rated next nodes address callback interval (n + 1) := by
  obtain ⟨final, ends, visited, later⟩ := rated.toScheduled.tick
  have same : final = next := Option.some.inj (ends.symm.trans step)
  subst same
  refine ⟨later, rated.listed, ?_, ?_⟩
  · rw [visited.timer, if_pos rated.listed]
    exact rated.counted.ticked word
  · rw [visited.calls, List.count_append, List.count_reverse,
      count_fired_by rated.nodup rated.listed rated.counted.called, rated.calls, Nat.succ_div,
      Nat.add_comm]
    simp only [rated.counted.due_iff word, last_iff_dvd (period_pos interval)]

theorem Rated.step (rated : Rated state nodes address callback interval n)
    (word : interval < wordSize) {op : TimerOp Callback} (allowed : TimerAllowed state op)
    {next : TimerState Callback} (step : timerStep state op = some next) :
    ∃ nodes', Rated next nodes' address callback interval (countTick n op) := by
  cases op with
  | tick => exact ⟨nodes, rated.tick word step⟩
  | register other frequency added =>
      rw [← Option.some.inj step]
      by_cases accepted : Accepted frequency
      · have later := rated.toScheduled.register other accepted allowed
        have different : address ≠ added := by
          intro same
          exact allowed.2.2 (same ▸ rated.held address rated.listed)
        refine ⟨added :: nodes, later, List.mem_cons_of_mem _ rated.listed, ?_, ?_⟩
        · rw [register_timer_eq accepted]
          simp only [if_neg different]
          exact rated.counted
        · rw [register_timer_eq accepted]
          exact rated.calls
      · rw [register_timer_rejected accepted]
        exact ⟨nodes, rated⟩

theorem Rated.run (rated : Rated state nodes address callback interval 0)
    (word : interval < wordSize) {ops : List (TimerOp Callback)}
    (permitted : Permitted timerStep TimerAllowed state ops) {final : TimerState Callback}
    (run : runFrom timerStep state ops = some final) :
    ∃ nodes', Rated final nodes' address callback interval (ticks ops) := by
  have simulated : ∀ n (state : TimerState Callback) op next,
      (∃ nodes, Rated state nodes address callback interval n) → TimerAllowed state op →
      timerStep state op = some next →
      ∃ nodes, Rated next nodes address callback interval (countTick n op) := by
    intro n state op next listed allowed step
    obtain ⟨nodes, rated⟩ := listed
    exact rated.step word allowed step
  exact run_simulation simulated ⟨nodes, rated⟩ permitted run

/-- The number of calls of a timer, at every rate that is accepted. -/
theorem timer_calls (memory : Nat → Timer Callback) {before after : List (TimerOp Callback)}
    {frequency : Nat} (accepted : Accepted frequency)
    (permitted : Permitted timerStep TimerAllowed (bootTimers memory)
      (before ++ .register callback frequency address :: after)) :
    ∃ final, runFrom timerStep (bootTimers memory)
        (before ++ .register callback frequency address :: after) = some final ∧
      final.calls.count (address, callback) = ticks after / period (timerFre / frequency) := by
  obtain ⟨first, second⟩ := permitted_append permitted
  obtain ⟨middle, start, nodes, scheduled⟩ := run_scheduled (boot_scheduled memory) first
  obtain ⟨allowed, later⟩ := second middle start
  have word := interval_lt frequency
  have started : Rated (registerTimer middle callback frequency address) (address :: nodes)
      address callback (timerFre / frequency) 0 := by
    refine ⟨scheduled.register callback accepted allowed, List.mem_cons_self, ?_, ?_⟩
    · rw [register_timer_eq accepted]
      simp only [if_true]
      exact counted_registered word middle.timers
    · rw [register_timer_eq accepted, Nat.zero_div, List.count_eq_zero]
      exact fun member => allowed.2.2 (scheduled.called _ member)
  have rest := later _ rfl
  obtain ⟨final, ends, -⟩ := run_scheduled started.toScheduled rest
  obtain ⟨nodes', rated⟩ := started.run word rest ends
  refine ⟨final, ?_, rated.calls⟩
  rw [run_append start, runFrom]
  exact ends

/-- A timer is called at its rate exactly when its frequency is at most `TIMER_FRE`,
or before the first tick. -/
theorem timer_rate_iff (memory : Nat → Timer Callback) {before after : List (TimerOp Callback)}
    {frequency : Nat} (accepted : Accepted frequency)
    (permitted : Permitted timerStep TimerAllowed (bootTimers memory)
      (before ++ .register callback frequency address :: after)) :
    ∃ final, runFrom timerStep (bootTimers memory)
        (before ++ .register callback frequency address :: after) = some final ∧
      (final.calls.count (address, callback) = ticks after / max 1 (timerFre / frequency) ↔
        frequency ≤ timerFre ∨ ticks after = 0) := by
  obtain ⟨final, ends, calls⟩ := timer_calls memory accepted permitted
  refine ⟨final, ends, ?_⟩
  rw [calls]
  exact rate_iff accepted (ticks after)

end Runs

/-- A timer of 2000 Hz is registered and the clock ticks once. -/
def fastTimer : List (TimerOp Nat) := [.register 0xC0105000 2000 0xC0400000, .tick]

def blankTimer : Timer Nat := ⟨0, 0, 0, 0⟩

theorem fast_timer_permitted :
    Permitted timerStep TimerAllowed (bootTimers fun _ => blankTimer) fastTimer := by
  refine ⟨⟨by decide, by decide, by decide⟩, ?_⟩
  intro next _
  exact ⟨trivial, fun _ _ => trivial⟩

theorem timer_rate_sample : ∃ final,
    runFrom timerStep (bootTimers fun _ => blankTimer) fastTimer = some final ∧
      final.calls.count (0xC0400000, 0xC0105000) ≠ 1 := by
  have accepted : Accepted 2000 := by decide
  obtain ⟨final, ends, rate⟩ := @timer_rate_iff Nat _ 0xC0105000 0xC0400000 (fun _ => blankTimer)
    [] [.tick] 2000 accepted fast_timer_permitted
  refine ⟨final, ends, ?_⟩
  intro called
  have slow := rate.mp called
  exact absurd slow (by decide)

/-- A timer of an accepted frequency above `TIMER_FRE` is not called. -/
theorem fast_timer_never_called : ¬∀ (before after : List (TimerOp Nat))
    (callback frequency address : Nat), Accepted frequency →
    Permitted timerStep TimerAllowed (bootTimers fun _ => blankTimer)
      (before ++ .register callback frequency address :: after) →
    ∃ final, runFrom timerStep (bootTimers fun _ => blankTimer)
        (before ++ .register callback frequency address :: after) = some final ∧
      final.calls.count (address, callback) = ticks after / max 1 (timerFre / frequency) := by
  intro rates
  have accepted : Accepted 2000 := by decide
  obtain ⟨final, ends, rate⟩ := rates [] [.tick] 0xC0105000 2000 0xC0400000 accepted
    fast_timer_permitted
  obtain ⟨other, ends', calls⟩ := @timer_calls Nat _ 0xC0105000 0xC0400000 (fun _ => blankTimer)
    [] [.tick] 2000 accepted fast_timer_permitted
  have same : final = other := Option.some.inj (ends.symm.trans ends')
  rw [same, calls] at rate
  exact absurd rate (by decide)

end ChaoOS.TimerRates
