import ChaoOS.TimerModel

/-!
# `unregister_timer`

The loop starts with `prev` at the head of the list and not before it. A timer
that is not the head has its predecessor in `prev` when it is found; the head is
its own `prev`, so it is freed and stays in the list. A null argument is found
at the end of the list.
-/

namespace ChaoOS.TimerRemoval

open ChaoOS.IndexList ChaoOS.KernelMath ChaoOS.TimerModel

set_option autoImplicit false

variable {Callback : Type*} {state : TimerState Callback} {nodes : List Nat}

/-- The list loses `timer` and nothing else, `timer` is freed when it can no longer
be reached, and a call for a timer that is not listed has no effect. -/
structure RemovesExactly (state : TimerState Callback) (nodes : List Nat) (timer : Nat)
    (final : TimerState Callback) : Prop where
  list : Registered final (nodes.erase timer)
  freed : timer ∈ nodes → final.freed = timer :: state.freed
  unreachable : final.freed ≠ state.freed → ∀ left, Registered final left → timer ∉ left
  absent : timer ∉ nodes → final = state

/-! ## The loop -/

theorem find_timer_listed {timer current prev fuel : Nat} {front back : List Nat}
    (follows : Follows state.nextOf 0 current (front ++ timer :: back)) (before : timer ∉ front)
    (enough : front.length < fuel) :
    findTimer state timer fuel current prev = some (timer, front.getLastD prev) := by
  induction front generalizing current prev fuel with
  | nil =>
      obtain ⟨fuel, rfl⟩ := Nat.exists_eq_succ_of_ne_zero (Nat.ne_of_gt enough)
      have here : current = timer := follows.1
      rw [findTimer, if_neg (fun walks => walks.2 here), here, List.getLastD_nil]
  | cons first rest induction =>
      obtain ⟨fuel, rfl⟩ := Nat.exists_eq_succ_of_ne_zero (Nat.ne_of_gt (Nat.zero_lt_of_lt enough))
      obtain ⟨same, inside, tail⟩ := follows
      obtain ⟨other, later⟩ := not_or.mp fun member => before (List.mem_cons.mpr member)
      rw [same, findTimer, if_pos ⟨inside, Ne.symm other⟩, List.getLastD_cons]
      exact induction tail later (Nat.lt_of_succ_lt_succ enough)

theorem find_timer_absent {timer current prev fuel : Nat}
    (follows : Follows state.nextOf 0 current nodes) (absent : timer ∉ nodes)
    (enough : nodes.length < fuel) :
    findTimer state timer fuel current prev = some (0, nodes.getLastD prev) := by
  induction nodes generalizing current prev fuel with
  | nil =>
      obtain ⟨fuel, rfl⟩ := Nat.exists_eq_succ_of_ne_zero (Nat.ne_of_gt enough)
      have null : current = 0 := follows
      rw [findTimer, if_neg (fun walks => walks.1 null), null, List.getLastD_nil]
  | cons first rest induction =>
      obtain ⟨fuel, rfl⟩ := Nat.exists_eq_succ_of_ne_zero (Nat.ne_of_gt (Nat.zero_lt_of_lt enough))
      obtain ⟨same, inside, tail⟩ := follows
      obtain ⟨other, later⟩ := not_or.mp fun member => absent (List.mem_cons.mpr member)
      rw [same, findTimer, if_pos ⟨inside, Ne.symm other⟩, List.getLastD_cons]
      exact induction tail later (Nat.lt_of_succ_lt_succ enough)

/-! ## The four places of the argument -/

section Calls

variable {timer : Nat}

theorem unregister_absent (registered : Registered state nodes) (nonnull : timer ≠ 0) (absent : timer ∉ nodes) :
    unregisterTimer state timer = some state := by
  rw [unregisterTimer, find_timer_absent registered.follows absent registered.length_lt,
    Option.map_some, unlinkTimer]
  exact congrArg some (if_neg (Ne.symm nonnull))

/-- A null argument is taken for the struct at address zero. -/
theorem unregister_null (registered : Registered state nodes) : ∃ final, unregisterTimer state 0 = some final ∧
    final.freed = 0 :: state.freed := by
  have absent : 0 ∉ nodes := fun member => follows_ne_stop registered.follows member rfl
  rw [unregisterTimer, find_timer_absent registered.follows absent registered.length_lt,
    Option.map_some]
  refine ⟨_, rfl, ?_⟩
  simp only [unlinkTimer, if_true, TimerState.kfree]
  split_ifs
  · simp only [TimerState.modify]
  · simp only

/-- The head is freed and still linked. -/
theorem unregister_head (registered : Registered state nodes) (inside : state.timers ≠ 0) :
    ∃ final, unregisterTimer state state.timers = some final ∧ Registered final nodes ∧
      final.freed = state.timers :: state.freed := by
  have found : findTimer state state.timers wordSize state.timers state.timers =
      some (state.timers, state.timers) := by
    cases nodes with
    | nil => exact absurd registered.follows inside
    | cons first rest =>
        have follows := registered.follows
        rw [← follows.1] at follows
        exact find_timer_listed follows List.not_mem_nil (by rw [wordSize]; decide)
  rw [unregisterTimer, found, Option.map_some]
  refine ⟨_, rfl, ?_, ?_⟩
  · refine ⟨?_, registered.words⟩
    simp only [unlinkTimer, if_true, ne_eq, inside, not_false_eq_true, TimerState.kfree,
      TimerState.modify]
    apply follows_congr registered.follows
    intro item _
    simp only [TimerState.nextOf]
    by_cases here : item = state.timers
    · simp only [here, if_true]
    · simp only [if_neg here]
  · simp only [unlinkTimer, if_true, ne_eq, inside, not_false_eq_true, TimerState.kfree,
      TimerState.modify]

theorem unregister_interior (registered : Registered state nodes) {front back : List Nat}
    {last : Nat} (split : nodes = front ++ last :: timer :: back) :
    ∃ final, unregisterTimer state timer = some final ∧
      Registered final (front ++ last :: back) ∧ final.freed = timer :: state.freed := by
  subst split
  have nodup := registered.nodup
  have follows := registered.follows
  have parts : front ++ last :: timer :: back = (front ++ [last]) ++ timer :: back := by
    rw [List.append_assoc, List.singleton_append]
  have bound := registered.length_lt
  rw [List.length_append, List.length_cons] at bound
  have before : timer ∉ front ++ [last] := by
    rw [parts] at nodup
    exact fun member => (List.nodup_append.mp nodup).2.2 timer member timer List.mem_cons_self rfl
  have lastInside : last ≠ 0 := follows_ne_stop follows (by simp)
  have found : findTimer state timer wordSize state.timers state.timers = some (timer, last) := by
    rw [parts] at follows
    rw [find_timer_listed follows before (by rw [List.length_append, List.length_singleton]; omega),
      List.getLastD_concat]
  rw [unregisterTimer, found, Option.map_some]
  refine ⟨_, rfl, ?_, ?_⟩
  · simp only [unlinkTimer, if_true, ne_eq, lastInside, not_false_eq_true, TimerState.kfree,
      TimerState.modify]
    constructor
    · apply follows_skip follows
      · simp only [TimerState.nextOf, if_true]
      · intro item member
        have other : item ≠ last := by
          intro same
          rw [same] at member
          obtain ⟨-, tail, apart⟩ := List.nodup_append.mp nodup
          rcases List.mem_append.mp member with inFront | inBack
          · exact apart last inFront last List.mem_cons_self rfl
          · exact (List.nodup_cons.mp tail).1 (List.mem_cons_of_mem _ inBack)
        simp only [TimerState.nextOf, if_neg other]
    · intro address member
      apply registered.words
      simp only [List.mem_append, List.mem_cons] at member ⊢
      tauto
  · simp only [unlinkTimer, if_true, ne_eq, lastInside, not_false_eq_true, TimerState.kfree,
      TimerState.modify]

end Calls

/-! ## Exact removal -/

section Exact

variable {timer : Nat}

/-- A listed timer other than the head has a timer before it. -/
theorem has_predecessor (registered : Registered state nodes) (listed : timer ∈ nodes)
    (notHead : timer ≠ state.timers) :
    ∃ front last back, nodes = front ++ last :: timer :: back ∧
      nodes.erase timer = front ++ last :: back := by
  obtain ⟨before, back, split⟩ := List.append_of_mem listed
  have nodup := registered.nodup
  have follows := registered.follows
  rw [split] at nodup follows
  rcases List.eq_nil_or_concat before with first | ⟨front, last, parts⟩
  · rw [first] at follows
    exact absurd follows.1.symm notHead
  · have absent : timer ∉ before :=
      fun member => (List.nodup_append.mp nodup).2.2 timer member timer List.mem_cons_self rfl
    refine ⟨front, last, back, ?_, ?_⟩
    · rw [split, parts, List.concat_eq_append, List.append_assoc, List.singleton_append]
    · rw [split, List.erase_append_right _ absent, List.erase_cons_head, parts,
        List.concat_eq_append, List.append_assoc, List.singleton_append]

theorem unregister_exact (registered : Registered state nodes) (nonnull : timer ≠ 0)
    (notHead : timer ≠ state.timers) :
    ∃ final, unregisterTimer state timer = some final ∧ RemovesExactly state nodes timer final := by
  by_cases listed : timer ∈ nodes
  · obtain ⟨front, last, back, split, erased⟩ := has_predecessor registered listed notHead
    obtain ⟨final, call, left, freed⟩ := unregister_interior registered split
    rw [← erased] at left
    refine ⟨final, call, left, fun _ => freed, ?_, fun absent => absurd listed absent⟩
    intro _ others same
    rw [← left.unique same]
    exact registered.nodup.not_mem_erase
  · refine ⟨state, unregister_absent registered nonnull listed, ?_,
      fun member => absurd member listed, fun changed => absurd rfl changed, fun _ => rfl⟩
    rw [List.erase_of_not_mem listed]
    exact registered

/-- A call removes exactly its timer when that is neither null nor the head of the
list, and in no other case. -/
theorem unregister_exact_iff (registered : Registered state nodes) (timer : Nat) :
    ∃ final, unregisterTimer state timer = some final ∧
      (RemovesExactly state nodes timer final ↔ timer ≠ 0 ∧ timer ≠ state.timers) := by
  by_cases null : timer = 0
  · subst null
    obtain ⟨final, call, freed⟩ := unregister_null registered
    refine ⟨final, call, iff_of_false ?_ fun place => place.1 rfl⟩
    intro exact
    have absent : 0 ∉ nodes := fun member => follows_ne_stop registered.follows member rfl
    rw [exact.absent absent] at freed
    have length := congrArg List.length freed
    rw [List.length_cons] at length
    omega
  · by_cases head : timer = state.timers
    · subst head
      obtain ⟨final, call, left, -⟩ := unregister_head registered null
      refine ⟨final, call, iff_of_false ?_ fun place => place.2 rfl⟩
      intro exact
      have member := follows_head_mem registered.follows null
      rw [left.unique exact.list] at member
      exact registered.nodup.not_mem_erase member
    · obtain ⟨final, call, exact⟩ := unregister_exact registered null head
      exact ⟨final, call, iff_of_true exact ⟨null, head⟩⟩

end Exact

/-! ### Two timers -/

/-- Timers at 0xC0400010 and 0xC0400000, the first of them registered last. -/
def twoTimers : TimerState Nat where
  timers := 0xC0400010
  timer := fun address =>
    if address = 0xC0400010 then ⟨0xC0106000, 16, 16, 0xC0400000⟩ else ⟨0xC0105000, 10, 10, 0⟩
  calls := []
  held := [0xC0400010, 0xC0400000]
  freed := []

theorem two_timers_registered : Registered twoTimers [0xC0400010, 0xC0400000] where
  follows := ⟨rfl, by decide, rfl, by decide, rfl⟩
  words := by decide

theorem unregister_exact_sample : ∃ final, unregisterTimer twoTimers 0xC0400000 = some final ∧
    RemovesExactly twoTimers [0xC0400010, 0xC0400000] 0xC0400000 final := by
  obtain ⟨final, call, exact⟩ := unregister_exact_iff two_timers_registered 0xC0400000
  exact ⟨final, call, exact.mpr (by decide)⟩

/-- The timer at the head is freed while the next tick still reaches it. -/
theorem unregister_head_keeps_timer : ¬∀ (state : TimerState Nat) (nodes : List Nat) (timer : Nat),
    Registered state nodes → ∃ final, unregisterTimer state timer = some final ∧
      RemovesExactly state nodes timer final := by
  intro removes
  obtain ⟨final, call, exact⟩ := removes twoTimers [0xC0400010, 0xC0400000] 0xC0400010
    two_timers_registered
  obtain ⟨other, again, left, -⟩ := unregister_head two_timers_registered (by decide)
  have same : final = other := Option.some.inj (call.symm.trans again)
  subst same
  exact absurd (left.unique exact.list) (by decide)

end ChaoOS.TimerRemoval
