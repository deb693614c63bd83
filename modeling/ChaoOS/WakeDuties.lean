import Mathlib.Data.Finset.Card
import Mathlib.Data.List.Nodup
import Mathlib.Logic.Function.Basic

/-!
# Threads that answer for each other's wake-ups

Every thread is in a phase. Threads in some phases sleep on a list, threads in
some are about to join it, and threads in some help: each is on its way to taking
one of the things waited for or to waking a sleeper. As long as anybody waits,
the helpers are at least as many as the things. One rule for each kind of step
says how this is kept.
-/

namespace ChaoOS.WakeDuties

set_option autoImplicit false

variable {Thread Phase : Type*} {phases after : Thread → Phase} {helps : Phase → Prop}
  {needed : Nat}

/-- At least `needed` threads help. -/
def Covered (helps : Phase → Prop) (needed : Nat) (phases : Thread → Phase) : Prop :=
  ∃ helpers : Finset Thread, (∀ thread ∈ helpers, helps (phases thread)) ∧ needed ≤ helpers.card

theorem covered_zero : Covered helps 0 phases := ⟨∅, by simp, Nat.zero_le _⟩

theorem Covered.keep (covered : Covered helps needed phases)
    (kept : ∀ thread, helps (phases thread) → helps (after thread)) :
    Covered helps needed after := by
  obtain ⟨helpers, all, enough⟩ := covered
  exact ⟨helpers, fun thread member => kept thread (all thread member), enough⟩

theorem Covered.mono {fewer : Nat} (covered : Covered helps needed phases)
    (less : fewer ≤ needed) : Covered helps fewer phases := by
  obtain ⟨helpers, all, enough⟩ := covered
  exact ⟨helpers, all, less.trans enough⟩

/-- Where nobody helps, nothing is needed. -/
theorem Covered.nobody (covered : Covered helps needed phases)
    (idle : ∀ thread, ¬helps (phases thread)) : needed = 0 := by
  obtain ⟨helpers, all, enough⟩ := covered
  have empty : helpers = ∅ :=
    Finset.eq_empty_of_forall_notMem fun thread member => idle thread (all thread member)
  rw [empty, Finset.card_empty] at enough
  exact Nat.le_zero.mp enough

variable [DecidableEq Thread] {thread : Thread} {phase : Phase}

theorem Covered.keep_one (covered : Covered helps needed phases)
    (kept : helps (phases thread) → helps phase) :
    Covered helps needed (Function.update phases thread phase) := by
  apply covered.keep
  intro other helping
  by_cases same : other = thread
  · subst same
    rw [Function.update_self]
    exact kept helping
  · rwa [Function.update_of_ne same]

theorem Covered.gain (covered : Covered helps needed phases) (idle : ¬helps (phases thread))
    (helping : helps phase) :
    Covered helps (needed + 1) (Function.update phases thread phase) := by
  obtain ⟨helpers, all, enough⟩ := covered
  have absent : thread ∉ helpers := fun member => idle (all thread member)
  refine ⟨insert thread helpers, ?_, ?_⟩
  · intro other member
    rcases Finset.mem_insert.mp member with same | old
    · rw [same, Function.update_self]
      exact helping
    · have different : other ≠ thread := fun same => absent (same ▸ old)
      rw [Function.update_of_ne different]
      exact all other old
  · rw [Finset.card_insert_of_notMem absent]
    omega

theorem Covered.lose (covered : Covered helps needed phases) :
    Covered helps (needed - 1) (Function.update phases thread phase) := by
  obtain ⟨helpers, all, enough⟩ := covered
  refine ⟨helpers.erase thread, ?_, ?_⟩
  · intro other member
    rw [Function.update_of_ne (Finset.ne_of_mem_erase member)]
    exact all other (Finset.mem_of_mem_erase member)
  · have smaller : helpers.card - 1 ≤ (helpers.erase thread).card :=
      Finset.pred_card_le_card_erase
    omega

/-! ## A list of sleepers -/

/-- A list of sleeping threads, and what is owed to those on it or on their way
to it. -/
structure Side (asleep failed helps : Phase → Prop) (needed : Nat) (list : List Thread)
    (phases : Thread → Phase) : Prop where
  distinct : list.Nodup
  listed : ∀ thread ∈ list, asleep (phases thread)
  owed : (list ≠ [] ∨ ∃ thread, failed (phases thread)) → Covered helps needed phases

namespace Side

variable {asleep failed : Phase → Prop} {list : List Thread} {old new : Phase}

omit [DecidableEq Thread] in
theorem not_listed (side : Side asleep failed helps needed list phases)
    (before : phases thread = old) (awake : ¬asleep old) : thread ∉ list := by
  intro member
  rw [← before] at awake
  exact awake (side.listed thread member)

theorem listed_update (side : Side asleep failed helps needed list phases)
    (before : phases thread = old) (awake : ¬asleep old) (new : Phase) :
    ∀ other ∈ list, asleep (Function.update phases thread new other) := by
  intro other member
  have different : other ≠ thread := fun same =>
    side.not_listed before awake (same ▸ member)
  rw [Function.update_of_ne different]
  exact side.listed other member

/-- Whoever is owed something after a step that fails no test was owed it before. -/
theorem owed_before (settled : ¬failed new)
    (after : list ≠ [] ∨ ∃ other, failed (Function.update phases thread new other)) :
    list ≠ [] ∨ ∃ other, failed (phases other) := by
  refine after.imp_right ?_
  rintro ⟨other, fails⟩
  by_cases same : other = thread
  · subst same
    rw [Function.update_self] at fails
    exact absurd fails settled
  · rw [Function.update_of_ne same] at fails
    exact ⟨other, fails⟩

theorem quiet {fewer : Nat} (side : Side asleep failed helps needed list phases)
    (before : phases thread = old) (awake : ¬asleep old) (kept : helps old → helps new)
    (settled : ¬failed new) (less : fewer ≤ needed) :
    Side asleep failed helps fewer list (Function.update phases thread new) := by
  refine ⟨side.distinct, side.listed_update before awake new, fun after => ?_⟩
  have covered := (side.owed (owed_before settled after)).mono less
  exact covered.keep_one (fun helping => kept (before ▸ helping))

theorem gains {more : Nat} (side : Side asleep failed helps needed list phases)
    (before : phases thread = old) (awake : ¬asleep old) (idle : ¬helps old) (helping : helps new)
    (settled : ¬failed new) (one : more ≤ needed + 1) :
    Side asleep failed helps more list (Function.update phases thread new) := by
  refine ⟨side.distinct, side.listed_update before awake new, fun after => ?_⟩
  have gained := (side.owed (owed_before settled after)).gain (before ▸ idle) helping
  exact gained.mono one

theorem loses {fewer : Nat} (side : Side asleep failed helps needed list phases)
    (before : phases thread = old) (awake : ¬asleep old) (settled : ¬failed new)
    (one : fewer ≤ needed - 1) :
    Side asleep failed helps fewer list (Function.update phases thread new) := by
  refine ⟨side.distinct, side.listed_update before awake new, fun after => ?_⟩
  exact (side.owed (owed_before settled after)).lose.mono one

/-- A test fails only when nothing is needed. -/
theorem fails (side : Side asleep failed helps needed list phases)
    (before : phases thread = old) (awake : ¬asleep old) (nothing : needed = 0) :
    Side asleep failed helps needed list (Function.update phases thread new) := by
  refine ⟨side.distinct, side.listed_update before awake new, fun _ => ?_⟩
  rw [nothing]
  exact covered_zero

theorem sleeps (side : Side asleep failed helps needed list phases)
    (before : phases thread = old) (late : failed old) (awake : ¬asleep old)
    (idle : ¬helps old) (sleeping : asleep new) :
    Side asleep failed helps needed (list.erase thread ++ [thread])
      (Function.update phases thread new) := by
  have outside := side.not_listed before awake
  rw [List.erase_of_not_mem outside]
  refine ⟨List.nodup_append_comm.mp (List.nodup_cons.mpr ⟨outside, side.distinct⟩), ?_, fun _ => ?_⟩
  · intro other member
    rcases List.mem_append.mp member with old | own
    · exact side.listed_update before awake new other old
    · rw [List.mem_singleton.mp own, Function.update_self]
      exact sleeping
  · have owed := side.owed (Or.inr ⟨thread, before ▸ late⟩)
    exact owed.keep_one (fun helping => absurd (before ▸ helping) idle)

/-- A thread that found the list empty may go when nobody is on the way to it. -/
theorem leaves (side : Side asleep failed helps needed list phases) (empty : list = [])
    (nobody : ∀ other, ¬failed (phases other)) (settled : ¬failed new) :
    Side asleep failed helps needed list (Function.update phases thread new) := by
  refine ⟨side.distinct, by simp [empty], fun after => ?_⟩
  rcases owed_before settled after with full | ⟨other, fails⟩
  · exact absurd empty full
  · exact absurd fails (nobody other)

/-- The thread that wakes another hands its duty over. -/
theorem wakes {first : Thread} {rest : List Thread} {woken : Phase}
    (side : Side asleep failed helps needed (first :: rest) phases)
    (before : phases thread = old) (awake : ¬asleep old)
    (sleeping : ∀ phase, asleep phase → ¬helps phase) (helping : helps woken) :
    Side asleep failed helps needed rest
      (Function.update (Function.update phases first woken) thread new) := by
  have firstAsleep := side.listed first List.mem_cons_self
  have split := List.nodup_cons.mp side.distinct
  have apart : first ≠ thread := by
    rintro rfl
    exact awake (before ▸ firstAsleep)
  refine ⟨split.2, ?_, fun after => ?_⟩
  · intro other member
    have notFirst : other ≠ first := fun same => split.1 (same ▸ member)
    have notThread : other ≠ thread := by
      rintro rfl
      exact awake (before ▸ side.listed other (List.mem_cons_of_mem _ member))
    rw [Function.update_of_ne notThread, Function.update_of_ne notFirst]
    exact side.listed other (List.mem_cons_of_mem _ member)
  · have owed := side.owed (Or.inl (List.cons_ne_nil first rest))
    have gained := owed.gain (sleeping _ firstAsleep) helping
    exact gained.lose

end Side

end ChaoOS.WakeDuties
