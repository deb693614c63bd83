import Mathlib.Logic.Function.Basic
import Mathlib.Tactic.SplitIfs

/-!
# Threads between the steps of their code

A machine that interleaves threads keeps, beside the fields they share, the phase
each of them is in. A step moves one thread to a phase and leaves the others in
theirs, so that a test of phases changes its answer for that thread at most.
-/

namespace ChaoOS.ThreadPhases

set_option autoImplicit false

structure Phases (Thread Phase : Type*) where
  phase : Thread → Phase

variable {Thread Phase : Type*} [DecidableEq Thread]

def Phases.move (phases : Phases Thread Phase) (thread : Thread) (phase : Phase) :
    Phases Thread Phase :=
  { phase := Function.update phases.phase thread phase }

section Moves

variable (phases : Phases Thread Phase) (thread : Thread) (phase : Phase)

@[simp] theorem phase_set_self : (phases.move thread phase).phase thread = phase :=
  Function.update_self ..

theorem phase_set_other {thread other : Thread} (different : other ≠ thread) :
    (phases.move thread phase).phase other = phases.phase other :=
  Function.update_of_ne different ..

theorem move_same (same : phases.phase thread = phase) : phases.move thread phase = phases := by
  rw [Phases.move, ← same, Function.update_eq_self]

end Moves

variable {phases : Phases Thread Phase} {thread other : Thread} {phase : Phase}

/-- A move decides about its own thread only. -/
theorem holds_move (holds : Phase → Prop) : holds ((phases.move thread phase).phase other) ↔
    if other = thread then holds phase else holds (phases.phase other) := by
  split_ifs with own
  · rw [own, phase_set_self]
  · rw [phase_set_other _ _ own]

/-- Nobody's answer changes when the old phase and the new one answer alike. -/
theorem holds_move_alike (holds : Phase → Prop) (alike : holds phase ↔ holds (phases.phase thread)) :
    holds ((phases.move thread phase).phase other) ↔ holds (phases.phase other) := by
  rw [holds_move holds]
  split_ifs with own
  · rw [own, alike]
  · rfl

/-- Whoever is in a phase that the moved thread is not moved to was there before. -/
theorem phase_before {place : Phase} (gone : phase ≠ place)
    (inside : (phases.move thread phase).phase other = place) : phases.phase other = place := by
  by_cases own : other = thread
  · rw [own, phase_set_self] at inside
    exact absurd inside gone
  · rwa [phase_set_other _ _ own] at inside

end ChaoOS.ThreadPhases
