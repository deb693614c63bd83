import Mathlib.Data.List.Basic

/-!
# Runs of a partial step function

A step function that answers `none` refuses the operation or does not return.
A run is a list of operations taken one after the other. `Permitted` asks every
operation of a run to meet a condition on the state it is taken in.
-/

namespace ChaoOS.GuardedRun

set_option autoImplicit false

variable {State Op : Type*}

def runFrom (step : State → Op → Option State) : State → List Op → Option State
  | state, [] => some state
  | state, op :: ops => (step state op).bind fun next => runFrom step next ops

def Permitted (step : State → Op → Option State) (allowed : State → Op → Prop) :
    State → List Op → Prop
  | _, [] => True
  | state, op :: ops =>
      allowed state op ∧ ∀ next, step state op = some next → Permitted step allowed next ops

variable {step : State → Op → Option State} {allowed : State → Op → Prop}

theorem run_cons {state final : State} {op : Op} {ops : List Op}
    (run : runFrom step state (op :: ops) = some final) :
    ∃ next, step state op = some next ∧ runFrom step next ops = some final :=
  Option.bind_eq_some_iff.mp run

/-- A run in two parts. -/
theorem run_append {before after : List Op} {state middle : State}
    (run : runFrom step state before = some middle) :
    runFrom step state (before ++ after) = runFrom step middle after := by
  induction before generalizing state with
  | nil =>
      rw [Option.some.inj run]
      rfl
  | cons op ops induction =>
      obtain ⟨next, first, rest⟩ := run_cons run
      rw [List.cons_append, runFrom, first, Option.bind_some]
      exact induction rest

theorem permitted_append {before after : List Op} {state : State}
    (permitted : Permitted step allowed state (before ++ after)) :
    Permitted step allowed state before ∧ ∀ middle, runFrom step state before = some middle →
      Permitted step allowed middle after := by
  induction before generalizing state with
  | nil =>
      refine ⟨trivial, ?_⟩
      intro middle run
      rw [← Option.some.inj run]
      exact permitted
  | cons op ops induction =>
      refine ⟨⟨permitted.1, fun next first => (induction (permitted.2 next first)).1⟩, ?_⟩
      intro middle run
      obtain ⟨next, first, rest⟩ := run_cons run
      exact (induction (permitted.2 next first)).2 middle rest

/-- What every permitted step preserves holds at the end of every permitted run. -/
theorem run_invariant {invariant : State → Prop}
    (preserved : ∀ state op next, invariant state → allowed state op →
      step state op = some next → invariant next)
    {ops : List Op} {state final : State} (initial : invariant state)
    (permitted : Permitted step allowed state ops) (run : runFrom step state ops = some final) :
    invariant final := by
  induction ops generalizing state with
  | nil =>
      have same : state = final := Option.some.inj run
      rw [← same]
      exact initial
  | cons op ops induction =>
      rcases run_cons run with ⟨next, first, rest⟩
      exact induction (preserved state op next initial permitted.1 first)
        (permitted.2 next first) rest

/-- When every permitted step is taken and preserves the invariant, every permitted
run comes to its end. -/
theorem run_reaches {invariant : State → Prop}
    (taken : ∀ state op, invariant state → allowed state op →
      ∃ next, step state op = some next ∧ invariant next)
    {ops : List Op} {state : State} (initial : invariant state)
    (permitted : Permitted step allowed state ops) :
    ∃ final, runFrom step state ops = some final ∧ invariant final := by
  induction ops generalizing state with
  | nil => exact ⟨state, rfl, initial⟩
  | cons op ops induction =>
      rcases taken state op initial permitted.1 with ⟨next, first, later⟩
      rcases induction later (permitted.2 next first) with ⟨final, rest, ended⟩
      refine ⟨final, ?_, ended⟩
      rw [runFrom, first, Option.bind_some]
      exact rest

/-- When every permitted step keeps step with an abstract one, so does every
permitted run. -/
theorem run_simulation {Abstract : Type*} {abstractStep : Abstract → Op → Abstract}
    {related : Abstract → State → Prop}
    (simulated : ∀ abstract state op next, related abstract state → allowed state op →
      step state op = some next → related (abstractStep abstract op) next)
    {ops : List Op} {abstract : Abstract} {state final : State} (initial : related abstract state)
    (permitted : Permitted step allowed state ops) (run : runFrom step state ops = some final) :
    related (ops.foldl abstractStep abstract) final := by
  induction ops generalizing abstract state with
  | nil =>
      have same : state = final := Option.some.inj run
      rw [← same]
      exact initial
  | cons op ops induction =>
      rcases run_cons run with ⟨next, first, rest⟩
      exact induction (simulated abstract state op next initial permitted.1 first)
        (permitted.2 next first) rest

/-- When exactly the permitted steps lead from good states to good ones, every
state along a run is good if and only if the run is permitted. -/
theorem always_iff_permitted {invariant good : State → Prop}
    (preserved : ∀ state op next, invariant state → step state op = some next → invariant next)
    (stepwise : ∀ state op next, invariant state → good state → step state op = some next →
      (good next ↔ allowed state op))
    {ops : List Op} {state final : State} (initial : invariant state) (start : good state)
    (run : runFrom step state ops = some final) :
    (∀ before after reached, ops = before ++ after →
        runFrom step state before = some reached → good reached) ↔
      Permitted step allowed state ops := by
  induction ops generalizing state with
  | nil =>
      refine iff_of_true ?_ trivial
      intro before after reached split ends
      obtain ⟨rfl, -⟩ := List.append_eq_nil_iff.mp split.symm
      rw [← Option.some.inj ends]
      exact start
  | cons op ops induction =>
      rcases run_cons run with ⟨next, first, rest⟩
      have here := stepwise state op next initial start first
      have later := preserved state op next initial first
      constructor
      · intro always
        have good : good next := always [op] ops next rfl (by simp [runFrom, first])
        refine ⟨here.mp good, ?_⟩
        intro other same
        rw [first, Option.some.injEq] at same
        subst same
        apply (induction later good rest).mp
        intro before after reached split ends
        exact always (op :: before) after reached (by rw [split]; rfl)
          (by simpa [runFrom, first] using ends)
      · rintro ⟨permission, permitted⟩ before after reached split ends
        cases before with
        | nil =>
            rw [← Option.some.inj ends]
            exact start
        | cons head before =>
            obtain ⟨rfl, tail⟩ := List.cons.inj split
            have onwards := (induction later (here.mpr permission) rest).mpr (permitted next first)
            exact onwards before after reached tail (by simpa [runFrom, first] using ends)

instance decidablePermitted [∀ state op, Decidable (allowed state op)] (state : State) :
    (ops : List Op) → Decidable (Permitted step allowed state ops)
  | [] => inferInstanceAs (Decidable True)
  | op :: ops =>
      match found : step state op with
      | none =>
          decidable_of_iff (allowed state op) (by simp [Permitted, found])
      | some next =>
          have := decidablePermitted next ops
          decidable_of_iff (allowed state op ∧ Permitted step allowed next ops)
            (by simp [Permitted, found])

theorem Permitted.imp {weaker : State → Op → Prop} (weakens : ∀ state op, allowed state op → weaker state op)
    {state : State} {ops : List Op} (permitted : Permitted step allowed state ops) :
    Permitted step weaker state ops := by
  induction ops generalizing state with
  | nil => trivial
  | cons op ops induction =>
      exact ⟨weakens state op permitted.1, fun next first => induction (permitted.2 next first)⟩

theorem permitted_of_always (always : ∀ state op, allowed state op) (state : State)
    (ops : List Op) : Permitted step allowed state ops := by
  induction ops generalizing state with
  | nil => trivial
  | cons op ops induction => exact ⟨always state op, fun next _ => induction next⟩

/-- What every step preserves holds at the end of every run. -/
theorem run_preserves {invariant : State → Prop}
    (preserved : ∀ state op next, invariant state → step state op = some next → invariant next)
    {ops : List Op} {state final : State} (initial : invariant state)
    (run : runFrom step state ops = some final) : invariant final := by
  have permitted : Permitted step (fun _ _ => True) state ops :=
    permitted_of_always (fun _ _ => trivial) state ops
  apply run_invariant _ initial permitted run
  intro state op next holds _ stepped
  exact preserved state op next holds stepped

end ChaoOS.GuardedRun
