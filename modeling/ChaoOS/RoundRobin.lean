import Mathlib.Data.List.Count
import Mathlib.Data.List.Nodup

/-!
# Round robin with late arrivals

The running item and those waiting behind it, in the order of their turns. A
tick runs the first of them and sends the running item to the back; an arrival
joins at the back. An item that ran alone is still the next one when others
arrive, so it `repeats` once before they get their turns.
-/

namespace ChaoOS.RoundRobin

set_option autoImplicit false

variable {Item : Type*}

structure Rotation (Item : Type*) where
  current : Item
  rest : List Item
  repeats : Bool

inductive Event (Item : Type*) where
  | tick
  | arrive (item : Item)

namespace Rotation

/-- The item the next tick runs. -/
def next (rotation : Rotation Item) : Item :=
  if rotation.repeats then rotation.current else rotation.rest.headD rotation.current

def tick (rotation : Rotation Item) : Rotation Item :=
  match rotation.repeats, rotation.rest with
  | false, first :: rest => ⟨first, rest ++ [rotation.current], false⟩
  | _, rest => ⟨rotation.current, rest, rest.isEmpty⟩

def arrive (rotation : Rotation Item) (item : Item) : Rotation Item :=
  { rotation with rest := rotation.rest ++ [item] }

theorem tick_settled (rotation : Rotation Item) (waiting : rotation.tick.rest ≠ []) :
    rotation.tick.repeats = false := by
  obtain ⟨current, rest, repeats⟩ := rotation
  cases repeats <;> cases rest <;> first | rfl | exact absurd rfl waiting

def after : Rotation Item → List (Event Item) → Rotation Item
  | rotation, [] => rotation
  | rotation, .tick :: events => after rotation.tick events
  | rotation, .arrive item :: events => after (rotation.arrive item) events

/-- The items the ticks run, in order. -/
def selections : Rotation Item → List (Event Item) → List Item
  | _, [] => []
  | rotation, .tick :: events => rotation.next :: selections rotation.tick events
  | rotation, .arrive item :: events => selections (rotation.arrive item) events

/-- Nobody arrives who is already there. -/
def FreshArrivals : Rotation Item → List (Event Item) → Prop
  | _, [] => True
  | rotation, .tick :: events => FreshArrivals rotation.tick events
  | rotation, .arrive item :: events =>
      item ∉ rotation.current :: rotation.rest ∧ FreshArrivals (rotation.arrive item) events

/-- Once an item has gone to the back, it comes round after exactly those ahead
of it. -/
theorem selections_ahead {item current : Item} {ahead behind : List Item}
    {events : List (Event Item)} (absent : item ∉ ahead)
    (between : item ∉ selections ⟨current, ahead ++ item :: behind, false⟩ events)
    (again : (after ⟨current, ahead ++ item :: behind, false⟩ events).next = item) :
    selections ⟨current, ahead ++ item :: behind, false⟩ events = ahead := by
  induction events generalizing current ahead behind with
  | nil =>
      cases ahead with
      | nil => rfl
      | cons first ahead => exact absurd (List.mem_cons.mpr (Or.inl again.symm)) absent
  | cons event events induction =>
      cases event with
      | arrive late =>
          have joined : (Rotation.mk current (ahead ++ item :: behind) false).arrive late =
              ⟨current, ahead ++ item :: (behind ++ [late]), false⟩ := by
            simp [arrive]
          simp only [selections, after, joined] at between again ⊢
          exact induction absent between again
      | tick =>
          cases ahead with
          | nil => exact absurd List.mem_cons_self between
          | cons first ahead =>
              have turned : (Rotation.mk current (first :: ahead ++ item :: behind) false).tick =
                  ⟨first, ahead ++ item :: (behind ++ [current]), false⟩ := by
                simp [tick]
              have chosen : (Rotation.mk current (first :: ahead ++ item :: behind) false).next =
                  first := rfl
              simp only [selections, after, turned, chosen] at between again ⊢
              rw [induction (fun later => absent (List.mem_cons_of_mem _ later))
                (fun later => between (List.mem_cons_of_mem _ later)) again]

/-- Between two turns of the running item, exactly the others and those who
arrive before the first tick have theirs, in order. -/
theorem selections_round {current : Item} {rest : List Item} {events : List (Event Item)}
    (distinct : (current :: rest).Nodup) (waiting : rest ≠ [])
    (fresh : FreshArrivals ⟨current, rest, false⟩ events)
    (between : current ∉ selections ⟨current, rest, false⟩ events)
    (again : (after ⟨current, rest, false⟩ events).next = current) :
    ∃ late, selections ⟨current, rest, false⟩ events = rest ++ late ∧ (rest ++ late).Nodup := by
  induction events generalizing rest with
  | nil =>
      cases rest with
      | nil => exact absurd rfl waiting
      | cons first rest =>
          exact absurd (List.mem_cons.mpr (Or.inl again.symm)) (List.nodup_cons.mp distinct).1
  | cons event events induction =>
      cases event with
      | arrive item =>
          have joined : (current :: rest ++ [item]).Nodup :=
            List.nodup_append_comm.mp (List.nodup_cons.mpr ⟨fresh.1, distinct⟩)
          have extended : (current :: (rest ++ [item])).Nodup := joined
          obtain ⟨late, selected, nodup⟩ := induction extended (by simp) fresh.2 between again
          rw [List.append_assoc] at selected nodup
          exact ⟨[item] ++ late, selected, nodup⟩
      | tick =>
          cases rest with
          | nil => exact absurd rfl waiting
          | cons first rest =>
              have outside := (List.nodup_cons.mp distinct).1
              refine ⟨[], ?_, by simpa using (List.nodup_cons.mp distinct).2⟩
              have round := selections_ahead (fun later => outside (List.mem_cons_of_mem _ later))
                (fun later => between (List.mem_cons_of_mem _ later)) again
              rw [List.append_nil]
              exact congrArg (first :: ·) round

/-- Every other item has exactly one turn between two turns of the running one. -/
theorem selected_once [DecidableEq Item] {rotation : Rotation Item} {events : List (Event Item)}
    (distinct : (rotation.current :: rotation.rest).Nodup)
    (settled : rotation.rest ≠ [] → rotation.repeats = false)
    (fresh : FreshArrivals rotation events)
    (between : rotation.current ∉ rotation.selections events)
    (again : (rotation.after events).next = rotation.current) {item : Item}
    (member : item ∈ rotation.rest) : (rotation.selections events).count item = 1 := by
  obtain ⟨current, rest, repeats⟩ := rotation
  have waiting : rest ≠ [] := List.ne_nil_of_mem member
  have running : repeats = false := settled waiting
  subst running
  obtain ⟨late, selected, nodup⟩ := selections_round distinct waiting fresh between again
  rw [selected]
  exact List.count_eq_one_of_mem nodup (List.mem_append_left late member)

/-! ### How long a turn is waited for -/

def ticks : List (Event Item) → Nat
  | [] => 0
  | .tick :: events => ticks events + 1
  | .arrive _ :: events => ticks events

theorem ticks_append (first second : List (Event Item)) :
    ticks (first ++ second) = ticks first + ticks second := by
  induction first with
  | nil => exact (Nat.zero_add _).symm
  | cons event events induction =>
      cases event with
      | tick =>
          simp only [List.cons_append, ticks, induction]
          omega
      | arrive item => exact induction

theorem after_append (rotation : Rotation Item) (first second : List (Event Item)) :
    rotation.after (first ++ second) = (rotation.after first).after second := by
  induction first generalizing rotation with
  | nil => rfl
  | cons event events induction =>
      cases event with
      | tick => exact induction rotation.tick
      | arrive item => exact induction (rotation.arrive item)

theorem selections_append (rotation : Rotation Item) (first second : List (Event Item)) :
    rotation.selections (first ++ second) =
      rotation.selections first ++ (rotation.after first).selections second := by
  induction first generalizing rotation with
  | nil => rfl
  | cons event events induction =>
      cases event with
      | tick => exact congrArg (rotation.next :: ·) (induction rotation.tick)
      | arrive item => exact induction (rotation.arrive item)

/-- An item that waits has its turn after those ahead of it, whoever arrives. -/
theorem selected_within {item current : Item} {ahead behind : List Item} {repeats : Bool}
    {events : List (Event Item)} (long : ahead.length + 1 + repeats.toNat ≤ ticks events) :
    item ∈ selections ⟨current, ahead ++ item :: behind, repeats⟩ events := by
  induction events generalizing current ahead behind repeats with
  | nil => exact absurd long (by simp [ticks])
  | cons event events induction =>
      cases event with
      | arrive late =>
          have joined : (Rotation.mk current (ahead ++ item :: behind) repeats).arrive late =
              ⟨current, ahead ++ item :: (behind ++ [late]), repeats⟩ := by
            simp [arrive]
          rw [selections, joined]
          exact induction long
      | tick =>
          rw [ticks] at long
          cases repeats with
          | true =>
              have stays : (Rotation.mk current (ahead ++ item :: behind) true).tick =
                  ⟨current, ahead ++ item :: behind, false⟩ := by
                simp [tick]
              rw [selections, stays]
              exact List.mem_cons_of_mem _ (induction (Nat.le_of_succ_le_succ long))
          | false =>
              cases ahead with
              | nil => exact List.mem_cons_self
              | cons first ahead =>
                  have turned : (Rotation.mk current (first :: ahead ++ item :: behind) false).tick =
                      ⟨first, ahead ++ item :: (behind ++ [current]), false⟩ := by
                    simp [tick]
                  rw [selections, turned]
                  exact List.mem_cons_of_mem _ (induction (Nat.le_of_succ_le_succ long))

end Rotation

end ChaoOS.RoundRobin
