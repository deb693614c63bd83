import Mathlib.Tactic.IntervalCases
import Mathlib.Tactic.NormNum.Prime
import ChaoOS.HashMapLoad
import ChaoOS.SquareProbes

/-!
# Whether an insertion meets a slot it can take

Every capacity from level 3 on is a prime, so the probe sequence of a key sees
just over half of the table. A table that has just grown is at most half full;
one that is left as it is may be filled to three quarters, and then the slots of
other keys can cover the whole sequence.
-/

namespace ChaoOS.HashMapVacancy

open ChaoOS.KernelMath ChaoOS.GuardedRun ChaoOS.SquareProbes ChaoOS.HashMapModel
open ChaoOS.HashMapProbing ChaoOS.HashMapContents ChaoOS.HashMapRuns ChaoOS.HashMapLoad

set_option autoImplicit false

theorem primes_prime {level : Nat} (low : 3 ≤ level) (bound : level ≤ 27) :
    (primeAt level).Prime := by
  interval_cases level <;> norm_num [primeAt, primes]

/-- The slot is not OCCUPIED, or it is by the key itself. -/
def FreeFor (map : HashMap) (key slot : Nat) : Prop :=
  (map.list slot).status = .occupied → (map.list slot).key = key

instance (map : HashMap) (key slot : Nat) : Decidable (FreeFor map key slot) :=
  inferInstanceAs (Decidable (_ → _))

/-- Slots that are OCCUPIED by other keys. -/
def otherSlots (map : HashMap) (key : Nat) : Finset Nat :=
  (occupiedSlots map).filter fun slot => (map.list slot).key ≠ key

/-- Those of them whose distance from the home slot of `key` is a square modulo
the capacity. -/
def blockers (map : HashMap) (key : Nat) : Finset Nat :=
  otherSlots map key ∩ squareSlots map.capacity (key % map.capacity)

section Slots

variable {map : HashMap} {key : Nat}

theorem free_for_iff {slot : Nat} (inside : slot < map.capacity) :
    FreeFor map key slot ↔ slot ∉ otherSlots map key := by
  rw [otherSlots, Finset.mem_filter, mem_occupied_slots, FreeFor]
  tauto

theorem blockers_card_le (map : HashMap) (key : Nat) :
    (blockers map key).card ≤ (occupiedSlots map).card :=
  Finset.card_le_card (Finset.inter_subset_left.trans (Finset.filter_subset _ _))

/-- The probes the source computes on words, as long as no sum wraps. -/
theorem slot_at_eq {i : Nat} (small : key % map.capacity + i * i < wordSize) :
    slotAt map key i = squareSlot map.capacity (key % map.capacity) i := by
  have square : i * i < wordSize := Nat.lt_of_le_of_lt (Nat.le_add_left _ _) small
  rw [slotAt, HashMapModel.hash, probe, mul32, Nat.mod_eq_of_lt square, add32_of_lt small, squareSlot]

/-- Among the first `capacity` probes there is a slot to take exactly when other
keys hold fewer slots of the sequence than it has. -/
theorem vacant_probe_iff (prime : map.capacity.Prime) :
    (∃ i, i < map.capacity ∧ FreeFor map key ((key % map.capacity + i * i) % map.capacity)) ↔
      (blockers map key).card < map.capacity / 2 + 1 := by
  rw [blockers, ← some_probe_open_iff prime]
  apply exists_congr
  intro i
  apply and_congr_right'
  exact free_for_iff (Nat.mod_lt _ prime.pos)

end Slots

/-- The table the probing loop of `map_insert` works on. -/
def insertTable (map : HashMap) : Option HashMap :=
  if GrowTest map then mapRehash map (map.capacityLevel + 1) else some map

/-- In every state below level 27 and for every key: the first `capacity` probes
meet a slot to take exactly when the table grows or other keys hold fewer than
`capacity / 2 + 1` of the slots at a square distance from the home slot. Half a
table is never enough to block a key, and the probes are those of the source
as long as they do not wrap. -/
theorem insert_probes_suffice_iff (ops : List MapOp) (final : HashMap)
    (run : runFrom mapStep mapInit ops = some final) (below : final.capacityLevel < 27)
    (key : Nat) :
    ((∀ table, insertTable final = some table →
        ∃ i, i < table.capacity ∧
          FreeFor table key ((key % table.capacity + i * i) % table.capacity)) ↔
      GrowTest final ∨ (blockers final key).card < final.capacity / 2 + 1) ∧
    (2 * (occupiedSlots final).card ≤ final.capacity →
      (blockers final key).card < final.capacity / 2 + 1) ∧
    ∀ i, key % final.capacity + i * i < wordSize →
      slotAt final key i = (key % final.capacity + i * i) % final.capacity := by
  have loaded := run_loaded run
  refine ⟨?_, ?_, fun i small => slot_at_eq small⟩
  · rw [insertTable]
    split_ifs with grow
    · refine iff_of_true ?_ (Or.inl grow)
      intro grown first
      obtain ⟨rebuilt, half⟩ := loaded.grown grow first
      have prime : grown.capacity.Prime := by
        rw [rebuilt.capacity]
        exact primes_prime (Nat.le_succ_of_le loaded.level) below
      have size : grown.size = (occupiedSlots final).card := rebuilt.size
      have counted := rebuilt.card_le
      have fewer := blockers_card_le grown key
      exact (vacant_probe_iff prime).mpr (by omega)
    · have prime : final.capacity.Prime := by
        rw [loaded.probing.table]
        exact primes_prime loaded.level loaded.probing.level
      rw [or_iff_right grow, ← vacant_probe_iff prime]
      constructor
      · intro always
        exact always final rfl
      · intro vacant table same
        rw [← Option.some.inj same]
        exact vacant
  · intro half
    have fewer := blockers_card_le final key
    omega

/-- Three keys of one home slot leave the fourth slot of its sequence. -/
theorem insert_probes_suffice_sample : ∃ final,
    runFrom mapStep mapInit [.insert 0 1, .insert 7 2, .insert 14 3] = some final ∧
    ∃ i, i < final.capacity ∧ FreeFor final 21 ((21 % final.capacity + i * i) % final.capacity) := by
  have reached : (runFrom mapStep mapInit [.insert 0 1, .insert 7 2, .insert 14 3]).map
      (fun map => (map.capacityLevel, decide (GrowTest map), (blockers map 21).card,
        map.capacity)) = some (3, false, 3, 7) := by
    decide +kernel
  obtain ⟨final, run, facts⟩ := Option.map_eq_some_iff.mp reached
  obtain ⟨level, others⟩ := Prod.mk.inj facts
  obtain ⟨plain, others⟩ := Prod.mk.inj others
  obtain ⟨few, capacity⟩ := Prod.mk.inj others
  have vacant := (insert_probes_suffice_iff _ final run (by rw [level]; decide) 21).1.mpr
    (Or.inr (by rw [few, capacity]; decide))
  exact ⟨final, run, vacant final (if_neg (of_decide_eq_false plain))⟩

/-- Four keys in a table of seven, where no growth is due, hold every slot that
key 7 probes in its first seven rounds. -/
theorem four_keys_block_insert : ¬∀ ops final, runFrom mapStep mapInit ops = some final →
    final.capacityLevel < 27 → ∀ key table, insertTable final = some table →
      ∃ i, i < table.capacity ∧
        FreeFor table key ((key % table.capacity + i * i) % table.capacity) := by
  intro always
  have reached : (runFrom mapStep mapInit [.insert 0 1, .insert 1 2, .insert 2 3, .insert 4 4]).map
      (fun map => (map.capacityLevel, decide (GrowTest map), map.capacity,
        decide (∀ i : Nat, i < 7 → ¬FreeFor map 7 ((7 % 7 + i * i) % 7)))) =
          some (3, false, 7, true) := by
    decide +kernel
  obtain ⟨final, run, facts⟩ := Option.map_eq_some_iff.mp reached
  obtain ⟨level, others⟩ := Prod.mk.inj facts
  obtain ⟨plain, others⟩ := Prod.mk.inj others
  obtain ⟨capacity, closed⟩ := Prod.mk.inj others
  obtain ⟨i, inside, vacant⟩ := always _ final run (by rw [level]; decide) 7 final
    (if_neg (of_decide_eq_false plain))
  rw [capacity] at inside vacant
  exact of_decide_eq_true closed i inside vacant

end ChaoOS.HashMapVacancy
