import ChaoOS.HashMapLoad
import ChaoOS.SquareProbes

/-!
# Whether a look-up ends

The loop of `_map_find` has no bound. Its counter and the square are 32-bit words,
and once the square wraps the probes leave the squares modulo the capacity: the
capacities are odd and small beside a word, so every slot has its turn. A look-up
of a key that is not stored ends exactly when some slot is still EMPTY, and that
is a matter of counting the OCCUPIED and the DELETED slots.
-/

namespace ChaoOS.HashMapLookUps

open ChaoOS.KernelMath ChaoOS.GuardedRun ChaoOS.SquareProbes ChaoOS.HashMapModel
open ChaoOS.HashMapProbing ChaoOS.HashMapRuns ChaoOS.HashMapLoad

set_option autoImplicit false

/-- The slots that are OCCUPIED or DELETED. -/
def usedSlots (map : HashMap) : Finset Nat :=
  (Finset.range map.capacity).filter fun slot => (map.list slot).status ≠ .empty

theorem capacity_odd {level : Nat} (low : 3 ≤ level) (high : level ≤ 27) :
    primeAt level % 2 = 1 ∧ 9 * primeAt level ≤ wordSize := by
  have all : ∀ level, level < 28 → 3 ≤ level →
      primeAt level % 2 = 1 ∧ 9 * primeAt level ≤ wordSize := by decide
  exact all level (Nat.lt_succ_of_le high) low

section Slots

variable {map : HashMap}

/-- The probe sequence of each key visits every slot. -/
theorem slot_reached (loaded : Loaded map) (key : Nat) {slot : Nat}
    (inside : slot < map.capacity) : ∃ i, slotAt map key i = slot := by
  have bounds := capacity_odd loaded.level loaded.probing.level
  rw [← loaded.probing.table] at bounds
  have home : key % map.capacity < map.capacity := Nat.mod_lt _ loaded.probing.positive
  obtain ⟨i, small, there⟩ := @word_squares_cover _ (key % map.capacity) 29 slot bounds.1 bounds.2
    home inside
  have sum : add32 (HashMapModel.hash key map) (probe i) =
      key % map.capacity + i * i % 2 ^ (29 + 3) := add32_of_lt small
  exact ⟨i, by rw [slotAt, sum, there]⟩

theorem used_slots_card_lt_iff (map : HashMap) :
    (usedSlots map).card < map.capacity ↔
      ∃ slot, slot < map.capacity ∧ (map.list slot).status = .empty := by
  have most : (usedSlots map).card ≤ map.capacity := by
    rw [← Finset.card_range map.capacity]
    exact Finset.card_filter_le _ _
  have full : (usedSlots map).card = map.capacity ↔
      ∀ slot ∈ Finset.range map.capacity, (map.list slot).status ≠ .empty := by
    rw [← Finset.card_filter_eq_iff, Finset.card_range]
    rfl
  rw [most.lt_iff_ne, Ne, full]
  push Not
  apply exists_congr
  intro slot
  rw [Finset.mem_range]

/-- An EMPTY slot anywhere is on the way of every key. -/
theorem empty_probe_iff (loaded : Loaded map) (key : Nat) :
    (∃ i, (nodeAt map key i).status = .empty) ↔ (usedSlots map).card < map.capacity := by
  rw [used_slots_card_lt_iff]
  constructor
  · rintro ⟨i, empty⟩
    exact ⟨slotAt map key i, slot_at_lt loaded.probing.positive key i, empty⟩
  · rintro ⟨slot, inside, empty⟩
    obtain ⟨i, there⟩ := slot_reached loaded key inside
    exact ⟨i, by rw [nodeAt, there, empty]⟩

/-- There are more words than slots. -/
theorem some_key_missing (small : map.capacity < wordSize) :
    ∃ key, key < wordSize ∧ ¬∃ slot, slot < map.capacity ∧ Holds map slot key := by
  have fewer : ((Finset.range map.capacity).image fun slot => (map.list slot).key).card <
      (Finset.range wordSize).card := by
    rw [Finset.card_range]
    apply lt_of_le_of_lt Finset.card_image_le
    rwa [Finset.card_range]
  obtain ⟨key, word, missing⟩ := Finset.exists_mem_notMem_of_card_lt_card fewer
  refine ⟨key, Finset.mem_range.mp word, ?_⟩
  rintro ⟨slot, inside, -, same⟩
  exact missing (Finset.mem_image.mpr ⟨slot, Finset.mem_range.mpr inside, same⟩)

end Slots

/-- In every reachable state a look-up ends exactly when its key is stored or fewer
slots are OCCUPIED or DELETED than there are; the look-ups of all keys end exactly
when fewer are. -/
theorem look_up_ends_iff (ops : List MapOp) (final : HashMap)
    (run : runFrom mapStep mapInit ops = some final) :
    (∀ key, (mapFindIndex key final).isSome ↔
        (∃ slot, slot < final.capacity ∧ Holds final slot key) ∨
          (usedSlots final).card < final.capacity) ∧
      ((∀ key, key < wordSize → (mapFindIndex key final).isSome) ↔
        (usedSlots final).card < final.capacity) := by
  have loaded := run_loaded run
  have ends : ∀ key, (mapFindIndex key final).isSome ↔
      (∃ slot, slot < final.capacity ∧ Holds final slot key) ∨
        (usedSlots final).card < final.capacity := by
    intro key
    rw [find_index_returns_iff loaded.probing key, empty_probe_iff loaded key]
  refine ⟨ends, ?_, fun fewer key _ => (ends key).mpr (Or.inr fewer)⟩
  intro always
  have words := loaded.bounds.2
  obtain ⟨key, word, missing⟩ := some_key_missing (show final.capacity < wordSize by omega)
  exact ((ends key).mp (always key word)).resolve_left missing

/-- Two tombstones and two stored keys leave three slots, so that the look-up of a
key whose home slot and next slot are used up ends. -/
theorem look_up_ends_iff_sample : ∃ final,
    runFrom mapStep mapInit [.insert 0 1, .insert 7 2, .delete 0, .insert 3 5, .insert 4 6,
      .delete 3] = some final ∧
    (usedSlots final).card = 4 ∧ (mapFindIndex 14 final).isSome := by
  have reached : (runFrom mapStep mapInit [.insert 0 1, .insert 7 2, .delete 0, .insert 3 5,
      .insert 4 6, .delete 3]).map (fun map => ((usedSlots map).card, map.capacity)) =
        some (4, 7) := by
    decide +kernel
  obtain ⟨final, run, facts⟩ := Option.map_eq_some_iff.mp reached
  obtain ⟨used, capacity⟩ := Prod.mk.inj facts
  have ends := (look_up_ends_iff _ final run).2.mpr (by rw [used, capacity]; decide)
  exact ⟨final, run, used, ends 14 (by decide)⟩

/-- Seven keys come and go. The map is empty, all its slots are tombstones, and
no look-up ever ends. -/
theorem tombstones_trap_look_up : ¬∀ ops final, runFrom mapStep mapInit ops = some final →
    ∀ key, (mapFindIndex key final).isSome := by
  intro always
  have reached : (runFrom mapStep mapInit [.insert 0 0, .delete 0, .insert 1 0, .delete 1,
      .insert 2 0, .delete 2, .insert 3 0, .delete 3, .insert 4 0, .delete 4, .insert 5 0, .delete 5,
      .insert 6 0, .delete 6]).map (fun map => (map.capacity,
        decide (∀ slot : Nat, slot < 7 → (map.list slot).status = .deleted))) = some (7, true) := by
    decide +kernel
  obtain ⟨final, run, facts⟩ := Option.map_eq_some_iff.mp reached
  obtain ⟨capacity, tombs⟩ := Prod.mk.inj facts
  have deleted := of_decide_eq_true tombs
  have forever : mapFindIndex 0 final = none := by
    rw [find_index_none_iff]
    intro j
    have status := deleted (slotAt final 0 j) (by
      rw [← capacity]
      exact slot_at_lt (by omega) 0 j)
    unfold Passes nodeAt Holds
    rw [status]
    simp
  have ends := always _ final run 0
  rw [forever] at ends
  exact absurd ends (by simp)

end ChaoOS.HashMapLookUps
