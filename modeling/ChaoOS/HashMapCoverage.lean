import ChaoOS.HashMapLookUps
import ChaoOS.HashMapVacancy

/-!
# Probing half a table

The capacities of levels 3 to 16 are primes, and so small that none of the first
`(capacity + 1) / 2` probes of a key wraps. These probes therefore meet
different slots. A loop that fewer slots could hold up ends within them, and the
rehashes of a growing map, which fill half of the new table at most, return.
-/

namespace ChaoOS.HashMapCoverage

open ChaoOS.KernelMath ChaoOS.GuardedRun ChaoOS.SquareProbes ChaoOS.HashMapModel
open ChaoOS.HashMapProbing ChaoOS.HashMapContents ChaoOS.HashMapRuns ChaoOS.HashMapLoad
open ChaoOS.HashMapLookUps ChaoOS.HashMapVacancy

set_option autoImplicit false

def halfProbes (map : HashMap) : Nat := (map.capacity + 1) / 2

/-- The word operations of one round: the counter, the square and the sum. -/
structure ExactProbe (map : HashMap) (key i : Nat) : Prop where
  counter : add32 i 1 = i + 1
  square : probe i = i * i
  index : add32 (HashMapModel.hash key map) (probe i) = key % map.capacity + i * i

/-- `_map_find` gives its answer in the first `rounds` probes. -/
def FindsWithin (map : HashMap) (key rounds : Nat) : Prop :=
  ∃ answer, mapFindLoop key map rounds 0 = some answer ∧ mapFindIndex key map = some answer

/-- The loop of `map_insert` finds its slot in the first `rounds` probes. -/
def PlacesWithin (map : HashMap) (key rounds : Nat) : Prop :=
  ∃ slot, mapInsertLoop key map rounds 0 = some slot ∧ mapInsertLoop key map wordSize 0 = some slot

/-- A table of one of the capacities from 7 to 87359. -/
structure SmallTable (map : HashMap) : Prop where
  low : 3 ≤ map.capacityLevel
  high : map.capacityLevel ≤ 16
  table : map.capacity = primeAt map.capacityLevel

/-! ## The probes -/

theorem half_square_fits {level : Nat} (bound : level ≤ 16) :
    primeAt level + primeAt level / 2 * (primeAt level / 2) < wordSize := by
  have all : ∀ level, level < 17 →
      primeAt level + primeAt level / 2 * (primeAt level / 2) < wordSize := by decide
  exact all level (Nat.lt_succ_of_le bound)

section Probes

variable {map : HashMap} {key i : Nat}

theorem SmallTable.prime (small : SmallTable map) : map.capacity.Prime := by
  rw [small.table]
  exact primes_prime small.low (small.high.trans (by decide))

theorem SmallTable.sevenths (small : SmallTable map) : 7 ≤ map.capacity := by
  rw [small.table]
  exact (capacity_bounds small.low (small.high.trans (by decide))).1

/-- The capacity is odd, so half of the probes are one more than half of it. -/
theorem SmallTable.half_probes (small : SmallTable map) :
    halfProbes map = map.capacity / 2 + 1 := by
  have large := small.sevenths
  have odd : map.capacity % 2 = 1 := by
    rcases small.prime.eq_two_or_odd with two | odd
    · omega
    · exact odd
  unfold halfProbes
  omega

theorem SmallTable.index_fits (small : SmallTable map) (key : Nat) (inside : i < halfProbes map) :
    key % map.capacity + i * i < wordSize := by
  rw [small.half_probes] at inside
  have half : i ≤ map.capacity / 2 := Nat.le_of_lt_succ inside
  have home : key % map.capacity < map.capacity := Nat.mod_lt _ small.prime.pos
  calc key % map.capacity + i * i ≤ map.capacity + map.capacity / 2 * (map.capacity / 2) :=
        Nat.add_le_add home.le (Nat.mul_le_mul half half)
    _ < wordSize := by
        rw [small.table]
        exact half_square_fits small.high

theorem SmallTable.exact_probe (small : SmallTable map) (key : Nat) (inside : i < halfProbes map) :
    ExactProbe map key i := by
  have fits := small.index_fits key inside
  have squareFits : i * i < wordSize := Nat.lt_of_le_of_lt (Nat.le_add_left _ _) fits
  have square : probe i = i * i := Nat.mod_eq_of_lt squareFits
  have bounds := capacity_bounds small.low (small.high.trans (by decide))
  rw [← small.table] at bounds
  refine ⟨add32_of_lt ?_, square, ?_⟩
  · unfold halfProbes at inside
    omega
  · rw [square]
    exact add32_of_lt fits

theorem SmallTable.slot_at (small : SmallTable map) (key : Nat) (inside : i < halfProbes map) :
    slotAt map key i = squareSlot map.capacity (key % map.capacity) i :=
  slot_at_eq (small.index_fits key inside)

theorem SmallTable.slots_distinct (small : SmallTable map) (key : Nat) :
    Set.InjOn (slotAt map key) (Set.Iio (halfProbes map)) := by
  have distinct := square_slot_inj_on small.prime (key % map.capacity)
  rw [← small.half_probes] at distinct
  apply distinct.congr
  intro i inside
  exact (small.slot_at key inside).symm

/-- Fewer slots than half of the probes cannot be in the way of all of them. -/
theorem SmallTable.open_probe (small : SmallTable map) (key : Nat) {blocked : Finset Nat}
    (fewer : blocked.card < halfProbes map) :
    ∃ i, i < halfProbes map ∧ slotAt map key i ∉ blocked := by
  have half := small.half_probes
  rw [half] at fewer
  obtain ⟨i, low, openSlot⟩ := half_probes_open small.prime fewer (key % map.capacity)
  rw [← half] at low
  exact ⟨i, low, small.slot_at key low ▸ openSlot⟩

end Probes

/-! ## The loops -/

section Loops

variable {map : HashMap}

theorem SmallTable.half_lt (small : SmallTable map) : halfProbes map < wordSize := by
  have bounds := capacity_bounds small.low (small.high.trans (by decide))
  rw [← small.table] at bounds
  unfold halfProbes
  omega

theorem SmallTable.finds_within (small : SmallTable map) (key : Nat)
    (fewer : (usedSlots map).card < halfProbes map) : FindsWithin map key (halfProbes map) := by
  obtain ⟨i, low, unused⟩ := small.open_probe key fewer
  have empty : (nodeAt map key i).status = .empty := by
    by_contra inUse
    apply unused
    rw [usedSlots, Finset.mem_filter, Finset.mem_range]
    exact ⟨slot_at_lt small.prime.pos key i, inUse⟩
  have ends : mapFindLoop key map (halfProbes map) 0 ≠ none := by
    intro runs
    have passes := find_loop_none runs (Nat.zero_le i) (by rwa [Nat.zero_add])
    exact passes.1 empty
  obtain ⟨answer, call⟩ := Option.ne_none_iff_exists'.mp ends
  obtain ⟨spare, total⟩ := Nat.exists_eq_add_of_le small.half_lt.le
  refine ⟨answer, call, ?_⟩
  rw [mapFindIndex, total]
  exact find_loop_extend call spare

theorem SmallTable.places_within (small : SmallTable map) (key : Nat)
    (fewer : (occupiedSlots map).card < halfProbes map) :
    PlacesWithin map key (halfProbes map) := by
  obtain ⟨i, low, vacant⟩ := small.open_probe key fewer
  have ends : mapInsertLoop key map (halfProbes map) 0 ≠ none := by
    intro runs
    have occupied := insert_loop_none runs (Nat.zero_le i) (by rwa [Nat.zero_add])
    apply vacant
    rw [mem_occupied_slots]
    exact ⟨slot_at_lt small.prime.pos key i, occupied⟩
  obtain ⟨slot, call⟩ := Option.ne_none_iff_exists'.mp ends
  obtain ⟨spare, total⟩ := Nat.exists_eq_add_of_le small.half_lt.le
  refine ⟨slot, call, ?_⟩
  rw [total]
  exact insert_loop_extend call spare

/-- For every table of levels 3 to 16 and every key. -/
theorem half_table_probes (map : HashMap) (small : SmallTable map) (key : Nat) :
    (∀ i, i < halfProbes map → ExactProbe map key i ∧ slotAt map key i < map.capacity) ∧
      Set.InjOn (slotAt map key) (Set.Iio (halfProbes map)) ∧
      ((usedSlots map).card < halfProbes map → FindsWithin map key (halfProbes map)) ∧
      ((occupiedSlots map).card < halfProbes map → PlacesWithin map key (halfProbes map)) :=
  ⟨fun i inside => ⟨small.exact_probe key inside, slot_at_lt small.prime.pos key i⟩,
    small.slots_distinct key, small.finds_within key, small.places_within key⟩

end Loops

/-- A table of seven with an occupied slot and a tombstone. -/
theorem half_table_probes_sample : ∃ final,
    runFrom mapStep mapInit [.insert 0 1, .insert 7 2, .delete 0] = some final ∧
      Set.InjOn (slotAt final 14) (Set.Iio 4) ∧ FindsWithin final 14 4 ∧
      PlacesWithin final 14 4 := by
  have reached : (runFrom mapStep mapInit [.insert 0 1, .insert 7 2, .delete 0]).map
      (fun map => (map.capacityLevel, map.capacity, (usedSlots map).card,
        (occupiedSlots map).card)) = some (3, 7, 2, 1) := by
    decide +kernel
  obtain ⟨final, run, facts⟩ := Option.map_eq_some_iff.mp reached
  obtain ⟨level, others⟩ := Prod.mk.inj facts
  obtain ⟨capacity, others⟩ := Prod.mk.inj others
  obtain ⟨used, occupied⟩ := Prod.mk.inj others
  have small : SmallTable final :=
    ⟨level ▸ Nat.le_refl 3, by rw [level]; decide, by rw [capacity, level]; rfl⟩
  have half : halfProbes final = 4 := by rw [halfProbes, capacity]
  obtain ⟨-, distinct, finds, places⟩ := half_table_probes final small 14
  rw [half] at distinct finds places
  exact ⟨final, run, distinct, finds (by rw [used]; decide), places (by rw [occupied]; decide)⟩

/-! ## Rehashes end -/

section Rehash

variable {list : Nat → MapNode} {count level : Nat} {table : HashMap}

/-- A loop of `map_rehash` whose every insertion returns and keeps the invariant
returns with it. -/
theorem reinsert_returns {insert : Nat → Nat → HashMap → Option HashMap}
    (invariant : Nat → HashMap → Prop) {total : Nat}
    (inserted : ∀ i map, i < total → invariant i map → (list i).status = .occupied →
      ∃ map', insert (list i).key (list i).value map = some map' ∧ invariant (i + 1) map')
    (skipped : ∀ i map, invariant i map → (list i).status ≠ .occupied → invariant (i + 1) map)
    {i : Nat} (range : i + count = total) (initial : invariant i table) :
    (reinsert insert list count i table).isSome := by
  induction count generalizing i table with
  | zero => rfl
  | succ count induction =>
      rw [reinsert]
      split_ifs with occupied
      · obtain ⟨next, call, kept⟩ := inserted i table (by omega) initial occupied
        rw [call]
        exact induction (by omega) kept
      · exact induction (by omega) (skipped i table initial occupied)

/-- A rebuilt table less than half full has a slot for every key within half of its probes. -/
theorem rebuilt_places_within (rebuilt : Rebuilt list count level table) (low : 3 ≤ level)
    (high : level ≤ 16) (room : 2 * (occupiedBelow list count).card < primeAt level) (key : Nat) :
    PlacesWithin table key (halfProbes table) := by
  have capacity := rebuilt.capacity
  have small : SmallTable table :=
    ⟨rebuilt.number ▸ low, rebuilt.number ▸ high, by rw [capacity, rebuilt.number]⟩
  have most := rebuilt.card_le
  rw [rebuilt.size] at most
  apply small.places_within key
  unfold halfProbes
  omega

theorem round_returns (rebuilt : Rebuilt list count level table) (low : 3 ≤ level)
    (high : level ≤ 16) (room : 2 * (occupiedBelow list count).card < primeAt level)
    (key value : Nat) : (mapInsert key value table).isSome := by
  have plain : ¬GrowTest table := by
    apply rebuilt.plain low (high.trans (by decide))
    intro _
    omega
  obtain ⟨slot, -, call⟩ := rebuilt_places_within rebuilt low high room key
  rw [map_insert_eq, if_neg plain, Option.bind_some, placeKey, call]
  rfl

/-- Half a table of entries is moved in a loop that ends. -/
theorem half_load_reinserted (low : 3 ≤ level) (high : level ≤ 16) (small : count < wordSize)
    (room : 2 * (occupiedBelow list count).card ≤ primeAt level + 1) :
    (reinsert mapInsert list count 0 (freshTable level)).isSome := by
  have bound : level ≤ 27 := high.trans (by decide)
  refine reinsert_returns (fun i table => Rebuilt list i level table) ?_ ?_ (Nat.zero_add count)
    (fresh_table_rebuilt list bound)
  · intro i table inside rebuilt occupied
    have most : (occupiedBelow list (i + 1)).card ≤ (occupiedBelow list count).card :=
      occupied_below_card_mono inside
    have step := occupied_below_card_succ occupied
    have sevenths := (capacity_bounds low bound).1
    obtain ⟨table', call⟩ := Option.isSome_iff_exists.mp
      (round_returns rebuilt low high (by omega) (list i).key (list i).value)
    refine ⟨table', call, rebuilt.insert occupied (by omega) (rebuilt.plain low bound ?_) call⟩
    intro _
    omega
  · intro i table rebuilt vacant
    exact rebuilt.skip vacant

end Rehash

end ChaoOS.HashMapCoverage
