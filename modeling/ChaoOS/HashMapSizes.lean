import ChaoOS.HashMapLoad

/-!
# When the size field is exact

`map_insert` counts every call, also one that overwrites a key it finds, and a
rehash counts every slot it inserts again, also the second slot of a key that
has two. These are the only ways for the size field to leave the number of
occupied slots, and neither is ever made up for while the states stay exact.
-/

namespace ChaoOS.HashMapSizes

open ChaoOS.KernelMath ChaoOS.GuardedRun ChaoOS.HashMapModel ChaoOS.HashMapProbing
open ChaoOS.HashMapContents ChaoOS.HashMapRuns ChaoOS.HashMapLoad

set_option autoImplicit false

/-- OCCUPIED slots lead the probe sequence of `key` to a slot that holds it. -/
def Overwrites (map : HashMap) (key : Nat) : Prop :=
  ∃ i, Holds map (slotAt map key i) key ∧ ∀ j, j < i → (nodeAt map key j).status = .occupied

/-- The insertion takes a new slot, and no key that a rehash inserts again has
two slots. -/
def CountsRight (map : HashMap) : MapOp → Prop
  | .insert key _ =>
      if GrowTest map then UniqueKeys map ∧ key ∉ storedKeys map else ¬Overwrites map key
  | .delete _ => ShrinkTest map → UniqueKeys map
  | .find _ => True

section Steps

variable {map map' : HashMap} {key value slot : Nat}

theorem placed_overwrites_iff (placed : Placed key value map map' slot) :
    slot ∈ occupiedSlots map ↔ Overwrites map key := by
  obtain ⟨i, there, before⟩ := placed.reached
  rw [mem_occupied_slots]
  constructor
  · intro taken
    refine ⟨i, ?_, fun j below => (before j below).1⟩
    rw [there]
    exact ⟨taken.2, placed.vacant taken.2⟩
  · rintro ⟨last, holds, occupied⟩
    refine ⟨placed.inside, ?_⟩
    rcases Nat.lt_trichotomy last i with earlier | same | later
    · exact absurd holds.2 (before last earlier).2
    · rw [same, there] at holds
      exact holds.1
    · have taken := occupied i later
      rw [nodeAt, there] at taken
      exact taken

theorem placed_size (placed : Placed key value map map' slot) (small : map.size + 1 < wordSize) :
    map'.size = map.size + 1 := by
  rw [placed.result]
  exact add32_of_lt small

/-- Taking a slot keeps the size exact unless the slot was occupied. -/
theorem placed_exact_iff (placed : Placed key value map map' slot) (loaded : Loaded map)
    (sized : Exact map) : Exact map' ↔ ¬Overwrites map key := by
  have most := occupied_card_le map
  have bounds := loaded.bounds
  rw [← placed_overwrites_iff placed]
  rw [Exact] at sized ⊢
  rw [placed_size placed (by omega), placed_occupied_slots placed]
  by_cases taken : slot ∈ occupiedSlots map
  · rw [Finset.insert_eq_of_mem taken]
    exact iff_of_false (by omega) fun fresh => fresh taken
  · rw [Finset.card_insert_of_notMem taken]
    exact iff_of_true (by omega) taken

/-- The slot taken in a rebuilt table is occupied exactly when the key was stored. -/
theorem rebuilt_slot_iff {contents : Contents} (placed : Placed key value map map' slot)
    (stores : Stores contents map) (clean : Untombed map) :
    slot ∈ occupiedSlots map ↔ key ∈ contents := by
  rw [stores.mem_iff, mem_occupied_slots]
  constructor
  · rintro ⟨inside, taken⟩
    exact ⟨slot, inside, taken, placed.vacant taken⟩
  · rintro ⟨other, inside, holds⟩
    have clear := clean.no_tombstone stores.probing.positive key
    rw [placed_same_slot placed stores clear inside holds]
    exact ⟨inside, holds.1⟩

/-- An insertion after a rehash keeps the size exact when neither counted a key twice. -/
theorem grown_exact_iff {level : Nat} {grown : HashMap} (loaded : Loaded map)
    (rebuilt : Rebuilt map.list map.capacity level grown)
    (placed : Placed key value grown map' slot) :
    Exact map' ↔ UniqueKeys map ∧ key ∉ storedKeys map := by
  obtain ⟨contents, stores, keys⟩ := rebuilt.stored
  have size : grown.size = (occupiedSlots map).card := rebuilt.size
  have stored : contents.keys = storedKeys map := keys
  have held : slot ∈ occupiedSlots grown ↔ key ∈ storedKeys map := by
    rw [rebuilt_slot_iff placed stores rebuilt.clean, ← stored, Finmap.mem_keys]
  have fewer : (storedKeys map).card ≤ (occupiedSlots map).card := Finset.card_image_le
  have occupied : (occupiedSlots grown).card = (storedKeys map).card := by
    rw [← stores.card, stored]
  have bounds := loaded.bounds
  have most := occupied_card_le map
  rw [Exact, placed_size placed (by omega), placed_occupied_slots placed, unique_keys_iff_card]
  by_cases present : key ∈ storedKeys map
  · rw [Finset.insert_eq_of_mem (held.mpr present)]
    exact iff_of_false (by omega) fun both => both.2 present
  · rw [Finset.card_insert_of_notMem fun taken => present (held.mp taken)]
    constructor
    · intro same
      exact ⟨by omega, present⟩
    · intro both
      omega

theorem rebuilt_exact_iff {level : Nat} {table : HashMap}
    (rebuilt : Rebuilt map.list map.capacity level table) : Exact table ↔ UniqueKeys map := by
  obtain ⟨contents, stores, keys⟩ := rebuilt.stored
  have stored : contents.keys = storedKeys map := keys
  have size : table.size = (occupiedSlots map).card := rebuilt.size
  rw [Exact, size, ← stores.card, stored, unique_keys_iff_card]
  exact eq_comm

/-- Dropping a key takes one off the size and one off the occupied slots. -/
theorem drop_exact_iff (probing : Probing map) (counted : (occupiedSlots map).card ≤ map.size)
    (word : map.size < wordSize) (call : dropKey key map = some map') :
    Exact map' ↔ Exact map := by
  rcases drop_key_cases probing.positive call with ⟨-, same⟩ | ⟨slot, inside, holds, result⟩
  · rw [same]
  · have member : slot ∈ occupiedSlots map := (mem_occupied_slots map slot).mpr ⟨inside, holds.1⟩
    have positive : 0 < (occupiedSlots map).card := Finset.card_pos.mpr ⟨slot, member⟩
    have size : map'.size = map.size - 1 := by
      rw [result]
      exact sub32_of_le word (by omega)
    have fewer : (occupiedSlots map').card = (occupiedSlots map).card - 1 := by
      rw [result, dropped_occupied_slots, Finset.card_erase_of_mem member]
    rw [Exact, Exact, size, fewer]
    omega

theorem insert_exact_iff (loaded : Loaded map) (sized : Exact map)
    (call : mapInsert key value map = some map') :
    Exact map' ↔ CountsRight map (.insert key value) := by
  rw [map_insert_eq] at call
  obtain ⟨wide, first, placing⟩ := Option.bind_eq_some_iff.mp call
  rw [CountsRight]
  split_ifs at first ⊢ with grow
  · obtain ⟨rebuilt, -⟩ := loaded.grown grow first
    obtain ⟨contents, stores, -⟩ := rebuilt.stored
    obtain ⟨slot, placed⟩ := place_key_placed stores.probing.positive placing
    exact grown_exact_iff loaded rebuilt placed
  · cases first
    obtain ⟨slot, placed⟩ := place_key_placed loaded.probing.positive placing
    exact placed_exact_iff placed loaded sized

theorem shrink_rebuilt (loaded : Loaded map) (sized : Exact map) (shrink : ShrinkTest map)
    {shrunk : HashMap} (call : mapRehash map (map.capacityLevel - 1) = some shrunk) :
    Rebuilt map.list map.capacity (map.capacityLevel - 1) shrunk := by
  have level := loaded.probing.level
  have within : map.size ≤ map.capacity := sized ▸ occupied_card_le map
  obtain ⟨above, quarter⟩ := (shrink_test_iff loaded.bounds.2 within).mp shrink
  have thirds := capacity_thirds above level
  rw [← loaded.probing.table] at thirds
  apply reinsert_rebuilt (by omega) (by omega) (capacity_lt loaded.probing) _ call
  intro _
  change 4 * (occupiedSlots map).card < 3 * primeAt (map.capacityLevel - 1) + 4
  rw [Exact] at sized
  omega

theorem delete_exact_iff (loaded : Loaded map) (sized : Exact map)
    (call : mapDelete key map = some map') : Exact map' ↔ CountsRight map (.delete key) := by
  have words := capacity_lt loaded.probing
  have most := occupied_card_le map
  have size : map.size = (occupiedSlots map).card := sized
  obtain ⟨shrunk, first, dropping⟩ := Option.bind_eq_some_iff.mp call
  rw [CountsRight]
  split_ifs at first with shrink
  · have rebuilt := shrink_rebuilt loaded sized shrink first
    obtain ⟨contents, stores, -⟩ := rebuilt.stored
    have counted : shrunk.size = (occupiedSlots map).card := rebuilt.size
    rw [drop_exact_iff stores.probing rebuilt.card_le (by omega) dropping,
      rebuilt_exact_iff rebuilt]
    exact ⟨fun unique _ => unique, fun counts => counts shrink⟩
  · cases first
    rw [drop_exact_iff loaded.probing (Nat.le_of_eq sized.symm) (by omega) dropping]
    exact iff_of_true sized fun shrinks => absurd shrinks shrink

end Steps

/-- The size is exact in every state along a run if and only if every step of
the run counts right. -/
theorem size_exact_iff (ops : List MapOp) (final : HashMap)
    (run : runFrom mapStep mapInit ops = some final) :
    (∀ before after reached, ops = before ++ after →
        runFrom mapStep mapInit before = some reached →
        reached.size = (occupiedSlots reached).card) ↔
      Permitted mapStep CountsRight mapInit ops := by
  refine always_iff_permitted (fun map op next => map_step_loaded map op next) ?_ map_init_loaded
    map_init_stores.2 run
  intro map op next loaded sized call
  cases op with
  | insert key value => exact insert_exact_iff loaded sized call
  | delete key => exact delete_exact_iff loaded sized call
  | find key =>
      obtain ⟨_, _, same⟩ := Option.map_eq_some_iff.mp call
      rw [← same]
      exact iff_of_true sized trivial

/-- Insertions of fresh keys always count right. -/
theorem fresh_inserts_permitted (ops : List MapOp) {contents : Contents} {map : HashMap}
    (stores : Stores contents map) (fresh : FreshInserts contents ops) :
    Permitted mapStep CountsRight map ops := by
  induction ops generalizing contents map with
  | nil => trivial
  | cons op ops induction =>
      cases op with
      | insert key value =>
          refine ⟨?_, ?_⟩
          · rw [CountsRight]
            split_ifs
            · refine ⟨stores.unique, ?_⟩
              rw [← stores.keys, Finmap.mem_keys]
              exact fresh.1
            · intro overwrites
              obtain ⟨i, holds, -⟩ := overwrites
              exact fresh.1 ((stores.mem_iff key).mpr
                ⟨_, slot_at_lt stores.probing.positive key i, holds⟩)
          · intro next call
            exact induction (map_insert_fresh contents key value map next stores fresh.1 call).1
              fresh.2
      | delete key =>
          refine ⟨fun _ => stores.unique, ?_⟩
          intro next call
          exact induction (map_delete_stores stores call).1 fresh
      | find key =>
          refine ⟨trivial, ?_⟩
          intro next call
          obtain ⟨_, _, same⟩ := Option.map_eq_some_iff.mp call
          exact induction (same ▸ stores) fresh

/-- Two keys with one home slot, and a third one past a tombstone. -/
theorem size_exact_iff_sample : ∃ final,
    runFrom mapStep mapInit [.insert 0 1, .insert 7 2, .delete 0, .insert 14 3] = some final ∧
    final.size = (occupiedSlots final).card := by
  have reached : (runFrom mapStep mapInit [.insert 0 1, .insert 7 2, .delete 0,
      .insert 14 3]).isSome := by
    decide +kernel
  obtain ⟨final, run⟩ := Option.isSome_iff_exists.mp reached
  have permitted := fresh_inserts_permitted [.insert 0 1, .insert 7 2, .delete 0, .insert 14 3]
    map_init_stores.1 (by decide +kernel)
  exact ⟨final, run, (size_exact_iff _ final run).mpr permitted _ [] final
    (List.append_nil _).symm run⟩

/-- A key inserted twice is counted twice. -/
theorem overwrite_counts_twice : ¬∀ ops final, runFrom mapStep mapInit ops = some final →
    final.size = (occupiedSlots final).card := by
  intro always
  have reached : (runFrom mapStep mapInit [.insert 0 1, .insert 0 2]).map
      (fun map => (map.size, (occupiedSlots map).card)) = some (2, 1) := by
    decide +kernel
  obtain ⟨final, run, facts⟩ := Option.map_eq_some_iff.mp reached
  obtain ⟨size, card⟩ := Prod.mk.inj facts
  have same := always _ final run
  rw [size, card] at same
  exact absurd same (by decide)

end ChaoOS.HashMapSizes
