import ChaoOS.HashMapRuns

/-!
# The load of the hash map

The size field counts insertions less deletions, so it is an upper bound of the
occupied slots, and a rehash counts again from zero. Between the two thresholds
the bound `4 * size < 3 * capacity + 4` is kept: an insertion that finds the
table fuller than three quarters moves it to a table of almost twice the size
first, and a deletion shrinks only below one quarter. Level 27 has no upper
threshold, so nothing is claimed there.
-/

namespace ChaoOS.HashMapLoad

open ChaoOS.KernelMath ChaoOS.GuardedRun ChaoOS.HashMapModel ChaoOS.HashMapProbing
open ChaoOS.HashMapContents ChaoOS.HashMapRuns

set_option autoImplicit false

/-! ## The table sizes -/

theorem capacity_doubles {level : Nat} (low : 3 ≤ level) (high : level < 27) :
    3 * primeAt level + 4 ≤ 2 * primeAt (level + 1) := by
  have all : ∀ level, level < 27 → 3 ≤ level →
      3 * primeAt level + 4 ≤ 2 * primeAt (level + 1) := by decide
  exact all level high low

theorem capacity_thirds {level : Nat} (low : 3 < level) (high : level ≤ 27) :
    primeAt level ≤ 3 * primeAt (level - 1) := by
  have all : ∀ level, level < 28 → 3 < level → primeAt level ≤ 3 * primeAt (level - 1) := by
    decide
  exact all level (Nat.lt_succ_of_le high) low

theorem capacity_bounds {level : Nat} (low : 3 ≤ level) (high : level ≤ 27) :
    7 ≤ primeAt level ∧ 3 * primeAt level < wordSize := by
  have all : ∀ level, level < 28 → 3 ≤ level →
      7 ≤ primeAt level ∧ 3 * primeAt level < wordSize := by decide
  exact all level (Nat.lt_succ_of_le high) low

/-! ## The two tests without wrapping -/

section Tests

variable {map : HashMap}

theorem grow_test_iff (words : 3 * map.capacity < wordSize) (within : map.size ≤ map.capacity) :
    GrowTest map ↔ map.capacityLevel < 27 ∧ 3 * map.capacity ≤ 4 * map.size := by
  have left : mul32 (sub32 map.capacity map.size) 3 = (map.capacity - map.size) * 3 := by
    rw [sub32_of_le (by omega) within, mul32, Nat.mod_eq_of_lt (by omega)]
  have right : mul32 (4 - 3) map.size = map.size := by
    rw [mul32, Nat.one_mul, Nat.mod_eq_of_lt (by omega)]
  rw [GrowTest, left, right]
  apply and_congr_right'
  omega

theorem shrink_test_iff (words : 3 * map.capacity < wordSize) (within : map.size ≤ map.capacity) :
    ShrinkTest map ↔ 3 < map.capacityLevel ∧ 4 * map.size ≤ map.capacity := by
  have left : mul32 (4 - 1) map.size = 3 * map.size := by
    rw [mul32, Nat.mod_eq_of_lt (by omega)]
  have right : mul32 (sub32 map.capacity map.size) 1 = map.capacity - map.size := by
    rw [sub32_of_le (by omega) within, mul32, Nat.mul_one, Nat.mod_eq_of_lt (by omega)]
  rw [ShrinkTest, left, right]
  apply and_congr_right'
  omega

end Tests

/-! ## The table a rehash rebuilds -/

def occupiedBelow (list : Nat → MapNode) (count : Nat) : Finset Nat :=
  (Finset.range count).filter fun slot => (list slot).status = .occupied

def keysBelow (list : Nat → MapNode) (count : Nat) : Finset Nat :=
  (occupiedBelow list count).image fun slot => (list slot).key

/-- The table after the first `count` rounds of the loop of `map_rehash`: every
round with an occupied slot has counted, whether or not its key was new. -/
structure Rebuilt (list : Nat → MapNode) (count level : Nat) (table : HashMap) : Prop where
  number : table.capacityLevel = level
  size : table.size = (occupiedBelow list count).card
  stored : ∃ contents, Stores contents table ∧ contents.keys = keysBelow list count
  clean : Untombed table

section Rounds

variable {list : Nat → MapNode} {count level : Nat} {table table' : HashMap}

theorem occupied_below_succ (occupied : (list count).status = .occupied) :
    occupiedBelow list (count + 1) = insert count (occupiedBelow list count) := by
  rw [occupiedBelow, Finset.range_add_one, Finset.filter_insert, if_pos occupied]
  rfl

theorem occupied_below_skip (vacant : (list count).status ≠ .occupied) :
    occupiedBelow list (count + 1) = occupiedBelow list count := by
  rw [occupiedBelow, Finset.range_add_one, Finset.filter_insert, if_neg vacant]
  rfl

theorem occupied_below_card_succ (occupied : (list count).status = .occupied) :
    (occupiedBelow list (count + 1)).card = (occupiedBelow list count).card + 1 := by
  rw [occupied_below_succ occupied, Finset.card_insert_of_notMem]
  simp [occupiedBelow]

theorem occupied_below_card_mono {other : Nat} (ordered : count ≤ other) :
    (occupiedBelow list count).card ≤ (occupiedBelow list other).card := by
  apply Finset.card_le_card
  exact Finset.filter_subset_filter _ (Finset.range_mono ordered)

theorem occupied_below_card_le (list : Nat → MapNode) (count : Nat) :
    (occupiedBelow list count).card ≤ count := by
  apply (Finset.card_filter_le _ _).trans
  rw [Finset.card_range]

theorem Rebuilt.capacity (rebuilt : Rebuilt list count level table) :
    table.capacity = primeAt level := by
  obtain ⟨contents, stores, -⟩ := rebuilt.stored
  rw [stores.probing.table, rebuilt.number]

theorem fresh_table_rebuilt (list : Nat → MapNode) (bound : level ≤ 27) :
    Rebuilt list 0 level (freshTable level) := by
  obtain ⟨stores, -, clean⟩ := fresh_table_stores bound
  refine ⟨rfl, ?_, ⟨∅, stores, ?_⟩, clean⟩
  · rfl
  · rfl

theorem Rebuilt.skip (rebuilt : Rebuilt list count level table)
    (vacant : (list count).status ≠ .occupied) : Rebuilt list (count + 1) level table := by
  have same := occupied_below_skip vacant
  refine ⟨rebuilt.number, ?_, ?_, rebuilt.clean⟩
  · rw [same]
    exact rebuilt.size
  · rw [keysBelow, same]
    exact rebuilt.stored

/-- A round that does not grow the table. -/
theorem Rebuilt.insert (rebuilt : Rebuilt list count level table)
    (occupied : (list count).status = .occupied) (small : count + 1 < wordSize)
    (plain : ¬GrowTest table)
    (call : mapInsert (list count).key (list count).value table = some table') :
    Rebuilt list (count + 1) level table' := by
  obtain ⟨contents, stores, keys⟩ := rebuilt.stored
  rw [map_insert_eq, if_neg plain] at call
  obtain ⟨slot, placed⟩ := place_key_placed stores.probing.positive call
  have clear := rebuilt.clean.no_tombstone stores.probing.positive (list count).key
  refine ⟨?_, ?_, ⟨_, placed_stores placed stores clear, ?_⟩, placed_untombed placed rebuilt.clean⟩
  · rw [placed.result]
    exact rebuilt.number
  · have most := occupied_below_card_le list count
    rw [placed.result, occupied_below_card_succ occupied, ← rebuilt.size]
    rw [← rebuilt.size] at most
    exact add32_of_lt (by omega)
  · rw [keysBelow, occupied_below_succ occupied, Finset.image_insert]
    ext key
    rw [Finmap.mem_keys, Finmap.mem_insert, Finset.mem_insert, ← Finmap.mem_keys, keys]
    rfl

end Rounds

/-! ## The loop of `map_rehash` -/

section Loop

variable {list : Nat → MapNode} {count level : Nat} {table : HashMap}

/-- Below three quarters of the new table no round grows it. -/
theorem Rebuilt.plain (rebuilt : Rebuilt list count level table) (low : 3 ≤ level)
    (bound : level ≤ 27)
    (room : level < 27 → 4 * (occupiedBelow list count).card < 3 * primeAt level) :
    ¬GrowTest table := by
  intro grow
  have below : level < 27 := rebuilt.number ▸ grow.1
  have words := (capacity_bounds low bound).2
  have room := room below
  rw [← rebuilt.capacity, ← rebuilt.size] at room
  rw [← rebuilt.capacity] at words
  rw [grow_test_iff words (by omega)] at grow
  omega

theorem reinsert_rebuilt (low : 3 ≤ level) (bound : level ≤ 27) (small : count < wordSize)
    (room : level < 27 → 4 * (occupiedBelow list count).card < 3 * primeAt level + 4)
    (call : reinsert mapInsert list count 0 (freshTable level) = some table) :
    Rebuilt list count level table := by
  refine reinsert_invariant (fun i table => Rebuilt list i level table) ?_ ?_ (Nat.zero_add count)
    (fresh_table_rebuilt list bound) call
  · intro i table table' inside rebuilt occupied inner
    apply rebuilt.insert occupied (by omega) (rebuilt.plain low bound ?_) inner
    intro below
    have step := occupied_below_card_succ occupied
    have most : (occupiedBelow list (i + 1)).card ≤ (occupiedBelow list count).card :=
      occupied_below_card_mono inside
    have room := room below
    omega
  · intro i table rebuilt vacant
    exact rebuilt.skip vacant

theorem map_insert_level {key value : Nat} {map map' : HashMap}
    (call : mapInsert key value map = some map') : map.capacityLevel ≤ map'.capacityLevel :=
  insert_nested_level 28 call

theorem map_rehash_level {map map' : HashMap} (call : mapRehash map level = some map') :
    level ≤ map'.capacityLevel :=
  reinsert_invariant (fun _ table => level ≤ table.capacityLevel)
    (fun _ _ _ _ before _ inner => before.trans (map_insert_level inner))
    (fun _ _ before _ => before) (Nat.zero_add _) (Nat.le_refl level) call

theorem map_insert_grows {key value : Nat} {map map' : HashMap} (grow : GrowTest map)
    (call : mapInsert key value map = some map') : map.capacityLevel < map'.capacityLevel := by
  rw [map_insert_eq, if_pos grow] at call
  obtain ⟨grown, first, placing⟩ := Option.bind_eq_some_iff.mp call
  obtain ⟨slot, -, result⟩ := Option.map_eq_some_iff.mp placing
  have higher := map_rehash_level first
  rw [← result]
  exact higher

/-- Whatever there is to insert, a table that ends at the level it was given
never grew. -/
theorem reinsert_not_grown (low : 3 ≤ level) (below : level < 27) (small : count < wordSize)
    (call : reinsert mapInsert list count 0 (freshTable level) = some table)
    (final : table.capacityLevel = level) :
    Rebuilt list count level table ∧ 4 * table.size < 3 * table.capacity + 4 := by
  have words := (capacity_bounds low below.le).2
  have reached := reinsert_invariant
    (fun i table => level ≤ table.capacityLevel ∧ (table.capacityLevel = level →
      Rebuilt list i level table ∧ 4 * table.size < 3 * table.capacity + 4))
    (by
      intro i table table' inside before occupied inner
      have higher := map_insert_level inner
      refine ⟨before.1.trans higher, ?_⟩
      intro same
      obtain ⟨rebuilt, load⟩ := before.2 (by omega)
      have plain : ¬GrowTest table := by
        intro grow
        have grown := map_insert_grows grow inner
        omega
      have after := rebuilt.insert occupied (by omega) plain inner
      have step := occupied_below_card_succ occupied
      have sevenths := (capacity_bounds low below.le).1
      rw [← rebuilt.capacity] at words sevenths
      rw [grow_test_iff words (by omega), rebuilt.number] at plain
      refine ⟨after, ?_⟩
      rw [after.size, step, ← rebuilt.size, after.capacity, ← rebuilt.capacity]
      omega)
    (by
      intro i table before vacant
      refine ⟨before.1, ?_⟩
      intro same
      obtain ⟨rebuilt, load⟩ := before.2 same
      exact ⟨rebuilt.skip vacant, load⟩)
    (Nat.zero_add count)
    (by
      refine ⟨Nat.le_refl level, ?_⟩
      intro _
      exact ⟨fresh_table_rebuilt list below.le, Nat.succ_pos _⟩)
    call
  exact reached.2 final

end Loop

/-! ## The invariant -/

structure Loaded (map : HashMap) : Prop where
  probing : Probing map
  level : 3 ≤ map.capacityLevel
  counted : map.capacityLevel < 27 → (occupiedSlots map).card ≤ map.size
  load : map.capacityLevel < 27 → 4 * map.size < 3 * map.capacity + 4

section Invariant

variable {map map' : HashMap} {key value : Nat}

theorem Loaded.bounds (loaded : Loaded map) :
    7 ≤ map.capacity ∧ 3 * map.capacity < wordSize := by
  rw [loaded.probing.table]
  exact capacity_bounds loaded.level loaded.probing.level

theorem Loaded.within (loaded : Loaded map) (below : map.capacityLevel < 27) :
    map.size ≤ map.capacity := by
  have sevenths := loaded.bounds.1
  have load := loaded.load below
  omega

theorem map_init_loaded : Loaded mapInit := by
  refine ⟨map_init_stores.1.probing, Nat.le_refl 3, ?_, ?_⟩
  · intro _
    exact Nat.le_of_eq map_init_stores.2.symm
  · intro _
    exact Nat.succ_pos _

theorem Rebuilt.card_le {list : Nat → MapNode} {count level : Nat} {table : HashMap}
    (rebuilt : Rebuilt list count level table) : (occupiedSlots table).card ≤ table.size := by
  obtain ⟨contents, stores, keys⟩ := rebuilt.stored
  rw [← stores.card, keys, rebuilt.size]
  exact Finset.card_image_le

/-- The table an insertion moves to. -/
theorem Loaded.grown (loaded : Loaded map) (grow : GrowTest map) {grown : HashMap}
    (call : mapRehash map (map.capacityLevel + 1) = some grown) :
    Rebuilt map.list map.capacity (map.capacityLevel + 1) grown ∧
      2 * (occupiedSlots map).card < grown.capacity := by
  have below := grow.1
  have counted := loaded.counted below
  have load := loaded.load below
  have doubles := capacity_doubles loaded.level below
  have sevenths := loaded.bounds.1
  rw [← loaded.probing.table] at doubles
  have rebuilt : Rebuilt map.list map.capacity (map.capacityLevel + 1) grown := by
    apply reinsert_rebuilt (Nat.le_succ_of_le loaded.level) below (capacity_lt loaded.probing) _ call
    intro _
    change 4 * (occupiedSlots map).card < 3 * primeAt (map.capacityLevel + 1) + 4
    omega
  refine ⟨rebuilt, ?_⟩
  rw [rebuilt.capacity]
  omega

/-- The table a deletion moves to. -/
theorem Loaded.shrunk (loaded : Loaded map) (below : map.capacityLevel < 27)
    (shrink : ShrinkTest map) {shrunk : HashMap}
    (call : mapRehash map (map.capacityLevel - 1) = some shrunk) :
    Rebuilt map.list map.capacity (map.capacityLevel - 1) shrunk ∧
      4 * shrunk.size ≤ 3 * shrunk.capacity := by
  have counted := loaded.counted below
  obtain ⟨above, quarter⟩ := (shrink_test_iff loaded.bounds.2 (loaded.within below)).mp shrink
  have thirds := capacity_thirds above loaded.probing.level
  rw [← loaded.probing.table] at thirds
  have rebuilt : Rebuilt map.list map.capacity (map.capacityLevel - 1) shrunk := by
    apply reinsert_rebuilt (by omega) (by omega) (capacity_lt loaded.probing) _ call
    intro _
    change 4 * (occupiedSlots map).card < 3 * primeAt (map.capacityLevel - 1) + 4
    omega
  refine ⟨rebuilt, ?_⟩
  rw [rebuilt.size, rebuilt.capacity]
  change 4 * (occupiedSlots map).card ≤ 3 * primeAt (map.capacityLevel - 1)
  omega

/-- The table an insertion takes its slot in. -/
theorem Loaded.placed (loaded : Loaded map) (below : map.capacityLevel < 27)
    (call : mapInsert key value map = some map') :
    ∃ wide slot, Placed key value wide map' slot ∧ Probing wide ∧
      (occupiedSlots wide).card ≤ wide.size ∧ 4 * wide.size < 3 * wide.capacity := by
  have counted := loaded.counted below
  rw [map_insert_eq] at call
  obtain ⟨wide, first, placing⟩ := Option.bind_eq_some_iff.mp call
  split_ifs at first with grow
  · obtain ⟨rebuilt, half⟩ := loaded.grown grow first
    obtain ⟨contents, stores, -⟩ := rebuilt.stored
    obtain ⟨slot, placed⟩ := place_key_placed stores.probing.positive placing
    have size : wide.size = (occupiedSlots map).card := rebuilt.size
    exact ⟨wide, slot, placed, stores.probing, rebuilt.card_le, by omega⟩
  · cases first
    obtain ⟨slot, placed⟩ := place_key_placed loaded.probing.positive placing
    rw [grow_test_iff loaded.bounds.2 (loaded.within below)] at grow
    exact ⟨map, slot, placed, loaded.probing, counted, by omega⟩

theorem Loaded.insert (loaded : Loaded map) (call : mapInsert key value map = some map') :
    Loaded map' := by
  have probing := map_insert_probing loaded.probing call
  have higher := map_insert_level call
  have bounded : map'.capacityLevel < 27 →
      (occupiedSlots map').card ≤ map'.size ∧ 4 * map'.size < 3 * map'.capacity + 4 := by
    intro below
    obtain ⟨wide, slot, placed, wideProbing, counted, load⟩ := loaded.placed (by omega) call
    have slots := placed_occupied_slots placed
    have most := Finset.card_insert_le slot (occupiedSlots wide)
    rw [← slots] at most
    have small := capacity_lt wideProbing
    have size : map'.size = wide.size + 1 := by
      rw [placed.result]
      exact add32_of_lt (by omega)
    have capacity : map'.capacity = wide.capacity := by rw [placed.result]
    omega
  exact ⟨probing, loaded.level.trans higher, fun below => (bounded below).1,
    fun below => (bounded below).2⟩

theorem Loaded.drop (loaded : Loaded map) (call : dropKey key map = some map') : Loaded map' := by
  have probing := drop_key_probing loaded.probing call
  rcases drop_key_cases loaded.probing.positive call with ⟨-, same⟩ | ⟨slot, inside, holds, result⟩
  · rw [same]
    exact loaded
  · have level : map'.capacityLevel = map.capacityLevel := by rw [result]
    have capacity : map'.capacity = map.capacity := by rw [result]
    have member : slot ∈ occupiedSlots map := (mem_occupied_slots map slot).mpr ⟨inside, holds.1⟩
    have positive : 0 < (occupiedSlots map).card := Finset.card_pos.mpr ⟨slot, member⟩
    have fewer : (occupiedSlots map').card = (occupiedSlots map).card - 1 := by
      rw [result, dropped_occupied_slots, Finset.card_erase_of_mem member]
    have bounded : map'.capacityLevel < 27 →
        (occupiedSlots map').card ≤ map'.size ∧ 4 * map'.size < 3 * map'.capacity + 4 := by
      intro below
      rw [level] at below
      have counted := loaded.counted below
      have load := loaded.load below
      have within := loaded.within below
      have small := capacity_lt loaded.probing
      have size : map'.size = map.size - 1 := by
        rw [result]
        exact sub32_of_le (by omega) (by omega)
      omega
    exact ⟨probing, level ▸ loaded.level, fun below => (bounded below).1,
      fun below => (bounded below).2⟩

theorem Rebuilt.loaded {list : Nat → MapNode} {count level : Nat} {table : HashMap}
    (rebuilt : Rebuilt list count level table) (low : 3 ≤ level)
    (load : 4 * table.size < 3 * table.capacity + 4) : Loaded table := by
  obtain ⟨contents, stores, -⟩ := rebuilt.stored
  exact ⟨stores.probing, rebuilt.number ▸ low, fun _ => rebuilt.card_le, fun _ => load⟩

/-- A deletion at the top level shrinks the table to one that either is loaded
as it should be or has grown back. -/
theorem Loaded.rehash_down (loaded : Loaded map) (shrink : ShrinkTest map) {shrunk : HashMap}
    (call : mapRehash map (map.capacityLevel - 1) = some shrunk) : Loaded shrunk := by
  have above : 3 < map.capacityLevel := shrink.1
  have level := loaded.probing.level
  by_cases below : map.capacityLevel < 27
  · obtain ⟨rebuilt, load⟩ := loaded.shrunk below shrink call
    exact rebuilt.loaded (by omega) (by omega)
  · have probing := rehash_probing
      (fun _ _ _ _ before inner => map_insert_probing before inner) (by omega) call
    have higher := map_rehash_level call
    by_cases same : shrunk.capacityLevel = map.capacityLevel - 1
    · obtain ⟨rebuilt, load⟩ := reinsert_not_grown (by omega) (by omega)
        (capacity_lt loaded.probing) call same
      exact rebuilt.loaded (by omega) load
    · have top : ¬shrunk.capacityLevel < 27 := by omega
      exact ⟨probing, by omega, fun low => absurd low top, fun low => absurd low top⟩

theorem Loaded.delete (loaded : Loaded map) (call : mapDelete key map = some map') :
    Loaded map' := by
  obtain ⟨shrunk, first, dropping⟩ := Option.bind_eq_some_iff.mp call
  split_ifs at first with shrink
  · exact (loaded.rehash_down shrink first).drop dropping
  · cases first
    exact loaded.drop dropping

theorem map_step_loaded (map : HashMap) (op : MapOp) (next : HashMap) (loaded : Loaded map)
    (call : mapStep map op = some next) : Loaded next := by
  cases op with
  | insert key value => exact loaded.insert call
  | delete key => exact loaded.delete call
  | find key =>
      obtain ⟨_, _, same⟩ := Option.map_eq_some_iff.mp call
      exact same ▸ loaded

theorem run_loaded {ops : List MapOp} {final : HashMap}
    (run : runFrom mapStep mapInit ops = some final) : Loaded final :=
  run_preserves map_step_loaded map_init_loaded run

end Invariant

/-! ## What holds in every state -/

/-- The bounds on the load of one table. -/
structure WithinLoad (map : HashMap) : Prop where
  table : map.capacity = primeAt map.capacityLevel
  level : 3 ≤ map.capacityLevel
  counted : (occupiedSlots map).card ≤ map.size
  load : 4 * map.size < 3 * map.capacity + 4
  within : map.size ≤ map.capacity
  vacancy : ∃ slot, slot < map.capacity ∧ (map.list slot).status ≠ .occupied
  products : (map.capacity - map.size) * 3 < wordSize ∧ 3 * map.size < wordSize

theorem Loaded.within_load {map : HashMap} (loaded : Loaded map)
    (below : map.capacityLevel < 27) : WithinLoad map := by
  have counted := loaded.counted below
  have load := loaded.load below
  have within := loaded.within below
  have bounds := loaded.bounds
  refine ⟨loaded.probing.table, loaded.level, counted, load, within, ?_, by omega, by omega⟩
  by_contra full
  have all : occupiedSlots map = Finset.range map.capacity := by
    apply Finset.filter_true_of_mem
    intro slot member
    by_contra vacant
    exact full ⟨slot, Finset.mem_range.mp member, vacant⟩
  rw [all, Finset.card_range] at counted
  omega

/-- The table a call may rehash to, before it takes or frees a slot. -/
def RehashTarget (map : HashMap) (level : Nat) : Prop :=
  (GrowTest map ∧ level = map.capacityLevel + 1) ∨ (ShrinkTest map ∧ level = map.capacityLevel - 1)

theorem Loaded.rehash_target {map : HashMap} (loaded : Loaded map)
    (below : map.capacityLevel < 27) {level : Nat} (target : RehashTarget map level) :
    3 ≤ level ∧ level ≤ 27 ∧ 4 * (occupiedSlots map).card < 3 * primeAt level + 4 := by
  have counted := loaded.counted below
  have load := loaded.load below
  have level3 := loaded.level
  rcases target with ⟨grow, same⟩ | ⟨shrink, same⟩
  · have doubles := capacity_doubles level3 below
    rw [← loaded.probing.table, ← same] at doubles
    omega
  · obtain ⟨above, quarter⟩ := (shrink_test_iff loaded.bounds.2 (loaded.within below)).mp shrink
    have thirds := capacity_thirds above loaded.probing.level
    rw [← loaded.probing.table, ← same] at thirds
    omega

/-- Every state below level 27 is within its load, a deletion that finds its key
has something to subtract from, and no round of a rehash grows the new table. -/
theorem run_within_load (ops : List MapOp) (final : HashMap)
    (run : runFrom mapStep mapInit ops = some final) (below : final.capacityLevel < 27) :
    WithinLoad final ∧
      (∀ key table slot, (if ShrinkTest final then mapRehash final (final.capacityLevel - 1)
          else some final) = some table →
        mapFindIndex key table = some (some slot) → 0 < table.size) ∧
      ∀ level, RehashTarget final level → ∀ count < final.capacity, ∀ table,
        reinsert mapInsert final.list count 0 (freshTable level) = some table →
        (final.list count).status = .occupied →
          ¬GrowTest table ∧ table.size ≤ table.capacity ∧
            (table.capacity - table.size) * 3 < wordSize := by
  have loaded := run_loaded run
  refine ⟨loaded.within_load below, ?_, ?_⟩
  · intro key table slot first found
    have tableLoaded : Loaded table ∧ table.capacityLevel < 27 := by
      split_ifs at first with shrink
      · obtain ⟨rebuilt, -⟩ := loaded.shrunk below shrink first
        exact ⟨loaded.rehash_down shrink first, by rw [rebuilt.number]; omega⟩
      · cases first
        exact ⟨loaded, below⟩
    obtain ⟨inside, holds⟩ := find_index_present tableLoaded.1.probing.positive found
    have member : slot ∈ occupiedSlots table := (mem_occupied_slots table slot).mpr ⟨inside, holds.1⟩
    exact Nat.lt_of_lt_of_le (Finset.card_pos.mpr ⟨slot, member⟩)
      (tableLoaded.1.counted tableLoaded.2)
  · intro level target count inside table call occupied
    obtain ⟨low, high, room⟩ := loaded.rehash_target below target
    have small := capacity_lt loaded.probing
    have step := occupied_below_card_succ occupied
    have most : (occupiedBelow final.list (count + 1)).card ≤ (occupiedSlots final).card :=
      occupied_below_card_mono inside
    have rebuilt := reinsert_rebuilt low high (by omega) (fun _ => by omega) call
    have words := (capacity_bounds low high).2
    have size := rebuilt.size
    have capacity := rebuilt.capacity
    exact ⟨rebuilt.plain low high fun _ => by omega, by omega, by omega⟩

/-- Five keys and an overwritten one fill the first table to its threshold. -/
theorem run_within_load_sample : ∃ final,
    runFrom mapStep mapInit [.insert 0 1, .insert 7 2, .insert 1 3, .insert 5 4, .insert 7 5,
      .insert 6 6] = some final ∧ GrowTest final ∧ WithinLoad final ∧
    ∀ table, reinsert mapInsert final.list 6 0 (freshTable 4) = some table → ¬GrowTest table := by
  have reached : (runFrom mapStep mapInit [.insert 0 1, .insert 7 2, .insert 1 3, .insert 5 4,
      .insert 7 5, .insert 6 6]).map (fun map =>
        (map.capacity, map.capacityLevel, map.size, (map.list 6).status)) =
          some (7, 3, 6, .occupied) := by
    decide +kernel
  obtain ⟨final, run, facts⟩ := Option.map_eq_some_iff.mp reached
  obtain ⟨capacity, others⟩ := Prod.mk.inj facts
  obtain ⟨level, others⟩ := Prod.mk.inj others
  obtain ⟨size, status⟩ := Prod.mk.inj others
  have grow : GrowTest final := by
    rw [GrowTest, capacity, level, size]
    decide
  obtain ⟨load, -, rounds⟩ := run_within_load _ final run (by rw [level]; decide)
  refine ⟨final, run, grow, load, ?_⟩
  intro table call
  exact (rounds 4 (Or.inl ⟨grow, by rw [level]⟩) 6 (by rw [capacity]; decide) table call status).1

end ChaoOS.HashMapLoad
