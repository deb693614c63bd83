import ChaoOS.HashMapModel

/-!
# What the probing loops find

`Probing` is the invariant of every table the map operations leave, whatever
keys were inserted: the slot of a key lies on the probe path of that key, and
no EMPTY slot comes before it. Slots are never emptied outside a rehash, which
starts again from a cleared array.
-/

namespace ChaoOS.HashMapProbing

open ChaoOS.KernelMath ChaoOS.HashMapModel

set_option autoImplicit false

def Holds (map : HashMap) (slot key : Nat) : Prop :=
  (map.list slot).status = .occupied ∧ (map.list slot).key = key

instance (map : HashMap) (slot key : Nat) : Decidable (Holds map slot key) :=
  inferInstanceAs (Decidable (_ ∧ _))

/-- The look-up goes on past this probe. -/
def Passes (map : HashMap) (key i : Nat) : Prop :=
  (nodeAt map key i).status ≠ .empty ∧ ¬Holds map (slotAt map key i) key

/-! ## The two loops -/

section Loops

variable {map : HashMap} {key : Nat}

theorem slot_at_lt (positive : 0 < map.capacity) (key i : Nat) :
    slotAt map key i < map.capacity :=
  Nat.mod_lt _ positive

/-- The counter wraps, so the visited slots repeat. -/
theorem slot_at_mod (map : HashMap) (key i : Nat) :
    slotAt map key (i % wordSize) = slotAt map key i := by
  unfold slotAt probe mul32
  rw [← Nat.mul_mod]

theorem find_loop_passes {i : Nat} (passes : Passes map key i) (fuel : Nat) :
    mapFindLoop key map (fuel + 1) i = mapFindLoop key map fuel (i + 1) := by
  have inUse : (nodeAt map key i).status = .occupied ∨ (nodeAt map key i).status = .deleted := by
    rcases passes with ⟨nonempty, _⟩
    cases status : (nodeAt map key i).status with
    | empty => exact absurd status nonempty
    | occupied => exact Or.inl rfl
    | deleted => exact Or.inr rfl
  have notHere : ¬((nodeAt map key i).key = key ∧ (nodeAt map key i).status = .occupied) := by
    intro both
    exact passes.2 ⟨both.2, both.1⟩
  rw [mapFindLoop, if_pos inUse, if_neg notHere]

theorem find_loop_empty {i : Nat} (empty : (nodeAt map key i).status = .empty) (fuel : Nat) :
    mapFindLoop key map (fuel + 1) i = some none := by
  rw [mapFindLoop]
  simp [empty]

theorem find_loop_holds {i : Nat} (holds : Holds map (slotAt map key i) key) (fuel : Nat) :
    mapFindLoop key map (fuel + 1) i = some (some (slotAt map key i)) := by
  have occupied : (nodeAt map key i).status = .occupied := holds.1
  have sameKey : (nodeAt map key i).key = key := holds.2
  rw [mapFindLoop]
  simp [occupied, sameKey]

/-- A look-up that returns stopped at the first probe it could not pass. -/
theorem find_loop_some {fuel start : Nat} {answer : Option Nat}
    (call : mapFindLoop key map fuel start = some answer) :
    ∃ i, start ≤ i ∧ (∀ j, start ≤ j → j < i → Passes map key j) ∧
      ((answer = none ∧ (nodeAt map key i).status = .empty) ∨
        (answer = some (slotAt map key i) ∧ Holds map (slotAt map key i) key)) := by
  induction fuel generalizing start with
  | zero => exact absurd call (by simp [mapFindLoop])
  | succ fuel induction =>
      by_cases passes : Passes map key start
      · rw [find_loop_passes passes] at call
        rcases induction call with ⟨i, low, before, stop⟩
        refine ⟨i, by omega, ?_, stop⟩
        intro j least below
        rcases Nat.eq_or_lt_of_le least with same | later
        · rw [← same]
          exact passes
        · exact before j later below
      · refine ⟨start, le_refl _, fun j least below => absurd below (Nat.not_lt.mpr least), ?_⟩
        by_cases empty : (nodeAt map key start).status = .empty
        · rw [find_loop_empty empty] at call
          exact Or.inl ⟨(Option.some.inj call).symm, empty⟩
        · have holds : Holds map (slotAt map key start) key := by
            by_contra missing
            exact passes ⟨empty, missing⟩
          rw [find_loop_holds holds] at call
          exact Or.inr ⟨(Option.some.inj call).symm, holds⟩

theorem find_loop_none {fuel start : Nat} (call : mapFindLoop key map fuel start = none) {j : Nat}
    (low : start ≤ j) (high : j < start + fuel) : Passes map key j := by
  induction fuel generalizing start with
  | zero => omega
  | succ fuel induction =>
      have passes : Passes map key start := by
        constructor
        · intro empty
          rw [find_loop_empty empty] at call
          exact absurd call (by simp)
        · intro holds
          rw [find_loop_holds holds] at call
          exact absurd call (by simp)
      rcases Nat.eq_or_lt_of_le low with same | later
      · rw [← same]
        exact passes
      · rw [find_loop_passes passes] at call
        exact induction call later (by omega)

/-- A look-up that is answered is answered alike with more rounds to spare. -/
theorem find_loop_extend {fuel start : Nat} {answer : Option Nat}
    (call : mapFindLoop key map fuel start = some answer) (spare : Nat) :
    mapFindLoop key map (fuel + spare) start = some answer := by
  induction fuel generalizing start with
  | zero => exact absurd call (by simp [mapFindLoop])
  | succ fuel induction =>
      rw [Nat.succ_add, mapFindLoop]
      rw [mapFindLoop] at call
      split_ifs at call ⊢
      · exact call
      · exact induction call
      · exact call

theorem find_loop_forever (passes : ∀ j, Passes map key j) (fuel start : Nat) :
    mapFindLoop key map fuel start = none := by
  induction fuel generalizing start with
  | zero => rfl
  | succ fuel induction => rw [find_loop_passes (passes start), induction]

/-- `2 ^ 32` rounds decide whether the loop of `_map_find` ever ends. -/
theorem find_index_none_iff : mapFindIndex key map = none ↔ ∀ j, Passes map key j := by
  constructor
  · intro call j
    have inRange := find_loop_none call (Nat.zero_le (j % wordSize))
      (by rw [Nat.zero_add]; exact Nat.mod_lt _ (by decide))
    unfold Passes nodeAt at inRange ⊢
    rw [slot_at_mod] at inRange
    exact inRange
  · intro passes
    exact find_loop_forever passes wordSize 0

/-- An insertion goes past slots that other keys occupy and takes the next one. -/
theorem insert_loop_some {fuel start slot : Nat} (call : mapInsertLoop key map fuel start = some slot) :
    ∃ i, start ≤ i ∧ i < start + fuel ∧ slot = slotAt map key i ∧
      (∀ j, start ≤ j → j < i →
        (nodeAt map key j).status = .occupied ∧ (nodeAt map key j).key ≠ key) ∧
      ((nodeAt map key i).status = .occupied → (nodeAt map key i).key = key) := by
  induction fuel generalizing start with
  | zero => exact absurd call (by simp [mapInsertLoop])
  | succ fuel induction =>
      have none_before : ∀ j, start ≤ j → j < start →
          (nodeAt map key j).status = .occupied ∧ (nodeAt map key j).key ≠ key :=
        fun j least below => absurd below (Nat.not_lt.mpr least)
      rw [mapInsertLoop] at call
      split_ifs at call with occupied same
      · exact ⟨start, le_refl _, by omega, (Option.some.inj call).symm, none_before, fun _ => same⟩
      · rcases induction call with ⟨i, low, high, found, before, stop⟩
        refine ⟨i, by omega, by omega, found, ?_, stop⟩
        intro j least below
        rcases Nat.eq_or_lt_of_le least with here | later
        · rw [← here]
          exact ⟨occupied, same⟩
        · exact before j later below
      · exact ⟨start, le_refl _, by omega, (Option.some.inj call).symm, none_before,
          fun claimed => absurd claimed occupied⟩

theorem insert_loop_none {fuel start : Nat} (call : mapInsertLoop key map fuel start = none) {j : Nat}
    (low : start ≤ j) (high : j < start + fuel) : (nodeAt map key j).status = .occupied := by
  induction fuel generalizing start with
  | zero => omega
  | succ fuel induction =>
      rw [mapInsertLoop] at call
      split_ifs at call with occupied same
      rcases Nat.eq_or_lt_of_le low with here | later
      · rw [← here]
        exact occupied
      · exact induction call later (by omega)

theorem insert_loop_extend {fuel start slot : Nat}
    (call : mapInsertLoop key map fuel start = some slot) (spare : Nat) :
    mapInsertLoop key map (fuel + spare) start = some slot := by
  induction fuel generalizing start with
  | zero => exact absurd call (by simp [mapInsertLoop])
  | succ fuel induction =>
      rw [Nat.succ_add, mapInsertLoop]
      rw [mapInsertLoop] at call
      split_ifs at call ⊢
      · exact call
      · exact induction call
      · exact call

end Loops

/-! ## The path invariant -/

/-- The probe path of `key` leads to `slot` without meeting an EMPTY slot. -/
def PathTo (map : HashMap) (slot key : Nat) : Prop :=
  ∃ i, slotAt map key i = slot ∧ ∀ j, j < i → (nodeAt map key j).status ≠ .empty

structure Probing (map : HashMap) : Prop where
  table : map.capacity = primeAt map.capacityLevel
  level : map.capacityLevel ≤ 27
  paths : ∀ slot key, slot < map.capacity → Holds map slot key → PathTo map slot key

theorem prime_at_pos {level : Nat} (bound : level ≤ 27) : 0 < primeAt level := by
  have all : ∀ index, index < 28 → 0 < primeAt index := by decide
  exact all level (by omega)

section Paths

variable {map : HashMap}

theorem Probing.positive (probing : Probing map) : 0 < map.capacity := by
  rw [probing.table]
  exact prime_at_pos probing.level

theorem fresh_table_probing {level : Nat} (bound : level ≤ 27) : Probing (freshTable level) := by
  refine ⟨rfl, bound, ?_⟩
  intro slot key _ holds
  exact absurd holds.1 (by simp [freshTable, clearedList])

/-- Rewriting one slot without emptying it keeps every other path. -/
theorem Probing.rewrite (probing : Probing map) {slot size : Nat} {node : MapNode}
    (nonempty : node.status ≠ .empty)
    (own : node.status = .occupied → PathTo map slot node.key) :
    Probing { map with list := setNode map slot node, size := size } := by
  refine ⟨probing.table, probing.level, ?_⟩
  have keepsPath : ∀ target key, PathTo map target key →
      PathTo { map with list := setNode map slot node, size := size } target key := by
    intro target key path
    rcases path with ⟨i, there, before⟩
    refine ⟨i, there, ?_⟩
    intro j below
    change (setNode map slot node (slotAt map key j)).status ≠ .empty
    unfold setNode
    split_ifs
    · exact nonempty
    · exact before j below
  intro target key inside holds
  apply keepsPath
  change (setNode map slot node target).status = .occupied ∧
    (setNode map slot node target).key = key at holds
  unfold setNode at holds
  split_ifs at holds with here
  · rw [here, ← holds.2]
    exact own holds.1
  · exact probing.paths target key inside holds

/-- What `map_insert` does once the table is large enough: it takes the first
slot on the path of `key` that no other key occupies. -/
structure Placed (key value : Nat) (map map' : HashMap) (slot : Nat) : Prop where
  inside : slot < map.capacity
  result : map' =
    { map with list := setNode map slot ⟨key, value, .occupied⟩, size := add32 map.size 1 }
  vacant : (map.list slot).status = .occupied → (map.list slot).key = key
  reached : ∃ i, slotAt map key i = slot ∧ ∀ j, j < i →
    (nodeAt map key j).status = .occupied ∧ (nodeAt map key j).key ≠ key

theorem place_key_placed (positive : 0 < map.capacity) {key value : Nat} {map' : HashMap}
    (call : placeKey key value map = some map') : ∃ slot, Placed key value map map' slot := by
  rcases Option.map_eq_some_iff.mp call with ⟨slot, loop, result⟩
  rcases insert_loop_some loop with ⟨i, _, _, found, before, stop⟩
  refine ⟨slot, ?_, result.symm, ?_, i, found.symm, fun j below => before j (Nat.zero_le _) below⟩
  · rw [found]
    exact slot_at_lt positive key i
  · rw [found]
    exact stop

theorem Placed.path {key value slot : Nat} {map' : HashMap}
    (placed : Placed key value map map' slot) : PathTo map slot key := by
  rcases placed.reached with ⟨i, there, before⟩
  refine ⟨i, there, ?_⟩
  intro j below
  rw [(before j below).1]
  decide

theorem Placed.probing {key value slot : Nat} {map' : HashMap}
    (placed : Placed key value map map' slot) (probing : Probing map) : Probing map' := by
  rw [placed.result]
  exact probing.rewrite (by simp) fun _ => placed.path

/-- What `map_delete` does once the table has been shrunk. -/
theorem drop_key_cases (positive : 0 < map.capacity) {key : Nat} {map' : HashMap}
    (call : dropKey key map = some map') :
    (mapFindIndex key map = some none ∧ map' = map) ∨
      ∃ slot, slot < map.capacity ∧ Holds map slot key ∧
        map' = { map with
          list := setNode map slot { map.list slot with status := .deleted }
          size := sub32 map.size 1 } := by
  rcases Option.map_eq_some_iff.mp call with ⟨answer, found, result⟩
  cases answer with
  | none => exact Or.inl ⟨found, result.symm⟩
  | some slot =>
      rcases find_loop_some found with ⟨i, _, _, stop⟩
      rcases stop with missing | ⟨same, holds⟩
      · exact absurd missing.1 (by simp)
      · rw [← Option.some.inj same] at holds
        refine Or.inr ⟨slot, ?_, holds, result.symm⟩
        rw [Option.some.inj same]
        exact slot_at_lt positive key i

theorem drop_key_probing (probing : Probing map) {key : Nat} {map' : HashMap}
    (call : dropKey key map = some map') : Probing map' := by
  rcases drop_key_cases probing.positive call with ⟨_, same⟩ | ⟨slot, _, _, result⟩
  · rw [same]
    exact probing
  · rw [result]
    apply probing.rewrite
    · simp
    · intro occupied
      exact absurd occupied (by simp)

/-! ## Look-ups on such a table -/

theorem find_index_absent (probing : Probing map) {key : Nat}
    (call : mapFindIndex key map = some none) {slot : Nat} (inside : slot < map.capacity) :
    ¬Holds map slot key := by
  intro holds
  rcases find_loop_some call with ⟨i, _, before, stop⟩
  rcases probing.paths slot key inside holds with ⟨last, there, clear⟩
  rcases stop with ⟨_, empty⟩ | ⟨found, _⟩
  · rcases Nat.lt_trichotomy i last with earlier | same | later
    · exact clear i earlier empty
    · unfold nodeAt at empty
      rw [same, there, holds.1] at empty
      exact absurd empty (by decide)
    · have passes := before last (Nat.zero_le _) later
      unfold Passes at passes
      rw [there] at passes
      exact passes.2 holds
  · exact absurd found (by simp)

theorem find_index_present (positive : 0 < map.capacity) {key slot : Nat}
    (call : mapFindIndex key map = some (some slot)) : slot < map.capacity ∧ Holds map slot key := by
  rcases find_loop_some call with ⟨i, _, _, stop⟩
  rcases stop with missing | ⟨same, holds⟩
  · exact absurd missing.1 (by simp)
  · rw [← Option.some.inj same] at holds
    rw [Option.some.inj same] at holds ⊢
    exact ⟨slot_at_lt positive key i, holds⟩

/-- A look-up ends exactly when its key is stored or its path has an EMPTY slot. -/
theorem find_index_returns_iff (probing : Probing map) (key : Nat) :
    (mapFindIndex key map).isSome ↔ (∃ slot, slot < map.capacity ∧ Holds map slot key) ∨
      ∃ i, (nodeAt map key i).status = .empty := by
  rw [Option.isSome_iff_ne_none, Ne, find_index_none_iff]
  constructor
  · intro stops
    by_contra neither
    apply stops
    intro j
    constructor
    · intro empty
      exact neither (Or.inr ⟨j, empty⟩)
    · intro holds
      exact neither (Or.inl ⟨_, slot_at_lt probing.positive key j, holds⟩)
  · intro either passes
    rcases either with ⟨slot, inside, holds⟩ | ⟨i, empty⟩
    · rcases probing.paths slot key inside holds with ⟨i, there, _⟩
      have passing := (passes i).2
      rw [there] at passing
      exact passing holds
    · exact (passes i).1 empty

end Paths

/-! ## Rehashing and the nesting of insertions -/

section Nesting

/-- What holds of the cleared table and is kept by every insertion the loop
makes holds of the rebuilt table. -/
theorem reinsert_invariant {insert : Nat → Nat → HashMap → Option HashMap} {old : Nat → MapNode}
    (invariant : Nat → HashMap → Prop) {capacity : Nat}
    (inserted : ∀ i map map', i < capacity → invariant i map → (old i).status = .occupied →
      insert (old i).key (old i).value map = some map' → invariant (i + 1) map')
    (skipped : ∀ i map, invariant i map → (old i).status ≠ .occupied → invariant (i + 1) map)
    {count i : Nat} (range : i + count = capacity) {map final : HashMap} (initial : invariant i map)
    (call : reinsert insert old count i map = some final) : invariant capacity final := by
  induction count generalizing i map with
  | zero =>
      cases call
      rw [← range]
      exact initial
  | succ count induction =>
      rw [reinsert] at call
      split_ifs at call with occupied
      · rcases Option.bind_eq_some_iff.mp call with ⟨next, first, rest⟩
        exact induction (by omega) (inserted i map next (by omega) initial occupied first) rest
      · exact induction (by omega) (skipped i map initial occupied) call

/-- Two insertion functions that agree on the tables of the loop rebuild alike. -/
theorem reinsert_congr {left right : Nat → Nat → HashMap → Option HashMap} {old : Nat → MapNode}
    (invariant : HashMap → Prop)
    (same : ∀ key value map, invariant map → left key value map = right key value map)
    (kept : ∀ key value map map', invariant map → left key value map = some map' → invariant map')
    (count i : Nat) {map : HashMap} (initial : invariant map) :
    reinsert left old count i map = reinsert right old count i map := by
  induction count generalizing i map with
  | zero => rfl
  | succ count induction =>
      rw [reinsert, reinsert, ← same _ _ map initial]
      split_ifs
      · apply Option.bind_congr
        intro next first
        exact induction (i + 1) (kept _ _ map next initial first)
      · exact induction (i + 1) initial

theorem insert_nested_level (depth : Nat) {key value : Nat} {map map' : HashMap}
    (call : insertNested depth key value map = some map') :
    map.capacityLevel ≤ map'.capacityLevel := by
  induction depth generalizing key value map map' with
  | zero => exact absurd call (by simp [insertNested])
  | succ depth induction =>
      rw [insertNested] at call
      rcases Option.bind_eq_some_iff.mp call with ⟨grown, first, placing⟩
      have higher : map.capacityLevel ≤ grown.capacityLevel := by
        split_ifs at first
        · have rebuilt := reinsert_invariant (fun _ table => map.capacityLevel < table.capacityLevel)
            (fun _ _ _ _ before _ inner => lt_of_lt_of_le before (induction inner))
            (fun _ _ before _ => before) (Nat.zero_add _) (Nat.lt_succ_self _) first
          exact le_of_lt rebuilt
        · cases first
          exact le_refl _
      rcases Option.map_eq_some_iff.mp placing with ⟨slot, _, result⟩
      rw [← result]
      exact higher

/-- Beyond the levels left, more depth changes nothing. -/
theorem insert_nested_enough (depth : Nat) {map : HashMap} (enough : 27 ≤ map.capacityLevel + depth)
    (key value : Nat) :
    insertNested (depth + 2) key value map = insertNested (depth + 1) key value map := by
  induction depth generalizing key value map with
  | zero =>
      have full : ¬GrowTest map := by
        intro grow
        exact absurd grow.1 (by omega)
      rw [insertNested, insertNested, if_neg full, if_neg full]
  | succ depth induction =>
      rw [insertNested, insertNested]
      congr 1
      split_ifs with grow
      · apply reinsert_congr fun table => map.capacityLevel < table.capacityLevel
        · intro key value table higher
          exact induction (by omega) key value
        · intro key value table table' higher inner
          exact lt_of_lt_of_le higher (insert_nested_level _ inner)
        · exact Nat.lt_succ_self _
      · rfl

/-- The mutual recursion of the source: `map_insert` calls `map_rehash`, which
calls `map_insert`. -/
theorem map_insert_eq (key value : Nat) (map : HashMap) : mapInsert key value map =
    (if GrowTest map then mapRehash map (map.capacityLevel + 1) else some map).bind
      (placeKey key value) := by
  rw [mapInsert, insertNested]
  congr 1
  split_ifs
  · apply reinsert_congr fun table => map.capacityLevel < table.capacityLevel
    · intro key value table higher
      exact (insert_nested_enough 26 (by omega) key value).symm
    · intro key value table table' higher inner
      exact lt_of_lt_of_le higher (insert_nested_level _ inner)
    · exact Nat.lt_succ_self _
  · rfl

/-- Rules about rehashing are proved for every insertion function that keeps a
property of tables. -/
theorem rehash_probing {insert : Nat → Nat → HashMap → Option HashMap}
    (kept : ∀ key value map map', Probing map → insert key value map = some map' → Probing map')
    {map map' : HashMap} {level : Nat} (bound : level ≤ 27)
    (call : rehashWith insert map level = some map') : Probing map' :=
  reinsert_invariant (fun _ table => Probing table)
    (fun _ _ _ _ before _ inner => kept _ _ _ _ before inner) (fun _ _ before _ => before)
    (Nat.zero_add _) (fresh_table_probing bound) call

theorem insert_nested_probing (depth : Nat) {key value : Nat} {map map' : HashMap}
    (probing : Probing map) (call : insertNested depth key value map = some map') :
    Probing map' := by
  induction depth generalizing key value map map' with
  | zero => exact absurd call (by simp [insertNested])
  | succ depth induction =>
      rw [insertNested] at call
      rcases Option.bind_eq_some_iff.mp call with ⟨grown, first, placing⟩
      have wide : Probing grown := by
        split_ifs at first with grow
        · exact rehash_probing (fun _ _ _ _ before inner => induction before inner) grow.1 first
        · cases first
          exact probing
      rcases place_key_placed wide.positive placing with ⟨slot, placed⟩
      exact placed.probing wide

theorem map_insert_probing {key value : Nat} {map map' : HashMap} (probing : Probing map)
    (call : mapInsert key value map = some map') : Probing map' :=
  insert_nested_probing 28 probing call

theorem map_delete_probing {key : Nat} {map map' : HashMap} (probing : Probing map)
    (call : mapDelete key map = some map') : Probing map' := by
  rcases Option.bind_eq_some_iff.mp call with ⟨shrunk, first, dropping⟩
  have narrow : Probing shrunk := by
    split_ifs at first with shrink
    · have bound := probing.level
      exact rehash_probing (fun _ _ _ _ => map_insert_probing) (by omega) first
    · cases first
      exact probing
  exact drop_key_probing narrow dropping

end Nesting

end ChaoOS.HashMapProbing
