import Mathlib.Data.Finmap
import ChaoOS.HashMapProbing

/-!
# The finite map a table stores

`Stores` relates a table to a finite map from keys to values. Inserting a key
that is not stored keeps the relation whatever tombstones there are; inserting
a stored key does so when no tombstone comes before it on its path, since the
probing loop would otherwise take the tombstone and leave the old slot behind.
Rehashing only ever inserts keys the new table does not have.
-/

namespace ChaoOS.HashMapContents

open ChaoOS.KernelMath ChaoOS.HashMapModel ChaoOS.HashMapProbing

set_option autoImplicit false

abbrev Contents := Finmap fun _ : Nat => Nat

/-- Each key occupies at most one slot. -/
def UniqueKeys (map : HashMap) : Prop :=
  ∀ key slot other, slot < map.capacity → other < map.capacity → Holds map slot key →
    Holds map other key → slot = other

structure Stores (contents : Contents) (map : HashMap) : Prop where
  probing : Probing map
  listed : ∀ key value, contents.lookup key = some value ↔
    ∃ slot, slot < map.capacity ∧ map.list slot = ⟨key, value, .occupied⟩
  unique : UniqueKeys map

/-- No tombstone comes before the slot of `key`, if `key` is stored. -/
def NoTombstoneBefore (map : HashMap) (key : Nat) : Prop :=
  ∀ j, (nodeAt map key j).status = .deleted → ∀ i, Holds map (slotAt map key i) key →
    ∃ before, before < j ∧ Holds map (slotAt map key before) key

def Untombed (map : HashMap) : Prop :=
  ∀ slot, slot < map.capacity → (map.list slot).status ≠ .deleted

instance (map : HashMap) : Decidable (Untombed map) :=
  inferInstanceAs (Decidable (∀ slot, slot < map.capacity → (map.list slot).status ≠ .deleted))

def occupiedSlots (map : HashMap) : Finset Nat :=
  (Finset.range map.capacity).filter fun slot => (map.list slot).status = .occupied

@[simp] theorem mem_occupied_slots (map : HashMap) (slot : Nat) :
    slot ∈ occupiedSlots map ↔ slot < map.capacity ∧ (map.list slot).status = .occupied := by
  rw [occupiedSlots, Finset.mem_filter, Finset.mem_range]

/-- The size field counts the occupied slots. -/
def Exact (map : HashMap) : Prop := map.size = (occupiedSlots map).card

section Facts

variable {contents : Contents} {map map' : HashMap} {key value slot : Nat}

theorem holds_iff_node (map : HashMap) (slot key : Nat) :
    Holds map slot key ↔ ∃ value, map.list slot = ⟨key, value, .occupied⟩ := by
  constructor
  · intro holds
    refine ⟨(map.list slot).value, ?_⟩
    cases node : map.list slot with
    | mk _ _ _ =>
        unfold Holds at holds
        rw [node] at holds
        simp only at holds
        rw [holds.1, holds.2]
  · intro node
    rcases node with ⟨value, same⟩
    unfold Holds
    rw [same]
    exact ⟨rfl, rfl⟩

theorem Stores.mem_iff (stores : Stores contents map) (key : Nat) :
    key ∈ contents ↔ ∃ slot, slot < map.capacity ∧ Holds map slot key := by
  rw [Finmap.mem_iff]
  constructor
  · intro found
    rcases found with ⟨value, same⟩
    rcases (stores.listed key value).mp same with ⟨slot, inside, node⟩
    exact ⟨slot, inside, (holds_iff_node _ _ _).mpr ⟨value, node⟩⟩
  · intro found
    rcases found with ⟨slot, inside, holds⟩
    rcases (holds_iff_node _ _ _).mp holds with ⟨value, node⟩
    exact ⟨value, (stores.listed key value).mpr ⟨slot, inside, node⟩⟩

theorem no_tombstone_of_absent (stores : Stores contents map) (absent : key ∉ contents) :
    NoTombstoneBefore map key := by
  intro _ _ i holds
  have present := (stores.mem_iff key).mpr ⟨_, slot_at_lt stores.probing.positive key i, holds⟩
  exact absurd present absent

theorem Untombed.no_tombstone (clean : Untombed map) (positive : 0 < map.capacity) (key : Nat) :
    NoTombstoneBefore map key := by
  intro j deleted
  exact absurd deleted (clean _ (slot_at_lt positive key j))

theorem fresh_table_stores {level : Nat} (bound : level ≤ 27) :
    Stores ∅ (freshTable level) ∧ Exact (freshTable level) ∧ Untombed (freshTable level) := by
  refine ⟨⟨fresh_table_probing bound, ?_, ?_⟩, ?_, ?_⟩
  · intro key value
    simp [freshTable, clearedList]
  · intro key slot other _ _ holds
    exact absurd holds.1 (by simp [freshTable, clearedList])
  · simp [Exact, occupiedSlots, freshTable, clearedList]
  · intro slot _
    simp [freshTable, clearedList]

/-- A stored key is overwritten where it is. -/
theorem placed_same_slot (placed : Placed key value map map' slot) (stores : Stores contents map)
    (clear : NoTombstoneBefore map key) {other : Nat} (inside : other < map.capacity)
    (holds : Holds map other key) : slot = other := by
  by_cases own : (map.list slot).status = .occupied
  · exact stores.unique key slot other placed.inside inside ⟨own, placed.vacant own⟩ holds
  · exfalso
    rcases placed.reached with ⟨i, there, before⟩
    rcases stores.probing.paths other key inside holds with ⟨last, reached, nonempty⟩
    have notBefore : ∀ j, j < i → ¬Holds map (slotAt map key j) key := by
      intro j below here
      exact (before j below).2 here.2
    have earlier : i < last := by
      rcases Nat.lt_trichotomy i last with earlier | same | later
      · exact earlier
      · rw [same, reached] at there
        rw [← there] at own
        exact absurd holds.1 own
      · have passed := notBefore last later
        rw [reached] at passed
        exact absurd holds passed
    have deleted : (nodeAt map key i).status = .deleted := by
      unfold nodeAt
      rw [there]
      cases status : (map.list slot).status with
      | deleted => rfl
      | occupied => exact absurd status own
      | empty =>
          have met := nonempty i earlier
          unfold nodeAt at met
          rw [there] at met
          exact absurd status met
    rcases clear i deleted last (reached ▸ holds) with ⟨j, below, here⟩
    exact notBefore j below here

/-! ## Inserting and deleting one key -/

theorem holds_elsewhere (others : ∀ other, other ≠ slot → map'.list other = map.list other)
    {other : Nat} (different : other ≠ slot) (wanted : Nat) :
    Holds map' other wanted ↔ Holds map other wanted := by
  unfold Holds
  rw [others other different]

/-- Rewriting a slot changes nothing for a key it holds neither before nor after. -/
theorem listed_elsewhere (others : ∀ other, other ≠ slot → map'.list other = map.list other)
    {wanted : Nat} (before : ¬Holds map slot wanted) (after : ¬Holds map' slot wanted)
    (found : Nat) :
    (∃ other, other < map.capacity ∧ map.list other = ⟨wanted, found, .occupied⟩) ↔
      ∃ other, other < map.capacity ∧ map'.list other = ⟨wanted, found, .occupied⟩ := by
  apply exists_congr
  intro other
  apply and_congr_right
  intro _
  by_cases here : other = slot
  · rw [here]
    apply iff_of_false
    · intro node
      exact before ((holds_iff_node _ _ _).mpr ⟨found, node⟩)
    · intro node
      exact after ((holds_iff_node _ _ _).mpr ⟨found, node⟩)
  · rw [others other here]

theorem placed_stores (placed : Placed key value map map' slot) (stores : Stores contents map)
    (clear : NoTombstoneBefore map key) : Stores (contents.insert key value) map' := by
  have own : map'.list slot = ⟨key, value, .occupied⟩ := by
    rw [placed.result]
    exact if_pos rfl
  have others : ∀ other, other ≠ slot → map'.list other = map.list other := by
    intro other different
    rw [placed.result]
    exact if_neg different
  have capacity : map'.capacity = map.capacity := by rw [placed.result]
  -- a slot other than the one taken holds the key neither before nor after
  have notElsewhere : ∀ other, other < map.capacity → other ≠ slot → ¬Holds map other key := by
    intro other inside different holds
    exact different (placed_same_slot placed stores clear inside holds).symm
  refine ⟨placed.probing stores.probing, ?_, ?_⟩
  · intro wanted found
    rw [capacity]
    by_cases same : wanted = key
    · subst same
      rw [Finmap.lookup_insert]
      constructor
      · intro equal
        rw [← Option.some.inj equal]
        exact ⟨slot, placed.inside, own⟩
      · intro somewhere
        rcases somewhere with ⟨other, inside, node⟩
        by_cases here : other = slot
        · rw [here, own] at node
          rw [(MapNode.mk.inj node).2.1]
        · rw [others other here] at node
          exact absurd ((holds_iff_node _ _ _).mpr ⟨found, node⟩) (notElsewhere other inside here)
    · rw [Finmap.lookup_insert_of_ne _ same, stores.listed]
      apply listed_elsewhere others
      · intro holds
        exact same (holds.2.symm.trans (placed.vacant holds.1))
      · intro holds
        rw [Holds, own] at holds
        exact same holds.2.symm
  · intro wanted left right leftInside rightInside leftHolds rightHolds
    rw [capacity] at leftInside rightInside
    -- the slot taken holds the new key, which no other slot has
    have onlyThere : ∀ other, other < map.capacity → Holds map' slot wanted →
        Holds map' other wanted → other = slot := by
      intro other inside there holds
      by_contra different
      rw [Holds, own] at there
      rw [holds_elsewhere others different, ← there.2] at holds
      exact notElsewhere other inside different holds
    by_cases leftHere : left = slot
    · rw [leftHere] at leftHolds ⊢
      exact (onlyThere right rightInside leftHolds rightHolds).symm
    · by_cases rightHere : right = slot
      · rw [rightHere] at rightHolds ⊢
        exact onlyThere left leftInside rightHolds leftHolds
      · rw [holds_elsewhere others leftHere] at leftHolds
        rw [holds_elsewhere others rightHere] at rightHolds
        exact stores.unique wanted left right leftInside rightInside leftHolds rightHolds

theorem placed_untombed (placed : Placed key value map map' slot) (clean : Untombed map) :
    Untombed map' := by
  rw [placed.result]
  intro other inside
  change (setNode map slot ⟨key, value, .occupied⟩ other).status ≠ .deleted
  unfold setNode
  split_ifs
  · simp
  · exact clean other inside

theorem capacity_lt (probing : Probing map) : map.capacity < wordSize := by
  have all : ∀ level, level < 28 → primeAt level < wordSize := by decide
  rw [probing.table]
  exact all map.capacityLevel (Nat.lt_succ_of_le probing.level)

theorem occupied_card_le (map : HashMap) : (occupiedSlots map).card ≤ map.capacity := by
  apply le_trans (Finset.card_filter_le _ _)
  rw [Finset.card_range]

theorem placed_occupied_slots (placed : Placed key value map map' slot) :
    occupiedSlots map' = insert slot (occupiedSlots map) := by
  rw [placed.result]
  ext other
  simp only [mem_occupied_slots, Finset.mem_insert, setNode]
  by_cases here : other = slot
  · simp [here, placed.inside]
  · simp [here]

theorem placed_exact (placed : Placed key value map map' slot) (stores : Stores contents map)
    (absent : key ∉ contents) (exact_size : Exact map) : Exact map' := by
  have vacant : (map.list slot).status ≠ .occupied := by
    intro occupied
    exact absent ((stores.mem_iff key).mpr ⟨slot, placed.inside, occupied, placed.vacant occupied⟩)
  have slots := placed_occupied_slots placed
  have fresh : slot ∉ occupiedSlots map := by
    simp [vacant]
  have room := occupied_card_le map'
  have small := capacity_lt stores.probing
  have capacity : map'.capacity = map.capacity := by rw [placed.result]
  unfold Exact
  rw [slots, Finset.card_insert_of_notMem fresh, ← exact_size] at room ⊢
  have size : map'.size = add32 map.size 1 := by rw [placed.result]
  rw [size, add32_of_lt (by omega)]

/-- Marking an occupied slot deleted takes it out of the occupied ones. -/
theorem dropped_occupied_slots (map : HashMap) (slot size : Nat) :
    occupiedSlots { map with
      list := setNode map slot { map.list slot with status := .deleted }
      size := size } = (occupiedSlots map).erase slot := by
  ext other
  simp only [mem_occupied_slots, Finset.mem_erase, setNode]
  by_cases here : other = slot
  · simp [here]
  · simp [here]

theorem drop_key_stores (stores : Stores contents map) (call : dropKey key map = some map') :
    Stores (contents.erase key) map' ∧ (Exact map → Exact map') := by
  rcases drop_key_cases stores.probing.positive call with ⟨missing, same⟩ | ⟨slot, inside, holds, result⟩
  · have absent : key ∉ contents := by
      intro present
      rcases (stores.mem_iff key).mp present with ⟨slot, inside, holds⟩
      exact find_index_absent stores.probing missing inside holds
    have unchanged : contents.erase key = contents := by
      apply Finmap.ext_lookup
      intro other
      by_cases here : other = key
      · rw [here, Finmap.lookup_erase, Finmap.lookup_eq_none.mpr absent]
      · rw [Finmap.lookup_erase_ne here]
    rw [unchanged, same]
    exact ⟨stores, fun before => before⟩
  · have own : (map'.list slot).status = .deleted := by
      rw [result]
      simp [setNode]
    have others : ∀ other, other ≠ slot → map'.list other = map.list other := by
      intro other different
      rw [result]
      exact if_neg different
    have capacity : map'.capacity = map.capacity := by rw [result]
    refine ⟨⟨drop_key_probing stores.probing call, ?_, ?_⟩, ?_⟩
    · intro wanted value
      rw [capacity]
      by_cases same : wanted = key
      · subst same
        rw [Finmap.lookup_erase]
        constructor
        · intro impossible
          exact absurd impossible (by simp)
        · intro somewhere
          rcases somewhere with ⟨other, otherInside, node⟩
          exfalso
          by_cases here : other = slot
          · rw [here] at node
            rw [node] at own
            exact absurd own (by simp)
          · rw [others other here] at node
            have otherHolds := (holds_iff_node _ _ _).mpr ⟨value, node⟩
            exact here (stores.unique wanted other slot otherInside inside otherHolds holds)
      · rw [Finmap.lookup_erase_ne same, stores.listed]
        apply listed_elsewhere others
        · intro here
          exact same (here.2.symm.trans holds.2)
        · intro here
          rw [Holds, own] at here
          exact absurd here.1 (by decide)
    · intro wanted left right leftInside rightInside leftHolds rightHolds
      have kept : ∀ other, Holds map' other wanted → Holds map other wanted := by
        intro other stays
        have different : other ≠ slot := by
          intro here
          rw [here, Holds, own] at stays
          exact absurd stays.1 (by decide)
        exact (holds_elsewhere others different wanted).mp stays
      rw [capacity] at leftInside rightInside
      exact stores.unique wanted left right leftInside rightInside (kept left leftHolds)
        (kept right rightHolds)
    · intro exact_size
      have slots : occupiedSlots map' = (occupiedSlots map).erase slot := by
        rw [result]
        exact dropped_occupied_slots map slot _
      have member : slot ∈ occupiedSlots map := by
        simp [inside, holds.1]
      have positive : 0 < (occupiedSlots map).card := Finset.card_pos.mpr ⟨slot, member⟩
      have room := occupied_card_le map
      have small := capacity_lt stores.probing
      have size : map'.size = sub32 map.size 1 := by rw [result]
      unfold Exact at exact_size ⊢
      rw [size, slots, Finset.card_erase_of_mem member, ← exact_size]
      exact sub32_of_le (by omega) (by omega)

end Facts

/-! ## Rehashing -/

/-- The finite map has the keys of the first `count` nodes of an array. -/
def ListsFirst (list : Nat → MapNode) (count : Nat) (contents : Contents) : Prop :=
  ∀ key value, contents.lookup key = some value ↔
    ∃ slot, slot < count ∧ list slot = ⟨key, value, .occupied⟩

section ListsFirst

variable {list : Nat → MapNode} {count : Nat} {contents : Contents}

theorem lists_first_zero (list : Nat → MapNode) : ListsFirst list 0 ∅ := by
  intro key value
  simp

theorem ListsFirst.vacant (lists : ListsFirst list count contents)
    (vacant : (list count).status ≠ .occupied) : ListsFirst list (count + 1) contents := by
  intro key value
  rw [lists]
  apply exists_congr
  intro slot
  apply and_congr_left
  intro node
  have different : slot ≠ count := by
    intro same
    rw [← same, node] at vacant
    exact vacant rfl
  omega

theorem ListsFirst.occupied (lists : ListsFirst list count contents)
    (occupied : (list count).status = .occupied) (absent : (list count).key ∉ contents) :
    ListsFirst list (count + 1) (contents.insert (list count).key (list count).value) := by
  intro key value
  constructor
  · intro found
    by_cases same : key = (list count).key
    · rw [same, Finmap.lookup_insert] at found
      refine ⟨count, Nat.lt_succ_self count, ?_⟩
      rw [same, ← Option.some.inj found, ← occupied]
    · rw [Finmap.lookup_insert_of_ne _ same] at found
      rcases (lists _ _).mp found with ⟨slot, below, node⟩
      exact ⟨slot, Nat.lt_succ_of_lt below, node⟩
  · intro found
    rcases found with ⟨slot, below, node⟩
    rcases Nat.lt_succ_iff_lt_or_eq.mp below with earlier | same
    · have listed := (lists key value).mpr ⟨slot, earlier, node⟩
      have different : key ≠ (list count).key := by
        intro same
        rw [← same] at absent
        exact absent (Finmap.mem_of_lookup_eq_some listed)
      rw [Finmap.lookup_insert_of_ne _ different]
      exact listed
    · rw [same] at node
      rw [node, Finmap.lookup_insert]

end ListsFirst

/-- An insertion function that is right on keys the table does not have. -/
def InsertsFresh (insert : Nat → Nat → HashMap → Option HashMap) : Prop :=
  ∀ contents key value map map', Stores contents map → key ∉ contents →
    insert key value map = some map' →
    Stores (contents.insert key value) map' ∧ (Exact map → Exact map') ∧
      (Untombed map → Untombed map')

theorem rehash_stores {insert : Nat → Nat → HashMap → Option HashMap} (fresh : InsertsFresh insert)
    {contents : Contents} {map map' : HashMap} (stores : Stores contents map) {level : Nat}
    (bound : level ≤ 27) (call : rehashWith insert map level = some map') :
    Stores contents map' ∧ Exact map' ∧ Untombed map' := by
  have rebuilt := reinsert_invariant
    (fun i table => ∃ part, Stores part table ∧ Exact table ∧ Untombed table ∧
      ListsFirst map.list i part)
    (by
      intro i table table' inside before occupied inner
      rcases before with ⟨part, partStores, partExact, partClean, lists⟩
      have absent : (map.list i).key ∉ part := by
        intro present
        rcases Finmap.mem_iff.mp present with ⟨value, found⟩
        rcases (lists _ _).mp found with ⟨slot, below, other⟩
        have same := stores.unique (map.list i).key slot i (by omega) inside
          ((holds_iff_node _ _ _).mpr ⟨value, other⟩) ⟨occupied, rfl⟩
        omega
      rcases fresh part _ _ table table' partStores absent inner with ⟨after, sized, clean⟩
      exact ⟨_, after, sized partExact, clean partClean, lists.occupied occupied absent⟩)
    (by
      intro i table before vacant
      rcases before with ⟨part, partStores, partExact, partClean, lists⟩
      exact ⟨part, partStores, partExact, partClean, lists.vacant vacant⟩)
    (Nat.zero_add _)
    (by
      rcases fresh_table_stores bound with ⟨emptyStores, emptyExact, emptyClean⟩
      exact ⟨∅, emptyStores, emptyExact, emptyClean, lists_first_zero map.list⟩)
    call
  rcases rebuilt with ⟨part, partStores, partExact, partClean, lists⟩
  have whole : part = contents := by
    apply Finmap.ext_lookup
    intro key
    apply Option.ext
    intro value
    rw [lists, stores.listed]
  rw [whole] at partStores
  exact ⟨partStores, partExact, partClean⟩

theorem insert_nested_fresh (depth : Nat) : InsertsFresh (insertNested depth) := by
  induction depth with
  | zero =>
      intro contents key value map map' _ _ call
      exact absurd call (by simp [insertNested])
  | succ depth induction =>
      intro contents key value map map' stores absent call
      rw [insertNested] at call
      rcases Option.bind_eq_some_iff.mp call with ⟨grown, first, placing⟩
      have wide : Stores contents grown ∧ (Exact map → Exact grown) ∧
          (Untombed map → Untombed grown) := by
        split_ifs at first with grow
        · rcases rehash_stores induction stores grow.1 first with ⟨rebuilt, sized, clean⟩
          exact ⟨rebuilt, fun _ => sized, fun _ => clean⟩
        · cases first
          exact ⟨stores, fun before => before, fun before => before⟩
      rcases wide with ⟨wideStores, wideExact, wideClean⟩
      rcases place_key_placed wideStores.probing.positive placing with ⟨slot, placed⟩
      refine ⟨?_, ?_, ?_⟩
      · exact placed_stores placed wideStores (no_tombstone_of_absent wideStores absent)
      · intro before
        exact placed_exact placed wideStores absent (wideExact before)
      · intro before
        exact placed_untombed placed (wideClean before)

theorem map_insert_fresh : InsertsFresh mapInsert := insert_nested_fresh 28

/-- Any key may be inserted when the table grows first or no tombstone comes
before the key. -/
theorem map_insert_stores {contents : Contents} {map map' : HashMap} {key value : Nat}
    (stores : Stores contents map) (clear : GrowTest map ∨ NoTombstoneBefore map key)
    (call : mapInsert key value map = some map') : Stores (contents.insert key value) map' := by
  rw [map_insert_eq] at call
  rcases Option.bind_eq_some_iff.mp call with ⟨grown, first, placing⟩
  have wide : Stores contents grown ∧ NoTombstoneBefore grown key := by
    split_ifs at first with grow
    · rcases rehash_stores map_insert_fresh stores grow.1 first with ⟨rebuilt, _, clean⟩
      exact ⟨rebuilt, clean.no_tombstone rebuilt.probing.positive key⟩
    · cases first
      rcases clear with impossible | clear
      · exact absurd impossible grow
      · exact ⟨stores, clear⟩
  rcases place_key_placed wide.1.probing.positive placing with ⟨slot, placed⟩
  exact placed_stores placed wide.1 wide.2

theorem map_delete_stores {contents : Contents} {map map' : HashMap} {key : Nat}
    (stores : Stores contents map) (call : mapDelete key map = some map') :
    Stores (contents.erase key) map' ∧ (Exact map → Exact map') := by
  rcases Option.bind_eq_some_iff.mp call with ⟨shrunk, first, dropping⟩
  split_ifs at first with shrink
  · have bound := stores.probing.level
    rcases rehash_stores map_insert_fresh stores (by omega) first with ⟨rebuilt, sized, _⟩
    rcases drop_key_stores rebuilt dropping with ⟨after, kept⟩
    exact ⟨after, fun _ => kept sized⟩
  · cases first
    exact drop_key_stores stores dropping

/-! ## What a client sees -/

section Client

variable {contents : Contents} {map : HashMap}

theorem Stores.find (stores : Stores contents map) {key old : Nat} {answer : Nat × Nat}
    (call : mapFind key old map = some answer) :
    answer = match contents.lookup key with
      | some value => (1, value)
      | none => (0, old) := by
  rcases Option.map_eq_some_iff.mp call with ⟨index, found, result⟩
  cases index with
  | none =>
      have absent : contents.lookup key = none := by
        rw [Finmap.lookup_eq_none, stores.mem_iff]
        intro somewhere
        rcases somewhere with ⟨slot, inside, holds⟩
        exact find_index_absent stores.probing found inside holds
      rw [absent, ← result]
  | some slot =>
      rcases find_index_present stores.probing.positive found with ⟨inside, holds⟩
      rcases (holds_iff_node _ _ _).mp holds with ⟨value, node⟩
      rw [(stores.listed key value).mpr ⟨slot, inside, node⟩, ← result]
      dsimp only
      rw [node]

/-- The keys in the occupied slots. -/
def storedKeys (map : HashMap) : Finset Nat :=
  (occupiedSlots map).image fun slot => (map.list slot).key

theorem Stores.keys (stores : Stores contents map) : contents.keys = storedKeys map := by
  ext key
  rw [Finmap.mem_keys, stores.mem_iff]
  simp only [storedKeys, Finset.mem_image, mem_occupied_slots, Holds, and_assoc]

theorem unique_keys_iff_card (map : HashMap) :
    UniqueKeys map ↔ (storedKeys map).card = (occupiedSlots map).card := by
  rw [storedKeys, Finset.card_image_iff]
  constructor
  · intro unique left leftMember right rightMember same
    rw [Finset.mem_coe, mem_occupied_slots] at leftMember rightMember
    exact unique _ left right leftMember.1 rightMember.1 ⟨leftMember.2, rfl⟩
      ⟨rightMember.2, same.symm⟩
  · intro injective key slot other slotInside otherInside holds holds'
    apply injective
    · rw [Finset.mem_coe, mem_occupied_slots]
      exact ⟨slotInside, holds.1⟩
    · rw [Finset.mem_coe, mem_occupied_slots]
      exact ⟨otherInside, holds'.1⟩
    · exact holds.2.trans holds'.2.symm

theorem Stores.card (stores : Stores contents map) :
    contents.keys.card = (occupiedSlots map).card := by
  rw [stores.keys]
  exact (unique_keys_iff_card map).mp stores.unique

theorem Stores.size (stores : Stores contents map) (exact_size : Exact map) :
    map.size = contents.keys.card :=
  exact_size.trans stores.card.symm

end Client

end ChaoOS.HashMapContents
