import ChaoOS.KernelMath

/-!
# The hash map of `kernel/klib/map.c`

Open addressing with quadratic probing and tombstones. The node array is a
function of its slot numbers; allocating and freeing it always succeeds. Each
probing loop is unbounded in the source. Its counter is a 32-bit word, so the
slots it visits repeat after `2 ^ 32` rounds, and a loop that has not ended by
then never does: `none` stands for a call that does not return.
-/

namespace ChaoOS.HashMapModel

open ChaoOS.KernelMath

set_option autoImplicit false

inductive SlotStatus where
  | empty
  | occupied
  | deleted
  deriving DecidableEq, Repr

structure MapNode where
  key : Nat
  value : Nat
  status : SlotStatus
  deriving DecidableEq, Repr

structure HashMap where
  capacity : Nat
  capacityLevel : Nat
  size : Nat
  list : Nat → MapNode

def primes : List Nat :=
  [1, 2, 5, 7, 19, 41, 83, 167, 337, 677, 1361, 2729, 5449, 10909, 21841, 43669, 87359, 174761,
    349519, 699037, 1398091, 2796181, 5592373, 11184799, 22369601, 44739181, 89478457, 178956937,
    357913931]

def primeAt (level : Nat) : Nat := primes.getD level 0

/-- A node array after `memset` to zero. -/
def clearedList : Nat → MapNode := fun _ => ⟨0, 0, .empty⟩

def freshTable (level : Nat) : HashMap where
  capacity := primeAt level
  capacityLevel := level
  size := 0
  list := clearedList

def mapInit : HashMap := freshTable 3

/-! ## Probing -/

def probe (i : Nat) : Nat := mul32 i i

def hash (key : Nat) (map : HashMap) : Nat := key % map.capacity

/-- The slot `index % map->capacity` at a given `probe_level`. -/
def slotAt (map : HashMap) (key i : Nat) : Nat := add32 (hash key map) (probe i) % map.capacity

/-- The node the probe sequence of `key` meets at `probe_level`. -/
def nodeAt (map : HashMap) (key i : Nat) : MapNode := map.list (slotAt map key i)

def mapFindLoop (key : Nat) (map : HashMap) : Nat → Nat → Option (Option Nat)
  | 0, _ => none
  | fuel + 1, probeLevel =>
      let node := nodeAt map key probeLevel
      if node.status = .occupied ∨ node.status = .deleted then
        if node.key = key ∧ node.status = .occupied then some (some (slotAt map key probeLevel))
        else mapFindLoop key map fuel (probeLevel + 1)
      else some none

/-- `_map_find`; the answer `UINT32_MAX` is the inner `none`. -/
def mapFindIndex (key : Nat) (map : HashMap) : Option (Option Nat) :=
  mapFindLoop key map wordSize 0

/-- `value` is the word behind the pointer, before and after the call. -/
def mapFind (key value : Nat) (map : HashMap) : Option (Nat × Nat) :=
  (mapFindIndex key map).map fun index =>
    match index with
    | some index => (1, (map.list index).value)
    | none => (0, value)

def mapInsertLoop (key : Nat) (map : HashMap) : Nat → Nat → Option Nat
  | 0, _ => none
  | fuel + 1, probeLevel =>
      let node := nodeAt map key probeLevel
      if node.status = .occupied then
        if node.key = key then some (slotAt map key probeLevel)
        else mapInsertLoop key map fuel (probeLevel + 1)
      else some (slotAt map key probeLevel)

/-! ## Updates -/

def setNode (map : HashMap) (index : Nat) (node : MapNode) : Nat → MapNode := fun other =>
  if other = index then node else map.list other

/-- The second half of `map_insert`: probe for a slot and take it. -/
def placeKey (key value : Nat) (map : HashMap) : Option HashMap :=
  (mapInsertLoop key map wordSize 0).map fun index =>
    { map with
      list := setNode map index ⟨key, value, .occupied⟩
      size := add32 map.size 1 }

/-- The test of `map_insert`, on unsigned words. -/
def GrowTest (map : HashMap) : Prop :=
  map.capacityLevel < 27 ∧ mul32 (sub32 map.capacity map.size) 3 ≤ mul32 (4 - 3) map.size

/-- The test of `map_delete`, on unsigned words. -/
def ShrinkTest (map : HashMap) : Prop :=
  3 < map.capacityLevel ∧ mul32 (4 - 1) map.size ≤ mul32 (sub32 map.capacity map.size) 1

instance (map : HashMap) : Decidable (GrowTest map) :=
  inferInstanceAs (Decidable (_ ∧ _))

instance (map : HashMap) : Decidable (ShrinkTest map) :=
  inferInstanceAs (Decidable (_ ∧ _))

/-- The loop of `map_rehash` over the old array, for any insertion function. -/
def reinsert (insert : Nat → Nat → HashMap → Option HashMap) (old : Nat → MapNode) :
    Nat → Nat → HashMap → Option HashMap
  | 0, _, map => some map
  | count + 1, i, map =>
      if (old i).status = .occupied then
        (insert (old i).key (old i).value map).bind (reinsert insert old count (i + 1))
      else reinsert insert old count (i + 1) map

def rehashWith (insert : Nat → Nat → HashMap → Option HashMap) (map : HashMap)
    (newCapacityLevel : Nat) : Option HashMap :=
  reinsert insert map.list map.capacity 0 (freshTable newCapacityLevel)

/-- `map_insert` and `map_rehash` call each other. Each nested call works on a
table of a higher level and the test stops at level 27, so their nesting is
bounded by the levels left. -/
def insertNested : Nat → Nat → Nat → HashMap → Option HashMap
  | 0, _, _, _ => none
  | depth + 1, key, value, map =>
      (if GrowTest map then rehashWith (insertNested depth) map (map.capacityLevel + 1)
        else some map).bind (placeKey key value)

def mapInsert (key value : Nat) (map : HashMap) : Option HashMap :=
  insertNested 28 key value map

def mapRehash (map : HashMap) (newCapacityLevel : Nat) : Option HashMap :=
  rehashWith mapInsert map newCapacityLevel

/-- The second half of `map_delete`. -/
def dropKey (key : Nat) (map : HashMap) : Option HashMap :=
  (mapFindIndex key map).map fun index =>
    match index with
    | some index =>
        { map with
          list := setNode map index { map.list index with status := .deleted }
          size := sub32 map.size 1 }
    | none => map

def mapDelete (key : Nat) (map : HashMap) : Option HashMap :=
  (if ShrinkTest map then mapRehash map (map.capacityLevel - 1) else some map).bind (dropKey key)

end ChaoOS.HashMapModel
