import Mathlib.Algebra.Ring.Nat

/-!
# Words in a memory of bytes

Words of 32 bits are stored at any address, least significant byte first. A
load reads four bytes; what a store does not cover it leaves.
-/

namespace ChaoOS.ByteMemory

set_option autoImplicit false

abbrev Word := BitVec 32

abbrev Memory := Nat → BitVec 8

def load (memory : Memory) (address : Nat) : Word :=
  memory (address + 3) ++ memory (address + 2) ++ memory (address + 1) ++ memory address

def store (memory : Memory) (address : Nat) (value : Word) : Memory := fun place =>
  if address ≤ place ∧ place < address + 4 then value.extractLsb' (8 * (place - address)) 8
  else memory place

/-- Two stretches of memory have no byte in common. -/
def RangesApart (start size other length : Nat) : Prop :=
  start + size ≤ other ∨ other + length ≤ start

instance (start size other length : Nat) : Decidable (RangesApart start size other length) :=
  inferInstanceAs (Decidable (_ ∨ _))

variable {memory memory' : Memory} {address other : Nat} {value : Word}

theorem store_inside {offset : Nat} (inside : offset < 4) :
    store memory address value (address + offset) = value.extractLsb' (8 * offset) 8 := by
  rw [store, if_pos ⟨by omega, by omega⟩, Nat.add_sub_cancel_left]

theorem store_outside {place : Nat} (outside : place < address ∨ address + 4 ≤ place) :
    store memory address value place = memory place := by
  rw [store, if_neg (by omega)]

theorem load_congr
    (same : ∀ place, address ≤ place → place < address + 4 → memory' place = memory place) :
    load memory' address = load memory address := by
  rw [load, load, same address (by omega) (by omega), same (address + 1) (by omega) (by omega),
    same (address + 2) (by omega) (by omega), same (address + 3) (by omega) (by omega)]

@[simp] theorem load_store_same : load (store memory address value) address = value := by
  have first : store memory address value address = value.extractLsb' 0 8 :=
    store_inside (show 0 < 4 by decide)
  rw [load, store_inside (by decide), store_inside (by decide), store_inside (by decide), first]
  apply BitVec.eq_of_getLsbD_eq
  intro bit small
  simp only [BitVec.getLsbD_append, BitVec.getLsbD_extractLsb']
  split_ifs <;> grind

theorem load_store_apart (apart : RangesApart address 4 other 4) :
    load (store memory address value) other = load memory other := by
  apply load_congr
  intro place lower upper
  unfold RangesApart at apart
  exact store_outside (by omega)

end ChaoOS.ByteMemory
