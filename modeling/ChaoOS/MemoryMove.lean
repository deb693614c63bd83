import ChaoOS.ByteMemory
import ChaoOS.KernelMath
import Mathlib.Logic.Function.Basic

/-!
# `memmove`

The two loops of `string/memmove.c` on a memory of bytes. Each copies a growing
interval of indices; a byte that is read has not been written before, because
the loops run away from the overlap.
-/

namespace ChaoOS.MemoryMove

open ChaoOS.ByteMemory (Memory)
open ChaoOS.KernelMath

set_option autoImplicit false

/-- `dst[i] = src[i]` -/
def moveByte (memory : Memory) (dst src i : Nat) : Memory :=
  Function.update memory (add32 dst i) (memory (add32 src i))

/-- `for (i = 0; i < size; i++)` -/
def moveUp (memory : Memory) (dst src : Nat) : Nat → Memory
  | 0 => memory
  | i + 1 => moveByte (moveUp memory dst src i) dst src i

/-- `for (i = size; i != 0; i--)` -/
def moveDown (dst src : Nat) : Nat → Memory → Memory
  | 0, memory => memory
  | i + 1, memory => moveDown dst src i (moveByte memory dst src i)

/-- The answer carries the memory and the returned pointer. -/
def memmove (memory : Memory) (dstptr srcptr size : Nat) : Memory × Nat :=
  if dstptr < srcptr then (moveUp memory dstptr srcptr size, dstptr)
  else (moveDown dstptr srcptr size memory, dstptr)

/-- The indices from `low` to `high` have been copied from `old`, and nothing else
has changed. -/
structure Moved (old memory : Memory) (dst src low high : Nat) : Prop where
  copied : ∀ i, low ≤ i → i < high → memory (dst + i) = old (src + i)
  frame : ∀ place, (∀ i, low ≤ i → i < high → place ≠ dst + i) → memory place = old place

section Loops

variable {old memory : Memory} {dst src size low high i : Nat}

theorem moved_none (old : Memory) (dst src i : Nat) : Moved old old dst src i i where
  copied := fun _ lower upper => absurd lower (Nat.not_le_of_lt upper)
  frame := fun _ _ => rfl

/-- A byte next to the interval is copied as long as it has not been written. -/
theorem Moved.byte {low' high' : Nat} (moved : Moved old memory dst src low high)
    (dstFits : dst + i < wordSize) (srcFits : src + i < wordSize)
    (unread : ∀ j, low ≤ j → j < high → src + i ≠ dst + j)
    (grown : ∀ j, low' ≤ j ∧ j < high' ↔ j = i ∨ low ≤ j ∧ j < high) :
    Moved old (moveByte memory dst src i) dst src low' high' := by
  have source : memory (src + i) = old (src + i) := moved.frame _ unread
  rw [moveByte, add32_of_lt dstFits, add32_of_lt srcFits, source]
  constructor
  · intro j lower upper
    by_cases here : j = i
    · rw [here, Function.update_self]
    · rw [Function.update_of_ne (by omega)]
      have inside := ((grown j).mp ⟨lower, upper⟩).resolve_left here
      exact moved.copied j inside.1 inside.2
  · intro place outside
    have notHere : place ≠ dst + i := by
      have inside := (grown i).mpr (Or.inl rfl)
      exact outside i inside.1 inside.2
    rw [Function.update_of_ne notHere]
    apply moved.frame
    intro j lower upper
    have inside := (grown j).mpr (Or.inr ⟨lower, upper⟩)
    exact outside j inside.1 inside.2

/-- Upwards, the bytes written are below those still to be read. -/
theorem move_up_moved (memory : Memory) (ordered : dst < src) (dstFits : dst + size ≤ wordSize)
    (srcFits : src + size ≤ wordSize) : Moved memory (moveUp memory dst src size) dst src 0 size := by
  induction size with
  | zero => exact moved_none memory dst src 0
  | succ i induction =>
      have before := induction (by omega) (by omega)
      rw [moveUp]
      apply before.byte (by omega) (by omega)
      · intro j _ earlier
        omega
      · intro j
        omega

/-- Downwards, they are above. -/
theorem move_down_moved (ordered : src ≤ dst) (dstFits : dst + size ≤ wordSize)
    (srcFits : src + size ≤ wordSize) (bound : i ≤ size)
    (moved : Moved old memory dst src i size) : Moved old (moveDown dst src i memory) dst src 0 size := by
  induction i generalizing memory with
  | zero => exact moved
  | succ i induction =>
      rw [moveDown]
      apply induction (by omega)
      apply moved.byte (by omega) (by omega)
      · intro j later _
        omega
      · intro j
        omega

theorem memmove_moved (memory : Memory) (dstFits : dst + size ≤ wordSize)
    (srcFits : src + size ≤ wordSize) :
    Moved memory (memmove memory dst src size).1 dst src 0 size := by
  unfold memmove
  split_ifs with ordered
  · exact move_up_moved memory ordered dstFits srcFits
  · exact move_down_moved (Nat.le_of_not_lt ordered) dstFits srcFits le_rfl
      (moved_none memory dst src size)

/-- Every byte of the destination is the old byte of the source, and no other byte
changes, however the two ranges overlap. -/
theorem memmove_exact (memory : Memory) (dstFits : dst + size ≤ wordSize)
    (srcFits : src + size ≤ wordSize) :
    (∀ i, i < size → (memmove memory dst src size).1 (dst + i) = memory (src + i)) ∧
      (∀ place, place < dst ∨ dst + size ≤ place →
        (memmove memory dst src size).1 place = memory place) ∧
      (memmove memory dst src size).2 = dst := by
  have moved := memmove_moved memory dstFits srcFits
  refine ⟨?_, ?_, ?_⟩
  · intro i inside
    exact moved.copied i (Nat.zero_le i) inside
  · intro place outside
    apply moved.frame
    intro i _ inside
    omega
  · unfold memmove
    split_ifs
    · rfl
    · rfl

end Loops

/-- The bytes of four addresses, moved by one place upwards over themselves. -/
theorem memmove_exact_sample :
    (memmove (fun place => BitVec.ofNat 8 place) 0x1001 0x1000 4).1 0x1004 = 0x03 := by
  obtain ⟨copied, -, -⟩ := memmove_exact (fun place => BitVec.ofNat 8 place)
    (show 0x1001 + 4 ≤ wordSize by decide) (show 0x1000 + 4 ≤ wordSize by decide)
  exact copied 3 (by decide)

end ChaoOS.MemoryMove
