import Mathlib.Data.Nat.Bitwise

/-!
# Unsigned 32-bit words and `kernel/math.c`

Words are natural numbers below `2 ^ 32`; sums, differences and products wrap. The
loop of `power_of_2` shifts its argument until the low bit is set, so it ends
within 32 rounds on every nonzero word and never ends on zero.
-/

namespace ChaoOS.KernelMath

set_option autoImplicit false

def wordSize : Nat := 2 ^ 32

def add32 (left right : Nat) : Nat := (left + right) % wordSize

def sub32 (left right : Nat) : Nat := (left + (wordSize - right % wordSize)) % wordSize

def mul32 (left right : Nat) : Nat := left * right % wordSize

/-- `-1` as a word, the holder of a free lock of `kernel/sync.h`. -/
def noHolder : Nat := wordSize - 1

theorem add32_of_lt {left right : Nat} (small : left + right < wordSize) :
    add32 left right = left + right :=
  Nat.mod_eq_of_lt small

theorem sub32_of_le {left right : Nat} (word : left < wordSize) (ordered : right ≤ left) :
    sub32 left right = left - right := by
  have rightWord : right % wordSize = right := Nat.mod_eq_of_lt (by omega)
  rw [sub32, rightWord]
  have shifted : left + (wordSize - right) = (left - right) + wordSize := by omega
  rw [shifted, Nat.add_mod_right, Nat.mod_eq_of_lt (by omega)]

/-- Subtracting the base undoes an addition to it, wrapped or not. -/
theorem sub32_add32_cancel {base offset : Nat} (small : offset < wordSize) :
    sub32 (add32 base offset) base = offset := by
  have positive : 0 < wordSize := by decide
  have baseBound := Nat.mod_lt base positive
  unfold sub32 add32
  rw [Nat.add_mod, Nat.mod_mod, ← Nat.add_mod]
  have split := Nat.mod_add_div base wordSize
  have total : base + offset + (wordSize - base % wordSize) =
      offset + wordSize * (base / wordSize + 1) := by
    rw [Nat.mul_add, Nat.mul_one]
    omega
  rw [total, Nat.add_mul_mod_self_left, Nat.mod_eq_of_lt small]

/-! ## `math.c` -/

def isPowerOf2 (n : Nat) : Bool := (sub32 n 1 &&& n) == 0 && n != 0

def smear (n shift : Nat) : Nat := n ||| (n >>> shift)

def nextPowerOf2 (n : Nat) : Nat :=
  if isPowerOf2 n then n
  else add32 (smear (smear (smear (smear (smear n 1) 2) 4) 8) 16) 1

def powerOf2Loop : Nat → Nat → Nat → Option Nat
  | 0, _, _ => none
  | fuel + 1, n, i => if n &&& 1 = 0 then powerOf2Loop fuel (n >>> 1) (i + 1) else some i

/-- `none` stands for a call that does not return. -/
def powerOf2 (n : Nat) : Option Nat := powerOf2Loop 32 n 0

theorem power_of_2_loop_zero (fuel i : Nat) : powerOf2Loop fuel 0 i = none := by
  induction fuel generalizing i with
  | zero => rfl
  | succ fuel induction => simp [powerOf2Loop, induction]

theorem power_of_2_loop_ends (width n i : Nat) (bound : n < 2 ^ width) (positive : 0 < n) :
    ∃ result, powerOf2Loop width n i = some result := by
  induction width generalizing n i with
  | zero => omega
  | succ width induction =>
      by_cases even : n &&& 1 = 0
      · have half : n >>> 1 = n / 2 := by simp [Nat.shiftRight_eq_div_pow]
        have parity : n % 2 = 0 := by simpa [Nat.and_one_is_mod] using even
        obtain ⟨result, ends⟩ := induction (n >>> 1) (i + 1) (by rw [half]; rw [pow_succ] at bound; omega)
          (by rw [half]; omega)
        exact ⟨result, by simp only [powerOf2Loop, if_pos even, ends]⟩
      · exact ⟨i, by simp only [powerOf2Loop, if_neg even]⟩

/-- The fuel is exact: `power_of_2` returns on a word exactly when it is nonzero. -/
theorem power_of_2_returns_iff (n : Nat) (word : n < wordSize) :
    (∃ result, powerOf2 n = some result) ↔ n ≠ 0 := by
  constructor
  · rintro ⟨result, ends⟩ rfl
    rw [powerOf2, power_of_2_loop_zero] at ends
    cases ends
  · intro nonzero
    exact power_of_2_loop_ends 32 n 0 word (Nat.pos_of_ne_zero nonzero)

end ChaoOS.KernelMath
