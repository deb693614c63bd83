import Mathlib.Data.Finset.Card
import Mathlib.Data.Int.GCD
import Mathlib.Data.Int.ModEq
import Mathlib.Data.Nat.Prime.Basic
import Mathlib.Tactic.Ring

/-!
# Probing by squares modulo a prime

The probe sequence of a home slot adds the squares of 0, 1, 2, … to it. Modulo
a prime the first half of the sequence visits each of its slots once and
the second half visits them again in reverse, so it reaches just over half of
all slots: a set of slots can only block the sequence if it has that many of
them. Squares that wrap at the end of a word are no squares modulo the prime any
more, and a sequence that goes on to these visits every slot.
-/

namespace ChaoOS.SquareProbes

set_option autoImplicit false

variable {size home i j : Nat}

def squareSlot (size home i : Nat) : Nat := (home + i * i) % size

/-- The slots the first `size` probes visit. -/
def squareSlots (size home : Nat) : Finset Nat :=
  (Finset.range size).image (squareSlot size home)

theorem square_slot_mem (inside : i < size) : squareSlot size home i ∈ squareSlots size home :=
  Finset.mem_image_of_mem _ (Finset.mem_range.mpr inside)

/-- A counter and its negative visit the same slot. -/
theorem square_slot_reflect (bound : i ≤ size) :
    squareSlot size home (size - i) = squareSlot size home i := by
  obtain ⟨rest, rfl⟩ := Nat.exists_eq_add_of_le bound
  have cross : home + rest * rest + (i + rest) * i = home + i * i + (i + rest) * rest := by ring
  have same := congrArg (fun total => total % (i + rest)) cross
  simp only [Nat.add_mul_mod_self_left] at same
  rw [Nat.add_sub_cancel_left]
  exact same

/-- The first half of the counters visits every slot of the sequence. -/
theorem square_slots_half (positive : 0 < size) (home : Nat) :
    squareSlots size home = (Finset.range (size / 2 + 1)).image (squareSlot size home) := by
  ext slot
  simp only [squareSlots, Finset.mem_image, Finset.mem_range]
  constructor
  · rintro ⟨counter, inside, there⟩
    by_cases low : counter < size / 2 + 1
    · exact ⟨counter, low, there⟩
    · exact ⟨size - counter, by omega, (square_slot_reflect (by omega)).trans there⟩
  · rintro ⟨counter, low, there⟩
    exact ⟨counter, by omega, there⟩

/-- Two counters of the first half that visit one slot are one counter. -/
theorem square_slot_injective (prime : size.Prime) (ordered : i ≤ j)
    (half : j < size / 2 + 1) (same : squareSlot size home i = squareSlot size home j) :
    i = j := by
  obtain ⟨gap, rfl⟩ := Nat.exists_eq_add_of_le ordered
  have squares : (home + (i + gap) * (i + gap)) - (home + i * i) = gap * (i + i + gap) := by
    have split : home + (i + gap) * (i + gap) = home + i * i + gap * (i + i + gap) := by ring
    rw [split, Nat.add_sub_cancel_left]
  have divides : size ∣ gap * (i + i + gap) := by
    rw [← squares]
    have grown : i * i ≤ (i + gap) * (i + gap) := Nat.mul_le_mul ordered ordered
    exact (Nat.modEq_iff_dvd' (Nat.add_le_add_left grown home)).mp same
  by_contra different
  have positive := prime.pos
  rcases prime.dvd_mul.mp divides with first | second
  · have zero := Nat.eq_zero_of_dvd_of_lt first (by omega)
    omega
  · have zero := Nat.eq_zero_of_dvd_of_lt second (by omega)
    omega

/-- The first half of the sequence visits no slot twice. -/
theorem square_slot_inj_on (prime : size.Prime) (home : Nat) :
    Set.InjOn (squareSlot size home) (Set.Iio (size / 2 + 1)) := by
  intro left leftLow right rightLow same
  rcases Nat.le_total left right with ordered | ordered
  · exact square_slot_injective prime ordered rightLow same
  · exact (square_slot_injective prime ordered leftLow same.symm).symm

theorem square_slots_card (prime : size.Prime) (home : Nat) :
    (squareSlots size home).card = size / 2 + 1 := by
  rw [square_slots_half prime.pos, Finset.card_image_of_injOn, Finset.card_range]
  rw [Finset.coe_range]
  exact square_slot_inj_on prime home

/-- Fewer slots than half of the sequence visits leave one of its probes open. -/
theorem half_probes_open (prime : size.Prime) {blocked : Finset Nat}
    (fewer : blocked.card < size / 2 + 1) (home : Nat) :
    ∃ i, i < size / 2 + 1 ∧ squareSlot size home i ∉ blocked := by
  rw [← square_slots_card prime home] at fewer
  obtain ⟨slot, visited, openSlot⟩ := Finset.exists_mem_notMem_of_card_lt_card fewer
  rw [square_slots_half prime.pos] at visited
  obtain ⟨i, low, there⟩ := Finset.mem_image.mp visited
  exact ⟨i, Finset.mem_range.mp low, there ▸ openSlot⟩

/-- A set of slots leaves a probe open exactly when it has fewer of the visited
slots than there are. -/
theorem some_probe_open_iff (prime : size.Prime) (blocked : Finset Nat) :
    (∃ i, i < size ∧ squareSlot size home i ∉ blocked) ↔
      (blocked ∩ squareSlots size home).card < size / 2 + 1 := by
  rw [← square_slots_card prime home]
  constructor
  · rintro ⟨counter, inside, openSlot⟩
    apply Finset.card_lt_card
    refine ⟨Finset.inter_subset_right, ?_⟩
    intro covered
    exact openSlot (Finset.mem_inter.mp (covered (square_slot_mem inside))).1
  · intro fewer
    by_contra closed
    have covered : squareSlots size home ⊆ blocked ∩ squareSlots size home := by
      intro slot visited
      obtain ⟨counter, inside, there⟩ := Finset.mem_image.mp visited
      refine Finset.mem_inter.mpr ⟨?_, visited⟩
      by_contra outside
      exact closed ⟨counter, Finset.mem_range.mp inside, there ▸ outside⟩
    exact absurd (Finset.card_le_card covered) (Nat.not_le.mpr fewer)

/-! ## Squares of words -/

/-- An odd root modulo a power of two gives one modulo the next: the root itself,
or the root and half of the power. -/
theorem square_root_lift {number i k : Nat} (odd : i % 2 = 1)
    (root : i * i ≡ number [MOD 2 ^ (k + 3)]) :
    ∃ j, j % 2 = 1 ∧ j * j ≡ number [MOD 2 ^ (k + 4)] := by
  obtain ⟨gap, distance⟩ := (Nat.modEq_iff_dvd.mp root)
  push_cast at distance
  rcases Int.even_or_odd' gap with ⟨half, even | uneven⟩
  · refine ⟨i, odd, Nat.modEq_iff_dvd.mpr ⟨half, ?_⟩⟩
    push_cast
    rw [distance, even]
    ring
  · obtain ⟨root_half, split⟩ : ∃ rest, i = 2 * rest + 1 := ⟨i / 2, by omega⟩
    refine ⟨i + 2 ^ (k + 2), ?_, Nat.modEq_iff_dvd.mpr ⟨half - root_half - 2 ^ k, ?_⟩⟩
    · rw [pow_succ]
      omega
    · have number_eq : (number : Int) = i * i + 2 ^ (k + 3) * gap := by omega
      push_cast
      rw [number_eq, uneven, split]
      push_cast
      ring

/-- Every number that leaves 1 modulo 8 is a square modulo each power of two. -/
theorem square_of_one_mod_eight {number : Nat} (residue : number % 8 = 1) (k : Nat) :
    ∃ i, i % 2 = 1 ∧ i * i ≡ number [MOD 2 ^ (k + 3)] := by
  induction k with
  | zero => exact ⟨1, rfl, residue.symm⟩
  | succ k induction =>
      obtain ⟨i, odd, root⟩ := induction
      exact square_root_lift odd root

/-- With an odd number of slots, eight words for each of them and the squares taken
on words, the sequence visits every slot, and no sum wraps there. -/
theorem word_squares_cover {k slot : Nat} (odd : size % 2 = 1) (fits : 9 * size ≤ 2 ^ (k + 3))
    (atHome : home < size) (inside : slot < size) :
    ∃ i, home + i * i % 2 ^ (k + 3) < 2 ^ (k + 3) ∧
      (home + i * i % 2 ^ (k + 3)) % size = slot := by
  have coprime : Nat.Coprime 8 size := (Nat.coprime_two_left.mpr (Nat.odd_iff.mpr odd)).pow_left 3
  obtain ⟨b, below, reached⟩ := Nat.exists_mul_mod_eq_of_coprime
    (slot + (size - home) + (size - 1)) coprime (by omega)
  obtain ⟨i, -, root⟩ := square_of_one_mod_eight (show (8 * b + 1) % 8 = 1 by omega) k
  have square : i * i % 2 ^ (k + 3) = 8 * b + 1 := by
    rw [root]
    exact Nat.mod_eq_of_lt (by omega)
  refine ⟨i, by omega, ?_⟩
  have turns : home + 1 + (slot + (size - home) + (size - 1)) = slot + size * 2 := by omega
  have step : home + (8 * b + 1) ≡ slot + size * 2 [MOD size] := by
    rw [← turns, ← Nat.add_assoc, Nat.add_right_comm]
    exact Nat.ModEq.add_left _ reached
  rw [square, step, Nat.add_mul_mod_self_left, Nat.mod_eq_of_lt inside]

end ChaoOS.SquareProbes
