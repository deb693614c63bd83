import Mathlib.Data.Nat.Log
import ChaoOS.FrameTableGrants

/-!
# From sizes to levels

A request for bytes is rounded up to pages and a request for pages to a power of
two, whose exponent is the level asked for. `next_power_of_2` fills every bit
below the highest one by five shifts and adds one, which leaves the 32-bit range
above `2 ^ 31`; `power_of_2` then never returns.
-/

namespace ChaoOS.RequestSizing

open ChaoOS.KernelMath ChaoOS.FrameTableModel ChaoOS.FrameTableGrants

set_option autoImplicit false

/-! ## `next_power_of_2` -/

/-- Bit `i` is set when one of the `width` bits of `n` from `i` on is. -/
def SmearedBy (n width smeared : Nat) : Prop :=
  ∀ i, smeared.testBit i = true ↔ ∃ j, i ≤ j ∧ j < i + width ∧ n.testBit j = true

section Smearing

variable {n width smeared : Nat}

theorem smeared_by_one (n : Nat) : SmearedBy n 1 n := by
  intro i
  constructor
  · intro set
    exact ⟨i, Nat.le_refl i, Nat.lt_succ_self i, set⟩
  · rintro ⟨j, low, high, set⟩
    have same : i = j := by omega
    rw [same]
    exact set

/-- A shift by the width reached so far doubles it. -/
theorem SmearedBy.double (covers : SmearedBy n width smeared) :
    SmearedBy n (width + width) (smear smeared width) := by
  intro i
  rw [smear, Nat.testBit_or, Nat.testBit_shiftRight, Bool.or_eq_true, covers, covers]
  constructor
  · rintro (⟨j, low, high, set⟩ | ⟨j, low, high, set⟩)
    · exact ⟨j, low, by omega, set⟩
    · exact ⟨j, by omega, by omega, set⟩
  · rintro ⟨j, low, high, set⟩
    by_cases near : j < i + width
    · exact Or.inl ⟨j, low, near, set⟩
    · exact Or.inr ⟨j, by omega, by omega, set⟩

theorem smear_word (n : Nat) :
    SmearedBy n 32 (smear (smear (smear (smear (smear n 1) 2) 4) 8) 16) :=
  (smeared_by_one n).double.double.double.double.double

/-- All bits up to the highest one. -/
theorem smear_word_eq {n : Nat} (word : n < wordSize) (nonzero : n ≠ 0) :
    smear (smear (smear (smear (smear n 1) 2) 4) 8) 16 = 2 ^ (n.log2 + 1) - 1 := by
  have highest : n.log2 < 32 := (Nat.log2_lt nonzero).mpr word
  have above : n < 2 ^ (n.log2 + 1) := Nat.lt_log2_self
  apply Nat.eq_of_testBit_eq
  intro i
  rw [Nat.testBit_two_pow_sub_one, Bool.eq_iff_iff, smear_word n i, decide_eq_true_iff]
  constructor
  · rintro ⟨j, low, -, set⟩
    by_contra beyond
    have small : n < 2 ^ j :=
      Nat.lt_of_lt_of_le above (Nat.pow_le_pow_right (by decide) (by omega))
    rw [Nat.testBit_lt_two_pow small] at set
    exact absurd set (by decide)
  · intro within
    exact ⟨n.log2, by omega, by omega, Nat.testBit_log2 nonzero⟩

end Smearing

/-- `level` is the least exponent of a power of two that is not below `n`. -/
structure LeastExponent (n level : Nat) : Prop where
  covers : n ≤ 2 ^ level
  least : ∀ lower, lower < level → 2 ^ lower < n

theorem is_power_of_2_iff {n : Nat} (word : n < wordSize) :
    isPowerOf2 n = true ↔ ∃ k, n = 2 ^ k := by
  by_cases zero : n = 0
  · subst zero
    refine iff_of_false (by decide) ?_
    rintro ⟨k, power⟩
    exact absurd power.symm (Nat.two_pow_pos k).ne'
  · have predecessor : sub32 n 1 = n - 1 := sub32_of_le word (Nat.pos_of_ne_zero zero)
    have bits := Nat.and_sub_one_eq_zero_iff_isPowerOfTwo zero
    rw [isPowerOf2, predecessor, Nat.and_comm, Bool.and_eq_true, beq_iff_eq, bits]
    exact and_iff_left (bne_iff_ne.mpr zero)

theorem next_power_of_2_spec {n : Nat} (word : n < wordSize) :
    ∃ level, LeastExponent n level ∧ nextPowerOf2 n = 2 ^ level % wordSize := by
  by_cases zero : n = 0
  · subst zero
    exact ⟨0, ⟨by decide, fun lower below => absurd below (Nat.not_lt_zero lower)⟩, by decide⟩
  · have power := is_power_of_2_iff word
    rw [nextPowerOf2]
    split_ifs with isPower
    · obtain ⟨k, same⟩ := power.mp isPower
      refine ⟨k, ⟨Nat.le_of_eq same, ?_⟩, ?_⟩
      · intro lower below
        rw [same]
        exact Nat.pow_lt_pow_right (by decide) below
      · rw [← same, Nat.mod_eq_of_lt word]
    · have below : 2 ^ n.log2 ≤ n := Nat.log2_self_le zero
      have above : n < 2 ^ (n.log2 + 1) := Nat.lt_log2_self
      have between : 2 ^ n.log2 < n := by
        apply Nat.lt_of_le_of_ne below
        intro same
        exact isPower (power.mpr ⟨n.log2, same.symm⟩)
      refine ⟨n.log2 + 1, ⟨Nat.le_of_lt above, ?_⟩, ?_⟩
      · intro lower small
        exact Nat.lt_of_le_of_lt (Nat.pow_le_pow_right (by decide) (Nat.le_of_lt_succ small)) between
      · rw [smear_word_eq word zero, add32, Nat.sub_add_cancel (Nat.two_pow_pos _)]

/-! ## `power_of_2` -/

theorem power_of_2_loop_power (fuel level i : Nat) (enough : level < fuel) :
    powerOf2Loop fuel (2 ^ level) i = some (i + level) := by
  induction fuel generalizing level i with
  | zero => omega
  | succ fuel induction =>
      cases level with
      | zero => rfl
      | succ level =>
          have even : 2 ^ (level + 1) &&& 1 = 0 := by
            rw [Nat.and_one_is_mod, Nat.pow_succ, Nat.mul_mod_left]
          have half : 2 ^ (level + 1) >>> 1 = 2 ^ level := by
            rw [Nat.shiftRight_eq_div_pow, Nat.pow_succ, pow_one,
              Nat.mul_div_cancel _ (by decide)]
          rw [powerOf2Loop, if_pos even, half, induction level (i + 1) (by omega)]
          congr 1
          omega

/-- The level of a request for `n` pages, where the helpers return. -/
theorem level_of_pages {n : Nat} (word : n < wordSize) (half : n ≤ 2 ^ 31) :
    ∃ level, LeastExponent n level ∧ level < 32 ∧ powerOf2 (nextPowerOf2 n) = some level := by
  obtain ⟨level, exponent, rounded⟩ := next_power_of_2_spec word
  have small : level < 32 := by
    by_contra large
    exact absurd (exponent.least 31 (by omega)) (Nat.not_lt.mpr half)
  have power : 2 ^ level < wordSize := Nat.pow_lt_pow_right (by decide) small
  refine ⟨level, exponent, small, ?_⟩
  rw [rounded, Nat.mod_eq_of_lt power, powerOf2, power_of_2_loop_power 32 level 0 small,
    Nat.zero_add]

/-- Above half of the range the rounding ends at zero. -/
theorem level_of_pages_none {n : Nat} (word : n < wordSize) (above : 2 ^ 31 < n) :
    powerOf2 (nextPowerOf2 n) = none := by
  obtain ⟨level, exponent, rounded⟩ := next_power_of_2_spec word
  have last : level = 32 := by
    have covers := exponent.covers
    rcases Nat.lt_trichotomy level 32 with less | same | more
    · have below : 2 ^ level ≤ 2 ^ 31 := Nat.pow_le_pow_right (by decide) (by omega)
      omega
    · exact same
    · have beyond : 2 ^ 32 < n := exponent.least 32 more
      exact absurd beyond (Nat.not_lt.mpr (Nat.le_of_lt word))
  have wrapped : 2 ^ level % wordSize = 0 := by
    rw [last]
    decide
  rw [rounded, wrapped]
  exact power_of_2_loop_zero 32 0

/-- Beyond the top level there is no list to serve a request from. -/
theorem get_block_above {level : Nat} (high : buddyMaxLevel ≤ level) (mem : NormalMem) :
    buddySystemGetFramePageBlock level mem = (none, mem) := by
  apply get_block_exhausted
  intro height low below
  omega

/-! ## Requests for pages -/

/-- `frame_alloc` returns, and with null and an untouched zone for more than
1024 pages, exactly for counts up to `2 ^ 31`; for larger ones it never returns. -/
theorem frame_alloc_refuses_iff (n : Nat) (word : n < wordSize) (mem : NormalMem) :
    ((∃ answer, frameAlloc n mem = some answer) ∧
        (1024 < n → frameAlloc n mem = some (none, mem))) ↔ n ≤ 2 ^ 31 := by
  constructor
  · rintro ⟨⟨answer, returned⟩, -⟩
    by_contra above
    rw [frameAlloc, level_of_pages_none word (Nat.lt_of_not_le above)] at returned
    exact absurd returned (by simp)
  · intro half
    obtain ⟨level, exponent, -, asked⟩ := level_of_pages word half
    have call : frameAlloc n mem = some (buddySystemGetFramePageBlock level mem) := by
      rw [frameAlloc, asked]
      rfl
    refine ⟨⟨_, call⟩, ?_⟩
    intro large
    have high : buddyMaxLevel ≤ level := by
      by_contra low
      rw [buddyMaxLevel] at low
      have covers := exponent.covers
      have most : 2 ^ level ≤ 2 ^ 10 := Nat.pow_le_pow_right (by decide) (by omega)
      omega
    rw [call, get_block_above high]

theorem frame_alloc_refuses_sample :
    frameAlloc 1025 (initNormalMemZone 0x200000 1024) =
      some (none, initNormalMemZone 0x200000 1024) :=
  ((frame_alloc_refuses_iff 1025 (by decide) _).mpr (by decide)).2 (by decide)

/-- One page more than `2 ^ 31`: the count is rounded to zero, which has no
exponent. -/
theorem frame_alloc_never_returns :
    ¬∀ n, n < wordSize → ∀ mem, ∃ answer, frameAlloc n mem = some answer := by
  intro always
  obtain ⟨answer, returned⟩ :=
    always (2 ^ 31 + 1) (by decide) (initNormalMemZone 0x200000 1024)
  rw [frameAlloc, level_of_pages_none (by decide) (by decide)] at returned
  exact absurd returned (by simp)

/-! ## Requests for bytes -/

/-- Blocks of `level` are the smallest that hold `byteSize` bytes. -/
structure SmallestFit (byteSize level : Nat) : Prop where
  fits : byteSize ≤ pageFrameSize * 2 ^ level
  least : ∀ lower, lower < level → pageFrameSize * 2 ^ lower < byteSize

theorem page_count_le_iff (byteSize count : Nat) :
    pageCount byteSize ≤ count ↔ byteSize ≤ pageFrameSize * count := by
  unfold pageCount pageFrameSize
  split_ifs <;> omega

theorem LeastExponent.smallest_fit {byteSize level : Nat}
    (exponent : LeastExponent (pageCount byteSize) level) : SmallestFit byteSize level := by
  refine ⟨(page_count_le_iff _ _).mp exponent.covers, ?_⟩
  intro lower below
  have more := exponent.least lower below
  rw [← Nat.not_le, page_count_le_iff, Nat.not_le] at more
  exact more

theorem page_count_bound {byteSize : Nat} (word : byteSize < wordSize) :
    pageCount byteSize ≤ 2 ^ 20 := by
  rw [page_count_le_iff]
  exact Nat.le_of_lt word

/-- The block of a request is large enough for it. -/
theorem block_covers {byteSize : Nat} (word : byteSize < wordSize) :
    byteSize ≤ pageFrameSize * nextPowerOf2 (pageCount byteSize) := by
  have few := page_count_bound word
  obtain ⟨level, exponent, rounded⟩ := next_power_of_2_spec (Nat.lt_of_le_of_lt few (by decide))
  have small : level ≤ 20 := by
    by_contra large
    exact absurd (exponent.least 20 (Nat.lt_of_not_le large)) (Nat.not_lt.mpr few)
  have power : 2 ^ level ≤ 2 ^ 20 := Nat.pow_le_pow_right (by decide) small
  rw [rounded, Nat.mod_eq_of_lt (Nat.lt_of_le_of_lt power (by decide)), ← page_count_le_iff]
  exact exponent.covers

/-- Every request asks for the smallest sufficient level; what it is given in a
well-formed zone is a block of that level, and above 4 MiB it is given nothing. -/
theorem request_sizing_exact (byteSize : Nat) (word : byteSize < wordSize) :
    ∃ level, powerOf2 (nextPowerOf2 (pageCount byteSize)) = some level ∧
      SmallestFit byteSize level ∧
      ∀ mem, frameAlloc (pageCount byteSize) mem =
          some (buddySystemGetFramePageBlock level mem) ∧
        (Chained mem → physicAlloc byteSize mem = some (0, mem) ∨
          ∃ index mem', Served mem mem' level index ∧
            physicAlloc byteSize mem = some ((mem'.page index).physicAddr, mem'.read index)) ∧
        (2 ^ 22 < byteSize → physicAlloc byteSize mem = some (0, mem)) := by
  have few := page_count_bound word
  obtain ⟨level, exponent, -, asked⟩ :=
    level_of_pages (Nat.lt_of_le_of_lt few (by decide)) (few.trans (by decide))
  have fit := exponent.smallest_fit
  refine ⟨level, asked, fit, ?_⟩
  intro mem
  have frames : frameAlloc (pageCount byteSize) mem =
      some (buddySystemGetFramePageBlock level mem) := by
    rw [frameAlloc, asked]
    rfl
  refine ⟨frames, ?_, ?_⟩
  · intro chained
    rw [physicAlloc, frames]
    rcases get_block_contract chained level with ⟨-, call⟩ | ⟨-, index, mem', call, served⟩
    · rw [call]
      exact Or.inl rfl
    · rw [call]
      exact Or.inr ⟨index, mem', served, rfl⟩
  · intro large
    have high : buddyMaxLevel ≤ level := by
      by_contra low
      rw [buddyMaxLevel] at low
      have fits := fit.fits
      have most : 2 ^ level ≤ 2 ^ 10 := Nat.pow_le_pow_right (by decide) (by omega)
      rw [pageFrameSize] at fits
      omega
    rw [physicAlloc, frames, get_block_above high]
    rfl

/-- Three pages and a byte ask for four pages. -/
theorem request_sizing_sample : ∃ level, powerOf2 (nextPowerOf2 (pageCount 12289)) = some level ∧
    12289 ≤ pageFrameSize * 2 ^ level ∧ ∀ lower < level, pageFrameSize * 2 ^ lower < 12289 := by
  obtain ⟨level, asked, fit, -⟩ := request_sizing_exact 12289 (by decide)
  exact ⟨level, asked, fit.fits, fit.least⟩

end ChaoOS.RequestSizing
