import Mathlib.Data.Nat.Bitwise
import Mathlib.Tactic.Ring

/-!
# Tilings of an initial segment by aligned power-of-two blocks

A block is a start and a level; it covers `2 ^ level` consecutive places and
starts at a multiple of its size. A tiling of `[0, size)` is a relation between
starts and levels whose blocks are disjoint and leave no gap. Splitting a block
and merging two buddies keep a tiling. A tiling in which no two buddies below
the top level are both present is determined by `size` alone.
-/

namespace ChaoOS.DyadicTiling

set_option autoImplicit false

/-- The other half of the block one level up. -/
def buddy (index level : Nat) : Nat := index ^^^ (1 <<< level)

structure Tiling (size : Nat) (tile : Nat → Nat → Prop) : Prop where
  aligned : ∀ {index level}, tile index level → 2 ^ level ∣ index
  inside : ∀ {index level}, tile index level → index + 2 ^ level ≤ size
  apart : ∀ {index level other height}, tile index level → tile other height →
    (index = other ∧ level = height) ∨ index + 2 ^ level ≤ other ∨ other + 2 ^ height ≤ index
  covers : ∀ {page}, page < size → ∃ index level, tile index level ∧
    index ≤ page ∧ page < index + 2 ^ level

/-! ## Buddies -/

theorem buddy_mul (factor level : Nat) : buddy (2 ^ level * factor) level =
    2 ^ level * (factor ^^^ 1) := by
  have shifted := Nat.shiftLeft_xor_distrib (a := factor) (b := 1) (i := level)
  simpa [buddy, Nat.shiftLeft_eq, Nat.mul_comm] using shifted.symm

theorem buddy_of_parent_aligned {index level : Nat} (aligned : 2 ^ (level + 1) ∣ index) :
    buddy index level = index + 2 ^ level := by
  obtain ⟨factor, rfl⟩ := aligned
  have even : Even (2 * factor) := even_two_mul factor
  rw [pow_succ, Nat.mul_assoc, buddy_mul, Nat.xor_one_of_even even]
  ring

theorem buddy_of_parent_unaligned {index level : Nat} (aligned : 2 ^ level ∣ index)
    (unaligned : ¬2 ^ (level + 1) ∣ index) :
    buddy index level + 2 ^ level = index ∧ 2 ^ (level + 1) ∣ buddy index level := by
  obtain ⟨factor, rfl⟩ := aligned
  have odd : Odd factor := by
    rw [← Nat.not_even_iff_odd]
    intro even
    obtain ⟨half, rfl⟩ := even.two_dvd
    exact unaligned ⟨half, by rw [pow_succ, Nat.mul_assoc]⟩
  rw [buddy_mul, Nat.xor_one_of_odd odd]
  obtain ⟨half, rfl⟩ := odd
  rw [Nat.add_sub_cancel]
  refine ⟨by ring, half, by rw [pow_succ, Nat.mul_assoc]⟩

theorem buddy_buddy (index level : Nat) : buddy (buddy index level) level = index := by
  simp [buddy]

theorem buddy_ne (index level : Nat) : buddy index level ≠ index := by
  intro same
  have bit := congrArg (fun value => value.testBit level) same
  simp [buddy] at bit

theorem buddy_aligned {index level : Nat} (aligned : 2 ^ level ∣ index) :
    2 ^ level ∣ buddy index level := by
  obtain ⟨factor, rfl⟩ := aligned
  exact ⟨factor ^^^ 1, buddy_mul factor level⟩

/-- The lower of two buddies starts their common parent and the other one is
its upper half. -/
theorem buddy_pair {index level : Nat} (aligned : 2 ^ level ∣ index) :
    2 ^ (level + 1) ∣ min index (buddy index level) ∧
      max index (buddy index level) = min index (buddy index level) + 2 ^ level := by
  have positive : 0 < 2 ^ level := Nat.two_pow_pos level
  by_cases parent : 2 ^ (level + 1) ∣ index
  · have upper := buddy_of_parent_aligned parent
    rw [upper, Nat.min_eq_left (by omega), Nat.max_eq_right (by omega)]
    exact ⟨parent, rfl⟩
  · obtain ⟨lower, lowerAligned⟩ := buddy_of_parent_unaligned aligned parent
    rw [Nat.min_eq_right (by omega), Nat.max_eq_left (by omega)]
    exact ⟨lowerAligned, lower.symm⟩

theorem buddy_le {index level : Nat} (aligned : 2 ^ level ∣ index) :
    buddy index level ≤ index + 2 ^ level := by
  by_cases parent : 2 ^ (level + 1) ∣ index
  · exact (buddy_of_parent_aligned parent).le
  · obtain ⟨lower, -⟩ := buddy_of_parent_unaligned aligned parent
    omega

theorem upper_half_quotient (factor level : Nat) :
    (2 ^ (level + 1) * factor + 2 ^ level) / 2 ^ (level + 1) = factor := by
  have positive : 0 < 2 ^ level := Nat.two_pow_pos level
  have small : 2 ^ level < 2 ^ (level + 1) := Nat.pow_lt_pow_right (by omega) (by omega)
  rw [Nat.mul_add_div (Nat.two_pow_pos _), Nat.div_eq_of_lt small, Nat.add_zero]

theorem buddy_parent {index level : Nat} (aligned : 2 ^ level ∣ index) :
    buddy index level / 2 ^ (level + 1) = index / 2 ^ (level + 1) := by
  by_cases parent : 2 ^ (level + 1) ∣ index
  · rw [buddy_of_parent_aligned parent]
    obtain ⟨factor, rfl⟩ := parent
    rw [upper_half_quotient, Nat.mul_div_cancel_left _ (Nat.two_pow_pos _)]
  · obtain ⟨lower, factor, start⟩ := buddy_of_parent_unaligned aligned parent
    have upper : index = 2 ^ (level + 1) * factor + 2 ^ level := by rw [← start, lower]
    rw [start, upper, upper_half_quotient, Nat.mul_div_cancel_left _ (Nat.two_pow_pos _)]

/-! ## Blocks as quotients -/

/-- An aligned block holds the places with its own quotient. -/
theorem mem_block_iff {index level page : Nat} (aligned : 2 ^ level ∣ index) :
    (index ≤ page ∧ page < index + 2 ^ level) ↔ page / 2 ^ level = index / 2 ^ level := by
  have positive : 0 < 2 ^ level := Nat.two_pow_pos level
  obtain ⟨factor, rfl⟩ := aligned
  rw [Nat.mul_div_cancel_left _ positive, Nat.div_eq_iff positive, Nat.mul_comm factor]
  omega

theorem div_pow_eq_of_le {level height left right : Nat} (higher : level ≤ height)
    (same : left / 2 ^ level = right / 2 ^ level) : left / 2 ^ height = right / 2 ^ height := by
  have power : 2 ^ height = 2 ^ level * 2 ^ (height - level) := by
    rw [← pow_add, Nat.add_sub_cancel' higher]
  rw [power, ← Nat.div_div_eq_div_mul, ← Nat.div_div_eq_div_mul, same]

theorem parent_end_of_aligned {index level height : Nat} (aligned : 2 ^ height ∣ index)
    (lower : level ≤ height) : (index / 2 ^ level + 1) * 2 ^ level = index + 2 ^ level := by
  have divides : 2 ^ level ∣ index := (pow_dvd_pow 2 lower).trans aligned
  rw [Nat.add_mul, Nat.div_mul_cancel divides, Nat.one_mul]

/-- The start of the block of a given level that holds `index`. -/
def enclosing (index level : Nat) : Nat := index / 2 ^ level * 2 ^ level

theorem enclosing_aligned (index level : Nat) : 2 ^ level ∣ enclosing index level :=
  Nat.dvd_mul_left _ _

theorem enclosing_of_aligned {index level : Nat} (aligned : 2 ^ level ∣ index) :
    enclosing index level = index :=
  Nat.div_mul_cancel aligned

/-- The lower of an enclosing block and its buddy is the enclosing block one level up. -/
theorem enclosing_succ (index level : Nat) :
    min (enclosing index level) (buddy (enclosing index level) level) =
      enclosing index (level + 1) := by
  have aligned := enclosing_aligned index level
  have pair := buddy_pair aligned
  have own : enclosing index level / 2 ^ (level + 1) = index / 2 ^ (level + 1) := by
    rw [enclosing, pow_succ, ← Nat.div_div_eq_div_mul, ← Nat.div_div_eq_div_mul,
      Nat.mul_div_cancel _ (Nat.two_pow_pos level)]
  have parent : min (enclosing index level) (buddy (enclosing index level) level) /
      2 ^ (level + 1) = index / 2 ^ (level + 1) := by
    rcases Nat.le_total (enclosing index level) (buddy (enclosing index level) level) with low | low
    · rw [Nat.min_eq_left low, own]
    · rw [Nat.min_eq_right low, buddy_parent aligned, own]
  rw [← Nat.div_mul_cancel pair.1, parent, enclosing]

section Tilings

variable {size : Nat} {tile : Nat → Nat → Prop}

theorem Tiling.congr {other : Nat → Nat → Prop} (tiling : Tiling size tile)
    (same : ∀ index level, other index level ↔ tile index level) : Tiling size other := by
  have equal : other = tile := by
    funext index level
    exact propext (same index level)
  rw [equal]
  exact tiling

/-- Two tiles that share a place are one tile. -/
theorem Tiling.same_of_page (tiling : Tiling size tile) {index level other height page : Nat}
    (left : tile index level) (right : tile other height)
    (inLeft : index ≤ page ∧ page < index + 2 ^ level)
    (inRight : other ≤ page ∧ page < other + 2 ^ height) : index = other ∧ level = height := by
  rcases tiling.apart left right with same | before | after
  · exact same
  · omega
  · omega

theorem Tiling.start_lt (tiling : Tiling size tile) {index level : Nat}
    (member : tile index level) : index < size := by
  have inside := tiling.inside member
  have positive : 0 < 2 ^ level := Nat.two_pow_pos level
  omega

/-- No tile starts strictly inside another one. -/
theorem Tiling.start_unique (tiling : Tiling size tile) {index level other height : Nat}
    (left : tile index level) (right : tile other height)
    (within : index ≤ other ∧ other < index + 2 ^ level) : index = other ∧ level = height := by
  have positive : 0 < 2 ^ height := Nat.two_pow_pos height
  exact tiling.same_of_page left right within ⟨le_refl _, by omega⟩

theorem Tiling.split (tiling : Tiling size tile) {index level : Nat}
    (member : tile index (level + 1)) :
    Tiling size fun other height => (tile other height ∧ ¬(other = index ∧ height = level + 1)) ∨
      (other = index ∧ height = level) ∨ (other = index + 2 ^ level ∧ height = level) := by
  have positive : 0 < 2 ^ level := Nat.two_pow_pos level
  have power : 2 ^ (level + 1) = 2 ^ level + 2 ^ level := Nat.two_pow_succ level
  have aligned := tiling.aligned member
  have inside := tiling.inside member
  have half : 2 ^ level ∣ index := (pow_dvd_pow 2 (Nat.le_succ level)).trans aligned
  have outside : ∀ {other height}, tile other height → ¬(other = index ∧ height = level + 1) →
      other + 2 ^ height ≤ index ∨ index + 2 ^ (level + 1) ≤ other := by
    intro other height right different
    rcases tiling.apart member right with ⟨rfl, rfl⟩ | before | after
    · exact absurd ⟨rfl, rfl⟩ different
    · exact Or.inr before
    · exact Or.inl after
  constructor
  · rintro other height (⟨right, -⟩ | ⟨rfl, rfl⟩ | ⟨rfl, rfl⟩)
    · exact tiling.aligned right
    · exact half
    · exact Nat.dvd_add half dvd_rfl
  · rintro other height (⟨right, -⟩ | ⟨rfl, rfl⟩ | ⟨rfl, rfl⟩)
    · exact tiling.inside right
    · omega
    · omega
  · rintro left low right high (⟨leftTile, leftNe⟩ | ⟨rfl, rfl⟩ | ⟨rfl, rfl⟩)
      (⟨rightTile, rightNe⟩ | ⟨rfl, rfl⟩ | ⟨rfl, rfl⟩)
    · exact tiling.apart leftTile rightTile
    · have := outside leftTile leftNe
      omega
    · have := outside leftTile leftNe
      omega
    · have := outside rightTile rightNe
      omega
    · exact Or.inl ⟨rfl, rfl⟩
    · omega
    · have := outside rightTile rightNe
      omega
    · omega
    · exact Or.inl ⟨rfl, rfl⟩
  · intro page bound
    obtain ⟨other, height, right, low, high⟩ := tiling.covers bound
    by_cases here : other = index ∧ height = level + 1
    · obtain ⟨rfl, rfl⟩ := here
      by_cases upper : other + 2 ^ level ≤ page
      · exact ⟨other + 2 ^ level, level, Or.inr (Or.inr ⟨rfl, rfl⟩), upper, by omega⟩
      · exact ⟨other, level, Or.inr (Or.inl ⟨rfl, rfl⟩), low, by omega⟩
    · exact ⟨other, height, Or.inl ⟨right, here⟩, low, high⟩

theorem Tiling.merge (tiling : Tiling size tile) {index level : Nat}
    (aligned : 2 ^ (level + 1) ∣ index) (lower : tile index level)
    (upper : tile (index + 2 ^ level) level) :
    Tiling size fun other height => (tile other height ∧ ¬(other = index ∧ height = level) ∧
      ¬(other = index + 2 ^ level ∧ height = level)) ∨ (other = index ∧ height = level + 1) := by
  have power : 2 ^ (level + 1) = 2 ^ level + 2 ^ level := Nat.two_pow_succ level
  have inside := tiling.inside upper
  have outside : ∀ {other height}, tile other height → ¬(other = index ∧ height = level) →
      ¬(other = index + 2 ^ level ∧ height = level) →
      other + 2 ^ height ≤ index ∨ index + 2 ^ (level + 1) ≤ other := by
    intro other height right notLower notUpper
    have positive : 0 < 2 ^ height := Nat.two_pow_pos height
    rcases tiling.apart lower right with ⟨rfl, rfl⟩ | before | after
    · exact absurd ⟨rfl, rfl⟩ notLower
    · rcases tiling.apart upper right with ⟨rfl, rfl⟩ | later | earlier
      · exact absurd ⟨rfl, rfl⟩ notUpper
      · omega
      · omega
    · exact Or.inl after
  constructor
  · rintro other height (⟨right, -⟩ | ⟨rfl, rfl⟩)
    · exact tiling.aligned right
    · exact aligned
  · rintro other height (⟨right, -⟩ | ⟨rfl, rfl⟩)
    · exact tiling.inside right
    · omega
  · rintro left low right high (⟨leftTile, leftLower, leftUpper⟩ | ⟨rfl, rfl⟩)
      (⟨rightTile, rightLower, rightUpper⟩ | ⟨rfl, rfl⟩)
    · exact tiling.apart leftTile rightTile
    · have := outside leftTile leftLower leftUpper
      omega
    · have := outside rightTile rightLower rightUpper
      omega
    · exact Or.inl ⟨rfl, rfl⟩
  · intro page bound
    obtain ⟨other, height, right, low, high⟩ := tiling.covers bound
    by_cases isLower : other = index ∧ height = level
    · obtain ⟨rfl, rfl⟩ := isLower
      exact ⟨other, height + 1, Or.inr ⟨rfl, rfl⟩, low, by omega⟩
    · by_cases isUpper : other = index + 2 ^ level ∧ height = level
      · obtain ⟨rfl, rfl⟩ := isUpper
        exact ⟨index, height + 1, Or.inr ⟨rfl, rfl⟩, by omega, by omega⟩
      · exact ⟨other, height, Or.inl ⟨right, isLower, isUpper⟩, low, high⟩

theorem tiling_zero : Tiling 0 fun _ _ => False := by
  constructor
  · intro _ _ member
    exact member.elim
  · intro _ _ member
    exact member.elim
  · intro _ _ _ _ member
    exact member.elim
  · intro _ bound
    exact absurd bound (Nat.not_lt_zero _)

/-- A tiling grows by a block that starts where it ends. -/
theorem Tiling.extend (tiling : Tiling size tile) {level : Nat} (aligned : 2 ^ level ∣ size) :
    Tiling (size + 2 ^ level) fun other height => tile other height ∨
      (other = size ∧ height = level) := by
  constructor
  · intro other height member
    rcases member with member | ⟨start, same⟩
    · exact tiling.aligned member
    · rw [start, same]
      exact aligned
  · intro other height member
    rcases member with member | ⟨start, same⟩
    · have inside := tiling.inside member
      omega
    · rw [start, same]
  · intro left low right high leftTile rightTile
    rcases leftTile with leftTile | ⟨leftStart, leftLevel⟩
    · rcases rightTile with rightTile | ⟨rightStart, rightLevel⟩
      · exact tiling.apart leftTile rightTile
      · have inside := tiling.inside leftTile
        omega
    · rcases rightTile with rightTile | ⟨rightStart, rightLevel⟩
      · have inside := tiling.inside rightTile
        omega
      · omega
  · intro page bound
    by_cases before : page < size
    · rcases tiling.covers before with ⟨other, height, member, within⟩
      exact ⟨other, height, Or.inl member, within⟩
    · exact ⟨size, level, Or.inr ⟨rfl, rfl⟩, by omega, bound⟩

/-! ## Tilings without buddy pairs -/

/-- A block inside the segment that no larger aligned block of the segment contains. -/
def Maximal (size top index level : Nat) : Prop :=
  level ≤ top ∧ 2 ^ level ∣ index ∧ index + 2 ^ level ≤ size ∧
    (level < top → size < (index / 2 ^ (level + 1) + 1) * 2 ^ (level + 1))

/-- If the parent of a tile fitted, the buddy's place would be tiled by smaller
blocks, and the parent of one of those fits as well. -/
theorem Tiling.parent_overflows {top : Nat} (tiling : Tiling size tile)
    (single : ∀ index level, level < top → tile index level → ¬tile (buddy index level) level)
    (level : Nat) : ∀ index, level < top → tile index level →
      size < (index / 2 ^ (level + 1) + 1) * 2 ^ (level + 1) := by
  induction level using Nat.strong_induction_on with
  | _ level induction =>
    intro index below member
    by_contra fits
    rw [Nat.not_lt] at fits
    have aligned := tiling.aligned member
    have sameParent := buddy_parent aligned
    have otherAligned := buddy_aligned aligned
    have power : 2 ^ (level + 1) = 2 ^ level + 2 ^ level := Nat.two_pow_succ level
    have otherFits : buddy index level + 2 ^ level ≤ size := by
      have pair := buddy_pair aligned
      have start := parent_end_of_aligned pair.1 (le_refl _)
      have parent : min index (buddy index level) / 2 ^ (level + 1) = index / 2 ^ (level + 1) := by
        rcases Nat.le_total index (buddy index level) with low | low
        · rw [Nat.min_eq_left low]
        · rw [Nat.min_eq_right low, sameParent]
      rw [parent] at start
      have upper := Nat.le_max_right index (buddy index level)
      omega
    have positive : 0 < 2 ^ level := Nat.two_pow_pos level
    obtain ⟨other, height, otherTile, within⟩ := tiling.covers
      (show buddy index level < size by omega)
    have otherTileAligned := tiling.aligned otherTile
    have quotient := (mem_block_iff otherTileAligned).mp within
    rcases Nat.lt_trichotomy height level with smaller | same | larger
    · have next : buddy index level / 2 ^ (height + 1) = other / 2 ^ (height + 1) :=
        div_pow_eq_of_le (Nat.le_succ height) quotient
      have overflow := induction height smaller other (by omega) otherTile
      rw [← next, parent_end_of_aligned otherAligned (by omega)] at overflow
      have step : 2 ^ (height + 1) ≤ 2 ^ level := Nat.pow_le_pow_right (by omega) smaller
      omega
    · subst same
      have start : other = buddy index height := by
        rw [← Nat.div_mul_cancel otherTileAligned, ← Nat.div_mul_cancel otherAligned, quotient]
      exact single index height below member (start ▸ otherTile)
    · have shared : index / 2 ^ height = other / 2 ^ height := by
        rw [← quotient]
        exact div_pow_eq_of_le larger sameParent.symm
      have within := (mem_block_iff otherTileAligned).mpr shared
      have equal := tiling.start_unique otherTile member within
      omega

/-- With every level at most `top` and no buddy pair below `top`, the tiles
are the maximal blocks. -/
theorem Tiling.iff_maximal {top : Nat} (tiling : Tiling size tile)
    (levels : ∀ index level, tile index level → level ≤ top)
    (single : ∀ index level, level < top → tile index level → ¬tile (buddy index level) level)
    (index level : Nat) : tile index level ↔ Maximal size top index level := by
  constructor
  · intro member
    exact ⟨levels _ _ member, tiling.aligned member, tiling.inside member,
      fun below => tiling.parent_overflows single level index below member⟩
  · rintro ⟨bounded, aligned, fits, maximal⟩
    have positive : 0 < 2 ^ level := Nat.two_pow_pos level
    obtain ⟨other, height, otherTile, within⟩ := tiling.covers (show index < size by omega)
    have otherAligned := tiling.aligned otherTile
    have quotient := (mem_block_iff otherAligned).mp within
    rcases Nat.lt_trichotomy height level with smaller | same | larger
    · have overflow := tiling.parent_overflows single height other (by omega) otherTile
      rw [← div_pow_eq_of_le (Nat.le_succ height) quotient,
        parent_end_of_aligned aligned smaller] at overflow
      have step : 2 ^ (height + 1) ≤ 2 ^ level := Nat.pow_le_pow_right (by omega) smaller
      omega
    · subst same
      have start : other = index := by
        rw [← Nat.div_mul_cancel otherAligned, ← Nat.div_mul_cancel aligned, quotient]
      exact start ▸ otherTile
    · have overflow := maximal (lt_of_lt_of_le larger (levels _ _ otherTile))
      have otherFits := tiling.inside otherTile
      have step : 2 ^ (level + 1) ∣ other + 2 ^ height :=
        Nat.dvd_add ((pow_dvd_pow 2 larger).trans otherAligned) (pow_dvd_pow 2 larger)
      have parentFits : (index / 2 ^ (level + 1) + 1) * 2 ^ (level + 1) ≤ other + 2 ^ height := by
        rw [← Nat.div_mul_cancel step]
        apply Nat.mul_le_mul_right
        apply Nat.succ_le_of_lt
        rw [Nat.div_lt_iff_lt_mul (Nat.two_pow_pos _), Nat.div_mul_cancel step]
        exact within.2
      omega

end Tilings

end ChaoOS.DyadicTiling
