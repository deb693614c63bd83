import Mathlib.Data.Nat.Log
import Mathlib.Order.Interval.Set.Basic
import ChaoOS.BuddyLayout

/-!
# Packings of a segment by power-of-two blocks

A packing asks less of a family of blocks than a tiling does: the blocks lie in
`[0, size)` and no two share a place, but they may leave gaps and need not be
aligned. Descending from a block to its leftmost part of a lower level leaves
one sibling at each level in between; the part and its siblings fill the block
exactly.
-/

namespace ChaoOS.BlockPacking

open ChaoOS.BuddyLayout ChaoOS.DyadicTiling

set_option autoImplicit false

/-- The places a block covers. -/
def span (index level : Nat) : Set Nat := Set.Ico index (index + 2 ^ level)

def pages (blocks : Blocks) : Set Nat :=
  {page | ∃ index level, blocks index level ∧ page ∈ span index level}

structure Packing (size : Nat) (blocks : Blocks) : Prop where
  inside : ∀ {index level}, blocks index level → index + 2 ^ level ≤ size
  apart : ∀ {index level other height}, blocks index level → blocks other height →
    (index = other ∧ level = height) ∨ index + 2 ^ level ≤ other ∨ other + 2 ^ height ≤ index

/-- The blocks of either family. -/
def joined (left right : Blocks) : Blocks := fun index level => left index level ∨ right index level

section Packings

variable {size index level other height page : Nat} {blocks blocks' : Blocks}

theorem start_mem_span (index level : Nat) : index ∈ span index level := by
  have positive : 0 < 2 ^ level := Nat.two_pow_pos level
  exact ⟨le_refl _, by omega⟩

theorem pages_joined (left right : Blocks) :
    pages (joined left right) = pages left ∪ pages right := by
  ext page
  constructor
  · rintro ⟨index, level, listed | listed, covered⟩
    · exact Or.inl ⟨index, level, listed, covered⟩
    · exact Or.inr ⟨index, level, listed, covered⟩
  · rintro (⟨index, level, listed, covered⟩ | ⟨index, level, listed, covered⟩)
    · exact ⟨index, level, Or.inl listed, covered⟩
    · exact ⟨index, level, Or.inr listed, covered⟩

theorem pages_congr (same : ∀ index level, blocks' index level ↔ blocks index level) :
    pages blocks' = pages blocks := by
  ext page
  simp only [pages, Set.mem_ofPred_eq, same]

theorem Packing.mono (packing : Packing size blocks)
    (fewer : ∀ index level, blocks' index level → blocks index level) :
    Packing size blocks' :=
  ⟨fun listed => packing.inside (fewer _ _ listed),
    fun left right => packing.apart (fewer _ _ left) (fewer _ _ right)⟩

theorem Packing.same_of_page (packing : Packing size blocks) (left : blocks index level)
    (right : blocks other height) (inLeft : page ∈ span index level)
    (inRight : page ∈ span other height) : index = other ∧ level = height := by
  have leftBounds := Set.mem_Ico.mp inLeft
  have rightBounds := Set.mem_Ico.mp inRight
  rcases packing.apart left right with same | before | after
  · exact same
  · omega
  · omega

/-- No block starts inside another one. -/
theorem Packing.start_unique (packing : Packing size blocks) (left : blocks index level)
    (right : blocks other height) (within : other ∈ span index level) :
    index = other ∧ level = height :=
  packing.same_of_page left right within (start_mem_span other height)

theorem Packing.start_lt (packing : Packing size blocks) (listed : blocks index level) :
    index < size := by
  have inside := packing.inside listed
  have positive : 0 < 2 ^ level := Nat.two_pow_pos level
  omega

theorem Packing.pages_without (packing : Packing size blocks) (listed : blocks index level) :
    pages (without blocks index) = pages blocks \ span index level := by
  ext page
  constructor
  · rintro ⟨other, height, ⟨present, different⟩, covered⟩
    refine ⟨⟨other, height, present, covered⟩, ?_⟩
    intro own
    exact different (packing.same_of_page present listed covered own).1
  · rintro ⟨⟨other, height, present, covered⟩, outside⟩
    refine ⟨other, height, ⟨present, ?_⟩, covered⟩
    intro same
    subst same
    have equal := (packing.start_unique listed present (start_mem_span other level)).2
    exact outside (equal ▸ covered)

/-- A block may be replaced by a packing of the places it covers. -/
theorem Packing.replace (packing : Packing size blocks) (listed : blocks index level)
    {pieces : Blocks} (apart : Packing (index + 2 ^ level) pieces)
    (after : ∀ other height, pieces other height → index ≤ other) :
    Packing size (joined (without blocks index) pieces) := by
  have room := packing.inside listed
  have outside : ∀ {other height}, without blocks index other height →
      other + 2 ^ height ≤ index ∨ index + 2 ^ level ≤ other := by
    rintro other height ⟨present, different⟩
    rcases packing.apart present listed with same | before | behind
    · exact absurd same.1 different
    · exact Or.inl before
    · exact Or.inr behind
  constructor
  · rintro other height (old | piece)
    · exact packing.inside old.1
    · have inside := apart.inside piece
      omega
  · rintro other height another depth (old | piece) (old' | piece')
    · exact packing.apart old.1 old'.1
    · have inside := apart.inside piece'
      have start := after _ _ piece'
      have sides := outside old
      omega
    · have inside := apart.inside piece
      have start := after _ _ piece
      have sides := outside old'
      omega
    · exact apart.apart piece piece'

theorem pages_subset (packing : Packing size blocks) : pages blocks ⊆ Set.Iio size := by
  rintro page ⟨index, level, listed, covered⟩
  exact Nat.lt_of_lt_of_le covered.2 (packing.inside listed)

/-- When two families fill the segment, each covers what the other leaves. -/
theorem pages_complement {left right : Blocks} (packing : Packing size (joined left right))
    (covers : ∀ page < size, page ∈ pages (joined left right))
    (exclusive : ∀ index level, left index level → ¬right index level) :
    pages left = Set.Iio size \ pages right := by
  ext page
  constructor
  · rintro ⟨index, level, listed, covered⟩
    refine ⟨pages_subset packing ⟨index, level, Or.inl listed, covered⟩, ?_⟩
    rintro ⟨other, height, listed', covered'⟩
    have same := packing.same_of_page (Or.inl listed) (Or.inr listed') covered covered'
    exact exclusive index level listed (same.1 ▸ same.2 ▸ listed')
  · rintro ⟨inside, outside⟩
    have either := covers page inside
    rw [pages_joined] at either
    exact either.resolve_right outside

/-- A packing that leaves no gap and whose blocks are aligned is a tiling. -/
theorem Packing.tiling (packing : Packing size blocks)
    (aligned : ∀ index level, blocks index level → 2 ^ level ∣ index)
    (covers : ∀ page < size, page ∈ pages blocks) : Tiling size blocks := by
  refine ⟨fun listed => aligned _ _ listed, fun listed => packing.inside listed,
    fun left right => packing.apart left right, ?_⟩
  intro page inside
  obtain ⟨index, level, listed, covered⟩ := covers page inside
  exact ⟨index, level, listed, covered.1, covered.2⟩

theorem packing_of_tiling (tiling : Tiling size blocks) : Packing size blocks :=
  ⟨fun listed => tiling.inside listed, fun left right => tiling.apart left right⟩

theorem pages_of_tiling (tiling : Tiling size blocks) (inside : page < size) :
    page ∈ pages blocks := by
  obtain ⟨index, level, listed, low, high⟩ := tiling.covers inside
  exact ⟨index, level, listed, low, high⟩

end Packings

/-! ## Descending to a lower level -/

/-- The upper halves left behind on the way from `current` down to `level`. -/
def siblings (index level current : Nat) : Blocks :=
  fun other height => level ≤ height ∧ height < current ∧ other = index + 2 ^ height

section Descent

variable {index level current other height : Nat}

theorem two_pow_add_le (lower : level < current) : 2 ^ level + 2 ^ level ≤ 2 ^ current := by
  have power : 2 ^ (level + 1) = 2 ^ level + 2 ^ level := Nat.two_pow_succ level
  have grows : 2 ^ (level + 1) ≤ 2 ^ current := Nat.pow_le_pow_right (by decide) lower
  omega

theorem sibling_mem_span (sibling : siblings index level current other height) :
    other ∈ span index current := by
  obtain ⟨-, high, start⟩ := sibling
  have room := two_pow_add_le high
  have positive : 0 < 2 ^ height := Nat.two_pow_pos height
  exact ⟨by omega, by omega⟩

theorem sibling_ne_start (sibling : siblings index level current other height) :
    other ≠ index := by
  have positive : 0 < 2 ^ height := Nat.two_pow_pos height
  have start := sibling.2.2
  omega

theorem sibling_start_injective {depth : Nat} (same : index + 2 ^ height = index + 2 ^ depth) :
    height = depth :=
  Nat.pow_right_injective (le_refl 2) (Nat.add_left_cancel same)

theorem sibling_aligned (aligned : 2 ^ current ∣ index)
    (sibling : siblings index level current other height) : 2 ^ height ∣ other := by
  obtain ⟨-, high, start⟩ := sibling
  rw [start]
  exact Nat.dvd_add ((pow_dvd_pow 2 (Nat.le_of_lt high)).trans aligned) (dvd_refl _)

/-- The leftmost part of a block and its siblings keep apart. -/
theorem descent_packing (ordered : level ≤ current) :
    Packing (index + 2 ^ current) (withBlock (siblings index level current) index level) := by
  have lowest : 2 ^ level ≤ 2 ^ current := Nat.pow_le_pow_right (by decide) ordered
  constructor
  · rintro other height (⟨-, high, start⟩ | ⟨start, same⟩)
    · have room := two_pow_add_le high
      omega
    · rw [start, same]
      omega
  · rintro other height another depth (⟨low, high, start⟩ | ⟨start, same⟩)
      (⟨low', high', start'⟩ | ⟨start', same'⟩)
    · rcases Nat.lt_trichotomy height depth with less | equal | more
      · have room := two_pow_add_le less
        omega
      · subst equal
        exact Or.inl ⟨start.trans start'.symm, rfl⟩
      · have room := two_pow_add_le more
        omega
    · have below : 2 ^ level ≤ 2 ^ height := Nat.pow_le_pow_right (by decide) low
      rw [same']
      omega
    · have below : 2 ^ level ≤ 2 ^ depth := Nat.pow_le_pow_right (by decide) low'
      rw [same]
      omega
    · exact Or.inl ⟨start.trans start'.symm, same.trans same'.symm⟩

/-- The siblings fill what the leftmost part leaves of the block: a place at
distance `d` from the start lies in the sibling of level `log d`. -/
theorem sibling_pages :
    pages (siblings index level current) = span index current \ span index level := by
  ext page
  constructor
  · rintro ⟨other, height, ⟨low, high, start⟩, covered⟩
    obtain ⟨least, most⟩ := Set.mem_Ico.mp covered
    have room := two_pow_add_le high
    have below : 2 ^ level ≤ 2 ^ height := Nat.pow_le_pow_right (by decide) low
    refine ⟨Set.mem_Ico.mpr ⟨by omega, by omega⟩, ?_⟩
    intro own
    have bounds := Set.mem_Ico.mp own
    omega
  · rintro ⟨within, outside⟩
    obtain ⟨least, most⟩ := Set.mem_Ico.mp within
    have far : 2 ^ level ≤ page - index := by
      by_contra near
      exact outside (Set.mem_Ico.mpr ⟨least, by omega⟩)
    have positive : 0 < 2 ^ level := Nat.two_pow_pos level
    have lower := Nat.pow_log_le_self 2 (show page - index ≠ 0 by omega)
    have upper := Nat.lt_pow_succ_log_self (show 1 < 2 by decide) (page - index)
    have power := Nat.two_pow_succ (Nat.log 2 (page - index))
    refine ⟨index + 2 ^ Nat.log 2 (page - index), Nat.log 2 (page - index), ⟨?_, ?_, rfl⟩, ?_⟩
    · exact Nat.le_log_of_pow_le (by decide) far
    · exact Nat.log_lt_of_lt_pow (by omega) (by omega)
    · rw [Nat.succ_eq_add_one] at upper
      exact Set.mem_Ico.mpr ⟨by omega, by omega⟩

end Descent

end ChaoOS.BlockPacking
