import ChaoOS.DyadicTiling

/-!
# Buddy layouts

What a buddy allocator is for, with no table and no lists: a segment is tiled
by free and busy blocks, and no two buddies below the top level are both free.
Handing out, splitting, merging and giving back a block keep this. A layout
with nothing busy is the same whatever happened before.
-/

namespace ChaoOS.BuddyLayout

open ChaoOS.DyadicTiling

set_option autoImplicit false

abbrev Blocks := Nat → Nat → Prop

/-- The blocks that do not start at `index`. -/
def without (blocks : Blocks) (index : Nat) : Blocks :=
  fun other height => blocks other height ∧ other ≠ index

def withBlock (blocks : Blocks) (index level : Nat) : Blocks :=
  fun other height => blocks other height ∨ (other = index ∧ height = level)

structure Layout (size top : Nat) (free busy : Blocks) : Prop where
  tiling : Tiling size fun index level => free index level ∨ busy index level
  levels : ∀ index level, free index level ∨ busy index level → level ≤ top
  exclusive : ∀ index level, free index level → ¬busy index level
  single : ∀ index level, level < top → free index level → ¬free (buddy index level) level

section Steps

variable {size top : Nat} {free busy : Blocks}

/-- One start carries one block. -/
theorem Layout.level_unique (layout : Layout size top free busy) {index level height : Nat}
    (left : free index level ∨ busy index level) (right : free index height ∨ busy index height) :
    level = height := by
  have positive : 0 < 2 ^ level := Nat.two_pow_pos level
  exact (layout.tiling.start_unique left right ⟨le_refl _, by omega⟩).2

theorem Layout.not_busy (layout : Layout size top free busy) {index level height : Nat}
    (member : free index level) : ¬busy index height := by
  intro listed
  have same := layout.level_unique (Or.inl member) (Or.inr listed)
  exact layout.exclusive index level member (same ▸ listed)

theorem Layout.of_same_tiles {free' busy' : Blocks} (layout : Layout size top free busy)
    (same : ∀ index level, (free' index level ∨ busy' index level) ↔
      (free index level ∨ busy index level))
    (fewer : ∀ index level, free' index level → free index level)
    (exclusive : ∀ index level, free' index level → ¬busy' index level) :
    Layout size top free' busy' := by
  constructor
  · exact layout.tiling.congr same
  · intro index level member
    exact layout.levels index level ((same index level).mp member)
  · exact exclusive
  · intro index level below member other
    exact layout.single index level below (fewer _ _ member) (fewer _ _ other)

theorem Layout.hand_out (layout : Layout size top free busy) {index level : Nat}
    (member : free index level) :
    Layout size top (without free index) (withBlock busy index level) := by
  apply layout.of_same_tiles
  · intro other height
    rw [without, withBlock]
    constructor
    · intro tile
      rcases tile with ⟨listed, _⟩ | listed | ⟨sameIndex, sameLevel⟩
      · exact Or.inl listed
      · exact Or.inr listed
      · rw [sameIndex, sameLevel]
        exact Or.inl member
    · intro tile
      by_cases here : other = index
      · subst here
        exact Or.inr (Or.inr ⟨rfl, layout.level_unique tile (Or.inl member)⟩)
      · rcases tile with listed | listed
        · exact Or.inl ⟨listed, here⟩
        · exact Or.inr (Or.inl listed)
  · intro other height listed
    exact listed.1
  · intro other height listed tile
    rcases tile with busyTile | ⟨here, _⟩
    · exact layout.exclusive other height listed.1 busyTile
    · exact listed.2 here

theorem Layout.take_back (layout : Layout size top free busy) {index level : Nat}
    (member : busy index level) :
    Layout size top free (withBlock (without busy index) index level) := by
  apply layout.of_same_tiles
  · intro other height
    rw [withBlock, without]
    constructor
    · intro tile
      rcases tile with listed | ⟨listed, _⟩ | ⟨sameIndex, sameLevel⟩
      · exact Or.inl listed
      · exact Or.inr listed
      · rw [sameIndex, sameLevel]
        exact Or.inr member
    · intro tile
      by_cases here : other = index
      · subst here
        exact Or.inr (Or.inr ⟨rfl, layout.level_unique tile (Or.inr member)⟩)
      · rcases tile with listed | listed
        · exact Or.inl listed
        · exact Or.inr (Or.inl ⟨listed, here⟩)
  · intro other height listed
    exact listed
  · intro other height listed tile
    rcases tile with busyTile | ⟨here, sameLevel⟩
    · exact layout.exclusive other height listed busyTile.1
    · rw [here, sameLevel] at listed
      exact layout.exclusive index level listed member

/-- Splitting a busy block frees its upper half. `outside` says that the block
being split is not also one of the other busy blocks. -/
theorem Layout.split {index level : Nat}
    (layout : Layout size top free (withBlock busy index (level + 1)))
    (outside : ∀ height, ¬busy index height) :
    Layout size top (withBlock free (buddy index level) level) (withBlock busy index level) := by
  have whole : free index (level + 1) ∨ withBlock busy index (level + 1) index (level + 1) :=
    Or.inr (Or.inr ⟨rfl, rfl⟩)
  have upper := buddy_of_parent_aligned (layout.tiling.aligned whole)
  have positive : 0 < 2 ^ level := Nat.two_pow_pos level
  have notFree : ∀ height, ¬free index height := by
    intro height listed
    exact layout.not_busy listed (Or.inr ⟨rfl, rfl⟩)
  have upperNotBusy : ¬busy (buddy index level) level := by
    intro listed
    rw [upper] at listed
    have power : 2 ^ (level + 1) = 2 ^ level + 2 ^ level := Nat.two_pow_succ level
    have same := layout.tiling.start_unique whole (Or.inr (Or.inl listed)) (by omega)
    omega
  constructor
  · apply (layout.tiling.split whole).congr
    intro other height
    rw [withBlock, withBlock, withBlock, upper]
    constructor
    · intro tile
      rcases tile with (listed | here) | (listed | here)
      · refine Or.inl ⟨Or.inl listed, ?_⟩
        intro same
        exact notFree height (same.1 ▸ listed)
      · exact Or.inr (Or.inr here)
      · refine Or.inl ⟨Or.inr (Or.inl listed), ?_⟩
        intro same
        exact outside height (same.1 ▸ listed)
      · exact Or.inr (Or.inl here)
    · intro tile
      rcases tile with ⟨listed | listed | here, different⟩ | here | here
      · exact Or.inl (Or.inl listed)
      · exact Or.inr (Or.inl listed)
      · exact absurd here different
      · exact Or.inr (Or.inr here)
      · exact Or.inl (Or.inr here)
  · have wholeLevel := layout.levels _ _ whole
    intro other height tile
    rcases tile with (listed | here) | (listed | here)
    · exact layout.levels other height (Or.inl listed)
    · omega
    · exact layout.levels other height (Or.inr (Or.inl listed))
    · omega
  · intro other height freeTile busyTile
    rcases freeTile with listed | ⟨here, sameLevel⟩
    · rcases busyTile with busyListed | ⟨here, sameLevel⟩
      · exact layout.exclusive other height listed (Or.inl busyListed)
      · exact notFree height (here ▸ listed)
    · rcases busyTile with busyListed | ⟨there, _⟩
      · rw [here, sameLevel] at busyListed
        exact upperNotBusy busyListed
      · exact buddy_ne index level (here.symm.trans there)
  · intro other height below freeTile buddyTile
    rcases freeTile with listed | ⟨here, sameLevel⟩
    · rcases buddyTile with buddyListed | ⟨there, sameLevel⟩
      · exact layout.single other height below listed buddyListed
      · subst sameLevel
        have back := congrArg (fun start => buddy start height) there
        simp only [buddy_buddy] at back
        exact notFree height (back ▸ listed)
    · rcases buddyTile with buddyListed | ⟨there, _⟩
      · rw [here, sameLevel, buddy_buddy] at buddyListed
        exact notFree level buddyListed
      · exact buddy_ne other height (there.trans here.symm)

/-- A busy block and its free buddy become one busy block. -/
theorem Layout.merge {index level : Nat}
    (layout : Layout size top free (withBlock busy index level))
    (outside : ∀ height, ¬busy index height) (below : level < top)
    (member : free (buddy index level) level) :
    Layout size top (without free (buddy index level))
      (withBlock busy (min index (buddy index level)) (level + 1)) := by
  have own : free index level ∨ withBlock busy index level index level := Or.inr (Or.inr ⟨rfl, rfl⟩)
  have other : free (buddy index level) level ∨ withBlock busy index level (buddy index level) level :=
    Or.inl member
  have pair := buddy_pair (layout.tiling.aligned own)
  have merged : Tiling size fun start height =>
      ((free start height ∨ withBlock busy index level start height) ∧
        ¬(start = min index (buddy index level) ∧ height = level) ∧
        ¬(start = min index (buddy index level) + 2 ^ level ∧ height = level)) ∨
      (start = min index (buddy index level) ∧ height = level + 1) := by
    rcases Nat.le_total index (buddy index level) with low | low
    · rw [Nat.min_eq_left low, Nat.max_eq_right low] at pair
      rw [Nat.min_eq_left low]
      exact layout.tiling.merge pair.1 own (pair.2 ▸ other)
    · rw [Nat.min_eq_right low, Nat.max_eq_left low] at pair
      rw [Nat.min_eq_right low]
      exact layout.tiling.merge pair.1 other (pair.2 ▸ own)
  have removed : ∀ start height, (¬(start = min index (buddy index level) ∧ height = level) ∧
      ¬(start = min index (buddy index level) + 2 ^ level ∧ height = level)) ↔
      (¬(start = index ∧ height = level) ∧ ¬(start = buddy index level ∧ height = level)) := by
    intro start height
    rw [← pair.2]
    rcases Nat.le_total index (buddy index level) with low | low
    · rw [Nat.min_eq_left low, Nat.max_eq_right low]
    · rw [Nat.min_eq_right low, Nat.max_eq_left low]
      exact and_comm
  constructor
  · apply merged.congr
    intro start height
    rw [removed, without, withBlock, withBlock]
    constructor
    · intro tile
      rcases tile with ⟨listed, different⟩ | (listed | here)
      · refine Or.inl ⟨Or.inl listed, ?_, ?_⟩
        · intro same
          rw [same.1] at listed
          exact layout.not_busy listed (Or.inr ⟨rfl, rfl⟩)
        · intro same
          exact different same.1
      · refine Or.inl ⟨Or.inr (Or.inl listed), ?_, ?_⟩
        · intro same
          exact outside height (same.1 ▸ listed)
        · intro same
          rw [same.1] at listed
          exact layout.not_busy member (Or.inl listed)
      · exact Or.inr here
    · intro tile
      rcases tile with ⟨listed | listed | here, notOwn, notOther⟩ | here
      · refine Or.inl ⟨listed, ?_⟩
        intro same
        subst same
        exact notOther ⟨rfl, layout.level_unique (Or.inl listed) other⟩
      · exact Or.inr (Or.inl listed)
      · exact absurd here notOwn
      · exact Or.inr (Or.inr here)
  · intro start height tile
    rcases tile with listed | (listed | here)
    · exact layout.levels start height (Or.inl listed.1)
    · exact layout.levels start height (Or.inr (Or.inl listed))
    · omega
  · intro start height freeTile busyTile
    rcases busyTile with listed | ⟨here, _⟩
    · exact layout.exclusive start height freeTile.1 (Or.inl listed)
    · rcases Nat.le_total index (buddy index level) with low | low
      · rw [Nat.min_eq_left low] at here
        have listed := freeTile.1
        rw [here] at listed
        exact layout.not_busy listed (Or.inr ⟨rfl, rfl⟩)
      · rw [Nat.min_eq_right low] at here
        exact freeTile.2 here
  · intro start height under freeTile buddyTile
    exact layout.single start height under freeTile.1 buddyTile.1

/-- A busy block whose buddy is not free becomes a free block. -/
theorem Layout.give_back {index level : Nat}
    (layout : Layout size top free (withBlock busy index level))
    (outside : ∀ height, ¬busy index height)
    (alone : level < top → ¬free (buddy index level) level) :
    Layout size top (withBlock free index level) busy := by
  constructor
  · apply layout.tiling.congr
    intro start height
    rw [withBlock, withBlock]
    constructor
    · intro tile
      rcases tile with (listed | here) | listed
      · exact Or.inl listed
      · exact Or.inr (Or.inr here)
      · exact Or.inr (Or.inl listed)
    · intro tile
      rcases tile with listed | (listed | here)
      · exact Or.inl (Or.inl listed)
      · exact Or.inr listed
      · exact Or.inl (Or.inr here)
  · intro start height tile
    rcases tile with (listed | here) | listed
    · exact layout.levels start height (Or.inl listed)
    · exact layout.levels start height (Or.inr (Or.inr here))
    · exact layout.levels start height (Or.inr (Or.inl listed))
  · intro start height freeTile busyTile
    rcases freeTile with listed | ⟨here, _⟩
    · exact layout.exclusive start height listed (Or.inl busyTile)
    · exact outside height (here ▸ busyTile)
  · intro start height below freeTile buddyTile
    rcases freeTile with listed | ⟨here, sameLevel⟩
    · rcases buddyTile with buddyListed | ⟨there, sameLevel⟩
      · exact layout.single start height below listed buddyListed
      · subst sameLevel
        have back := congrArg (fun index => buddy index height) there
        simp only [buddy_buddy] at back
        exact alone below (back ▸ listed)
    · rcases buddyTile with buddyListed | ⟨there, _⟩
      · subst here
        subst sameLevel
        exact alone below buddyListed
      · exact buddy_ne start height (there.trans here.symm)

/-- With nothing busy the free blocks are determined by the segment. -/
theorem Layout.free_unique {free' : Blocks} (layout : Layout size top free fun _ _ => False)
    (layout' : Layout size top free' fun _ _ => False) (index level : Nat) :
    free index level ↔ free' index level := by
  have maximal : ∀ {blocks : Blocks}, Layout size top blocks (fun _ _ => False) →
      (blocks index level ↔ Maximal size top index level) := by
    intro blocks given
    have plain : Tiling size blocks := given.tiling.congr fun _ _ => by rw [or_false]
    apply plain.iff_maximal
    · intro start height listed
      exact given.levels start height (Or.inl listed)
    · exact given.single
  rw [maximal layout, maximal layout']

end Steps

end ChaoOS.BuddyLayout
