import ChaoOS.FrameTableAlloc

/-!
# The zone that `init_normal_mem_zone` leaves

The placement loop walks up the table and puts down the largest block that
still fits, so it uses every level below the top at most once. `Placing` is the
loop invariant; at the end it gives a `Sound` zone with nothing allocated.
-/

namespace ChaoOS.FrameTableInit

open ChaoOS.KernelMath ChaoOS.IndexList ChaoOS.DyadicTiling ChaoOS.BuddyLayout
open ChaoOS.FrameTableModel ChaoOS.FrameTableReach ChaoOS.FrameTableBlocks ChaoOS.FrameTableAlloc

set_option autoImplicit false

def noBlocks : Blocks := fun _ _ => False

/-- The shrink loop stops at the largest block, of at most the current level,
that ends inside the table. -/
theorem shrink_block_spec (framesNumber i fuel level : Nat) (enough : level < fuel)
    (word : framesNumber < wordSize) (room : 2 ^ level ≤ framesNumber) (inside : i < framesNumber) :
    ∃ fitted, shrinkBlock framesNumber i fuel (2 ^ level) level = (2 ^ fitted, fitted) ∧
      fitted ≤ level ∧ i + 2 ^ fitted ≤ framesNumber ∧
      (fitted < level → framesNumber < i + 2 ^ (fitted + 1)) := by
  induction fuel generalizing level with
  | zero => omega
  | succ fuel induction =>
      rw [shrinkBlock, sub32_of_le word room]
      split_ifs with tooLarge
      · cases level with
        | zero =>
            rw [pow_zero] at tooLarge
            omega
        | succ level =>
            have power : 2 ^ (level + 1) = 2 ^ level + 2 ^ level := Nat.two_pow_succ level
            have half : 2 ^ (level + 1) / 2 = 2 ^ level := by omega
            rw [half, Nat.add_sub_cancel]
            rcases induction level (by omega) (by omega) with ⟨fitted, run, low, fits, next⟩
            refine ⟨fitted, run, by omega, fits, ?_⟩
            intro _
            by_cases same : fitted = level
            · rw [same]
              omega
            · exact next (by omega)
      · exact ⟨level, rfl, le_refl _, by omega, fun below => absurd below (lt_irrefl _)⟩

structure Placing (mem : NormalMem) (i level : Nat) (free : Blocks) : Prop where
  represents : Represents mem mem.framesNumber free noBlocks
  tiling : Tiling i free
  bounded : i ≤ mem.framesNumber
  levelBound : level ≤ buddyMaxLevel - 1
  aligned : 2 ^ level ∣ i
  levels : ∀ index height, free index height → height ≤ buddyMaxLevel - 1
  remaining : level = buddyMaxLevel - 1 ∨ mem.framesNumber < i + 2 ^ (level + 1)
  spent : ∀ index height, free index height → height < buddyMaxLevel - 1 →
    mem.framesNumber < i + 2 ^ height
  once : ∀ index other height, height < buddyMaxLevel - 1 → free index height →
    free other height → index = other
  fresh : ∀ index, index < mem.framesNumber → prevOf mem index ≠ mem.framesNumber →
    free index (buddyMaxLevel - 1)
  within : WithinTable mem

theorem cleared_zone_placing (memBase framesNumber : Nat) :
    Placing (clearedZone memBase framesNumber) 0 (buddyMaxLevel - 1) noBlocks := by
  have entry : ∀ index, index < framesNumber →
      (clearedZone memBase framesNumber).page index = initialFrame memBase framesNumber index := by
    intro index inside
    exact if_pos inside
  have noHead : ∀ flags, flags ≠ pageFrameAllocated → ∀ index level,
      ¬(index < framesNumber ∧ index ≠ framesNumber ∧
        ((clearedZone memBase framesNumber).page index).flags = flags ∧
        ((clearedZone memBase framesNumber).page index).level = level) := by
    rintro flags other index level ⟨inside, -, same, -⟩
    rw [entry index inside] at same
    exact other same.symm
  constructor
  · constructor
    · intro index level
      exact iff_of_false id (noHead pageFrameBlockHead (by decide) index level)
    · intro index level
      exact iff_of_false id
        (noHead (pageFrameAllocated + pageFrameBlockHead) (by decide) index level)
    · intro index inside _ _ _
      rw [entry index inside]
      exact ⟨rfl, rfl⟩
    · intro level _
      refine ⟨[], threaded_nil, ?_⟩
      intro index
      simp [noBlocks]
    · intro index inside
      rw [entry index inside]
      exact ⟨rfl, rfl⟩
  · exact tiling_zero
  · exact Nat.zero_le _
  · exact le_refl _
  · exact dvd_zero _
  · intro _ _ member
    exact member.elim
  · exact Or.inl rfl
  · intro _ _ member
    exact member.elim
  · intro _ _ _ _ member
    exact member.elim
  · intro index inside stale
    rw [prevOf, entry index inside] at stale
    exact absurd rfl stale
  · intro index touched
    exact (List.mem_range.mp (List.mem_reverse.mp touched)).le

theorem place_block_placing {mem : NormalMem} {i level fitted : Nat} {free : Blocks}
    (placing : Placing mem i level free) (lower : fitted ≤ level)
    (fits : i + 2 ^ fitted ≤ mem.framesNumber)
    (largest : fitted < level → mem.framesNumber < i + 2 ^ (fitted + 1)) :
    Placing (placeBlock mem i fitted) (i + 2 ^ fitted) fitted (withBlock free i fitted) := by
  have rep := placing.represents
  have positive : 0 < 2 ^ fitted := Nat.two_pow_pos fitted
  have power : 2 ^ (fitted + 1) = 2 ^ fitted + 2 ^ fitted := Nat.two_pow_succ fitted
  have levelBound : fitted ≤ buddyMaxLevel - 1 := le_trans lower placing.levelBound
  have bound : fitted < buddyMaxLevel := by
    rw [buddyMaxLevel] at levelBound ⊢
    omega
  have inside : i < mem.framesNumber := by omega
  have aligned : 2 ^ fitted ∣ i := (pow_dvd_pow 2 lower).trans placing.aligned
  have notFree : ∀ height, ¬free i height := by
    intro height member
    have start := placing.tiling.start_lt member
    omega
  have headFree : mem.freeLists fitted ≠ mem.framesNumber → free (mem.freeLists fitted) fitted :=
    fun nonempty => rep.head_free bound nonempty
  have distinct : mem.freeLists fitted ≠ i := by
    intro same
    have member := headFree (by omega)
    rw [same] at member
    exact notFree fitted member
  have pushed := place_block_pushed inside (fun nonempty => rep.free_lt (headFree nonempty)) distinct
  -- a block below the top level finds its list empty
  have emptyBelow : fitted < buddyMaxLevel - 1 → mem.freeLists fitted = mem.framesNumber := by
    intro below
    by_contra nonempty
    have room := placing.spent _ _ (headFree nonempty) below
    omega
  have afterNumber : mem.framesNumber < i + 2 ^ (fitted + 1) ∨ fitted = buddyMaxLevel - 1 := by
    by_cases shrunk : fitted < level
    · exact Or.inl (largest shrunk)
    · have same : fitted = level := by omega
      rcases placing.remaining with top | rest
      · exact Or.inr (same.trans top)
      · rw [same]
        exact Or.inl rest
  constructor
  · rw [pushed.sameNumber]
    apply rep.push pushed bound inside notFree
    · intro _ member
      exact member
    · exact Nat.ne_of_lt inside
    · intro _ _ _
      exact Iff.rfl
  · exact placing.tiling.extend aligned
  · rw [pushed.sameNumber]
    exact fits
  · exact levelBound
  · exact Nat.dvd_add aligned dvd_rfl
  · intro index height member
    rcases member with member | ⟨_, same⟩
    · exact placing.levels index height member
    · rw [same]
      exact levelBound
  · rw [pushed.sameNumber]
    rcases afterNumber with rest | top
    · exact Or.inr (by omega)
    · exact Or.inl top
  · intro index height member below
    rw [pushed.sameNumber]
    rcases member with member | ⟨_, same⟩
    · have rest := placing.spent index height member below
      omega
    · rw [same] at below ⊢
      rcases afterNumber with rest | top
      · omega
      · omega
  · intro index other height below left right
    rcases left with left | ⟨leftStart, leftLevel⟩
    · rcases right with right | ⟨rightStart, rightLevel⟩
      · exact placing.once index other height below left right
      · have rest := placing.spent index height left below
        rw [rightLevel] at rest
        omega
    · rcases right with right | ⟨rightStart, _⟩
      · have rest := placing.spent other height right below
        rw [leftLevel] at rest
        omega
      · exact leftStart.trans rightStart.symm
  · intro index indexInside stale
    rw [pushed.sameNumber] at indexInside stale
    by_cases isHead : index = mem.freeLists fitted
    · have top : fitted = buddyMaxLevel - 1 := by
        by_contra below
        have empty := emptyBelow (by omega)
        omega
      rw [isHead, ← top]
      exact Or.inl (headFree (by omega))
    · have kept : prevOf (placeBlock mem i fitted) index = prevOf mem index := by
        by_cases own : index = i
        · subst own
          simp [placeBlock, prevOf, inside, isHead]
        · exact pushed.samePrev index own isHead
      rw [kept] at stale
      exact Or.inl (placing.fresh index indexInside stale)
  · exact placing.within.reach pushed.sameNumber (place_block_reach inside (rep.head_le bound))

theorem place_blocks_placing (fuel : Nat) {mem : NormalMem} {i level : Nat} {free : Blocks}
    (placing : Placing mem i level free) (enough : mem.framesNumber ≤ i + fuel)
    (word : mem.framesNumber < wordSize) (room : 2 ^ (buddyMaxLevel - 1) ≤ mem.framesNumber) :
    ∃ level' free', Placing (placeBlocks fuel i (2 ^ level) level mem) mem.framesNumber level' free' ∧
      (placeBlocks fuel i (2 ^ level) level mem).framesNumber = mem.framesNumber ∧
      (placeBlocks fuel i (2 ^ level) level mem).base = mem.base := by
  induction fuel generalizing mem i level free with
  | zero =>
      have done : i = mem.framesNumber := by
        have bounded := placing.bounded
        omega
      subst done
      exact ⟨level, free, placing, rfl, rfl⟩
  | succ fuel induction =>
      rw [placeBlocks]
      by_cases inside : i < mem.framesNumber
      · rw [if_pos inside]
        have levelBound := placing.levelBound
        have levelRoom : 2 ^ level ≤ mem.framesNumber :=
          le_trans (Nat.pow_le_pow_right (by omega) levelBound) room
        have fuelLevel : level < buddyMaxLevel := by
          rw [buddyMaxLevel] at levelBound ⊢
          omega
        rcases shrink_block_spec mem.framesNumber i buddyMaxLevel level fuelLevel word levelRoom inside
          with ⟨fitted, run, lower, fits, largest⟩
        dsimp only
        rw [run]
        have positive : 0 < 2 ^ fitted := Nat.two_pow_pos fitted
        have next := place_block_placing placing lower fits largest
        have number : (placeBlock mem i fitted).framesNumber = mem.framesNumber := by
          simp [placeBlock]
        rcases induction next (by rw [number]; omega) (by rw [number]; exact word)
          (by rw [number]; exact room) with ⟨level', free', final, sameNumber, sameBase⟩
        rw [number] at final sameNumber
        refine ⟨level', free', final, sameNumber, ?_⟩
        rw [sameBase]
        simp [placeBlock]
      · rw [if_neg inside]
        have done : i = mem.framesNumber := by
          have bounded := placing.bounded
          omega
        subst done
        exact ⟨level, free, placing, rfl, rfl⟩

/-- The loop runs to the end of the table. -/
theorem init_zone_placing (memBase framesNumber : Nat) (room : 1024 ≤ framesNumber)
    (bound : framesNumber ≤ 2 ^ 20) :
    ∃ level free, Placing (initNormalMemZone memBase framesNumber) framesNumber level free ∧
      (initNormalMemZone memBase framesNumber).framesNumber = framesNumber ∧
      (initNormalMemZone memBase framesNumber).base = memBase := by
  have word : (clearedZone memBase framesNumber).framesNumber < wordSize := by
    change framesNumber < 2 ^ 32
    omega
  rcases place_blocks_placing framesNumber (cleared_zone_placing memBase framesNumber)
    (by change framesNumber ≤ 0 + framesNumber; omega) word room
    with ⟨level, free, placing, number, base⟩
  have start : initNormalMemZone memBase framesNumber =
      placeBlocks framesNumber 0 (2 ^ (buddyMaxLevel - 1)) (buddyMaxLevel - 1)
        (clearedZone memBase framesNumber) := by
    rw [initNormalMemZone, Nat.one_shiftLeft]
  rw [← start] at placing number base
  exact ⟨level, free, placing, number, base⟩

/-- The initialisation touches the entries of the table and the one behind it. -/
theorem init_zone_within (memBase framesNumber : Nat) (room : 1024 ≤ framesNumber)
    (bound : framesNumber ≤ 2 ^ 20) : WithinTable (initNormalMemZone memBase framesNumber) := by
  obtain ⟨level, free, placing, -⟩ := init_zone_placing memBase framesNumber room bound
  exact placing.within

/-- The initial zone: a sound table with nothing allocated, in which only blocks
of the top level have a back link other than the end mark. -/
theorem init_zone_sound (memBase framesNumber : Nat) (room : 1024 ≤ framesNumber)
    (bound : framesNumber ≤ 2 ^ 20) :
    ∃ free, Sound (initNormalMemZone memBase framesNumber) free noBlocks ∧
      (initNormalMemZone memBase framesNumber).framesNumber = framesNumber ∧
      (initNormalMemZone memBase framesNumber).base = memBase ∧
      ∀ index, index < framesNumber →
        prevOf (initNormalMemZone memBase framesNumber) index ≠ framesNumber →
        free index (buddyMaxLevel - 1) := by
  obtain ⟨level, free, placing, number, base⟩ := init_zone_placing memBase framesNumber room bound
  refine ⟨free, ⟨placing.represents, ?_⟩, number, base, ?_⟩
  · rw [number]
    constructor
    · apply placing.tiling.congr
      intro index height
      exact iff_of_eq (or_false _)
    · intro index height member
      rcases member with member | member
      · exact placing.levels index height member
      · exact member.elim
    · intro _ _ _ member
      exact member
    · intro index height below left right
      have same := placing.once _ _ height below left right
      exact buddy_ne index height same.symm
  · intro index inside stale
    apply placing.fresh index
    · rw [number]
      exact inside
    · rw [number]
      exact stale

end ChaoOS.FrameTableInit
