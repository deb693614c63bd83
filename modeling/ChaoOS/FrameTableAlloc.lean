import ChaoOS.FrameTableBlocks
import ChaoOS.FrameTableReach

/-!
# Allocation refines handing out a block

`Sound` joins the table to a buddy layout between two calls, `Working` does so
while a call holds one block. The split loop keeps `Working` at every round, so
a successful allocation takes a `Sound` table to a `Sound` table with one more
allocated block, whatever state the back links of the first blocks are in.
-/

namespace ChaoOS.FrameTableAlloc

open ChaoOS.KernelMath ChaoOS.IndexList ChaoOS.DyadicTiling ChaoOS.BuddyLayout
open ChaoOS.FrameTableModel ChaoOS.FrameTableReach ChaoOS.FrameTableBlocks

set_option autoImplicit false

structure Sound (mem : NormalMem) (free taken : Blocks) : Prop where
  represents : Represents mem mem.framesNumber free taken
  layout : Layout mem.framesNumber (buddyMaxLevel - 1) free taken

structure Working (mem : NormalMem) (held level : Nat) (free taken : Blocks) : Prop where
  represents : Represents mem held free taken
  layout : Layout mem.framesNumber (buddyMaxLevel - 1) free (withBlock taken held level)

/-- The layout has no level that has no list. -/
theorem Sound.level_lt {mem : NormalMem} {free taken : Blocks} (sound : Sound mem free taken)
    {index level : Nat} (tile : free index level ∨ taken index level) : level < buddyMaxLevel := by
  have high := sound.layout.levels index level tile
  rw [buddyMaxLevel] at high ⊢
  omega

section Held

variable {mem : NormalMem} {held level : Nat} {free taken : Blocks}

theorem held_tile : free held level ∨ withBlock taken held level held level :=
  Or.inr (Or.inr ⟨rfl, rfl⟩)

theorem Working.held_lt (work : Working mem held level free taken) : held < mem.framesNumber :=
  work.layout.tiling.start_lt held_tile

theorem Working.level_le (work : Working mem held level free taken) : level ≤ buddyMaxLevel - 1 :=
  work.layout.levels held level held_tile

/-- The buddy of a held block starts at the end of the table at the latest. -/
theorem Working.buddy_le (work : Working mem held level free taken) :
    buddy held level ≤ mem.framesNumber :=
  (DyadicTiling.buddy_le (work.layout.tiling.aligned held_tile)).trans
    (work.layout.tiling.inside held_tile)

theorem Working.held_not_taken (work : Working mem held level free taken) (height : Nat) :
    ¬taken held height := by
  intro member
  exact ((work.represents.takenHead held height).mp member).2.1 rfl

theorem Working.held_not_free (work : Working mem held level free taken) (height : Nat) :
    ¬free held height := by
  intro member
  exact ((work.represents.freeHead held height).mp member).2.1 rfl

theorem Working.level_lt (work : Working mem held level free taken) : level < buddyMaxLevel := by
  have high := work.level_le
  rw [buddyMaxLevel] at high ⊢
  omega

theorem Working.head_inside (work : Working mem held level free taken)
    (nonempty : mem.freeLists level ≠ mem.framesNumber) :
    mem.freeLists level < mem.framesNumber :=
  work.represents.free_lt (work.represents.head_free work.level_lt nonempty)

theorem Working.head_not_held (work : Working mem held level free taken) :
    mem.freeLists level ≠ held := by
  intro same
  have nonempty : mem.freeLists level ≠ mem.framesNumber := by
    rw [same]
    exact Nat.ne_of_lt work.held_lt
  have member := work.represents.head_free work.level_lt nonempty
  rw [same] at member
  exact work.held_not_free level member

/-- A place in an allocated block is neither held nor the start of a free block. -/
theorem Working.outside_taken (work : Working mem held level free taken) {other height page : Nat}
    (member : taken other height) (covered : other ≤ page ∧ page < other + 2 ^ height) :
    (∀ depth, ¬free page depth) ∧ page ≠ held := by
  have tiling := work.layout.tiling
  have tile : free other height ∨ withBlock taken held level other height := Or.inr (Or.inl member)
  constructor
  · intro depth listed
    have same := tiling.start_unique tile (Or.inl listed) covered
    exact work.represents.not_both (same.1 ▸ listed) member
  · intro same
    have start := tiling.start_unique tile held_tile (same ▸ covered)
    exact work.held_not_taken height (start.1 ▸ member)

end Held

/-! ## The level search -/

theorem available_level_spec (mem : NormalMem) (fuel current : Nat)
    (enough : buddyMaxLevel ≤ current + fuel) :
    current ≤ availableLevel mem fuel current ∧
      (∀ level, current ≤ level → level < availableLevel mem fuel current →
        mem.freeLists level = mem.framesNumber) ∧
      (availableLevel mem fuel current < buddyMaxLevel →
        mem.freeLists (availableLevel mem fuel current) ≠ mem.framesNumber) := by
  induction fuel generalizing current with
  | zero =>
      refine ⟨le_refl _, ?_, ?_⟩
      · intro level low high
        exact absurd high (Nat.not_lt.mpr low)
      · intro below
        exact absurd below (Nat.not_lt.mpr enough)
  | succ fuel induction =>
      rw [availableLevel]
      split_ifs with empty
      · rcases induction (current + 1) (by omega) with ⟨low, skipped, found⟩
        refine ⟨by omega, ?_, found⟩
        intro level lower upper
        rcases Nat.eq_or_lt_of_le lower with same | later
        · rw [← same]
          exact empty.2
        · exact skipped level later upper
      · refine ⟨le_refl _, ?_, ?_⟩
        · intro level low high
          exact absurd high (Nat.not_lt.mpr low)
        · intro below nonempty
          exact empty ⟨below, nonempty⟩

/-! ## The split loop -/

section Split

variable {mem : NormalMem} {held : Nat} {free taken : Blocks}

/-- The block being split has room for its upper half. -/
theorem Working.upper_half {current : Nat} (work : Working mem held (current + 1) free taken) :
    buddy held current = held + 2 ^ current ∧ buddy held current < mem.framesNumber := by
  have upper := buddy_of_parent_aligned (work.layout.tiling.aligned held_tile)
  have inside := work.layout.tiling.inside held_tile
  have positive : 0 < 2 ^ current := Nat.two_pow_pos current
  have power : 2 ^ (current + 1) = 2 ^ current + 2 ^ current := Nat.two_pow_succ current
  exact ⟨upper, by omega⟩

theorem push_right_working {current : Nat} (work : Working mem held (current + 1) free taken) :
    Working (pushRight mem held current) held current
      (withBlock free (buddy held current) current) taken := by
  have rep := work.represents
  have bound : current < buddyMaxLevel := by
    have level := work.level_le
    rw [buddyMaxLevel] at level ⊢
    omega
  obtain ⟨upper, upperInside⟩ := work.upper_half
  have positive : 0 < 2 ^ current := Nat.two_pow_pos current
  have power : 2 ^ (current + 1) = 2 ^ current + 2 ^ current := Nat.two_pow_succ current
  -- a block that started at the upper half would overlap the block being split
  have noStart : ∀ height, ¬(free (buddy held current) height ∨
      withBlock taken held (current + 1) (buddy held current) height) := by
    intro height tile
    have same := work.layout.tiling.start_unique held_tile tile (by omega)
    omega
  have notFree : ∀ height, ¬free (buddy held current) height := fun height member =>
    noStart height (Or.inl member)
  have headInside : mem.freeLists current ≠ mem.framesNumber →
      mem.freeLists current < mem.framesNumber := fun nonempty =>
    rep.free_lt (rep.head_free bound nonempty)
  have distinct : mem.freeLists current ≠ buddy held current := by
    intro same
    have nonempty : mem.freeLists current ≠ mem.framesNumber := by omega
    have member := rep.head_free bound nonempty
    rw [same] at member
    exact notFree current member
  have pushed := push_right_pushed upperInside headInside distinct
  constructor
  · apply rep.push pushed bound upperInside notFree
    · intro height member
      exact noStart height (Or.inr (Or.inl member))
    · exact buddy_ne held current
    · intro other _ _
      exact Iff.rfl
  · rw [pushed.sameNumber]
    exact work.layout.split work.held_not_taken

theorem split_block_working (level current : Nat) (ordered : level ≤ current)
    (work : Working mem held current free taken) :
    ∃ free', Working (splitBlock level held current mem) held level free' taken ∧
      ∀ index height, free index height → free' index height := by
  induction current generalizing mem free with
  | zero =>
      have same : level = 0 := by omega
      subst same
      exact ⟨free, work, fun _ _ member => member⟩
  | succ current induction =>
      rw [splitBlock]
      split_ifs with above
      · rcases induction (by omega) (push_right_working work) with ⟨free', final, grows⟩
        exact ⟨free', final, fun index height member => grows index height (Or.inl member)⟩
      · have same : level = current + 1 := by omega
        subst same
        exact ⟨free, work, fun _ _ member => member⟩

theorem split_block_reach (level current : Nat) (ordered : level ≤ current)
    (work : Working mem held current free taken) :
    Reaches mem (splitBlock level held current mem) := by
  induction current generalizing mem free with
  | zero => exact Reaches.refl mem
  | succ current induction =>
      rw [splitBlock]
      split_ifs with above
      · have pushed := push_right_working work
        have bound : current < buddyMaxLevel := pushed.level_lt
        have first : Reaches mem (pushRight mem held current) :=
          push_right_reach work.upper_half.2 (work.represents.head_le bound)
        exact first.trans (by simp [pushRight]) (induction (by omega) pushed)
      · exact Reaches.refl mem

theorem split_block_frames_number (level held current : Nat) (mem : NormalMem) :
    (splitBlock level held current mem).framesNumber = mem.framesNumber ∧
      (splitBlock level held current mem).base = mem.base := by
  induction current generalizing mem with
  | zero => exact ⟨rfl, rfl⟩
  | succ current induction =>
      rw [splitBlock]
      split_ifs
      · exact induction (pushRight mem held current)
      · exact ⟨rfl, rfl⟩

/-- Splitting pushes only on lists the search has passed as empty, so the
write to the old first block lands past the table. -/
theorem split_block_prev (level held current : Nat) (mem : NormalMem)
    (empty : ∀ height, level ≤ height → height < current →
      mem.freeLists height = mem.framesNumber) (index : Nat) :
    prevOf (splitBlock level held current mem) index = prevOf mem index := by
  induction current generalizing mem with
  | zero => rfl
  | succ current induction =>
      rw [splitBlock]
      split_ifs with above
      · have headOut : mem.freeLists current = mem.framesNumber := empty current (by omega) (by omega)
        have never : ¬(index = mem.framesNumber ∧ index < mem.framesNumber) := by omega
        have pushed : prevOf (pushRight mem held current) index = prevOf mem index := by
          simp only [pushRight, prevOf, page_set_free_list, page_modify, free_lists_modify,
            frames_number_modify, headOut, if_neg never]
          split_ifs <;> rfl
        rw [induction (pushRight mem held current), pushed]
        intro height low high
        have different : height ≠ current := by omega
        have same := empty height low (by omega)
        simpa [pushRight, different] using same
      · rfl

end Split

/-! ## One allocation -/

theorem pop_working {mem : NormalMem} {free taken : Blocks} (sound : Sound mem free taken)
    {level : Nat} (bound : level < buddyMaxLevel)
    (nonempty : mem.freeLists level ≠ mem.framesNumber) :
    Working (mem.setFreeList level (nextOf mem (mem.freeLists level))) (mem.freeLists level) level
      (without free (mem.freeLists level)) taken :=
  ⟨sound.represents.pop bound nonempty,
    sound.layout.hand_out (sound.represents.head_free bound nonempty)⟩

theorem claim_sound {mem : NormalMem} {held level : Nat} {free taken : Blocks}
    (work : Working mem held level free taken) :
    Sound (claimBlock mem held level) free (withBlock taken held level) :=
  ⟨work.represents.claim work.held_lt level, work.layout⟩

theorem claim_block_prev (mem : NormalMem) {held : Nat} (inside : held < mem.framesNumber)
    (level index : Nat) : prevOf (claimBlock mem held level) index =
      if index = held then mem.framesNumber else prevOf mem index := by
  by_cases here : index = held
  · subst here
    simp [claimBlock, prevOf, inside]
  · simp [claimBlock, prevOf, here]

/-- A block handed out, as seen from the table before and after the call. -/
structure HandedOut (mem mem' : NormalMem) (free taken free' : Blocks) (index level : Nat) :
    Prop where
  sound : Sound mem' free' (withBlock taken index level)
  fresh : ∀ height, ¬taken index height
  ownLevel : (mem'.page index).level = level
  number : mem'.framesNumber = mem.framesNumber
  base : mem'.base = mem.base
  keeps : ∀ other height, free other height → other ≠ index → free' other height
  prev : ∀ other, prevOf mem' other =
    if other = index then mem.framesNumber else prevOf mem other
  reach : Reaches mem mem'

/-- A failed request leaves the zone alone; a successful one hands out a block
of the requested level that was not allocated before. -/
theorem get_block_sound {mem : NormalMem} {free taken : Blocks} (sound : Sound mem free taken)
    (level : Nat) {result : Option Nat} {mem' : NormalMem}
    (call : buddySystemGetFramePageBlock level mem = (result, mem')) :
    (result = none ∧ mem' = mem) ∨
      ∃ index free', result = some index ∧ HandedOut mem mem' free taken free' index level := by
  have search := available_level_spec mem buddyMaxLevel level (by omega)
  unfold buddySystemGetFramePageBlock at call
  dsimp only at call
  split_ifs at call with exhausted
  · cases call
    exact Or.inl ⟨rfl, rfl⟩
  · right
    have bound : availableLevel mem buddyMaxLevel level < buddyMaxLevel := Nat.lt_of_not_le exhausted
    have nonempty := search.2.2 bound
    generalize availableLevel mem buddyMaxLevel level = current at *
    have start : Sound (mem.read (mem.freeLists current)) free taken :=
      ⟨sound.represents.read _, sound.layout⟩
    have member := sound.represents.head_free bound nonempty
    have popped := pop_working start bound nonempty
    rcases split_block_working level current search.1 popped
      with ⟨free', work, grows⟩
    have numbers := split_block_frames_number level (mem.freeLists current) current
      ((mem.read (mem.freeLists current)).setFreeList current
        (nextOf (mem.read (mem.freeLists current)) (mem.freeLists current)))
    have claimed := claim_sound work
    cases call
    refine ⟨mem.freeLists current, free', rfl, claimed, ?_, ?_, numbers.1, numbers.2, ?_, ?_, ?_⟩
    · intro height taken_here
      exact sound.represents.not_both member taken_here
    · have own := claimed.represents.takenHead (mem.freeLists current) level
      exact (own.mp (Or.inr ⟨rfl, rfl⟩)).2.2.2
    · intro other height listed different
      exact grows other height ⟨listed, different⟩
    · intro other
      -- the lists the split pushes on are those the search found empty
      have unsplit := split_block_prev level (mem.freeLists current) current
        ((mem.read (mem.freeLists current)).setFreeList current
          (nextOf (mem.read (mem.freeLists current)) (mem.freeLists current))) (by
            intro height low high
            have different : height ≠ current := Nat.ne_of_lt high
            simpa [different] using search.2.1 height low high) other
      have linked := claim_block_prev _ work.held_lt level other
      rw [free_lists_read] at linked
      apply linked.trans
      rw [numbers.1, unsplit]
      rfl
    · have taken_off := ((Reaches.refl mem).read (sound.represents.head_le bound)).setFreeList
        current (nextOf (mem.read (mem.freeLists current)) (mem.freeLists current))
      have split := split_block_reach level current search.1 popped
      exact (taken_off.trans rfl split).trans numbers.1 (claim_block_reach work.held_lt level)

end ChaoOS.FrameTableAlloc
