import ChaoOS.FrameTableGrants

/-!
# The blocks that `init_normal_mem_zone` puts down

`placements` is the list of blocks the placement loop puts down, in its order.
For pools of at least one block of the top level it is the binary decomposition
of the pool size: blocks of the top level from the start on, and one block for
each bit of the remainder. The lists are read off it.
-/

namespace ChaoOS.FrameTableTiling

open ChaoOS.KernelMath ChaoOS.IndexList ChaoOS.DyadicTiling ChaoOS.FrameTableModel
open ChaoOS.FrameTableBlocks ChaoOS.FrameTableFree ChaoOS.FrameTableInit
open ChaoOS.FrameTableGrants

set_option autoImplicit false

/-- A start and a level. -/
abbrev Placement := Nat × Nat

def placements (framesNumber : Nat) : Nat → Nat → Nat → Nat → List Placement
  | 0, _, _, _ => []
  | fuel + 1, i, blockPageSize, blockLevel =>
      if i < framesNumber then
        let block := shrinkBlock framesNumber i buddyMaxLevel blockPageSize blockLevel
        (i, block.2) :: placements framesNumber fuel (i + block.1) block.1 block.2
      else []

/-- The blocks of the whole loop. -/
def initialBlocks (framesNumber : Nat) : List Placement :=
  placements framesNumber framesNumber 0 (1 <<< (buddyMaxLevel - 1)) (buddyMaxLevel - 1)

def placeAll (mem : NormalMem) (blocks : List Placement) : NormalMem :=
  blocks.foldl (fun mem block => placeBlock mem block.1 block.2) mem

theorem place_blocks_eq (fuel i blockPageSize blockLevel : Nat) (mem : NormalMem) :
    placeBlocks fuel i blockPageSize blockLevel mem =
      placeAll mem (placements mem.framesNumber fuel i blockPageSize blockLevel) := by
  induction fuel generalizing i blockPageSize blockLevel mem with
  | zero => rfl
  | succ fuel induction =>
      rw [placeBlocks, placements]
      split_ifs with inside
      · have number : (placeBlock mem i
            (shrinkBlock mem.framesNumber i buddyMaxLevel blockPageSize blockLevel).2).framesNumber =
              mem.framesNumber := by
          simp [placeBlock]
        dsimp only
        rw [induction, number]
        rfl
      · rfl

theorem init_zone_eq (memBase framesNumber : Nat) :
    initNormalMemZone memBase framesNumber =
      placeAll (clearedZone memBase framesNumber) (initialBlocks framesNumber) :=
  place_blocks_eq _ _ _ _ _

/-! ## The lists hold what was put down -/

/-- The starts of the blocks of one level, the last one first. -/
def startsAt (blocks : List Placement) (level : Nat) : List Nat :=
  ((blocks.filter fun block => block.2 = level).map Prod.fst).reverse

structure Holding (mem : NormalMem) (blocks : List Placement) : Prop where
  inside : ∀ block ∈ blocks, block.1 < mem.framesNumber
  lists : ∀ level, Follows (nextOf mem) mem.framesNumber (mem.freeLists level)
    (startsAt blocks level)
  heads : ∀ block ∈ blocks, (mem.page block.1).flags = pageFrameBlockHead ∧
    (mem.page block.1).level = block.2
  others : ∀ index, index < mem.framesNumber → (∀ level, (index, level) ∉ blocks) →
    (mem.page index).flags = pageFrameAllocated ∧ (mem.page index).level = 0

section Starts

variable {blocks : List Placement} {i level height : Nat}

theorem mem_starts_at {index : Nat} : index ∈ startsAt blocks level ↔ (index, level) ∈ blocks := by
  simp [startsAt]

theorem starts_at_append_same (blocks : List Placement) (i level : Nat) :
    startsAt (blocks ++ [(i, level)]) level = i :: startsAt blocks level := by
  simp [startsAt]

theorem starts_at_append_other (different : height ≠ level) :
    startsAt (blocks ++ [(i, level)]) height = startsAt blocks height := by
  simp [startsAt, different.symm]

end Starts

section Placed

variable {mem : NormalMem} {blocks : List Placement} {i level : Nat}

theorem cleared_zone_holding (memBase framesNumber : Nat) :
    Holding (clearedZone memBase framesNumber) [] := by
  constructor
  · intro block member
    exact absurd member List.not_mem_nil
  · intro level
    rfl
  · intro block member
    exact absurd member List.not_mem_nil
  · intro index inside _
    have entry : (clearedZone memBase framesNumber).page index =
        initialFrame memBase framesNumber index := if_pos inside
    rw [entry]
    exact ⟨rfl, rfl⟩

theorem Holding.place (holding : Holding mem blocks) (inside : i < mem.framesNumber)
    (fresh : ∀ height, (i, height) ∉ blocks) :
    Holding (placeBlock mem i level) (blocks ++ [(i, level)]) := by
  have listHead : mem.freeLists level ≠ mem.framesNumber →
      (mem.freeLists level, level) ∈ blocks := by
    intro nonempty
    exact mem_starts_at.mp (follows_head_mem (holding.lists level) nonempty)
  have distinct : mem.freeLists level ≠ i := by
    intro same
    have member := listHead (by omega)
    rw [same] at member
    exact fresh level member
  have pushed := place_block_pushed inside (fun nonempty => holding.inside _ (listHead nonempty))
    distinct
  constructor
  · intro block member
    rw [pushed.sameNumber]
    rcases List.mem_append.mp member with old | new
    · exact holding.inside block old
    · rw [List.mem_singleton.mp new]
      exact inside
  · intro height
    have kept : Follows (nextOf (placeBlock mem i level)) mem.framesNumber (mem.freeLists height)
        (startsAt blocks height) := by
      apply follows_congr (holding.lists height)
      intro item listed
      apply pushed.sameNext
      intro same
      exact fresh height (same ▸ mem_starts_at.mp listed)
    rw [pushed.sameNumber]
    by_cases own : height = level
    · subst own
      rw [starts_at_append_same, pushed.ownList]
      refine ⟨rfl, Nat.ne_of_lt inside, ?_⟩
      rw [pushed.ownNext]
      exact kept
    · rw [starts_at_append_other own, pushed.sameLists height own]
      exact kept
  · intro block member
    rcases List.mem_append.mp member with old | new
    · have other : block.1 ≠ i := by
        intro same
        exact fresh block.2 (same ▸ old)
      rw [pushed.sameFlags _ other, pushed.sameLevel _ other]
      exact holding.heads block old
    · rw [List.mem_singleton.mp new]
      exact ⟨pushed.ownFlags, pushed.ownLevel⟩
  · intro index indexInside absent
    have other : index ≠ i := by
      intro same
      apply absent level
      rw [same]
      exact List.mem_append_right _ (List.mem_singleton_self _)
    rw [pushed.sameFlags _ other, pushed.sameLevel _ other]
    rw [pushed.sameNumber] at indexInside
    apply holding.others index indexInside
    intro height old
    exact absent height (List.mem_append_left _ old)

end Placed

/-! ## Where the loop stands -/

/-- The blocks put down so far end where the next one starts. -/
structure Standing (mem : NormalMem) (i level : Nat) (blocks : List Placement) : Prop where
  holding : Holding mem blocks
  tiling : Tiling i fun index height => (index, height) ∈ blocks
  bounded : i ≤ mem.framesNumber
  levelBound : level ≤ buddyMaxLevel - 1
  aligned : 2 ^ level ∣ i

theorem cleared_zone_standing (memBase framesNumber : Nat) :
    Standing (clearedZone memBase framesNumber) 0 (buddyMaxLevel - 1) [] := by
  refine ⟨cleared_zone_holding memBase framesNumber, ?_, Nat.zero_le _, Nat.le_refl _, dvd_zero _⟩
  apply tiling_zero.congr
  intro index height
  exact iff_of_false List.not_mem_nil id

theorem Standing.place {mem : NormalMem} {i level fitted : Nat} {blocks : List Placement}
    (standing : Standing mem i level blocks) (lower : fitted ≤ level)
    (fits : i + 2 ^ fitted ≤ mem.framesNumber) :
    Standing (placeBlock mem i fitted) (i + 2 ^ fitted) fitted (blocks ++ [(i, fitted)]) := by
  have positive : 0 < 2 ^ fitted := Nat.two_pow_pos fitted
  have aligned : 2 ^ fitted ∣ i := (pow_dvd_pow 2 lower).trans standing.aligned
  have fresh : ∀ height, (i, height) ∉ blocks := by
    intro height member
    exact Nat.lt_irrefl i (standing.tiling.start_lt member)
  refine ⟨standing.holding.place (by omega) fresh, ?_, ?_, lower.trans standing.levelBound,
    Nat.dvd_add aligned dvd_rfl⟩
  · apply (standing.tiling.extend aligned).congr
    intro index height
    rw [List.mem_append, List.mem_singleton, Prod.mk.injEq]
  · rw [show (placeBlock mem i fitted).framesNumber = mem.framesNumber by simp [placeBlock]]
    exact fits

theorem place_all_standing (fuel : Nat) {mem : NormalMem} {i level : Nat}
    {blocks : List Placement} (standing : Standing mem i level blocks)
    (enough : mem.framesNumber ≤ i + fuel) (word : mem.framesNumber < wordSize)
    (room : 2 ^ (buddyMaxLevel - 1) ≤ mem.framesNumber) :
    ∃ level', Standing (placeAll mem (placements mem.framesNumber fuel i (2 ^ level) level))
      mem.framesNumber level' (blocks ++ placements mem.framesNumber fuel i (2 ^ level) level) := by
  induction fuel generalizing mem i level blocks with
  | zero =>
      have done : i = mem.framesNumber := Nat.le_antisymm standing.bounded enough
      subst done
      rw [placements, List.append_nil]
      exact ⟨level, standing⟩
  | succ fuel induction =>
      rw [placements]
      split_ifs with inside
      · have levelBound := standing.levelBound
        have levelRoom : 2 ^ level ≤ mem.framesNumber :=
          (Nat.pow_le_pow_right (by decide) levelBound).trans room
        obtain ⟨fitted, run, lower, fits, -⟩ := shrink_block_spec mem.framesNumber i buddyMaxLevel
          level (Nat.lt_of_le_of_lt levelBound (by decide)) word levelRoom inside
        have positive : 0 < 2 ^ fitted := Nat.two_pow_pos fitted
        have number : (placeBlock mem i fitted).framesNumber = mem.framesNumber := by
          simp [placeBlock]
        have rest := induction (standing.place lower fits) (by rw [number]; omega)
          (by rw [number]; exact word) (by rw [number]; exact room)
        rw [number, List.append_assoc] at rest
        dsimp only
        rw [run]
        exact rest
      · have done : i = mem.framesNumber := Nat.le_antisymm standing.bounded (Nat.le_of_not_lt inside)
        subst done
        rw [List.append_nil]
        exact ⟨level, standing⟩

theorem init_zone_standing (memBase : Nat) {framesNumber : Nat} (room : 1024 ≤ framesNumber)
    (word : framesNumber < wordSize) :
    ∃ level, Standing (initNormalMemZone memBase framesNumber) framesNumber level
      (initialBlocks framesNumber) := by
  have reached := place_all_standing framesNumber (cleared_zone_standing memBase framesNumber)
    (Nat.le_add_left _ _) word room
  rw [init_zone_eq, initialBlocks, Nat.one_shiftLeft]
  exact reached

/-! ## The binary decomposition of the pool -/

/-- The bits of the pool size below `width`, the highest first. -/
def lowBlocks (framesNumber : Nat) : Nat → List Placement
  | 0 => []
  | width + 1 =>
      if framesNumber.testBit width then
        ((framesNumber >>> (width + 1)) <<< (width + 1), width) :: lowBlocks framesNumber width
      else lowBlocks framesNumber width

/-- `count` blocks of the top level. -/
def topBlocks (first count : Nat) : List Placement :=
  (List.range' first count).map fun place => (place * 1024, buddyMaxLevel - 1)

section Decomposition

variable {framesNumber : Nat}

theorem shift_back_eq (n width : Nat) : (n >>> width) <<< width = enclosing n width := by
  rw [Nat.shiftRight_eq_div_pow, Nat.shiftLeft_eq, enclosing]

theorem enclosing_le (n width : Nat) : enclosing n width ≤ n := Nat.div_mul_le_self n _

theorem lt_enclosing (n width : Nat) : n < enclosing n width + 2 ^ width := by
  have split := Nat.div_add_mod' n (2 ^ width)
  have rest := Nat.mod_lt n (Nat.two_pow_pos width)
  rw [enclosing]
  omega

/-- One bit further down the truncated number grows by that bit. -/
theorem enclosing_step (n width : Nat) :
    enclosing n width = enclosing n (width + 1) + if n.testBit width then 2 ^ width else 0 := by
  have halves := Nat.div_add_mod (n / 2 ^ width) 2
  rw [Nat.div_div_eq_div_mul, ← Nat.pow_succ] at halves
  have parity := Nat.testBit_eq_decide_div_mod_eq (x := n) (i := width)
  rw [enclosing, enclosing]
  split_ifs with bit
  · rw [bit, eq_comm, decide_eq_true_iff] at parity
    rw [parity] at halves
    rw [← halves, Nat.pow_succ]
    ring
  · have even : n / 2 ^ width % 2 = 0 := by
      rw [Bool.not_eq_true] at bit
      rw [bit, eq_comm, decide_eq_false_iff_not] at parity
      omega
    rw [even] at halves
    rw [← halves, Nat.pow_succ]
    ring

theorem placements_past {i : Nat} (past : framesNumber ≤ i) (fuel blockPageSize blockLevel : Nat) :
    placements framesNumber fuel i blockPageSize blockLevel = [] := by
  cases fuel with
  | zero => rfl
  | succ fuel => exact if_neg (Nat.not_lt.mpr past)

theorem placements_succ {i : Nat} (inside : i < framesNumber) {fuel blockPageSize blockLevel : Nat}
    {block : Nat × Nat}
    (run : shrinkBlock framesNumber i buddyMaxLevel blockPageSize blockLevel = block) :
    placements framesNumber (fuel + 1) i blockPageSize blockLevel =
      (i, block.2) :: placements framesNumber fuel (i + block.1) block.1 block.2 := by
  rw [placements, if_pos inside]
  dsimp only
  rw [run]

/-- One round, in a pool that holds a block of the top level. -/
theorem placements_step {fuel i level fitted : Nat} (room : 1024 ≤ framesNumber)
    (word : framesNumber < wordSize) (levelBound : level ≤ buddyMaxLevel - 1)
    (lower : fitted ≤ level) (fits : i + 2 ^ fitted ≤ framesNumber)
    (largest : fitted < level → framesNumber < i + 2 ^ (fitted + 1)) :
    placements framesNumber (fuel + 1) i (2 ^ level) level =
      (i, fitted) :: placements framesNumber fuel (i + 2 ^ fitted) (2 ^ fitted) fitted := by
  have positive : 0 < 2 ^ fitted := Nat.two_pow_pos fitted
  have inside : i < framesNumber := by omega
  have levelRoom : 2 ^ level ≤ framesNumber :=
    (Nat.pow_le_pow_right (by decide) levelBound).trans room
  obtain ⟨found, run, foundLower, foundFits, foundLargest⟩ := shrink_block_spec framesNumber i
    buddyMaxLevel level (Nat.lt_of_le_of_lt levelBound (by decide)) word levelRoom inside
  have same : found = fitted := by
    rcases Nat.lt_trichotomy found fitted with less | equal | more
    · have grown : 2 ^ (found + 1) ≤ 2 ^ fitted := Nat.pow_le_pow_right (by decide) less
      have next := foundLargest (by omega)
      omega
    · exact equal
    · have grown : 2 ^ (fitted + 1) ≤ 2 ^ found := Nat.pow_le_pow_right (by decide) more
      have next := largest (by omega)
      omega
  rw [placements_succ inside run, same]

theorem placements_low (room : 1024 ≤ framesNumber) (word : framesNumber < wordSize)
    (width level fuel : Nat) (low : width ≤ level + 1) (levelBound : level ≤ buddyMaxLevel - 1)
    (enough : framesNumber ≤ enclosing framesNumber width + fuel) :
    placements framesNumber fuel (enclosing framesNumber width) (2 ^ level) level =
      lowBlocks framesNumber width := by
  induction width generalizing level fuel with
  | zero =>
      rw [enclosing, pow_zero, Nat.div_one, Nat.mul_one, placements_past (Nat.le_refl _)]
      rfl
  | succ width induction =>
      have step := enclosing_step framesNumber width
      have below := enclosing_le framesNumber width
      have above := lt_enclosing framesNumber (width + 1)
      rw [lowBlocks, shift_back_eq]
      split_ifs at step ⊢ with bit
      · have positive : 0 < 2 ^ width := Nat.two_pow_pos width
        cases fuel with
        | zero => omega
        | succ fuel =>
            rw [placements_step room word levelBound (Nat.le_of_succ_le_succ low) (by omega)
              (fun _ => above), ← step]
            rw [induction width fuel (Nat.le_succ width) (by omega) (by omega)]
      · rw [Nat.add_zero] at step
        rw [← step]
        exact induction level fuel (by omega) levelBound (by omega)

theorem top_block_size : 2 ^ (buddyMaxLevel - 1) = 1024 := by decide

theorem top_block_fits {first count fuel : Nat}
    (split : framesNumber / 1024 = first + (count + 1))
    (enough : framesNumber ≤ first * 1024 + (fuel + 1)) :
    (first + 1) * 1024 ≤ framesNumber ∧ framesNumber / 1024 = first + 1 + count ∧
      framesNumber ≤ (first + 1) * 1024 + fuel := by
  omega

theorem placements_top (room : 1024 ≤ framesNumber) (word : framesNumber < wordSize)
    (count first fuel : Nat) (split : framesNumber / 1024 = first + count)
    (enough : framesNumber ≤ first * 1024 + fuel) :
    placements framesNumber fuel (first * 1024) (2 ^ (buddyMaxLevel - 1)) (buddyMaxLevel - 1) =
      topBlocks first count ++ lowBlocks framesNumber (buddyMaxLevel - 1) := by
  induction count generalizing first fuel with
  | zero =>
      have last : first * 1024 = enclosing framesNumber (buddyMaxLevel - 1) := by
        rw [Nat.add_zero] at split
        rw [← split, enclosing, top_block_size]
      rw [last] at enough ⊢
      exact placements_low room word _ _ _ (Nat.le_succ _) (Nat.le_refl _) enough
  | succ count induction =>
      have size : first * 1024 + 2 ^ (buddyMaxLevel - 1) = (first + 1) * 1024 := by
        rw [Nat.add_mul, Nat.one_mul, top_block_size]
      cases fuel with
      | zero =>
          have whole := Nat.div_mul_le_self framesNumber 1024
          rw [split] at whole
          omega
      | succ fuel =>
          obtain ⟨fits, rest, left⟩ := top_block_fits split enough
          rw [← size] at fits
          rw [placements_step room word (Nat.le_refl _) (Nat.le_refl _) fits
            (fun below => absurd below (Nat.lt_irrefl _))]
          rw [size, induction (first + 1) fuel rest left, topBlocks, topBlocks,
            List.range'_succ, List.map_cons, List.cons_append]

theorem initial_blocks_eq (room : 1024 ≤ framesNumber) (word : framesNumber < wordSize) :
    initialBlocks framesNumber =
      topBlocks 0 (framesNumber / 1024) ++ lowBlocks framesNumber (buddyMaxLevel - 1) := by
  have whole := placements_top room word (framesNumber / 1024) 0 framesNumber (Nat.zero_add _).symm
    (by omega)
  rw [Nat.zero_mul] at whole
  rw [initialBlocks, Nat.one_shiftLeft]
  exact whole

/-! ## The lists of the initial zone -/

theorem starts_at_cat (left right : List Placement) (level : Nat) :
    startsAt (left ++ right) level = startsAt right level ++ startsAt left level := by
  simp [startsAt]

theorem starts_at_top (first count : Nat) :
    startsAt (topBlocks first count) (buddyMaxLevel - 1) =
      ((List.range' first count).map fun place => place * 1024).reverse := by
  have all : (topBlocks first count).filter (fun block => block.2 = buddyMaxLevel - 1) =
      topBlocks first count := by
    rw [List.filter_eq_self]
    intro block member
    obtain ⟨place, -, same⟩ := List.mem_map.mp member
    rw [← same]
    rfl
  rw [startsAt, all, topBlocks, List.map_map]
  rfl

theorem starts_at_top_other (first count : Nat) {level : Nat} (low : level < buddyMaxLevel - 1) :
    startsAt (topBlocks first count) level = [] := by
  rw [startsAt, topBlocks, List.filter_map]
  have none : (List.range' first count).filter
      ((fun block : Placement => decide (block.2 = level)) ∘
        fun place => (place * 1024, buddyMaxLevel - 1)) = [] := by
    rw [List.filter_eq_nil_iff]
    intro place _
    simp only [Function.comp_apply, decide_eq_true_eq]
    omega
  rw [none]
  rfl

theorem starts_at_low (width level : Nat) :
    startsAt (lowBlocks framesNumber width) level =
      if level < width ∧ framesNumber.testBit level = true then
        [(framesNumber >>> (level + 1)) <<< (level + 1)]
      else [] := by
  induction width with
  | zero =>
      rw [if_neg fun both => absurd both.1 (Nat.not_lt_zero level)]
      rfl
  | succ width induction =>
      have cons : ∀ start rest, startsAt ((start, width) :: rest) level =
          startsAt rest level ++ if width = level then [start] else [] := by
        intro start rest
        by_cases same : width = level <;> simp [startsAt, same]
      rw [lowBlocks]
      by_cases same : width = level
      · subst same
        have none : startsAt (lowBlocks framesNumber width) width = [] := by
          rw [induction, if_neg fun both => Nat.lt_irrefl _ both.1]
        by_cases bit : framesNumber.testBit width = true
        · rw [if_pos bit, if_pos ⟨Nat.lt_succ_self _, bit⟩, cons, if_pos rfl, none, List.nil_append]
        · rw [if_neg bit, if_neg fun both => bit both.2, none]
      · have bounds : level < width + 1 ↔ level < width := by omega
        have step : startsAt (if framesNumber.testBit width then
            ((framesNumber >>> (width + 1)) <<< (width + 1), width) :: lowBlocks framesNumber width
            else lowBlocks framesNumber width) level =
              startsAt (lowBlocks framesNumber width) level := by
          split_ifs
          · rw [cons, if_neg same, List.append_nil]
          · rfl
        rw [step, induction]
        simp only [bounds]

end Decomposition

/-! ## The two results -/

section Results

variable {framesNumber : Nat}

theorem initial_level_lt (room : 1024 ≤ framesNumber) (word : framesNumber < wordSize)
    {index level : Nat} (member : (index, level) ∈ initialBlocks framesNumber) :
    level < buddyMaxLevel := by
  rw [initial_blocks_eq room word, ← mem_starts_at, starts_at_cat, List.mem_append,
    starts_at_low] at member
  by_contra beyond
  rcases member with low | top
  · rw [if_neg fun both => beyond (Nat.lt_succ_of_lt both.1)] at low
    exact absurd low List.not_mem_nil
  · obtain ⟨place, -, same⟩ := List.mem_map.mp (mem_starts_at.mp top)
    have level' : buddyMaxLevel - 1 = level := congrArg Prod.snd same
    exact beyond (level' ▸ by decide)

theorem initial_listed_iff (memBase : Nat) (room : 1024 ≤ framesNumber)
    (word : framesNumber < wordSize) (index level : Nat) :
    Listed (initNormalMemZone memBase framesNumber) index level ↔
      (index, level) ∈ initialBlocks framesNumber := by
  obtain ⟨_, standing⟩ := init_zone_standing memBase room word
  have list := standing.holding.lists level
  constructor
  · intro listed
    exact mem_starts_at.mp ((listed_iff listed.1 list index).mp listed)
  · intro member
    exact (listed_iff (initial_level_lt room word member) list index).mpr
      (mem_starts_at.mpr member)

theorem init_zone_number (memBase : Nat) (room : 1024 ≤ framesNumber)
    (bound : framesNumber ≤ 2 ^ 20) :
    (initNormalMemZone memBase framesNumber).framesNumber = framesNumber := by
  obtain ⟨-, -, number, -⟩ := init_zone_sound memBase framesNumber room bound
  exact number

/-- The lists after `init_normal_mem_zone`, in their order, and what the table
says of every frame. -/
theorem init_zone_tiling (memBase framesNumber : Nat) (room : 1024 ≤ framesNumber)
    (bound : framesNumber ≤ 2 ^ 20) :
    Follows (nextOf (initNormalMemZone memBase framesNumber)) framesNumber
        ((initNormalMemZone memBase framesNumber).freeLists 10)
        ((List.range (framesNumber / 1024)).map fun place => place * 1024).reverse ∧
      (∀ level < 10, Follows (nextOf (initNormalMemZone memBase framesNumber)) framesNumber
        ((initNormalMemZone memBase framesNumber).freeLists level)
        (if framesNumber.testBit level = true then
          [(framesNumber >>> (level + 1)) <<< (level + 1)]
        else [])) ∧
      (∀ index < framesNumber,
        (∃ level, Listed (initNormalMemZone memBase framesNumber) index level ∧
          IsFreeBlock (initNormalMemZone memBase framesNumber) index level) ∨
        (∀ level, ¬Listed (initNormalMemZone memBase framesNumber) index level) ∧
          ((initNormalMemZone memBase framesNumber).page index).flags = pageFrameAllocated ∧
          ((initNormalMemZone memBase framesNumber).page index).level = 0) ∧
      Tiling framesNumber (Listed (initNormalMemZone memBase framesNumber)) := by
  have word : framesNumber < wordSize := Nat.lt_of_le_of_lt bound (by decide)
  have number := init_zone_number memBase room bound
  have listed := initial_listed_iff memBase room word
  obtain ⟨_, standing⟩ := init_zone_standing memBase room word
  have holding := standing.holding
  refine ⟨?_, ?_, ?_, ?_⟩
  · have top := holding.lists (buddyMaxLevel - 1)
    rw [number, initial_blocks_eq room word, starts_at_cat, starts_at_low,
      if_neg fun both => Nat.lt_irrefl _ both.1, starts_at_top, ← List.range_eq_range'] at top
    exact top
  · intro level low
    have list := holding.lists level
    rw [number, initial_blocks_eq room word, starts_at_cat, starts_at_low, starts_at_top_other _ _ low,
      List.append_nil] at list
    have below : level < buddyMaxLevel - 1 := low
    simp only [below, true_and] at list
    exact list
  · intro index inside
    by_cases head : ∃ level, (index, level) ∈ initialBlocks framesNumber
    · obtain ⟨level, member⟩ := head
      obtain ⟨flags, same⟩ := holding.heads _ member
      refine Or.inl ⟨level, (listed index level).mpr member, ?_, flags, same⟩
      rw [number]
      exact inside
    · have absent : ∀ level, (index, level) ∉ initialBlocks framesNumber := by
        intro level member
        exact head ⟨level, member⟩
      obtain ⟨flags, same⟩ := holding.others index (number.symm ▸ inside) absent
      refine Or.inr ⟨?_, flags, same⟩
      intro level member
      exact absent level ((listed index level).mp member)
  · exact standing.tiling.congr listed

/-- A pool of 1025 frames is one block of the top level and one frame. -/
theorem init_zone_tiling_sample :
    Follows (nextOf (initNormalMemZone 0x200000 1025)) 1025
      ((initNormalMemZone 0x200000 1025).freeLists 0) [1024] :=
  (init_zone_tiling 0x200000 1025 (by decide) (by decide)).2.1 0 (by decide)

/-- In a pool smaller than a block of the top level the difference in the loop
test wraps, and the first block is not shrunk. -/
theorem initial_blocks_small (positive : 1 ≤ framesNumber) (small : framesNumber < 1024) :
    initialBlocks framesNumber = [(0, buddyMaxLevel - 1)] := by
  have wrapped : sub32 framesNumber 1024 = wordSize - 1024 + framesNumber := by
    have same : framesNumber + (wordSize - 1024 % wordSize) = wordSize - 1024 + framesNumber := by
      rw [Nat.mod_eq_of_lt (by decide), Nat.add_comm]
    rw [sub32, same, Nat.mod_eq_of_lt]
    change 4294967296 - 1024 + framesNumber < 4294967296
    omega
  cases framesNumber with
  | zero => exact absurd positive (by decide)
  | succ rest =>
      have kept : shrinkBlock (rest + 1) 0 buddyMaxLevel 1024 (buddyMaxLevel - 1) =
          (1024, buddyMaxLevel - 1) := by
        rw [buddyMaxLevel, shrinkBlock, wrapped, if_neg (Nat.not_lt_zero _)]
      rw [initialBlocks, Nat.one_shiftLeft, top_block_size,
        placements_succ (Nat.succ_pos rest) kept, placements_past]
      exact Nat.le_of_lt (Nat.lt_of_lt_of_le small (Nat.le_add_left _ _))

/-- The blocks of the loop end inside the pool exactly when the pool holds a
block of the top level. -/
theorem initial_blocks_inside_iff (framesNumber : Nat) (positive : 1 ≤ framesNumber)
    (word : framesNumber < wordSize) :
    (∀ block ∈ initialBlocks framesNumber, block.1 + 2 ^ block.2 ≤ framesNumber) ↔
      1024 ≤ framesNumber := by
  constructor
  · intro inside
    by_contra small
    rw [initial_blocks_small positive (Nat.lt_of_not_le small)] at inside
    have first := inside _ (List.mem_singleton_self _)
    rw [top_block_size] at first
    omega
  · intro room block member
    obtain ⟨_, standing⟩ := init_zone_standing 0 room word
    exact standing.tiling.inside member

theorem initial_blocks_inside_sample :
    (∀ block ∈ initialBlocks 1536, block.1 + 2 ^ block.2 ≤ 1536) ∧
      ¬∀ block ∈ initialBlocks 1023, block.1 + 2 ^ block.2 ≤ 1023 := by
  constructor
  · exact (initial_blocks_inside_iff 1536 (by decide) (by decide)).mpr (by decide)
  · intro inside
    exact absurd ((initial_blocks_inside_iff 1023 (by decide) (by decide)).mp inside) (by decide)

/-- A pool of 512 frames gets one block of 1024. -/
theorem initial_block_leaves_pool :
    initialBlocks 512 = [(0, 10)] ∧
      ¬∀ framesNumber, 1 ≤ framesNumber → framesNumber < wordSize →
        ∀ block ∈ initialBlocks framesNumber, block.1 + 2 ^ block.2 ≤ framesNumber := by
  have blocks : initialBlocks 512 = [(0, 10)] := initial_blocks_small (by decide) (by decide)
  refine ⟨blocks, ?_⟩
  intro always
  have inside := always 512 (by decide) (by decide) (0, 10) (by rw [blocks]; exact List.mem_singleton_self _)
  exact absurd inside (by decide)

end Results

end ChaoOS.FrameTableTiling
