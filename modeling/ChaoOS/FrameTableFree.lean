import ChaoOS.FrameTableAlloc

/-!
# Release refines giving a block back

The coalescing loop unlinks each free buddy through that buddy's back link. A
buddy that is the first block of its list is taken off correctly only when its
back link is the end mark. `SafeToFree` says this of the buddies the loop will
meet, in terms of the state before the call.
-/

namespace ChaoOS.FrameTableFree

open ChaoOS.KernelMath ChaoOS.IndexList ChaoOS.DyadicTiling ChaoOS.BuddyLayout
open ChaoOS.FrameTableModel ChaoOS.FrameTableReach ChaoOS.FrameTableBlocks ChaoOS.FrameTableAlloc

set_option autoImplicit false

/-! ## The fields one merge leaves behind -/

section MergeFields

variable (mem : NormalMem) (level held other : Nat)

theorem lower_of_eq_min : lowerOf held other = min held other := by
  unfold lowerOf
  split_ifs <;> omega

theorem merge_buddy_frames_number :
    (mergeBuddy mem level held other).framesNumber = mem.framesNumber := by
  simp [mergeBuddy]

theorem merge_buddy_base : (mergeBuddy mem level held other).base = mem.base := by
  simp [mergeBuddy]

theorem merge_buddy_flags (index : Nat) :
    ((mergeBuddy mem level held other).page index).flags =
      if index = upperOf held other ∧ index < mem.framesNumber then pageFrameAllocated
      else (mem.page index).flags := by
  simp only [mergeBuddy, page_modify, page_modify_inside, page_bypass, page_read,
    frames_number_modify, frames_number_modify_inside, frames_number_bypass, frames_number_read,
    apply_ite PageFrame.flags, ite_self]

theorem merge_buddy_level (index : Nat) :
    ((mergeBuddy mem level held other).page index).level =
      if index = lowerOf held other ∧ index < mem.framesNumber then level + 1
      else if index = upperOf held other ∧ index < mem.framesNumber then 0
      else (mem.page index).level := by
  simp only [mergeBuddy, page_modify, page_modify_inside, page_bypass, page_read,
    frames_number_modify, frames_number_modify_inside, frames_number_bypass, frames_number_read,
    apply_ite PageFrame.level, ite_self]

theorem merge_buddy_next (index : Nat) : nextOf (mergeBuddy mem level held other) index =
    if index = prevOf mem other ∧ index < mem.framesNumber then nextOf mem other
    else nextOf mem index := by
  simp only [mergeBuddy, nextOf, prevOf, page_modify, page_modify_inside, page_bypass, page_read,
    frames_number_modify, frames_number_modify_inside, frames_number_bypass, frames_number_read,
    apply_ite PageFrame.nextFrame, ite_self]
  rfl

theorem merge_buddy_prev (index : Nat) : prevOf (mergeBuddy mem level held other) index =
    if index = nextOf mem other ∧ index < mem.framesNumber then prevOf mem other
    else prevOf mem index := by
  simp only [mergeBuddy, nextOf, prevOf, page_modify, page_modify_inside, page_bypass, page_read,
    frames_number_modify, frames_number_modify_inside, frames_number_bypass, frames_number_read,
    apply_ite PageFrame.prevFrame, ite_self]
  rfl

theorem merge_buddy_free_lists (height : Nat) :
    (mergeBuddy mem level held other).freeLists height =
      if height = level ∧ prevOf mem other = mem.framesNumber then nextOf mem other
      else mem.freeLists height := by
  simp only [mergeBuddy, nextOf, prevOf, free_lists_modify, free_lists_modify_inside,
    free_lists_bypass, free_lists_read, page_read, frames_number_read]
  rfl

theorem merge_buddy_identity (index : Nat) :
    ((mergeBuddy mem level held other).page index).index = (mem.page index).index ∧
      ((mergeBuddy mem level held other).page index).physicAddr = (mem.page index).physicAddr := by
  simp only [mergeBuddy, page_modify, page_modify_inside, page_bypass, page_read,
    frames_number_modify, frames_number_modify_inside, frames_number_bypass, frames_number_read,
    apply_ite PageFrame.index, apply_ite PageFrame.physicAddr, ite_self, and_self]

end MergeFields

/-! ## One merge -/

section Merge

variable {mem : NormalMem} {held level other : Nat} {free taken : Blocks}

/-- The neighbours of an unlinked block are on its own list or past the table. -/
theorem unlinked_neighbours (rep : Represents mem held free taken) (bound : level < buddyMaxLevel)
    (member : free other level)
    (anchored : mem.freeLists level = other → prevOf mem other = mem.framesNumber) :
    (prevOf mem other = mem.framesNumber ∨ free (prevOf mem other) level) ∧
      (nextOf mem other = mem.framesNumber ∨ free (nextOf mem other) level) := by
  rcases rep.lists level bound with ⟨nodes, threaded, members⟩
  have listed := (members other).mpr member
  constructor
  · rcases threaded.prev_mem listed anchored with last | inside
    · exact Or.inl last
    · exact Or.inr ((members _).mp inside)
  · rcases follows_next_mem threaded.follows listed with inside | last
    · exact Or.inr ((members _).mp inside)
    · exact Or.inl last

/-- A neighbour is a block of the table or the end mark. -/
theorem neighbour_le (rep : Represents mem held free taken) {neighbour : Nat}
    (found : neighbour = mem.framesNumber ∨ free neighbour level) :
    neighbour ≤ mem.framesNumber := by
  rcases found with last | listed
  · exact last.le
  · exact (rep.free_lt listed).le

/-- On the lists a merge sends the neighbours of the unlinked block to each
other. -/
theorem merge_buddy_links (level other : Nat) (rep : Represents mem held free taken)
    {index height : Nat} (listed : free index height) :
    nextOf (mergeBuddy mem level held other) index =
        (if index = prevOf mem other then nextOf mem other else nextOf mem index) ∧
      prevOf (mergeBuddy mem level held other) index =
        if index = nextOf mem other then prevOf mem other else prevOf mem index := by
  have inside := rep.free_lt listed
  rw [merge_buddy_next, merge_buddy_prev]
  simp [inside]

/-- A merge leaves every free block of another level as it was. -/
theorem merge_buddy_other_level (rep : Represents mem held free taken)
    (bound : level < buddyMaxLevel) (member : free other level)
    (anchored : mem.freeLists level = other → prevOf mem other = mem.framesNumber)
    {index height : Nat} (listed : free index height) (different : height ≠ level) :
    nextOf (mergeBuddy mem level held other) index = nextOf mem index ∧
      prevOf (mergeBuddy mem level held other) index = prevOf mem index := by
  have neighbours := unlinked_neighbours rep bound member anchored
  have inside := rep.free_lt listed
  have links := merge_buddy_links level other rep listed
  have notPrev : index ≠ prevOf mem other := by
    intro same
    rcases neighbours.1 with last | neighbour
    · omega
    · rw [← same] at neighbour
      exact different (rep.free_level listed neighbour)
  have notNext : index ≠ nextOf mem other := by
    intro same
    rcases neighbours.2 with last | neighbour
    · omega
    · rw [← same] at neighbour
      exact different (rep.free_level listed neighbour)
  rw [if_neg notPrev, if_neg notNext] at links
  exact links

theorem merge_buddy_lists (rep : Represents mem held free taken) (bound : level < buddyMaxLevel)
    (member : free other level)
    (anchored : mem.freeLists level = other → prevOf mem other = mem.framesNumber)
    {height : Nat} (heightBound : height < buddyMaxLevel) :
    ∃ nodes, Threaded (nextOf (mergeBuddy mem level held other))
        (prevOf (mergeBuddy mem level held other)) mem.framesNumber
        ((mergeBuddy mem level held other).freeLists height) nodes ∧
      ∀ index, index ∈ nodes ↔ without free other index height := by
  rcases rep.lists height heightBound with ⟨nodes, threaded, members⟩
  rw [merge_buddy_free_lists]
  by_cases here : height = level
  · subst here
    refine ⟨nodes.erase other, ?_, ?_⟩
    · simp only [true_and]
      apply threaded.unlink ((members other).mpr member) anchored
      · intro item listed _
        exact (merge_buddy_links _ other rep ((members item).mp listed)).1
      · intro item listed _
        exact (merge_buddy_links _ other rep ((members item).mp listed)).2
    · intro index
      rw [threaded.nodup.mem_erase_iff, members, without]
      exact and_comm
  · refine ⟨nodes, ?_, ?_⟩
    · have outside : ¬(height = level ∧ prevOf mem other = mem.framesNumber) := by
        intro both
        exact here both.1
      rw [if_neg outside]
      apply threaded.congr
      · intro item listed
        exact (merge_buddy_other_level rep bound member anchored ((members item).mp listed) here).1
      · intro item listed
        exact (merge_buddy_other_level rep bound member anchored ((members item).mp listed) here).2
    · intro index
      rw [members, without]
      constructor
      · intro listed
        refine ⟨listed, ?_⟩
        intro same
        rw [same] at listed
        exact here (rep.free_level listed member)
      · exact And.left

/-- The two halves are `held` and `other`, in one order or the other. -/
theorem not_half_iff (held other index : Nat) :
    (index ≠ lowerOf held other ∧ index ≠ upperOf held other) ↔
      (index ≠ held ∧ index ≠ other) := by
  unfold lowerOf upperOf
  split_ifs
  · exact and_comm
  · exact Iff.rfl

/-- Outside the two halves a merge keeps flags and level. -/
theorem merge_buddy_fields (mem : NormalMem) (level : Nat) {held other index : Nat}
    (notHeld : index ≠ held) (notOther : index ≠ other) :
    ((mergeBuddy mem level held other).page index).flags = (mem.page index).flags ∧
      ((mergeBuddy mem level held other).page index).level = (mem.page index).level := by
  have outside := (not_half_iff held other index).mpr ⟨notHeld, notOther⟩
  rw [merge_buddy_flags, merge_buddy_level]
  simp [outside.1, outside.2]

/-- Whatever flags mark the heads of a kind of block: after a merge they mark the
heads other than the buddy, since the entry that is no longer one is plain. -/
theorem merge_buddy_heads (mem : NormalMem) (level : Nat) {held other index height status : Nat}
    {head : Prop} (used : status ≠ pageFrameAllocated)
    (marked : head ↔ index < mem.framesNumber ∧ index ≠ held ∧
      (mem.page index).flags = status ∧ (mem.page index).level = height) :
    (head ∧ index ≠ other) ↔ index < mem.framesNumber ∧ index ≠ lowerOf held other ∧
      ((mergeBuddy mem level held other).page index).flags = status ∧
      ((mergeBuddy mem level held other).page index).level = height := by
  constructor
  · rintro ⟨listed, notOther⟩
    have facts := marked.mp listed
    have same := merge_buddy_fields mem level facts.2.1 notOther
    have outside := (not_half_iff held other index).mpr ⟨facts.2.1, notOther⟩
    rw [same.1, same.2]
    exact ⟨facts.1, outside.1, facts.2.2⟩
  · intro listed
    have notUpper : index ≠ upperOf held other := by
      intro isUpper
      apply used
      rw [← listed.2.2.1, merge_buddy_flags, if_pos ⟨isUpper, listed.1⟩]
    have outside := (not_half_iff held other index).mp ⟨listed.2.1, notUpper⟩
    have same := merge_buddy_fields mem level outside.1 outside.2
    rw [same.1, same.2] at listed
    exact ⟨marked.mpr ⟨listed.1, outside.1, listed.2.2⟩, outside.2⟩

theorem merge_buddy_represents (rep : Represents mem held free taken)
    (bound : level < buddyMaxLevel) (member : free other level)
    (anchored : mem.freeLists level = other → prevOf mem other = mem.framesNumber) :
    Represents (mergeBuddy mem level held other) (lowerOf held other) (without free other) taken := by
  have distinct : other ≠ held := ((rep.freeHead other level).mp member).2.1
  have apart : lowerOf held other ≠ upperOf held other := by
    unfold lowerOf upperOf
    split_ifs
    · exact distinct
    · exact distinct.symm
  constructor
  · intro index height
    rw [merge_buddy_frames_number]
    exact merge_buddy_heads mem level (by decide) (rep.freeHead index height)
  · intro index height
    rw [merge_buddy_frames_number, ← merge_buddy_heads mem level (by decide) (rep.takenHead index height)]
    constructor
    · intro listed
      refine ⟨listed, ?_⟩
      intro same
      rw [same] at listed
      exact rep.not_both member listed
    · exact And.left
  · intro index inside notLower notFree notTaken
    rw [merge_buddy_frames_number] at inside
    by_cases isUpper : index = upperOf held other
    · rw [merge_buddy_flags, if_pos ⟨isUpper, inside⟩, merge_buddy_level]
      simp [isUpper, isUpper ▸ inside, apart.symm]
    · have outside := (not_half_iff held other index).mp ⟨notLower, isUpper⟩
      have same := merge_buddy_fields mem level outside.1 outside.2
      rw [same.1, same.2]
      apply rep.plain index inside outside.1
      · intro height listed
        exact notFree height ⟨listed, outside.2⟩
      · exact notTaken
  · intro height heightBound
    rw [merge_buddy_frames_number]
    exact merge_buddy_lists rep bound member anchored heightBound
  · intro index inside
    rw [merge_buddy_frames_number] at inside
    rw [(merge_buddy_identity mem level held other index).1,
      (merge_buddy_identity mem level held other index).2, merge_buddy_base]
    exact rep.identity index inside

/-- One round of the loop, on a held block and its free buddy. -/
theorem merge_buddy_working (work : Working mem held level free taken)
    (below : level < buddyMaxLevel - 1) (member : free (buddy held level) level)
    (anchored : mem.freeLists level = buddy held level →
      prevOf mem (buddy held level) = mem.framesNumber) :
    Working (mergeBuddy mem level held (buddy held level)) (lowerOf held (buddy held level))
      (level + 1) (without free (buddy held level)) taken := by
  have bound : level < buddyMaxLevel := by
    rw [buddyMaxLevel] at below ⊢
    omega
  refine ⟨merge_buddy_represents work.represents bound member anchored, ?_⟩
  rw [merge_buddy_frames_number, lower_of_eq_min]
  exact work.layout.merge work.held_not_taken below member

theorem merge_buddy_within (rep : Represents mem held free taken) (bound : level < buddyMaxLevel)
    (inside : held < mem.framesNumber) (member : free other level)
    (anchored : mem.freeLists level = other → prevOf mem other = mem.framesNumber) :
    Reaches mem (mergeBuddy mem level held other) := by
  obtain ⟨prev, next⟩ := unlinked_neighbours rep bound member anchored
  exact merge_buddy_reach inside (rep.free_lt member) (neighbour_le rep prev)
    (neighbour_le rep next) level

/-- A merge touches only list neighbours and the two halves. -/
theorem merge_buddy_untouched (rep : Represents mem held free taken) (bound : level < buddyMaxLevel)
    (member : free other level)
    (anchored : mem.freeLists level = other → prevOf mem other = mem.framesNumber) {page : Nat}
    (notFree : ∀ height, ¬free page height) (notHeld : page ≠ held) :
    (mergeBuddy mem level held other).page page = mem.page page := by
  have neighbours := unlinked_neighbours rep bound member anchored
  have notOther : page ≠ other := by
    intro same
    exact notFree level (same ▸ member)
  have notPrev : ¬(page = (mem.page other).prevFrame ∧ page < mem.framesNumber) := by
    rintro ⟨same, inside⟩
    rcases neighbours.1 with last | listed
    · exact Nat.ne_of_lt inside (same.trans last)
    · exact notFree level (same ▸ listed)
  have notNext : ¬(page = (mem.page other).nextFrame ∧ page < mem.framesNumber) := by
    rintro ⟨same, inside⟩
    rcases neighbours.2 with last | listed
    · exact Nat.ne_of_lt inside (same.trans last)
    · exact notFree level (same ▸ listed)
  obtain ⟨notLower, notUpper⟩ := (not_half_iff held other page).mpr ⟨notHeld, notOther⟩
  simp only [mergeBuddy, page_modify, page_modify_inside, page_bypass, page_read,
    frames_number_modify, frames_number_modify_inside, frames_number_bypass, frames_number_read,
    notUpper, notLower, notPrev, notNext, false_and, if_false]

/-- On the levels below `top` every first block has the end mark as its back link. -/
def AnchoredBelow (top : Nat) (mem : NormalMem) : Prop :=
  ∀ level, level < top → mem.freeLists level ≠ mem.framesNumber →
    prevOf mem (mem.freeLists level) = mem.framesNumber

/-- Below the top level every first block has the end mark as its back link. -/
def Anchored (mem : NormalMem) : Prop :=
  ∀ level, level < buddyMaxLevel - 1 → mem.freeLists level ≠ mem.framesNumber →
    prevOf mem (mem.freeLists level) = mem.framesNumber

theorem anchored_iff (mem : NormalMem) : Anchored mem ↔ AnchoredBelow (buddyMaxLevel - 1) mem :=
  Iff.rfl

theorem merge_buddy_anchored (rep : Represents mem held free taken)
    (below : level < buddyMaxLevel - 1) (member : free other level) {top : Nat}
    (low : buddyMaxLevel - 1 ≤ top) (high : top ≤ buddyMaxLevel)
    (anchored : AnchoredBelow top mem) : AnchoredBelow top (mergeBuddy mem level held other) := by
  have bound : level < buddyMaxLevel := by omega
  have merged : level < top := by omega
  have nonempty : mem.freeLists level = other → mem.freeLists level ≠ mem.framesNumber := by
    intro isHead
    rw [isHead]
    exact Nat.ne_of_lt (rep.free_lt member)
  have firstLink : mem.freeLists level = other → prevOf mem other = mem.framesNumber := by
    intro isHead
    have link := anchored level merged (nonempty isHead)
    rw [isHead] at link
    exact link
  intro height small
  rw [merge_buddy_frames_number]
  by_cases here : height = level
  · subst here
    rcases rep.lists height bound with ⟨nodes, threaded, members⟩
    have unlinked : Linked (nextOf (mergeBuddy mem height held other))
        (prevOf (mergeBuddy mem height held other)) mem.framesNumber
        (if prevOf mem other = mem.framesNumber then nextOf mem other else mem.freeLists height)
        (nodes.erase other) := by
      apply (threaded.linked (anchored height small)).unlink ((members other).mpr member)
      · intro item listed _
        exact (merge_buddy_links _ other rep ((members item).mp listed)).1
      · intro item listed _
        exact (merge_buddy_links _ other rep ((members item).mp listed)).2
    rw [merge_buddy_free_lists]
    simp only [true_and]
    exact unlinked.anchored
  · have sameHead : (mergeBuddy mem level held other).freeLists height = mem.freeLists height := by
      rw [merge_buddy_free_lists]
      simp [here]
    rw [sameHead]
    intro inside
    have listed := rep.head_free (by omega) inside
    rw [(merge_buddy_other_level rep bound member firstLink listed here).2]
    exact anchored height small inside

end Merge

/-! ## The coalescing loop -/

def IsFreeBlock (mem : NormalMem) (index level : Nat) : Prop :=
  index < mem.framesNumber ∧ (mem.page index).flags = pageFrameBlockHead ∧
    (mem.page index).level = level

/-- The buddy the loop meets at `level` when it frees the block at `pageIndex`. -/
def buddyAt (pageIndex level : Nat) : Nat := buddy (enclosing pageIndex level) level

/-- Whenever the loop gets to merge a buddy that heads its list, that buddy's
back link is the end mark. -/
def SafeToFree (mem : NormalMem) (pageIndex : Nat) : Prop :=
  ∀ level, (mem.page pageIndex).level ≤ level → level < buddyMaxLevel - 1 →
    (∀ height, (mem.page pageIndex).level ≤ height → height ≤ level →
      IsFreeBlock mem (buddyAt pageIndex height) height) →
    mem.freeLists level = buddyAt pageIndex level →
    prevOf mem (buddyAt pageIndex level) = mem.framesNumber

instance (mem : NormalMem) (index level : Nat) : Decidable (IsFreeBlock mem index level) := by
  unfold IsFreeBlock
  infer_instance

instance (mem : NormalMem) (pageIndex : Nat) : Decidable (SafeToFree mem pageIndex) :=
  decidable_of_iff (∀ level < buddyMaxLevel - 1, (mem.page pageIndex).level ≤ level →
    (∀ height < level + 1, (mem.page pageIndex).level ≤ height →
      IsFreeBlock mem (buddyAt pageIndex height) height) →
    mem.freeLists level = buddyAt pageIndex level →
    prevOf mem (buddyAt pageIndex level) = mem.framesNumber) (by
      constructor
      · intro all level low high allFree
        apply all level high low
        intro height below least
        exact allFree height least (Nat.lt_succ_iff.mp below)
      · intro safe level high low allFree
        apply safe level low high
        intro height least most
        exact allFree height (Nat.lt_succ_iff.mpr most) least)

/-- What the coalescing loop leaves behind when it stops with the block `held`
of `level` in its hands. -/
structure Coalesced (mem mem' : NormalMem) (held level : Nat) (free taken : Blocks) : Prop where
  work : Working mem' held level free taken
  alone : level < buddyMaxLevel - 1 → ¬free (buddy held level) level
  number : mem'.framesNumber = mem.framesNumber
  base : mem'.base = mem.base
  anchored : ∀ top, buddyMaxLevel - 1 ≤ top → top ≤ buddyMaxLevel →
    AnchoredBelow top mem → AnchoredBelow top mem'
  kept : ∀ other height, taken other height → ∀ page, other ≤ page → page < other + 2 ^ height →
    mem'.page page = mem.page page
  reach : Reaches mem mem'

/-- The test of the loop picks out a buddy that is a free block of the level. -/
theorem accepted_buddy_free {mem : NormalMem} {held level other : Nat} {free taken : Blocks}
    (rep : Represents mem held free taken) (distinct : other ≠ held)
    (accepted : level = ((mem.read other).page other).level ∧
      ((mem.read other).page other).flags = pageFrameBlockHead) : free other level := by
  have inside : other < mem.framesNumber := by
    by_contra outside
    have flags := accepted.2
    rw [page_read, NormalMem.page, if_neg outside] at flags
    exact absurd flags (by decide)
  exact (rep.freeHead _ _).mpr ⟨inside, distinct, accepted.2, accepted.1.symm⟩

/-- A merge keeps the first block of any higher list anchored. -/
theorem merge_buddy_safe {mem : NormalMem} {index level other : Nat} {free taken : Blocks}
    (rep : Represents mem (enclosing index level) free taken) (bound : level < buddyMaxLevel)
    (member : free other level) (isBuddy : other = buddyAt index level)
    (anchored : mem.freeLists level = other → prevOf mem other = mem.framesNumber)
    (safe : ∀ height, level ≤ height → height < buddyMaxLevel - 1 →
      (∀ step, level ≤ step → step ≤ height → free (buddyAt index step) step) →
      mem.freeLists height = buddyAt index height →
      prevOf mem (buddyAt index height) = mem.framesNumber)
    {height : Nat} (low : level + 1 ≤ height) (high : height < buddyMaxLevel - 1)
    (allFree : ∀ step, level + 1 ≤ step → step ≤ height →
      without free other (buddyAt index step) step)
    (isHead : (mergeBuddy mem level (enclosing index level) other).freeLists height =
      buddyAt index height) :
    prevOf (mergeBuddy mem level (enclosing index level) other) (buddyAt index height) =
      (mergeBuddy mem level (enclosing index level) other).framesNumber := by
  have different : height ≠ level := Nat.ne_of_gt low
  have listHead : mem.freeLists height = buddyAt index height := by
    rw [merge_buddy_free_lists, if_neg fun both => different both.1] at isHead
    exact isHead
  have before := safe height (Nat.le_of_succ_le low) high (by
    intro step stepLow stepHigh
    by_cases first : step = level
    · rw [first, ← isBuddy]
      exact member
    · exact (allFree step (by omega) stepHigh).1) listHead
  have listed := (allFree height low (le_refl _)).1
  rw [merge_buddy_frames_number,
    (merge_buddy_other_level rep bound member anchored listed different).2]
  exact before

theorem coalesce_working (fuel : Nat) {mem : NormalMem} {level index : Nat} {free taken : Blocks}
    (enough : buddyMaxLevel ≤ level + fuel)
    (work : Working mem (enclosing index level) level free taken)
    (safe : ∀ height, level ≤ height → height < buddyMaxLevel - 1 →
      (∀ step, level ≤ step → step ≤ height → free (buddyAt index step) step) →
      mem.freeLists height = buddyAt index height →
      prevOf mem (buddyAt index height) = mem.framesNumber) :
    ∃ mem' held' level' free',
      coalesce fuel mem (enclosing index level) level = (mem', held', level') ∧
        Coalesced mem mem' held' level' free' taken := by
  induction fuel generalizing mem level free with
  | zero =>
      have high := work.level_le
      rw [buddyMaxLevel] at enough high
      omega
  | succ fuel induction =>
      rw [coalesce]
      dsimp only
      rw [← buddy]
      by_cases below : level < buddyMaxLevel - 1
      · rw [if_pos below]
        by_cases accepted : level = ((mem.read (buddy (enclosing index level) level)).page
            (buddy (enclosing index level) level)).level ∧
            ((mem.read (buddy (enclosing index level) level)).page
              (buddy (enclosing index level) level)).flags = pageFrameBlockHead
        · rw [if_pos accepted]
          have rep := work.represents
          have member : free (buddy (enclosing index level) level) level :=
            accepted_buddy_free rep (buddy_ne _ _) accepted
          have anchored : mem.freeLists level = buddy (enclosing index level) level →
              prevOf mem (buddy (enclosing index level) level) = mem.framesNumber := by
            apply safe level (le_refl _) below
            intro step low high
            have same : step = level := by omega
            rw [same]
            exact member
          have reading : Working (mem.read (buddy (enclosing index level) level))
              (enclosing index level) level free taken := ⟨rep.read _, work.layout⟩
          have merged := merge_buddy_working reading below member anchored
          have lowered : lowerOf (enclosing index level) (buddy (enclosing index level) level) =
              enclosing index (level + 1) := by
            rw [lower_of_eq_min, enclosing_succ]
          rw [lowered] at merged
          have bound : level < buddyMaxLevel := by omega
          rcases induction (by omega) merged (fun height low high allFree isHead =>
            merge_buddy_safe reading.represents bound member rfl anchored safe low high allFree isHead)
            with ⟨mem', held', level', free', run, final⟩
          refine ⟨mem', held', level', free', ?_, final.work, final.alone, ?_, ?_, ?_, ?_, ?_⟩
          · rw [lowered]
            exact run
          · rw [final.number, merge_buddy_frames_number, frames_number_read]
          · rw [final.base, merge_buddy_base, base_read]
          · intro top low high before
            exact final.anchored top low high
              (merge_buddy_anchored reading.represents below member low high before)
          · intro other height taken_here page least most
            obtain ⟨notFree, notHeld⟩ := work.outside_taken taken_here ⟨least, most⟩
            rw [final.kept other height taken_here page least most,
              merge_buddy_untouched reading.represents bound member anchored notFree notHeld,
              page_read]
          · have looked := (Reaches.refl mem).read work.buddy_le
            have merge := merge_buddy_within reading.represents bound work.held_lt member anchored
            exact looked.trans rfl (merge.trans (merge_buddy_frames_number _ _ _ _) final.reach)
        · rw [if_neg accepted]
          refine ⟨_, _, _, free, rfl, ⟨work.represents.read _, work.layout⟩, ?_,
            frames_number_read _ _, base_read _ _, fun _ _ _ before => before,
            fun _ _ _ page _ _ => page_read _ _ page, (Reaches.refl mem).read work.buddy_le⟩
          intro _ member
          have facts := (work.represents.freeHead _ _).mp member
          exact accepted ⟨facts.2.2.2.symm, facts.2.2.1⟩
      · rw [if_neg below]
        exact ⟨_, _, _, free, rfl, work, fun above => absurd above below, rfl, rfl,
          fun _ _ _ before => before, fun _ _ _ _ _ _ => rfl, Reaches.refl mem⟩

/-! ## One release -/

theorem release_sound {mem : NormalMem} {held level : Nat} {free taken : Blocks}
    (work : Working mem held level free taken)
    (alone : level < buddyMaxLevel - 1 → ¬free (buddy held level) level) :
    Sound (releaseBlock mem held level) (withBlock free held level) taken := by
  have pushed := release_block_pushed work.held_lt work.head_inside work.head_not_held
  constructor
  · rw [pushed.sameNumber]
    apply work.represents.push pushed work.level_lt work.held_lt work.held_not_free work.held_not_taken
    · exact Nat.ne_of_lt work.held_lt
    · intro other inside different
      constructor
      · intro _
        exact different
      · intro _
        exact Nat.ne_of_lt inside
  · rw [pushed.sameNumber]
    exact work.layout.give_back work.held_not_taken alone

theorem release_anchored {mem : NormalMem} {held level top : Nat} {free taken : Blocks}
    (work : Working mem held level free taken) (bound : top ≤ buddyMaxLevel)
    (anchored : AnchoredBelow top mem) : AnchoredBelow top (releaseBlock mem held level) := by
  have rep := work.represents
  have pushed := release_block_pushed work.held_lt work.head_inside work.head_not_held
  intro height low
  rw [pushed.sameNumber]
  by_cases here : height = level
  · subst here
    intro _
    rw [pushed.ownList, release_block_prev work.held_lt]
  · rw [pushed.sameLists height here]
    intro inside
    have listed := rep.head_free (by omega) inside
    have notHeld : mem.freeLists height ≠ held := by
      intro same
      rw [same] at listed
      exact work.held_not_free height listed
    have notHead : mem.freeLists height ≠ mem.freeLists level := by
      intro same
      have levelNonempty : mem.freeLists level ≠ mem.framesNumber := same ▸ inside
      have other := rep.head_free work.level_lt levelNonempty
      rw [← same] at other
      exact here (rep.free_level listed other)
    rw [pushed.samePrev _ notHeld notHead]
    exact anchored height low inside

/-- A release touches the block put back and the old first block of its list. -/
theorem release_untouched {mem : NormalMem} {held level page : Nat} {free taken : Blocks}
    (work : Working mem held level free taken) (notFree : ∀ height, ¬free page height)
    (notHeld : page ≠ held) : (releaseBlock mem held level).page page = mem.page page := by
  have notHead : ¬(page = mem.freeLists level ∧ page < mem.framesNumber) := by
    rintro ⟨same, inside⟩
    have nonempty : mem.freeLists level ≠ mem.framesNumber := same ▸ Nat.ne_of_lt inside
    have member := work.represents.head_free work.level_lt nonempty
    exact notFree level (same ▸ member)
  simp only [releaseBlock, page_set_free_list, page_modify, page_modify_inside,
    frames_number_modify, frames_number_modify_inside, free_lists_modify, notHeld, notHead,
    false_and, if_false]

theorem Anchored.safe_to_free {mem : NormalMem} (anchored : Anchored mem) (pageIndex : Nat) :
    SafeToFree mem pageIndex := by
  intro level low below allFree isHead
  have inside := (allFree level low (le_refl _)).1
  rw [← isHead]
  apply anchored level below
  rw [isHead]
  exact Nat.ne_of_lt inside

/-- A block taken back, as seen from the table before and after the call. -/
structure TakenBack (mem mem' : NormalMem) (free' taken : Blocks) (index : Nat) : Prop where
  sound : Sound mem' free' (without taken index)
  number : mem'.framesNumber = mem.framesNumber
  base : mem'.base = mem.base
  anchored : ∀ top, buddyMaxLevel - 1 ≤ top → top ≤ buddyMaxLevel →
    AnchoredBelow top mem → AnchoredBelow top mem'
  kept : ∀ other height, without taken index other height → ∀ page, other ≤ page →
    page < other + 2 ^ height → mem'.page page = mem.page page
  reach : Reaches mem mem'

/-- Freeing an allocated block succeeds and takes it off the allocated blocks,
provided the buddies on the way can be unlinked. -/
theorem free_block_sound {mem : NormalMem} {free taken : Blocks} (sound : Sound mem free taken)
    {index level : Nat} (member : taken index level) (safe : SafeToFree mem index) :
    ∃ mem' free', buddySystemFreeFramePageBlock index mem = (1, mem') ∧
      TakenBack mem mem' free' taken index := by
  have rep := sound.represents
  have facts := (rep.takenHead index level).mp member
  have aligned := sound.layout.tiling.aligned (Or.inr member)
  have start : enclosing index level = index := enclosing_of_aligned aligned
  have work : Working (mem.read index) (enclosing index level) level free
      (without taken index) := by
    rw [start]
    exact ⟨(rep.grab member).read index, sound.layout.take_back member⟩
  have safeLoop : ∀ height, level ≤ height → height < buddyMaxLevel - 1 →
      (∀ step, level ≤ step → step ≤ height → free (buddyAt index step) step) →
      (mem.read index).freeLists height = buddyAt index height →
      prevOf (mem.read index) (buddyAt index height) = (mem.read index).framesNumber := by
    intro height low high allFree isHead
    apply safe height (by rw [facts.2.2.2]; exact low) high _ isHead
    intro step stepLow stepHigh
    rw [facts.2.2.2] at stepLow
    have listed := (rep.freeHead _ _).mp (allFree step stepLow stepHigh)
    exact ⟨listed.1, listed.2.2⟩
  rcases coalesce_working buddyMaxLevel (by omega) work safeLoop
    with ⟨merged, held, height, free', run, final⟩
  have guard : ¬((mem.page index).flags &&& pageFrameBlockHead = 0 ∨
      (mem.page index).flags &&& pageFrameBlockHead = 0) := by
    rw [facts.2.2.1]
    decide
  rw [start] at run
  have released := release_sound final.work final.alone
  have sameNumber : (releaseBlock merged held height).framesNumber = merged.framesNumber := by
    simp [releaseBlock]
  have sameBase : (releaseBlock merged held height).base = merged.base := by
    simp [releaseBlock]
  refine ⟨releaseBlock merged held height, _, ?_, released, ?_, ?_, ?_, ?_, ?_⟩
  · rw [buddySystemFreeFramePageBlock, if_neg (Nat.not_le.mpr facts.1)]
    dsimp only
    rw [page_read, if_neg guard, facts.2.2.2, run]
  · rw [sameNumber, final.number, frames_number_read]
  · rw [sameBase, final.base, base_read]
  · intro top low high before
    exact release_anchored final.work high (final.anchored top low high before)
  · intro other depth kept page least most
    obtain ⟨notFree, notHeld⟩ := final.work.outside_taken kept ⟨least, most⟩
    rw [release_untouched final.work notFree notHeld, final.kept other depth kept page least most,
      page_read]
  · have looked := (Reaches.refl mem).read facts.1.le
    have put := release_block_reach final.work.held_lt
      (final.work.represents.head_le final.work.level_lt)
    exact (looked.trans rfl final.reach).trans final.number put

end ChaoOS.FrameTableFree
