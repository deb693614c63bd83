import ChaoOS.FrameTableModel

/-!
# How far the frame allocator reaches

The accesses that a function of the allocator adds to the log. The end mark of the
lists is the number of the entry behind the table: a push on an empty list writes the
back link of that entry, and the coalescing loop reads its flags and its level when
it asks for the buddy of the pool's last block.
-/

namespace ChaoOS.FrameTableReach

open ChaoOS.FrameTableModel

set_option autoImplicit false

/-- Every access was to an entry of the table or to the one behind it. -/
def WithinTable (mem : NormalMem) : Prop := ∀ index ∈ mem.accesses, index ≤ mem.framesNumber

/-- So were the accesses that have come since `mem`. -/
def Reaches (mem mem' : NormalMem) : Prop :=
  ∀ index ∈ mem'.accesses, index ∈ mem.accesses ∨ index ≤ mem.framesNumber

variable {mem mem' mem'' : NormalMem} {index level : Nat}

theorem WithinTable.reach (within : WithinTable mem) (number : mem'.framesNumber = mem.framesNumber)
    (reach : Reaches mem mem') : WithinTable mem' := by
  intro index accessed
  rw [number]
  exact (reach index accessed).elim (within index) id

namespace Reaches

theorem refl (mem : NormalMem) : Reaches mem mem := fun _ accessed => Or.inl accessed

theorem trans (first : Reaches mem mem') (number : mem'.framesNumber = mem.framesNumber)
    (second : Reaches mem' mem'') : Reaches mem mem'' := by
  intro index accessed
  rcases second index accessed with earlier | inside
  · exact first index earlier
  · exact Or.inr (number ▸ inside)

theorem read (reach : Reaches mem mem') (inside : index ≤ mem.framesNumber) :
    Reaches mem (mem'.read index) := by
  intro other accessed
  rcases List.mem_cons.mp accessed with same | earlier
  · exact Or.inr (same ▸ inside)
  · exact reach other earlier

theorem modify (reach : Reaches mem mem') (change : PageFrame → PageFrame)
    (inside : index ≤ mem.framesNumber) : Reaches mem (mem'.modify index change) := by
  intro other accessed
  rcases List.mem_cons.mp accessed with same | earlier
  · exact Or.inr (same ▸ inside)
  · exact reach other earlier

theorem modifyInside (reach : Reaches mem mem') (change : PageFrame → PageFrame)
    (inside : index ≤ mem.framesNumber) : Reaches mem (mem'.modifyInside index change) := by
  rw [NormalMem.modifyInside]
  split_ifs
  · exact reach.modify change inside
  · exact reach

theorem setFreeList (reach : Reaches mem mem') (level index : Nat) :
    Reaches mem (mem'.setFreeList level index) :=
  reach

theorem bypass (reach : Reaches mem mem') (level next : Nat) (inside : index ≤ mem.framesNumber) :
    Reaches mem (mem'.bypass level index next) := by
  rw [NormalMem.bypass]
  split_ifs
  · exact reach.setFreeList level next
  · exact reach.modify _ inside

end Reaches

/-! ## The steps of the loops -/

theorem place_block_reach (inside : index < mem.framesNumber)
    (head : mem.freeLists level ≤ mem.framesNumber) : Reaches mem (placeBlock mem index level) := by
  unfold placeBlock
  apply Reaches.setFreeList
  refine Reaches.modify ?_ _ head
  refine Reaches.modify ?_ _ inside.le
  refine Reaches.modify ?_ _ inside.le
  exact (Reaches.refl mem).modify _ inside.le

theorem push_right_reach (upper : index ^^^ (1 <<< level) < mem.framesNumber)
    (head : mem.freeLists level ≤ mem.framesNumber) : Reaches mem (pushRight mem index level) := by
  unfold pushRight
  apply Reaches.setFreeList
  refine Reaches.modify ?_ _ upper.le
  refine Reaches.modify ?_ _ upper.le
  refine Reaches.modify ?_ _ head
  exact (Reaches.refl mem).modify _ upper.le

theorem claim_block_reach (inside : index < mem.framesNumber) (level : Nat) :
    Reaches mem (claimBlock mem index level) := by
  unfold claimBlock
  refine Reaches.modify ?_ _ inside.le
  refine Reaches.modify ?_ _ inside.le
  refine Reaches.modify ?_ _ inside.le
  exact (Reaches.refl mem).modify _ inside.le

theorem merge_buddy_reach {other : Nat} (inside : index < mem.framesNumber)
    (otherInside : other < mem.framesNumber)
    (prev : (mem.page other).prevFrame ≤ mem.framesNumber)
    (next : (mem.page other).nextFrame ≤ mem.framesNumber) (level : Nat) :
    Reaches mem (mergeBuddy mem level index other) := by
  have upper : upperOf index other < mem.framesNumber := by
    unfold upperOf
    split_ifs <;> assumption
  have lower : lowerOf index other < mem.framesNumber := by
    unfold lowerOf
    split_ifs <;> assumption
  unfold mergeBuddy
  refine Reaches.modify ?_ _ lower.le
  refine Reaches.modify ?_ _ upper.le
  refine Reaches.modify ?_ _ upper.le
  refine Reaches.modifyInside ?_ _ next
  refine Reaches.bypass ?_ level _ prev
  exact (Reaches.refl mem).read otherInside.le

theorem release_block_reach (inside : index < mem.framesNumber)
    (head : mem.freeLists level ≤ mem.framesNumber) :
    Reaches mem (releaseBlock mem index level) := by
  unfold releaseBlock
  apply Reaches.setFreeList
  refine Reaches.modify ?_ _ inside.le
  refine Reaches.modifyInside ?_ _ head
  refine Reaches.modify ?_ _ inside.le
  refine Reaches.modify ?_ _ inside.le
  exact (Reaches.refl mem).modify _ inside.le

end ChaoOS.FrameTableReach
