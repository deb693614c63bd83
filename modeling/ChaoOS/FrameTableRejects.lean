import ChaoOS.GuardedRun
import ChaoOS.FrameTableFree

/-!
# Which frees are rejected

Any caller may ask for frames and free any pointer or address it likes, twice
if it likes. The ledger keeps the heads of the blocks that were handed out and
not taken back. Whatever happened before, an entry flagged as an allocated head
is in the ledger; the guard of a release lets those pass and also every entry
that is flagged as the head of a free block.
-/

namespace ChaoOS.FrameTableRejects

open ChaoOS.KernelMath ChaoOS.GuardedRun ChaoOS.FrameTableModel ChaoOS.FrameTableAlloc
open ChaoOS.FrameTableFree

set_option autoImplicit false

/-! ## What the flags can become -/

/-- A field that may be set to one value in two rounds may be set to it in all. -/
theorem set_or_same_trans {value before between after : Nat}
    (first : between = before ∨ between = value) (second : after = between ∨ after = value) :
    after = before ∨ after = value := by
  rcases second with same | reached
  · rw [same]
    exact first
  · exact Or.inr reached

section Flags

variable (mem : NormalMem)

theorem push_right_entry (pageIndex current index : Nat) :
    (((pushRight mem pageIndex current).page index).flags = (mem.page index).flags ∨
      ((pushRight mem pageIndex current).page index).flags = pageFrameBlockHead) ∧
    ((pushRight mem pageIndex current).page index).index = (mem.page index).index := by
  constructor
  · simp only [pushRight, page_set_free_list]
    rw [page_modify]
    split_ifs
    · exact Or.inr rfl
    · left
      simp only [page_modify_keeps PageFrame.flags, implies_true]
  · simp only [pushRight, page_set_free_list, page_modify_keeps PageFrame.index, implies_true]

/-- The split loop turns entries into heads of free blocks and does nothing
else to the flags. -/
theorem split_block_entry (level pageIndex current index : Nat) :
    (((splitBlock level pageIndex current mem).page index).flags = (mem.page index).flags ∨
      ((splitBlock level pageIndex current mem).page index).flags = pageFrameBlockHead) ∧
    ((splitBlock level pageIndex current mem).page index).index = (mem.page index).index := by
  induction current generalizing mem with
  | zero => exact ⟨Or.inl rfl, rfl⟩
  | succ current induction =>
      rw [splitBlock]
      split_ifs
      · obtain ⟨flags, same⟩ := induction (pushRight mem pageIndex current)
        obtain ⟨pushed, kept⟩ := push_right_entry mem pageIndex current index
        exact ⟨set_or_same_trans pushed flags, same.trans kept⟩
      · exact ⟨Or.inl rfl, rfl⟩

theorem claim_block_entry (pageIndex level index : Nat) :
    ((claimBlock mem pageIndex level).page index).flags =
        (if index = pageIndex ∧ index < mem.framesNumber then
          pageFrameAllocated + pageFrameBlockHead else (mem.page index).flags) ∧
      ((claimBlock mem pageIndex level).page index).index = (mem.page index).index := by
  constructor
  · simp only [claimBlock, page_modify, frames_number_modify, apply_ite PageFrame.flags, ite_self]
  · simp only [claimBlock, page_modify_keeps PageFrame.index, implies_true]

/-- The coalescing loop turns entries into plain ones and does nothing else to
the flags. -/
theorem coalesce_entry (fuel pageIndex level index : Nat) :
    (((coalesce fuel mem pageIndex level).1.page index).flags = (mem.page index).flags ∨
      ((coalesce fuel mem pageIndex level).1.page index).flags = pageFrameAllocated) ∧
    ((coalesce fuel mem pageIndex level).1.page index).index = (mem.page index).index := by
  induction fuel generalizing mem pageIndex level with
  | zero => exact ⟨Or.inl rfl, rfl⟩
  | succ fuel induction =>
      rw [coalesce]
      dsimp only
      split_ifs
      · obtain ⟨flags, same⟩ := induction
          (mergeBuddy (mem.read (pageIndex ^^^ (1 <<< level))) level pageIndex
            (pageIndex ^^^ (1 <<< level)))
          (lowerOf pageIndex (pageIndex ^^^ (1 <<< level))) (level + 1)
        rw [(merge_buddy_identity _ _ _ _ _).1, page_read] at same
        refine ⟨set_or_same_trans ?_ flags, same⟩
        rw [merge_buddy_flags, page_read]
        split_ifs
        · exact Or.inr rfl
        · exact Or.inl rfl
      · exact ⟨Or.inl rfl, rfl⟩
      · exact ⟨Or.inl rfl, rfl⟩

/-- The block the loop was given is the one it ends with, or has become plain. -/
theorem coalesce_given (fuel pageIndex level : Nat) (inside : pageIndex < mem.framesNumber) :
    (coalesce fuel mem pageIndex level).2.1 = pageIndex ∨
      ((coalesce fuel mem pageIndex level).1.page pageIndex).flags = pageFrameAllocated := by
  induction fuel generalizing mem level with
  | zero => exact Or.inl rfl
  | succ fuel induction =>
      rw [coalesce]
      dsimp only
      split_ifs
      · generalize pageIndex ^^^ (1 <<< level) = other
        by_cases lower : lowerOf pageIndex other = pageIndex
        · rw [lower]
          apply induction
          rw [merge_buddy_frames_number, frames_number_read]
          exact inside
        · have upper : upperOf pageIndex other = pageIndex := by
            unfold lowerOf upperOf at *
            split_ifs at lower ⊢
            · rfl
            · exact absurd rfl lower
          have plain : ((mergeBuddy (mem.read other) level pageIndex other).page pageIndex).flags =
              pageFrameAllocated := by
            rw [merge_buddy_flags, upper, if_pos ⟨rfl, inside⟩]
          rcases (coalesce_entry (mergeBuddy (mem.read other) level pageIndex other) fuel
            (lowerOf pageIndex other) (level + 1) pageIndex).1 with same | now
          · exact Or.inr (same.trans plain)
          · exact Or.inr now
      · exact Or.inl rfl
      · exact Or.inl rfl

theorem release_block_entry (pageIndex level index : Nat) :
    ((releaseBlock mem pageIndex level).page index).flags =
        (if index = pageIndex ∧ index < mem.framesNumber then pageFrameBlockHead
          else (mem.page index).flags) ∧
      ((releaseBlock mem pageIndex level).page index).index = (mem.page index).index := by
  constructor
  · simp only [releaseBlock, page_set_free_list, page_modify, page_modify_inside,
      frames_number_modify, frames_number_modify_inside, apply_ite PageFrame.flags, ite_self]
  · simp only [releaseBlock, page_set_free_list, page_modify_keeps PageFrame.index,
      page_modify_inside_keeps PageFrame.index, implies_true]

end Flags

/-! ## One call -/

section Calls

variable {mem mem' : NormalMem}

theorem get_block_entry {level : Nat} {result : Option Nat}
    (call : buddySystemGetFramePageBlock level mem = (result, mem')) :
    mem'.framesNumber = mem.framesNumber ∧ mem'.base = mem.base ∧
      ∀ index, ((mem'.page index).flags = (mem.page index).flags ∨
          (mem'.page index).flags = pageFrameBlockHead ∨
          ((mem'.page index).flags = pageFrameAllocated + pageFrameBlockHead ∧
            result = some index)) ∧
        (mem'.page index).index = (mem.page index).index := by
  unfold buddySystemGetFramePageBlock at call
  dsimp only at call
  split_ifs at call with exhausted
  · cases call
    exact ⟨rfl, rfl, fun index => ⟨Or.inl rfl, rfl⟩⟩
  · generalize availableLevel mem buddyMaxLevel level = current at call
    cases call
    let popped := (mem.read (mem.freeLists current)).setFreeList current
      ((mem.read (mem.freeLists current)).page (mem.freeLists current)).nextFrame
    obtain ⟨number, base⟩ :=
      split_block_frames_number level (mem.freeLists current) current popped
    refine ⟨number, base, ?_⟩
    intro index
    obtain ⟨claimed, same⟩ := claim_block_entry
      (splitBlock level (mem.freeLists current) current popped) (mem.freeLists current) level index
    obtain ⟨split, kept⟩ := split_block_entry popped level (mem.freeLists current) current index
    refine ⟨?_, same.trans kept⟩
    rw [claimed]
    split_ifs with own
    · exact Or.inr (Or.inr ⟨rfl, congrArg some own.1.symm⟩)
    · rcases split with split | split
      · exact Or.inl split
      · exact Or.inr (Or.inl split)

theorem coalesce_number (fuel pageIndex level : Nat) (mem : NormalMem) :
    (coalesce fuel mem pageIndex level).1.framesNumber = mem.framesNumber ∧
      (coalesce fuel mem pageIndex level).1.base = mem.base := by
  induction fuel generalizing mem pageIndex level with
  | zero => exact ⟨rfl, rfl⟩
  | succ fuel induction =>
      rw [coalesce]
      dsimp only
      split_ifs
      · obtain ⟨number, base⟩ := induction (lowerOf pageIndex (pageIndex ^^^ (1 <<< level)))
          (level + 1) (mergeBuddy (mem.read (pageIndex ^^^ (1 <<< level))) level pageIndex
            (pageIndex ^^^ (1 <<< level)))
        exact ⟨number.trans (merge_buddy_frames_number _ _ _ _),
          base.trans (merge_buddy_base _ _ _ _)⟩
      · exact ⟨rfl, rfl⟩
      · exact ⟨rfl, rfl⟩

/-- The guard of a release: the entry is no head of any block. -/
def NoHead (mem : NormalMem) (index : Nat) : Prop :=
  mem.framesNumber ≤ index ∨ (mem.page index).flags &&& pageFrameBlockHead = 0

/-- Nothing but the record of table accesses may differ from before. -/
def Rejected (mem : NormalMem) (answer : Nat × NormalMem) : Prop :=
  answer.1 = 0 ∧ answer.2 = { mem with accesses := answer.2.accesses }

theorem free_block_cases (index : Nat) (mem : NormalMem) :
    (NoHead mem index ∧ Rejected mem (buddySystemFreeFramePageBlock index mem)) ∨
      (¬NoHead mem index ∧ ∃ level, buddySystemFreeFramePageBlock index mem =
        (1, releaseBlock (coalesce buddyMaxLevel (mem.read index) index level).1
          (coalesce buddyMaxLevel (mem.read index) index level).2.1
          (coalesce buddyMaxLevel (mem.read index) index level).2.2)) := by
  rw [buddySystemFreeFramePageBlock]
  by_cases outside : mem.framesNumber ≤ index
  · rw [if_pos outside]
    exact Or.inl ⟨Or.inl outside, rfl, rfl⟩
  · rw [if_neg outside]
    dsimp only
    rw [page_read]
    by_cases clear : (mem.page index).flags &&& pageFrameBlockHead = 0
    · rw [if_pos (Or.inl clear)]
      exact Or.inl ⟨Or.inr clear, rfl, rfl⟩
    · rw [if_neg fun either => either.elim clear clear]
      exact Or.inr ⟨fun guard => guard.elim outside clear, (mem.page index).level, rfl⟩

theorem free_block_rejected_iff (index : Nat) (mem : NormalMem) :
    Rejected mem (buddySystemFreeFramePageBlock index mem) ↔ NoHead mem index := by
  rcases free_block_cases index mem with ⟨guard, rejected⟩ | ⟨guard, level, call⟩
  · exact ⟨fun _ => guard, fun _ => rejected⟩
  · rw [call]
    constructor
    · intro rejected
      exact absurd rejected.1 Nat.one_ne_zero
    · intro noHead
      exact absurd noHead guard

/-- A release never flags an entry as an allocated head, and the entry it was
given is not one afterwards. -/
theorem free_block_entry {index : Nat} (head : ¬NoHead mem index)
    (call : buddySystemFreeFramePageBlock index mem = (1, mem')) :
    mem'.framesNumber = mem.framesNumber ∧ mem'.base = mem.base ∧
      (∀ other, ((mem'.page other).flags = (mem.page other).flags ∨
          (mem'.page other).flags = pageFrameAllocated ∨
          (mem'.page other).flags = pageFrameBlockHead) ∧
        (mem'.page other).index = (mem.page other).index) ∧
      ((mem'.page index).flags = pageFrameAllocated ∨
        (mem'.page index).flags = pageFrameBlockHead) := by
  have inside : index < mem.framesNumber := Nat.lt_of_not_le fun outside => head (Or.inl outside)
  rcases free_block_cases index mem with ⟨guard, -⟩ | ⟨-, level, done⟩
  · exact absurd guard head
  · rw [call] at done
    obtain ⟨-, table⟩ := Prod.mk.inj done
    subst table
    obtain ⟨number, base⟩ := coalesce_number buddyMaxLevel index level (mem.read index)
    have given := coalesce_given (mem.read index) buddyMaxLevel index level inside
    have merged := coalesce_entry (mem.read index) buddyMaxLevel index level
    generalize coalesce buddyMaxLevel (mem.read index) index level = result at *
    obtain ⟨table, held, top⟩ := result
    have entry := release_block_entry table held top
    refine ⟨?_, ?_, ?_, ?_⟩
    · simpa [releaseBlock] using number
    · simpa [releaseBlock] using base
    · intro other
      refine ⟨?_, (entry other).2.trans (merged other).2⟩
      rw [(entry other).1]
      split_ifs
      · exact Or.inr (Or.inr rfl)
      · rcases (merged other).1 with same | plain
        · exact Or.inl same
        · exact Or.inr (Or.inl plain)
    · rw [(entry index).1]
      split_ifs with own
      · exact Or.inr rfl
      · rcases given with same | plain
        · have here : index < table.framesNumber := by
            rw [show table.framesNumber = mem.framesNumber from number]
            exact inside
          exact absurd ⟨same.symm, here⟩ own
        · exact Or.inl plain

end Calls

/-! ## The ledger -/

/-- `heads` are the heads of the blocks handed out and not taken back. -/
structure Pool where
  mem : NormalMem
  heads : List Nat

inductive PoolOp where
  | frameAlloc (framePageNumber : Nat)
  | physicAlloc (byteSize : Nat)
  | frameFree (frame : Option Nat)
  | physicFree (physicAddr : Nat)

/-- A release that answers 1 takes the block at `head` back. -/
def giveBack (heads : List Nat) (head : Nat) (answer : Nat × NormalMem) : Pool :=
  ⟨answer.2, if answer.1 = 1 then heads.filter fun other => other ≠ head else heads⟩

/-- Every request and every argument of a release is allowed. The block behind
the address of `physic_alloc` is the one that `frame_alloc` finds. -/
def poolStep (pool : Pool) : PoolOp → Option Pool
  | .frameAlloc framePageNumber =>
      (frameAlloc framePageNumber pool.mem).map fun answer =>
        ⟨answer.2, answer.1.toList ++ pool.heads⟩
  | .physicAlloc byteSize =>
      (frameAlloc (pageCount byteSize) pool.mem).bind fun answer =>
        (physicAlloc byteSize pool.mem).map fun addressed =>
          ⟨addressed.2, answer.1.toList ++ pool.heads⟩
  | .frameFree none => some ⟨(frameFree none pool.mem).2, pool.heads⟩
  | .frameFree (some position) =>
      some (giveBack pool.heads (pool.mem.page position).index
        (frameFree (some position) pool.mem))
  | .physicFree physicAddr =>
      some (giveBack pool.heads (sub32 physicAddr pool.mem.base / pageFrameSize)
        (physicFree physicAddr pool.mem))

def freshPool (memBase framesNumber : Nat) : Pool := ⟨initNormalMemZone memBase framesNumber, []⟩

structure Ledgered (memBase framesNumber : Nat) (pool : Pool) : Prop where
  number : pool.mem.framesNumber = framesNumber
  base : pool.mem.base = memBase
  identity : ∀ index < framesNumber, (pool.mem.page index).index = index
  flags : ∀ index < framesNumber, (pool.mem.page index).flags = pageFrameAllocated ∨
    (pool.mem.page index).flags = pageFrameBlockHead ∨
    (pool.mem.page index).flags = pageFrameAllocated + pageFrameBlockHead
  recorded : ∀ index < framesNumber,
    (pool.mem.page index).flags = pageFrameAllocated + pageFrameBlockHead → index ∈ pool.heads

section Ledger

variable {memBase framesNumber : Nat} {pool next : Pool}

theorem Ledgered.get (ledgered : Ledgered memBase framesNumber pool) {level : Nat}
    {result : Option Nat} {mem' : NormalMem}
    (call : buddySystemGetFramePageBlock level pool.mem = (result, mem')) :
    Ledgered memBase framesNumber ⟨mem', result.toList ++ pool.heads⟩ := by
  obtain ⟨number, base, entry⟩ := get_block_entry call
  constructor
  · exact number.trans ledgered.number
  · exact base.trans ledgered.base
  · intro index inside
    exact (entry index).2.trans (ledgered.identity index inside)
  · intro index inside
    rcases (entry index).1 with same | free | ⟨handed, -⟩
    · simp only [same]
      exact ledgered.flags index inside
    · exact Or.inr (Or.inl free)
    · exact Or.inr (Or.inr handed)
  · intro index inside allocated
    rcases (entry index).1 with same | free | ⟨-, handed⟩
    · exact List.mem_append_right _ (ledgered.recorded index inside (same.symm.trans allocated))
    · have both := free.symm.trans allocated
      exact absurd both (by decide)
    · exact List.mem_append_left _ (Option.mem_toList.mpr handed)

theorem Ledgered.read (ledgered : Ledgered memBase framesNumber pool) (index : Nat) :
    Ledgered memBase framesNumber ⟨pool.mem.read index, pool.heads⟩ :=
  ⟨ledgered.number, ledgered.base, ledgered.identity, ledgered.flags, ledgered.recorded⟩

theorem Ledgered.give_back (ledgered : Ledgered memBase framesNumber pool) (index : Nat) :
    Ledgered memBase framesNumber
      (giveBack pool.heads index (buddySystemFreeFramePageBlock index pool.mem)) := by
  rcases free_block_cases index pool.mem with ⟨-, zero, table⟩ | ⟨head, level, call⟩
  · rw [giveBack, zero, if_neg (by decide), table]
    exact ⟨ledgered.number, ledgered.base, ledgered.identity, ledgered.flags, ledgered.recorded⟩
  · rw [call, giveBack, if_pos rfl]
    obtain ⟨number, base, entry, own⟩ := free_block_entry head call
    constructor
    · exact number.trans ledgered.number
    · exact base.trans ledgered.base
    · intro other inside
      exact (entry other).2.trans (ledgered.identity other inside)
    · intro other inside
      rcases (entry other).1 with same | plain | free
      · simp only [same]
        exact ledgered.flags other inside
      · exact Or.inl plain
      · exact Or.inr (Or.inl free)
    · intro other inside allocated
      have different : other ≠ index := by
        intro same
        subst same
        rcases own with plain | free
        · exact absurd (plain.symm.trans allocated) (by decide)
        · exact absurd (free.symm.trans allocated) (by decide)
      rcases (entry other).1 with same | plain | free
      · have recorded := ledgered.recorded other inside (same.symm.trans allocated)
        exact List.mem_filter.mpr ⟨recorded, by simpa using different⟩
      · exact absurd (plain.symm.trans allocated) (by decide)
      · exact absurd (free.symm.trans allocated) (by decide)

/-- A step keeps the table and the ledger in agreement, whatever its arguments. -/
theorem pool_step_ledgered {op : PoolOp} (ledgered : Ledgered memBase framesNumber pool)
    (step : poolStep pool op = some next) : Ledgered memBase framesNumber next := by
  cases op with
  | frameAlloc framePageNumber =>
      obtain ⟨⟨result, mem'⟩, call, same⟩ := Option.map_eq_some_iff.mp step
      subst same
      obtain ⟨level, -, found⟩ := Option.bind_eq_some_iff.mp call
      exact ledgered.get (Option.some.inj found)
  | physicAlloc byteSize =>
      obtain ⟨⟨result, mem'⟩, call, rest⟩ := Option.bind_eq_some_iff.mp step
      obtain ⟨⟨address, mem''⟩, addressed, same⟩ := Option.map_eq_some_iff.mp rest
      subst same
      obtain ⟨level, -, found⟩ := Option.bind_eq_some_iff.mp call
      have after := ledgered.get (Option.some.inj found)
      rw [physicAlloc, call] at addressed
      cases result with
      | none =>
          cases addressed
          exact after
      | some index =>
          cases addressed
          exact after.read index
  | frameFree frame =>
      cases frame with
      | none =>
          cases step
          exact ledgered
      | some position =>
          cases step
          exact (ledgered.read position).give_back (pool.mem.page position).index
  | physicFree physicAddr =>
      cases step
      rw [physicFree]
      split_ifs with null
      · exact ledgered
      · exact ledgered.give_back _

theorem place_block_entry (mem : NormalMem) (i level index : Nat) :
    (((placeBlock mem i level).page index).flags = (mem.page index).flags ∨
      ((placeBlock mem i level).page index).flags = pageFrameBlockHead) ∧
    ((placeBlock mem i level).page index).index = (mem.page index).index := by
  constructor
  · simp only [placeBlock, page_set_free_list, page_modify_keeps PageFrame.flags, implies_true]
    rw [page_modify]
    split_ifs
    · exact Or.inr rfl
    · exact Or.inl rfl
  · simp only [placeBlock, page_set_free_list, page_modify_keeps PageFrame.index, implies_true]

theorem place_blocks_entry (fuel i blockPageSize blockLevel : Nat) (mem : NormalMem) :
    (placeBlocks fuel i blockPageSize blockLevel mem).framesNumber = mem.framesNumber ∧
      (placeBlocks fuel i blockPageSize blockLevel mem).base = mem.base ∧
      ∀ index, (((placeBlocks fuel i blockPageSize blockLevel mem).page index).flags =
            (mem.page index).flags ∨
          ((placeBlocks fuel i blockPageSize blockLevel mem).page index).flags =
            pageFrameBlockHead) ∧
        ((placeBlocks fuel i blockPageSize blockLevel mem).page index).index =
          (mem.page index).index := by
  induction fuel generalizing i blockPageSize blockLevel mem with
  | zero => exact ⟨rfl, rfl, fun index => ⟨Or.inl rfl, rfl⟩⟩
  | succ fuel induction =>
      rw [placeBlocks]
      split_ifs
      · generalize shrinkBlock mem.framesNumber i buddyMaxLevel blockPageSize blockLevel = block
        obtain ⟨number, base, entry⟩ :=
          induction (i + block.1) block.1 block.2 (placeBlock mem i block.2)
        refine ⟨number, base, ?_⟩
        intro index
        obtain ⟨flags, same⟩ := entry index
        obtain ⟨placed, kept⟩ := place_block_entry mem i block.2 index
        exact ⟨set_or_same_trans placed flags, same.trans kept⟩
      · exact ⟨rfl, rfl, fun index => ⟨Or.inl rfl, rfl⟩⟩

theorem fresh_pool_ledgered (memBase framesNumber : Nat) :
    Ledgered memBase framesNumber (freshPool memBase framesNumber) := by
  obtain ⟨number, base, entry⟩ := place_blocks_entry framesNumber 0 (1 <<< (buddyMaxLevel - 1))
    (buddyMaxLevel - 1) (clearedZone memBase framesNumber)
  have cleared : ∀ index < framesNumber,
      (clearedZone memBase framesNumber).page index = initialFrame memBase framesNumber index :=
    fun index inside => if_pos inside
  constructor
  · exact number
  · exact base
  · intro index inside
    have same := (entry index).2
    rw [cleared index inside] at same
    exact same
  · intro index inside
    have flags := (entry index).1
    rw [cleared index inside] at flags
    exact flags.imp_right Or.inl
  · intro index inside allocated
    have flags := (entry index).1
    rw [cleared index inside] at flags
    rcases flags with plain | free
    · have both : pageFrameAllocated = pageFrameAllocated + pageFrameBlockHead :=
        plain.symm.trans allocated
      exact absurd both (by decide)
    · exact absurd (free.symm.trans allocated) (by decide)

theorem pool_run_ledgered {ops : List PoolOp} {final : Pool}
    (run : runFrom poolStep (freshPool memBase framesNumber) ops = some final) :
    Ledgered memBase framesNumber final :=
  run_preserves (fun _ _ _ ledgered step => pool_step_ledgered ledgered step)
    (fresh_pool_ledgered memBase framesNumber) run

end Ledger

/-! ## Invalid arguments -/

/-- The frame starts a free block. -/
def FreeHead (mem : NormalMem) (index : Nat) : Prop :=
  index < mem.framesNumber ∧ (mem.page index).flags = pageFrameBlockHead

/-- The address lies in the page of the frame. -/
def InFrame (base index address : Nat) : Prop :=
  base + pageFrameSize * index ≤ address ∧ address < base + pageFrameSize * (index + 1)

section Arguments

variable {memBase framesNumber : Nat} {pool : Pool}

/-- The unsigned difference finds the frame of an address inside the pool, and
no frame of the pool for an address outside. -/
theorem frame_of_address_iff (fits : memBase + pageFrameSize * framesNumber ≤ wordSize)
    {address index : Nat} (word : address < wordSize) (inside : index < framesNumber) :
    sub32 address memBase / pageFrameSize = index ↔ InFrame memBase index address := by
  unfold InFrame
  rw [pageFrameSize] at *
  by_cases above : memBase ≤ address
  · rw [sub32_of_le word above]
    omega
  · have small : memBase < wordSize := by omega
    rw [sub32, Nat.mod_eq_of_lt small, Nat.mod_eq_of_lt (by omega)]
    omega

/-- Outside the ledger the guard of a release stops everything but the heads of
free blocks. -/
theorem Ledgered.no_head_iff (ledgered : Ledgered memBase framesNumber pool) {index : Nat}
    (invalid : index < framesNumber → index ∉ pool.heads) :
    NoHead pool.mem index ↔ ¬FreeHead pool.mem index := by
  rw [NoHead, FreeHead, ledgered.number]
  by_cases inside : index < framesNumber
  · have entry : (pool.mem.page index).flags = pageFrameAllocated ∨
        (pool.mem.page index).flags = pageFrameBlockHead := by
      rcases ledgered.flags index inside with plain | free | allocated
      · exact Or.inl plain
      · exact Or.inr free
      · exact absurd (ledgered.recorded index inside allocated) (invalid inside)
    rcases entry with plain | free
    · rw [plain]
      exact iff_of_true (Or.inr (by decide)) fun both => absurd both.2 (by decide)
    · rw [free]
      exact iff_of_false (fun guard => guard.elim (Nat.not_le.mpr inside) (by decide))
        fun nothing => nothing ⟨inside, rfl⟩
  · exact iff_of_true (Or.inl (Nat.le_of_not_lt inside)) fun both => inside both.1

end Arguments

/-- After any allocations and frees whatever, an argument that names no
allocated block is rejected exactly when it does not name a free block. -/
theorem invalid_free_rejected_iff {memBase framesNumber : Nat}
    (fits : memBase + pageFrameSize * framesNumber ≤ wordSize) {ops : List PoolOp} {final : Pool}
    (run : runFrom poolStep (freshPool memBase framesNumber) ops = some final) :
    (∀ index, index ∉ final.heads →
      (Rejected final.mem (buddySystemFreeFramePageBlock index final.mem) ↔
        ¬FreeHead final.mem index)) ∧
    (∀ index < framesNumber, index ∉ final.heads →
      (Rejected final.mem (frameFree (some index) final.mem) ↔ ¬FreeHead final.mem index)) ∧
    ∀ address < wordSize, (∀ head ∈ final.heads, ¬InFrame memBase head address) →
      (Rejected final.mem (physicFree address final.mem) ↔
        address = 0 ∨ ∀ index, InFrame memBase index address → ¬FreeHead final.mem index) := by
  have ledgered := pool_run_ledgered run
  refine ⟨?_, ?_, ?_⟩
  · intro index invalid
    rw [free_block_rejected_iff]
    exact ledgered.no_head_iff fun _ => invalid
  · intro index inside invalid
    have reading := ledgered.read index
    rw [frameFree, ledgered.identity index inside]
    have rejected := free_block_rejected_iff index (final.mem.read index)
    rw [reading.no_head_iff fun _ => invalid] at rejected
    exact rejected
  · intro address word invalid
    rw [physicFree, ledgered.base]
    by_cases null : address = 0
    · rw [if_pos null]
      exact iff_of_true ⟨rfl, rfl⟩ (Or.inl null)
    · rw [if_neg null, free_block_rejected_iff, ledgered.no_head_iff]
      · constructor
        · intro notFree
          refine Or.inr ?_
          intro index within free
          have inside : index < framesNumber := ledgered.number ▸ free.1
          rw [(frame_of_address_iff fits word inside).mpr within] at notFree
          exact notFree free
        · rintro (zero | outside) free
          · exact null zero
          · have inside := free.1
            rw [ledgered.number] at inside
            exact outside _ ((frame_of_address_iff fits word inside).mp rfl) free
      · intro inside listed
        exact invalid _ listed ((frame_of_address_iff fits word inside).mp rfl)

/-- A frame inside an allocated block, and an address below the pool. -/
theorem invalid_free_rejected_sample : ∃ final,
    runFrom poolStep (freshPool 0x200000 1024) [.frameAlloc 4] = some final ∧
      Rejected final.mem (buddySystemFreeFramePageBlock 1 final.mem) ∧
      Rejected final.mem (frameFree (some 1) final.mem) ∧
      Rejected final.mem (physicFree 0x1FFFFF final.mem) := by
  have reached : (runFrom poolStep (freshPool 0x200000 1024) [.frameAlloc 4]).map
      (fun pool => (pool.heads, (pool.mem.page 1).flags)) = some ([0], 1) := by
    decide +kernel
  obtain ⟨final, run, facts⟩ := Option.map_eq_some_iff.mp reached
  obtain ⟨heads, flags⟩ := Prod.mk.inj facts
  have invalid : 1 ∉ final.heads := by
    rw [heads]
    decide
  have notFree : ¬FreeHead final.mem 1 := by
    intro free
    exact absurd (flags.symm.trans free.2) (by decide)
  obtain ⟨byIndex, byFrame, byAddress⟩ :=
    invalid_free_rejected_iff (show 0x200000 + pageFrameSize * 1024 ≤ wordSize by decide) run
  have below : ∀ index, ¬InFrame 0x200000 index 0x1FFFFF := by
    intro index within
    have low := within.1
    omega
  refine ⟨final, run, (byIndex 1 invalid).mpr notFree,
    (byFrame 1 (by decide) invalid).mpr notFree,
    (byAddress 0x1FFFFF (by decide) fun head _ => below head).mpr (Or.inr ?_)⟩
  intro index within
  exact absurd within (below index)

/-- A frame is allocated and freed twice. The first release merges it back into
the block of all 1024 frames, whose head it is, and the second one passes the
guard and puts that block on its list again. -/
theorem double_free_accepted : ¬∀ memBase framesNumber,
    memBase + pageFrameSize * framesNumber ≤ wordSize → ∀ ops final,
      runFrom poolStep (freshPool memBase framesNumber) ops = some final →
      ∀ index < framesNumber, index ∉ final.heads →
        Rejected final.mem (frameFree (some index) final.mem) := by
  intro always
  have reached : (runFrom poolStep (freshPool 0x200000 1024)
      [.frameAlloc 1, .frameFree (some 0)]).map
      (fun pool => (pool.heads, (frameFree (some 0) pool.mem).1)) = some ([], 1) := by
    decide +kernel
  obtain ⟨final, run, facts⟩ := Option.map_eq_some_iff.mp reached
  obtain ⟨heads, answer⟩ := Prod.mk.inj facts
  have rejected := always 0x200000 1024 (by decide) _ final run 0 (by decide) (by
    rw [heads]
    exact List.not_mem_nil)
  rw [Rejected, answer] at rejected
  exact absurd rejected.1 (by decide)

end ChaoOS.FrameTableRejects
