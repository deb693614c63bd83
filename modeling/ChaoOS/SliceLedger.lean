import ChaoOS.DenseLevels
import ChaoOS.SliceHeapRuns

/-!
# A ledger of the slices

Runs of `kmalloc` without `kfree`. The ledger notes for each level what its
requests returned, which pages it took for slices and which for managers. The
frames on offer are not in use, and clients write into their own regions only.
Every request is then served, and every level stays as `LevelServed` says.
-/

namespace ChaoOS.SliceLedger

open ChaoOS.KernelMath ChaoOS.IndexList ChaoOS.PageDirectory ChaoOS.SliceHeapModel
open ChaoOS.SliceLists ChaoOS.SliceHeapInvariant ChaoOS.SliceHeapAlloc ChaoOS.SliceHeapGrow
open ChaoOS.SliceHeapMalloc ChaoOS.SliceHeapRuns ChaoOS.DenseManagers ChaoOS.DenseLevels
open ChaoOS.GuardedRun
open ChaoOS.KernelHeap (frameRequests)
open ChaoOS.FrameTableModel (pageCount)
open ChaoOS.RequestSizing (block_covers)
open ChaoOS.SliceHeapModel.Manager (nextOf)

set_option autoImplicit false

/-! ## The ledger -/

/-- Beside the heap and the live regions: for each level the pointers its
requests got and the slice pages it took, oldest first, and the pages of its
managers, newest first. -/
structure Ledger where
  heap : Heap
  live : List (Nat × Nat)
  answers : Nat → List Nat
  pages : Nat → List Nat
  managers : Nat → List Nat

/-- A request comes with the frames that the frame allocator offers during it. -/
inductive RequestOp where
  | kmalloc (byteSize : Nat) (frames : List Nat)
  | write (address value : Nat)

/-- The null pointer is no region. -/
def withRegion (pointer byteSize : Nat) (live : List (Nat × Nat)) : List (Nat × Nat) :=
  if pointer = 0 then live else (pointer, byteSize) :: live

theorem mem_with_region {pointer byteSize : Nat} {live : List (Nat × Nat)} {region : Nat × Nat}
    (member : region ∈ withRegion pointer byteSize live) :
    region ∈ live ∨ region = (pointer, byteSize) := by
  unfold withRegion at member
  split_ifs at member
  · exact Or.inl member
  · exact (List.mem_cons.mp member).symm

/-- A slice request has taken the frames `taken`: the last one for slices, one
before it for a manager. -/
def Ledger.note (ledger : Ledger) (level : Nat) (taken : List Nat) (pointer : Nat) : Ledger :=
  { ledger with
    answers := Function.update ledger.answers level (ledger.answers level ++ [pointer])
    pages := Function.update ledger.pages level (ledger.pages level ++ taken.getLast?.toList)
    managers := Function.update ledger.managers level (taken.dropLast ++ ledger.managers level) }

def framesTaken (heap : Heap) (level : Nat) (frames : List Nat) : List Nat :=
  frames.take (frameRequests heap managerFuel (heap.allocMs level))

def ledgerStep (ledger : Ledger) : RequestOp → Option Ledger
  | .kmalloc byteSize frames =>
      let level := sliceLevel byteSize pageSliceLevel 0
      (kmalloc byteSize (frames.map some) ledger.heap).map fun result =>
        let noted :=
          if level < pageSliceLevel then
            ledger.note level (framesTaken ledger.heap level frames) result.1
          else ledger
        { noted with heap := result.2, live := withRegion result.1 byteSize ledger.live }
  | .write address value => some { ledger with heap := ledger.heap.storeByte address value }

/-- The first frame on offer starts a block of `count` frames that are not in use. -/
def BlockOffered (framesNumber count : Nat) (heap : Heap) : List Nat → Prop
  | [] => False
  | block :: _ => ∀ k ∈ List.range' block count, k < framesNumber ∧ k ∉ heap.framesInUse

/-- The frames on offer are enough for the request and not in use. -/
def Offered (framesNumber byteSize : Nat) (frames : List Nat) (heap : Heap) : Prop :=
  if maxAlloc < byteSize then True
  else if sliceLevel byteSize pageSliceLevel 0 < pageSliceLevel then
    FreshFrames framesNumber heap frames ∧
      frameRequests heap managerFuel (heap.allocMs (sliceLevel byteSize pageSliceLevel 0)) ≤
        frames.length
  else BlockOffered framesNumber (nextPowerOf2 (pageCount byteSize)) heap frames

def Served (framesNumber : Nat) (ledger : Ledger) : RequestOp → Prop
  | .kmalloc byteSize frames => Offered framesNumber byteSize frames ledger.heap
  | .write address _ => ∃ region ∈ ledger.live, region.1 ≤ address ∧ address < region.1 + region.2

instance (framesNumber count : Nat) (heap : Heap) :
    (frames : List Nat) → Decidable (BlockOffered framesNumber count heap frames)
  | [] => inferInstanceAs (Decidable False)
  | block :: _ => inferInstanceAs (Decidable (∀ k ∈ List.range' block count, _ ∧ _))

instance (framesNumber byteSize : Nat) (frames : List Nat) (heap : Heap) :
    Decidable (Offered framesNumber byteSize frames heap) :=
  inferInstanceAs (Decidable (if maxAlloc < byteSize then True
    else if sliceLevel byteSize pageSliceLevel 0 < pageSliceLevel then
      FreshFrames framesNumber heap frames ∧
        frameRequests heap managerFuel (heap.allocMs (sliceLevel byteSize pageSliceLevel 0)) ≤
          frames.length
    else BlockOffered framesNumber (nextPowerOf2 (pageCount byteSize)) heap frames))

instance (framesNumber : Nat) (ledger : Ledger) :
    (op : RequestOp) → Decidable (Served framesNumber ledger op)
  | .kmalloc byteSize frames =>
      inferInstanceAs (Decidable (Offered framesNumber byteSize frames ledger.heap))
  | .write _ _ => inferInstanceAs (Decidable (∃ region ∈ _, _))

/-! ## Frames in the ledger -/

/-- Every level has frames of its own, all of the pool and in use. -/
structure FramesOwned (framesNumber : Nat) (inUse : List Nat) (lists : Nat → List Nat) : Prop where
  nodup : ∀ level, (lists level).Nodup
  apart : ∀ left right k, k ∈ lists left → k ∈ lists right → left = right
  used : ∀ level, ∀ k ∈ lists level, k < framesNumber ∧ k ∈ inUse

section Owned

variable {framesNumber : Nat} {inUse inUse' : List Nat} {lists : Nat → List Nat}

/-- A level gets frames that were not in use. -/
theorem FramesOwned.add (owned : FramesOwned framesNumber inUse lists)
    (grows : ∀ k ∈ inUse, k ∈ inUse') {level : Nat} {added list : List Nat} (nodup : added.Nodup)
    (fresh : ∀ k ∈ added, k < framesNumber ∧ k ∉ inUse) (now : ∀ k ∈ added, k ∈ inUse')
    (perm : list.Perm (added ++ lists level)) :
    FramesOwned framesNumber inUse' (Function.update lists level list) := by
  have members : ∀ other k, k ∈ Function.update lists level list other →
      k ∈ lists other ∨ (other = level ∧ k ∈ added) := by
    intro other k member
    rw [Function.update_apply] at member
    split_ifs at member with own
    · rcases List.mem_append.mp (perm.mem_iff.mp member) with new | old
      · exact Or.inr ⟨own, new⟩
      · rw [own]
        exact Or.inl old
    · exact Or.inl member
  constructor
  · intro other
    rw [Function.update_apply]
    split_ifs
    · rw [perm.nodup_iff]
      refine List.nodup_append.mpr ⟨nodup, owned.nodup level, ?_⟩
      intro k new other old same
      rw [← same] at old
      exact (fresh k new).2 (owned.used level k old).2
    · exact owned.nodup other
  · intro left right k inLeft inRight
    rcases members left k inLeft with oldLeft | ⟨sameLeft, newLeft⟩
    · rcases members right k inRight with oldRight | ⟨-, newRight⟩
      · exact owned.apart left right k oldLeft oldRight
      · exact absurd (owned.used left k oldLeft).2 (fresh k newRight).2
    · rcases members right k inRight with oldRight | ⟨sameRight, -⟩
      · exact absurd (owned.used right k oldRight).2 (fresh k newLeft).2
      · exact sameLeft.trans sameRight.symm
  · intro other k member
    rcases members other k member with old | ⟨-, new⟩
    · exact ⟨(owned.used other k old).1, grows k (owned.used other k old).2⟩
    · exact ⟨(fresh k new).1, now k new⟩

/-- Where a frame of the new lists comes from. -/
theorem FramesOwned.old_or_new {level : Nat} {added list : List Nat}
    (perm : list.Perm (added ++ lists level)) {other k : Nat}
    (member : k ∈ Function.update lists level list other) : k ∈ lists other ∨ k ∈ added := by
  rw [Function.update_apply] at member
  split_ifs at member with own
  · rw [own]
    exact (List.mem_append.mp (perm.mem_iff.mp member)).symm
  · exact Or.inl member

theorem FramesOwned.mono (owned : FramesOwned framesNumber inUse lists) (grows : ∀ k ∈ inUse, k ∈ inUse') :
    FramesOwned framesNumber inUse' lists :=
  ⟨owned.nodup, owned.apart, fun level k member =>
    ⟨(owned.used level k member).1, grows k (owned.used level k member).2⟩⟩

theorem FramesOwned.length_le (owned : FramesOwned framesNumber inUse lists) (level : Nat) :
    (lists level).length ≤ framesNumber := by
  have inside : lists level ⊆ List.range framesNumber := fun k member =>
    List.mem_range.mpr (owned.used level k member).1
  have short := (List.subperm_of_subset (owned.nodup level) inside).length_le
  rw [List.length_range] at short
  exact short

end Owned

/-! ## Runs keep the ledger -/

/-- A byte of a frame in use that is no header of a slice page. -/
def OwnByte (heap : Heap) (pages : Nat → List Nat) (address : Nat) : Prop :=
  (∃ frame ∈ heap.framesInUse, InPage heap.base frame address) ∧
    ∀ level, level ≤ 4 → ∀ k ∈ pages level, ∀ j, j < slicesAt level →
      headerAt heap.base level k j ≠ address

structure LedgerSound (base framesNumber : Nat) (ledger : Ledger) : Prop where
  mapped : Mapped framesNumber ledger.heap
  base : ledger.heap.base = base
  levels : ∀ level, level < 8 → LevelServed ledger.heap level (ledger.answers level)
    (ledger.pages level) (ledger.managers level)
  pages : FramesOwned framesNumber ledger.heap.framesInUse ledger.pages
  managers : FramesOwned framesNumber ledger.heap.framesInUse ledger.managers
  regions : ∀ region ∈ ledger.live, ∀ address, region.1 ≤ address →
    address < region.1 + region.2 → OwnByte ledger.heap ledger.pages address

section Steps

variable {base framesNumber level : Nat} {ledger : Ledger} {frames : List Nat}

theorem LedgerSound.chain_short (sound : LedgerSound base framesNumber ledger) (level : Nat) :
    (ledger.managers level).length < managerFuel :=
  Nat.lt_of_le_of_lt (sound.managers.length_le level) sound.mapped.pool.frames_lt_fuel

/-- A slice request is served whatever the level's managers look like. -/
theorem LedgerSound.slice_request (sound : LedgerSound base framesNumber ledger)
    (bound : level < 8) (fresh : FreshFrames framesNumber ledger.heap frames)
    (enough : frameRequests ledger.heap managerFuel (ledger.heap.allocMs level) ≤ frames.length) :
    ∃ heap' owner page,
      kmallocHelper managerFuel (ledger.heap.allocMs level) level (decide (level ≤ 4))
          (frames.map some) ledger.heap =
        some (sliceAt ledger.heap.base level page
          ((ledger.answers level).length % slicesAt level), heap') ∧
      SliceGiven ledger.heap heap' level (ledger.answers level) (ledger.pages level)
        (ledger.managers level) (framesTaken ledger.heap level frames) owner page := by
  have state := sound.levels level bound
  have nodup := sound.managers.nodup level
  have short := sound.chain_short level
  have some_fuel : 0 < managerFuel := by decide
  unfold framesTaken
  by_cases whole : (ledger.answers level).length % slicesAt level = 0
  · by_cases room : usedOf (ledger.pages level).length < endFlag
    · obtain ⟨call, requests⟩ := state.room_search whole room some_fuel (decide (level ≤ 4))
        (frames.map some)
      rw [requests] at enough ⊢
      cases frames with
      | nil => exact absurd enough (Nat.not_succ_le_zero 0)
      | cons k rest =>
          obtain ⟨heap', owner, served, given⟩ := state.first_slice sound.mapped bound nodup whole
            room (fresh.2 k List.mem_cons_self).1 (rest.map some)
          exact ⟨heap', owner, k, call.trans served, given⟩
    · have full : usedOf (ledger.pages level).length = endFlag :=
        Nat.le_antisymm (used_of_le _) (Nat.le_of_not_lt room)
      have listed : ((ledger.managers level).map (pageAt ledger.heap.base)).length < managerFuel := by
        rw [List.length_map]
        exact short
      obtain ⟨call, requests⟩ := used_up_search level (decide (level ≤ 4)) (frames.map some)
        state.chain (List.forall_mem_map.mpr (state.used_up whole full)) listed
      rw [requests] at enough ⊢
      obtain ⟨owner, k, rest, same⟩ : ∃ owner k rest, frames = owner :: k :: rest := by
        rcases frames with _ | ⟨owner, _ | ⟨k, rest⟩⟩
        · exact absurd enough (Nat.not_succ_le_zero 1)
        · exact absurd enough (Nat.not_succ_le_self 1)
        · exact ⟨owner, k, rest, rfl⟩
      rw [same] at fresh call ⊢
      have ownerFacts := fresh.2 owner List.mem_cons_self
      have kFacts := fresh.2 k (List.mem_cons_of_mem owner List.mem_cons_self)
      obtain ⟨heap', served, given⟩ := state.new_manager sound.mapped bound whole full
        ⟨ownerFacts.1, kFacts.1⟩
        (fun member => ownerFacts.2 (sound.managers.used level owner member).2) (rest.map some)
      exact ⟨heap', owner, k, call.trans served, given⟩
  · obtain ⟨call, requests⟩ := state.partly_search bound whole some_fuel (decide (level ≤ 4))
      (frames.map some)
    obtain ⟨heap', owner, page, served, given⟩ := state.next_slice sound.mapped bound nodup
      (sound.pages.used level) whole
    rw [requests]
    exact ⟨heap', owner, page, call.trans (congrArg some served), given⟩

/-- What an own byte has to do with the pages a level takes later. -/
theorem OwnByte.later {heap heap' : Heap} {pages : Nat → List Nat} {address : Nat}
    (own : OwnByte heap pages address) (same : heap'.base = heap.base)
    (inUse : ∀ k ∈ heap.framesInUse, k ∈ heap'.framesInUse) {pages' : Nat → List Nat}
    (known : ∀ level k, k ∈ pages' level → k ∈ pages level ∨ k ∉ heap.framesInUse) :
    OwnByte heap' pages' address := by
  obtain ⟨⟨frame, used, here⟩, headers⟩ := own
  rw [← same] at here
  refine ⟨⟨frame, inUse frame used, here⟩, ?_⟩
  intro level linked k listed j inside
  rcases known level k listed with old | new
  · rw [same]
    exact headers level linked k old j inside
  · intro equal
    have there := header_mem_page heap'.base k linked inside
    rw [equal] at there
    rw [page_unique there here] at new
    exact new used

/-- The bytes of a slice are no headers. -/
theorem own_slice_byte {heap : Heap} {pages : Nat → List Nat} {page j address : Nat}
    (owned : FramesOwned framesNumber heap.framesInUse pages) (bound : level < 8)
    (listed : page ∈ pages level) (slice : j < slicesAt level)
    (low : sliceAt heap.base level page j ≤ address)
    (high : address < sliceAt heap.base level page j + sliceSizeAt level) :
    OwnByte heap pages address := by
  have range := slice_in_page heap.base page bound slice
  have here : InPage heap.base page address := ⟨by omega, by omega⟩
  refine ⟨⟨page, (owned.used level page listed).2, here⟩, ?_⟩
  intro other linked k member i inside same
  have there := header_mem_page heap.base k linked inside
  rw [same] at there
  have frame := page_unique there here
  rw [frame] at member same
  have sameLevel := owned.apart other level page member listed
  rw [sameLevel] at same linked
  exact header_not_in_slice linked low high same

/-- A request does not reach the managers and pages of another level. -/
theorem other_level_served {heap heap' : Heap} {inUse inUse' answers : List Nat}
    {pages managers : Nat → List Nat} {owner page other : Nat}
    (call : LevelCall heap heap' level (pageAt heap.base owner) page)
    (ownedPages : FramesOwned framesNumber inUse pages)
    (ownedManagers : FramesOwned framesNumber inUse' managers) (ownPage : page ∈ pages level)
    (ownOwner : owner ∈ managers level) (bound : other < 8) (different : other ≠ level)
    (state : LevelServed heap other answers (pages other) (managers other)) :
    LevelServed heap' other answers (pages other) (managers other) := by
  apply state.congr bound call.base (call.allocMs other different)
  · intro k member
    apply call.others
    intro equal
    rw [page_at_injective equal] at member
    exact different (ownedManagers.apart other level owner member ownOwner)
  · intro linked k member j inside
    apply call.memory
    intro here
    rw [page_unique (header_mem_page heap.base k linked inside) here] at member
    exact different (ownedPages.apart other level page member ownPage)

/-- A served slice request keeps the ledger. -/
theorem LedgerSound.noted {heap' : Heap} {taken : List Nat} {owner page byteSize : Nat}
    (sound : LedgerSound base framesNumber ledger) (bound : level < 8)
    (nodup : taken.Nodup) (fresh : ∀ k ∈ taken, k < framesNumber ∧ k ∉ ledger.heap.framesInUse)
    (given : SliceGiven ledger.heap heap' level (ledger.answers level) (ledger.pages level)
      (ledger.managers level) taken owner page) (fits : byteSize ≤ sliceSizeAt level) :
    LedgerSound base framesNumber
      { ledger.note level taken (sliceAt ledger.heap.base level page
          ((ledger.answers level).length % slicesAt level)) with
        heap := heap'
        live := withRegion (sliceAt ledger.heap.base level page
          ((ledger.answers level).length % slicesAt level)) byteSize ledger.live } := by
  have call := given.call
  have lastMem : ∀ k ∈ taken.getLast?.toList, k ∈ taken := by
    intro k member
    exact List.mem_of_getLast? (Option.mem_toList.mp member)
  have lastNodup := Option.toList_nodup taken.getLast?
  have firstMem : ∀ k ∈ taken.dropLast, k ∈ taken := fun k => List.mem_of_mem_dropLast
  have pagesPerm : (ledger.pages level ++ taken.getLast?.toList).Perm
      (taken.getLast?.toList ++ ledger.pages level) := List.perm_append_comm
  have pages := sound.pages.add call.inUse lastNodup (fun k member => fresh k (lastMem k member))
    (fun k member => given.inUse k (lastMem k member)) pagesPerm
  have managers := sound.managers.add call.inUse (nodup.sublist (List.dropLast_sublist taken))
    (fun k member => fresh k (firstMem k member)) (fun k member => given.inUse k (firstMem k member))
    (List.Perm.refl (taken.dropLast ++ ledger.managers level))
  have ownPage : page ∈ Function.update ledger.pages level
      (ledger.pages level ++ taken.getLast?.toList) level := by
    rw [Function.update_self]
    exact given.ownPage
  have ownOwner : owner ∈ Function.update ledger.managers level
      (taken.dropLast ++ ledger.managers level) level := by
    rw [Function.update_self]
    exact given.ownOwner
  refine ⟨?_, call.base.trans sound.base, ?_, pages, managers, ?_⟩
  · refine ⟨?_, ?_⟩
    · rw [call.base]
      exact sound.mapped.pool
    · intro k inside
      rw [call.physical, call.base]
      exact sound.mapped.physical k inside
  · intro other otherBound
    dsimp only [Ledger.note]
    by_cases same : other = level
    · rw [same, Function.update_self, Function.update_self, Function.update_self]
      exact given.served
    · rw [Function.update_of_ne same]
      apply other_level_served call pages managers ownPage ownOwner otherBound same
      rw [Function.update_of_ne same, Function.update_of_ne same]
      exact sound.levels other otherBound
  · intro region member address low high
    rcases mem_with_region member with listed | same
    · apply (sound.regions region listed address low high).later call.base call.inUse
      intro other k inList
      rcases FramesOwned.old_or_new pagesPerm inList with before | new
      · exact Or.inl before
      · exact Or.inr (fresh k (lastMem k new)).2
    · rw [same, ← call.base] at low high
      exact own_slice_byte pages bound ownPage (Nat.mod_lt _ (slices_pos bound)) low
        (Nat.lt_of_lt_of_le high (Nat.add_le_add_left fits _))

/-- The bytes of a block are in frames that no level has. -/
theorem own_block_byte {heap : Heap} {pages : Nat → List Nat} {block count byteSize address : Nat}
    (owned : FramesOwned framesNumber heap.framesInUse pages)
    (fresh : ∀ k ∈ List.range' block count, k < framesNumber ∧ k ∉ heap.framesInUse)
    (covers : byteSize ≤ pageSize * count) (low : pageAt heap.base block ≤ address)
    (high : address < pageAt heap.base block + byteSize) :
    OwnByte (heap.takeBlock count (some block)) pages address := by
  obtain ⟨offset, rfl⟩ := Nat.exists_eq_add_of_le low
  have positive : 0 < pageSize := by decide
  have split := Nat.div_add_mod offset pageSize
  have rest := Nat.mod_lt offset positive
  have within : offset / pageSize < count := Nat.div_lt_of_lt_mul (by omega)
  generalize offset / pageSize = page at split within
  have listed : block + page ∈ List.range' block count :=
    List.mem_range'_1.mpr ⟨Nat.le_add_right _ _, Nat.add_lt_add_left within _⟩
  have here : InPage heap.base (block + page) (pageAt heap.base block + offset) := by
    unfold InPage pageAt
    rw [Nat.add_mul, Nat.mul_comm page]
    omega
  refine ⟨⟨_, List.mem_append_left _ listed, here⟩, ?_⟩
  intro level linked k member j inside same
  have there := header_mem_page heap.base k linked inside
  have equal : headerAt heap.base level k j = pageAt heap.base block + offset := same
  rw [equal] at there
  have frame := page_unique there here
  rw [frame] at member
  exact (fresh _ listed).2 (owned.used level _ member).2

/-- A served block keeps the ledger. -/
theorem LedgerSound.block_taken {block count byteSize : Nat}
    (sound : LedgerSound base framesNumber ledger)
    (fresh : ∀ k ∈ List.range' block count, k < framesNumber ∧ k ∉ ledger.heap.framesInUse)
    (covers : byteSize ≤ pageSize * count) :
    LedgerSound base framesNumber
      { ledger with
        heap := ledger.heap.takeBlock count (some block)
        live := withRegion (pageAt ledger.heap.base block) byteSize ledger.live } := by
  have grows : ∀ k ∈ ledger.heap.framesInUse,
      k ∈ (ledger.heap.takeBlock count (some block)).framesInUse :=
    fun k member => List.mem_append_right _ member
  refine ⟨⟨sound.mapped.pool, sound.mapped.physical⟩, sound.base, ?_, sound.pages.mono grows,
    sound.managers.mono grows, ?_⟩
  · intro level bound
    exact (sound.levels level bound).congr bound rfl rfl (fun _ _ => rfl) fun _ _ _ _ _ => rfl
  · intro region member address low high
    rcases mem_with_region member with listed | same
    · have base : (ledger.heap.takeBlock count (some block)).base = ledger.heap.base := rfl
      exact (sound.regions region listed address low high).later base grows fun _ _ => Or.inl
    · rw [same] at low high
      exact own_block_byte sound.pages fresh covers low high

theorem LedgerSound.write_kept {address : Nat} (sound : LedgerSound base framesNumber ledger)
    (value : Nat) (own : OwnByte ledger.heap ledger.pages address) :
    LedgerSound base framesNumber { ledger with heap := ledger.heap.storeByte address value } := by
  refine ⟨⟨sound.mapped.pool, sound.mapped.physical⟩, sound.base, ?_, sound.pages, sound.managers,
    sound.regions⟩
  intro level bound
  have base : (ledger.heap.storeByte address value).base = ledger.heap.base := rfl
  apply (sound.levels level bound).congr bound base rfl (fun _ _ => rfl)
  intro linked k member j inside
  exact if_neg (own.2 level linked k member j inside)

/-- The pointer of a large request is the address of its block. -/
theorem LedgerSound.block_address {block count : Nat}
    (sound : LedgerSound base framesNumber ledger)
    (fresh : ∀ k ∈ List.range' block count, k < framesNumber ∧ k ∉ ledger.heap.framesInUse)
    (positive : 0 < count) :
    add32 (answerAddress ledger.heap (some block)) pageOffset = pageAt ledger.heap.base block := by
  have first : block ∈ List.range' block count :=
    List.mem_range'_1.mpr ⟨Nat.le_refl block, Nat.lt_add_of_pos_right positive⟩
  exact sound.mapped.page_address (fresh block first).1

theorem ledger_step_sound (op : RequestOp) (sound : LedgerSound base framesNumber ledger)
    (served : Served framesNumber ledger op) :
    ∃ next, ledgerStep ledger op = some next ∧ LedgerSound base framesNumber next := by
  cases op with
  | write address value =>
      obtain ⟨region, listed, low, high⟩ := served
      exact ⟨_, rfl, sound.write_kept value (sound.regions region listed address low high)⟩
  | kmalloc byteSize frames =>
      have most : maxAlloc = 4194304 := by decide
      unfold Served Offered at served
      unfold ledgerStep kmalloc
      dsimp only at served ⊢
      split_ifs at served ⊢ with refused slices slices
      · exact absurd refused (large_slice_level (by omega))
      · obtain ⟨fresh, enough⟩ := served
        obtain ⟨heap', owner, page, call, given⟩ := sound.slice_request refused fresh enough
        obtain ⟨-, -, fits, -⟩ := slice_level_spec byteSize pageSliceLevel 0 (Nat.zero_add _)
        rw [call]
        refine ⟨_, rfl, sound.noted refused ?_ ?_ given (fits refused)⟩
        · exact fresh.1.sublist (List.take_sublist _ _)
        · exact fun k member => fresh.2 k (List.mem_of_mem_take member)
      · exact ⟨ledger, rfl, sound⟩
      · cases frames with
        | nil => exact absurd served id
        | cons block rest =>
            have word : byteSize < wordSize := by
              unfold wordSize
              omega
            have covers := block_covers word
            have positive : 0 < nextPowerOf2 (pageCount byteSize) := by
              by_contra empty
              rw [Nat.eq_zero_of_not_pos empty, Nat.mul_zero] at covers
              exact refused (slice_level_bounds (by omega)).1
            refine ⟨_, rfl, ?_⟩
            dsimp only
            rw [sound.block_address served positive]
            exact sound.block_taken served covers

end Steps

end ChaoOS.SliceLedger
