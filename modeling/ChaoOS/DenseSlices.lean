import ChaoOS.SliceLedger

/-!
# Slices in the order of the requests

After `init_kmm` every level has one manager and no page. In a run of `kmalloc`
without `kfree` what a level has handed out, the pages on its `p_full` lists and
its managers are then functions of the number of requests it has served.
-/

namespace ChaoOS.DenseSlices

open ChaoOS.KernelMath ChaoOS.IndexList ChaoOS.PageDirectory ChaoOS.SliceHeapModel
open ChaoOS.SliceLists ChaoOS.SliceHeapInvariant ChaoOS.SliceHeapAlloc ChaoOS.SliceHeapGrow
open ChaoOS.SliceHeapMalloc ChaoOS.SliceHeapRuns ChaoOS.DenseManagers ChaoOS.DenseLevels
open ChaoOS.SliceLedger ChaoOS.GuardedRun
open ChaoOS.SliceHeapModel.Manager (nextOf)

set_option autoImplicit false

/-! ## The start of a run -/

def freshLedger (base : Nat) (memory : Nat → Nat) (frames : List Nat) : Ledger where
  heap := initKmm 0 (frames.map some) (bootHeap base memory)
  live := []
  answers := fun _ => []
  pages := fun _ => []
  managers := fun level => frames[level]?.toList

/-- Every frame of the list has become the only manager of its level. -/
structure ManagersAdded (heap : Heap) (level : Nat) (frames : List Nat) (heap' : Heap) : Prop where
  base : heap'.base = heap.base
  physical : heap'.frames = heap.frames
  inUse : ∀ k, k ∈ frames ∨ k ∈ heap.framesInUse → k ∈ heap'.framesInUse
  lower : ∀ other, other < level → heap'.allocMs other = heap.allocMs other
  others : ∀ m, (∀ k ∈ frames, m ≠ pageAt heap.base k) → heap'.managers m = heap.managers m
  added : ∀ i k, frames[i]? = some k → heap'.allocMs (level + i) = pageAt heap.base k ∧
    heap'.managers (pageAt heap.base k) = newManager (sliceSizeAt (level + i)) 0

section Start

variable {base framesNumber : Nat} {frames : List Nat}

/-- A manager for `level`, and then the managers of the levels above it. -/
theorem managers_added_cons {heap next heap' : Heap} {level first : Nat}
    (added : ManagerAdded heap level first next) (alone : heap.allocMs level = 0)
    (fresh : first ∉ frames) (later : ManagersAdded next (level + 1) frames heap') :
    ManagersAdded heap level (first :: frames) heap' := by
  refine ⟨later.base.trans added.base, later.physical.trans added.frames, ?_, ?_, ?_, ?_⟩
  · intro k listed
    apply later.inUse
    rw [added.inUse, List.mem_cons]
    rcases listed with member | used
    · exact (List.mem_cons.mp member).elim (fun own => Or.inr (Or.inl own)) Or.inl
    · exact Or.inr (Or.inr used)
  · intro other below
    rw [later.lower other (by omega), added.allocMs, Function.update_of_ne (by omega)]
  · intro m apart
    rw [later.others, added.others]
    · exact apart first List.mem_cons_self
    · intro k member
      rw [added.base]
      exact apart k (List.mem_cons_of_mem first member)
  · intro i k listed
    cases i with
    | zero =>
        have same : first = k := by simpa using listed
        rw [← same]
        constructor
        · rw [Nat.add_zero level, later.lower level (Nat.lt_succ_self level), added.allocMs,
            Function.update_self]
        · rw [later.others, added.manager, alone, Nat.add_zero level]
          intro other member equal
          rw [added.base] at equal
          rw [page_at_injective equal] at fresh
          exact fresh member
    | succ i =>
        have listed : frames[i]? = some k := by simpa using listed
        have shift : level + (i + 1) = level + 1 + i := by omega
        rw [shift, ← added.base]
        exact later.added i k listed

theorem init_kmm_added {heap : Heap} (mapped : Mapped framesNumber heap) (nodup : frames.Nodup)
    (inside : ∀ k ∈ frames, k < framesNumber) (level : Nat)
    (empty : ∀ other, level ≤ other → heap.allocMs other = 0) :
    ManagersAdded heap level frames (initKmm level (frames.map some) heap) := by
  induction frames generalizing heap level with
  | nil =>
      refine ⟨rfl, rfl, ?_, fun _ _ => rfl, fun _ _ => rfl, ?_⟩
      · exact fun k listed => listed.resolve_left List.not_mem_nil
      · exact fun i k listed => absurd listed (by simp)
  | cons first rest induction =>
      obtain ⟨fresh, nodup⟩ := List.nodup_cons.mp nodup
      obtain ⟨_, added⟩ := add_manager_added level mapped (inside first List.mem_cons_self)
      have alone := empty level (Nat.le_refl level)
      rw [List.map_cons, initKmm, ← alone]
      generalize (addManager heap level (heap.allocMs level) (some first)).2 = next at added
      apply managers_added_cons added alone fresh
      apply induction (added.mapped mapped) nodup
        (fun k member => inside k (List.mem_cons_of_mem first member))
      intro other above
      rw [added.allocMs, Function.update_of_ne (by omega)]
      exact empty other (by omega)

theorem ManagersAdded.mapped {heap heap' : Heap} {level : Nat}
    (added : ManagersAdded heap level frames heap') (mapped : Mapped framesNumber heap) :
    Mapped framesNumber heap' := by
  constructor
  · rw [added.base]
    exact mapped.pool
  · rw [added.base, added.physical]
    exact mapped.physical

/-- A level with one manager that has not served yet. -/
theorem level_served_nil {heap : Heap} {level k : Nat} (bound : level < 8)
    (first : heap.allocMs level = pageAt heap.base k)
    (record : heap.managers (pageAt heap.base k) = newManager (sliceSizeAt level) 0) :
    LevelServed heap level [] [] [k] := by
  have positive := slices_pos bound
  refine ⟨fun k never => absurd never (Nat.not_lt_zero k), ?_, rfl, ?_, ?_, ?_⟩
  · change 0 = (0 + slicesAt level - 1) / slicesAt level
    rw [Nat.zero_add, Nat.div_eq_of_lt (Nat.sub_lt positive Nat.one_pos)]
  · refine ⟨first, ?_, ?_⟩
    · exact page_at_ne_zero heap.base k
    · change (heap.managers (pageAt heap.base k)).next = 0
      rw [record, newManager]
  · exact fun k never => absurd never List.not_mem_nil
  · change ManagerFilled heap level (heap.allocMs level) 0 (0 % slicesAt level) 0
    rw [first, Nat.zero_mod]
    exact new_manager_filled record 0

theorem fresh_ledger_sound (pool : Pool base framesNumber) (memory : Nat → Nat)
    (boot : BootFrames framesNumber frames) :
    LedgerSound base framesNumber (freshLedger base memory frames) := by
  have mapped := boot_mapped pool memory
  have added := init_kmm_added mapped boot.nodup boot.inside 0 fun _ _ => rfl
  have placed : ∀ {level k : Nat}, k ∈ frames[level]?.toList → frames[level]? = some k :=
    Option.mem_toList.mp
  refine ⟨added.mapped mapped, added.base, ?_, ?_, ?_, fun _ never => absurd never List.not_mem_nil⟩
  · intro level bound
    have inside : level < frames.length := by
      rw [boot.count]
      exact bound
    have listed := List.getElem?_eq_getElem inside
    obtain ⟨first, record⟩ := added.added level _ listed
    rw [Nat.zero_add] at first record
    rw [← added.base] at first record
    change LevelServed _ level [] [] frames[level]?.toList
    rw [listed]
    exact level_served_nil bound first record
  · exact ⟨fun _ => List.nodup_nil, fun _ _ _ never => absurd never List.not_mem_nil,
      fun _ _ never => absurd never List.not_mem_nil⟩
  · refine ⟨?_, ?_, ?_⟩
    · intro level
      change frames[level]?.toList.Nodup
      exact Option.toList_nodup _
    · intro left right k inLeft inRight
      have here := placed inLeft
      have inside := (List.getElem?_eq_some_iff.mp here).1
      exact (List.getElem?_inj inside boot.nodup).mp (here.trans (placed inRight).symm)
    · intro level k member
      have listed := List.mem_of_getElem? (placed member)
      exact ⟨boot.inside k listed, added.inUse k (Or.inl listed)⟩

end Start

/-! ## The lists of partly filled pages -/

/-- Some manager of the level has the page on its `p_full` list. -/
def OnPFull (heap : Heap) (level page : Nat) : Prop :=
  ∃ m i nodes, Manages heap level m ∧
    Follows (nextOf (heap.managers m)) endFlag (heap.managers m).pFull nodes ∧ i ∈ nodes ∧
    targetOf heap m i = .entry page

section PartlyFilled

variable {heap : Heap} {level : Nat} {answers pages managers : List Nat}

/-- A manager that is used up has nothing on the list. -/
theorem used_up_none {m : Nat} {nodes : List Nat} (usedUp : UsedUp heap m)
    (follows : Follows (nextOf (heap.managers m)) endFlag (heap.managers m).pFull nodes) :
    nodes = [] :=
  (follows_nil_iff follows).mpr usedUp.1

/-- Only the last page of a level can be on such a list. -/
theorem on_p_full_iff (bound : level < 8)
    (state : LevelServed heap level answers pages managers) (page : Nat) :
    OnPFull heap level page ↔ answers.length % slicesAt level ≠ 0 ∧ page = pages.getLastD 0 := by
  obtain ⟨owner, rest, same, address, -⟩ := state.head
  have newest := state.newest
  generalize answers.length % slicesAt level = filled at newest ⊢
  constructor
  · rintro ⟨m, i, nodes, ⟨-, chain, follows, member⟩, onList, listed, target⟩
    rw [follows_unique follows state.chain, same] at member
    rcases List.mem_cons.mp member with first | later
    · rw [← address] at first
      rw [first] at onList target
      by_cases whole : filled = 0
      · have none_filled : (heap.managers (heap.allocMs level)).pFull = endFlag := by
          rw [newest.pFull, if_pos whole]
        rw [(follows_nil_iff onList).mpr none_filled] at listed
        exact absurd listed List.not_mem_nil
      · obtain ⟨some_used, last, held, -⟩ := newest.page whole
        have single : Follows (nextOf (heap.managers (heap.allocMs level))) endFlag
            (heap.managers (heap.allocMs level)).pFull [usedOf pages.length - 1] := by
          rw [newest.pFull, if_neg whole]
          refine ⟨rfl, ?_, last⟩
          have few := used_of_le pages.length
          omega
        rw [follows_unique onList single, List.mem_singleton] at listed
        rw [listed, held] at target
        exact ⟨whole, (FramePtr.entry.inj target).symm⟩
    · obtain ⟨k, older, there⟩ := List.mem_map.mp later
      have usedUp := state.older k (by rw [same]; exact older)
      rw [there] at usedUp
      rw [used_up_none usedUp onList] at listed
      exact absurd listed List.not_mem_nil
  · rintro ⟨partly, last⟩
    obtain ⟨some_used, ended, held, -⟩ := newest.page partly
    have few := used_of_le pages.length
    refine ⟨heap.allocMs level, usedOf pages.length - 1, [usedOf pages.length - 1],
      ⟨bound, _, state.chain, ?_⟩, ?_, List.mem_singleton_self _, ?_⟩
    · rw [same, List.map_cons, address]
      exact List.mem_cons_self
    · rw [newest.pFull, if_neg partly]
      exact ⟨rfl, by omega, ended⟩
    · rw [held, last]

/-- A page is on the list until its last slice is taken. -/
theorem p_full_iff (bound : level < 8)
    (state : LevelServed heap level answers pages managers) (nodup : pages.Nodup)
    {index page : Nat} (listed : pages[index]? = some page) :
    OnPFull heap level page ↔ answers.length < (index + 1) * slicesAt level := by
  have positive := slices_pos bound
  have inside := (List.getElem?_eq_some_iff.mp listed).1
  rw [on_p_full_iff bound state, ← Nat.div_lt_iff_lt_mul positive]
  by_cases whole : answers.length % slicesAt level = 0
  · have count := state.pageCount
    rw [pages_of_whole positive whole] at count
    exact iff_of_false (fun both => both.1 whole) (by omega)
  · have count := state.partly_pages bound whole
    have last := last_page (show 0 < pages.length by omega)
    have same : page = pages.getLastD 0 ↔ index = pages.length - 1 := by
      constructor
      · intro equal
        rw [equal, ← last] at listed
        exact (List.getElem?_inj inside nodup).mp listed
      · intro equal
        rw [equal, last] at listed
        exact (Option.some.inj listed).symm
    rw [same, and_iff_right whole]
    omega

end PartlyFilled

/-! ## Runs without `kfree` -/

/-- What the requests of a level have got, and the state of its managers, by the
number of requests. -/
structure Dense (ledger : Ledger) (level : Nat) : Prop where
  slices : ∀ k, k < (ledger.answers level).length →
    ∃ page, (ledger.pages level)[k / slicesAt level]? = some page ∧
      (ledger.answers level)[k]? = some (sliceAt ledger.heap.base level page (k % slicesAt level))
  pageCount : (ledger.pages level).length =
    ((ledger.answers level).length + slicesAt level - 1) / slicesAt level
  partlyFilled : ∀ index page, (ledger.pages level)[index]? = some page →
    (OnPFull ledger.heap level page ↔
      (ledger.answers level).length < (index + 1) * slicesAt level)
  chain : Follows (fun m => (ledger.heap.managers m).next) 0 (ledger.heap.allocMs level)
    ((ledger.managers level).map (pageAt ledger.heap.base))
  managerCount : (ledger.managers level).length =
    ((ledger.pages level).length - 1) / endFlag + 1

/-- Every run of requests and writes comes to its end, with every level dense. -/
theorem kmalloc_runs_dense {base framesNumber : Nat} (pool : Pool base framesNumber)
    (memory : Nat → Nat) {frames : List Nat} (boot : BootFrames framesNumber frames)
    {ops : List RequestOp}
    (permitted : Permitted ledgerStep (Served framesNumber) (freshLedger base memory frames) ops) :
    ∃ final, runFrom ledgerStep (freshLedger base memory frames) ops = some final ∧
      final.heap.base = base ∧ ∀ level, level < 8 → Dense final level := by
  obtain ⟨final, run, sound⟩ := run_reaches
    (fun _ op before allowed => ledger_step_sound op before allowed)
    (fresh_ledger_sound pool memory boot) permitted
  refine ⟨final, run, sound.base, ?_⟩
  intro level bound
  have state := sound.levels level bound
  exact ⟨state.slices, state.pageCount,
    fun _ _ listed => p_full_iff bound state (sound.pages.nodup level) listed,
    state.chain, state.managerCount⟩

theorem kmalloc_runs_dense_sample : ∃ final,
    runFrom ledgerStep (freshLedger 0x200000 (fun _ => 0) (List.range 8))
      [.kmalloc 2048 [8], .kmalloc 2000 [], .kmalloc 1500 [9], .kmalloc 5000 [10, 11],
        .write 0xC02087FF 7, .kmalloc 100 [12], .kmalloc 0 [13], .kmalloc 128 [],
        .kmalloc 0x500000 []] = some final ∧
      final.heap.base = 0x200000 ∧ ∀ level, level < 8 → Dense final level := by
  apply kmalloc_runs_dense sample_pool _ sample_boot
  decide +kernel

end ChaoOS.DenseSlices
