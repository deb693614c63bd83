import ChaoOS.DenseManagers
import ChaoOS.KernelHeap

/-!
# A level that only serves

Requests of one level are served by its newest manager; the ones before it are
used up. `LevelServed` gives the pointers returned so far, the pages and the
managers, and the three lemmas after it say what the next request does: it takes
the next slice of the last page, or the first one of a new page, which may need
a new manager.
-/

namespace ChaoOS.DenseLevels

open ChaoOS.KernelMath ChaoOS.IndexList ChaoOS.PageDirectory ChaoOS.SliceHeapModel
open ChaoOS.SliceLists ChaoOS.SliceHeapInvariant ChaoOS.SliceHeapAlloc ChaoOS.SliceHeapGrow
open ChaoOS.DenseManagers
open ChaoOS.KernelHeap (frameRequests)
open ChaoOS.SliceHeapModel.Manager (nextOf)

set_option autoImplicit false

/-! ## Counting pages and managers -/

/-- How many allocators of the newest manager have a page. -/
def usedOf (pages : Nat) : Nat := if pages = 0 then 0 else (pages - 1) % endFlag + 1

theorem used_of_le (pages : Nat) : usedOf pages ≤ endFlag := by
  unfold usedOf endFlag
  split_ifs <;> omega

theorem used_of_add_one (pages : Nat) : usedOf (pages + 1) = pages % endFlag + 1 :=
  if_neg (Nat.succ_ne_zero pages)

theorem used_of_pos {pages : Nat} (positive : 0 < pages) : 0 < usedOf pages := by
  rw [usedOf, if_neg (by omega)]
  exact Nat.succ_pos _

/-- The next page goes to the newest manager. -/
theorem used_of_succ {pages : Nat} (room : usedOf pages < endFlag) :
    usedOf (pages + 1) = usedOf pages + 1 ∧
      (pages + 1 - 1) / endFlag + 1 = (pages - 1) / endFlag + 1 := by
  cases pages with
  | zero => decide
  | succ pages =>
      rw [used_of_add_one] at *
      rw [used_of_add_one]
      unfold endFlag at *
      omega

/-- The next page goes to a new manager. -/
theorem used_of_full {pages : Nat} (full : usedOf pages = endFlag) :
    usedOf (pages + 1) = 1 ∧ (pages + 1 - 1) / endFlag + 1 = (pages - 1) / endFlag + 1 + 1 := by
  cases pages with
  | zero => exact absurd full (by decide)
  | succ pages =>
      rw [used_of_add_one] at *
      unfold endFlag at *
      omega

section Pages

variable {calls slices : Nat}

theorem pages_of_partly (positive : 0 < slices) (partly : calls % slices ≠ 0) :
    (calls + slices - 1) / slices = calls / slices + 1 := by
  have split := Nat.div_add_mod calls slices
  have rest := Nat.mod_lt calls positive
  have sum : calls + slices - 1 = calls % slices - 1 + slices * (calls / slices + 1) := by
    rw [Nat.mul_succ]
    omega
  rw [sum, Nat.add_mul_div_left _ _ positive, Nat.div_eq_of_lt (by omega), Nat.zero_add]

theorem pages_of_whole (positive : 0 < slices) (whole : calls % slices = 0) :
    (calls + slices - 1) / slices = calls / slices := by
  have split := Nat.div_add_mod calls slices
  have sum : calls + slices - 1 = slices - 1 + slices * (calls / slices) := by omega
  rw [sum, Nat.add_mul_div_left _ _ positive, Nat.div_eq_of_lt (by omega), Nat.zero_add]

theorem pages_of_next (positive : 0 < slices) :
    (calls + 1 + slices - 1) / slices = calls / slices + 1 := by
  rw [Nat.add_right_comm, Nat.add_sub_cancel, Nat.add_div_right _ positive]

end Pages

/-! ## The state of a level -/

/-- No allocator of the manager has a slice to give. -/
def UsedUp (heap : Heap) (m : Nat) : Prop :=
  (heap.managers m).pFull = endFlag ∧ (heap.managers m).free = endFlag

/-- Pages are listed oldest first, managers newest first. -/
structure LevelServed (heap : Heap) (level : Nat) (answers pages managers : List Nat) : Prop where
  slices : ∀ k, k < answers.length → ∃ page, pages[k / slicesAt level]? = some page ∧
    answers[k]? = some (sliceAt heap.base level page (k % slicesAt level))
  pageCount : pages.length = (answers.length + slicesAt level - 1) / slicesAt level
  managerCount : managers.length = (pages.length - 1) / endFlag + 1
  chain : Follows (fun m => (heap.managers m).next) 0 (heap.allocMs level)
    (managers.map (pageAt heap.base))
  older : ∀ k ∈ managers.tail, UsedUp heap (pageAt heap.base k)
  newest : ManagerFilled heap level (heap.allocMs level) (usedOf pages.length)
    (answers.length % slicesAt level) (pages.getLastD 0)

section Levels

variable {heap heap' : Heap} {level : Nat} {answers pages managers : List Nat}

theorem last_page (nonempty : 0 < pages.length) :
    pages[pages.length - 1]? = some (pages.getLastD 0) := by
  have inside : pages.length - 1 < pages.length := by omega
  rw [List.getLastD_eq_getLast?, List.getLast?_eq_getElem?, List.getElem?_eq_getElem inside,
    Option.getD_some]

theorem last_page_mem (nonempty : 0 < pages.length) : pages.getLastD 0 ∈ pages :=
  List.mem_of_getElem? (last_page nonempty)

theorem LevelServed.partly_pages (bound : level < 8)
    (state : LevelServed heap level answers pages managers)
    (partly : answers.length % slicesAt level ≠ 0) :
    pages.length = answers.length / slicesAt level + 1 := by
  have positive := slices_pos bound
  rw [state.pageCount, pages_of_partly positive partly]

/-- A level is untouched by what happens to other managers and pages. -/
theorem LevelServed.congr (bound : level < 8)
    (state : LevelServed heap level answers pages managers) (base : heap'.base = heap.base)
    (first : heap'.allocMs level = heap.allocMs level)
    (records : ∀ k ∈ managers, heap'.managers (pageAt heap.base k) = heap.managers (pageAt heap.base k))
    (headers : level ≤ 4 → ∀ k ∈ pages, ∀ j, j < slicesAt level →
      heap'.memory (headerAt heap.base level k j) = heap.memory (headerAt heap.base level k j)) :
    LevelServed heap' level answers pages managers := by
  have head : ∃ k ∈ managers, heap.allocMs level = pageAt heap.base k := by
    have chain := state.chain
    have count := state.managerCount
    cases managers with
    | nil => exact absurd count (Nat.succ_ne_zero _).symm
    | cons k rest => exact ⟨k, List.mem_cons_self, chain.1⟩
  refine ⟨?_, state.pageCount, state.managerCount, ?_, ?_, ?_⟩
  · rw [base]
    exact state.slices
  · rw [base, first]
    apply follows_congr state.chain
    intro m listed
    obtain ⟨k, member, same⟩ := List.mem_map.mp listed
    rw [← same, records k member]
  · intro k member
    rw [base, UsedUp, records k (List.mem_of_mem_tail member)]
    exact state.older k member
  · obtain ⟨k, member, address⟩ := head
    rw [first]
    apply state.newest.congr base
    · rw [address]
      exact records k member
    · intro partly linked
      apply headers linked
      apply last_page_mem
      rw [state.partly_pages bound partly]
      exact Nat.succ_pos _

/-! ## Which manager serves -/

/-- Managers that are used up are passed over, and a new one is asked for. -/
theorem used_up_search (level : Nat) (linked : Bool) (offered : List (Option Nat))
    {m fuel : Nat} {nodes : List Nat}
    (follows : Follows (fun m => (heap.managers m).next) 0 m nodes)
    (usedUp : ∀ other ∈ nodes, UsedUp heap other) (short : nodes.length < fuel) :
    kmallocHelper fuel m level linked offered heap = kmallocHelper 1 0 level linked offered heap ∧
      frameRequests heap fuel m = 2 := by
  generalize fresh : kmallocHelper 1 0 level linked offered heap = result
  induction nodes generalizing m fuel with
  | nil =>
      have last : m = 0 := follows
      obtain ⟨fuel, rfl⟩ : ∃ rest, fuel = rest + 1 := ⟨fuel - 1, by omega⟩
      rw [← fresh, last]
      unfold kmallocHelper frameRequests
      exact ⟨rfl, rfl⟩
  | cons node rest induction =>
      obtain ⟨same, some_node, tail⟩ := follows
      obtain ⟨fuel, rfl⟩ : ∃ rest, fuel = rest + 1 := ⟨fuel - 1, by omega⟩
      obtain ⟨pFull, free⟩ := usedUp node List.mem_cons_self
      rw [same]
      unfold kmallocHelper frameRequests
      rw [if_neg some_node, if_neg some_node, if_neg (not_not.mpr pFull),
        if_neg (not_not.mpr pFull), if_neg (not_not.mpr free), if_neg (not_not.mpr free)]
      apply induction tail (fun other member => usedUp other (List.mem_cons_of_mem node member))
      exact Nat.lt_of_succ_lt_succ short

end Levels

/-! ## One request -/

/-- What a request of `level` leaves alone: it works on the manager at `m` and on
the page in frame `k`. -/
structure LevelCall (heap heap' : Heap) (level m k : Nat) : Prop where
  base : heap'.base = heap.base
  physical : ∀ frame, (heap'.frames frame).physicAddr = (heap.frames frame).physicAddr
  allocMs : ∀ other, other ≠ level → heap'.allocMs other = heap.allocMs other
  others : ∀ other, other ≠ m → heap'.managers other = heap.managers other
  memory : ∀ address, ¬InPage heap.base k address → heap'.memory address = heap.memory address
  inUse : ∀ frame ∈ heap.framesInUse, frame ∈ heap'.framesInUse

/-- The next request of a level gets a slice of `page` from the manager in the page
`owner`, and the frames `taken` go to the level. -/
structure SliceGiven (heap heap' : Heap) (level : Nat) (answers pages managers taken : List Nat)
    (owner page : Nat) : Prop where
  call : LevelCall heap heap' level (pageAt heap.base owner) page
  inUse : ∀ k ∈ taken, k ∈ heap'.framesInUse
  ownOwner : owner ∈ taken.dropLast ++ managers
  ownPage : page ∈ pages ++ taken.getLast?.toList
  served : LevelServed heap' level
    (answers ++ [sliceAt heap.base level page (answers.length % slicesAt level)])
    (pages ++ taken.getLast?.toList) (taken.dropLast ++ managers)

section Requests

variable {framesNumber : Nat} {heap heap' : Heap} {level m i k fuel : Nat}
  {answers pages managers frames : List Nat}

theorem PageServed.level_call (served : PageServed heap heap' m i k) :
    LevelCall heap heap' level m k :=
  ⟨served.touches.base, served.touches.physical, fun _ _ => congrFun served.touches.allocMs _,
    served.touches.others, served.touches.memory, served.inUse⟩

/-- One more pointer is noted. -/
theorem slices_snoc {base page : Nat} {pages' : List Nat}
    (slices : ∀ k, k < answers.length → ∃ page, pages[k / slicesAt level]? = some page ∧
      answers[k]? = some (sliceAt base level page (k % slicesAt level)))
    (kept : ∀ (i other : Nat), pages[i]? = some other → pages'[i]? = some other)
    (last : pages'[answers.length / slicesAt level]? = some page) (k : Nat)
    (inside : k < (answers ++
      [sliceAt base level page (answers.length % slicesAt level)]).length) :
    ∃ page', pages'[k / slicesAt level]? = some page' ∧
      (answers ++ [sliceAt base level page (answers.length % slicesAt level)])[k]? =
        some (sliceAt base level page' (k % slicesAt level)) := by
  rw [List.length_append, List.length_singleton] at inside
  rcases Nat.lt_or_eq_of_le (Nat.le_of_lt_succ inside) with earlier | now
  · obtain ⟨page', listed, answer⟩ := slices k earlier
    refine ⟨page', kept _ _ listed, ?_⟩
    rw [List.getElem?_append_left earlier]
    exact answer
  · rw [now, List.getElem?_concat_length]
    exact ⟨page, last, rfl⟩

theorem LevelServed.head (state : LevelServed heap level answers pages managers) :
    ∃ owner rest, managers = owner :: rest ∧ heap.allocMs level = pageAt heap.base owner ∧
      heap.allocMs level ≠ 0 := by
  have chain := state.chain
  have count := state.managerCount
  cases managers with
  | nil => exact absurd count (Nat.succ_ne_zero _).symm
  | cons owner rest =>
      refine ⟨owner, rest, rfl, chain.1, ?_⟩
      rw [chain.1]
      exact chain.2.1

/-- The managers of a level after its newest one has served. -/
theorem LevelServed.chain_served (state : LevelServed heap level answers pages managers)
    (nodup : managers.Nodup) (served : PageServed heap heap' (heap.allocMs level) i k) :
    Follows (fun m => (heap'.managers m).next) 0 (heap'.allocMs level)
        (managers.map (pageAt heap'.base)) ∧
      ∀ k ∈ managers.tail, UsedUp heap' (pageAt heap'.base k) := by
  obtain ⟨owner, rest, same, address, -⟩ := state.head
  rw [served.touches.base, served.touches.allocMs]
  constructor
  · apply follows_congr state.chain
    intro other _
    exact served.touches.next other
  · intro frame member
    rw [UsedUp, served.touches.others]
    · exact state.older frame member
    · rw [address]
      intro equal
      rw [same] at nodup member
      rw [page_at_injective equal] at member
      exact (List.nodup_cons.mp nodup).1 member

/-- The last page still has slices, so the newest manager serves from there. -/
theorem LevelServed.partly_search (bound : level < 8)
    (state : LevelServed heap level answers pages managers)
    (partly : answers.length % slicesAt level ≠ 0) (enough : 0 < fuel) (linked : Bool)
    (offered : List (Option Nat)) :
    kmallocHelper fuel (heap.allocMs level) level linked offered heap =
        some (takePartial heap (heap.allocMs level) linked) ∧
      frameRequests heap fuel (heap.allocMs level) = 0 := by
  obtain ⟨owner, rest, -, -, some_manager⟩ := state.head
  have pFull := state.newest.pFull
  have some_page : 0 < pages.length := by
    rw [state.partly_pages bound partly]
    exact Nat.succ_pos _
  have some_used := used_of_pos some_page
  have few := used_of_le pages.length
  rw [if_neg partly] at pFull
  have notEnd : (heap.managers (heap.allocMs level)).pFull ≠ endFlag := by omega
  obtain ⟨fuel, rfl⟩ : ∃ rest, fuel = rest + 1 := ⟨fuel - 1, by omega⟩
  unfold kmallocHelper frameRequests
  rw [if_neg some_manager, if_neg some_manager, if_pos notEnd, if_pos notEnd]
  exact ⟨rfl, rfl⟩

theorem LevelServed.next_slice (mapped : Mapped framesNumber heap) (bound : level < 8)
    (state : LevelServed heap level answers pages managers) (nodup : managers.Nodup)
    (used : ∀ k ∈ pages, k < framesNumber ∧ k ∈ heap.framesInUse)
    (partly : answers.length % slicesAt level ≠ 0) :
    ∃ heap' owner page, takePartial heap (heap.allocMs level) (decide (level ≤ 4)) =
        (sliceAt heap.base level page (answers.length % slicesAt level), heap') ∧
      SliceGiven heap heap' level answers pages managers [] owner page := by
  have positive := slices_pos bound
  have count := state.partly_pages bound partly
  have some_page : 0 < pages.length := by
    rw [count]
    exact Nat.succ_pos _
  have last := last_page some_page
  have listed := List.mem_of_getElem? last
  obtain ⟨frame, inUse⟩ := used _ listed
  obtain ⟨owner, rest, same, address, -⟩ := state.head
  obtain ⟨heap', slice, served, filled⟩ := state.newest.next_slice mapped bound partly
    (Nat.mod_lt _ positive) frame inUse
  refine ⟨heap', owner, _, slice, ?_⟩
  obtain ⟨chain, older⟩ := state.chain_served nodup served
  have wide : (answers ++ [sliceAt heap.base level (pages.getLastD 0)
      (answers.length % slicesAt level)]).length = answers.length + 1 := by
    rw [List.length_append, List.length_singleton]
  refine ⟨?_, ?_, ?_, ?_, ?_⟩
  · rw [← address]
    exact PageServed.level_call served
  · exact fun k member => absurd member List.not_mem_nil
  · rw [same]
    exact List.mem_cons_self
  · rw [List.getLast?_nil, Option.toList_none, List.append_nil]
    exact listed
  · rw [List.getLast?_nil, Option.toList_none, List.append_nil, List.dropLast_nil, List.nil_append]
    refine ⟨?_, ?_, state.managerCount, chain, older, ?_⟩
    · rw [served.touches.base]
      apply slices_snoc state.slices (fun _ _ => id)
      rw [count, Nat.add_sub_cancel] at last
      exact last
    · rw [wide, count, pages_of_next positive]
    · rw [wide, served.touches.allocMs, ← Nat.mod_add_mod]
      exact filled

/-- All pages are full, and the first slice of a new one is handed out. -/
theorem LevelServed.page_added (bound : level < 8)
    (state : LevelServed heap level answers pages managers)
    (whole : answers.length % slicesAt level = 0) (base pointer : Nat) (same : heap.base = base)
    (address : pointer = sliceAt base level k (answers.length % slicesAt level)) :
    (∀ other, other < (answers ++ [pointer]).length →
        ∃ page, (pages ++ [k])[other / slicesAt level]? = some page ∧
          (answers ++ [pointer])[other]? = some (sliceAt base level page (other % slicesAt level))) ∧
      (pages ++ [k]).length =
        ((answers ++ [pointer]).length + slicesAt level - 1) / slicesAt level ∧
      (answers ++ [pointer]).length % slicesAt level = 1 := by
  have many := (slices_bounds bound).1
  have positive := slices_pos bound
  have count : pages.length = answers.length / slicesAt level := by
    rw [state.pageCount, pages_of_whole positive whole]
  refine ⟨?_, ?_, ?_⟩
  · rw [address, ← same]
    apply slices_snoc state.slices
    · intro i other listed
      rw [List.getElem?_append_left (List.getElem?_eq_some_iff.mp listed).1]
      exact listed
    · rw [← count, List.getElem?_concat_length]
  · rw [List.length_append, List.length_append, List.length_singleton, List.length_singleton,
      pages_of_next positive, count]
  · rw [List.length_append, List.length_singleton, ← Nat.mod_add_mod, whole, Nat.zero_add,
      Nat.mod_eq_of_lt many]

/-- The newest manager has an allocator left, which asks for a page. -/
theorem LevelServed.room_search (state : LevelServed heap level answers pages managers)
    (whole : answers.length % slicesAt level = 0) (room : usedOf pages.length < endFlag)
    (enough : 0 < fuel) (linked : Bool) (offered : List (Option Nat)) :
    kmallocHelper fuel (heap.allocMs level) level linked offered heap =
        takeFree heap (heap.allocMs level) linked offered ∧
      frameRequests heap fuel (heap.allocMs level) = 1 := by
  obtain ⟨owner, rest, -, -, some_manager⟩ := state.head
  have newest := state.newest
  rw [whole] at newest
  have pFull : (heap.managers (heap.allocMs level)).pFull = endFlag := newest.pFull
  have free : (heap.managers (heap.allocMs level)).free ≠ endFlag := by
    rw [newest.free]
    exact Nat.ne_of_lt room
  have bare := (newest.unused _ (Nat.le_refl _) room).1
  rw [← newest.free] at bare
  obtain ⟨fuel, rfl⟩ : ∃ rest, fuel = rest + 1 := ⟨fuel - 1, by omega⟩
  unfold kmallocHelper frameRequests
  rw [if_neg some_manager, if_neg some_manager, if_neg (not_not.mpr pFull),
    if_neg (not_not.mpr pFull), if_pos free, if_pos free, ← targetOf, if_pos bare]
  exact ⟨rfl, rfl⟩

theorem LevelServed.first_slice (mapped : Mapped framesNumber heap) (bound : level < 8)
    (state : LevelServed heap level answers pages managers) (nodup : managers.Nodup)
    (whole : answers.length % slicesAt level = 0) (room : usedOf pages.length < endFlag)
    (frame : k < framesNumber) (offered : List (Option Nat)) :
    ∃ heap' owner, takeFree heap (heap.allocMs level) (decide (level ≤ 4)) (some k :: offered) =
        some (sliceAt heap.base level k (answers.length % slicesAt level), heap') ∧
      SliceGiven heap heap' level answers pages managers [k] owner k := by
  obtain ⟨owner, rest, same, address, -⟩ := state.head
  have newest := state.newest
  rw [whole] at newest
  obtain ⟨heap', slice, served, filled⟩ := newest.first_slice mapped bound room frame offered
  obtain ⟨chain, older⟩ := state.chain_served nodup served
  obtain ⟨slices, pageCount, one⟩ := state.page_added bound whole heap'.base
    (sliceAt heap.base level k (answers.length % slicesAt level)) served.touches.base.symm
    (by rw [served.touches.base])
  obtain ⟨nextUsed, sameManagers⟩ := used_of_succ room
  have wide : (pages ++ [k]).length = pages.length + 1 := by
    rw [List.length_append, List.length_singleton]
  refine ⟨heap', owner, by rw [whole, slice], ?_, ?_, ?_, ?_, ?_⟩
  · rw [← address]
    exact PageServed.level_call served
  · intro other member
    rw [List.mem_singleton] at member
    rw [member]
    exact served.own
  · rw [same]
    exact List.mem_cons_self
  · exact List.mem_append_right pages (List.mem_singleton_self k)
  · refine ⟨slices, pageCount, ?_, chain, older, ?_⟩
    · change managers.length = ((pages ++ [k]).length - 1) / endFlag + 1
      rw [wide, sameManagers]
      exact state.managerCount
    · change ManagerFilled heap' level (heap'.allocMs level) (usedOf (pages ++ [k]).length) _
        ((pages ++ [k]).getLastD 0)
      rw [one, wide, nextUsed, served.touches.allocMs, List.getLastD_concat]
      exact filled

theorem LevelServed.used_up (state : LevelServed heap level answers pages managers)
    (whole : answers.length % slicesAt level = 0) (full : usedOf pages.length = endFlag) :
    ∀ other ∈ managers, UsedUp heap (pageAt heap.base other) := by
  have newest := state.newest
  rw [whole, full] at newest
  obtain ⟨head, rest, same, address, -⟩ := state.head
  have older := state.older
  rw [same] at older ⊢
  intro other member
  rcases List.mem_cons.mp member with first | later
  · rw [first, ← address]
    exact ⟨newest.pFull, newest.free⟩
  · exact older other later

section NewManager

variable {middle : Heap} {owner : Nat}

/-- A manager is added to the level, and then it serves. -/
theorem ManagerAdded.level_call (added : ManagerAdded heap level owner middle)
    (served : PageServed middle heap' (pageAt heap.base owner) i k) :
    LevelCall heap heap' level (pageAt heap.base owner) k := by
  refine ⟨served.touches.base.trans added.base, ?_, ?_, ?_, ?_, ?_⟩
  · intro frame
    rw [served.touches.physical, added.frames]
  · intro other different
    rw [served.touches.allocMs, added.allocMs, Function.update_of_ne different]
  · intro other different
    rw [served.touches.others other different, added.others other different]
  · intro outside notHere
    rw [served.touches.memory outside (by rw [added.base]; exact notHere), added.memory]
  · intro frame used
    apply served.inUse
    rw [added.inUse]
    exact List.mem_cons_of_mem owner used

theorem ManagerAdded.head (added : ManagerAdded heap level owner middle)
    (served : PageServed middle heap' (pageAt heap.base owner) i k) :
    heap'.allocMs level = pageAt heap.base owner ∧
      (heap'.managers (pageAt heap.base owner)).next = heap.allocMs level := by
  constructor
  · rw [served.touches.allocMs, added.allocMs, Function.update_self]
  · rw [served.touches.record.2, added.manager, newManager]

/-- The new manager comes before the ones that are used up. -/
theorem LevelServed.chain_added (state : LevelServed heap level answers pages managers)
    (added : ManagerAdded heap level owner middle)
    (served : PageServed middle heap' (pageAt heap.base owner) i k)
    (kept : ∀ other ∈ managers,
      heap'.managers (pageAt heap.base other) = heap.managers (pageAt heap.base other)) :
    Follows (fun m => (heap'.managers m).next) 0 (heap'.allocMs level)
      ((owner :: managers).map (pageAt heap'.base)) := by
  obtain ⟨head, next⟩ := ManagerAdded.head added served
  rw [head, served.touches.base, added.base]
  refine ⟨rfl, page_at_ne_zero heap.base owner, ?_⟩
  change Follows _ 0 (heap'.managers (pageAt heap.base owner)).next _
  rw [next]
  apply follows_congr state.chain
  intro m listed
  obtain ⟨other, member, same⟩ := List.mem_map.mp listed
  rw [← same, kept other member]

/-- Every manager of the level is used up, so a new one serves. -/
theorem LevelServed.new_manager (mapped : Mapped framesNumber heap)
    (bound : level < 8) (state : LevelServed heap level answers pages managers)
    (whole : answers.length % slicesAt level = 0) (full : usedOf pages.length = endFlag)
    (frames : owner < framesNumber ∧ k < framesNumber) (fresh : owner ∉ managers)
    (offered : List (Option Nat)) :
    ∃ heap', kmallocHelper 1 0 level (decide (level ≤ 4)) (some owner :: some k :: offered) heap =
        some (sliceAt heap.base level k (answers.length % slicesAt level), heap') ∧
      SliceGiven heap heap' level answers pages managers [owner, k] owner k := by
  have usedUp := state.used_up whole full
  obtain ⟨address, added⟩ := add_manager_added level mapped frames.1
  obtain ⟨heap', slice, served, filled⟩ := (new_manager_filled added.manager k).first_slice
    (added.mapped mapped) bound (by decide) frames.2 offered
  have asked : kmallocHelper 1 0 level (decide (level ≤ 4)) (some owner :: some k :: offered) heap =
      takeFree (addManager heap level (heap.allocMs level) (some owner)).2
        (addManager heap level (heap.allocMs level) (some owner)).1 (decide (level ≤ 4))
        (some k :: offered) := by
    unfold kmallocHelper
    exact if_pos rfl
  have call := ManagerAdded.level_call added served
  have kept : ∀ other ∈ managers,
      heap'.managers (pageAt heap.base other) = heap.managers (pageAt heap.base other) := by
    intro other member
    apply call.others
    intro equal
    rw [page_at_injective equal] at member
    exact fresh member
  obtain ⟨slices, pageCount, one⟩ := state.page_added bound whole heap'.base
    (sliceAt heap.base level k (answers.length % slicesAt level)) call.base.symm (by rw [call.base])
  obtain ⟨nextUsed, nextManagers⟩ := used_of_full full
  have wide : (pages ++ [k]).length = pages.length + 1 := by
    rw [List.length_append, List.length_singleton]
  refine ⟨heap', by rw [asked, address, slice, added.base, whole], call, ?_, ?_, ?_, ?_⟩
  · intro other member
    rcases List.mem_cons.mp member with first | second
    · apply served.inUse
      rw [added.inUse, first]
      exact List.mem_cons_self
    · rw [List.mem_singleton.mp second]
      exact served.own
  · exact List.mem_cons_self
  · exact List.mem_append_right pages (List.mem_singleton_self k)
  · refine ⟨slices, pageCount, ?_, state.chain_added added served kept, ?_, ?_⟩
    · change managers.length + 1 = ((pages ++ [k]).length - 1) / endFlag + 1
      rw [wide, nextManagers, state.managerCount]
    · intro other member
      have old : other ∈ managers := member
      rw [call.base, UsedUp, kept other old]
      exact usedUp other old
    · change ManagerFilled heap' level (heap'.allocMs level) (usedOf (pages ++ [k]).length) _
        ((pages ++ [k]).getLastD 0)
      rw [one, wide, nextUsed, (ManagerAdded.head added served).1, List.getLastD_concat]
      exact filled

end NewManager

end Requests

end ChaoOS.DenseLevels
