import ChaoOS.SlicePages

/-!
# The invariant of the slice heap

`HeapSound` ties the managers, the frame table entries, the header bytes and the
client's live pointers together. Every operation of the heap works on one page
of one allocator; `HeapSound.update_page` says once what such an operation has to
leave alone and what it has to provide.
-/

namespace ChaoOS.SliceHeapInvariant

open ChaoOS.KernelMath ChaoOS.IndexList ChaoOS.PageDirectory ChaoOS.SliceHeapModel
open ChaoOS.SliceLists ChaoOS.SlicePages

set_option autoImplicit false

/-! ## Addresses -/

/-- `init_normal_mem_zone` aligns the base of the pool to a page, and `init_vmm` maps
the pool above `PAGE_OFFSET`, below the last byte of the address space. -/
structure Pool (base framesNumber : Nat) : Prop where
  aligned : base % pageSize = 0
  mapped : pageOffset + base + framesNumber * pageSize < wordSize

def pageAt (base k : Nat) : Nat := pageOffset + base + k * pageSize

def slicesAt (level : Nat) : Nat :=
  if level ≤ 4 then linkedSlices (sliceSizeAt level) else bitmapSlices (sliceSizeAt level)

def headerAt (base level k j : Nat) : Nat := pageAt base k + 4 + j * (sliceSizeAt level + 1)

/-- The address of slice `j` of the page in frame `k`. -/
def sliceAt (base level k j : Nat) : Nat :=
  if level ≤ 4 then headerAt base level k j + 1 else pageAt base k + j * sliceSizeAt level

def InPage (base k address : Nat) : Prop :=
  pageAt base k ≤ address ∧ address < pageAt base k + pageSize

section Addresses

variable (base k : Nat) {level j : Nat}

theorem level_cases (bound : level < 8) : level = 0 ∨ level = 1 ∨ level = 2 ∨ level = 3 ∨
    level = 4 ∨ level = 5 ∨ level = 6 ∨ level = 7 := by
  omega

theorem slice_in_page (bound : level < 8) (inside : j < slicesAt level) :
    pageAt base k ≤ sliceAt base level k j ∧
      sliceAt base level k j + sliceSizeAt level ≤ pageAt base k + pageSize := by
  unfold sliceAt headerAt
  rcases level_cases bound with same | same | same | same | same | same | same | same <;>
    subst same <;> simp [slicesAt, linkedSlices, bitmapSlices, sliceSizeAt, sliceSizes, pageSize] at inside ⊢ <;>
    omega

theorem slice_size_pos (bound : level < 8) : 0 < sliceSizeAt level := by
  have all : ∀ index, index < 8 → 0 < sliceSizeAt index := by decide
  exact all level bound

theorem slices_bounds (bound : level < 8) : 2 ≤ slicesAt level ∧ slicesAt level < sliceEnd ∧
    (4 < level → slicesAt level ≤ 8) := by
  have all : ∀ index, index < 8 → 2 ≤ slicesAt index ∧ slicesAt index < sliceEnd ∧
      (4 < index → slicesAt index ≤ 8) := by
    decide
  exact all level bound

theorem slices_pos (bound : level < 8) : 0 < slicesAt level :=
  Nat.lt_of_lt_of_le Nat.two_pos (slices_bounds bound).1

theorem page_at_ne_zero : pageAt base k ≠ 0 := by
  unfold pageAt pageOffset
  omega

theorem slice_mem_page (bound : level < 8) (inside : j < slicesAt level) :
    InPage base k (sliceAt base level k j) := by
  have range := slice_in_page base k bound inside
  have positive := slice_size_pos bound
  exact ⟨range.1, by omega⟩

theorem slice_apart (level : Nat) {i j : Nat} (ordered : i < j) :
    sliceAt base level k i + sliceSizeAt level ≤ sliceAt base level k j := by
  have step : (i + 1) * sliceSizeAt level ≤ j * sliceSizeAt level := Nat.mul_le_mul_right _ ordered
  have wideStep : (i + 1) * (sliceSizeAt level + 1) ≤ j * (sliceSizeAt level + 1) :=
    Nat.mul_le_mul_right _ ordered
  rw [Nat.succ_mul] at step wideStep
  unfold sliceAt headerAt
  split_ifs <;> omega

theorem slice_at_injective {base k : Nat} (bound : level < 8) {i : Nat}
    (same : sliceAt base level k i = sliceAt base level k j) : i = j := by
  have positive := slice_size_pos bound
  rcases Nat.lt_trichotomy i j with below | equal | above
  · have ordered := slice_apart base k level below
    omega
  · exact equal
  · have ordered := slice_apart base k level above
    omega

theorem header_mem_page (linked : level ≤ 4) (inside : j < slicesAt level) :
    InPage base k (headerAt base level k j) := by
  have range := slice_in_page base k (show level < 8 by omega) inside
  have positive := slice_size_pos (show level < 8 by omega)
  unfold sliceAt at range
  rw [if_pos linked] at range
  unfold InPage
  unfold headerAt at range ⊢
  omega

/-- A header byte is in no slice. -/
theorem header_not_in_slice {base k : Nat} (linked : level ≤ 4) {i address : Nat}
    (low : sliceAt base level k i ≤ address)
    (high : address < sliceAt base level k i + sliceSizeAt level) :
    headerAt base level k j ≠ address := by
  intro same
  unfold sliceAt at low high
  rw [if_pos linked] at low high
  rcases Nat.lt_or_ge i j with below | above
  · have wideStep : (i + 1) * (sliceSizeAt level + 1) ≤ j * (sliceSizeAt level + 1) :=
      Nat.mul_le_mul_right _ below
    rw [Nat.succ_mul] at wideStep
    unfold headerAt at *
    omega
  · have wideStep : j * (sliceSizeAt level + 1) ≤ i * (sliceSizeAt level + 1) :=
      Nat.mul_le_mul_right _ above
    unfold headerAt at *
    omega

theorem header_at_injective {base k i : Nat} (same : headerAt base level k i = headerAt base level k j) :
    i = j := by
  unfold headerAt at same
  have product : i * (sliceSizeAt level + 1) = j * (sliceSizeAt level + 1) := by omega
  exact Nat.eq_of_mul_eq_mul_right (Nat.succ_pos _) product

/-- Pages of different frames have no address in common. -/
theorem page_unique {base k other address : Nat} (here : InPage base k address)
    (there : InPage base other address) : k = other := by
  unfold InPage pageAt pageSize at *
  omega

theorem store_outside {base k address value : Nat} {memory : Nat → Nat} (here : InPage base k address)
    {other : Nat} (outside : ¬InPage base k other) :
    store memory address value other = memory other := by
  rw [store, if_neg]
  intro same
  rw [same] at outside
  exact outside here

/-- Writing one header byte changes no other header. -/
theorem store_header (memory : Nat → Nat) (base level k j value other : Nat) :
    store memory (headerAt base level k j) value (headerAt base level k other) =
      Function.update (fun j => memory (headerAt base level k j)) j value other := by
  rw [Function.update_apply, store]
  by_cases same : other = j
  · rw [same, if_pos rfl, if_pos rfl]
  · rw [if_neg same, if_neg]
    intro equal
    exact same (header_at_injective equal)

end Addresses

/-! ## One page -/

def liveSlices (base level k : Nat) (live : List (Nat × Nat)) : Finset Nat :=
  (Finset.range (slicesAt level)).filter fun j => sliceAt base level k j ∈ live.map Prod.fst

/-- The state of a page that an allocator on the list `name` holds. -/
structure PageOk (tidy : Prop) (level : Nat) (name : ListName) (header : Nat → Nat)
    (first avail : Nat) (live : Finset Nat) : Prop where
  linked : level ≤ 4 → ∃ chain, LinkedPage tidy (slicesAt level) header first avail live chain ∧
    (name = .pFull → chain ≠ [])
  bitmap : 4 < level → BitmapPage (slicesAt level) first avail live ∧ (name = .pFull → 0 < avail)
  busy : live.Nonempty
  full : name = .full → tidy ∨ 4 < level → avail = 0

section Pages

variable {tidy : Prop} {level first avail : Nat} {name : ListName} {header header' : Nat → Nat}
  {live : Finset Nat}

theorem linked_page_congr {slices : Nat} {chain : List Nat}
    (page : LinkedPage tidy slices header first avail live chain)
    (same : ∀ j, j < slices → header' j = header j) :
    LinkedPage tidy slices header' first avail live chain := by
  refine ⟨page.bound, page.count, ?_, page.nodup, page.idle, ?_, page.whole⟩
  · apply follows_congr page.follows
    intro j listed
    exact same j (page.idle j listed).1
  · intro j member
    rw [same j (page.bound j member)]
    exact page.closed j member

theorem PageOk.congr (page : PageOk tidy level name header first avail live)
    (same : level ≤ 4 → ∀ j, j < slicesAt level → header' j = header j) :
    PageOk tidy level name header' first avail live := by
  refine ⟨?_, page.bitmap, page.busy, page.full⟩
  intro linked
  rcases page.linked linked with ⟨chain, state, nonempty⟩
  exact ⟨chain, linked_page_congr state (same linked), nonempty⟩

theorem PageOk.count (page : PageOk tidy level name header first avail live) :
    avail + live.card = slicesAt level ∧ ∀ j ∈ live, j < slicesAt level := by
  by_cases linked : level ≤ 4
  · rcases page.linked linked with ⟨_, state, _⟩
    exact ⟨state.count, state.bound⟩
  · have state := (page.bitmap (by omega)).1
    exact ⟨state.count, state.bound⟩

end Pages

/-! ## The whole heap -/

/-- The manager `m` is one of those of `level`. -/
def Kept (chains : Nat → List Nat) (level m : Nat) : Prop := level < 8 ∧ m ∈ chains level

def targetOf (heap : Heap) (m i : Nat) : FramePtr := ((heap.managers m).allocs i).targetPage

structure HeldPage (tidy : Prop) (framesNumber : Nat) (heap : Heap) (live : List (Nat × Nat))
    (level m i : Nat) (name : ListName) (k : Nat) : Prop where
  inside : k < framesNumber
  inUse : k ∈ heap.framesInUse
  target : targetOf heap m i = .entry k
  owner : (heap.frames (.entry k)).allocator = m + (12 + 10 * i)
  page : PageOk tidy level name (fun j => heap.memory (headerAt heap.base level k j))
    ((heap.managers m).allocs i).firstAvai ((heap.managers m).allocs i).avaiNum
    (liveSlices heap.base level k live)

structure HeapSound (tidy : Prop) (framesNumber : Nat) (chains : Nat → List Nat)
    (place : Nat → Nat → ListName) (heap : Heap) (live : List (Nat × Nat)) : Prop where
  pool : Pool heap.base framesNumber
  physical : ∀ k, k < framesNumber →
    (heap.frames (.entry k)).physicAddr = heap.base + k * pageSize
  chain : ∀ level, level < 8 →
    Follows (fun m => (heap.managers m).next) 0 (heap.allocMs level) (chains level)
  home : ∀ level m, Kept chains level m →
    ∃ k, k < framesNumber ∧ k ∈ heap.framesInUse ∧ m = pageAt heap.base k
  size : ∀ level m, Kept chains level m → (heap.managers m).sliceSize = sliceSizeAt level
  threads : ∀ level m, Kept chains level m → Threads (heap.managers m) (place m)
  bare : ∀ level m i, Kept chains level m → i < endFlag → place m i = .free →
    targetOf heap m i = .null
  held : ∀ level m i, Kept chains level m → i < endFlag → place m i ≠ .free →
    ∃ k, HeldPage tidy framesNumber heap live level m i (place m i) k ∧
      ∀ level' m', Kept chains level' m' → m' ≠ pageAt heap.base k
  listed : ∀ ptr n, (ptr, n) ∈ live → ∃ level m i k j, Kept chains level m ∧ i < endFlag ∧
    place m i ≠ .free ∧ targetOf heap m i = .entry k ∧ j < slicesAt level ∧
    ptr = sliceAt heap.base level k j ∧ n ≤ sliceSizeAt level
  nodup : (live.map Prod.fst).Nodup

/-! ## Addresses the code computes -/

section CodeAddresses

variable {tidy : Prop} {framesNumber : Nat} {chains : Nat → List Nat}
  {place : Nat → Nat → ListName} {heap : Heap} {live : List (Nat × Nat)}

theorem Pool.page_end {base k : Nat} (pool : Pool base framesNumber) (inside : k < framesNumber) :
    pageAt base k + pageSize < wordSize := by
  have mapped := pool.mapped
  have step : (k + 1) * pageSize ≤ framesNumber * pageSize := Nat.mul_le_mul_right _ inside
  rw [Nat.succ_mul] at step
  unfold pageAt
  omega

/-- A search along managers that each fill a page of the pool has fuel enough. -/
theorem Pool.frames_lt_fuel {base : Nat} (pool : Pool base framesNumber) :
    framesNumber < managerFuel := by
  have mapped := pool.mapped
  unfold wordSize pageSize at mapped
  unfold managerFuel
  omega

theorem page_aligned {base k : Nat} (pool : Pool base framesNumber) :
    pageAt base k % pageSize = 0 := by
  have aligned := pool.aligned
  unfold pageAt pageOffset
  unfold pageSize at *
  omega

/-- The table gives every frame of the pool its address. -/
structure Mapped (framesNumber : Nat) (heap : Heap) : Prop where
  pool : Pool heap.base framesNumber
  physical : ∀ k, k < framesNumber →
    (heap.frames (.entry k)).physicAddr = heap.base + k * pageSize

theorem Mapped.page_address (mapped : Mapped framesNumber heap) {k : Nat}
    (inside : k < framesNumber) : pageAddressOf heap (.entry k) = pageAt heap.base k := by
  have ends := mapped.pool.page_end inside
  have positive : 0 < pageSize := by decide
  unfold pageAt at ends
  rw [pageAddressOf, mapped.physical k inside, add32_of_lt (by omega), pageAt]
  omega

theorem HeapSound.mapped (sound : HeapSound tidy framesNumber chains place heap live) :
    Mapped framesNumber heap :=
  ⟨sound.pool, sound.physical⟩

theorem HeapSound.page_address (sound : HeapSound tidy framesNumber chains place heap live)
    {k : Nat} (inside : k < framesNumber) :
    pageAddressOf heap (.entry k) = pageAt heap.base k :=
  sound.mapped.page_address inside

theorem HeapSound.manager_address (sound : HeapSound tidy framesNumber chains place heap live)
    {level m : Nat} (kept : Kept chains level m) :
    m % pageSize = 0 ∧ m + pageSize < wordSize ∧ m ≠ 0 := by
  rcases sound.home level m kept with ⟨k, inside, _, address⟩
  have ends := sound.pool.page_end inside
  rw [address]
  exact ⟨page_aligned sound.pool, ends, page_at_ne_zero heap.base k⟩

theorem HeapSound.allocator_address (sound : HeapSound tidy framesNumber chains place heap live)
    {level m i : Nat} (kept : Kept chains level m) (inside : i < endFlag) :
    allocatorAddress m i = m + (12 + 10 * i) := by
  rcases sound.manager_address kept with ⟨_, ends, _⟩
  apply add32_of_lt
  unfold endFlag at inside
  unfold pageSize at ends
  omega

/-- The address of an allocator tells its manager and its place there. -/
theorem allocator_decodes {m i : Nat} (aligned : m % pageSize = 0) (ends : m + pageSize < wordSize)
    (inside : i < endFlag) :
    managerOf (m + (12 + 10 * i)) = m ∧ indexOf (m + (12 + 10 * i)) = i := by
  unfold endFlag at inside
  unfold pageSize at aligned ends
  rcases Nat.dvd_of_mod_eq_zero aligned with ⟨a, whole⟩
  have quotient : (m + (12 + 10 * i)) / 4096 = a := by
    rw [whole, Nat.mul_add_div (by decide), Nat.div_eq_of_lt (by omega), Nat.add_zero]
  have manager : managerOf (m + (12 + 10 * i)) = m := by
    unfold wordSize at ends
    rw [managerOf, page_mask_eq, pageSize, quotient, Nat.mod_eq_of_lt (by omega)]
    omega
  refine ⟨manager, ?_⟩
  rw [indexOf, manager, sub32_of_le (by omega) (by omega)]
  omega

/-- An allocator with a page is on a list of such allocators, and its page is sound. -/
theorem HeapSound.held_at (sound : HeapSound tidy framesNumber chains place heap live)
    {level m i k : Nat} (kept : Kept chains level m) (inside : i < endFlag)
    (target : targetOf heap m i = .entry k) : place m i ≠ .free ∧
      HeldPage tidy framesNumber heap live level m i (place m i) k ∧
      ∀ level' m', Kept chains level' m' → m' ≠ pageAt heap.base k := by
  have notFree : place m i ≠ .free := by
    intro isFree
    rw [sound.bare level m i kept inside isFree] at target
    exact absurd target (by simp)
  rcases sound.held level m i kept inside notFree with ⟨frame, page, apart⟩
  have same : frame = k := FramePtr.entry.inj (page.target.symm.trans target)
  rw [same] at page apart
  exact ⟨notFree, page, apart⟩

/-- A frame belongs to one allocator only. -/
theorem HeapSound.owner_unique (sound : HeapSound tidy framesNumber chains place heap live)
    {level m i level' m' i' k : Nat} (kept : Kept chains level m) (inside : i < endFlag)
    (target : targetOf heap m i = .entry k) (kept' : Kept chains level' m') (inside' : i' < endFlag)
    (target' : targetOf heap m' i' = .entry k) : m' = m ∧ i' = i := by
  have left := (sound.held_at kept inside target).2.1.owner
  have right := (sound.held_at kept' inside' target').2.1.owner
  have address := sound.manager_address kept
  have address' := sound.manager_address kept'
  have decoded := allocator_decodes address.1 address.2.1 inside
  have decoded' := allocator_decodes address'.1 address'.2.1 inside'
  rw [← left] at decoded
  rw [← right] at decoded'
  exact ⟨decoded'.1.symm.trans decoded.1, decoded'.2.symm.trans decoded.2⟩

theorem HeapSound.level_unique (sound : HeapSound tidy framesNumber chains place heap live)
    {level level' m : Nat} (kept : Kept chains level m) (kept' : Kept chains level' m) :
    level' = level := by
  have injective : ∀ a, a < 8 → ∀ b, b < 8 → sliceSizeAt a = sliceSizeAt b → a = b := by decide
  have left := sound.size level m kept
  have right := sound.size level' m kept'
  exact injective level' kept'.1 level kept.1 (right.symm.trans left)

end CodeAddresses

/-! ## Updates -/

/-- What an operation on the page in frame `k` of allocator `i` of `m` leaves. -/
structure Touches (heap heap' : Heap) (m i k : Nat) : Prop where
  base : heap'.base = heap.base
  allocMs : heap'.allocMs = heap.allocMs
  others : ∀ other, other ≠ m → heap'.managers other = heap.managers other
  record : (heap'.managers m).sliceSize = (heap.managers m).sliceSize ∧
    (heap'.managers m).next = (heap.managers m).next
  contents : ∀ j, j ≠ i → contentOf (heap'.managers m) j = contentOf (heap.managers m) j
  memory : ∀ address, ¬InPage heap.base k address → heap'.memory address = heap.memory address
  physical : ∀ frame, (heap'.frames frame).physicAddr = (heap.frames frame).physicAddr
  owners : ∀ other, other ≠ k →
    (heap'.frames (.entry other)).allocator = (heap.frames (.entry other)).allocator
  inUse : ∀ other, other ≠ k → other ∈ heap.framesInUse → other ∈ heap'.framesInUse

section Update

variable {tidy : Prop} {framesNumber : Nat} {chains : Nat → List Nat}
  {place : Nat → Nat → ListName} {heap heap' : Heap} {live live' : List (Nat × Nat)}
  {level m i k : Nat} {name : ListName}

theorem Touches.content (touches : Touches heap heap' m i k) {other j : Nat}
    (different : ¬(other = m ∧ j = i)) :
    contentOf (heap'.managers other) j = contentOf (heap.managers other) j := by
  by_cases same : other = m
  · rw [same]
    apply touches.contents
    intro here
    exact different ⟨same, here⟩
  · rw [touches.others other same]

theorem Touches.next (touches : Touches heap heap' m i k) (other : Nat) :
    (heap'.managers other).next = (heap.managers other).next := by
  by_cases same : other = m
  · rw [same]
    exact touches.record.2
  · rw [touches.others other same]

theorem Touches.trans {heap'' : Heap} (first : Touches heap heap' m i k)
    (second : Touches heap' heap'' m i k) : Touches heap heap'' m i k := by
  constructor
  · exact second.base.trans first.base
  · exact second.allocMs.trans first.allocMs
  · intro other different
    rw [second.others other different, first.others other different]
  · exact ⟨second.record.1.trans first.record.1, second.record.2.trans first.record.2⟩
  · intro j different
    rw [second.contents j different, first.contents j different]
  · intro address outside
    rw [second.memory address (by rw [first.base]; exact outside), first.memory address outside]
  · intro frame
    rw [second.physical, first.physical]
  · intro other different
    rw [second.owners other different, first.owners other different]
  · intro other different used
    exact second.inUse other different (first.inUse other different used)

theorem manager_modify_manager (change : Manager → Manager) (other : Nat) :
    (heap.modifyManager m change).managers other =
      if other = m then change (heap.managers m) else heap.managers other := rfl

theorem modify_manager_id (heap : Heap) (m : Nat) :
    (heap.modifyManager m fun manager => manager) = heap := by
  have same : (fun other => if other = m then heap.managers m else heap.managers other) =
      heap.managers := by
    funext other
    split_ifs with here
    · rw [here]
    · rfl
  exact congrArg (fun managers => { heap with managers := managers }) same

/-- A change of one manager that leaves the record and the other allocators. -/
theorem touches_manager (k : Nat) {change : Manager → Manager}
    (record : (change (heap.managers m)).sliceSize = (heap.managers m).sliceSize ∧
      (change (heap.managers m)).next = (heap.managers m).next)
    (contents : ∀ j, j ≠ i → contentOf (change (heap.managers m)) j = contentOf (heap.managers m) j) :
    Touches heap (heap.modifyManager m change) m i k := by
  have here : (heap.modifyManager m change).managers m = change (heap.managers m) := by
    rw [manager_modify_manager, if_pos rfl]
  constructor
  · rfl
  · rfl
  · intro other different
    rw [manager_modify_manager, if_neg different]
  · rw [here]
    exact record
  · rw [here]
    exact contents
  · exact fun _ _ => rfl
  · exact fun _ => rfl
  · exact fun _ _ => rfl
  · exact fun _ _ used => used

theorem touches_alloc (k : Nat) (change : SliceAllocator → SliceAllocator) :
    Touches heap (heap.modifyAlloc m i change) m i k := by
  apply touches_manager
  · exact ⟨rfl, rfl⟩
  · intro j different
    simp [contentOf, different]

theorem touches_memory (m i : Nat) {memory : Nat → Nat}
    (outside : ∀ address, ¬InPage heap.base k address → memory address = heap.memory address) :
    Touches heap { heap with memory := memory } m i k :=
  ⟨rfl, rfl, fun _ _ => rfl, ⟨rfl, rfl⟩, fun _ _ => rfl, outside, fun _ => rfl, fun _ _ => rfl,
    fun _ _ used => used⟩

theorem live_slices_congr {base : Nat} (bound : level < 8) {other : Nat} (different : other ≠ k)
    (ptrs : ∀ ptr, ¬InPage base k ptr →
      (ptr ∈ live'.map Prod.fst ↔ ptr ∈ live.map Prod.fst)) :
    liveSlices base level other live' = liveSlices base level other live := by
  apply Finset.filter_congr
  intro j member
  apply ptrs
  intro inside
  have own := slice_mem_page base other bound (Finset.mem_range.mp member)
  exact different (page_unique own inside)

/-- A page of another frame is as it was. -/
theorem HeldPage.other (touches : Touches heap heap' m i k)
    (ptrs : ∀ ptr, ¬InPage heap.base k ptr →
      (ptr ∈ live'.map Prod.fst ↔ ptr ∈ live.map Prod.fst))
    {level' m' i' k' : Nat} (bound : level' < 8) (different : ¬(m' = m ∧ i' = i)) (apart : k' ≠ k)
    (page : HeldPage tidy framesNumber heap live level' m' i' name k') :
    HeldPage tidy framesNumber heap' live' level' m' i' name k' := by
  have content := touches.content different
  have parts := Prod.mk.inj content
  have rest := Prod.mk.inj parts.2
  refine ⟨page.inside, touches.inUse k' apart page.inUse, ?_, ?_, ?_⟩
  · exact rest.2.trans page.target
  · rw [touches.owners k' apart]
    exact page.owner
  · rw [touches.base, live_slices_congr bound apart ptrs]
    have state := page.page
    rw [← parts.1, ← rest.1] at state
    apply state.congr
    intro linked j inside
    apply touches.memory
    intro here
    exact apart (page_unique (header_mem_page _ _ linked inside) here)

/-- One operation on one page keeps the heap sound. -/
theorem HeapSound.update_page (sound : HeapSound tidy framesNumber chains place heap live)
    (kept : Kept chains level m) (inside : i < endFlag) (touches : Touches heap heap' m i k)
    (ptrs : ∀ ptr, ¬InPage heap.base k ptr →
      (ptr ∈ live'.map Prod.fst ↔ ptr ∈ live.map Prod.fst))
    (before : targetOf heap m i = .null ∨ targetOf heap m i = .entry k)
    (mine : ∀ level' m' i', Kept chains level' m' → i' < endFlag →
      targetOf heap m' i' = .entry k → m' = m ∧ i' = i)
    (apart : ∀ level' m', Kept chains level' m' → m' ≠ pageAt heap.base k)
    (threads : Threads (heap'.managers m) (Function.update (place m) i name))
    (bare : name = .free → targetOf heap' m i = .null)
    (held : name ≠ .free → HeldPage tidy framesNumber heap' live' level m i name k)
    (listed : ∀ ptr n, (ptr, n) ∈ live' → InPage heap.base k ptr → name ≠ .free ∧
      ∃ j, j < slicesAt level ∧ ptr = sliceAt heap.base level k j ∧ n ≤ sliceSizeAt level)
    (others : ∀ ptr n, (ptr, n) ∈ live' → ¬InPage heap.base k ptr → (ptr, n) ∈ live)
    (nodup : (live'.map Prod.fst).Nodup) :
    HeapSound tidy framesNumber chains
      (Function.update place m (Function.update (place m) i name)) heap' live' := by
  have placeAt : ∀ m' i', Function.update place m (Function.update (place m) i name) m' i' =
      if m' = m ∧ i' = i then name else place m' i' := by
    intro m' i'
    by_cases same : m' = m
    · subst same
      rw [Function.update_self, Function.update_apply]
      simp
    · rw [Function.update_of_ne same]
      simp [same]
  have targetAt : ∀ m' i', ¬(m' = m ∧ i' = i) → targetOf heap' m' i' = targetOf heap m' i' := by
    intro m' i' different
    exact (Prod.mk.inj (Prod.mk.inj (touches.content different)).2).2
  constructor
  · rw [touches.base]
    exact sound.pool
  · intro frame bound
    rw [touches.physical, touches.base]
    exact sound.physical frame bound
  · intro other bound
    rw [touches.allocMs]
    apply follows_congr (sound.chain other bound)
    intro item _
    exact touches.next item
  · intro other m' keptThere
    rcases sound.home other m' keptThere with ⟨frame, bound, used, address⟩
    rw [touches.base]
    refine ⟨frame, bound, touches.inUse frame ?_ used, address⟩
    intro same
    rw [same] at address
    exact apart other m' keptThere address
  · intro other m' keptThere
    by_cases same : m' = m
    · rw [same, touches.record.1, ← same]
      exact sound.size other m' keptThere
    · rw [touches.others m' same]
      exact sound.size other m' keptThere
  · intro other m' keptThere
    by_cases same : m' = m
    · rw [same, Function.update_self]
      exact threads
    · rw [touches.others m' same, Function.update_of_ne same]
      exact sound.threads other m' keptThere
  · intro other m' i' keptThere bound
    rw [placeAt]
    split_ifs with here
    · intro isFree
      rw [here.1, here.2]
      exact bare isFree
    · intro isFree
      rw [targetAt m' i' here]
      exact sound.bare other m' i' keptThere bound isFree
  · intro other m' i' keptThere bound
    rw [placeAt, touches.base]
    split_ifs with here
    · intro notFree
      have sameLevel : other = level := by
        rw [here.1] at keptThere
        exact sound.level_unique kept keptThere
      rw [here.1, here.2, sameLevel]
      exact ⟨k, held notFree, apart⟩
    · intro notFree
      rcases sound.held other m' i' keptThere bound notFree with ⟨frame, page, aside⟩
      refine ⟨frame, page.other touches ptrs keptThere.1 here ?_, aside⟩
      intro same
      have target := page.target
      rw [same] at target
      exact here (mine other m' i' keptThere bound target)
  · intro ptr n member
    rw [touches.base]
    by_cases here : InPage heap.base k ptr
    · rcases listed ptr n member here with ⟨notFree, j, bound, address, fits⟩
      refine ⟨level, m, i, k, j, kept, inside, ?_, (held notFree).target, bound, address, fits⟩
      rw [placeAt, if_pos ⟨rfl, rfl⟩]
      exact notFree
    · rcases sound.listed ptr n (others ptr n member here) with
        ⟨other, m', i', frame, j, keptThere, bound, notFree, target, sliceBound, address, fits⟩
      have elsewhere : ¬(m' = m ∧ i' = i) := by
        intro both
        rw [both.1, both.2] at target
        rcases before with null | own
        · rw [null] at target
          exact absurd target (by simp)
        · rw [own] at target
          have same : k = frame := FramePtr.entry.inj target
          rw [address, ← same] at here
          exact here (slice_mem_page _ _ keptThere.1 sliceBound)
      refine ⟨other, m', i', frame, j, keptThere, bound, ?_, ?_, sliceBound, address, fits⟩
      · rw [placeAt, if_neg elsewhere]
        exact notFree
      · rw [targetAt m' i' elsewhere]
        exact target
  · exact nodup

end Update

end ChaoOS.SliceHeapInvariant
