import ChaoOS.MemoryManager

/-!
# Runs of the memory manager

Each operation keeps the ledger of blocks, the slice heap and the regions in
agreement, so that no frame is assumed to be fresh: the buddy system answers the
heap's own requests.
-/

namespace ChaoOS.MemoryRuns

open ChaoOS.KernelMath ChaoOS.GuardedRun ChaoOS.PageDirectory ChaoOS.SliceHeapModel
open ChaoOS.SliceHeapInvariant ChaoOS.SliceHeapMalloc ChaoOS.SliceHeapFree
open ChaoOS.FrameTableModel ChaoOS.FrameTableAlloc ChaoOS.FrameTableFree ChaoOS.KernelHeap
open ChaoOS.HeapFrames ChaoOS.MemoryManager
open ChaoOS.LargeBlocks (requestLevel get_block_claimed)
open ChaoOS.FrameTableRuns (Block Client FrameOp clientStep ClientSound LinksRepaired granted
  client_frame_alloc client_forget client_free_block client_perm client_step_sound)

set_option autoImplicit false

variable {base framesNumber : Nat} {pages : List Nat} {memory next : MemoryState}

/-! ## Ledgers -/

theorem pages_first {direct large new old : List Block} :
    (direct ++ (large ++ (new ++ old))).Perm (new ++ (direct ++ (large ++ old))) :=
  (List.Perm.append_left direct (List.perm_append_comm_assoc large new old)).trans
    (List.perm_append_comm_assoc direct new _)

/-- A block that has been granted has the level of the request. -/
theorem granted_level {requested index : Nat} {zone zone' : NormalMem} {blocks : List Block}
    (sound : ClientSound framesNumber ⟨zone, blocks⟩)
    (call : frameAlloc requested zone = some (some index, zone')) :
    ∃ level, powerOf2 (nextPowerOf2 requested) = some level ∧ index < framesNumber ∧
      ClientSound framesNumber ⟨zone', (index, level) :: blocks⟩ := by
  have after := client_frame_alloc sound call
  obtain ⟨level, sized, taken⟩ := Option.bind_eq_some_iff.mp call
  obtain ⟨free, busy, zoneSound, held⟩ := after.sound
  have number : zone'.framesNumber = framesNumber := after.number
  have inside : index < framesNumber := by
    have member := held (index, (zone'.page index).level) (by simp [granted])
    have start := zoneSound.layout.tiling.start_lt (Or.inr member)
    rw [number] at start
    exact start
  have claimed := (get_block_claimed (Option.some.inj taken)).2.2
  have before : zone.framesNumber = framesNumber := sound.number
  have own : (zone'.page index).level = level := (claimed (by rw [before]; exact inside)).2
  rw [granted, own] at after
  exact ⟨level, sized, inside, after⟩

/-- Single frames, one request after the other. -/
theorem frame_answers_granted : ∀ {count : Nat} {frames : List Nat} {zone zone' : NormalMem}
    {blocks : List Block}, ClientSound framesNumber ⟨zone, blocks⟩ →
    frameAnswers (List.replicate count 1) zone = some (frames.map some, zone') →
    ClientSound framesNumber ⟨zone', frames.reverse.map (fun k => (k, 0)) ++ blocks⟩ ∧
      ∀ k ∈ frames, k < framesNumber := by
  intro count
  induction count with
  | zero =>
      intro frames zone zone' blocks sound call
      obtain ⟨none_left, same⟩ := Prod.mk.inj (Option.some.inj call)
      have empty : frames = [] := List.map_eq_nil_iff.mp none_left.symm
      subst empty
      subst same
      exact ⟨sound, fun k member => absurd member List.not_mem_nil⟩
  | succ count induction =>
      intro frames zone zone' blocks sound call
      rw [List.replicate_succ] at call
      obtain ⟨⟨first, between⟩, asked, later⟩ := Option.bind_eq_some_iff.mp call
      obtain ⟨⟨others, last⟩, answered, same⟩ := Option.map_eq_some_iff.mp later
      obtain ⟨answers, table⟩ := Prod.mk.inj same
      dsimp only at answered answers table
      cases frames with
      | nil => exact absurd answers (by simp)
      | cons k rest =>
          rw [List.map_cons, List.cons.injEq] at answers
          obtain ⟨head, tail⟩ := answers
          subst head
          subst tail
          subst table
          obtain ⟨level, sized, inside, after⟩ := granted_level sound asked
          have single : level = 0 := by
            have one : powerOf2 (nextPowerOf2 1) = some 0 := by decide
            exact (Option.some.inj (one.symm.trans sized)).symm
          subst single
          obtain ⟨all, small⟩ := induction after answered
          refine ⟨?_, ?_⟩
          · rw [List.reverse_cons, List.map_append, List.append_assoc]
            exact all
          · intro other member
            rcases List.mem_cons.mp member with here | there
            · rw [here]; exact inside
            · exact small other there

/-- Answers that are all blocks. -/
theorem answers_granted {answers : List (Option Nat)} (all : answers.all Option.isSome) :
    ∃ frames : List Nat, answers = frames.map some := by
  induction answers with
  | nil => exact ⟨[], rfl⟩
  | cons answer rest induction =>
      rw [List.all_cons, Bool.and_eq_true] at all
      obtain ⟨frames, same⟩ := induction all.2
      obtain ⟨k, here⟩ := Option.isSome_iff_exists.mp all.1
      exact ⟨k :: frames, by rw [here, same, List.map_cons]⟩

theorem memory_pool (sound : MemorySound base framesNumber pages memory) :
    SliceHeapInvariant.Pool base framesNumber := by
  obtain ⟨chains, place, heap⟩ := sound.heap
  have pool := heap.pool
  have own : (withFrames memory.kernel.heap pages).base = base := sound.wired.heapBase
  rw [own] at pool
  exact pool

/-! ## Requests -/

section Requests

variable {byteSize : Nat} {result : Nat × Kernel}

theorem slice_pointer_pos {chains : Nat → List Nat} {place : Nat → Nat → SliceHeapModel.ListName}
    {heap : Heap} {live : List (Nat × Nat)} {ptr n : Nat}
    (sound : HeapSound False framesNumber chains place heap live) (listed : (ptr, n) ∈ live) :
    ptr ≠ 0 := by
  rcases sound.listed ptr n listed with ⟨level, m, i, k, j, kept, inside, _, target, slice, address, _⟩
  have range := slice_in_page heap.base k kept.1 slice
  have positive := page_at_ne_zero heap.base k
  rw [address]
  omega

/-- What a slice request is served from: frames that nobody had. -/
theorem slice_request_drawn (sound : MemorySound base framesNumber pages memory)
    (small : byteSize ≤ 2048) (allowed : Granted memory.kernel byteSize)
    (call : kmallocOn byteSize memory.kernel = some result) :
    ∃ frames : List Nat,
      ClientSound framesNumber ⟨result.2.zone,
        frames.reverse.map (fun k => (k, 0)) ++ heldBlocks base pages memory⟩ ∧
      FreshFrames framesNumber (withFrames memory.kernel.heap pages) frames ∧
      ∃ count, SliceHeapModel.kmalloc byteSize (frames.map some)
        (withFrames memory.kernel.heap pages) =
          some (result.1, withFrames result.2.heap ((frames.take count).reverse ++ pages)) := by
  have most : byteSize ≤ maxAlloc := le_trans small (by decide)
  unfold kmallocOn at call
  rw [if_neg (Nat.not_lt.mpr most)] at call
  obtain ⟨⟨answers, zone'⟩, asked, rest⟩ := Option.bind_eq_some_iff.mp call
  obtain ⟨⟨ptr, heap'⟩, served, same⟩ := Option.map_eq_some_iff.mp rest
  subst same
  have offered := allowed most
  rw [asked] at offered
  obtain ⟨frames, rfl⟩ := answers_granted offered
  have requests : requestedPages byteSize memory.kernel.heap = List.replicate
      (frameRequests memory.kernel.heap managerFuel
        (memory.kernel.heap.allocMs (sliceLevel byteSize pageSliceLevel 0))) 1 :=
    if_pos (slice_level_bounds small).1
  rw [requests] at asked
  obtain ⟨ledger, inside⟩ := frame_answers_granted sound.blocks asked
  have distinct := ledger.nodup
  have fresh : FreshFrames framesNumber (withFrames memory.kernel.heap pages) frames := by
    rw [List.nodup_append] at distinct
    obtain ⟨new, -, apart⟩ := distinct
    refine ⟨List.nodup_reverse.mp (List.Nodup.of_map _ new), ?_⟩
    intro k member
    refine ⟨inside k member, ?_⟩
    intro used
    exact apart (k, 0) (List.mem_map.mpr ⟨k, List.mem_reverse.mpr member, rfl⟩) (k, 0)
      (mem_held_page used) rfl
  obtain ⟨count, draws⟩ := kmalloc_draws small served
  exact ⟨frames, ledger, fresh, count, draws pages⟩

/-- A slice request. -/
theorem slice_request_sound (sound : MemorySound base framesNumber pages memory)
    (small : byteSize ≤ 2048) (allowed : Granted memory.kernel byteSize)
    (call : kmallocOn byteSize memory.kernel = some result) :
    result.1 ≠ 0 ∧ ∃ pages', MemorySound base framesNumber pages'
      { memory with kernel := result.2, live := (result.1, byteSize) :: memory.live } := by
  have wired := sound.wired.kmalloc call
  obtain ⟨frames, ledger, fresh, count, taken⟩ := slice_request_drawn sound small allowed call
  obtain ⟨ptr, zone', heap'⟩ := result
  obtain ⟨chains, place, heap⟩ := sound.heap
  obtain ⟨chains', place', after⟩ := (kmalloc_served heap small fresh).1 _ taken
  have slice : isLarge (ptr, byteSize) = false := decide_eq_false (Nat.not_lt.mpr small)
  have nonzero : ptr ≠ 0 := slice_pointer_pos after List.mem_cons_self
  refine ⟨nonzero, (frames.take count).reverse ++ pages, wired, ?_, ⟨chains', place', ?_⟩, ?_⟩
  · have large : MemoryState.large
        { memory with kernel := ⟨zone', heap'⟩, live := (ptr, byteSize) :: memory.live } =
          memory.large := List.filter_cons_of_neg (by rw [slice]; decide)
    have fewer : ((frames.take count).reverse.map (fun k => (k, 0)) ++
        heldBlocks base pages memory).Sublist
          (frames.reverse.map (fun k => (k, 0)) ++ heldBlocks base pages memory) :=
      ((List.take_sublist count frames).reverse.map _).append_right _
    apply client_perm (client_forget ledger fewer)
    unfold heldBlocks
    rw [large, List.map_append]
    exact pages_first
  · have slices : MemoryState.slices
        { memory with kernel := ⟨zone', heap'⟩, live := (ptr, byteSize) :: memory.live } =
          (ptr, byteSize) :: memory.slices := List.filter_cons_of_pos (by rw [slice]; rfl)
    rw [slices]
    exact after
  · intro region member
    have listed : region ∈ memory.large := by
      rw [MemoryState.large, List.filter_cons_of_neg (by rw [slice]; decide)] at member
      exact member
    exact sound.large region listed

theorem block_of_page_at (base block : Nat) (byteSize : Nat) :
    blockOf base (pageAt base block, byteSize) = (block, requestLevel byteSize) := by
  have offset : pageAt base block - pageAt base 0 = block * pageSize := by
    unfold pageAt
    omega
  rw [blockOf, offset, Nat.mul_div_cancel block (by decide)]

/-- The block of a granted request is large enough. -/
theorem request_fits {level : Nat} (allowed : byteSize ≤ maxAlloc)
    (sized : powerOf2 (nextPowerOf2 (pageCount byteSize)) = some level) :
    byteSize ≤ pageSize * 2 ^ level := by
  have most : maxAlloc = 4194304 := by decide
  have word : byteSize < wordSize := by
    rw [wordSize]
    omega
  have few := RequestSizing.page_count_bound word
  obtain ⟨least, exponent, -, asked⟩ :=
    RequestSizing.level_of_pages (Nat.lt_of_le_of_lt few (by decide))
      (Nat.le_trans few (by decide))
  have same : level = least := Option.some.inj (sized.symm.trans asked)
  rw [same]
  exact (RequestSizing.page_count_le_iff _ _).mp exponent.covers

theorem large_kmalloc (large : 2048 < byteSize) (most : byteSize ≤ maxAlloc) (heap : Heap)
    (answer : Option Nat) (rest : List (Option Nat)) :
    kmalloc byteSize (answer :: rest) heap =
      some (add32 (answerAddress heap answer) pageOffset,
        heap.takeBlock (nextPowerOf2 (pageCount byteSize)) answer) := by
  unfold kmalloc
  rw [if_neg (Nat.not_lt.mpr most)]
  dsimp only
  rw [if_neg (large_slice_level large)]

theorem block_pointer {kernel : Kernel} (wired : Wired base framesNumber kernel)
    (pool : SliceHeapInvariant.Pool base framesNumber) {block : Nat}
    (inside : block < framesNumber) :
    add32 (answerAddress kernel.heap (some block)) pageOffset = pageAt base block := by
  have word := pool.page_end inside
  have positive : 0 < pageSize := by decide
  rw [pageAt] at word
  rw [answerAddress, wired.physical, if_pos inside, pageAt, add32_of_lt (by omega)]
  omega

/-- A request for a block of pages. -/
theorem large_request_sound (sound : MemorySound base framesNumber pages memory)
    (large : 2048 < byteSize) (most : byteSize ≤ maxAlloc)
    (allowed : Granted memory.kernel byteSize)
    (call : kmallocOn byteSize memory.kernel = some result) :
    result.1 ≠ 0 ∧ MemorySound base framesNumber pages
      { memory with kernel := result.2, live := (result.1, byteSize) :: memory.live } := by
  have wired := sound.wired.kmalloc call
  unfold kmallocOn at call
  rw [if_neg (Nat.not_lt.mpr most)] at call
  obtain ⟨⟨answers, zone'⟩, asked, rest⟩ := Option.bind_eq_some_iff.mp call
  obtain ⟨⟨ptr, heap'⟩, served, same⟩ := Option.map_eq_some_iff.mp rest
  subst same
  have offered := allowed most
  rw [asked] at offered
  obtain ⟨frames, rfl⟩ := answers_granted offered
  have requests : requestedPages byteSize memory.kernel.heap = [pageCount byteSize] :=
    if_neg (large_slice_level large)
  rw [requests] at asked
  obtain ⟨⟨answer, zone''⟩, found, later⟩ := Option.bind_eq_some_iff.mp asked
  obtain ⟨single, table⟩ := Prod.mk.inj (Option.some.inj later)
  dsimp only at single table
  cases frames with
  | nil => exact absurd single (by simp)
  | cons block none_left =>
      rw [List.map_cons, List.cons.injEq] at single
      obtain ⟨head, -⟩ := single
      subst head
      subst table
      obtain ⟨level, sized, inside, ledger⟩ := granted_level sound.blocks found
      have own : requestLevel byteSize = level := by
        rw [LargeBlocks.requestLevel, sized, Option.getD_some]
      rw [List.map_cons, large_kmalloc large most] at served
      obtain ⟨pointer, record⟩ := Prod.mk.inj (Option.some.inj served)
      have address : ptr = pageAt base block := by
        rw [← pointer]
        exact block_pointer sound.wired (memory_pool sound) inside
      have kind : isLarge (ptr, byteSize) = true := decide_eq_true large
      have largeNow : MemoryState.large
          { memory with kernel := ⟨zone'', heap'⟩, live := (ptr, byteSize) :: memory.live } =
            (ptr, byteSize) :: memory.large := List.filter_cons_of_pos kind
      have slicesNow : MemoryState.slices
          { memory with kernel := ⟨zone'', heap'⟩, live := (ptr, byteSize) :: memory.live } =
            memory.slices := List.filter_cons_of_neg (by rw [kind]; decide)
      have block_of : blockOf base (ptr, byteSize) = (block, level) := by
        rw [address, block_of_page_at, own]
      refine ⟨by rw [address]; exact page_at_ne_zero base block, wired, ?_, ?_, ?_⟩
      · apply client_perm ledger
        unfold heldBlocks
        rw [largeNow]
        simp only [List.map_cons, block_of, List.cons_append]
        exact List.perm_middle
      · obtain ⟨chains, place, heap⟩ := sound.heap
        refine ⟨chains, place, ?_⟩
        have unchanged : withFrames heap' pages = withFrames memory.kernel.heap pages := by
          rw [← record, take_block_with_frames]
        rw [slicesNow, unchanged]
        exact heap
      · intro region member
        rw [largeNow] at member
        rcases List.mem_cons.mp member with new | old
        · rw [new, block_of]
          dsimp only
          exact ⟨address, request_fits most sized⟩
        · exact sound.large region old

end Requests

/-! ## Releases -/

section Releases

variable {address : Nat}

theorem page_word (sound : MemorySound base framesNumber pages memory) {k : Nat}
    (inside : k < framesNumber) : base + k * pageSize < wordSize := by
  have word := (memory_pool sound).page_end inside
  rw [pageAt] at word
  omega

/-- A live slice and the frame of its page. -/
theorem slice_frame (sound : MemorySound base framesNumber pages memory) {size : Nat}
    (listed : (address, size) ∈ memory.slices) :
    ∃ k, k ∈ pages ∧ k < framesNumber ∧ InPage base k address ∧
      frameIndexOf memory.kernel.heap address = k ∧
      sub32 (address &&& pageMask) pageOffset = base + k * pageSize := by
  obtain ⟨chains, place, heap⟩ := sound.heap
  rcases live_pointer heap (List.mem_map_of_mem listed) with ⟨level, m, i, k, j, pointer⟩
  have own : (withFrames memory.kernel.heap pages).base = base := sound.wired.heapBase
  have pool := heap.pool
  have inside := pointer.held.inside
  have here := pointer.in_page
  have index : frameIndexOf (withFrames memory.kernel.heap pages) address = k :=
    frame_of_address pool inside here
  have word := pool.page_end inside
  have masked := page_of_address pool inside here
  rw [own] at here word masked
  refine ⟨k, pointer.held.inUse, inside, here, index, ?_⟩
  rw [masked, sub32_of_le (by omega) (by unfold pageAt; omega), pageAt, Nat.add_assoc,
    Nat.add_sub_cancel_left]

/-- The pointer of a slice is the pointer of no block of pages. -/
theorem slice_not_large (sound : MemorySound base framesNumber pages memory) {size : Nat}
    (listed : (address, size) ∈ memory.slices) :
    ∀ region ∈ memory.large, region.1 ≠ address := by
  intro region member same
  obtain ⟨k, page, inside, here, -⟩ := slice_frame sound listed
  have start := (sound.large region member).1
  rw [same] at start
  have first : InPage base (blockOf base region).1 address := by
    rw [start]
    exact LargeBlocks.page_in_page base _
  have sameFrame : (blockOf base region).1 = k := page_unique first here
  have different := (held_disjoint sound).2.2.2.2.2 region member k page
  have apart := blocks_apart sound (mem_held_large member) (mem_held_page page) different
  have positive : 0 < 2 ^ (blockOf base region).2 := Nat.two_pow_pos _
  rw [sameFrame, pow_zero] at apart
  dsimp only at apart
  omega

theorem free_sound (sound : MemorySound base framesNumber pages memory)
    (permits : Permits memory (.kfree address))
    (call : kfreeOn address memory.kernel = some next.kernel)
    (live : next.live = dropPointer address memory.live) (direct : next.direct = memory.direct) :
    ∃ pages', MemorySound base framesNumber pages' next := by
  obtain ⟨⟨⟨ptr, size⟩, member, samePtr, small⟩, expected, safe⟩ := permits
  dsimp only at samePtr small
  subst samePtr
  have listed : (ptr, size) ∈ memory.slices :=
    List.mem_filter.mpr ⟨member, by simp [isLarge, small]⟩
  have wired := sound.wired.kfree call
  obtain ⟨chains, place, heap⟩ := sound.heap
  have nonzero := slice_pointer_pos heap listed
  obtain ⟨place', after⟩ := kfree_sound heap (List.mem_map_of_mem listed) False.elim
    (fun _ => expected)
  rw [kfree_with_frames nonzero] at after
  obtain ⟨k, page, inside, here, index, physical⟩ := slice_frame sound listed
  have largeSame : next.large = memory.large := by
    rw [MemoryState.large, live, dropPointer, List.filter_filter, MemoryState.large]
    apply List.filter_congr
    intro region inLive
    by_cases kind : isLarge region = true
    · have other := slice_not_large sound listed region (List.mem_filter.mpr ⟨inLive, kind⟩)
      simp [kind, other]
    · simp [kind]
  have slicesSame : next.slices = dropPointer ptr memory.slices := by
    rw [MemoryState.slices, live, dropPointer, dropPointer, MemoryState.slices, List.filter_filter,
      List.filter_filter]
    apply List.filter_congr
    intro region _
    rw [Bool.and_comm]
  have large : ∀ region ∈ next.large, region.1 = pageAt base (blockOf base region).1 ∧
      region.2 ≤ pageSize * 2 ^ (blockOf base region).2 := by
    rw [largeSame]
    exact sound.large
  unfold kfreeOn at call
  rw [if_neg nonzero] at call
  split_ifs at call with unowned empties
  · have kernel := Option.some.inj call
    rw [givenBack, if_pos (show EmptiesPage memory.kernel.heap _ from empties), physical, index]
      at after
    rw [physical] at kernel
    by_cases null : base + k * pageSize = 0
    · rw [if_pos null] at after
      rw [physicFree, if_pos null] at kernel
      refine ⟨pages, wired, ?_, ⟨chains, place', ?_⟩, large⟩
      · rw [← kernel, heldBlocks, largeSame, direct]
        exact sound.blocks
      · rw [← kernel, slicesSame]
        exact after
    · rw [if_neg null] at after
      have word := page_word sound inside
      have number : sub32 (base + k * pageSize) memory.kernel.zone.base / pageFrameSize = k := by
        rw [sound.wired.zoneBase, sub32_of_le (by omega) (Nat.le_add_right _ _),
          Nat.add_sub_cancel_left]
        exact Nat.mul_div_cancel k (by decide)
      rw [FrameTableReturns.physic_free_of_page null number] at kernel
      have released := client_free_block sound.blocks (mem_held_page page)
        (by rw [← index]; exact safe empties)
      refine ⟨pages.erase k, wired, ?_, ⟨chains, place', ?_⟩, large⟩
      · rw [← kernel, heldBlocks, largeSame, direct]
        apply client_perm released
        have injective : Function.Injective fun k : Nat => ((k, 0) : Block) :=
          fun _ _ same => congrArg Prod.fst same
        have mapped : (pages.erase k).map (fun k => ((k, 0) : Block)) =
            (pages.map fun k => (k, 0)).erase (k, 0) := List.map_erase injective pages
        obtain ⟨-, -, -, -, directPage, largePage⟩ := held_disjoint sound
        have notDirect : (k, 0) ∉ memory.direct := fun listed =>
          directPage _ listed k page rfl
        have notLarge : (k, 0) ∉ memory.large.map (blockOf base) := by
          intro listed
          obtain ⟨region, member, same⟩ := List.mem_map.mp listed
          exact largePage region member k page same
        rw [mapped]
        unfold heldBlocks
        rw [List.erase_append_right _ notDirect, List.erase_append_right _ notLarge]
      · rw [← kernel, slicesSame]
        exact after
  · have kernel := Option.some.inj call
    rw [givenBack, if_neg (show ¬EmptiesPage memory.kernel.heap _ from empties)] at after
    refine ⟨pages, wired, ?_, ⟨chains, place', ?_⟩, large⟩
    · rw [← kernel, heldBlocks, largeSame, direct]
      exact sound.blocks
    · rw [← kernel, slicesSame]
      exact after

end Releases

/-! ## The buddy system's own calls -/

section Frames

variable {op : FrameOp} {client : Client}

/-- Blocks that a call does not name stand by. -/
theorem client_step_more {mem : NormalMem} {direct : List Block} (others : List Block)
    (call : clientStep ⟨mem, direct⟩ op = some client) :
    clientStep ⟨mem, direct ++ others⟩ op = some ⟨client.mem, client.blocks ++ others⟩ := by
  cases op with
  | frameAlloc count =>
      simp only [clientStep] at call ⊢
      split_ifs at call ⊢
      obtain ⟨answer, asked, same⟩ := Option.map_eq_some_iff.mp call
      rw [asked, ← same, Option.map_some, List.append_assoc]
  | physicAlloc byteSize =>
      simp only [clientStep] at call ⊢
      split_ifs at call ⊢
      obtain ⟨answer, asked, same⟩ := Option.map_eq_some_iff.mp call
      rw [asked, ← same, Option.map_some, List.append_assoc]
  | frameFree block =>
      simp only [clientStep] at call ⊢
      split_ifs at call with listed
      rw [if_pos (List.mem_append_left _ listed), List.erase_append_left _ listed,
        ← Option.some.inj call]
  | physicFree block =>
      simp only [clientStep] at call ⊢
      split_ifs at call with listed
      rw [if_pos (List.mem_append_left _ listed), List.erase_append_left _ listed,
        ← Option.some.inj call]

theorem zone_keeps_read (zone : NormalMem) (index : Nat) : ZoneKeeps zone (zone.read index) :=
  ⟨rfl, frames_number_read zone index, fun k => congrArg PageFrame.physicAddr (page_read zone index k)⟩

theorem client_step_keeps {before : Client} (call : clientStep before op = some client) :
    ZoneKeeps before.mem client.mem := by
  cases op with
  | frameAlloc count =>
      simp only [clientStep] at call
      split_ifs at call
      obtain ⟨answer, asked, same⟩ := Option.map_eq_some_iff.mp call
      rw [← same]
      exact frame_alloc_keeps asked
  | physicAlloc byteSize =>
      simp only [clientStep] at call
      split_ifs at call
      obtain ⟨answer, asked, same⟩ := Option.map_eq_some_iff.mp call
      obtain ⟨⟨block, zone⟩, found, rest⟩ := Option.bind_eq_some_iff.mp asked
      rw [← same]
      cases block with
      | none =>
          rw [← Option.some.inj rest]
          exact frame_alloc_keeps found
      | some index =>
          rw [← Option.some.inj rest]
          exact (frame_alloc_keeps found).trans (zone_keeps_read zone index)
  | frameFree block =>
      simp only [clientStep] at call
      split_ifs at call
      rw [← Option.some.inj call]
      exact (zone_keeps_read before.mem block.1).trans (free_block_keeps _ _)
  | physicFree block =>
      simp only [clientStep] at call
      split_ifs at call
      rw [← Option.some.inj call]
      exact physic_free_keeps _ _

theorem frames_sound (bound : framesNumber ≤ 2 ^ 20)
    (sound : MemorySound base framesNumber pages memory)
    (repaired : LinksRepaired memory.zoneClient op)
    (call : clientStep memory.zoneClient op = some client) :
    MemorySound base framesNumber pages
      { memory with kernel := { memory.kernel with zone := client.mem }, direct := client.blocks } := by
  have wider := client_step_more (memory.large.map (blockOf base) ++ pages.map fun k => (k, 0)) call
  have still : LinksRepaired ⟨memory.kernel.zone, heldBlocks base pages memory⟩ op := by
    cases op <;> exact repaired
  exact ⟨sound.wired.step (client_step_keeps call) (keeps_refl _),
    client_step_sound bound _ op _ sound.blocks still wider, sound.heap, sound.large⟩

end Frames

/-! ## Writes -/

section Writes

variable {address : Nat} (value : Nat)

/-- A write outside the pages of the slice heap reaches no header. -/
theorem write_elsewhere {chains : Nat → List Nat} {place : Nat → Nat → SliceHeapModel.ListName}
    {heap : Heap} {live : List (Nat × Nat)}
    (sound : HeapSound False framesNumber chains place heap live)
    (outside : ∀ k ∈ heap.framesInUse, ¬InPage heap.base k address) :
    HeapSound False framesNumber chains place (heap.storeByte address value) live := by
  refine ⟨sound.pool, sound.physical, sound.chain, sound.home, sound.size, sound.threads,
    sound.bare, ?_, sound.listed, sound.nodup⟩
  intro level m i kept inside notFree
  rcases sound.held level m i kept inside notFree with ⟨k, held, apart⟩
  refine ⟨k, ⟨held.inside, held.inUse, held.target, held.owner, ?_⟩, apart⟩
  apply held.page.congr
  intro linked slice sliceInside
  change store heap.memory address value (headerAt heap.base level k slice) = _
  rw [store, if_neg]
  intro same
  apply outside k held.inUse
  rw [← same]
  exact header_mem_page heap.base k linked sliceInside

/-- What is inside a block of another kind is in no page of the slice heap. -/
theorem block_off_pages (sound : MemorySound base framesNumber pages memory) {block : Block}
    (held : block ∈ heldBlocks base pages memory) (different : ∀ k ∈ pages, block ≠ (k, 0))
    {region : Nat × Nat} (inBlock : InBlock base block region) (low : region.1 ≤ address)
    (high : address < region.1 + region.2) : ∀ k ∈ pages, ¬InPage base k address := by
  intro k page here
  have apart := blocks_apart sound held (mem_held_page page) (different k page)
  obtain ⟨start, finish⟩ := inBlock
  obtain ⟨lower, upper⟩ := here
  have after := page_at_add base k 1
  rw [Nat.mul_one] at after
  rw [pow_zero] at apart
  dsimp only at apart
  rcases apart with below | above
  · have ordered := @page_at_mono base _ _ below
    omega
  · have ordered := @page_at_mono base _ _ above
    omega

theorem write_sound (sound : MemorySound base framesNumber pages memory)
    (permits : Permits memory (.write address value)) :
    MemorySound base framesNumber pages
      { memory with
        kernel := { memory.kernel with heap := memory.kernel.heap.storeByte address value } } := by
  obtain ⟨region, member, low, high⟩ := permits
  obtain ⟨-, -, -, -, directPage, largePage⟩ := held_disjoint sound
  refine ⟨sound.wired.step (zone_keeps_refl _) (keeps_of_same rfl rfl rfl), sound.blocks, ?_,
    sound.large⟩
  obtain ⟨chains, place, heap⟩ := sound.heap
  have own : (withFrames memory.kernel.heap pages).base = base := sound.wired.heapBase
  have elsewhere : (∀ k ∈ pages, ¬InPage base k address) → ∃ chains place,
      HeapSound False framesNumber chains place
        (withFrames (memory.kernel.heap.storeByte address value) pages) memory.slices := by
    intro outside
    refine ⟨chains, place, write_elsewhere value heap ?_⟩
    rw [own]
    exact outside
  rcases List.mem_append.mp member with live | direct
  · by_cases kind : isLarge region = true
    · have large : region ∈ memory.large := List.mem_filter.mpr ⟨live, kind⟩
      exact elsewhere (block_off_pages sound (mem_held_large large) (largePage region large)
        (large_in_block sound large) low high)
    · have slice : region ∈ memory.slices := List.mem_filter.mpr ⟨live, by simp [kind]⟩
      exact ⟨chains, place, SliceHeapRuns.write_sound heap value slice low high⟩
  · obtain ⟨block, listed, rfl⟩ := List.mem_map.mp direct
    rw [sound.wired.zoneBase] at low high
    exact elsewhere (block_off_pages sound (mem_held_direct listed) (directPage block listed)
      (direct_in_block base block) low high)

end Writes

/-! ## One step -/

theorem memory_step_sound {op : MemoryOp} (sound : MemorySound base framesNumber pages memory)
    (permits : Permits memory op) (call : memoryStep memory op = some next) :
    ∃ pages', MemorySound base framesNumber pages' next := by
  have bound : framesNumber ≤ 2 ^ 20 := by
    have mapped := (memory_pool sound).mapped
    unfold wordSize pageSize at mapped
    omega
  cases op with
  | kmalloc byteSize =>
      obtain ⟨result, served, same⟩ := Option.map_eq_some_iff.mp call
      subst same
      by_cases most : byteSize ≤ maxAlloc
      · by_cases small : byteSize ≤ 2048
        · obtain ⟨nonzero, pages', after⟩ := slice_request_sound sound small permits served
          rw [if_neg nonzero]
          exact ⟨pages', after⟩
        · obtain ⟨nonzero, after⟩ :=
            large_request_sound sound (Nat.lt_of_not_le small) most permits served
          rw [if_neg nonzero]
          exact ⟨pages, after⟩
      · rw [kmallocOn, if_pos (Nat.lt_of_not_le most)] at served
        rw [← Option.some.inj served]
        exact ⟨pages, sound⟩
  | kfree address =>
      obtain ⟨kernel, freed, same⟩ := Option.map_eq_some_iff.mp call
      subst same
      exact free_sound sound permits freed rfl rfl
  | frames op =>
      obtain ⟨client, answered, same⟩ := Option.map_eq_some_iff.mp call
      subst same
      exact ⟨pages, frames_sound bound sound permits answered⟩
  | write address value =>
      rw [← Option.some.inj call]
      exact ⟨pages, write_sound value sound permits⟩

end ChaoOS.MemoryRuns
