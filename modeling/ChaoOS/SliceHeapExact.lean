import ChaoOS.SliceHeapRuns

/-!
# What the lists, maps and chains say about the live slices

On runs that ask for bitmap slices only, the representation is exact: lists,
counters and maps agree with the live pointers. On linked pages this needs that
`kfree` never returns a slice in front of a chain that is not empty.
-/

namespace ChaoOS.SliceHeapExact

open ChaoOS.KernelMath ChaoOS.IndexList ChaoOS.PageDirectory ChaoOS.SliceHeapModel
open ChaoOS.SliceLists ChaoOS.SlicePages ChaoOS.SliceHeapInvariant ChaoOS.SliceHeapMalloc
open ChaoOS.SliceHeapFree ChaoOS.SliceHeapRuns ChaoOS.GuardedRun

set_option autoImplicit false

/-! ## Bitmap pages -/

/-- The three lists of a manager, and which allocators are on them. -/
structure ListsExact (manager : Manager) (freeList partList fullList : List Nat) : Prop where
  free : Linked manager.nextOf manager.prevOf endFlag manager.free freeList
  pFull : Linked manager.nextOf manager.prevOf endFlag manager.pFull partList
  full : Linked manager.nextOf manager.prevOf endFlag manager.full fullList
  partition : (freeList ++ (partList ++ fullList)).Perm (List.range endFlag)
  onFree : ∀ i, i < endFlag → (i ∈ freeList ↔ (manager.allocs i).targetPage = .null)
  onPFull : ∀ i, i < endFlag → (i ∈ partList ↔ (manager.allocs i).targetPage ≠ .null ∧
    0 < (manager.allocs i).avaiNum ∧ (manager.allocs i).avaiNum < bitmapSlices manager.sliceSize)
  onFull : ∀ i, i < endFlag → (i ∈ fullList ↔ (manager.allocs i).targetPage ≠ .null ∧
    (manager.allocs i).avaiNum = 0)

/-- The counter is the number of clear bits among those of the slices, and the
set bits are those of the live slices. -/
structure MapExact (heap : Heap) (live : List (Nat × Nat)) (m i k : Nat) : Prop where
  count : ((heap.managers m).allocs i).avaiNum =
    ((Finset.range (bitmapSlices (heap.managers m).sliceSize)).filter fun j =>
      ((heap.managers m).allocs i).firstAvai.testBit (7 - j) = false).card
  bits : ∀ j, j < 8 → (((heap.managers m).allocs i).firstAvai.testBit (7 - j) = true ↔
    j < bitmapSlices (heap.managers m).sliceSize ∧
      pageAddressOf heap (.entry k) + j * (heap.managers m).sliceSize ∈ live.map Prod.fst)

/-- All managers of the classes 512, 1024 and 2048 are exact. -/
structure BitmapsExact (client : HeapClient) : Prop where
  lists : ∀ level m, 4 < level → Manages client.heap level m →
    ∃ freeList partList fullList, ListsExact (client.heap.managers m) freeList partList fullList
  maps : ∀ level m i, 4 < level → Manages client.heap level m → i < endFlag →
    ((client.heap.managers m).allocs i).targetPage ≠ .null →
    ∃ k, ((client.heap.managers m).allocs i).targetPage = .entry k ∧
      MapExact client.heap client.live m i k
  distinct : (client.live.map Prod.fst).Nodup

section Bitmaps

variable {tidy : Prop} {framesNumber : Nat} {chains : Nat → List Nat}
  {place : Nat → Nat → ListName} {heap : Heap} {live : List (Nat × Nat)} {level m i : Nat}

theorem bitmap_slices_eq (sound : HeapSound tidy framesNumber chains place heap live)
    (kept : Kept chains level m) (mapped : 4 < level) :
    bitmapSlices (heap.managers m).sliceSize = slicesAt level := by
  rw [sound.size level m kept, slicesAt, if_neg (by omega)]

theorem free_iff_null (sound : HeapSound tidy framesNumber chains place heap live)
    (kept : Kept chains level m) (inside : i < endFlag) :
    place m i = .free ↔ targetOf heap m i = .null := by
  constructor
  · exact sound.bare level m i kept inside
  · intro null
    by_contra notFree
    rcases sound.held level m i kept inside notFree with ⟨k, held, _⟩
    rw [held.target] at null
    exact absurd null (by simp)

/-- The list of an allocator with a page is told by its counter. -/
theorem place_of_count (sound : HeapSound tidy framesNumber chains place heap live)
    (kept : Kept chains level m) (mapped : 4 < level) (inside : i < endFlag)
    (notFree : place m i ≠ .free) :
    ((heap.managers m).allocs i).avaiNum < slicesAt level ∧
      (place m i = .full ↔ ((heap.managers m).allocs i).avaiNum = 0) := by
  rcases sound.held level m i kept inside notFree with ⟨k, held, _⟩
  have counted := held.page.count
  have busy := Finset.card_pos.mpr held.page.busy
  refine ⟨by omega, fun isFull => held.page.full isFull (Or.inr mapped), ?_⟩
  intro none_left
  rcases placed : place m i with _ | _ | _
  · exact absurd placed notFree
  · have page := held.page
    rw [placed] at page
    have available := partial_page_avail page
    omega
  · rfl

theorem manager_lists_exact (sound : HeapSound tidy framesNumber chains place heap live)
    (kept : Kept chains level m) (mapped : 4 < level) :
    ∃ freeList partList fullList, ListsExact (heap.managers m) freeList partList fullList := by
  have threads := sound.threads level m kept
  have slices := bitmap_slices_eq sound kept mapped
  rcases threads.lists .free with ⟨freeList, freeLinked, onFree⟩
  rcases threads.lists .pFull with ⟨partList, partLinked, onPart⟩
  rcases threads.lists .full with ⟨fullList, fullLinked, onFull⟩
  refine ⟨freeList, partList, fullList, freeLinked, partLinked, fullLinked, ?_, ?_, ?_, ?_⟩
  · apply (List.perm_ext_iff_of_nodup _ List.nodup_range).mpr
    · intro i
      rw [List.mem_append, List.mem_append, onFree, onPart, onFull, List.mem_range]
      rcases place m i with _ | _ | _ <;> simp
    · rw [List.nodup_append, List.nodup_append]
      refine ⟨freeLinked.nodup, ⟨partLinked.nodup, fullLinked.nodup, ?_⟩, ?_⟩
      · intro i inPart other inFull same
        have left := ((onPart i).mp inPart).2
        have right := ((onFull other).mp inFull).2
        rw [← same, left] at right
        exact absurd right (by decide)
      · intro i inFree other inRest same
        have left := ((onFree i).mp inFree).2
        rw [same] at left
        rcases List.mem_append.mp inRest with inPart | inFull
        · have right := ((onPart other).mp inPart).2
          rw [left] at right
          exact absurd right (by decide)
        · have right := ((onFull other).mp inFull).2
          rw [left] at right
          exact absurd right (by decide)
  · intro i inside
    rw [onFree, free_iff_null sound kept inside]
    exact and_iff_right inside
  · intro i inside
    have null := free_iff_null sound kept inside
    rw [onPart, ← targetOf, slices]
    constructor
    · intro both
      have notFree : place m i ≠ .free := by
        rw [both.2]
        decide
      have counts := place_of_count sound kept mapped inside notFree
      refine ⟨fun isNull => notFree (null.mpr isNull), ?_, counts.1⟩
      apply Nat.pos_of_ne_zero
      intro none_left
      rw [counts.2.mpr none_left] at both
      exact absurd both.2 (by decide)
    · intro both
      have notFree : place m i ≠ .free := fun isFree => both.1 (null.mp isFree)
      have counts := place_of_count sound kept mapped inside notFree
      refine ⟨inside, ?_⟩
      rcases placed : place m i with _ | _ | _
      · exact absurd placed notFree
      · rfl
      · have none_left := counts.2.mp placed
        omega
  · intro i inside
    have null := free_iff_null sound kept inside
    rw [onFull, ← targetOf]
    constructor
    · intro both
      have notFree : place m i ≠ .free := by
        rw [both.2]
        decide
      have counts := place_of_count sound kept mapped inside notFree
      exact ⟨fun isNull => notFree (null.mpr isNull), counts.2.mp both.2⟩
    · intro both
      have notFree : place m i ≠ .free := fun isFree => both.1 (null.mp isFree)
      exact ⟨inside, (place_of_count sound kept mapped inside notFree).2.mpr both.2⟩

theorem page_map_exact (sound : HeapSound tidy framesNumber chains place heap live)
    (kept : Kept chains level m) (mapped : 4 < level) (inside : i < endFlag)
    (assigned : targetOf heap m i ≠ .null) :
    ∃ k, targetOf heap m i = .entry k ∧ MapExact heap live m i k := by
  have notFree : place m i ≠ .free := fun isFree =>
    assigned ((free_iff_null sound kept inside).mp isFree)
  rcases sound.held level m i kept inside notFree with ⟨k, held, _⟩
  have state := (held.page.bitmap mapped).1
  have few := (slices_bounds kept.1).2.2 mapped
  have slices := bitmap_slices_eq sound kept mapped
  refine ⟨k, held.target, ?_, ?_⟩
  · have idle : (Finset.range (slicesAt level)).filter (fun j =>
        ((heap.managers m).allocs i).firstAvai.testBit (7 - j) = false) =
        Finset.range (slicesAt level) \ liveSlices heap.base level k live := by
      ext j
      rw [Finset.mem_filter, Finset.mem_sdiff, Finset.mem_range]
      constructor
      · intro both
        refine ⟨both.1, ?_⟩
        rw [← state.bits j (by omega), both.2]
        decide
      · intro both
        refine ⟨both.1, ?_⟩
        rw [← state.bits j (by omega)] at both
        exact Bool.eq_false_iff.mpr both.2
    have covered : liveSlices heap.base level k live ⊆ Finset.range (slicesAt level) :=
      Finset.filter_subset _ _
    have total := state.count
    rw [slices, idle, Finset.card_sdiff_of_subset covered, Finset.card_range]
    omega
  · intro j byte
    rw [state.bits j byte, liveSlices, Finset.mem_filter, Finset.mem_range, slices,
      sound.page_address held.inside, sound.size level m kept, sliceAt, if_neg (by omega)]

end Bitmaps

theorem client_bitmaps_exact {tidy : Prop} {framesNumber : Nat} {client : HeapClient}
    (sound : ClientSound tidy framesNumber client) : BitmapsExact client := by
  rcases sound with ⟨chains, place, heapSound⟩
  constructor
  · intro level m mapped managed
    exact manager_lists_exact heapSound ((manages_iff heapSound).mp managed) mapped
  · intro level m i mapped managed inside assigned
    exact page_map_exact heapSound ((manages_iff heapSound).mp managed) mapped inside assigned
  · exact heapSound.nodup

/-- A client that only ever asked for bitmap slices. -/
def LargeClient (framesNumber : Nat) (client : HeapClient) : Prop :=
  ClientSound True framesNumber client ∧ ∀ region ∈ client.live, 257 ≤ region.2

/-- Pointers to more than 256 bytes are slices of bitmap pages, which have no chain. -/
theorem large_pointer_no_chain {tidy : Prop} {framesNumber : Nat} {client : HeapClient} {ptr : Nat}
    (sound : ClientSound tidy framesNumber client) (listed : ptr ∈ client.live.map Prod.fst)
    (large : ∀ region ∈ client.live, 257 ≤ region.2) : ¬DropsChain client.heap ptr := by
  rcases sound with ⟨chains, place, heapSound⟩
  rcases live_pointer heapSound listed with ⟨level, m, i, k, j, pointer⟩
  rcases pointer.fits with ⟨n, member, fits⟩
  have size := large _ member
  intro drops
  rw [DropsChain, owner_of_pointer heapSound pointer, heapSound.size level m pointer.kept,
    linked_mode_iff pointer.kept.1] at drops
  have linked := of_decide_eq_true drops.1
  have small : ∀ index, index ≤ 4 → sliceSizeAt index ≤ 256 := by decide
  have bound := small level linked
  omega

theorem large_regions_step {framesNumber high : Nat} {client next : HeapClient} {op : HeapOp}
    (behaved : WellBehaved framesNumber 257 high client op)
    (large : ∀ region ∈ client.live, 257 ≤ region.2) (step : heapStep client op = some next) :
    ∀ region ∈ next.live, 257 ≤ region.2 := by
  intro region member
  cases op with
  | kmalloc byteSize frames =>
      rcases Option.map_eq_some_iff.mp step with ⟨result, _, same⟩
      rw [← same] at member
      rcases List.mem_cons.mp member with own | old
      · rw [own]
        exact behaved.1
      · exact large region old
  | kfree address =>
      rw [← Option.some.inj step] at member
      exact large region (List.mem_filter.mp member).1
  | write address value =>
      rw [← Option.some.inj step] at member
      exact large region member

/-- In every run of requests for 257 to 2048 bytes the managers of the bitmap
classes agree with the live pointers. -/
theorem bitmap_run_exact {base framesNumber : Nat} (pool : Pool base framesNumber)
    (memory : Nat → Nat) {frames : List Nat} (boot : BootFrames framesNumber frames)
    {ops : List HeapOp} {final : HeapClient}
    (behaved : Permitted heapStep (WellBehaved framesNumber 257 2048)
      (freshClient base memory frames) ops)
    (run : runFrom heapStep (freshClient base memory frames) ops = some final) :
    BitmapsExact final := by
  have initial : LargeClient framesNumber (freshClient base memory frames) :=
    ⟨fresh_client_sound pool memory boot, fun _ member => absurd member List.not_mem_nil⟩
  have reached : LargeClient framesNumber final := by
    apply run_invariant _ initial behaved run
    intro client op next before allowed step
    refine ⟨?_, large_regions_step allowed before.2 step⟩
    apply client_step_sound before.1 (Nat.le_refl _) allowed _ _ step
    · intro _
      cases op with
      | kmalloc byteSize answers => trivial
      | kfree address => exact large_pointer_no_chain before.1 allowed before.2
      | write address value => trivial
    · exact fun untidy => absurd trivial untidy
  exact client_bitmaps_exact reached.1

theorem bitmap_run_exact_sample : ∃ final,
    runFrom heapStep (freshClient 0x200000 (fun _ => 0) (List.range 8))
      [.kmalloc 2000 [8], .kmalloc 2048 [], .kmalloc 300 [9], .kfree 0xC0208800, .kmalloc 1025 [],
        .kfree 0xC0209000] = some final ∧ BitmapsExact final := by
  have returns : (runFrom heapStep (freshClient 0x200000 (fun _ => 0) (List.range 8))
      [.kmalloc 2000 [8], .kmalloc 2048 [], .kmalloc 300 [9], .kfree 0xC0208800, .kmalloc 1025 [],
        .kfree 0xC0209000]).isSome := by
    decide +kernel
  rcases Option.isSome_iff_exists.mp returns with ⟨final, run⟩
  refine ⟨final, run, ?_⟩
  apply bitmap_run_exact sample_pool _ sample_boot _ run
  decide +kernel

/-! ## Linked pages -/

/-- The header byte in front of slice `j` of a linked page. -/
def headerAddress (heap : Heap) (m k j : Nat) : Nat :=
  pageAddressOf heap (.entry k) + 4 + j * ((heap.managers m).sliceSize + 1)

/-- The chain from `first_avai` has every slice that is not live, and no other. -/
structure ChainExact (heap : Heap) (live : List (Nat × Nat)) (m i k : Nat) (chain : List Nat) :
    Prop where
  follows : Follows (fun j => heap.memory (headerAddress heap m k j)) sliceEnd
    ((heap.managers m).allocs i).firstAvai chain
  once : chain.Nodup
  idle : ∀ j, j ∈ chain ↔ j < linkedSlices (heap.managers m).sliceSize ∧
    headerAddress heap m k j + 1 ∉ live.map Prod.fst
  count : chain.length = ((heap.managers m).allocs i).avaiNum

/-- No slice of a held page of the classes 16 to 256 is lost. -/
def NoSliceLost (client : HeapClient) : Prop :=
  ∀ level m i k, level ≤ 4 → Manages client.heap level m → i < endFlag →
    ((client.heap.managers m).allocs i).targetPage = .entry k →
    ∃ chain, ChainExact client.heap client.live m i k chain

theorem page_chain_exact {framesNumber : Nat} {chains : Nat → List Nat}
    {place : Nat → Nat → ListName} {heap : Heap} {live : List (Nat × Nat)} {level m i k : Nat}
    (sound : HeapSound True framesNumber chains place heap live) (kept : Kept chains level m)
    (linked : level ≤ 4) (inside : i < endFlag) (target : targetOf heap m i = .entry k) :
    ∃ chain, ChainExact heap live m i k chain := by
  rcases sound.held_at kept inside target with ⟨_, held, _⟩
  rcases held.page.linked linked with ⟨chain, state, _⟩
  have address : ∀ j, headerAddress heap m k j = headerAt heap.base level k j := by
    intro j
    rw [headerAddress, sound.page_address held.inside, sound.size level m kept, headerAt]
  have slices : linkedSlices (heap.managers m).sliceSize = slicesAt level := by
    rw [sound.size level m kept, slicesAt, if_pos linked]
  have members : ∀ j, j ∈ chain ↔ j < slicesAt level ∧ j ∉ liveSlices heap.base level k live := by
    intro j
    exact ⟨state.idle j, fun both => state.whole trivial j both.1 both.2⟩
  refine ⟨chain, ?_, state.nodup, ?_, ?_⟩
  · simp only [address]
    exact state.follows
  · intro j
    rw [members, slices, liveSlices, Finset.mem_filter, Finset.mem_range, address, sliceAt,
      if_pos linked]
    constructor
    · intro both
      exact ⟨both.1, fun listed => both.2 ⟨both.1, listed⟩⟩
    · intro both
      exact ⟨both.1, fun listed => both.2 listed.2⟩
  · have whole : chain.toFinset = Finset.range (slicesAt level) \ liveSlices heap.base level k live := by
      ext j
      rw [List.mem_toFinset, members, Finset.mem_sdiff, Finset.mem_range]
    have covered : liveSlices heap.base level k live ⊆ Finset.range (slicesAt level) :=
      Finset.filter_subset _ _
    have total := state.count
    rw [← List.toFinset_card_of_nodup state.nodup, whole, Finset.card_sdiff_of_subset covered,
      Finset.card_range]
    omega

/-- In every run whose frees of linked slices find an empty chain or release the
page, no slice is lost. -/
theorem exact_chain_run_no_slice_lost {base framesNumber : Nat} (pool : Pool base framesNumber)
    (memory : Nat → Nat) {frames : List Nat} (boot : BootFrames framesNumber frames)
    {ops : List HeapOp} {final : HeapClient}
    (permitted : Permitted heapStep
      (fun client op => WellBehaved framesNumber 0 256 client op ∧ Avoids DropsChain client op)
      (freshClient base memory frames) ops)
    (run : runFrom heapStep (freshClient base memory frames) ops = some final) :
    NoSliceLost final := by
  have sound : ClientSound True framesNumber final := by
    apply run_invariant _ (fresh_client_sound pool memory boot) permitted run
    intro client op next before allowed step
    exact client_step_sound before (by decide) allowed.1 (fun _ => allowed.2)
      (fun untidy => absurd trivial untidy) step
  rcases sound with ⟨chains, place, heapSound⟩
  intro level m i k linked managed inside target
  exact page_chain_exact heapSound ((manages_iff heapSound).mp managed) linked inside target

theorem exact_chain_run_no_slice_lost_sample : ∃ final,
    runFrom heapStep (freshClient 0x200000 (fun _ => 0) (List.range 8))
      [.kmalloc 16 [8], .kmalloc 16 [], .write 0xC0208005 255, .kmalloc 250 [9], .kfree 0xC0209005] =
        some final ∧ NoSliceLost final := by
  have returns : (runFrom heapStep (freshClient 0x200000 (fun _ => 0) (List.range 8))
      [.kmalloc 16 [8], .kmalloc 16 [], .write 0xC0208005 255, .kmalloc 250 [9],
        .kfree 0xC0209005]).isSome := by
    decide +kernel
  rcases Option.isSome_iff_exists.mp returns with ⟨final, run⟩
  refine ⟨final, run, ?_⟩
  apply exact_chain_run_no_slice_lost sample_pool _ sample_boot _ run
  decide +kernel

/-- Two slices of 256 bytes are taken and the first is returned: the chain of the
page has that slice only, and the slices 2 to 14 are lost. -/
theorem returned_slice_drops_chain : ¬∀ base framesNumber memory frames, Pool base framesNumber →
    BootFrames framesNumber frames → ∀ ops final,
      Permitted heapStep (WellBehaved framesNumber 0 256) (freshClient base memory frames) ops →
      runFrom heapStep (freshClient base memory frames) ops = some final → NoSliceLost final := by
  intro always
  have reached : (runFrom heapStep (freshClient 0x200000 (fun _ => 0) (List.range 8))
      [.kmalloc 256 [8], .kmalloc 256 [], .kfree 0xC0208005]).map (fun client =>
        (client.heap.allocMs 4, (client.heap.managers 0xC0204000).next,
          ((client.heap.managers 0xC0204000).allocs 0).targetPage,
          ((client.heap.managers 0xC0204000).allocs 0).firstAvai,
          client.heap.memory (headerAddress client.heap 0xC0204000 8 0),
          decide (2 < linkedSlices (client.heap.managers 0xC0204000).sliceSize ∧
            headerAddress client.heap 0xC0204000 8 2 + 1 ∉ client.live.map Prod.fst))) =
      some (0xC0204000, 0, .entry 8, 0, sliceEnd, true) := by
    decide +kernel
  rcases Option.map_eq_some_iff.mp reached with ⟨final, run, facts⟩
  have exact_chain := always 0x200000 64 (fun _ => 0) (List.range 8) sample_pool sample_boot _ final
    (by decide +kernel) run
  simp only [Prod.mk.injEq, decide_eq_true_eq] at facts
  rcases facts with ⟨manager, last, target, first, header, idle⟩
  have managed : Manages final.heap 4 0xC0204000 := by
    refine ⟨by decide, [0xC0204000], ?_, List.mem_singleton.mpr rfl⟩
    exact ⟨manager, by decide, last⟩
  rcases exact_chain 4 0xC0204000 0 8 (by decide) managed (by decide) target with ⟨chain, whole⟩
  have short : Follows (fun j => final.heap.memory (headerAddress final.heap 0xC0204000 8 j)) sliceEnd
      ((final.heap.managers 0xC0204000).allocs 0).firstAvai [0] := ⟨first, by decide, header⟩
  have listed := (whole.idle 2).mpr idle
  rw [follows_unique whole.follows short] at listed
  exact absurd listed (by decide)

end ChaoOS.SliceHeapExact
