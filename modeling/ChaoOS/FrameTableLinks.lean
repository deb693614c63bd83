import ChaoOS.FrameTableGrants

/-!
# When an allocation keeps the back links

The free lists are doubly linked, but an allocation repairs no back link: it
leaves the new first block of the list it pops pointing at the block that was
handed out, and it pushes each sibling without setting the sibling's own back
link. The lists stay doubly linked exactly when there was nothing to repair.
-/

namespace ChaoOS.FrameTableLinks

open ChaoOS.IndexList ChaoOS.BuddyLayout ChaoOS.BlockPacking
open ChaoOS.FrameTableModel ChaoOS.FrameTableBlocks ChaoOS.FrameTableAlloc
open ChaoOS.FrameTableInit ChaoOS.FrameTableGrants

set_option autoImplicit false

/-- Each list is doubly linked, and the blocks on the lists are aligned and
packed into the pool. -/
structure DoublyLinked (mem : NormalMem) : Prop where
  linked : ∀ level < buddyMaxLevel, ∃ nodes,
    Linked (nextOf mem) (prevOf mem) mem.framesNumber (mem.freeLists level) nodes
  aligned : ∀ index level, Listed mem index level → 2 ^ level ∣ index
  packing : Packing mem.framesNumber (Listed mem)

/-- The block that serves a request is alone on its list, and the frames at
which its siblings start already have the end mark as their back link. -/
def NothingToRepair (mem : NormalMem) (level : Nat) : Prop :=
  ∀ current, Lowest mem level current →
    nextOf mem (mem.freeLists current) = mem.framesNumber ∧
      ∀ height, level ≤ height → height < current →
        prevOf mem (mem.freeLists current + 2 ^ height) = mem.framesNumber

section Request

variable {mem mem' : NormalMem} {level current index : Nat}

theorem DoublyLinked.ends (doubly : DoublyLinked mem) : Ends mem := by
  intro level bound
  obtain ⟨nodes, linked⟩ := doubly.linked level bound
  exact ⟨nodes, linked.follows⟩

theorem DoublyLinked.head_prev (doubly : DoublyLinked mem) (bound : level < buddyMaxLevel)
    (nonempty : ¬ListEmpty mem level) : prevOf mem (mem.freeLists level) = mem.framesNumber := by
  obtain ⟨nodes, linked⟩ := doubly.linked level bound
  exact linked.anchored nonempty

/-- The second block of a list points back at the first. -/
theorem DoublyLinked.second_prev (doubly : DoublyLinked mem) (bound : level < buddyMaxLevel)
    (nonempty : ¬ListEmpty mem level)
    (longer : nextOf mem (mem.freeLists level) ≠ mem.framesNumber) :
    Listed mem (nextOf mem (mem.freeLists level)) level ∧
      prevOf mem (nextOf mem (mem.freeLists level)) = mem.freeLists level := by
  obtain ⟨nodes, linked⟩ := doubly.linked level bound
  have listed := listed_iff bound linked.follows
  cases nodes with
  | nil => exact absurd linked.follows nonempty
  | cons first rest =>
      have start : mem.freeLists level = first := linked.follows.1
      have tail := linked.follows.2.2
      rw [← start] at tail
      cases rest with
      | nil => exact absurd tail longer
      | cons second others =>
          rw [tail.1, listed, start]
          exact ⟨by simp, linked.back.2.1⟩

theorem granted_sibling_prev (granted : Granted mem mem' level current index)
    {other height : Nat} (sibling : siblings index level current other height) :
    prevOf mem' other = prevOf mem other := by
  rw [prevOf, granted.sibling other height sibling, prevOf]

theorem nothing_to_repair_of_linked (granted : Granted mem mem' level current index)
    (lowest : Lowest mem level current) (head : mem.freeLists current = index)
    (doubly : DoublyLinked mem) (after : DoublyLinked mem') : NothingToRepair mem level := by
  have source : Listed mem index current := head ▸ lowest.listed doubly.ends
  have room := doubly.packing.inside source
  have positive : 0 < 2 ^ current := Nat.two_pow_pos current
  intro other lowest'
  have same := lowest.unique lowest'
  subst same
  rw [head]
  constructor
  · by_contra longer
    have second := doubly.second_prev lowest.bound lowest.found (by rw [head]; exact longer)
    rw [head] at second
    have different : nextOf mem index ≠ index := by
      intro same
      have own := doubly.head_prev lowest.bound lowest.found
      rw [head, ← same, second.2] at own
      omega
    have nonempty : ¬ListEmpty mem' current := by
      rw [ListEmpty, granted.source, granted.number]
      exact longer
    have repaired := after.head_prev lowest.bound nonempty
    rw [granted.source, granted.number, prevOf,
      granted.untouched doubly.packing source second.1 different, ← prevOf, second.2] at repaired
    omega
  · intro height low high
    have half := two_pow_add_le high
    have nonempty : ¬ListEmpty mem' height := by
      rw [ListEmpty, granted.list height low high, granted.number]
      have positiveHalf : 0 < 2 ^ height := Nat.two_pow_pos height
      omega
    have repaired := after.head_prev (Nat.lt_trans high lowest.bound) nonempty
    rw [granted.list height low high, granted.number, granted_sibling_prev granted ⟨low, high, rfl⟩]
      at repaired
    exact repaired

theorem linked_of_nothing_to_repair (granted : Granted mem mem' level current index)
    (lowest : Lowest mem level current) (head : mem.freeLists current = index)
    (doubly : DoublyLinked mem) (nothing : NothingToRepair mem level) : DoublyLinked mem' := by
  have source : Listed mem index current := head ▸ lowest.listed doubly.ends
  have room := doubly.packing.inside source
  have listed := granted.listed_iff lowest head doubly.ends doubly.packing
  obtain ⟨alone, anchored⟩ := nothing current lowest
  rw [head] at alone anchored
  constructor
  · intro height bound
    rw [granted.number]
    by_cases here : height = current
    · refine ⟨[], ?_, List.nodup_nil, trivial⟩
      rw [here, granted.source]
      exact alone
    · by_cases between : level ≤ height ∧ height < current
      · have sibling : siblings index level current (index + 2 ^ height) height :=
          ⟨between.1, between.2, rfl⟩
        have half := two_pow_add_le between.2
        have positive : 0 < 2 ^ height := Nat.two_pow_pos height
        refine ⟨[index + 2 ^ height], ⟨granted.list height between.1 between.2, by omega, ?_⟩,
          List.nodup_singleton _, ?_, trivial⟩
        · rw [nextOf, granted.sibling _ height sibling]
          rfl
        · rw [granted_sibling_prev granted sibling]
          exact anchored height between.1 between.2
      · obtain ⟨nodes, linked⟩ := doubly.linked height bound
        refine ⟨nodes, ?_⟩
        have kept : ∀ item ∈ nodes, mem'.page item = mem.page item := by
          intro item member
          have member' := (listed_iff bound linked.follows item).mpr member
          apply granted.untouched doubly.packing source member'
          intro same
          subst same
          exact here (doubly.packing.start_unique member' source (start_mem_span item height)).2
        rw [granted.otherList height here between]
        apply linked.congr
        · intro item member
          rw [nextOf, kept item member, nextOf]
        · intro item member
          rw [prevOf, kept item member, prevOf]
  · intro other height member
    rcases (listed other height).mp member with ⟨before, -⟩ | sibling
    · exact doubly.aligned other height before
    · exact sibling_aligned (doubly.aligned index current source) sibling
  · rw [granted.number]
    apply (doubly.packing.replace source (descent_packing lowest.ordered) ?_).mono
    · intro other height member
      rcases (listed other height).mp member with before | sibling
      · exact Or.inl before
      · exact Or.inr (Or.inl sibling)
    · rintro other height (sibling | own)
      · exact (sibling_mem_span sibling).1
      · exact Nat.le_of_eq own.1.symm

end Request

/-- A sound table is doubly linked once every first block's back link is the end
mark. -/
theorem sound_doubly_linked {mem : NormalMem} {free taken : Blocks} (sound : Sound mem free taken)
    (heads : ∀ level < buddyMaxLevel, mem.freeLists level ≠ mem.framesNumber →
      prevOf mem (mem.freeLists level) = mem.framesNumber) : DoublyLinked mem := by
  have chained := sound_chained sound
  constructor
  · intro level bound
    obtain ⟨nodes, threaded, -⟩ := sound.represents.lists level bound
    exact ⟨nodes, threaded.linked (heads level bound)⟩
  · intro index level listed
    exact (chained.heads index level listed).2
  · exact chained.packing.mono fun _ _ => Or.inl

/-- An allocation keeps the lists doubly linked exactly when it finds nothing
to repair. -/
theorem get_block_keeps_links_iff {mem : NormalMem} (doubly : DoublyLinked mem) (level : Nat) :
    DoublyLinked (buddySystemGetFramePageBlock level mem).2 ↔ NothingToRepair mem level := by
  rcases search_cases mem level with ⟨exhausted, -⟩ | lowest
  · rw [get_block_exhausted exhausted]
    constructor
    · intro _ current lowest
      exact absurd exhausted lowest.not_exhausted
    · intro _
      exact doubly
  · have source := lowest.listed doubly.ends
    obtain ⟨mem', call, granted⟩ := get_block_granted lowest (doubly.aligned _ _ source)
      (doubly.packing.inside source)
    rw [call]
    exact ⟨nothing_to_repair_of_linked granted lowest rfl doubly,
      linked_of_nothing_to_repair granted lowest rfl doubly⟩

theorem get_block_keeps_links_sample :
    DoublyLinked (buddySystemGetFramePageBlock 3 (initNormalMemZone 0x200000 1024)).2 := by
  obtain ⟨free, sound, -⟩ := init_zone_sound 0x200000 1024 (by decide) (by decide)
  have doubly := sound_doubly_linked sound (by decide +kernel)
  have lists : ∀ height < buddyMaxLevel, (initNormalMemZone 0x200000 1024).freeLists height =
      if height = 10 then 0 else (initNormalMemZone 0x200000 1024).framesNumber := by
    decide +kernel
  have lowest : Lowest (initNormalMemZone 0x200000 1024) 3 10 := by
    refine ⟨by decide, by decide, ?_, ?_⟩
    · intro height _ high
      rw [ListEmpty, lists height (Nat.lt_succ_of_lt high), if_neg (Nat.ne_of_lt high)]
    · rw [ListEmpty]
      decide +kernel
  apply (get_block_keeps_links_iff doubly 3).mpr
  intro current lowest'
  have same := lowest.unique lowest'
  subst same
  rw [lists 10 (by decide), if_pos rfl]
  refine ⟨by decide +kernel, ?_⟩
  have unlinked : ∀ height < 10, prevOf (initNormalMemZone 0x200000 1024) (0 + 2 ^ height) =
      (initNormalMemZone 0x200000 1024).framesNumber := by
    decide +kernel
  intro height _ high
  exact unlinked height high

/-- Two blocks of the top level make one list. When the first is handed out the
second still points back at it. -/
theorem pop_leaves_back_link : ¬∀ mem, DoublyLinked mem → ∀ level,
    DoublyLinked (buddySystemGetFramePageBlock level mem).2 := by
  intro always
  obtain ⟨free, sound, -⟩ := init_zone_sound 0x200000 2048 (by decide) (by decide)
  have doubly := sound_doubly_linked sound (by decide +kernel)
  have after := always (initNormalMemZone 0x200000 2048) doubly 10
  have nonempty : ¬ListEmpty
      (buddySystemGetFramePageBlock 10 (initNormalMemZone 0x200000 2048)).2 10 := by
    rw [ListEmpty]
    decide +kernel
  have repaired := after.head_prev (by decide) nonempty
  revert repaired
  decide +kernel

end ChaoOS.FrameTableLinks
