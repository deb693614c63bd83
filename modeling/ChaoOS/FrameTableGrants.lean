import ChaoOS.BlockPacking
import ChaoOS.FrameTableFree
import ChaoOS.FrameTableInit

/-!
# What an allocation does, from chains alone

An allocation follows forward links only. The condition here therefore says
nothing of back links, of entries that start no block or of gaps between the
blocks: each list is a chain of aligned free heads of its level, and the blocks
on the lists and the allocated ones are packed into the pool. `Granted` lists
every change a successful call makes; the contract is read off it.
-/

namespace ChaoOS.FrameTableGrants

open ChaoOS.IndexList ChaoOS.DyadicTiling ChaoOS.BuddyLayout ChaoOS.BlockPacking
open ChaoOS.FrameTableModel ChaoOS.FrameTableBlocks ChaoOS.FrameTableAlloc
open ChaoOS.FrameTableFree ChaoOS.FrameTableInit

set_option autoImplicit false

/-! ## The level search -/

def ListEmpty (mem : NormalMem) (level : Nat) : Prop := mem.freeLists level = mem.framesNumber

/-- `current` is the lowest level from `level` on whose list is not empty. -/
structure Lowest (mem : NormalMem) (level current : Nat) : Prop where
  ordered : level ≤ current
  bound : current < buddyMaxLevel
  passed : ∀ height, level ≤ height → height < current → ListEmpty mem height
  found : ¬ListEmpty mem current

/-- Every list a request for `level` may be served from is empty. -/
def Exhausted (mem : NormalMem) (level : Nat) : Prop :=
  ∀ height, level ≤ height → height < buddyMaxLevel → ListEmpty mem height

section Search

variable {mem : NormalMem} {level current : Nat}

theorem search_cases (mem : NormalMem) (level : Nat) :
    (Exhausted mem level ∧ buddyMaxLevel ≤ availableLevel mem buddyMaxLevel level) ∨
      Lowest mem level (availableLevel mem buddyMaxLevel level) := by
  obtain ⟨low, skipped, stopped⟩ := available_level_spec mem buddyMaxLevel level (by omega)
  by_cases below : availableLevel mem buddyMaxLevel level < buddyMaxLevel
  · exact Or.inr ⟨low, below, skipped, stopped below⟩
  · have above := Nat.le_of_not_lt below
    refine Or.inl ⟨?_, above⟩
    intro height least most
    exact skipped height least (Nat.lt_of_lt_of_le most above)

theorem Lowest.not_exhausted (lowest : Lowest mem level current) : ¬Exhausted mem level :=
  fun exhausted => lowest.found (exhausted current lowest.ordered lowest.bound)

/-- Two levels that are both lowest are one. -/
theorem Lowest.unique (lowest : Lowest mem level current) {other : Nat}
    (lowest' : Lowest mem level other) : current = other := by
  rcases Nat.lt_trichotomy current other with less | equal | more
  · exact absurd (lowest'.passed current lowest.ordered less) lowest.found
  · exact equal
  · exact absurd (lowest.passed other lowest'.ordered more) lowest'.found

theorem get_block_exhausted (exhausted : Exhausted mem level) :
    buddySystemGetFramePageBlock level mem = (none, mem) := by
  rcases search_cases mem level with ⟨-, above⟩ | lowest
  · rw [buddySystemGetFramePageBlock]
    exact if_pos above
  · exact absurd exhausted lowest.not_exhausted

end Search

/-! ## The split loop -/

/-- What the split loop leaves behind: every sibling is the only block of its
list, and its back link is the one it had. -/
structure SplitOff (mem mem' : NormalMem) (held level current : Nat) : Prop where
  number : mem'.framesNumber = mem.framesNumber
  sibling : ∀ index height, siblings held level current index height →
    mem'.page index = { mem.page index with
      flags := pageFrameBlockHead, level := height, nextFrame := mem.framesNumber }
  other : ∀ index, (∀ height, ¬siblings held level current index height) →
    mem'.page index = mem.page index
  list : ∀ height, level ≤ height → height < current → mem'.freeLists height = held + 2 ^ height
  otherList : ∀ height, ¬(level ≤ height ∧ height < current) →
    mem'.freeLists height = mem.freeLists height

section Split

variable {mem : NormalMem} {held level current : Nat}

theorem push_right_empty (inside : buddy held current < mem.framesNumber)
    (empty : ListEmpty mem current) :
    (pushRight mem held current).framesNumber = mem.framesNumber ∧
      (pushRight mem held current).page (buddy held current) =
        { mem.page (buddy held current) with
          flags := pageFrameBlockHead, level := current, nextFrame := mem.framesNumber } ∧
      (∀ index, index ≠ buddy held current →
        (pushRight mem held current).page index = mem.page index) ∧
      ∀ height, (pushRight mem held current).freeLists height =
        if height = current then buddy held current else mem.freeLists height := by
  rw [buddy] at inside ⊢
  rw [ListEmpty] at empty
  have notEnd := Nat.ne_of_lt inside
  refine ⟨rfl, ?_, ?_, ?_⟩
  · simp [pushRight, inside, empty, notEnd]
  · intro index different
    -- the write to the old first block goes to the end mark, past the table
    have past : ¬(index = mem.framesNumber ∧ index < mem.framesNumber) := by omega
    simp [pushRight, different, empty, past]
  · intro height
    simp [pushRight]

theorem split_block_splits_off (ordered : level ≤ current) (aligned : 2 ^ current ∣ held)
    (inside : held + 2 ^ current ≤ mem.framesNumber)
    (empty : ∀ height, level ≤ height → height < current → ListEmpty mem height) :
    SplitOff mem (splitBlock level held current mem) held level current := by
  induction current generalizing mem with
  | zero =>
      refine ⟨rfl, ?_, fun _ _ => rfl, ?_, fun _ _ => rfl⟩
      · intro index height sibling
        exact absurd sibling.2.1 (Nat.not_lt_zero height)
      · intro height _ below
        exact absurd below (Nat.not_lt_zero height)
  | succ current induction =>
      rw [splitBlock]
      split_ifs with above
      · have upper := buddy_of_parent_aligned aligned
        have power : 2 ^ (current + 1) = 2 ^ current + 2 ^ current := Nat.two_pow_succ current
        have positive : 0 < 2 ^ current := Nat.two_pow_pos current
        have upperInside : buddy held current < mem.framesNumber := by omega
        obtain ⟨number, own, others, lists⟩ :=
          push_right_empty upperInside (empty current (by omega) (by omega))
        rw [upper] at own others lists
        have rest : SplitOff (pushRight mem held current)
            (splitBlock level held current (pushRight mem held current)) held level current :=
          induction (by omega) ((pow_dvd_pow 2 (Nat.le_succ current)).trans aligned) (by omega) (by
            intro height low high
            rw [ListEmpty, lists, if_neg (Nat.ne_of_lt high), number]
            exact empty height low (by omega))
        constructor
        · exact rest.number.trans number
        · intro index height sibling
          obtain ⟨low, high, start⟩ := sibling
          by_cases top : height = current
          · subst top
            rw [rest.other index, start, own]
            intro depth deeper
            have same := sibling_start_injective (start.symm.trans deeper.2.2)
            exact Nat.ne_of_lt deeper.2.1 same.symm
          · have below : height < current := by omega
            rw [rest.sibling index height ⟨low, below, start⟩, number, others]
            intro equal
            exact top (sibling_start_injective (start.symm.trans equal))
        · intro index outside
          rw [rest.other index, others]
          · intro equal
            exact outside current ⟨by omega, by omega, equal⟩
          · intro height sibling
            exact outside height ⟨sibling.1, Nat.lt_succ_of_lt sibling.2.1, sibling.2.2⟩
        · intro height low high
          by_cases top : height = current
          · subst top
            rw [rest.otherList height (by omega), lists, if_pos rfl]
          · exact rest.list height low (by omega)
        · intro height outside
          rw [rest.otherList height (by omega), lists, if_neg (by omega)]
      · have same : level = current + 1 := by omega
        subst same
        refine ⟨rfl, ?_, fun _ _ => rfl, ?_, fun _ _ => rfl⟩
        · intro index height sibling
          exact absurd sibling.2.1 (Nat.not_lt.mpr sibling.1)
        · intro height low below
          exact absurd below (Nat.not_lt.mpr low)

end Split

/-! ## The whole call -/

/-- Every change a call makes that hands out the block `index` of `level` from
the list of `current`. -/
structure Granted (mem mem' : NormalMem) (level current index : Nat) : Prop where
  number : mem'.framesNumber = mem.framesNumber
  own : mem'.page index = { mem.page index with
    flags := pageFrameAllocated + pageFrameBlockHead, level := level,
    prevFrame := mem.framesNumber, nextFrame := mem.framesNumber }
  sibling : ∀ other height, siblings index level current other height →
    mem'.page other = { mem.page other with
      flags := pageFrameBlockHead, level := height, nextFrame := mem.framesNumber }
  other : ∀ other, other ≠ index → (∀ height, ¬siblings index level current other height) →
    mem'.page other = mem.page other
  source : mem'.freeLists current = nextOf mem index
  list : ∀ height, level ≤ height → height < current → mem'.freeLists height = index + 2 ^ height
  otherList : ∀ height, height ≠ current → ¬(level ≤ height ∧ height < current) →
    mem'.freeLists height = mem.freeLists height

section Call

variable {mem mem' : NormalMem} {level current index : Nat}

theorem claim_block_page {held : Nat} (inside : held < mem.framesNumber) (other : Nat) :
    (claimBlock mem held level).page other =
      if other = held then { mem.page held with
        flags := pageFrameAllocated + pageFrameBlockHead, level := level,
        prevFrame := mem.framesNumber, nextFrame := mem.framesNumber }
      else mem.page other := by
  by_cases here : other = held
  · subst here
    simp [claimBlock, inside]
  · simp [claimBlock, here]

theorem get_block_granted (lowest : Lowest mem level current)
    (aligned : 2 ^ current ∣ mem.freeLists current)
    (inside : mem.freeLists current + 2 ^ current ≤ mem.framesNumber) :
    ∃ mem', buddySystemGetFramePageBlock level mem = (some (mem.freeLists current), mem') ∧
      Granted mem mem' level current (mem.freeLists current) := by
  have positive : 0 < 2 ^ current := Nat.two_pow_pos current
  have search : availableLevel mem buddyMaxLevel level = current := by
    rcases search_cases mem level with ⟨exhausted, -⟩ | lowest'
    · exact absurd exhausted lowest.not_exhausted
    · exact lowest'.unique lowest
  let popped := (mem.read (mem.freeLists current)).setFreeList current
    (nextOf mem (mem.freeLists current))
  have started : SplitOff popped (splitBlock level (mem.freeLists current) current popped)
      (mem.freeLists current) level current := by
    have room : mem.freeLists current + 2 ^ current ≤ popped.framesNumber := inside
    apply split_block_splits_off lowest.ordered aligned room
    intro height low high
    have different : height ≠ current := Nat.ne_of_lt high
    simpa [popped, ListEmpty, different] using lowest.passed height low high
  refine ⟨claimBlock (splitBlock level (mem.freeLists current) current popped)
    (mem.freeLists current) level, ?_, ?_⟩
  · rw [buddySystemGetFramePageBlock]
    simp only [search, if_neg (Nat.not_le.mpr lowest.bound)]
    rfl
  · generalize splitBlock level (mem.freeLists current) current popped = split at started ⊢
    have number : split.framesNumber = mem.framesNumber := started.number
    have heldInside : mem.freeLists current < split.framesNumber := by omega
    have claimed : ∀ other, (claimBlock split (mem.freeLists current) level).page other = _ :=
      claim_block_page heldInside
    have notSibling : ∀ height, ¬siblings (mem.freeLists current) level current
        (mem.freeLists current) height := by
      intro height sibling
      exact sibling_ne_start sibling rfl
    have samePage : ∀ other, popped.page other = mem.page other := fun _ => rfl
    have sameNumber : popped.framesNumber = mem.framesNumber := rfl
    have poppedList : ∀ height, popped.freeLists height =
        if height = current then nextOf mem (mem.freeLists current) else mem.freeLists height :=
      fun _ => rfl
    constructor
    · exact number
    · rw [claimed, if_pos rfl, started.other _ notSibling, samePage, number]
    · intro other height sibling
      rw [claimed, if_neg (sibling_ne_start sibling), started.sibling other height sibling,
        samePage, sameNumber]
    · intro other different outside
      rw [claimed, if_neg different, started.other other outside, samePage]
    · have same := started.otherList current (by omega)
      rw [poppedList, if_pos rfl] at same
      exact same
    · intro height low high
      exact started.list height low high
    · intro height different outside
      have same := started.otherList height outside
      rw [poppedList, if_neg different] at same
      exact same

end Call

/-! ## The blocks on the lists -/

/-- Every list is a chain of forward links that reaches the end mark. Such a
chain visits no frame twice. -/
def Ends (mem : NormalMem) : Prop :=
  ∀ level < buddyMaxLevel, ∃ nodes,
    Follows (nextOf mem) mem.framesNumber (mem.freeLists level) nodes

/-- The chain of the list of `level` visits `index`. -/
def Listed (mem : NormalMem) (index level : Nat) : Prop :=
  level < buddyMaxLevel ∧ ∃ nodes,
    Follows (nextOf mem) mem.framesNumber (mem.freeLists level) nodes ∧ index ∈ nodes

def Allocated (mem : NormalMem) (index level : Nat) : Prop :=
  index < mem.framesNumber ∧
    (mem.page index).flags = pageFrameAllocated + pageFrameBlockHead ∧
    (mem.page index).level = level

def freePages (mem : NormalMem) : Set Nat := pages (Listed mem)

theorem listed_iff {mem : NormalMem} {level : Nat} {nodes : List Nat}
    (bound : level < buddyMaxLevel)
    (follows : Follows (nextOf mem) mem.framesNumber (mem.freeLists level) nodes) (index : Nat) :
    Listed mem index level ↔ index ∈ nodes := by
  constructor
  · rintro ⟨-, others, follows', listed⟩
    rw [follows_unique follows follows']
    exact listed
  · intro listed
    exact ⟨bound, nodes, follows, listed⟩

/-- The chain of `height` after the call, from the chain before it. -/
def nodesAfter (level current index height : Nat) (nodes : List Nat) : List Nat :=
  if height = current then nodes.tail
  else if level ≤ height ∧ height < current then [index + 2 ^ height]
  else nodes

section Chains

variable {mem mem' : NormalMem} {level current index size : Nat} {blocks : Blocks}

/-- A block packed beside the one handed out keeps its entry. -/
theorem Granted.untouched (granted : Granted mem mem' level current index)
    (packing : Packing size blocks) (source : blocks index current) {other height : Nat}
    (listed : blocks other height) (different : other ≠ index) :
    mem'.page other = mem.page other := by
  apply granted.other other different
  intro depth sibling
  have same := packing.start_unique source listed (sibling_mem_span sibling)
  exact different same.1.symm

theorem Lowest.listed (lowest : Lowest mem level current) (ends : Ends mem) :
    Listed mem (mem.freeLists current) current := by
  obtain ⟨nodes, follows⟩ := ends current lowest.bound
  exact ⟨lowest.bound, nodes, follows, follows_head_mem follows lowest.found⟩

/-- The list that serves a request starts with the block it hands out. -/
theorem Lowest.starts (lowest : Lowest mem level current) (head : mem.freeLists current = index)
    {nodes : List Nat}
    (follows : Follows (nextOf mem) mem.framesNumber (mem.freeLists current) nodes) :
    ∃ rest, nodes = index :: rest ∧ index ∉ rest ∧
      Follows (nextOf mem) mem.framesNumber (nextOf mem index) rest := by
  cases nodes with
  | nil => exact absurd follows lowest.found
  | cons first rest =>
      have fresh := (List.nodup_cons.mp (follows_nodup follows)).1
      have start : first = index := follows.1.symm.trans head
      subst start
      exact ⟨rest, rfl, fresh, follows.2.2⟩

theorem Granted.chain (granted : Granted mem mem' level current index)
    (lowest : Lowest mem level current) (head : mem.freeLists current = index)
    (packing : Packing mem.framesNumber (Listed mem)) (source : Listed mem index current)
    {height : Nat} (bound : height < buddyMaxLevel) {nodes : List Nat}
    (follows : Follows (nextOf mem) mem.framesNumber (mem.freeLists height) nodes) :
    Follows (nextOf mem') mem'.framesNumber (mem'.freeLists height)
      (nodesAfter level current index height nodes) := by
  have kept : ∀ item, Listed mem item height → item ≠ index →
      nextOf mem' item = nextOf mem item := by
    intro item listed different
    rw [nextOf, granted.untouched packing source listed different, nextOf]
  rw [granted.number, nodesAfter]
  by_cases here : height = current
  · subst here
    rw [if_pos rfl, granted.source]
    obtain ⟨rest, rfl, fresh, tail⟩ := lowest.starts head follows
    apply follows_congr tail
    intro item later
    apply kept item ((listed_iff bound follows item).mpr (List.mem_cons_of_mem index later))
    intro same
    exact fresh (same ▸ later)
  · rw [if_neg here]
    by_cases between : level ≤ height ∧ height < current
    · have room := packing.inside source
      have half := two_pow_add_le between.2
      have positive : 0 < 2 ^ height := Nat.two_pow_pos height
      have entry := granted.sibling (index + 2 ^ height) height ⟨between.1, between.2, rfl⟩
      rw [if_pos between, granted.list height between.1 between.2]
      refine ⟨rfl, by omega, ?_⟩
      rw [nextOf, entry]
      rfl
    · rw [if_neg between, granted.otherList height here between]
      apply follows_congr follows
      intro item listed
      have member := (listed_iff bound follows item).mpr listed
      apply kept item member
      intro same
      subst same
      exact here (packing.start_unique member source (start_mem_span item height)).2

/-- After the call the block is off its list and its siblings are on theirs. -/
theorem Granted.listed_iff (granted : Granted mem mem' level current index)
    (lowest : Lowest mem level current) (head : mem.freeLists current = index) (ends : Ends mem)
    (packing : Packing mem.framesNumber (Listed mem)) (other height : Nat) :
    Listed mem' other height ↔
      joined (without (Listed mem) index) (siblings index level current) other height := by
  have source : Listed mem index current := head ▸ lowest.listed ends
  by_cases bound : height < buddyMaxLevel
  · obtain ⟨nodes, follows⟩ := ends height bound
    have before := FrameTableGrants.listed_iff bound follows other
    rw [FrameTableGrants.listed_iff bound
      (granted.chain lowest head packing source bound follows) other]
    rw [joined, without, before, siblings, nodesAfter]
    by_cases here : height = current
    · subst here
      rw [if_pos rfl]
      obtain ⟨rest, rfl, fresh, -⟩ := lowest.starts head follows
      rw [List.tail_cons, List.mem_cons]
      constructor
      · intro later
        refine Or.inl ⟨Or.inr later, ?_⟩
        intro same
        rw [← same] at fresh
        exact fresh later
      · rintro (⟨listed, different⟩ | ⟨-, high, -⟩)
        · exact listed.resolve_left different
        · exact absurd high (Nat.lt_irrefl height)
    · rw [if_neg here]
      by_cases between : level ≤ height ∧ height < current
      · have nothing := (follows_nil_iff follows).mpr (lowest.passed height between.1 between.2)
        rw [if_pos between, nothing, List.mem_singleton]
        constructor
        · intro same
          exact Or.inr ⟨between.1, between.2, same⟩
        · rintro (⟨listed, -⟩ | ⟨-, -, same⟩)
          · exact absurd listed List.not_mem_nil
          · exact same
      · rw [if_neg between]
        constructor
        · intro listed
          refine Or.inl ⟨listed, ?_⟩
          intro same
          subst same
          exact here (packing.start_unique (before.mpr listed) source
            (start_mem_span other height)).2
        · rintro (⟨listed, -⟩ | ⟨low, high, -⟩)
          · exact listed
          · exact absurd ⟨low, high⟩ between
  · constructor
    · intro listed
      exact absurd listed.1 bound
    · rintro (⟨listed, -⟩ | ⟨-, high, -⟩)
      · exact absurd listed.1 bound
      · exact absurd (Nat.lt_trans high lowest.bound) bound

theorem Granted.ends (granted : Granted mem mem' level current index)
    (lowest : Lowest mem level current) (head : mem.freeLists current = index) (ends : Ends mem)
    (packing : Packing mem.framesNumber (Listed mem)) : Ends mem' := by
  intro height bound
  obtain ⟨nodes, follows⟩ := ends height bound
  exact ⟨_, granted.chain lowest head packing (head ▸ lowest.listed ends) bound follows⟩

end Chains

/-! ## The condition -/

structure Chained (mem : NormalMem) : Prop where
  ends : Ends mem
  heads : ∀ index level, Listed mem index level → IsFreeBlock mem index level ∧ 2 ^ level ∣ index
  packing : Packing mem.framesNumber (joined (Listed mem) (Allocated mem))

section SoundTables

variable {mem : NormalMem} {free taken : Blocks}

theorem sound_listed_iff (sound : Sound mem free taken) (index level : Nat) :
    Listed mem index level ↔ free index level := by
  constructor
  · rintro ⟨bound, listed⟩
    obtain ⟨nodes, threaded, members⟩ := sound.represents.lists level bound
    rw [← members, ← listed_iff bound threaded.follows]
    exact ⟨bound, listed⟩
  · intro member
    have bound := sound.level_lt (Or.inl member)
    obtain ⟨nodes, threaded, members⟩ := sound.represents.lists level bound
    exact (listed_iff bound threaded.follows index).mpr ((members index).mpr member)

theorem sound_allocated_iff (sound : Sound mem free taken) (index level : Nat) :
    Allocated mem index level ↔ taken index level := by
  rw [sound.represents.takenHead, not_exempt_iff, Allocated]

/-- A table that represents a buddy layout meets the condition of the contract. -/
theorem sound_chained (sound : Sound mem free taken) : Chained mem := by
  have rep := sound.represents
  constructor
  · intro level bound
    obtain ⟨nodes, threaded, -⟩ := rep.lists level bound
    exact ⟨nodes, threaded.follows⟩
  · intro index level listed
    have member := (sound_listed_iff sound index level).mp listed
    obtain ⟨inside, -, flags, same⟩ := (rep.freeHead index level).mp member
    exact ⟨⟨inside, flags, same⟩, sound.layout.tiling.aligned (Or.inl member)⟩
  · apply (packing_of_tiling sound.layout.tiling).mono
    rintro index level (listed | allocated)
    · exact Or.inl ((sound_listed_iff sound index level).mp listed)
    · exact Or.inr ((sound_allocated_iff sound index level).mp allocated)

end SoundTables

/-! ## The contract of an allocation -/

/-- The block `index` of `level` was handed out, and nothing else happened. -/
structure Served (mem mem' : NormalMem) (level index : Nat) : Prop where
  number : mem'.framesNumber = mem.framesNumber
  source : ∃ current, Lowest mem level current ∧ index = mem.freeLists current
  aligned : 2 ^ level ∣ index
  wereFree : span index level ⊆ freePages mem
  shrinks : freePages mem' = freePages mem \ span index level
  allocated : ∀ other height,
    Allocated mem' other height ↔ withBlock (Allocated mem) index level other height
  chained : Chained mem'

section Contract

variable {mem mem' : NormalMem} {level current index : Nat}

theorem Chained.not_allocated (chained : Chained mem) (listed : Listed mem index level)
    (height : Nat) : ¬Allocated mem index height := by
  intro allocated
  have flags := (chained.heads index level listed).1.2.1
  rw [allocated.2.1] at flags
  exact absurd flags (by decide)

theorem Granted.allocated_iff (granted : Granted mem mem' level current index)
    (chained : Chained mem) (source : Listed mem index current) (other height : Nat) :
    Allocated mem' other height ↔ withBlock (Allocated mem) index level other height := by
  rw [withBlock]
  by_cases own : other = index
  · subst own
    have inside := (chained.heads other current source).1.1
    rw [Allocated, granted.own, granted.number]
    constructor
    · intro allocated
      exact Or.inr ⟨rfl, allocated.2.2.symm⟩
    · rintro (allocated | ⟨-, same⟩)
      · exact absurd allocated (chained.not_allocated source height)
      · exact ⟨inside, rfl, same.symm⟩
  · by_cases part : ∃ depth, siblings index level current other depth
    · obtain ⟨depth, sibling⟩ := part
      constructor
      · intro allocated
        have flags := allocated.2.1
        rw [granted.sibling other depth sibling] at flags
        have both : pageFrameBlockHead = pageFrameAllocated + pageFrameBlockHead := flags
        exact absurd both (by decide)
      · rintro (allocated | ⟨same, -⟩)
        · have start := chained.packing.start_unique (Or.inl source) (Or.inr allocated)
            (sibling_mem_span sibling)
          exact absurd start.1.symm own
        · exact absurd same own
    · have entry := granted.other other own (fun depth sibling => part ⟨depth, sibling⟩)
      rw [Allocated, entry, granted.number]
      constructor
      · exact Or.inl
      · rintro (allocated | ⟨same, -⟩)
        · exact allocated
        · exact absurd same own

theorem Granted.head_of_listed (granted : Granted mem mem' level current index)
    (chained : Chained mem) (source : Listed mem index current) {other height : Nat}
    (listed : joined (without (Listed mem) index) (siblings index level current) other height) :
    IsFreeBlock mem' other height ∧ 2 ^ height ∣ other := by
  rcases listed with ⟨before, different⟩ | sibling
  · have known := chained.heads other height before
    have entry := granted.untouched chained.packing (Or.inl source) (Or.inl before) different
    rw [IsFreeBlock, entry, granted.number]
    exact known
  · have inside := chained.packing.inside (Or.inl source)
    have within := Set.mem_Ico.mp (sibling_mem_span sibling)
    have aligned := (chained.heads index current source).2
    refine ⟨⟨?_, ?_, ?_⟩, sibling_aligned aligned sibling⟩
    · rw [granted.number]
      omega
    · rw [granted.sibling other height sibling]
    · rw [granted.sibling other height sibling]

theorem Granted.served (granted : Granted mem mem' level current index)
    (lowest : Lowest mem level current) (head : mem.freeLists current = index)
    (chained : Chained mem) : Served mem mem' level index := by
  have source : Listed mem index current := head ▸ lowest.listed chained.ends
  have lists : Packing mem.framesNumber (Listed mem) := chained.packing.mono fun _ _ => Or.inl
  have listed := granted.listed_iff lowest head chained.ends lists
  have allocated := granted.allocated_iff chained source
  have aligned := (chained.heads index current source).2
  have whole : span index level ⊆ span index current := by
    have grows : 2 ^ level ≤ 2 ^ current := Nat.pow_le_pow_right (by decide) lowest.ordered
    exact Set.Ico_subset_Ico_right (by omega)
  have blockFree : span index current ⊆ freePages mem := fun page covered =>
    ⟨index, current, source, covered⟩
  constructor
  · exact granted.number
  · exact ⟨current, lowest, head.symm⟩
  · exact (pow_dvd_pow 2 lowest.ordered).trans aligned
  · exact whole.trans blockFree
  · calc freePages mem'
        = pages (joined (without (Listed mem) index) (siblings index level current)) :=
          pages_congr listed
      _ = (freePages mem \ span index current) ∪ (span index current \ span index level) := by
          rw [pages_joined, lists.pages_without source, sibling_pages, freePages]
      _ = freePages mem \ span index level := by
          ext page
          constructor
          · rintro (⟨free, outside⟩ | ⟨covered, outside⟩)
            · exact ⟨free, fun own => outside (whole own)⟩
            · exact ⟨blockFree covered, outside⟩
          · rintro ⟨free, outside⟩
            by_cases covered : page ∈ span index current
            · exact Or.inr ⟨covered, outside⟩
            · exact Or.inl ⟨free, covered⟩
  · exact allocated
  · constructor
    · exact granted.ends lowest head chained.ends lists
    · intro other height member
      exact granted.head_of_listed chained source ((listed other height).mp member)
    · rw [granted.number]
      -- the leftmost part and its siblings take the place of the block
      apply (chained.packing.replace (Or.inl source) (descent_packing lowest.ordered) ?_).mono
      · rintro other height (free | taken)
        · rcases (listed other height).mp free with ⟨before, different⟩ | sibling
          · exact Or.inl ⟨Or.inl before, different⟩
          · exact Or.inr (Or.inl sibling)
        · rcases (allocated other height).mp taken with before | own
          · refine Or.inl ⟨Or.inr before, ?_⟩
            intro same
            exact chained.not_allocated source height (same ▸ before)
          · exact Or.inr (Or.inr own)
      · rintro other height (sibling | own)
        · exact (sibling_mem_span sibling).1
        · exact Nat.le_of_eq own.1.symm

/-- A request fails, leaving the zone alone, exactly when no list can serve it;
otherwise it is served from the first block of the lowest list that can. -/
theorem get_block_contract (chained : Chained mem) (level : Nat) :
    (Exhausted mem level ∧ buddySystemGetFramePageBlock level mem = (none, mem)) ∨
      (¬Exhausted mem level ∧ ∃ index mem',
        buddySystemGetFramePageBlock level mem = (some index, mem') ∧
          Served mem mem' level index) := by
  rcases search_cases mem level with ⟨exhausted, -⟩ | lowest
  · exact Or.inl ⟨exhausted, get_block_exhausted exhausted⟩
  · have source := lowest.listed chained.ends
    have known := chained.heads _ _ source
    obtain ⟨mem', call, granted⟩ :=
      get_block_granted lowest known.2 (chained.packing.inside (Or.inl source))
    exact Or.inr ⟨lowest.not_exhausted, _, mem', call, granted.served lowest rfl chained⟩

end Contract

theorem get_block_contract_sample : ∃ index mem',
    buddySystemGetFramePageBlock 3 (initNormalMemZone 0x200000 1024) = (some index, mem') ∧
      Served (initNormalMemZone 0x200000 1024) mem' 3 index := by
  obtain ⟨free, sound, -⟩ := init_zone_sound 0x200000 1024 (by decide) (by decide)
  rcases get_block_contract (sound_chained sound) 3 with ⟨exhausted, -⟩ | ⟨-, served⟩
  · have top := exhausted 10 (by decide) (by decide)
    rw [ListEmpty] at top
    exact absurd top (by decide +kernel)
  · exact served

end ChaoOS.FrameTableGrants
