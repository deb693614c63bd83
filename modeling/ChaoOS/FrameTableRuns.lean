import ChaoOS.GuardedRun
import ChaoOS.FrameTableFree
import ChaoOS.FrameTableInit

/-!
# Runs of the frame allocator

A client asks for frames or bytes and gives back blocks it holds. It knows a
block by the head index and level it was handed. The block list of a client is
what it was given and has not given back, whatever the table says.

An allocation leaves the back link of the new first block of a list stale, and
a later release may trust it. Runs whose releases all meet `SafeToFree` keep
the client's blocks apart; without that condition two live blocks can overlap.
-/

namespace ChaoOS.FrameTableRuns

open ChaoOS.KernelMath ChaoOS.IndexList ChaoOS.DyadicTiling ChaoOS.BuddyLayout
open ChaoOS.GuardedRun ChaoOS.FrameTableModel ChaoOS.FrameTableReach ChaoOS.FrameTableBlocks
open ChaoOS.FrameTableAlloc ChaoOS.FrameTableFree ChaoOS.FrameTableInit

set_option autoImplicit false

abbrev Block := Nat × Nat

structure Client where
  mem : NormalMem
  blocks : List Block

inductive FrameOp where
  | frameAlloc (framePageNumber : Nat)
  | physicAlloc (byteSize : Nat)
  | frameFree (block : Block)
  | physicFree (block : Block)

/-- The block behind a returned frame pointer. -/
def granted (mem : NormalMem) : Option Nat → List Block
  | none => []
  | some index => [(index, (mem.page index).level)]

/-- The frame behind a returned physical address. -/
def frameAtAddress (mem : NormalMem) (physicAddr : Nat) : Option Nat :=
  if physicAddr = 0 then none else some (sub32 physicAddr mem.base / pageFrameSize)

/-- Requests are of at most 1024 pages and only held blocks are given back. -/
def clientStep (client : Client) : FrameOp → Option Client
  | .frameAlloc framePageNumber =>
      if framePageNumber ≤ 1024 then
        (frameAlloc framePageNumber client.mem).map fun answer =>
          ⟨answer.2, granted answer.2 answer.1 ++ client.blocks⟩
      else none
  | .physicAlloc byteSize =>
      if pageCount byteSize ≤ 1024 then
        (physicAlloc byteSize client.mem).map fun answer =>
          ⟨answer.2, granted answer.2 (frameAtAddress answer.2 answer.1) ++ client.blocks⟩
      else none
  | .frameFree block =>
      if block ∈ client.blocks then
        some ⟨(frameFree (some block.1) client.mem).2, client.blocks.erase block⟩
      else none
  | .physicFree block =>
      if block ∈ client.blocks then
        some ⟨(physicFree (client.mem.page block.1).physicAddr client.mem).2,
          client.blocks.erase block⟩
      else none

def freshClient (memBase framesNumber : Nat) : Client := ⟨initNormalMemZone memBase framesNumber, []⟩

/-- The blocks lie inside the pool and no two of them share a page. -/
def BlocksApart (framesNumber : Nat) (blocks : List Block) : Prop :=
  (∀ block ∈ blocks, block.1 + 2 ^ block.2 ≤ framesNumber) ∧
    blocks.Pairwise fun left right =>
      left.1 + 2 ^ left.2 ≤ right.1 ∨ right.1 + 2 ^ right.2 ≤ left.1

/-- A release meets only first blocks whose back link is the end mark. -/
def LinksRepaired (client : Client) : FrameOp → Prop
  | .frameFree block => SafeToFree client.mem block.1
  | .physicFree block => SafeToFree client.mem block.1
  | _ => True

instance (framesNumber : Nat) (blocks : List Block) : Decidable (BlocksApart framesNumber blocks) := by
  unfold BlocksApart
  infer_instance

instance (client : Client) : (op : FrameOp) → Decidable (LinksRepaired client op)
  | .frameFree _ => inferInstanceAs (Decidable (SafeToFree _ _))
  | .physicFree _ => inferInstanceAs (Decidable (SafeToFree _ _))
  | .frameAlloc _ => inferInstanceAs (Decidable True)
  | .physicAlloc _ => inferInstanceAs (Decidable True)

structure ClientSound (framesNumber : Nat) (client : Client) : Prop where
  number : client.mem.framesNumber = framesNumber
  sound : ∃ free taken, Sound client.mem free taken ∧
    ∀ block ∈ client.blocks, taken block.1 block.2
  nodup : client.blocks.Nodup
  within : WithinTable client.mem

section Steps

variable {framesNumber : Nat} {client : Client}

theorem client_blocks_apart (invariant : ClientSound framesNumber client) :
    BlocksApart framesNumber client.blocks := by
  rcases invariant.sound with ⟨free, taken, sound, held⟩
  have tiling := sound.layout.tiling
  rw [invariant.number] at tiling
  constructor
  · intro block listed
    exact tiling.inside (Or.inr (held block listed))
  · apply List.Pairwise.imp_of_mem _ invariant.nodup
    intro left right leftListed rightListed different
    rcases tiling.apart (Or.inr (held left leftListed)) (Or.inr (held right rightListed))
      with same | apart
    · exact absurd (Prod.ext same.1 same.2) different
    · exact apart

/-- The order in which the client keeps its blocks does not matter. -/
theorem client_perm (invariant : ClientSound framesNumber client) {blocks : List Block}
    (order : blocks.Perm client.blocks) : ClientSound framesNumber ⟨client.mem, blocks⟩ := by
  rcases invariant.sound with ⟨free, taken, sound, held⟩
  refine ⟨invariant.number, ⟨free, taken, sound, ?_⟩, order.symm.nodup invariant.nodup,
    invariant.within⟩
  intro block listed
  exact held block (order.mem_iff.mp listed)

theorem client_accesses (invariant : ClientSound framesNumber client) :
    ∀ index ∈ client.mem.accesses, index ≤ framesNumber :=
  fun index touched => (invariant.within index touched).trans invariant.number.le

theorem client_read {index : Nat} (invariant : ClientSound framesNumber client)
    (inside : index < framesNumber) :
    ClientSound framesNumber ⟨client.mem.read index, client.blocks⟩ := by
  rcases invariant.sound with ⟨free, taken, sound, held⟩
  refine ⟨invariant.number, ⟨free, taken, ⟨sound.represents.read _, sound.layout⟩, held⟩,
    invariant.nodup, ?_⟩
  rw [← invariant.number] at inside
  exact invariant.within.reach rfl ((Reaches.refl _).read inside.le)

theorem client_get_block (invariant : ClientSound framesNumber client) (level : Nat)
    {result : Option Nat} {mem' : NormalMem}
    (call : buddySystemGetFramePageBlock level client.mem = (result, mem')) :
    ClientSound framesNumber ⟨mem', granted mem' result ++ client.blocks⟩ := by
  rcases invariant.sound with ⟨free, taken, sound, held⟩
  rcases get_block_sound sound level call with ⟨nothing, same⟩ | success
  · subst nothing
    subst same
    exact invariant
  · rcases success with ⟨index, free', found, handed⟩
    subst found
    refine ⟨handed.number.trans invariant.number, ⟨free', _, handed.sound, ?_⟩, ?_,
      invariant.within.reach handed.number handed.reach⟩
    · intro block listed
      rw [granted, List.singleton_append, List.mem_cons] at listed
      rcases listed with same | listed
      · rw [same, handed.ownLevel]
        exact Or.inr ⟨rfl, rfl⟩
      · exact Or.inl (held block listed)
    · rw [granted, List.singleton_append, List.nodup_cons]
      refine ⟨?_, invariant.nodup⟩
      intro listed
      exact handed.fresh _ (held _ listed)

/-- Dropping blocks from the client's list never hurts. -/
theorem client_forget (invariant : ClientSound framesNumber client) {blocks : List Block}
    (fewer : blocks.Sublist client.blocks) : ClientSound framesNumber ⟨client.mem, blocks⟩ := by
  rcases invariant.sound with ⟨free, taken, sound, held⟩
  exact ⟨invariant.number, ⟨free, taken, sound, fun block listed => held block (fewer.subset listed)⟩,
    fewer.nodup invariant.nodup, invariant.within⟩

theorem client_free_block (invariant : ClientSound framesNumber client) {block : Block}
    (listed : block ∈ client.blocks) (safe : SafeToFree client.mem block.1) :
    ClientSound framesNumber
      ⟨(buddySystemFreeFramePageBlock block.1 client.mem).2, client.blocks.erase block⟩ := by
  rcases invariant.sound with ⟨free, taken, sound, held⟩
  rcases free_block_sound sound (held block listed) safe with ⟨mem', free', call, back⟩
  rw [call]
  refine ⟨back.number.trans invariant.number, ⟨free', _, back.sound, ?_⟩,
    invariant.nodup.erase block, invariant.within.reach back.number back.reach⟩
  intro other otherListed
  rw [invariant.nodup.mem_erase_iff] at otherListed
  refine ⟨held other otherListed.2, ?_⟩
  intro sameStart
  have sameLevel : other.2 = block.2 := by
    have left := held other otherListed.2
    rw [sameStart] at left
    exact sound.layout.level_unique (Or.inr left) (Or.inr (held block listed))
  exact otherListed.1 (Prod.ext sameStart sameLevel)

theorem frame_at_own_address (bound : framesNumber ≤ 2 ^ 20)
    (invariant : ClientSound framesNumber client) {index : Nat} (inside : index < framesNumber) :
    sub32 (client.mem.page index).physicAddr client.mem.base / pageFrameSize = index := by
  rcases invariant.sound with ⟨free, taken, sound, _⟩
  have known := sound.represents.identity index (by rw [invariant.number]; exact inside)
  have small : index * pageFrameSize < wordSize := by
    rw [pageFrameSize, wordSize]
    omega
  rw [known.2, sub32_add32_cancel small, pageFrameSize, Nat.mul_div_cancel _ (by decide)]

theorem client_frame_alloc (invariant : ClientSound framesNumber client) {pages : Nat}
    {result : Option Nat} {mem' : NormalMem}
    (call : frameAlloc pages client.mem = some (result, mem')) :
    ClientSound framesNumber ⟨mem', granted mem' result ++ client.blocks⟩ := by
  unfold frameAlloc at call
  rcases Option.bind_eq_some_iff.mp call with ⟨level, _, taken⟩
  exact client_get_block invariant level (Option.some.inj taken)

theorem client_physic_alloc (bound : framesNumber ≤ 2 ^ 20)
    (invariant : ClientSound framesNumber client) {bytes address : Nat} {mem' : NormalMem}
    (call : physicAlloc bytes client.mem = some (address, mem')) :
    ClientSound framesNumber
      ⟨mem', granted mem' (frameAtAddress mem' address) ++ client.blocks⟩ := by
  unfold physicAlloc at call
  rcases Option.bind_eq_some_iff.mp call with ⟨⟨result, mem''⟩, frames, rest⟩
  have after := client_frame_alloc invariant frames
  cases result with
  | none =>
      cases rest
      exact after
  | some index =>
      cases rest
      have inside : index < framesNumber := by
        rcases after.sound with ⟨free, taken, sound, held⟩
        have member := held (index, (mem''.page index).level) (by simp [granted])
        have start := sound.layout.tiling.start_lt (Or.inr member)
        rw [after.number] at start
        exact start
      have own := frame_at_own_address bound after inside
      have reading := client_read after inside
      -- a null address hides the block from the client, which then never frees it
      by_cases null : (mem''.page index).physicAddr = 0
      · rw [frameAtAddress, if_pos null]
        exact client_forget reading (List.sublist_append_right _ _)
      · rw [frameAtAddress, if_neg null, base_read, own]
        simpa [granted] using reading

/-- One step of a client keeps the table and the client's blocks in agreement. -/
theorem client_step_sound (bound : framesNumber ≤ 2 ^ 20) (client : Client) (op : FrameOp)
    (next : Client) (invariant : ClientSound framesNumber client)
    (repaired : LinksRepaired client op) (call : clientStep client op = some next) :
    ClientSound framesNumber next := by
  cases op with
  | frameAlloc pages =>
      simp only [clientStep] at call
      split_ifs at call
      rcases Option.map_eq_some_iff.mp call with ⟨⟨result, mem'⟩, frames, same⟩
      subst same
      exact client_frame_alloc invariant frames
  | physicAlloc bytes =>
      simp only [clientStep] at call
      split_ifs at call
      rcases Option.map_eq_some_iff.mp call with ⟨⟨address, mem'⟩, frames, same⟩
      subst same
      exact client_physic_alloc bound invariant frames
  | frameFree block =>
      simp only [clientStep] at call
      split_ifs at call with listed
      cases call
      rcases invariant.sound with ⟨free, taken, sound, held⟩
      have inside : block.1 < client.mem.framesNumber :=
        sound.layout.tiling.start_lt (Or.inr (held block listed))
      rw [frameFree, (sound.represents.identity block.1 inside).1]
      rw [invariant.number] at inside
      exact client_free_block (client_read invariant inside) listed repaired
  | physicFree block =>
      simp only [clientStep] at call
      split_ifs at call with listed
      cases call
      rcases invariant.sound with ⟨free, taken, sound, held⟩
      have inside := sound.layout.tiling.start_lt (Or.inr (held block listed))
      rw [invariant.number] at inside
      unfold physicFree
      split_ifs
      · exact client_forget invariant List.erase_sublist
      · rw [frame_at_own_address bound invariant inside]
        exact client_free_block invariant listed repaired

end Steps

theorem fresh_client_sound (memBase framesNumber : Nat) (room : 1024 ≤ framesNumber)
    (bound : framesNumber ≤ 2 ^ 20) : ClientSound framesNumber (freshClient memBase framesNumber) := by
  rcases init_zone_sound memBase framesNumber room bound with ⟨free, sound, number, _, _⟩
  refine ⟨number, ⟨free, noBlocks, sound, ?_⟩, List.nodup_nil,
    init_zone_within memBase framesNumber room bound⟩
  intro block listed
  exact absurd listed (List.not_mem_nil)

/-- In every run whose releases meet no stale first link, live blocks never overlap. -/
theorem repaired_run_blocks_apart (memBase framesNumber : Nat) (room : 1024 ≤ framesNumber)
    (bound : framesNumber ≤ 2 ^ 20) (ops : List FrameOp) (final : Client)
    (repaired : Permitted clientStep LinksRepaired (freshClient memBase framesNumber) ops)
    (run : runFrom clientStep (freshClient memBase framesNumber) ops = some final) :
    BlocksApart framesNumber final.blocks :=
  client_blocks_apart (run_invariant (client_step_sound bound)
    (fresh_client_sound memBase framesNumber room bound) repaired run)

theorem repaired_run_sample : ∃ final,
    runFrom clientStep (freshClient 0x200000 1024)
      [.frameAlloc 256, .physicAlloc 8192, .frameFree (0, 8), .frameAlloc 1] = some final ∧
    BlocksApart 1024 final.blocks := by
  have returns : (runFrom clientStep (freshClient 0x200000 1024)
      [.frameAlloc 256, .physicAlloc 8192, .frameFree (0, 8), .frameAlloc 1]).isSome := by
    decide +kernel
  rcases Option.isSome_iff_exists.mp returns with ⟨final, run⟩
  refine ⟨final, run, ?_⟩
  apply repaired_run_blocks_apart 0x200000 1024 (by decide) (by decide) _ final _ run
  decide +kernel

/-- Three quarters are handed out and two of them go around once. The block at
512 is then freed with a stale back link to 0, so the block at 768 stays on its
list after the merge and is handed out inside the merged one. -/
theorem stale_link_overlap : ¬∀ memBase framesNumber, 1024 ≤ framesNumber → framesNumber ≤ 2 ^ 20 →
    ∀ ops final, runFrom clientStep (freshClient memBase framesNumber) ops = some final →
      BlocksApart framesNumber final.blocks := by
  intro always
  have reached : (runFrom clientStep (freshClient 0x200000 1024)
      [.frameAlloc 256, .frameAlloc 256, .frameAlloc 256, .frameFree (0, 8), .frameAlloc 256,
        .frameFree (512, 8), .frameAlloc 256, .frameAlloc 512]).map (·.blocks) =
      some [(512, 9), (768, 8), (0, 8), (256, 8)] := by
    decide +kernel
  rcases Option.map_eq_some_iff.mp reached with ⟨final, run, blocks⟩
  have apart := always 0x200000 1024 (by decide) (by decide) _ final run
  rw [blocks] at apart
  exact absurd apart (by decide)

end ChaoOS.FrameTableRuns
