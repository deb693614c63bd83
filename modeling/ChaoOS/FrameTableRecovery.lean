import ChaoOS.FrameTableFree
import ChaoOS.FrameTableInit

/-!
# Giving everything back restores the initial free lists

As long as blocks are only handed out, a stale back link can only be found on a
block of the top level: the lists below it grow by splits, and a split pushes
on lists that were empty. Releases keep the first back links in order and the
coalescing loop never merges at the top level, so the releases all succeed.
What is free at the end is then the one layout that has nothing allocated.
-/

namespace ChaoOS.FrameTableRecovery

open ChaoOS.IndexList ChaoOS.BuddyLayout ChaoOS.FrameTableModel ChaoOS.FrameTableBlocks
open ChaoOS.FrameTableAlloc ChaoOS.FrameTableFree ChaoOS.FrameTableInit

set_option autoImplicit false

/-- Allocations of the given levels, all successful, with the heads returned. -/
def allocAll : List Nat → NormalMem → Option (List Nat × NormalMem)
  | [], mem => some ([], mem)
  | level :: levels, mem =>
      match buddySystemGetFramePageBlock level mem with
      | (none, _) => none
      | (some head, mem) => (allocAll levels mem).map fun rest => (head :: rest.1, rest.2)

/-- Releases of the given heads, all of which answer 1. -/
def freeAll : List Nat → NormalMem → Option NormalMem
  | [], mem => some mem
  | head :: heads, mem =>
      match buddySystemFreeFramePageBlock head mem with
      | (answer, mem) => if answer = 1 then freeAll heads mem else none

/-- The free list of `level` runs through `heads` and then ends. -/
def OnFreeList (mem : NormalMem) (level : Nat) (heads : List Nat) : Prop :=
  Follows (nextOf mem) mem.framesNumber (mem.freeLists level) heads

/-! ## Handing out -/

/-- Only free blocks of the top level have a back link other than the end mark. -/
def TopLinksOnly (mem : NormalMem) (free : Blocks) : Prop :=
  ∀ index, index < mem.framesNumber → prevOf mem index ≠ mem.framesNumber →
    free index (buddyMaxLevel - 1)

section HandingOut

variable {mem mem' : NormalMem} {free taken free' : Blocks}

theorem handed_out_top_links {index level : Nat}
    (handed : HandedOut mem mem' free taken free' index level) (links : TopLinksOnly mem free) :
    TopLinksOnly mem' free' := by
  intro other inside stale
  rw [handed.number] at inside stale
  rw [handed.prev] at stale
  split_ifs at stale with here
  · exact absurd rfl stale
  · exact handed.keeps other _ (links other inside stale) here

theorem TopLinksOnly.anchored (links : TopLinksOnly mem free)
    (rep : Represents mem mem.framesNumber free taken) : Anchored mem := by
  intro level below nonempty
  by_contra stale
  have listed := rep.head_free (by omega) nonempty
  have top := links _ (rep.free_lt listed) stale
  have same := rep.free_level listed top
  omega

theorem alloc_all_sound (levels : List Nat) {heads : List Nat} {mem mem' : NormalMem}
    {free taken : Blocks} (sound : Sound mem free taken) (links : TopLinksOnly mem free)
    (call : allocAll levels mem = some (heads, mem')) :
    ∃ free' taken', Sound mem' free' taken' ∧ TopLinksOnly mem' free' ∧
      mem'.framesNumber = mem.framesNumber ∧ heads.Nodup ∧
      (∀ index ∈ heads, ∀ level, ¬taken index level) ∧
      ∀ index, (∃ level, taken' index level) ↔ (∃ level, taken index level) ∨ index ∈ heads := by
  induction levels generalizing mem heads free taken with
  | nil =>
      cases call
      refine ⟨free, taken, sound, links, rfl, List.nodup_nil, ?_, ?_⟩
      · intro index listed
        exact absurd listed List.not_mem_nil
      · intro index
        simp
  | cons level levels induction =>
      rw [allocAll] at call
      split at call
      · exact absurd call (by simp)
      · rename_i head middle first
        rcases Option.map_eq_some_iff.mp call with ⟨⟨others, last⟩, rest, same⟩
        cases same
        rcases get_block_sound sound level first with nothing | ⟨index, free₁, found, handed⟩
        · exact absurd nothing.1 (by simp)
        · cases found
          rcases induction handed.sound (handed_out_top_links handed links) rest
            with ⟨free', taken', sound', links', number, nodup, fresh, members⟩
          refine ⟨free', taken', sound', links', number.trans handed.number, ?_, ?_, ?_⟩
          · rw [List.nodup_cons]
            refine ⟨?_, nodup⟩
            intro listed
            exact fresh head listed level (Or.inr ⟨rfl, rfl⟩)
          · intro index listed height held
            rcases List.mem_cons.mp listed with same | later
            · rw [same] at held
              exact handed.fresh height held
            · exact fresh index later height (Or.inl held)
          · intro index
            rw [members, List.mem_cons]
            simp only [withBlock]
            constructor
            · intro either
              rcases either with ⟨height, held | here⟩ | later
              · exact Or.inl ⟨height, held⟩
              · exact Or.inr (Or.inl here.1)
              · exact Or.inr (Or.inr later)
            · intro either
              rcases either with ⟨height, held⟩ | same | later
              · exact Or.inl ⟨height, Or.inl held⟩
              · exact Or.inl ⟨level, Or.inr ⟨same, rfl⟩⟩
              · exact Or.inr later

end HandingOut

/-! ## Giving back -/

theorem free_all_sound (order : List Nat) {mem : NormalMem} {free taken : Blocks}
    (sound : Sound mem free taken) (anchored : Anchored mem) (nodup : order.Nodup)
    (members : ∀ index, index ∈ order ↔ ∃ level, taken index level) :
    ∃ final free', freeAll order mem = some final ∧ Sound final free' noBlocks ∧
      final.framesNumber = mem.framesNumber := by
  induction order generalizing mem free taken with
  | nil =>
      have nothing : taken = noBlocks := by
        funext index level
        apply propext
        constructor
        · intro held
          exact absurd ((members index).mpr ⟨level, held⟩) List.not_mem_nil
        · exact False.elim
      rw [nothing] at sound
      exact ⟨mem, free, rfl, sound, rfl⟩
  | cons head rest induction =>
      rcases (members head).mp List.mem_cons_self with ⟨level, held⟩
      rcases free_block_sound sound held (anchored.safe_to_free head)
        with ⟨middle, free₁, call, back⟩
      rcases List.nodup_cons.mp nodup with ⟨fresh, restNodup⟩
      have restMembers : ∀ index, index ∈ rest ↔ ∃ level, without taken head index level := by
        intro index
        constructor
        · intro later
          rcases (members index).mp (List.mem_cons_of_mem head later) with ⟨height, holds⟩
          refine ⟨height, holds, ?_⟩
          intro same
          rw [same] at later
          exact fresh later
        · intro still
          rcases still with ⟨height, holds, different⟩
          rcases List.mem_cons.mp ((members index).mpr ⟨height, holds⟩) with same | later
          · exact absurd same different
          · exact later
      have stillAnchored : Anchored middle := by
        rw [anchored_iff] at anchored ⊢
        exact back.anchored (buddyMaxLevel - 1) (le_refl _) (Nat.sub_le _ _) anchored
      rcases induction back.sound stillAnchored restNodup restMembers
        with ⟨final, free', run, finalSound, finalNumber⟩
      refine ⟨final, free', ?_, finalSound, finalNumber.trans back.number⟩
      rw [freeAll, call]
      exact run

/-- Two sound tables of one size with nothing allocated have the same lists, up
to the order in which a list runs through its blocks. -/
theorem same_free_lists {mem mem' : NormalMem} {free free' : Blocks}
    (sound : Sound mem free noBlocks) (sound' : Sound mem' free' noBlocks)
    (number : mem'.framesNumber = mem.framesNumber) {level : Nat} (bound : level < buddyMaxLevel) :
    ∃ before after, OnFreeList mem level before ∧ OnFreeList mem' level after ∧
      before.Nodup ∧ after.Nodup ∧ before.Perm after := by
  rcases sound.represents.lists level bound with ⟨before, threaded, members⟩
  rcases sound'.represents.lists level bound with ⟨after, threaded', members'⟩
  refine ⟨before, after, threaded.follows, threaded'.follows, threaded.nodup, threaded'.nodup, ?_⟩
  have layout' := sound'.layout
  rw [number] at layout'
  rw [List.perm_ext_iff_of_nodup threaded.nodup threaded'.nodup]
  intro index
  rw [members, members']
  exact sound.layout.free_unique layout' index level

/-- Whatever was handed out and in whatever order it comes back, every release
succeeds and each free list again holds the blocks it started with, each once. -/
theorem full_recovery (memBase framesNumber : Nat) (room : 1024 ≤ framesNumber)
    (bound : framesNumber ≤ 2 ^ 20) (levels heads order : List Nat) (mem : NormalMem)
    (allocated : allocAll levels (initNormalMemZone memBase framesNumber) = some (heads, mem))
    (permuted : order.Perm heads) :
    ∃ final, freeAll order mem = some final ∧ ∀ level, level < buddyMaxLevel →
      ∃ before after, OnFreeList (initNormalMemZone memBase framesNumber) level before ∧
        OnFreeList final level after ∧ before.Nodup ∧ after.Nodup ∧ before.Perm after := by
  rcases init_zone_sound memBase framesNumber room bound with ⟨free, sound, number, _, links⟩
  have startLinks : TopLinksOnly (initNormalMemZone memBase framesNumber) free := by
    unfold TopLinksOnly
    rw [number]
    exact links
  rcases alloc_all_sound levels sound startLinks allocated
    with ⟨free₁, taken, sound₁, links₁, number₁, nodup, _, members⟩
  have listed : ∀ index, index ∈ order ↔ ∃ level, taken index level := by
    intro index
    rw [members, permuted.mem_iff]
    simp [noBlocks]
  rcases free_all_sound order sound₁ (links₁.anchored sound₁.represents)
    (permuted.nodup_iff.mpr nodup) listed with ⟨final, free', run, finalSound, finalNumber⟩
  refine ⟨final, run, ?_⟩
  intro level levelBound
  exact same_free_lists sound finalSound (finalNumber.trans number₁) levelBound

/-- A pool of 1500 frames, given back in another order than it was handed out. -/
theorem full_recovery_sample : ∃ mem final,
    allocAll [0, 3, 10] (initNormalMemZone 0x200000 1500) = some ([1496, 1488, 0], mem) ∧
    freeAll [1488, 0, 1496] mem = some final ∧ ∀ level, level < buddyMaxLevel →
      ∃ before after, OnFreeList (initNormalMemZone 0x200000 1500) level before ∧
        OnFreeList final level after ∧ before.Nodup ∧ after.Nodup ∧ before.Perm after := by
  have heads : (allocAll [0, 3, 10] (initNormalMemZone 0x200000 1500)).map (·.1) =
      some [1496, 1488, 0] := by
    decide +kernel
  rcases Option.map_eq_some_iff.mp heads with ⟨⟨found, mem⟩, call, same⟩
  cases same
  rcases full_recovery 0x200000 1500 (by decide) (by decide) [0, 3, 10] [1496, 1488, 0]
    [1488, 0, 1496] mem call (by decide) with ⟨final, run, lists⟩
  exact ⟨mem, final, call, run, lists⟩

end ChaoOS.FrameTableRecovery
