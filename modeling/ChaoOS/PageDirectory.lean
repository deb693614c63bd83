import Mathlib.Logic.Function.Basic
import ChaoOS.GuardedRun
import ChaoOS.KernelMath

/-!
# The page directories of `kernel/vmm.c`

Memory is a store of 32-bit words at byte addresses. A directory is a page of
1024 words, a nonzero entry of which holds the physical address of a table in
its upper twenty bits; the kernel reaches that table `PAGE_OFFSET` higher. The
frame that `physic_alloc` answers is part of the operation that calls it.

The abstract side is a partial map from page numbers to frame addresses.
-/

namespace ChaoOS.PageDirectory

open ChaoOS.GuardedRun ChaoOS.KernelMath

set_option autoImplicit false

def pageOffset : Nat := 0xC0000000

def pageSize : Nat := 4096

def pageMask : Nat := 0xFFFFF000

def pgdIndex (va : Nat) : Nat := (va >>> 22) &&& 0x3FF

def pteIndex (va : Nat) : Nat := (va >>> 12) &&& 0x3FF

abbrev Memory := Nat → Nat

/-- The address of the word `base[index]`. -/
def slot (base index : Nat) : Nat := add32 base (4 * index)

def store (memory : Memory) (address value : Nat) : Memory := fun other =>
  if other = address then value else memory other

/-- `memset(table, 0, PAGE_SIZE)`. -/
def clearPage (memory : Memory) (table : Nat) : Memory := fun other =>
  if sub32 other table < pageSize then 0 else memory other

def kernelAddress (frame : Nat) : Nat := add32 frame pageOffset

/-- The physical address in a directory entry, zero when there is no table. -/
def tableOf (memory : Memory) (pd index : Nat) : Nat := memory (slot pd index) &&& pageMask

/-- `frame` is what `physic_alloc` answers, should it be called. -/
def map (memory : Memory) (pd va pa flags frame : Nat) : Memory :=
  let table := tableOf memory pd (pgdIndex va)
  if table = 0 then
    let memory := store memory (slot pd (pgdIndex va)) (frame ||| flags)
    let memory := clearPage memory (kernelAddress frame)
    store memory (slot (kernelAddress frame) (pteIndex va)) ((pa &&& pageMask) ||| flags)
  else
    store memory (slot (kernelAddress table) (pteIndex va)) ((pa &&& pageMask) ||| flags)

def unmap (memory : Memory) (pd va : Nat) : Memory :=
  let table := tableOf memory pd (pgdIndex va)
  if table = 0 then memory
  else store memory (slot (kernelAddress table) (pteIndex va)) 0

/-- `pa` is the word behind the third argument, `none` for a null pointer; the
answer carries what that word is afterwards. -/
def getMapping (memory : Memory) (pd va : Nat) (pa : Option Nat) : Nat × Option Nat :=
  let table := tableOf memory pd (pgdIndex va)
  if table = 0 then (0, pa)
  else
    let entry := memory (slot (kernelAddress table) (pteIndex va))
    if entry ≠ 0 ∧ pa ≠ none then (1, some (entry &&& pageMask)) else (0, pa)

/-! ## Address arithmetic -/

theorem page_mask_eq (word : Nat) : word &&& pageMask = word / pageSize % 2 ^ 20 * pageSize := by
  have mask : pageMask = (2 ^ 20 - 1) <<< 12 := by decide
  have shifted : word / pageSize % 2 ^ 20 * pageSize = ((word >>> 12) &&& (2 ^ 20 - 1)) <<< 12 := by
    rw [Nat.shiftRight_eq_div_pow, Nat.and_two_pow_sub_one_eq_mod, Nat.shiftLeft_eq, pageSize]
  rw [shifted, mask]
  apply Nat.eq_of_testBit_eq
  intro bit
  simp only [Nat.testBit_and, Nat.testBit_shiftLeft, Nat.testBit_shiftRight]
  by_cases upper : bit ≥ 12
  · simp [upper]
  · simp [upper]

theorem tagged_eq {frame flags : Nat} (aligned : frame % pageSize = 0) (small : flags < pageSize) :
    frame ||| flags = frame + flags := by
  have joined := Nat.shiftLeft_add_eq_or_of_lt (show flags < 2 ^ 12 from small) (frame / pageSize)
  have whole : frame / pageSize * 2 ^ 12 = frame := by
    rw [pageSize] at aligned ⊢
    omega
  rw [Nat.shiftLeft_eq, whole] at joined
  exact joined.symm

/-- The flags never reach the address part of an entry. -/
theorem mask_tagged {frame flags : Nat} (word : frame < wordSize) (aligned : frame % pageSize = 0)
    (small : flags < pageSize) : (frame ||| flags) &&& pageMask = frame := by
  rw [tagged_eq aligned small, page_mask_eq]
  rw [pageSize] at aligned small ⊢
  rw [wordSize] at word
  omega

theorem mask_aligned (word : Nat) : (word &&& pageMask) % pageSize = 0 := by
  rw [page_mask_eq]
  exact Nat.mul_mod_left _ _

theorem mask_lt (word : Nat) : word &&& pageMask < wordSize := by
  rw [page_mask_eq, pageSize, wordSize]
  omega

theorem kernel_address_aligned {frame : Nat} (aligned : frame % pageSize = 0) :
    kernelAddress frame % pageSize = 0 := by
  rw [kernelAddress, add32, pageOffset, wordSize]
  rw [pageSize] at aligned ⊢
  omega

theorem kernel_address_lt (frame : Nat) : kernelAddress frame < wordSize :=
  Nat.mod_lt _ (by decide)

theorem kernel_address_injective {left right : Nat} (leftWord : left < wordSize)
    (rightWord : right < wordSize) (same : kernelAddress left = kernelAddress right) :
    left = right := by
  rw [kernelAddress, kernelAddress, add32, add32, pageOffset] at same
  rw [wordSize] at *
  omega

theorem slot_eq {base index : Nat} (word : base < wordSize) (aligned : base % pageSize = 0)
    (inside : index < 1024) : slot base index = base + 4 * index := by
  apply add32_of_lt
  rw [wordSize] at *
  rw [pageSize] at aligned
  omega

/-- Slots of aligned pages determine the page and the index. -/
theorem slot_injective {base index other position : Nat} (word : base < wordSize)
    (aligned : base % pageSize = 0) (inside : index < 1024) (otherWord : other < wordSize)
    (otherAligned : other % pageSize = 0) (otherInside : position < 1024)
    (same : slot base index = slot other position) : base = other ∧ index = position := by
  rw [slot_eq word aligned inside, slot_eq otherWord otherAligned otherInside] at same
  rw [pageSize] at aligned otherAligned
  omega

theorem clear_page_slot {memory : Memory} {table base index : Nat} (tableWord : table < wordSize)
    (tableAligned : table % pageSize = 0) (word : base < wordSize) (aligned : base % pageSize = 0)
    (inside : index < 1024) : clearPage memory table (slot base index) =
      if base = table then 0 else memory (slot base index) := by
  rw [clearPage]
  have covered : sub32 (slot base index) table < pageSize ↔ base = table := by
    rw [slot_eq word aligned inside, sub32]
    rw [wordSize] at *
    rw [pageSize] at *
    omega
  simp only [covered]

theorem page_number_eq {va : Nat} (word : va < wordSize) :
    va / pageSize = 1024 * pgdIndex va + pteIndex va ∧ pgdIndex va < 1024 ∧ pteIndex va < 1024 := by
  have ten : (0x3FF : Nat) = 2 ^ 10 - 1 := by decide
  rw [pgdIndex, pteIndex, ten, Nat.and_two_pow_sub_one_eq_mod, Nat.and_two_pow_sub_one_eq_mod,
    Nat.shiftRight_eq_div_pow, Nat.shiftRight_eq_div_pow, pageSize]
  rw [wordSize] at word
  omega

/-! ## A directory and the page map it stands for -/

abbrev PageMap := Nat → Option Nat

/-- What a table entry says about its page. -/
def decodeEntry (entry : Nat) : Option Nat :=
  if entry = 0 then none else some (entry &&& pageMask)

structure Refines (pd : Nat) (pages : PageMap) (memory : Memory) : Prop where
  absent : ∀ k, k < 1024 → tableOf memory pd k = 0 →
    ∀ j, j < 1024 → pages (1024 * k + j) = none
  present : ∀ k, k < 1024 → tableOf memory pd k ≠ 0 → ∀ j, j < 1024 →
    pages (1024 * k + j) = decodeEntry (memory (slot (kernelAddress (tableOf memory pd k)) j))
  apart : ∀ k, k < 1024 → tableOf memory pd k ≠ 0 → kernelAddress (tableOf memory pd k) ≠ pd
  distinct : ∀ k, k < 1024 → tableOf memory pd k ≠ 0 → ∀ other, other < 1024 →
    tableOf memory pd k = tableOf memory pd other → k = other

section Steps

variable {pd : Nat} {pages : PageMap} {memory : Memory}

theorem table_of_lt (memory : Memory) (pd k : Nat) : tableOf memory pd k < wordSize :=
  mask_lt _

theorem table_address_aligned (memory : Memory) (pd k : Nat) :
    kernelAddress (tableOf memory pd k) % pageSize = 0 :=
  kernel_address_aligned (mask_aligned _)

/-- Distinct page numbers differ in their directory or their table index. -/
theorem page_number_ne {k j other position : Nat} (inside : j < 1024) (otherInside : position < 1024)
    (different : ¬(other = k ∧ position = j)) : 1024 * other + position ≠ 1024 * k + j := by
  omega

/-- Writing one entry of a table in use changes one page and nothing else. -/
theorem Refines.set_entry (word : pd < wordSize) (aligned : pd % pageSize = 0)
    (refines : Refines pd pages memory) {k j : Nat} (inside : k < 1024) (position : j < 1024)
    (exists_table : tableOf memory pd k ≠ 0) (entry : Nat) :
    Refines pd (Function.update pages (1024 * k + j) (decodeEntry entry))
      (store memory (slot (kernelAddress (tableOf memory pd k)) j) entry) := by
  have sameTables : ∀ other, other < 1024 →
      tableOf (store memory (slot (kernelAddress (tableOf memory pd k)) j) entry) pd other =
        tableOf memory pd other := by
    intro other otherInside
    unfold tableOf store
    rw [if_neg]
    intro same
    have pages_equal := slot_injective word aligned otherInside (kernel_address_lt _)
      (table_address_aligned memory pd k) position same
    exact refines.apart k inside exists_table pages_equal.1.symm
  constructor
  · intro other otherInside missing place placeInside
    rw [sameTables other otherInside] at missing
    have different : ¬(other = k ∧ place = j) := by
      intro both
      rw [both.1] at missing
      exact exists_table missing
    rw [Function.update_of_ne (page_number_ne position placeInside different)]
    exact refines.absent other otherInside missing place placeInside
  · intro other otherInside found place placeInside
    rw [sameTables other otherInside] at found ⊢
    by_cases here : other = k ∧ place = j
    · rw [here.1, here.2, Function.update_self, store, if_pos rfl]
    · rw [Function.update_of_ne (page_number_ne position placeInside here), store, if_neg]
      · exact refines.present other otherInside found place placeInside
      · intro same
        have both := slot_injective (kernel_address_lt _) (table_address_aligned memory pd other)
          placeInside (kernel_address_lt _) (table_address_aligned memory pd k) position same
        have frames := kernel_address_injective (table_of_lt _ _ _) (table_of_lt _ _ _) both.1
        exact here ⟨refines.distinct other otherInside found k inside frames, both.2⟩
  · intro other otherInside found
    rw [sameTables other otherInside] at found ⊢
    exact refines.apart other otherInside found
  · intro other otherInside found third thirdInside same
    rw [sameTables other otherInside] at found same
    rw [sameTables third thirdInside] at same
    exact refines.distinct other otherInside found third thirdInside same

/-- A frame that may become a table: not null, a whole page, and neither the
directory nor a table in use. -/
structure FreshFrame (memory : Memory) (pd frame : Nat) : Prop where
  word : frame < wordSize
  nonzero : frame ≠ 0
  aligned : frame % pageSize = 0
  apart : kernelAddress frame ≠ pd
  unused : ∀ k, k < 1024 → tableOf memory pd k ≠ frame

instance (memory : Memory) (pd frame : Nat) : Decidable (FreshFrame memory pd frame) :=
  decidable_of_iff (frame < wordSize ∧ frame ≠ 0 ∧ frame % pageSize = 0 ∧
    kernelAddress frame ≠ pd ∧ ∀ k : Nat, k < 1024 → tableOf memory pd k ≠ frame) (by
      constructor
      · intro facts
        exact ⟨facts.1, facts.2.1, facts.2.2.1, facts.2.2.2.1, facts.2.2.2.2⟩
      · intro fresh
        exact ⟨fresh.word, fresh.nonzero, fresh.aligned, fresh.apart, fresh.unused⟩)

/-- Installing a cleared table leaves the page map as it was. -/
theorem Refines.install (word : pd < wordSize) (aligned : pd % pageSize = 0)
    (refines : Refines pd pages memory) {k frame flags : Nat} (inside : k < 1024)
    (missing : tableOf memory pd k = 0) (fresh : FreshFrame memory pd frame)
    (small : flags < pageSize) :
    Refines pd pages
      (clearPage (store memory (slot pd k) (frame ||| flags)) (kernelAddress frame)) ∧
      tableOf (clearPage (store memory (slot pd k) (frame ||| flags)) (kernelAddress frame)) pd k =
        frame := by
  have frameAligned := kernel_address_aligned fresh.aligned
  have frameWord := kernel_address_lt frame
  have tables : ∀ other, other < 1024 →
      tableOf (clearPage (store memory (slot pd k) (frame ||| flags)) (kernelAddress frame)) pd other =
        if other = k then frame else tableOf memory pd other := by
    intro other otherInside
    unfold tableOf
    rw [clear_page_slot frameWord frameAligned word aligned otherInside, if_neg fresh.apart.symm,
      store]
    by_cases here : other = k
    · rw [here, if_pos rfl, if_pos rfl]
      exact mask_tagged fresh.word fresh.aligned small
    · rw [if_neg, if_neg here]
      intro same
      exact here (slot_injective word aligned otherInside word aligned inside same).2
  refine ⟨?_, by rw [tables k inside, if_pos rfl]⟩
  constructor
  · intro other otherInside
    rw [tables other otherInside]
    split_ifs with here
    · intro null
      exact absurd null fresh.nonzero
    · exact refines.absent other otherInside
  · intro other otherInside found place placeInside
    rw [tables other otherInside] at found ⊢
    split_ifs at found ⊢ with here
    · rw [clear_page_slot frameWord frameAligned frameWord frameAligned placeInside, if_pos rfl, here,
        refines.absent k inside missing place placeInside, decodeEntry, if_pos rfl]
    · have otherFrame : kernelAddress (tableOf memory pd other) ≠ kernelAddress frame := by
        intro same
        exact fresh.unused other otherInside
          (kernel_address_injective (table_of_lt _ _ _) fresh.word same)
      rw [clear_page_slot frameWord frameAligned (kernel_address_lt _)
        (table_address_aligned memory pd other) placeInside, if_neg otherFrame, store, if_neg]
      · exact refines.present other otherInside found place placeInside
      · intro same
        have both := slot_injective (kernel_address_lt _) (table_address_aligned memory pd other)
          placeInside word aligned inside same
        exact refines.apart other otherInside found both.1
  · intro other otherInside
    rw [tables other otherInside]
    split_ifs with here
    · intro _
      exact fresh.apart
    · exact refines.apart other otherInside
  · intro other otherInside found third thirdInside same
    rw [tables other otherInside] at found same
    rw [tables third thirdInside] at same
    split_ifs at found same with here there there
    · exact here.trans there.symm
    · exact absurd same.symm (fresh.unused third thirdInside)
    · exact absurd same (fresh.unused other otherInside)
    · exact refines.distinct other otherInside found third thirdInside same

/-- An entry that `map` writes is never zero, because the flags are not. -/
theorem decode_mapped {pa flags : Nat} (positive : 0 < flags) (small : flags < pageSize) :
    decodeEntry ((pa &&& pageMask) ||| flags) = some (pa &&& pageMask) := by
  have nonzero : (pa &&& pageMask) ||| flags ≠ 0 := by
    rw [tagged_eq (mask_aligned pa) small]
    omega
  rw [decodeEntry, if_neg nonzero, mask_tagged (mask_lt pa) (mask_aligned pa) small]

theorem Refines.map (word : pd < wordSize) (aligned : pd % pageSize = 0)
    (refines : Refines pd pages memory) {va pa flags frame : Nat} (address : va < wordSize)
    (positive : 0 < flags) (small : flags < pageSize)
    (fresh : tableOf memory pd (pgdIndex va) = 0 → FreshFrame memory pd frame) :
    Refines pd (Function.update pages (va / pageSize) (some (pa &&& pageMask)))
      (map memory pd va pa flags frame) := by
  rcases page_number_eq address with ⟨number, inside, position⟩
  rw [number, ← decode_mapped positive small, PageDirectory.map]
  dsimp only
  split_ifs with missing
  · rcases refines.install word aligned inside missing (fresh missing) small with ⟨installed, table⟩
    have present := installed.set_entry word aligned inside position
      (by rw [table]; exact (fresh missing).nonzero) ((pa &&& pageMask) ||| flags)
    rw [table] at present
    exact present
  · exact refines.set_entry word aligned inside position missing _

theorem Refines.unmap (word : pd < wordSize) (aligned : pd % pageSize = 0)
    (refines : Refines pd pages memory) {va : Nat} (address : va < wordSize) :
    Refines pd (Function.update pages (va / pageSize) none) (unmap memory pd va) := by
  rcases page_number_eq address with ⟨number, inside, position⟩
  rw [number, PageDirectory.unmap]
  split_ifs with missing
  · have unchanged : Function.update pages (1024 * pgdIndex va + pteIndex va) none = pages := by
      apply Function.update_eq_self_iff.mpr
      exact (refines.absent _ inside missing _ position).symm
    rw [unchanged]
    exact refines
  · exact refines.set_entry word aligned inside position missing 0

/-- A look-up answers what the page map says. -/
theorem Refines.get_mapping (refines : Refines pd pages memory) {va : Nat}
    (address : va < wordSize) (old : Nat) : getMapping memory pd va (some old) =
      match pages (va / pageSize) with
      | some frame => (1, some frame)
      | none => (0, some old) := by
  rcases page_number_eq address with ⟨number, inside, position⟩
  rw [number, getMapping]
  dsimp only
  split_ifs with missing valid
  · rw [refines.absent _ inside missing _ position]
  · rw [refines.present _ inside missing _ position, decodeEntry, if_neg valid.1]
  · rw [refines.present _ inside missing _ position, decodeEntry, if_pos]
    by_contra nonzero
    exact valid ⟨nonzero, by simp⟩

end Steps

/-! ## Runs -/

inductive PageOp where
  | map (va pa flags frame : Nat)
  | unmap (va : Nat)

def directoryStep (pd : Nat) (memory : Memory) : PageOp → Option Memory
  | .map va pa flags frame => some (map memory pd va pa flags frame)
  | .unmap va => some (unmap memory pd va)

/-- The words an operation is given, and a fresh frame when a table is missing. -/
def OpAllowed (pd : Nat) (memory : Memory) : PageOp → Prop
  | .map va pa flags frame => va < wordSize ∧ pa < wordSize ∧ 0 < flags ∧ flags < pageSize ∧
      (tableOf memory pd (pgdIndex va) = 0 → FreshFrame memory pd frame)
  | .unmap va => va < wordSize

instance (pd : Nat) (memory : Memory) : (op : PageOp) → Decidable (OpAllowed pd memory op)
  | .map va pa flags frame => inferInstanceAs (Decidable (va < wordSize ∧ pa < wordSize ∧
      0 < flags ∧ flags < pageSize ∧
      (tableOf memory pd (pgdIndex va) = 0 → FreshFrame memory pd frame)))
  | .unmap va => inferInstanceAs (Decidable (va < wordSize))

/-- The effect of one operation on the page map. -/
def noteOp (pages : PageMap) : PageOp → PageMap
  | .map va pa _ _ => Function.update pages (va / pageSize) (some (pa &&& pageMask))
  | .unmap va => Function.update pages (va / pageSize) none

/-- The frame the last operation on a page left there, if any. -/
def lastMapping (ops : List PageOp) : PageMap := ops.foldl noteOp fun _ => none

theorem empty_refines {pd : Nat} {memory : Memory}
    (empty : ∀ k, k < 1024 → memory (slot pd k) = 0) : Refines pd (fun _ => none) memory := by
  have noTable : ∀ k, k < 1024 → tableOf memory pd k = 0 := by
    intro k inside
    rw [tableOf, empty k inside, Nat.zero_and]
  constructor
  · intro _ _ _ _ _
    rfl
  · intro k inside found
    exact absurd (noTable k inside) found
  · intro k inside found
    exact absurd (noTable k inside) found
  · intro k inside found
    exact absurd (noTable k inside) found

theorem directory_step_refines {pd : Nat} (word : pd < wordSize) (aligned : pd % pageSize = 0)
    (pages : PageMap) (memory : Memory) (op : PageOp) (next : Memory)
    (refines : Refines pd pages memory) (allowed : OpAllowed pd memory op)
    (call : directoryStep pd memory op = some next) : Refines pd (noteOp pages op) next := by
  cases op with
  | map va pa flags frame =>
      cases call
      rcases allowed with ⟨address, _, positive, small, fresh⟩
      exact refines.map word aligned address positive small fresh
  | unmap va =>
      cases call
      exact refines.unmap word aligned allowed

/-- After any run from an empty directory a look-up finds what the last
operation on its page left there, whatever happened to other pages. -/
theorem directory_refines_page_map (pd : Nat) (word : pd < wordSize) (aligned : pd % pageSize = 0)
    (memory : Memory) (empty : ∀ k, k < 1024 → memory (slot pd k) = 0) (ops : List PageOp)
    (allowed : Permitted (directoryStep pd) (OpAllowed pd) memory ops) (final : Memory)
    (run : runFrom (directoryStep pd) memory ops = some final) (va : Nat) (address : va < wordSize)
    (old : Nat) : getMapping final pd va (some old) =
      match lastMapping ops (va / pageSize) with
      | some frame => (1, some frame)
      | none => (0, some old) := by
  have refines := run_simulation (directory_step_refines word aligned) (empty_refines empty)
    allowed run
  exact refines.get_mapping address old

theorem directory_refines_page_map_sample : ∃ final,
    runFrom (directoryStep 0xC0100000) (fun _ => 0)
      [.map 0x08048000 0x00500123 7 0x200000, .map 0x08049000 0x00600000 3 0,
        .unmap 0x08048FFF] = some final ∧
    getMapping final 0xC0100000 0x08049ABC (some 9) = (1, some 0x00600000) ∧
    getMapping final 0xC0100000 0x08048000 (some 9) = (0, some 9) := by
  have allowed : Permitted (directoryStep 0xC0100000) (OpAllowed 0xC0100000) (fun _ => 0)
      [.map 0x08048000 0x00500123 7 0x200000, .map 0x08049000 0x00600000 3 0,
        .unmap 0x08048FFF] := by
    decide +kernel
  refine ⟨_, rfl, ?_, ?_⟩
  · exact directory_refines_page_map 0xC0100000 (by decide) (by decide) (fun _ => 0)
      (fun _ _ => rfl) _ allowed _ rfl 0x08049ABC (by decide) 9
  · exact directory_refines_page_map 0xC0100000 (by decide) (by decide) (fun _ => 0)
      (fun _ _ => rfl) _ allowed _ rfl 0x08048000 (by decide) 9

end ChaoOS.PageDirectory
