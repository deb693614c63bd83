import ChaoOS.BootPageTables

/-!
# Address spaces and the tables that lay them out

An address space says for each page which frame it is mapped to, and with which
flags. The tables that `map` and `unmap` keep have the flags of a page in two
places: its own entry and the directory entry of its table, which has the flags
of the first mapping that needed the table.
-/

namespace ChaoOS.AddressSpace

open ChaoOS.KernelMath ChaoOS.PageDirectory ChaoOS.KernelPageTables ChaoOS.BootPageTables

set_option autoImplicit false

/-! ## What an address space is -/

/-- Flags of a mapping, below the frame address in an entry. -/
structure PageFlags where
  bits : Nat
  small : bits < pageSize
  present : bits &&& pagePresent ≠ 0

def PageFlags.writable (flags : PageFlags) : Bool := decide (flags.bits &&& pageWrite ≠ 0)

structure PageEntry where
  frame : Nat
  flags : PageFlags
  word : frame < wordSize
  aligned : frame % pageSize = 0

structure Space where
  table : Nat → Option PageFlags
  page : Nat → Option PageEntry

/-- The entry that `map` makes for a physical address. -/
def entryFor (pa : Nat) (flags : PageFlags) : PageEntry :=
  { frame := pa &&& pageMask, flags := flags, word := mask_lt pa, aligned := mask_aligned pa }

namespace Space

variable (space : Space)

/-- Where an access goes, and whether it may write there. -/
def translation (va : Nat) : Option Translation :=
  (space.page (va / pageSize)).bind fun entry =>
    (space.table (pgdIndex va)).map fun upper =>
      ⟨entry.frame + va % pageSize, upper.writable && entry.flags.writable⟩

def mapped (va pa : Nat) (flags : PageFlags) : Space :=
  { table := Function.update space.table (pgdIndex va)
      (some ((space.table (pgdIndex va)).getD flags))
    page := Function.update space.page (va / pageSize) (some (entryFor pa flags)) }

def unmapped (va : Nat) : Space :=
  { space with page := Function.update space.page (va / pageSize) none }

end Space

/-! ## The words of the tables -/

def encodeEntry : Option PageEntry → Nat
  | none => 0
  | some entry => entry.frame ||| entry.flags.bits

structure IsPage (address : Nat) : Prop where
  word : address < wordSize
  aligned : address % pageSize = 0

/-- A frame that can be a table of the directory `pd`. -/
structure TableFrame (pd frame : Nat) : Prop extends IsPage frame where
  nonzero : frame ≠ 0
  apart : kernelAddress frame ≠ pd

/-- Memory has the tables of the space, where `frame` has the physical address of
each table. -/
structure Laid (pd : Nat) (space : Space) (frame : Nat → Nat) (memory : Memory) : Prop where
  directory : ∀ k, k < 1024 → memory (slot pd k) =
    match space.table k with
    | none => 0
    | some flags => frame k ||| flags.bits
  entries : ∀ k, k < 1024 → space.table k ≠ none → ∀ j, j < 1024 →
    memory (slot (kernelAddress (frame k)) j) = encodeEntry (space.page (1024 * k + j))
  absent : ∀ k, k < 1024 → space.table k = none → ∀ j, j < 1024 → space.page (1024 * k + j) = none
  tables : ∀ k, k < 1024 → space.table k ≠ none → TableFrame pd (frame k)
  distinct : ∀ k, k < 1024 → space.table k ≠ none → ∀ other, other < 1024 →
    space.table other ≠ none → frame k = frame other → k = other

/-! ## Flags in entries -/

section Flags

variable {frame low flags : Nat}

/-- An aligned frame has none of the low bits. -/
theorem aligned_and_low (aligned : frame % pageSize = 0) (small : low < pageSize) :
    frame &&& low = 0 := by
  have power : pageSize = 2 ^ 12 := by decide
  rw [power] at aligned small
  apply Nat.eq_of_testBit_eq
  intro bit
  rw [Nat.testBit_and, Nat.zero_testBit]
  by_cases below : bit < 12
  · have zero : Nat.testBit (frame % 2 ^ 12) bit = false := by rw [aligned, Nat.zero_testBit]
    rw [Nat.testBit_mod_two_pow, decide_eq_true below, Bool.true_and] at zero
    rw [zero, Bool.false_and]
  · have zero : Nat.testBit low bit = false := by
      apply Nat.testBit_lt_two_pow
      exact Nat.lt_of_lt_of_le small (Nat.pow_le_pow_right (by decide) (Nat.le_of_not_lt below))
    rw [zero, Bool.and_false]

theorem tagged_and_low (aligned : frame % pageSize = 0) (small : low < pageSize) :
    (frame ||| flags) &&& low = flags &&& low := by
  rw [Nat.and_or_distrib_right, aligned_and_low aligned small, Nat.zero_or]

theorem PageFlags.nonzero (flags : PageFlags) : 0 < flags.bits := by
  have present := flags.present
  rw [Nat.pos_iff_ne_zero]
  intro zero
  rw [zero, Nat.zero_and] at present
  exact present rfl

theorem tagged_mask {frame : Nat} (page : IsPage frame) (flags : PageFlags) :
    (frame ||| flags.bits) &&& pageMask = frame :=
  mask_tagged page.word page.aligned flags.small

theorem tagged_nonzero {frame : Nat} (aligned : frame % pageSize = 0) (flags : PageFlags) :
    frame ||| flags.bits ≠ 0 := by
  have positive := flags.nonzero
  rw [tagged_eq aligned flags.small]
  omega

end Flags

/-! ## Words of pages -/

theorem kernel_page {frame : Nat} (aligned : frame % pageSize = 0) : IsPage (kernelAddress frame) :=
  ⟨kernel_address_lt frame, kernel_address_aligned aligned⟩

section Words

variable {memory : Memory} {base other index position : Nat}

theorem store_slot (page : IsPage base) (inside : index < 1024) (otherPage : IsPage other)
    (otherInside : position < 1024) (value : Nat) :
    store memory (slot base index) value (slot other position) =
      if other = base ∧ position = index then value else memory (slot other position) := by
  have same : slot other position = slot base index ↔ other = base ∧ position = index := by
    constructor
    · exact slot_injective otherPage.word otherPage.aligned otherInside page.word page.aligned inside
    · rintro ⟨sameBase, sameIndex⟩
      rw [sameBase, sameIndex]
  rw [store]
  simp only [same]

theorem clear_slot (page : IsPage base) (otherPage : IsPage other) (otherInside : position < 1024) :
    clearPage memory base (slot other position) =
      if other = base then 0 else memory (slot other position) :=
  clear_page_slot page.word page.aligned otherPage.word otherPage.aligned otherInside

end Words

/-! ## Steps on the tables -/

section Steps

variable {pd : Nat} {space : Space} {frame : Nat → Nat} {memory memory' : Memory}

/-- What is in the directory and the tables decides. -/
theorem Laid.congr (laid : Laid pd space frame memory)
    (directory : ∀ k, k < 1024 → memory' (slot pd k) = memory (slot pd k))
    (entries : ∀ k, k < 1024 → space.table k ≠ none → ∀ j, j < 1024 →
      memory' (slot (kernelAddress (frame k)) j) = memory (slot (kernelAddress (frame k)) j)) :
    Laid pd space frame memory' := by
  refine ⟨?_, ?_, laid.absent, laid.tables, laid.distinct⟩
  · intro k inside
    rw [directory k inside]
    exact laid.directory k inside
  · intro k inside found j position
    rw [entries k inside found j position]
    exact laid.entries k inside found j position

theorem Laid.table_of (laid : Laid pd space frame memory) {k : Nat} (inside : k < 1024) :
    tableOf memory pd k = if space.table k = none then 0 else frame k := by
  have word := laid.directory k inside
  cases found : space.table k with
  | none =>
      rw [found] at word
      rw [tableOf, word, Nat.zero_and, if_pos rfl]
  | some flags =>
      have table := laid.tables k inside (by rw [found]; exact Option.some_ne_none flags)
      rw [found] at word
      rw [tableOf, word, if_neg (Option.some_ne_none flags)]
      exact tagged_mask table.toIsPage flags

theorem Laid.missing_iff (laid : Laid pd space frame memory) {k : Nat} (inside : k < 1024) :
    tableOf memory pd k = 0 ↔ space.table k = none := by
  rw [laid.table_of inside]
  constructor
  · intro zero
    by_contra found
    rw [if_neg found] at zero
    exact (laid.tables k inside found).nonzero zero
  · intro missing
    rw [if_pos missing]

/-- Writing one entry of a table changes one page. -/
theorem Laid.set_entry (directoryPage : IsPage pd) (laid : Laid pd space frame memory) {k j : Nat}
    (inside : k < 1024) (position : j < 1024) (found : space.table k ≠ none)
    (entry : Option PageEntry) :
    Laid pd { space with page := Function.update space.page (1024 * k + j) entry } frame
      (store memory (slot (kernelAddress (frame k)) j) (encodeEntry entry)) := by
  have table := laid.tables k inside found
  have tablePage := kernel_page table.aligned
  constructor
  case directory =>
    intro other otherInside
    rw [store_slot tablePage position directoryPage otherInside,
      if_neg (fun same => table.apart same.1.symm)]
    exact laid.directory other otherInside
  case entries =>
    intro other otherInside otherFound place placeInside
    have otherTable := laid.tables other otherInside otherFound
    rw [store_slot tablePage position (kernel_page otherTable.aligned) placeInside]
    dsimp only
    by_cases here : other = k ∧ place = j
    · rw [here.1, here.2, if_pos ⟨rfl, rfl⟩, Function.update_self]
    · have elsewhere : ¬(kernelAddress (frame other) = kernelAddress (frame k) ∧ place = j) := by
        rintro ⟨sameTable, samePlace⟩
        have frames := kernel_address_injective otherTable.word table.word sameTable
        exact here ⟨laid.distinct other otherInside otherFound k inside found frames, samePlace⟩
      rw [if_neg elsewhere, Function.update_of_ne (page_number_ne position placeInside here)]
      exact laid.entries other otherInside otherFound place placeInside
  case absent =>
    intro other otherInside missing place placeInside
    have different : ¬(other = k ∧ place = j) := by
      rintro ⟨same, -⟩
      exact found (same ▸ missing)
    dsimp only
    rw [Function.update_of_ne (page_number_ne position placeInside different)]
    exact laid.absent other otherInside missing place placeInside
  case tables => exact laid.tables
  case distinct => exact laid.distinct

/-- A cleared frame becomes the table of an index that has none. -/
theorem Laid.install (directoryPage : IsPage pd) (laid : Laid pd space frame memory) {k new : Nat}
    (inside : k < 1024) (missing : space.table k = none) (fresh : TableFrame pd new)
    (unused : ∀ other, other < 1024 → space.table other ≠ none → frame other ≠ new)
    (flags : PageFlags) :
    Laid pd { space with table := Function.update space.table k (some flags) }
      (Function.update frame k new)
      (clearPage (store memory (slot pd k) (new ||| flags.bits)) (kernelAddress new)) := by
  have newPage := kernel_page fresh.aligned
  constructor
  case directory =>
    intro other otherInside
    rw [clear_slot newPage directoryPage otherInside, if_neg fresh.apart.symm,
      store_slot directoryPage inside directoryPage otherInside]
    by_cases here : other = k
    · rw [here, if_pos ⟨rfl, rfl⟩]
      simp only [Function.update_self]
    · rw [if_neg (fun same => here same.2)]
      simp only [Function.update_of_ne here]
      exact laid.directory other otherInside
  case entries =>
    intro other otherInside found place placeInside
    by_cases here : other = k
    · subst here
      rw [Function.update_self, clear_slot newPage newPage placeInside, if_pos rfl]
      dsimp only
      rw [laid.absent other otherInside missing place placeInside]
      rfl
    · have before : space.table other ≠ none := by
        simpa only [Function.update_of_ne here] using found
      have otherTable := laid.tables other otherInside before
      have otherPage := kernel_page otherTable.aligned
      rw [Function.update_of_ne here, clear_slot newPage otherPage placeInside, if_neg,
        store_slot directoryPage inside otherPage placeInside,
        if_neg (fun same => otherTable.apart same.1)]
      · exact laid.entries other otherInside before place placeInside
      · intro same
        exact unused other otherInside before
          (kernel_address_injective otherTable.word fresh.word same)
  case absent =>
    intro other otherInside none_there place placeInside
    have here : other ≠ k := by
      rintro rfl
      simp only [Function.update_self] at none_there
      exact absurd none_there (Option.some_ne_none flags)
    simp only [Function.update_of_ne here] at none_there
    exact laid.absent other otherInside none_there place placeInside
  case tables =>
    intro other otherInside found
    by_cases here : other = k
    · rw [here, Function.update_self]
      exact fresh
    · simp only [Function.update_of_ne here] at found ⊢
      exact laid.tables other otherInside found
  case distinct =>
    intro left leftInside leftFound right rightInside rightFound same
    by_cases leftHere : left = k
    · by_cases rightHere : right = k
      · exact leftHere.trans rightHere.symm
      · simp only [Function.update_of_ne rightHere, leftHere, Function.update_self] at same rightFound
        exact absurd same.symm (unused right rightInside rightFound)
    · simp only [Function.update_of_ne leftHere] at leftFound same
      by_cases rightHere : right = k
      · rw [rightHere, Function.update_self] at same
        exact absurd same (unused left leftInside leftFound)
      · simp only [Function.update_of_ne rightHere] at rightFound same
        exact laid.distinct left leftInside leftFound right rightInside rightFound same

/-- `map` where the table is there. -/
theorem Laid.map_present (directoryPage : IsPage pd) (laid : Laid pd space frame memory)
    {va : Nat} (address : va < wordSize) (found : space.table (pgdIndex va) ≠ none) (pa : Nat)
    (flags : PageFlags) (answer : Nat) :
    Laid pd (space.mapped va pa flags) frame (map memory pd va pa flags.bits answer) := by
  obtain ⟨number, inside, position⟩ := page_number_eq address
  have written := laid.set_entry directoryPage inside position found (some (entryFor pa flags))
  have table := laid.table_of inside
  rw [if_neg found] at table
  have nonzero := (laid.tables _ inside found).nonzero
  have same : Function.update space.table (pgdIndex va)
      (some ((space.table (pgdIndex va)).getD flags)) = space.table := by
    apply Function.update_eq_self_iff.mpr
    obtain ⟨upper, there⟩ := Option.ne_none_iff_exists'.mp found
    rw [there, Option.getD_some]
  rw [PageDirectory.map, table, Space.mapped, same, number]
  dsimp only
  rw [if_neg nonzero]
  exact written

/-- `map` where the frame that the table is made of is new. -/
theorem Laid.map_absent (directoryPage : IsPage pd) (laid : Laid pd space frame memory)
    {va : Nat} (address : va < wordSize) (missing : space.table (pgdIndex va) = none) {new : Nat}
    (fresh : TableFrame pd new)
    (unused : ∀ other, other < 1024 → space.table other ≠ none → frame other ≠ new) (pa : Nat)
    (flags : PageFlags) :
    Laid pd (space.mapped va pa flags) (Function.update frame (pgdIndex va) new)
      (map memory pd va pa flags.bits new) := by
  obtain ⟨number, inside, position⟩ := page_number_eq address
  have installed := laid.install directoryPage inside missing fresh unused flags
  have found : Function.update space.table (pgdIndex va) (some flags) (pgdIndex va) ≠ none := by
    rw [Function.update_self]
    exact Option.some_ne_none flags
  have written := installed.set_entry directoryPage inside position found (some (entryFor pa flags))
  rw [Function.update_self] at written
  rw [PageDirectory.map, (laid.missing_iff inside).mpr missing, Space.mapped, missing,
    Option.getD_none, number]
  exact written

theorem Laid.unmap (directoryPage : IsPage pd) (laid : Laid pd space frame memory) {va : Nat}
    (address : va < wordSize) : Laid pd (space.unmapped va) frame (unmap memory pd va) := by
  obtain ⟨number, inside, position⟩ := page_number_eq address
  rw [PageDirectory.unmap, Space.unmapped, number]
  by_cases missing : space.table (pgdIndex va) = none
  · have same : Function.update space.page (1024 * pgdIndex va + pteIndex va) none = space.page := by
      apply Function.update_eq_self_iff.mpr
      exact (laid.absent _ inside missing _ position).symm
    rw [same, if_pos ((laid.missing_iff inside).mpr missing)]
    exact laid
  · have table := laid.table_of inside
    rw [if_neg missing] at table
    rw [table, if_neg (laid.tables _ inside missing).nonzero]
    exact laid.set_entry directoryPage inside position missing none

/-! ## Look-ups -/

/-- The processor goes where the space says. -/
theorem Laid.translate (laid : Laid pd space frame memory) {cr3 va : Nat}
    (loaded : kernelAddress (cr3 &&& pageMask) = pd) (address : va < wordSize) :
    translate memory cr3 va = space.translation va := by
  obtain ⟨number, inside, position⟩ := page_number_eq address
  have directory := laid.directory _ inside
  unfold BootPageTables.translate walk Space.translation
  rw [loaded]
  cases found : space.table (pgdIndex va) with
  | none =>
      rw [found] at directory
      rw [directory]
      simp only [Nat.zero_and, if_true, Option.map_none]
      rw [number, laid.absent _ inside found _ position]
      rfl
  | some upper =>
      have there : space.table (pgdIndex va) ≠ none := by
        rw [found]
        exact Option.some_ne_none upper
      have table := laid.tables _ inside there
      have entry := laid.entries _ inside there _ position
      rw [found] at directory
      rw [directory]
      simp only [tagged_mask table.toIsPage upper, tagged_and_low table.aligned
        (show pagePresent < pageSize by decide), tagged_and_low table.aligned
        (show pageWrite < pageSize by decide), if_neg upper.present, entry, number]
      cases mapping : space.page (1024 * pgdIndex va + pteIndex va) with
      | none => simp only [encodeEntry, Nat.zero_and, if_true, Option.map_none, Option.bind_none]
      | some page =>
          simp only [encodeEntry, tagged_and_low page.aligned (show pagePresent < pageSize by decide),
            tagged_and_low page.aligned (show pageWrite < pageSize by decide),
            if_neg page.flags.present, tagged_mask ⟨page.word, page.aligned⟩, Option.map_some,
            Option.bind_some, PageFlags.writable, Bool.decide_and]

theorem Laid.get_mapping (laid : Laid pd space frame memory) {va : Nat} (address : va < wordSize)
    (old : Nat) : getMapping memory pd va (some old) =
      match space.page (va / pageSize) with
      | some entry => (1, some entry.frame)
      | none => (0, some old) := by
  obtain ⟨number, inside, position⟩ := page_number_eq address
  rw [getMapping, number, laid.table_of inside]
  by_cases missing : space.table (pgdIndex va) = none
  · rw [if_pos missing, laid.absent _ inside missing _ position]
    rfl
  · have entry := laid.entries _ inside missing _ position
    simp only [if_neg missing, if_neg (laid.tables _ inside missing).nonzero, entry]
    cases mapping : space.page (1024 * pgdIndex va + pteIndex va) with
    | none => rfl
    | some page =>
        have word := tagged_nonzero page.aligned page.flags
        have masked := tagged_mask ⟨page.word, page.aligned⟩ page.flags
        simp [encodeEntry, word, masked]

end Steps

end ChaoOS.AddressSpace
