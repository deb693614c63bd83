import ChaoOS.PageDirectory

/-!
# The kernel's own page tables (`init_vmm` in `kernel/vmm.c`)

`init_vmm` fills the directory `pgd_k` and the 224 tables of the static array
`tables`, both in the kernel image, and loads the physical address of the
directory into `cr3`. A physical word is seen at its kernel address, as in the
rest of `vmm.c`, so the processor's walk reads the same store.
-/

namespace ChaoOS.KernelPageTables

open ChaoOS.KernelMath ChaoOS.PageDirectory

set_option autoImplicit false

def pagePresent : Nat := 0x1

def pageWrite : Nat := 0x2

def kernelNormalZoneSize : Nat := 0x38000000

def kernelNormalZoneDirectorySize : Nat := kernelNormalZoneSize >>> 22

/-- The loop that writes `entry(i)` to `base[first + i]` for `i` below its bound. -/
def fillEntries (memory : Memory) (base first : Nat) (entry : Nat → Nat) : Nat → Memory
  | 0 => memory
  | i + 1 => store (fillEntries memory base first entry i) (slot base (first + i)) (entry i)

/-- `&tables[i]`. -/
def tableAddress (tables i : Nat) : Nat := add32 tables (pageSize * i)

def directoryEntry (tables i : Nat) : Nat :=
  sub32 (tableAddress tables i) pageOffset ||| pagePresent ||| pageWrite

def linearEntry (i j : Nat) : Nat :=
  let k := (i * 1024 + j) % wordSize
  (k <<< 12) % wordSize ||| pagePresent ||| pageWrite

def fillTables (memory : Memory) (tables : Nat) : Nat → Memory
  | 0 => memory
  | i + 1 => fillEntries (fillTables memory tables i) (tableAddress tables i) 0 (linearEntry i) 1024

/-- The answer carries the memory and what `switch_pgd` loads into `cr3`. -/
def initVmm (memory : Memory) (pgdK tables pt0 : Nat) : Memory × Nat :=
  let pageOfSetDirIndex := pgdIndex pageOffset
  let memory := fillEntries memory pgdK 0 (fun _ => 0) pageOfSetDirIndex
  let memory := fillEntries memory pgdK pageOfSetDirIndex (directoryEntry tables)
    kernelNormalZoneDirectorySize
  let memory := store memory (slot pgdK 0) (pt0 ||| pagePresent ||| pageWrite)
  let memory := fillTables memory tables kernelNormalZoneDirectorySize
  (memory, sub32 pgdK pageOffset)

/-- The processor's two-level walk; `none` is a page fault. -/
def walk (memory : Memory) (cr3 va : Nat) : Option Nat :=
  let entry := memory (slot (kernelAddress (cr3 &&& pageMask)) (pgdIndex va))
  if entry &&& pagePresent = 0 then none
  else
    let entry := memory (slot (kernelAddress (entry &&& pageMask)) (pteIndex va))
    if entry &&& pagePresent = 0 then none else some ((entry &&& pageMask) + va % pageSize)

/-- Where the linker puts the two arrays: on page boundaries, above
`PAGE_OFFSET`, inside the address space and apart. -/
structure PagingImage where
  pgdK : Nat
  tables : Nat
  pgd_aligned : pgdK % pageSize = 0
  tables_aligned : tables % pageSize = 0
  pgd_linked : pageOffset ≤ pgdK ∧ pgdK + pageSize ≤ wordSize
  tables_linked : pageOffset ≤ tables ∧
    tables + pageSize * kernelNormalZoneDirectorySize ≤ wordSize
  apart : pgdK + pageSize ≤ tables ∨ tables + pageSize * kernelNormalZoneDirectorySize ≤ pgdK

/-! ## What the loops leave in a slot -/

theorem fill_entries_slot (memory : Memory) {base first count other index : Nat}
    (entry : Nat → Nat) (word : base < wordSize) (aligned : base % pageSize = 0)
    (room : first + count ≤ 1024) (otherWord : other < wordSize)
    (otherAligned : other % pageSize = 0) (inside : index < 1024) :
    fillEntries memory base first entry count (slot other index) =
      if other = base ∧ first ≤ index ∧ index < first + count then entry (index - first)
      else memory (slot other index) := by
  induction count with
  | zero =>
      have none_covered : ¬(other = base ∧ first ≤ index ∧ index < first + 0) := by omega
      rw [if_neg none_covered]
      rfl
  | succ i induction =>
      have earlier := induction (by omega)
      rw [fillEntries, store]
      by_cases here : slot other index = slot base (first + i)
      · have both := slot_injective otherWord otherAligned inside word aligned (by omega) here
        have covered : other = base ∧ first ≤ index ∧ index < first + (i + 1) := by omega
        have position : index - first = i := by omega
        rw [if_pos here, if_pos covered, position]
      · have same : (other = base ∧ first ≤ index ∧ index < first + (i + 1)) ↔
            (other = base ∧ first ≤ index ∧ index < first + i) := by
          constructor
          · rintro ⟨rfl, lower, upper⟩
            have moved : index ≠ first + i := fun equal => here (by rw [equal])
            omega
          · omega
        rw [if_neg here, earlier]
        simp only [same]

namespace PagingImage

variable (image : PagingImage)

theorem table_address_eq {i : Nat} (inside : i < kernelNormalZoneDirectorySize) :
    tableAddress image.tables i = image.tables + pageSize * i := by
  have linked := image.tables_linked.2
  have count : kernelNormalZoneDirectorySize = 224 := by decide
  apply add32_of_lt
  rw [count] at inside linked
  rw [pageSize, wordSize] at *
  omega

theorem table_address_aligned {i : Nat} (inside : i < kernelNormalZoneDirectorySize) :
    tableAddress image.tables i % pageSize = 0 := by
  rw [image.table_address_eq inside, Nat.add_mul_mod_self_left]
  exact image.tables_aligned

theorem table_address_lt (i : Nat) : tableAddress image.tables i < wordSize :=
  Nat.mod_lt _ (by decide)

theorem pgd_lt : image.pgdK < wordSize := by
  have linked := image.pgd_linked.2
  rw [pageSize] at linked
  omega

theorem pgd_ne_table {i : Nat} (inside : i < kernelNormalZoneDirectorySize) :
    image.pgdK ≠ tableAddress image.tables i := by
  have apart := image.apart
  have count : kernelNormalZoneDirectorySize = 224 := by decide
  rw [image.table_address_eq inside]
  rw [count] at inside apart
  rw [pageSize] at *
  omega

theorem fill_tables_pgd (memory : Memory) {count index : Nat} (inside : index < 1024)
    (bound : count ≤ kernelNormalZoneDirectorySize) :
    fillTables memory image.tables count (slot image.pgdK index) =
      memory (slot image.pgdK index) := by
  induction count with
  | zero => rfl
  | succ i induction =>
      have earlier : i < kernelNormalZoneDirectorySize := by omega
      rw [fillTables, fill_entries_slot _ _ (image.table_address_lt i)
        (image.table_address_aligned earlier) (by omega) image.pgd_lt image.pgd_aligned inside,
        if_neg (fun covered => image.pgd_ne_table earlier covered.1)]
      exact induction (by omega)

theorem fill_tables_entry (memory : Memory) {count i j : Nat} (written : i < count)
    (position : j < 1024) (bound : count ≤ kernelNormalZoneDirectorySize) :
    fillTables memory image.tables count (slot (tableAddress image.tables i) j) =
      linearEntry i j := by
  induction count with
  | zero => omega
  | succ last induction =>
      have lastInside : last < kernelNormalZoneDirectorySize := by omega
      have inside : i < kernelNormalZoneDirectorySize := by omega
      rw [fillTables, fill_entries_slot _ _ (image.table_address_lt last)
        (image.table_address_aligned lastInside) (by omega) (image.table_address_lt i)
        (image.table_address_aligned inside) position]
      by_cases newest : i = last
      · subst newest
        rw [if_pos ⟨rfl, Nat.zero_le _, by omega⟩, Nat.sub_zero]
      · have elsewhere : tableAddress image.tables i ≠ tableAddress image.tables last := by
          rw [image.table_address_eq inside, image.table_address_eq lastInside, pageSize]
          omega
        rw [if_neg (fun covered => elsewhere covered.1)]
        exact induction (by omega) (by omega)

end PagingImage

/-! ## The walk of a linear address -/

theorem linear_entry_eq {i j : Nat} (inside : i < kernelNormalZoneDirectorySize)
    (position : j < 1024) : linearEntry i j = (i * 1024 + j) * pageSize ||| 3 := by
  have count : kernelNormalZoneDirectorySize = 224 := by decide
  rw [count] at inside
  have small : (i * 1024 + j) % wordSize = i * 1024 + j := by
    apply Nat.mod_eq_of_lt
    rw [wordSize]
    omega
  have shifted : ((i * 1024 + j) <<< 12) % wordSize = (i * 1024 + j) * pageSize := by
    rw [Nat.shiftLeft_eq]
    apply Nat.mod_eq_of_lt
    rw [wordSize]
    omega
  rw [linearEntry, small, shifted, Nat.or_assoc]
  rfl

theorem directory_entry_eq (image : PagingImage) {i : Nat}
    (inside : i < kernelNormalZoneDirectorySize) :
    directoryEntry image.tables i = (image.tables + pageSize * i - pageOffset) ||| 3 := by
  have word := image.table_address_lt i
  rw [image.table_address_eq inside] at word
  have linked := image.tables_linked.1
  rw [directoryEntry, image.table_address_eq inside, sub32_of_le word (by omega), Nat.or_assoc]
  rfl

/-- A tagged entry is present. -/
theorem tagged_present {frame : Nat} (aligned : frame % pageSize = 0) :
    (frame ||| 3) &&& pagePresent ≠ 0 := by
  rw [tagged_eq aligned (by decide), pagePresent, Nat.and_one_is_mod]
  rw [pageSize] at aligned
  omega

/-- A kernel address above `PAGE_OFFSET` is the kernel address of what lies
`PAGE_OFFSET` below it. -/
theorem kernel_address_sub {address : Nat} (word : address < wordSize)
    (linked : pageOffset ≤ address) : kernelAddress (address - pageOffset) = address := by
  rw [kernelAddress, add32, Nat.sub_add_cancel linked, Nat.mod_eq_of_lt word]

theorem linear_indices {a : Nat} (below : a < kernelNormalZoneSize) :
    pgdIndex (a + pageOffset) = 768 + a / 2 ^ 22 ∧
      pteIndex (a + pageOffset) = a / pageSize % 1024 ∧
      a / 2 ^ 22 < kernelNormalZoneDirectorySize := by
  have count : kernelNormalZoneDirectorySize = 224 := by decide
  rw [kernelNormalZoneSize] at below
  have word : a + pageOffset < wordSize := by
    rw [pageOffset, wordSize]
    omega
  have numbered := page_number_eq word
  rw [pageOffset, pageSize] at numbered
  rw [count, pageOffset, pageSize]
  omega

/-- The directory entry of a table of the linear mapping, and the tables' own
entries, as `init_vmm` leaves them. -/
theorem init_vmm_directory (image : PagingImage) (memory : Memory) (pt0 : Nat) {i : Nat}
    (inside : i < kernelNormalZoneDirectorySize) :
    (initVmm memory image.pgdK image.tables pt0).1 (slot image.pgdK (768 + i)) =
      directoryEntry image.tables i := by
  have count : kernelNormalZoneDirectorySize = 224 := by decide
  have first : pgdIndex pageOffset = 768 := by decide
  have upper : 768 + i < 1024 := by omega
  have elsewhere : slot image.pgdK (768 + i) ≠ slot image.pgdK 0 := by
    intro same
    have indices := slot_injective image.pgd_lt image.pgd_aligned upper image.pgd_lt
      image.pgd_aligned (by decide) same
    omega
  simp only [initVmm, first]
  rw [image.fill_tables_pgd _ upper (le_refl _), store, if_neg elsewhere,
    fill_entries_slot _ _ image.pgd_lt image.pgd_aligned (by omega) image.pgd_lt
      image.pgd_aligned upper, if_pos ⟨rfl, by omega, by omega⟩, Nat.add_sub_cancel_left]

theorem init_vmm_table (image : PagingImage) (memory : Memory) (pt0 : Nat) {i j : Nat}
    (inside : i < kernelNormalZoneDirectorySize) (position : j < 1024) :
    (initVmm memory image.pgdK image.tables pt0).1 (slot (tableAddress image.tables i) j) =
      linearEntry i j :=
  image.fill_tables_entry _ inside position (le_refl _)

/-- The walk finds `pgd_k` behind `cr3`. -/
theorem init_vmm_cr3 (image : PagingImage) (memory : Memory) (pt0 : Nat) :
    kernelAddress ((initVmm memory image.pgdK image.tables pt0).2 &&& pageMask) = image.pgdK := by
  have linked := image.pgd_linked.1
  have word := image.pgd_lt
  have physical : (image.pgdK - pageOffset) % pageSize = 0 := by
    have aligned := image.pgd_aligned
    rw [pageSize, pageOffset] at *
    omega
  have masked := mask_tagged (by omega) physical (show 0 < pageSize by decide)
  rw [Nat.or_zero] at masked
  rw [initVmm, sub32_of_le word linked, masked, kernel_address_sub word linked]

/-- The walk finds `tables[i]` behind its directory entry. -/
theorem directory_entry_table (image : PagingImage) {i : Nat}
    (inside : i < kernelNormalZoneDirectorySize) :
    directoryEntry image.tables i &&& pagePresent ≠ 0 ∧
      kernelAddress (directoryEntry image.tables i &&& pageMask) = tableAddress image.tables i := by
  have linked := image.tables_linked.1
  have word := image.table_address_lt i
  have aligned := image.table_address_aligned inside
  rw [image.table_address_eq inside] at word aligned
  have physical : (image.tables + pageSize * i - pageOffset) % pageSize = 0 := by
    rw [pageSize, pageOffset] at *
    omega
  rw [directory_entry_eq image inside, mask_tagged (by omega) physical (by decide),
    kernel_address_sub word (by omega), image.table_address_eq inside]
  exact ⟨tagged_present physical, rfl⟩

/-- Every address of the normal zone is mapped `PAGE_OFFSET` higher. -/
theorem walk_linear (image : PagingImage) (memory : Memory) (pt0 : Nat) {a : Nat}
    (below : a < kernelNormalZoneSize) :
    walk (initVmm memory image.pgdK image.tables pt0).1
      (initVmm memory image.pgdK image.tables pt0).2 (a + pageOffset) = some a := by
  obtain ⟨directory, position, inside⟩ := linear_indices below
  obtain ⟨present, table⟩ := directory_entry_table image inside
  have positionInside : a / pageSize % 1024 < 1024 := Nat.mod_lt _ (by decide)
  have frame : (a / 2 ^ 22 * 1024 + a / pageSize % 1024) * pageSize = a / pageSize * pageSize := by
    rw [pageSize]
    omega
  have frameAligned : a / pageSize * pageSize % pageSize = 0 := Nat.mul_mod_left _ _
  have frameWord : a / pageSize * pageSize < wordSize := by
    rw [kernelNormalZoneSize] at below
    rw [pageSize, wordSize]
    omega
  have offset : a / pageSize * pageSize + (a + pageOffset) % pageSize = a := by
    rw [pageSize, pageOffset]
    omega
  rw [walk]
  simp only [init_vmm_cr3, directory, init_vmm_directory image memory pt0 inside, if_neg present,
    table, position, init_vmm_table image memory pt0 inside positionInside,
    linear_entry_eq inside positionInside, frame, if_neg (tagged_present frameAligned),
    mask_tagged frameWord frameAligned (show 3 < pageSize by decide), offset]

end ChaoOS.KernelPageTables
