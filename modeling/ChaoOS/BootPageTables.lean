import ChaoOS.KernelPageTables

/-!
# The two directories of the start-up

Before paging is on, `kernel_main_init` fills a directory and two tables at fixed
physical addresses; `init_vmm` then builds the kernel's own directory and keeps
the first of the two tables for the lowest 4 MiB. The walks of both directories
are compared with the mapping they are meant to be.
-/

namespace ChaoOS.BootPageTables

open ChaoOS.KernelMath ChaoOS.PageDirectory ChaoOS.KernelPageTables

set_option autoImplicit false

/-! ## `kernel_main_init` -/

def pgdTmp : Nat := 0x1000

def pt0 : Nat := 0x2000

def pt1 : Nat := 0x3000

def bootEntry (i : Nat) : Nat := (i <<< 12) % wordSize ||| pagePresent ||| pageWrite

/-- The loop over both tables. -/
def fillBootTables (memory : Memory) : Nat → Memory
  | 0 => memory
  | i + 1 =>
      let memory := fillBootTables memory i
      let memory := store memory (slot (kernelAddress pt0) i) (bootEntry i)
      store memory (slot (kernelAddress pt1) i) (bootEntry i)

/-- The answer carries the memory and what is loaded into `cr3`. -/
def kernelMainInit (memory : Memory) : Memory × Nat :=
  let memory := store memory (slot (kernelAddress pgdTmp) 0) (pt0 ||| pagePresent ||| pageWrite)
  let memory := store memory (slot (kernelAddress pgdTmp) (pgdIndex pageOffset))
    (pt1 ||| pagePresent ||| pageWrite)
  (fillBootTables memory 1024, pgdTmp)

/-- The linker starts the image at 1 MiB. -/
structure BootImage extends PagingImage where
  linked_high : pageOffset + 0x100000 ≤ pgdK ∧ pageOffset + 0x100000 ≤ tables

/-! ## Walks -/

structure Translation where
  physical : Nat
  writable : Bool
  deriving DecidableEq

/-- A walk with the write flags of the two entries it passes. -/
def translate (memory : Memory) (cr3 va : Nat) : Option Translation :=
  let directory := memory (slot (kernelAddress (cr3 &&& pageMask)) (pgdIndex va))
  let entry := memory (slot (kernelAddress (directory &&& pageMask)) (pteIndex va))
  (walk memory cr3 va).map fun physical =>
    ⟨physical, decide (directory &&& pageWrite ≠ 0 ∧ entry &&& pageWrite ≠ 0)⟩

/-- What the kernel's directory is meant to map. -/
def kernelMapping (va : Nat) : Option Translation :=
  if pageOffset ≤ va ∧ va < 0xF8000000 then some ⟨va - pageOffset, true⟩
  else if va < 0x400000 then some ⟨va, true⟩
  else none

/-- The two entries that `kernel_main_init` writes into its directory. -/
def TemporarilyMapped (va : Nat) : Prop := pgdIndex va = 0 ∨ pgdIndex va = pgdIndex pageOffset

theorem tagged_writable (frame : Nat) : (frame ||| 3) &&& pageWrite ≠ 0 := by
  have bit : Nat.testBit ((frame ||| 3) &&& pageWrite) 1 = true := by
    rw [Nat.testBit_and, Nat.testBit_or]
    have three : Nat.testBit 3 1 = true := by decide
    have write : Nat.testBit pageWrite 1 = true := by decide
    rw [three, write, Bool.or_true, Bool.and_self]
  intro zero
  rw [zero, Nat.zero_testBit] at bit
  exact absurd bit (by decide)

section Entries

variable {memory : Memory} {cr3 va table frame : Nat}

/-- A walk along two entries that are present and writable. -/
theorem translate_tagged (tableWord : table < wordSize) (tableAligned : table % pageSize = 0)
    (frameWord : frame < wordSize) (frameAligned : frame % pageSize = 0)
    (directory : memory (slot (kernelAddress (cr3 &&& pageMask)) (pgdIndex va)) = table ||| 3)
    (entry : memory (slot (kernelAddress table) (pteIndex va)) = frame ||| 3) :
    translate memory cr3 va = some ⟨frame + va % pageSize, true⟩ := by
  have small : 3 < pageSize := by decide
  have writable := And.intro (tagged_writable table) (tagged_writable frame)
  unfold translate walk
  simp only [directory, mask_tagged tableWord tableAligned small, entry,
    mask_tagged frameWord frameAligned small, if_neg (tagged_present tableAligned),
    if_neg (tagged_present frameAligned), Option.map_some, decide_eq_true writable]

theorem translate_absent
    (directory : memory (slot (kernelAddress (cr3 &&& pageMask)) (pgdIndex va)) = 0) :
    translate memory cr3 va = none := by
  unfold translate walk
  simp only [directory, Nat.zero_and, if_true, Option.map_none]

end Entries

/-! ## What `kernel_main_init` leaves -/

theorem boot_entry_eq {j : Nat} (inside : j < 1024) : bootEntry j = j * pageSize ||| 3 := by
  have shifted : (j <<< 12) % wordSize = j * pageSize := by
    rw [Nat.shiftLeft_eq]
    apply Nat.mod_eq_of_lt
    rw [wordSize]
    omega
  rw [bootEntry, shifted, Nat.or_assoc]
  rfl

section Boot

variable (memory : Memory) {base index : Nat}

theorem fill_boot_tables_slot {count : Nat} (word : base < wordSize)
    (aligned : base % pageSize = 0) (inside : index < 1024) (bound : count ≤ 1024) :
    fillBootTables memory count (slot base index) =
      if (base = kernelAddress pt0 ∨ base = kernelAddress pt1) ∧ index < count then bootEntry index
      else memory (slot base index) := by
  induction count with
  | zero =>
      rw [if_neg (fun covered => Nat.not_lt_zero index covered.2)]
      rfl
  | succ i induction =>
      have written : ∀ table, table < wordSize → table % pageSize = 0 →
          (slot base index = slot table i ↔ base = table ∧ index = i) := by
        intro table tableWord tableAligned
        constructor
        · exact slot_injective word aligned inside tableWord tableAligned (by omega)
        · rintro ⟨sameBase, sameIndex⟩
          rw [sameBase, sameIndex]
      have first := written (kernelAddress pt0) (by decide) (by decide)
      have second := written (kernelAddress pt1) (by decide) (by decide)
      rw [fillBootTables, store, store, induction (by omega)]
      by_cases table : base = kernelAddress pt0 ∨ base = kernelAddress pt1
      · by_cases last : index = i
        · have here : slot base index = slot (kernelAddress pt1) i ∨
              slot base index = slot (kernelAddress pt0) i := by
            rcases table with inFirst | inSecond
            · exact Or.inr (first.mpr ⟨inFirst, last⟩)
            · exact Or.inl (second.mpr ⟨inSecond, last⟩)
          have covered : (base = kernelAddress pt0 ∨ base = kernelAddress pt1) ∧ index < i + 1 :=
            ⟨table, by omega⟩
          rw [if_pos covered]
          rcases here with inSecond | inFirst
          · rw [if_pos inSecond, last]
          · rw [if_pos inFirst, last, ite_self]
        · have earlier : index < i + 1 ↔ index < i := by omega
          rw [if_neg (fun same => last (second.mp same).2), if_neg (fun same => last (first.mp same).2)]
          simp only [earlier]
      · rw [if_neg (fun same => table (Or.inr (second.mp same).1)),
          if_neg (fun same => table (Or.inl (first.mp same).1)),
          if_neg (fun covered => table covered.1), if_neg (fun covered => table covered.1)]

/-- The pages of `kernel_main_init` as it leaves them. -/
structure BootTables (memory : Memory) : Prop where
  low : memory (slot (kernelAddress pgdTmp) 0) = pt0 ||| 3
  high : memory (slot (kernelAddress pgdTmp) (pgdIndex pageOffset)) = pt1 ||| 3
  first : ∀ j, j < 1024 → memory (slot (kernelAddress pt0) j) = bootEntry j
  second : ∀ j, j < 1024 → memory (slot (kernelAddress pt1) j) = bootEntry j

theorem boot_tables (memory : Memory) : BootTables (kernelMainInit memory).1 := by
  have entries : slot (kernelAddress pgdTmp) 0 ≠
      slot (kernelAddress pgdTmp) (pgdIndex pageOffset) := by decide
  have apart : ¬(kernelAddress pgdTmp = kernelAddress pt0 ∨
      kernelAddress pgdTmp = kernelAddress pt1) := by decide
  simp only [kernelMainInit]
  constructor
  · rw [fill_boot_tables_slot _ (by decide) (by decide) (by decide) (le_refl _),
      if_neg (fun covered => apart covered.1), store, if_neg entries, store, if_pos rfl]
    rfl
  · rw [fill_boot_tables_slot _ (by decide) (by decide) (by decide) (le_refl _),
      if_neg (fun covered => apart covered.1), store, if_pos rfl]
    rfl
  · intro j inside
    rw [fill_boot_tables_slot _ (by decide) (by decide) inside (le_refl _),
      if_pos ⟨Or.inl rfl, inside⟩]
  · intro j inside
    rw [fill_boot_tables_slot _ (by decide) (by decide) inside (le_refl _),
      if_pos ⟨Or.inr rfl, inside⟩]

/-- Pages of the image are not written. -/
theorem boot_elsewhere (word : base < wordSize) (aligned : base % pageSize = 0)
    (inside : index < 1024) (high : pageOffset + 0x100000 ≤ base) :
    (kernelMainInit memory).1 (slot base index) = memory (slot base index) := by
  have addresses : kernelAddress pgdTmp < pageOffset + 0x100000 ∧
      kernelAddress pt0 < pageOffset + 0x100000 ∧ kernelAddress pt1 < pageOffset + 0x100000 := by
    decide
  have apart : ∀ position, position < 1024 →
      slot base index ≠ slot (kernelAddress pgdTmp) position := by
    intro position small same
    have page := (slot_injective word aligned inside (by decide) (by decide) small same).1
    omega
  simp only [kernelMainInit]
  rw [fill_boot_tables_slot _ word aligned inside (le_refl _), if_neg (by omega), store,
    if_neg (apart _ (by decide)), store, if_neg (apart 0 (by decide))]

end Boot

/-! ## What `init_vmm` leaves -/

section Kernel

variable (image : PagingImage) (memory : Memory) {base index : Nat}

/-- Pages other than the directory and the tables are as they were. -/
theorem init_vmm_elsewhere (table : Nat) (word : base < wordSize)
    (aligned : base % pageSize = 0) (inside : index < 1024) (offDirectory : base ≠ image.pgdK)
    (offTables : ∀ i, i < kernelNormalZoneDirectorySize → base ≠ tableAddress image.tables i) :
    (initVmm memory image.pgdK image.tables table).1 (slot base index) =
      memory (slot base index) := by
  have tables : ∀ (before : Memory) count, count ≤ kernelNormalZoneDirectorySize →
      fillTables before image.tables count (slot base index) = before (slot base index) := by
    intro before count bound
    induction count with
    | zero => rfl
    | succ i induction =>
        have earlier : i < kernelNormalZoneDirectorySize := bound
        rw [fillTables, fill_entries_slot _ _ (image.table_address_lt i)
          (image.table_address_aligned earlier) (by omega) word aligned inside,
          if_neg (fun covered => offTables i earlier covered.1)]
        exact induction (Nat.le_of_succ_le bound)
  have first : pgdIndex pageOffset = 768 := by decide
  have count : kernelNormalZoneDirectorySize = 224 := by decide
  have apart : slot base index ≠ slot image.pgdK 0 := by
    intro same
    exact offDirectory
      (slot_injective word aligned inside image.pgd_lt image.pgd_aligned (by decide) same).1
  simp only [initVmm, first]
  rw [tables _ _ (le_refl _), store, if_neg apart,
    fill_entries_slot _ _ image.pgd_lt image.pgd_aligned (by omega) word aligned inside,
    if_neg (fun covered => offDirectory covered.1),
    fill_entries_slot _ _ image.pgd_lt image.pgd_aligned (by omega) word aligned inside,
    if_neg (fun covered => offDirectory covered.1)]

/-- The entries outside the linear mapping. -/
theorem init_vmm_directory_rest (table : Nat) (inside : index < 1024)
    (outside : index < 768 ∨ 768 + kernelNormalZoneDirectorySize ≤ index) :
    (initVmm memory image.pgdK image.tables table).1 (slot image.pgdK index) =
      if index = 0 then table ||| 3 else if index < 768 then 0 else memory (slot image.pgdK index) := by
  have first : pgdIndex pageOffset = 768 := by decide
  have count : kernelNormalZoneDirectorySize = 224 := by decide
  simp only [initVmm, first]
  rw [image.fill_tables_pgd _ inside (le_refl _), store]
  by_cases lowest : index = 0
  · rw [lowest, if_pos rfl, if_pos rfl, Nat.or_assoc]
    rfl
  · have apart : slot image.pgdK index ≠ slot image.pgdK 0 := by
      intro same
      exact lowest (slot_injective image.pgd_lt image.pgd_aligned inside image.pgd_lt
        image.pgd_aligned (by decide) same).2
    rw [if_neg apart, if_neg lowest,
      fill_entries_slot _ _ image.pgd_lt image.pgd_aligned (by omega) image.pgd_lt
        image.pgd_aligned inside, if_neg (by omega),
      fill_entries_slot _ _ image.pgd_lt image.pgd_aligned (by omega) image.pgd_lt
        image.pgd_aligned inside]
    simp only [true_and, Nat.zero_le, Nat.zero_add]

end Kernel

/-! ## Both directories -/

/-- The two windows of the temporary directory, each mapped to the lowest 4 MiB. -/
theorem window_indices {va : Nat} (word : va < wordSize) :
    (pgdIndex va = 0 ↔ va < 0x400000) ∧
      (pgdIndex va = pgdIndex pageOffset ↔ pageOffset ≤ va ∧ va < pageOffset + 0x400000) ∧
      (768 ≤ pgdIndex va ↔ pageOffset ≤ va) ∧
      (pgdIndex va < 768 + kernelNormalZoneDirectorySize ↔ va < 0xF8000000) := by
  have first : pgdIndex pageOffset = 768 := by decide
  have count : kernelNormalZoneDirectorySize = 224 := by decide
  have numbered := page_number_eq word
  rw [first, count, pageOffset]
  rw [pageSize] at numbered
  omega

section Directories

variable {memory : Memory} {cr3 va table : Nat}

/-- A walk through one of the two tables that `kernel_main_init` fills. -/
theorem translate_boot_table (word : va < wordSize) (tableWord : table < wordSize)
    (tableAligned : table % pageSize = 0)
    (directory : memory (slot (kernelAddress (cr3 &&& pageMask)) (pgdIndex va)) = table ||| 3)
    (entries : ∀ j, j < 1024 → memory (slot (kernelAddress table) j) = bootEntry j) :
    translate memory cr3 va = some ⟨va % 0x400000, true⟩ := by
  have numbered := page_number_eq word
  have entry := entries (pteIndex va) numbered.2.2
  rw [boot_entry_eq numbered.2.2] at entry
  have frameWord : pteIndex va * pageSize < wordSize := by
    rw [pageSize, wordSize]
    omega
  have linear : pteIndex va * pageSize + va % pageSize = va % 0x400000 := by
    rw [pageSize] at *
    omega
  rw [translate_tagged tableWord tableAligned frameWord (Nat.mul_mod_left _ _) directory entry,
    linear]

theorem translate_temporary (tables : BootTables memory) (word : va < wordSize)
    (mapped : TemporarilyMapped va) : translate memory pgdTmp va = kernelMapping va := by
  obtain ⟨low, high, -, -⟩ := window_indices word
  have cr3 : kernelAddress (pgdTmp &&& pageMask) = kernelAddress pgdTmp := by decide
  rcases mapped with lowest | highest
  · have below := low.mp lowest
    have directory := tables.low
    rw [← lowest, ← cr3] at directory
    rw [translate_boot_table word (by decide) (by decide) directory tables.first, kernelMapping,
      if_neg (by rw [pageOffset]; omega), if_pos below, Nat.mod_eq_of_lt below]
  · have window := high.mp highest
    have directory := tables.high
    rw [← highest, ← cr3] at directory
    have linear : va % 0x400000 = va - pageOffset := by
      rw [pageOffset] at *
      omega
    rw [translate_boot_table word (by decide) (by decide) directory tables.second, kernelMapping,
      if_pos ⟨window.1, by rw [pageOffset] at window; omega⟩, linear]

end Directories

section Final

variable (image : BootImage) {memory : Memory} {va : Nat}

/-- A page below the image is no page of `init_vmm`. -/
theorem init_vmm_low {base index : Nat} (word : base < wordSize) (aligned : base % pageSize = 0)
    (inside : index < 1024) (low : base < pageOffset + 0x100000) (table : Nat) :
    (initVmm memory image.pgdK image.tables table).1 (slot base index) =
      memory (slot base index) := by
  obtain ⟨highDirectory, highTables⟩ := image.linked_high
  apply init_vmm_elsewhere image.toPagingImage memory table word aligned inside
  · exact Nat.ne_of_lt (Nat.lt_of_lt_of_le low highDirectory)
  · intro i tableInside
    rw [image.table_address_eq tableInside]
    omega

theorem BootTables.kept (tables : BootTables memory) :
    BootTables (initVmm memory image.pgdK image.tables pt0).1 := by
  constructor
  · rw [init_vmm_low image (by decide) (by decide) (by decide) (by decide)]
    exact tables.low
  · rw [init_vmm_low image (by decide) (by decide) (by decide) (by decide)]
    exact tables.high
  · intro j inside
    rw [init_vmm_low image (by decide) (by decide) inside (by decide)]
    exact tables.first j inside
  · intro j inside
    rw [init_vmm_low image (by decide) (by decide) inside (by decide)]
    exact tables.second j inside

theorem table_physical_aligned (image : PagingImage) (i : Nat) :
    (image.tables + pageSize * i - pageOffset) % pageSize = 0 := by
  have linked := image.tables_linked.1
  have aligned := image.tables_aligned
  rw [pageOffset] at linked
  rw [pageSize] at aligned
  rw [pageSize, pageOffset]
  omega

theorem translate_linear (table : Nat) (high : pageOffset ≤ va) (below : va < 0xF8000000) :
    translate (initVmm memory image.pgdK image.tables table).1
      (initVmm memory image.pgdK image.tables table).2 va = some ⟨va - pageOffset, true⟩ := by
  obtain ⟨a, rfl⟩ := Nat.exists_eq_add_of_le' high
  have zone : a < kernelNormalZoneSize := by
    rw [pageOffset] at below
    rw [kernelNormalZoneSize]
    omega
  obtain ⟨index, position, inside⟩ := linear_indices zone
  have positionInside : a / pageSize % 1024 < 1024 := Nat.mod_lt _ (by decide)
  have linked := image.tables_linked.1
  have word := image.table_address_lt (a / 2 ^ 22)
  have aligned := image.table_address_aligned inside
  have directory : (initVmm memory image.pgdK image.tables table).1
      (slot (kernelAddress ((initVmm memory image.pgdK image.tables table).2 &&& pageMask))
        (pgdIndex (a + pageOffset))) =
      (image.tables + pageSize * (a / 2 ^ 22) - pageOffset) ||| 3 := by
    rw [init_vmm_cr3 image.toPagingImage memory table, index,
      init_vmm_directory image.toPagingImage memory table inside,
      directory_entry_eq image.toPagingImage inside]
  have entry := init_vmm_table image.toPagingImage memory table inside positionInside
  rw [image.table_address_eq inside] at word aligned entry
  rw [linear_entry_eq inside positionInside, ← position,
    ← kernel_address_sub word (by omega)] at entry
  have tableAligned := table_physical_aligned image.toPagingImage (a / 2 ^ 22)
  have frameWord : (a / 2 ^ 22 * 1024 + pteIndex (a + pageOffset)) * pageSize < wordSize := by
    rw [position, pageSize, wordSize]
    rw [kernelNormalZoneSize] at zone
    omega
  have linear : (a / 2 ^ 22 * 1024 + pteIndex (a + pageOffset)) * pageSize +
      (a + pageOffset) % pageSize = a + pageOffset - pageOffset := by
    rw [position, pageSize, pageOffset]
    omega
  rw [translate_tagged (by omega) tableAligned frameWord (Nat.mul_mod_left _ _) directory entry,
    linear]

/-- The kernel's directory after `kernel_main_init` and `init_vmm`. -/
theorem translate_kernel (zero : ∀ index, index < 1024 → memory (slot image.pgdK index) = 0)
    (word : va < wordSize) :
    translate (initVmm (kernelMainInit memory).1 image.pgdK image.tables pt0).1
      (initVmm (kernelMainInit memory).1 image.pgdK image.tables pt0).2 va = kernelMapping va := by
  obtain ⟨low, -, high, below⟩ := window_indices word
  obtain ⟨-, inside, -⟩ := page_number_eq word
  have tables := (boot_tables memory).kept image
  have cr3 := init_vmm_cr3 image.toPagingImage (kernelMainInit memory).1 pt0
  unfold kernelMapping
  split_ifs with linear lowest
  · exact translate_linear image pt0 linear.1 linear.2
  · have index := low.mpr lowest
    have directory := init_vmm_directory_rest image.toPagingImage (kernelMainInit memory).1 pt0
      inside (Or.inl (by omega))
    rw [if_pos index] at directory
    rw [translate_boot_table word (by decide) (by decide) (by rw [cr3, directory]) tables.first,
      Nat.mod_eq_of_lt lowest]
  · have directory := init_vmm_directory_rest image.toPagingImage (kernelMainInit memory).1 pt0
      inside (by omega)
    rw [if_neg (fun index => lowest (low.mp index)),
      boot_elsewhere memory image.pgd_lt image.pgd_aligned inside image.linked_high.1,
      zero _ inside, ite_self] at directory
    exact translate_absent (by rw [cr3, directory])

/-- The kernel's directory maps what it is meant to map, and loading it into `cr3`
changes no address of the temporary one. -/
theorem kernel_page_tables_linear
    (zero : ∀ index, index < 1024 → memory (slot image.pgdK index) = 0) (word : va < wordSize) :
    let boot := kernelMainInit memory
    let kernel := initVmm boot.1 image.pgdK image.tables pt0
    translate kernel.1 kernel.2 va = kernelMapping va ∧
      (TemporarilyMapped va → translate boot.1 boot.2 va = translate kernel.1 kernel.2 va ∧
        translate kernel.1 boot.2 va = translate kernel.1 kernel.2 va) := by
  intro boot kernel
  have mapped : translate kernel.1 kernel.2 va = kernelMapping va := translate_kernel image zero word
  refine ⟨mapped, ?_⟩
  intro temporary
  rw [mapped]
  exact ⟨translate_temporary (boot_tables memory) word temporary,
    translate_temporary ((boot_tables memory).kept image) word temporary⟩

end Final

def sampleBootImage : BootImage where
  pgdK := 0xC0130000
  tables := 0xC0131000
  pgd_aligned := by decide
  tables_aligned := by decide
  pgd_linked := by decide
  tables_linked := by decide
  apart := by decide
  linked_high := by decide

theorem kernel_page_tables_linear_sample :
    translate (initVmm (kernelMainInit fun _ => 0).1 0xC0130000 0xC0131000 pt0).1 0x130000
        0xC0123456 = some ⟨0x123456, true⟩ ∧
      translate (kernelMainInit fun _ => 0).1 pgdTmp 0xC0123456 = some ⟨0x123456, true⟩ := by
  have word : 0xC0123456 < wordSize := by decide
  obtain ⟨mapped, temporary⟩ := @kernel_page_tables_linear sampleBootImage (fun _ => 0) _
    (fun _ _ => rfl) word
  have value : kernelMapping 0xC0123456 = some ⟨0x123456, true⟩ := by decide
  rw [value] at mapped
  refine ⟨mapped, ?_⟩
  exact (temporary (Or.inr (by decide))).1.trans mapped

end ChaoOS.BootPageTables
