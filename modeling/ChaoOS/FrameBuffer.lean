import ChaoOS.PagingRuns
import ChaoOS.TerminalScreen

/-!
# The frame buffer in the address space

`init_vbe` maps the pages of the video memory to themselves with one call of
`map` a page. The tables this takes come from the pool, so the buddy system may
be called in between.
-/

namespace ChaoOS.FrameBuffer

open ChaoOS.KernelMath ChaoOS.GuardedRun ChaoOS.PageDirectory ChaoOS.KernelPageTables
open ChaoOS.BootPageTables ChaoOS.AddressSpace ChaoOS.ZoneLayout ChaoOS.PagingRuns
open ChaoOS.FrameTableModel (pageFrameSize)
open ChaoOS.TerminalModel (Mode vramSize)
open ChaoOS.TerminalScreen (smallMode)

set_option autoImplicit false

/-- The mapping loop of `init_vbe`. -/
def frameBufferMaps (vram pages : Nat) : List PagingOp :=
  (List.range pages).map fun i =>
    let address := add32 vram (mul32 i pageSize)
    .map address address kernelFlags

def changesTables : PagingOp → Bool
  | .map _ _ _ => true
  | .unmap _ => true
  | .frames _ => false
  | .write _ _ => false

/-- What the kernel can reach once the loop is through. -/
def screenMapping (vram pages va : Nat) : Option Translation :=
  if Linear va then some ⟨va - pageOffset, true⟩
  else if vram / pageSize ≤ va / pageSize ∧ va / pageSize < vram / pageSize + pages then
    some ⟨va, true⟩
  else none

/-! ## The space after the loop -/

/-- Tables carry the kernel's flags, and mapped pages have one. -/
structure KernelTables (space : Space) : Prop where
  flags : ∀ k flags, space.table k = some flags → flags = kernelFlags
  covered : ∀ va, space.page (va / pageSize) ≠ none → va < wordSize →
    space.table (pgdIndex va) ≠ none

theorem page_indices {va other : Nat} (word : va < wordSize) (otherWord : other < wordSize)
    (same : va / pageSize = other / pageSize) : pgdIndex va = pgdIndex other := by
  have numbered := page_number_eq word
  have otherNumbered := page_number_eq otherWord
  omega

theorem kernel_space_tables : KernelTables kernelSpace := by
  constructor
  case flags =>
    intro k flags found
    unfold kernelSpace at found
    dsimp only at found
    split_ifs at found
    exact (Option.some.inj found).symm
  case covered =>
    intro va found word
    have numbered := page_number_eq word
    have inside : 768 * 1024 ≤ va / pageSize ∧ va / pageSize < 992 * 1024 := by
      by_contra outside
      exact found (if_neg outside)
    have index : 768 ≤ pgdIndex va ∧ pgdIndex va < 992 := by omega
    unfold kernelSpace
    dsimp only
    rw [if_pos index]
    exact Option.some_ne_none kernelFlags

theorem KernelTables.mapped {space : Space} (tables : KernelTables space) {va : Nat}
    (word : va < wordSize) (pa : Nat) : KernelTables (space.mapped va pa kernelFlags) := by
  constructor
  case flags =>
    intro k flags found
    unfold Space.mapped at found
    dsimp only at found
    by_cases here : k = pgdIndex va
    · rw [here, Function.update_self] at found
      cases before : space.table (pgdIndex va) with
      | none =>
          rw [before] at found
          exact (Option.some.inj found).symm
      | some upper =>
          rw [before] at found
          rw [← Option.some.inj found]
          exact tables.flags _ upper before
    · rw [Function.update_of_ne here] at found
      exact tables.flags k flags found
  case covered =>
    intro other found otherWord
    unfold Space.mapped at found ⊢
    dsimp only at found ⊢
    by_cases here : pgdIndex other = pgdIndex va
    · rw [here, Function.update_self]
      exact Option.some_ne_none _
    · have page : other / pageSize ≠ va / pageSize := fun same =>
        here (page_indices otherWord word same)
      rw [Function.update_of_ne page] at found
      rw [Function.update_of_ne here]
      exact tables.covered other found otherWord

/-- A mapped page translates to its frame, writable. -/
theorem KernelTables.translation {space : Space} (tables : KernelTables space) {va : Nat}
    (word : va < wordSize) (pa : Nat) (found : space.page (va / pageSize) =
      some (entryFor pa kernelFlags)) :
    space.translation va = some ⟨(pa &&& pageMask) + va % pageSize, true⟩ := by
  have present : space.page (va / pageSize) ≠ none := by
    rw [found]
    exact Option.some_ne_none _
  obtain ⟨upper, table⟩ := Option.ne_none_iff_exists'.mp (tables.covered va present word)
  have writable : kernelFlags.writable = true := by decide
  rw [Space.translation, found, Option.bind_some, table, Option.map_some, tables.flags _ upper table]
  simp only [entryFor, writable, Bool.and_self]

/-- The addresses of the loop do not wrap around. -/
theorem frame_buffer_address {vram pages i : Nat} (fits : vram + pages * pageSize ≤ wordSize)
    (inside : i < pages) : add32 vram (mul32 i pageSize) = vram + i * pageSize ∧
      vram + i * pageSize < wordSize := by
  rw [pageSize, wordSize] at *
  have small : mul32 i 4096 = i * 4096 := by
    apply Nat.mod_eq_of_lt
    rw [wordSize]
    omega
  refine ⟨?_, by omega⟩
  rw [small, add32_of_lt]
  rw [wordSize]
  omega

theorem frame_buffer_pages {vram pages : Nat} (fits : vram + pages * pageSize ≤ wordSize) :
    let space := (frameBufferMaps vram pages).foldl notePaging kernelSpace
    KernelTables space ∧ ∀ n, space.page n =
      if vram / pageSize ≤ n ∧ n < vram / pageSize + pages then
        some (entryFor (n * pageSize) kernelFlags)
      else kernelSpace.page n := by
  induction pages with
  | zero =>
      refine ⟨kernel_space_tables, fun n => ?_⟩
      rw [if_neg (by omega)]
      rfl
  | succ count induction =>
      have fewer : vram + count * pageSize ≤ wordSize := by
        rw [Nat.succ_mul] at fits
        omega
      obtain ⟨tables, pages⟩ := induction fewer
      obtain ⟨address, word⟩ := frame_buffer_address fits (Nat.lt_succ_self count)
      have last : frameBufferMaps vram (count + 1) = frameBufferMaps vram count ++
          [.map (vram + count * pageSize) (vram + count * pageSize) kernelFlags] := by
        rw [frameBufferMaps, List.range_succ, List.map_append, List.map_singleton, address]
        rfl
      have number : (vram + count * pageSize) / pageSize = vram / pageSize + count :=
        Nat.add_mul_div_right _ _ (by decide)
      have entry : entryFor (vram + count * pageSize) kernelFlags =
          entryFor ((vram / pageSize + count) * pageSize) kernelFlags := by
        have masked : (vram + count * pageSize) &&& pageMask =
            (vram / pageSize + count) * pageSize &&& pageMask := by
          rw [page_mask_eq, page_mask_eq, number, Nat.mul_div_cancel _ (by decide)]
        simp only [entryFor, masked]
      rw [last, List.foldl_append]
      refine ⟨tables.mapped word _, fun n => ?_⟩
      change Function.update _ _ _ n = _
      rw [number]
      by_cases newest : n = vram / pageSize + count
      · rw [newest, Function.update_self, if_pos (by omega), entry]
      · have same : (vram / pageSize ≤ n ∧ n < vram / pageSize + (count + 1)) ↔
            (vram / pageSize ≤ n ∧ n < vram / pageSize + count) := by omega
        rw [Function.update_of_ne newest, pages n]
        simp only [same]

/-- Only `map` and `unmap` change the space. -/
theorem fold_mappings (ops : List PagingOp) (space : Space) :
    ops.foldl notePaging space = (ops.filter changesTables).foldl notePaging space := by
  induction ops generalizing space with
  | nil => rfl
  | cons op rest induction =>
      cases op with
      | map va pa flags =>
          rw [List.filter_cons_of_pos rfl]
          exact induction _
      | unmap va =>
          rw [List.filter_cons_of_pos rfl]
          exact induction _
      | frames op =>
          rw [List.filter_cons_of_neg (Bool.false_ne_true)]
          exact induction _
      | write address value =>
          rw [List.filter_cons_of_neg (Bool.false_ne_true)]
          exact induction _

theorem linear_page_address {va : Nat} (linear : Linear va) :
    (va / pageSize - 768 * 1024) * pageSize + va % pageSize = va - pageOffset := by
  obtain ⟨low, -⟩ := linear
  rw [pageOffset] at low ⊢
  rw [pageSize]
  omega

theorem screen_space {vram pages va : Nat} (fits : vram + pages * pageSize ≤ wordSize)
    (apart : ∀ i, i < pages → ¬Linear (vram + i * pageSize)) (word : va < wordSize) :
    ((frameBufferMaps vram pages).foldl notePaging kernelSpace).translation va =
      screenMapping vram pages va := by
  obtain ⟨tables, page⟩ := frame_buffer_pages fits
  have here := page (va / pageSize)
  have masked : ∀ {number}, number * pageSize < wordSize →
      number * pageSize &&& pageMask = number * pageSize := by
    intro number small
    have tagged := mask_tagged small (Nat.mul_mod_left _ _) (show 0 < pageSize by decide)
    rw [Nat.or_zero] at tagged
    exact tagged
  have below : va / pageSize * pageSize < wordSize :=
    Nat.lt_of_le_of_lt (Nat.div_mul_le_self _ _) word
  unfold screenMapping
  by_cases linear : Linear va
  · have outside : ¬(vram / pageSize ≤ va / pageSize ∧ va / pageSize < vram / pageSize + pages) := by
      intro covered
      apply apart (va / pageSize - vram / pageSize) (by omega)
      obtain ⟨low, high⟩ := linear
      unfold Linear
      rw [pageOffset, pageSize] at *
      omega
    have kernel : 768 * 1024 ≤ va / pageSize ∧ va / pageSize < 992 * 1024 := by
      obtain ⟨low, high⟩ := linear
      rw [pageOffset] at low
      rw [pageSize]
      omega
    rw [if_neg outside] at here
    have small : (va / pageSize - 768 * 1024) * pageSize < wordSize :=
      Nat.lt_of_le_of_lt (Nat.mul_le_mul_right pageSize (Nat.sub_le _ _)) below
    have address := linear_page_address linear
    rw [if_pos linear, tables.translation word _ (here.trans (if_pos kernel)), masked small, address]
  · rw [if_neg linear]
    by_cases covered : vram / pageSize ≤ va / pageSize ∧ va / pageSize < vram / pageSize + pages
    · rw [if_pos covered] at here
      rw [if_pos covered, tables.translation word _ here, masked below, Nat.div_add_mod']
    · have unmapped : ¬(768 * 1024 ≤ va / pageSize ∧ va / pageSize < 992 * 1024) := by
        intro kernel
        apply linear
        unfold Linear
        rw [pageOffset]
        rw [pageSize] at kernel
        omega
      rw [if_neg covered] at here
      rw [if_neg covered, Space.translation, here.trans (if_neg unmapped), Option.bind_none]

section Boot

variable (image : BootImage) {memory : Memory} {K E : Nat}

end Boot

end ChaoOS.FrameBuffer
