import ChaoOS.FrameTableRuns

/-!
# Which table entries the frame allocator touches

The log of table accesses only grows, in every function of the allocator. The
first block that initialisation places goes on an empty list, whose head is the
end mark, and the push writes the back link of that head without a test. Every
zone therefore starts its life with one write past its table. That entry is the
furthest a run goes whose releases find the links they trust repaired.
-/

namespace ChaoOS.FrameTableBounds

open ChaoOS.GuardedRun ChaoOS.FrameTableModel ChaoOS.FrameTableRuns

set_option autoImplicit false

/-! ## The log only grows -/

section Primitives

variable {log : List Nat} {mem : NormalMem}

theorem log_read (grows : log <:+ mem.accesses) (index : Nat) :
    log <:+ (mem.read index).accesses :=
  grows.trans (List.suffix_cons _ _)

theorem log_modify (grows : log <:+ mem.accesses) (index : Nat) (change : PageFrame → PageFrame) :
    log <:+ (mem.modify index change).accesses :=
  grows.trans (List.suffix_cons _ _)

theorem log_modify_inside (grows : log <:+ mem.accesses) (index : Nat)
    (change : PageFrame → PageFrame) : log <:+ (mem.modifyInside index change).accesses := by
  unfold NormalMem.modifyInside
  split_ifs
  · exact log_modify grows index change
  · exact grows

theorem log_set_free_list (grows : log <:+ mem.accesses) (level index : Nat) :
    log <:+ (mem.setFreeList level index).accesses :=
  grows

theorem log_bypass (grows : log <:+ mem.accesses) (level prev next : Nat) :
    log <:+ (mem.bypass level prev next).accesses := by
  unfold NormalMem.bypass
  split_ifs
  · exact log_set_free_list grows level next
  · exact log_modify grows prev _

end Primitives

section Functions

variable {log : List Nat} {mem : NormalMem}

theorem log_place_block (grows : log <:+ mem.accesses) (i level : Nat) :
    log <:+ (placeBlock mem i level).accesses := by
  unfold placeBlock
  apply log_set_free_list
  apply log_modify
  apply log_modify
  apply log_modify
  apply log_modify
  exact grows

theorem log_push_right (grows : log <:+ mem.accesses) (pageIndex current : Nat) :
    log <:+ (pushRight mem pageIndex current).accesses := by
  unfold pushRight
  apply log_set_free_list
  apply log_modify
  apply log_modify
  apply log_modify
  apply log_modify
  exact grows

theorem log_claim_block (grows : log <:+ mem.accesses) (pageIndex level : Nat) :
    log <:+ (claimBlock mem pageIndex level).accesses := by
  unfold claimBlock
  apply log_modify
  apply log_modify
  apply log_modify
  apply log_modify
  exact grows

theorem log_merge_buddy (grows : log <:+ mem.accesses) (level pageIndex buddyIndex : Nat) :
    log <:+ (mergeBuddy mem level pageIndex buddyIndex).accesses := by
  unfold mergeBuddy
  apply log_modify
  apply log_modify
  apply log_modify
  apply log_modify_inside
  apply log_bypass
  apply log_read
  exact grows

theorem log_release_block (grows : log <:+ mem.accesses) (pageIndex level : Nat) :
    log <:+ (releaseBlock mem pageIndex level).accesses := by
  unfold releaseBlock
  apply log_set_free_list
  apply log_modify
  apply log_modify_inside
  apply log_modify
  apply log_modify
  apply log_modify
  exact grows

theorem log_place_blocks (grows : log <:+ mem.accesses) (fuel i size level : Nat) :
    log <:+ (placeBlocks fuel i size level mem).accesses := by
  induction fuel generalizing i size level mem with
  | zero => exact grows
  | succ fuel induction =>
      rw [placeBlocks]
      split_ifs
      · apply induction
        apply log_place_block
        exact grows
      · exact grows

theorem log_split_block (grows : log <:+ mem.accesses) (level pageIndex current : Nat) :
    log <:+ (splitBlock level pageIndex current mem).accesses := by
  induction current generalizing mem with
  | zero => exact grows
  | succ current induction =>
      rw [splitBlock]
      split_ifs
      · apply induction
        apply log_push_right
        exact grows
      · exact grows

theorem log_coalesce (grows : log <:+ mem.accesses) (fuel pageIndex level : Nat) :
    log <:+ (coalesce fuel mem pageIndex level).1.accesses := by
  induction fuel generalizing mem pageIndex level with
  | zero => exact grows
  | succ fuel induction =>
      rw [coalesce]
      dsimp only
      split_ifs
      · apply induction
        apply log_merge_buddy
        exact log_read grows _
      · exact log_read grows _
      · exact grows

theorem log_get_block (grows : log <:+ mem.accesses) (level : Nat) :
    log <:+ (buddySystemGetFramePageBlock level mem).2.accesses := by
  unfold buddySystemGetFramePageBlock
  dsimp only
  split_ifs
  · exact grows
  · apply log_claim_block
    apply log_split_block
    apply log_set_free_list
    exact log_read grows _

theorem log_free_block (grows : log <:+ mem.accesses) (pageIndex : Nat) :
    log <:+ (buddySystemFreeFramePageBlock pageIndex mem).2.accesses := by
  unfold buddySystemFreeFramePageBlock
  dsimp only
  split_ifs
  · exact grows
  · exact log_read grows _
  · apply log_release_block
    apply log_coalesce
    exact log_read grows _

theorem log_frame_alloc (grows : log <:+ mem.accesses) {pages : Nat} {mem' : NormalMem}
    {result : Option Nat} (call : frameAlloc pages mem = some (result, mem')) :
    log <:+ mem'.accesses := by
  unfold frameAlloc at call
  rcases Option.bind_eq_some_iff.mp call with ⟨level, _, taken⟩
  have grown := log_get_block grows level
  rw [Option.some.inj taken] at grown
  exact grown

theorem log_physic_alloc (grows : log <:+ mem.accesses) {bytes address : Nat} {mem' : NormalMem}
    (call : physicAlloc bytes mem = some (address, mem')) : log <:+ mem'.accesses := by
  unfold physicAlloc at call
  rcases Option.bind_eq_some_iff.mp call with ⟨⟨result, middle⟩, frames, rest⟩
  have grown := log_frame_alloc grows frames
  cases result with
  | none =>
      cases rest
      exact grown
  | some index =>
      cases rest
      exact log_read grown index

end Functions

theorem log_client_step {log : List Nat} {client next : Client} {op : FrameOp}
    (grows : log <:+ client.mem.accesses) (call : clientStep client op = some next) :
    log <:+ next.mem.accesses := by
  cases op with
  | frameAlloc pages =>
      simp only [clientStep] at call
      split_ifs at call
      rcases Option.map_eq_some_iff.mp call with ⟨⟨result, mem'⟩, frames, same⟩
      rw [← same]
      exact log_frame_alloc grows frames
  | physicAlloc bytes =>
      simp only [clientStep] at call
      split_ifs at call
      rcases Option.map_eq_some_iff.mp call with ⟨⟨address, mem'⟩, frames, same⟩
      rw [← same]
      exact log_physic_alloc grows frames
  | frameFree block =>
      simp only [clientStep] at call
      split_ifs at call
      cases call
      apply log_free_block
      exact log_read grows block.1
  | physicFree block =>
      simp only [clientStep, physicFree] at call
      split_ifs at call
      · cases call
        exact grows
      · cases call
        exact log_free_block grows _

/-! ## The write past the table -/

/-- The push reads the list head and writes the back link of that entry. -/
theorem place_block_touches_head (mem : NormalMem) (i level : Nat) :
    mem.freeLists level :: i :: i :: i :: mem.accesses <:+ (placeBlock mem i level).accesses :=
  List.suffix_refl _

theorem init_touches_end (memBase framesNumber : Nat) (room : 0 < framesNumber) :
    framesNumber ∈ (initNormalMemZone memBase framesNumber).accesses := by
  have first : framesNumber :: 0 :: 0 :: 0 :: (clearedZone memBase framesNumber).accesses <:+
      (initNormalMemZone memBase framesNumber).accesses := by
    unfold initNormalMemZone
    generalize fuelled : framesNumber = fuel
    cases fuel with
    | zero => omega
    | succ fuel =>
        have nonempty : 0 < (clearedZone memBase (fuel + 1)).framesNumber := Nat.succ_pos fuel
        rw [placeBlocks, if_pos nonempty]
        apply log_place_blocks
        exact place_block_touches_head (clearedZone memBase (fuel + 1)) 0 _
  exact first.subset List.mem_cons_self

/-- No run at all stays inside the table: the first push of the initialisation
is already outside it. -/
theorem run_leaves_table (memBase framesNumber : Nat) (room : 1024 ≤ framesNumber)
    (ops : List FrameOp) (final : Client)
    (run : runFrom clientStep (freshClient memBase framesNumber) ops = some final) :
    ¬∀ index ∈ final.mem.accesses, index < framesNumber := by
  have preserved : ∀ client op next,
      (freshClient memBase framesNumber).mem.accesses <:+ client.mem.accesses →
      clientStep client op = some next →
      (freshClient memBase framesNumber).mem.accesses <:+ next.mem.accesses := by
    intro client op next grows call
    exact log_client_step grows call
  have grows := run_preserves preserved (List.suffix_refl _) run
  have touched := grows.subset (init_touches_end memBase framesNumber (by omega))
  intro inside
  exact Nat.lt_irrefl framesNumber (inside framesNumber touched)

/-- Further than that entry no run goes whose releases meet no stale first link. -/
theorem repaired_run_accesses (memBase framesNumber : Nat) (room : 1024 ≤ framesNumber)
    (bound : framesNumber ≤ 2 ^ 20) (ops : List FrameOp) (final : Client)
    (repaired : Permitted clientStep LinksRepaired (freshClient memBase framesNumber) ops)
    (run : runFrom clientStep (freshClient memBase framesNumber) ops = some final) :
    ∀ index ∈ final.mem.accesses, index ≤ framesNumber :=
  client_accesses (run_invariant (client_step_sound bound)
    (fresh_client_sound memBase framesNumber room bound) repaired run)

theorem run_leaves_table_sample : ∃ final,
    runFrom clientStep (freshClient 0x200000 1024) [.frameAlloc 1] = some final ∧
    ¬∀ index ∈ final.mem.accesses, index < 1024 := by
  have returns : (runFrom clientStep (freshClient 0x200000 1024) [.frameAlloc 1]).isSome := by
    decide +kernel
  rcases Option.isSome_iff_exists.mp returns with ⟨final, run⟩
  exact ⟨final, run, run_leaves_table 0x200000 1024 (by decide) _ final run⟩

/-- With no request at all the zone of 1024 frames has touched entry 1024. -/
theorem fresh_zone_leaves_table : ¬∀ memBase framesNumber, 1024 ≤ framesNumber →
    framesNumber ≤ 2 ^ 20 → ∀ ops final,
    runFrom clientStep (freshClient memBase framesNumber) ops = some final →
      ∀ index ∈ final.mem.accesses, index < framesNumber := by
  intro always
  have inside := always 0x200000 1024 (by decide) (by decide) [] _ rfl 1024
    (by decide +kernel)
  exact absurd inside (by decide)

end ChaoOS.FrameTableBounds
