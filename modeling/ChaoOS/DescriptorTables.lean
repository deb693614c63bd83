import ChaoOS.ByteMemory
import Mathlib.Logic.Function.Basic

/-!
# Segment and interrupt descriptors

`gdt.c` and the table part of `idt.c`: how the entries are filled in, and how
the processor reads the eight bytes of an entry back.
-/

namespace ChaoOS.DescriptorTables

open ChaoOS.ByteMemory

set_option autoImplicit false

/-! ## Entries -/

structure GdtEntry where
  limitLow : BitVec 16
  baseLow : BitVec 16
  baseMiddle : BitVec 8
  access : BitVec 8
  granularity : BitVec 8
  baseHigh : BitVec 8
  deriving DecidableEq

structure IdtEntry where
  baseLo : BitVec 16
  sel : BitVec 16
  always0 : BitVec 8
  flags : BitVec 8
  baseHi : BitVec 16
  deriving DecidableEq

/-- The structures are packed, the first field at the lowest address. -/
def GdtEntry.packed (entry : GdtEntry) : BitVec 64 :=
  entry.baseHigh ++ entry.granularity ++ entry.access ++ entry.baseMiddle ++ entry.baseLow ++
    entry.limitLow

def IdtEntry.packed (entry : IdtEntry) : BitVec 64 :=
  entry.baseHi ++ entry.flags ++ entry.always0 ++ entry.sel ++ entry.baseLo

/-- `GDT_LENGTH` -/
abbrev GdtEntries := Fin 5 → GdtEntry

abbrev IdtEntries := BitVec 8 → IdtEntry

def gdtEntry (base limit : Word) (access gran : BitVec 8) : GdtEntry :=
  { baseLow := (base &&& 0xFFFF).setWidth 16
    baseMiddle := ((base >>> 16) &&& 0xFF).setWidth 8
    baseHigh := ((base >>> 24) &&& 0xFF).setWidth 8
    limitLow := (limit &&& 0xFFFF).setWidth 16
    granularity := ((limit >>> 16) &&& 0x0F).setWidth 8 ||| (gran &&& 0xF0)
    access := access }

def gdtSetGate (entries : GdtEntries) (num : Fin 5) (base limit : Word) (access gran : BitVec 8) :
    GdtEntries :=
  Function.update entries num (gdtEntry base limit access gran)

def idtEntry (base : Word) (sel : BitVec 16) (flags : BitVec 8) : IdtEntry :=
  { baseLo := (base &&& 0xFFFF).setWidth 16
    baseHi := ((base >>> 16) &&& 0xFFFF).setWidth 16
    sel := sel
    always0 := 0
    flags := flags }

def idtSetGate (entries : IdtEntries) (num : BitVec 8) (base : Word) (sel : BitVec 16)
    (flags : BitVec 8) : IdtEntries :=
  Function.update entries num (idtEntry base sel flags)

/-- What `init_gdt` leaves in the table, whatever was there. -/
def initGdt (entries : GdtEntries) : GdtEntries :=
  let entries := gdtSetGate entries 0 0 0 0 0
  let entries := gdtSetGate entries 1 0 0xFFFFFFFF 0x9A 0xCF
  let entries := gdtSetGate entries 2 0 0xFFFFFFFF 0x92 0xCF
  let entries := gdtSetGate entries 3 0 0xFFFFFFFF 0xFA 0xCF
  gdtSetGate entries 4 0 0xFFFFFFFF 0xF2 0xCF

def zeroedEntry : IdtEntry := { baseLo := 0, sel := 0, always0 := 0, flags := 0, baseHi := 0 }

/-- The vectors that `init_idt` sets, in its order. -/
def gatedVectors : List (BitVec 8) := (List.range 48).map (BitVec.ofNat 8) ++ [255]

/-- The table after `init_idt`; `isr` has the addresses of the stubs. -/
def initIdt (isr : BitVec 8 → Word) : IdtEntries :=
  gatedVectors.foldl (fun entries num => idtSetGate entries num (isr num) 0x08 0x8E)
    fun _ => zeroedEntry

/-! ## How the processor reads them -/

def segmentBase (descriptor : BitVec 64) : Word :=
  descriptor.extractLsb' 56 8 ++ descriptor.extractLsb' 16 24

def limitField (descriptor : BitVec 64) : BitVec 20 :=
  descriptor.extractLsb' 48 4 ++ descriptor.extractLsb' 0 16

def accessByte (descriptor : BitVec 64) : BitVec 8 := descriptor.extractLsb' 40 8

/-- The last offset, in pages when the granularity bit is set. -/
def lastOffset (descriptor : BitVec 64) : Nat :=
  if descriptor.getLsbD 55 then (limitField descriptor).toNat * 4096 + 4095
  else (limitField descriptor).toNat

def presentBit (access : BitVec 8) : Bool := access.getLsbD 7

/-- A code or data segment, not a system descriptor. -/
def segmentBit (access : BitVec 8) : Bool := access.getLsbD 4

def codeBit (access : BitVec 8) : Bool := access.getLsbD 3

/-- The linear address of an offset in a segment. -/
def linearAddress (descriptor : BitVec 64) (offset : Word) : Option Word :=
  if presentBit (accessByte descriptor) ∧ segmentBit (accessByte descriptor) ∧
      offset.toNat ≤ lastOffset descriptor then
    some (segmentBase descriptor + offset)
  else none

def gateOffset (gate : BitVec 64) : Word := gate.extractLsb' 48 16 ++ gate.extractLsb' 0 16

def gateSelector (gate : BitVec 64) : BitVec 16 := gate.extractLsb' 16 16

/-- A 32-bit interrupt gate, the kind that clears the interrupt flag. -/
def interruptGate (access : BitVec 8) : Bool := access.extractLsb' 0 5 == 0b01110

/-- The descriptor of a selector; the two low bits are a privilege level and the
third one names the table. -/
def descriptorOf (gdt : GdtEntries) (selector : BitVec 16) : Option (BitVec 64) :=
  if selector.getLsbD 2 then none
  else if small : (selector >>> 3).toNat < 5 then some (gdt ⟨(selector >>> 3).toNat, small⟩).packed
  else none

/-- Where an interrupt leads: the new code selector and offset, with the linear
address of the first instruction. -/
def interruptTarget (gdt : GdtEntries) (idt : IdtEntries) (number : BitVec 8) :
    Option (BitVec 16 × Word × Word) := do
  let gate := (idt number).packed
  if presentBit (accessByte gate) && interruptGate (accessByte gate) then
    let descriptor ← descriptorOf gdt (gateSelector gate)
    if codeBit (accessByte descriptor) then
      let address ← linearAddress descriptor (gateOffset gate)
      some (gateSelector gate, gateOffset gate, address)
    else none
  else none

/-! ## Reading back what was filled in -/

theorem masked_half (value : Word) : (value &&& 0xFFFF).setWidth 16 = value.extractLsb' 0 16 := by
  apply BitVec.eq_of_toNat_eq
  have mask : (0xFFFF : Word).toNat = 2 ^ 16 - 1 := rfl
  rw [BitVec.toNat_setWidth, BitVec.toNat_and, mask, Nat.and_two_pow_sub_one_eq_mod, Nat.mod_mod]
  simp

theorem masked_byte (value : Word) (count : Nat) :
    ((value >>> count) &&& 0xFF).setWidth 8 = value.extractLsb' count 8 := by
  apply BitVec.eq_of_toNat_eq
  have mask : (0xFF : Word).toNat = 2 ^ 8 - 1 := rfl
  rw [BitVec.toNat_setWidth, BitVec.toNat_and, mask, Nat.and_two_pow_sub_one_eq_mod, Nat.mod_mod]
  simp

theorem segment_base_packed (base limit : Word) (access gran : BitVec 8) :
    segmentBase (gdtEntry base limit access gran).packed = base := by
  apply BitVec.eq_of_getLsbD_eq
  intro bit small
  simp only [segmentBase, gdtEntry, GdtEntry.packed, masked_half, masked_byte,
    BitVec.getLsbD_append, BitVec.getLsbD_extractLsb']
  grind

/-- The high limit bits and the flags share a byte. -/
theorem granularity_bits (limit : Word) (gran : BitVec 8) {bit : Nat} (small : bit < 8) :
    (((limit >>> 16) &&& 0x0F).setWidth 8 ||| (gran &&& 0xF0)).getLsbD bit =
      if bit < 4 then limit.getLsbD (16 + bit) else gran.getLsbD bit := by
  have low : ∀ place < 8, (0x0F : Word).getLsbD place = decide (place < 4) := by decide
  have high : ∀ place < 8, (0xF0 : BitVec 8).getLsbD place = decide (4 ≤ place) := by decide
  simp only [BitVec.getLsbD_or, BitVec.getLsbD_setWidth, BitVec.getLsbD_and,
    BitVec.getLsbD_ushiftRight, low bit small, high bit small]
  grind

theorem limit_field_packed (base limit : Word) (access gran : BitVec 8) :
    limitField (gdtEntry base limit access gran).packed = limit.extractLsb' 0 20 := by
  apply BitVec.eq_of_getLsbD_eq
  intro bit small
  have field := @granularity_bits limit gran
  simp only [limitField, gdtEntry, GdtEntry.packed, masked_half, BitVec.getLsbD_append,
    BitVec.getLsbD_extractLsb']
  grind

theorem access_byte_packed (base limit : Word) (access gran : BitVec 8) :
    accessByte (gdtEntry base limit access gran).packed = access := by
  apply BitVec.eq_of_getLsbD_eq
  intro bit small
  simp only [accessByte, gdtEntry, GdtEntry.packed, BitVec.getLsbD_append,
    BitVec.getLsbD_extractLsb']
  grind

theorem granular_packed (base limit : Word) (access gran : BitVec 8) :
    (gdtEntry base limit access gran).packed.getLsbD 55 = gran.getLsbD 7 := by
  have field := @granularity_bits limit gran 7 (by decide)
  simp only [gdtEntry, GdtEntry.packed, BitVec.getLsbD_append]
  grind

theorem gate_offset_packed (base : Word) (sel : BitVec 16) (flags : BitVec 8) :
    gateOffset (idtEntry base sel flags).packed = base := by
  have high : ((base >>> 16) &&& 0xFFFF).setWidth 16 = base.extractLsb' 16 16 := by
    rw [masked_half]
    apply BitVec.eq_of_getLsbD_eq
    intro bit small
    simp only [BitVec.getLsbD_extractLsb', BitVec.getLsbD_ushiftRight]
    grind
  apply BitVec.eq_of_getLsbD_eq
  intro bit small
  simp only [gateOffset, idtEntry, IdtEntry.packed, masked_half, high, BitVec.getLsbD_append,
    BitVec.getLsbD_extractLsb']
  grind

theorem gate_selector_packed (base : Word) (sel : BitVec 16) (flags : BitVec 8) :
    gateSelector (idtEntry base sel flags).packed = sel := by
  apply BitVec.eq_of_getLsbD_eq
  intro bit small
  simp only [gateSelector, idtEntry, IdtEntry.packed, BitVec.getLsbD_append,
    BitVec.getLsbD_extractLsb']
  grind

theorem gate_access_packed (base : Word) (sel : BitVec 16) (flags : BitVec 8) :
    accessByte (idtEntry base sel flags).packed = flags := by
  apply BitVec.eq_of_getLsbD_eq
  intro bit small
  simp only [accessByte, idtEntry, IdtEntry.packed, BitVec.getLsbD_append,
    BitVec.getLsbD_extractLsb']
  grind
/-! ## The tables of the kernel -/

theorem last_offset_packed (base limit : Word) (access gran : BitVec 8) :
    lastOffset (gdtEntry base limit access gran).packed =
      if gran.getLsbD 7 then limit.toNat % 2 ^ 20 * 4096 + 4095 else limit.toNat % 2 ^ 20 := by
  rw [lastOffset, granular_packed, limit_field_packed]
  simp

/-- A present segment with all of the limit's low bits set, counted in pages, is
flat: offsets are linear addresses. -/
theorem flat_segment {access gran : BitVec 8} (present : presentBit access)
    (segment : segmentBit access) (granular : gran.getLsbD 7) (offset : Word) :
    linearAddress (gdtEntry 0 0xFFFFFFFF access gran).packed offset = some offset := by
  have bound := offset.isLt
  have reach : offset.toNat ≤ lastOffset (gdtEntry 0 0xFFFFFFFF access gran).packed := by
    rw [last_offset_packed, if_pos granular]
    have value : (0xFFFFFFFF : Word).toNat % 2 ^ 20 * 4096 + 4095 = 2 ^ 32 - 1 := by decide
    omega
  rw [linearAddress, access_byte_packed, if_pos ⟨present, segment, reach⟩, segment_base_packed]
  exact congrArg some (BitVec.zero_add offset)

theorem kernel_code_descriptor (entries : GdtEntries) :
    descriptorOf (initGdt entries) 0x08 = some (gdtEntry 0 0xFFFFFFFF 0x9A 0xCF).packed := by
  have index : ((0x08 : BitVec 16) >>> 3).toNat < 5 := by decide
  rw [descriptorOf, if_neg (by decide), dif_pos index]
  rfl

/-- Filling in a list of gates leaves the others. -/
theorem fold_set_gate (isr : BitVec 8 → Word) (number : BitVec 8) :
    ∀ (vectors : List (BitVec 8)) (entries : IdtEntries),
      vectors.foldl (fun entries num => idtSetGate entries num (isr num) 0x08 0x8E) entries number =
        if number ∈ vectors then idtEntry (isr number) 0x08 0x8E else entries number := by
  intro vectors
  induction vectors with
  | nil => intro entries; simp
  | cons first rest induction =>
      intro entries
      rw [List.foldl_cons, induction]
      by_cases later : number ∈ rest
      · rw [if_pos later, if_pos (List.mem_cons_of_mem _ later)]
      · rw [if_neg later]
        by_cases here : number = first
        · subst here
          rw [if_pos List.mem_cons_self]
          exact Function.update_self _ _ _
        · rw [if_neg (by simp [here, later])]
          exact Function.update_of_ne here _ _

theorem init_idt_entry (isr : BitVec 8 → Word) (number : BitVec 8) :
    initIdt isr number =
      if number ∈ gatedVectors then idtEntry (isr number) 0x08 0x8E else zeroedEntry :=
  fold_set_gate isr number gatedVectors _

theorem mem_gated_vectors {number : BitVec 8} :
    number ∈ gatedVectors ↔ number.toNat < 48 ∨ number = 255 := by
  rw [gatedVectors, List.mem_append, List.mem_map, List.mem_singleton]
  constructor
  · rintro (⟨index, inside, rfl⟩ | last)
    · rw [List.mem_range] at inside
      left
      rw [BitVec.toNat_ofNat]
      omega
    · exact Or.inr last
  · rintro (small | last)
    · exact Or.inl ⟨number.toNat, List.mem_range.mpr small, by simp⟩
    · exact Or.inr last

/-- Every gate that `init_idt` fills in leads through the kernel's code segment
to the stub of its vector; no other vector leads anywhere. -/
theorem interrupt_target (entries : GdtEntries) (isr : BitVec 8 → Word) (number : BitVec 8) :
    interruptTarget (initGdt entries) (initIdt isr) number =
      if number.toNat < 48 ∨ number = 255 then some (0x08, isr number, isr number) else none := by
  rw [interruptTarget, init_idt_entry]
  simp only [mem_gated_vectors]
  by_cases gated : number.toNat < 48 ∨ number = 255
  · have gate : presentBit 0x8E && interruptGate 0x8E := by decide
    have code : codeBit (0x9A : BitVec 8) := by decide
    rw [if_pos gated, if_pos gated, gate_access_packed, if_pos gate, gate_selector_packed,
      gate_offset_packed, kernel_code_descriptor]
    simp only [Option.bind_eq_bind, Option.bind_some, access_byte_packed, code, if_true]
    rw [flat_segment (by decide) (by decide) (by decide)]
    rfl
  · have closed : ¬(presentBit (accessByte zeroedEntry.packed) &&
        interruptGate (accessByte zeroedEntry.packed)) := by decide
    rw [if_neg gated, if_neg gated, if_neg closed]

end ChaoOS.DescriptorTables
