import ChaoOS.ByteMemory
import ChaoOS.KernelMath
import Mathlib.Data.List.TakeWhile

/-!
# The walk over the multiboot memory map

An entry of the map starts with its own size, which does not count the size
field. The loop of `init_normal_mem_zone` goes on by `sizeof(mmap_entry_t)`
instead, which is right for entries of size 20. The starts it inspects and the
words it reads are kept in a log.
-/

namespace ChaoOS.MultibootMap

open ChaoOS.ByteMemory ChaoOS.KernelMath

set_option autoImplicit false

/-- `sizeof(mmap_entry_t)` -/
def entrySize : Nat := 24

section Fields

variable (memory : Memory) (mmap : Nat)

def size : Nat := (load memory (add32 mmap 0)).toNat

def baseAddrLow : Word := load memory (add32 mmap 4)

def baseAddrHigh : Word := load memory (add32 mmap 8)

def lengthLow : Word := load memory (add32 mmap 12)

def lengthHigh : Word := load memory (add32 mmap 16)

def type : Word := load memory (add32 mmap 20)

/-- The test of the loop. -/
def Usable : Prop := baseAddrLow memory mmap = 0x100000 ∧ type memory mmap = 1

instance : Decidable (Usable memory mmap) := inferInstanceAs (Decidable (_ ∧ _))

/-- `end_addr` of a usable entry. -/
def endAddr : Word :=
  let baseAddr := (baseAddrHigh memory mmap <<< 16) + baseAddrLow memory mmap
  let length := (lengthHigh memory mmap <<< 16) + lengthLow memory mmap
  baseAddr + length

/-- The addresses of the words that one round reads: the type only after the base
address has matched, the other fields only of a usable entry. -/
def fieldsRead : List Nat :=
  add32 mmap 4 ::
    (if baseAddrLow memory mmap = 0x100000 then
      add32 mmap 20 ::
        (if type memory mmap = 1 then [add32 mmap 8, add32 mmap 4, add32 mmap 16, add32 mmap 12]
        else [])
    else [])

end Fields

structure Log where
  inspected : List Nat
  reads : List Nat
  endAddr : Option Word

/-- The loop from `mmap` on; `none` when it is longer than the fuel. -/
def walkMap (memory : Memory) (stop : Nat) : Nat → Nat → Option Log
  | 0, _ => none
  | fuel + 1, mmap =>
      if mmap < stop then
        if Usable memory mmap then
          some ⟨[mmap], fieldsRead memory mmap, some (endAddr memory mmap)⟩
        else
          (walkMap memory stop fuel (add32 mmap entrySize)).map fun log =>
            { log with
              inspected := mmap :: log.inspected
              reads := fieldsRead memory mmap ++ log.reads }
      else some ⟨[], [], none⟩

/-- The loop over a map at `mmapAddr` of `mmapLength` bytes. -/
def inspectMap (memory : Memory) (mmapAddr mmapLength : Nat) : Option Log :=
  walkMap memory (add32 mmapAddr mmapLength) wordSize mmapAddr

/-! ## The format -/

/-- The entries from `start` to `stop`, by their starts. -/
def Entries (memory : Memory) (stop : Nat) : Nat → List Nat → Prop
  | start, [] => start = stop
  | start, first :: rest =>
      first = start ∧ 20 ≤ size memory first ∧
        Entries memory stop (first + 4 + size memory first) rest

instance decidableEntries (memory : Memory) (stop : Nat) :
    (start : Nat) → (starts : List Nat) → Decidable (Entries memory stop start starts)
  | start, [] => inferInstanceAs (Decidable (start = stop))
  | start, first :: rest =>
      have := decidableEntries memory stop (first + 4 + size memory first) rest
      inferInstanceAs (Decidable (first = start ∧ 20 ≤ size memory first ∧ _))

/-- The entries before the first usable one. -/
def unusable (memory : Memory) (starts : List Nat) : List Nat :=
  starts.takeWhile fun start => ¬Usable memory start

/-- The starts up to the first usable entry. -/
def upToUsable (memory : Memory) : List Nat → List Nat
  | [] => []
  | first :: rest => if Usable memory first then [first] else first :: upToUsable memory rest

/-- The loop ends, has inspected exactly these entries, and has read nothing that
does not lie in the map. -/
structure WalksEntries (memory : Memory) (mmapAddr mmapLength : Nat) (starts : List Nat)
    (log : Log) : Prop where
  inspected : log.inspected = upToUsable memory starts
  inside : ∀ address ∈ log.reads, mmapAddr ≤ address ∧ address + 4 ≤ mmapAddr + mmapLength

section Walk

variable {memory : Memory} {start stop fuel : Nat} {starts : List Nat}

theorem entries_bounds (entries : Entries memory stop start starts) :
    start + entrySize * starts.length ≤ stop := by
  induction starts generalizing start with
  | nil => exact Nat.le_of_eq entries
  | cons first rest induction =>
      obtain ⟨same, large, tail⟩ := entries
      have later := induction tail
      rw [List.length_cons]
      unfold entrySize at *
      omega

/-- A round reads the fields in one order and stops early or not. -/
theorem fields_read_in_order :
    fieldsRead memory start <+: [4, 20, 8, 4, 16, 12].map (add32 start) := by
  unfold fieldsRead
  split_ifs
  · exact ⟨[], rfl⟩
  · exact ⟨[8, 4, 16, 12].map (add32 start), rfl⟩
  · exact ⟨[20, 8, 4, 16, 12].map (add32 start), rfl⟩

theorem fields_read_cases {address : Nat} (member : address ∈ fieldsRead memory start) :
    ∃ offset ≤ 20, address = add32 start offset := by
  obtain ⟨offset, known, same⟩ := List.mem_map.mp (fields_read_in_order.subset member)
  have small : ∀ offset ∈ [4, 20, 8, 4, 16, 12], offset ≤ 20 := by decide
  exact ⟨offset, small offset known, same.symm⟩

/-- A whole entry is read inside the map. -/
theorem fields_read_inside (small : stop < wordSize) (whole : start + entrySize ≤ stop) :
    ∀ address ∈ fieldsRead memory start, start ≤ address ∧ address + 4 ≤ stop := by
  intro address member
  obtain ⟨offset, inside, same⟩ := fields_read_cases member
  unfold entrySize at whole
  rw [same, add32_of_lt (by omega)]
  omega

/-- The first round of the loop. -/
theorem walk_round {log : Log} (below : start < stop)
    (walk : walkMap memory stop fuel start = some log) :
    if Usable memory start then
      log = ⟨[start], fieldsRead memory start, some (endAddr memory start)⟩
    else
      ∃ shorter later, walkMap memory stop shorter (add32 start entrySize) = some later ∧
        log.inspected = start :: later.inspected := by
  cases fuel with
  | zero => cases walk
  | succ fuel =>
      rw [walkMap, if_pos below] at walk
      split_ifs at walk ⊢ with usable
      · exact (Option.some.inj walk).symm
      · obtain ⟨later, there, same⟩ := Option.map_eq_some_iff.mp walk
        exact ⟨fuel, later, there, by rw [← same]⟩

theorem walk_starts {log : Log} (below : start < stop)
    (walk : walkMap memory stop fuel start = some log) : ∃ rest, log.inspected = start :: rest := by
  have round := walk_round below walk
  split_ifs at round
  · exact ⟨[], by rw [round]⟩
  · obtain ⟨-, later, -, split⟩ := round
    exact ⟨later.inspected, split⟩

theorem up_to_usable_starts (entries : Entries memory stop start starts) :
    ∀ first ∈ (upToUsable memory starts).head?, first = start := by
  cases starts with
  | nil => simp [upToUsable]
  | cons first rest =>
      have same := entries.1
      rw [upToUsable]
      split_ifs
      · simp [same]
      · simp [same]

/-- Entries of size 20 are walked one by one. -/
theorem walk_entries (small : stop < wordSize) (entries : Entries memory stop start starts)
    (standard : ∀ entry ∈ unusable memory starts, size memory entry = 20)
    (enough : starts.length < fuel) :
    ∃ log, walkMap memory stop fuel start = some log ∧ log.inspected = upToUsable memory starts ∧
      (∀ address ∈ log.reads, start ≤ address ∧ address + 4 ≤ stop) ∧
      log.endAddr = (starts.find? fun entry => Usable memory entry).map (endAddr memory) := by
  induction starts generalizing start fuel with
  | nil =>
      obtain ⟨fuel, rfl⟩ := Nat.exists_eq_succ_of_ne_zero (Nat.ne_of_gt enough)
      have ended : ¬start < stop := Nat.not_lt_of_le (Nat.le_of_eq entries.symm)
      exact ⟨⟨[], [], none⟩, by rw [walkMap, if_neg ended], rfl, by simp, rfl⟩
  | cons first rest induction =>
      obtain ⟨fuel, rfl⟩ := Nat.exists_eq_succ_of_ne_zero (Nat.ne_of_gt (Nat.zero_lt_of_lt enough))
      have bounds := entries_bounds entries
      obtain ⟨same, -, tail⟩ := entries
      subst same
      rw [List.length_cons] at bounds enough
      have whole : first + entrySize ≤ stop := by
        unfold entrySize at *
        omega
      have below : first < stop := Nat.lt_of_lt_of_le (Nat.lt_add_of_pos_right (by decide)) whole
      have inside : ∀ address ∈ fieldsRead memory first, first ≤ address ∧ address + 4 ≤ stop :=
        fields_read_inside small whole
      by_cases usable : Usable memory first
      · refine ⟨_, by rw [walkMap, if_pos below, if_pos usable], ?_, inside, ?_⟩
        · rw [upToUsable, if_pos usable]
        · simp only [List.find?_cons, usable, decide_true, Option.map_some]
      · have before : unusable memory (first :: rest) = first :: unusable memory rest :=
          List.takeWhile_cons_of_pos (decide_eq_true usable)
        rw [before] at standard
        have size20 := standard first List.mem_cons_self
        have next : add32 first entrySize = first + 4 + size memory first := by
          rw [size20, add32_of_lt (Nat.lt_of_le_of_lt whole small), entrySize]
        obtain ⟨log, walk, inspected, reads, found⟩ := induction tail
          (fun entry member => standard entry (List.mem_cons_of_mem _ member))
          (Nat.lt_of_succ_lt_succ enough)
        rw [← next] at walk
        refine ⟨_, by rw [walkMap, if_pos below, if_neg usable, walk, Option.map_some], ?_, ?_, ?_⟩
        · rw [upToUsable, if_neg usable, inspected]
        · intro address member
          rcases List.mem_append.mp member with here | later
          · exact inside address here
          · have bound := reads address later
            exact ⟨by omega, bound.2⟩
        · simp only [found, List.find?_cons, usable, decide_false]

/-- An entry of another size before the first usable one is followed by a place
that is no entry's start. -/
theorem walk_leaves_entries (small : stop < wordSize) (entries : Entries memory stop start starts)
    {log : Log} (walk : walkMap memory stop fuel start = some log)
    (inspected : log.inspected = upToUsable memory starts) :
    ∀ entry ∈ unusable memory starts, size memory entry = 20 := by
  induction starts generalizing start fuel log with
  | nil => simp [unusable]
  | cons first rest induction =>
      have bounds := entries_bounds entries
      obtain ⟨same, large, tail⟩ := entries
      subst same
      by_cases usable : Usable memory first
      · have none_before : unusable memory (first :: rest) = [] :=
          List.takeWhile_cons_of_neg (by simpa using usable)
        rw [none_before]
        simp
      · have before : unusable memory (first :: rest) = first :: unusable memory rest :=
          List.takeWhile_cons_of_pos (decide_eq_true usable)
        have below : first < stop := by
          rw [List.length_cons] at bounds
          unfold entrySize at bounds
          omega
        have round := walk_round below walk
        rw [if_neg usable] at round
        obtain ⟨shorter, later, there, split⟩ := round
        rw [split, upToUsable, if_neg usable, List.cons.injEq] at inspected
        have after := entries_bounds tail
        have size20 : size memory first = 20 := by
          by_contra other
          have between : first + entrySize < first + 4 + size memory first := by
            unfold entrySize
            omega
          have place := add32_of_lt (show first + entrySize < wordSize by omega)
          rw [place] at there
          obtain ⟨others, stray⟩ := walk_starts (show first + entrySize < stop by omega) there
          have expected := up_to_usable_starts tail (first + entrySize)
          rw [← inspected.2, stray] at expected
          have same := expected rfl
          omega
        have next : add32 first entrySize = first + 4 + size memory first := by
          rw [size20, add32_of_lt (by unfold entrySize; omega), entrySize]
        rw [next] at there
        rw [before]
        intro entry member
        rcases List.mem_cons.mp member with here | further
        · rw [here, size20]
        · exact induction tail there inspected.2 entry further

/-- The loop inspects exactly the entries up to the first usable one, and stays in
the map, exactly when the entries before that one all have size 20. -/
theorem inspect_map_exact_iff {mmapAddr mmapLength : Nat} (fits : mmapAddr + mmapLength < wordSize)
    (entries : Entries memory (mmapAddr + mmapLength) mmapAddr starts) :
    (∃ log, inspectMap memory mmapAddr mmapLength = some log ∧
        WalksEntries memory mmapAddr mmapLength starts log) ↔
      ∀ entry ∈ unusable memory starts, size memory entry = 20 := by
  have bounds := entries_bounds entries
  unfold entrySize at bounds
  rw [inspectMap, add32_of_lt fits]
  constructor
  · rintro ⟨log, walk, exact⟩
    exact walk_leaves_entries fits entries walk exact.inspected
  · intro standard
    obtain ⟨log, walk, inspected, inside, -⟩ := walk_entries fits entries standard
      (show starts.length < wordSize by omega)
    exact ⟨log, walk, inspected, inside⟩

end Walk

/-! ### A map of two entries -/

/-- A reserved entry of the given size and the entry of the usable memory. -/
def sampleMap (reservedSize : Word) : Memory :=
  let second := 0xC0010004 + reservedSize.toNat
  let memory := store (fun _ => 0) 0xC0010000 reservedSize
  let memory := store memory (0xC0010000 + 20) 2
  let memory := store memory second 20
  let memory := store memory (second + 4) 0x100000
  store memory (second + 20) 1

theorem inspect_map_exact_sample : ∃ log,
    inspectMap (sampleMap 20) 0xC0010000 48 = some log ∧
      WalksEntries (sampleMap 20) 0xC0010000 48 [0xC0010000, 0xC0010018] log := by
  have entries : Entries (sampleMap 20) (0xC0010000 + 48) 0xC0010000 [0xC0010000, 0xC0010018] := by
    decide +kernel
  exact (inspect_map_exact_iff (by decide +kernel) entries).mpr (by decide +kernel)

theorem long_entry_format :
    Entries (sampleMap 24) (0xC0010000 + 52) 0xC0010000 [0xC0010000, 0xC001001C] := by
  decide +kernel

/-- After an entry of size 24 the loop looks four bytes before the next one. -/
theorem long_entry_loses_map : ¬∀ (memory : Memory) (mmapAddr mmapLength : Nat)
    (starts : List Nat), mmapAddr + mmapLength < wordSize →
    Entries memory (mmapAddr + mmapLength) mmapAddr starts →
    ∃ log, inspectMap memory mmapAddr mmapLength = some log ∧
      WalksEntries memory mmapAddr mmapLength starts log := by
  intro exact
  obtain ⟨log, walk, walks⟩ := exact (sampleMap 24) 0xC0010000 52 [0xC0010000, 0xC001001C]
    (by decide +kernel) long_entry_format
  rw [inspectMap, add32_of_lt (by decide +kernel)] at walk
  have standard := walk_leaves_entries (by decide +kernel) long_entry_format walk walks.inspected
  exact absurd (standard 0xC0010000 (by decide +kernel)) (by decide +kernel)

end ChaoOS.MultibootMap
