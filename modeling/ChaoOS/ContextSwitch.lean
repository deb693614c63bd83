import ChaoOS.ByteMemory
import Mathlib.Logic.Function.Basic

/-!
# `switch_context`

The routine of `arch/i386/sched.S` as a list of instructions of a small machine
with the registers it uses, and what running it does to the context, the stack and
the other memory of the thread that calls it.
-/

namespace ChaoOS.ContextSwitch

open ChaoOS.ByteMemory

set_option autoImplicit false

inductive Reg where
  | eax
  | ebx
  | ecx
  | esi
  | edi
  | ebp
  | esp
  deriving DecidableEq

structure Machine where
  regs : Reg → Word
  eflags : Word
  eip : Word
  memory : Memory

inductive Instr where
  /-- `mov offset(%base), %dst` -/
  | loadReg (offset : Word) (base dst : Reg)
  /-- `mov %src, offset(%base)` -/
  | storeReg (src : Reg) (offset : Word) (base : Reg)
  | pushf
  | popf
  | push (src : Reg)
  | pop (dst : Reg)
  | ret

namespace Machine

def setReg (machine : Machine) (reg : Reg) (value : Word) : Machine :=
  { machine with regs := Function.update machine.regs reg value }

def pushWord (machine : Machine) (value : Word) : Machine :=
  let top := machine.regs .esp - 4
  { machine.setReg .esp top with memory := store machine.memory top.toNat value }

/-- The word on top of the stack. -/
def top (machine : Machine) : Word := load machine.memory (machine.regs .esp).toNat

def dropWord (machine : Machine) : Machine := machine.setReg .esp (machine.regs .esp + 4)

end Machine

def exec (machine : Machine) : Instr → Machine
  | .loadReg offset base dst =>
      machine.setReg dst (load machine.memory (machine.regs base + offset).toNat)
  | .storeReg src offset base =>
      { machine with
        memory := store machine.memory (machine.regs base + offset).toNat (machine.regs src) }
  | .pushf => machine.pushWord machine.eflags
  | .popf => { machine.dropWord with eflags := machine.top }
  | .push src => machine.pushWord (machine.regs src)
  | .pop dst => machine.dropWord.setReg dst machine.top
  | .ret => { machine.dropWord with eip := machine.top }

def switchContext : List Instr :=
  [.loadReg 4 .esp .eax,
    .storeReg .esp 0 .eax,
    .storeReg .ebp 4 .eax,
    .storeReg .ebx 8 .eax,
    .storeReg .esi 12 .eax,
    .storeReg .edi 16 .eax,
    .pushf,
    .pop .ecx,
    .storeReg .ecx 20 .eax,
    .loadReg 8 .esp .eax,
    .loadReg 0 .eax .esp,
    .loadReg 4 .eax .ebp,
    .loadReg 8 .eax .ebx,
    .loadReg 12 .eax .esi,
    .loadReg 16 .eax .edi,
    .loadReg 20 .eax .ecx,
    .push .ecx,
    .popf,
    .ret]

def runSwitch (machine : Machine) : Machine := switchContext.foldl exec machine

/-! ## What the routine does -/

/-- Memory when the first context has been written and the flags have gone
through the word below the stack. -/
def saveContext (machine : Machine) (cur : Word) : Memory :=
  let memory := store machine.memory (cur + 0).toNat (machine.regs .esp)
  let memory := store memory (cur + 4).toNat (machine.regs .ebp)
  let memory := store memory (cur + 8).toNat (machine.regs .ebx)
  let memory := store memory (cur + 12).toNat (machine.regs .esi)
  let memory := store memory (cur + 16).toNat (machine.regs .edi)
  let memory := store memory (machine.regs .esp - 4).toNat machine.eflags
  store memory (cur + 20).toNat machine.eflags

/-- The first nine instructions. -/
theorem run_save {machine : Machine} {cur : Word}
    (own : load machine.memory (machine.regs .esp + 4).toNat = cur) :
    ((switchContext.take 9).foldl exec machine).memory = saveContext machine cur ∧
      ((switchContext.take 9).foldl exec machine).regs .esp = machine.regs .esp := by
  have cancel : machine.regs .esp - 4 + 4 = machine.regs .esp := BitVec.sub_add_cancel _ 4
  simp only [switchContext, List.take_succ_cons, List.take_zero, List.foldl_cons, List.foldl_nil,
    exec, Machine.setReg, Machine.pushWord, Machine.dropWord, Machine.top, own,
    Function.update_apply, reduceCtorEq, if_true, if_false, load_store_same, cancel, saveContext,
    and_self]

/-- The others, which read the context at `next`. -/
theorem run_restore {machine : Machine} {next : Word}
    (other : load machine.memory (machine.regs .esp + 8).toNat = next) :
    let stack := load machine.memory (next + 0).toNat
    let flags := load machine.memory (next + 20).toNat
    let memory := store machine.memory (stack - 4).toNat flags
    let final := (switchContext.drop 9).foldl exec machine
    final.regs .esp = stack + 4 ∧ final.regs .ebp = load machine.memory (next + 4).toNat ∧
      final.regs .ebx = load machine.memory (next + 8).toNat ∧
      final.regs .esi = load machine.memory (next + 12).toNat ∧
      final.regs .edi = load machine.memory (next + 16).toNat ∧ final.eflags = flags ∧
      final.memory = memory ∧ final.eip = load memory stack.toNat := by
  have cancel : ∀ value : Word, value - 4 + 4 = value := fun value => BitVec.sub_add_cancel value 4
  simp only [switchContext, List.drop_succ_cons, List.drop_zero, List.foldl_cons, List.foldl_nil,
    exec, Machine.setReg, Machine.pushWord, Machine.dropWord, Machine.top, other,
    Function.update_apply, reduceCtorEq, if_true, if_false, load_store_same, cancel, and_self]

theorem run_switch_eq {machine : Machine} {cur next : Word}
    (own : load machine.memory (machine.regs .esp + 4).toNat = cur)
    (other : load (saveContext machine cur) (machine.regs .esp + 8).toNat = next) :
    let saved := saveContext machine cur
    let stack := load saved (next + 0).toNat
    let flags := load saved (next + 20).toNat
    let memory := store saved (stack - 4).toNat flags
    let final := runSwitch machine
    final.regs .esp = stack + 4 ∧ final.regs .ebp = load saved (next + 4).toNat ∧
      final.regs .ebx = load saved (next + 8).toNat ∧
      final.regs .esi = load saved (next + 12).toNat ∧
      final.regs .edi = load saved (next + 16).toNat ∧ final.eflags = flags ∧
      final.memory = memory ∧ final.eip = load memory stack.toNat := by
  obtain ⟨memory, stack⟩ := run_save own
  have parts : runSwitch machine =
      (switchContext.drop 9).foldl exec ((switchContext.take 9).foldl exec machine) := by
    rw [← List.foldl_append, List.take_append_drop, runSwitch]
  rw [parts, ← memory]
  apply run_restore
  rw [memory, stack]
  exact other

/-! ## Contexts in memory -/

/-- What a call of `switch_context` has to preserve, read at its entry. -/
structure Saved where
  esp : Word
  ebp : Word
  ebx : Word
  esi : Word
  edi : Word
  eflags : Word
  returnAddress : Word

def atCall (machine : Machine) : Saved :=
  { esp := machine.regs .esp
    ebp := machine.regs .ebp
    ebx := machine.regs .ebx
    esi := machine.regs .esi
    edi := machine.regs .edi
    eflags := machine.eflags
    returnAddress := load machine.memory (machine.regs .esp).toNat }

def contextSize : Nat := 24

structure HoldsContext (memory : Memory) (context : Word) (saved : Saved) : Prop where
  esp : load memory (context + 0).toNat = saved.esp
  ebp : load memory (context + 4).toNat = saved.ebp
  ebx : load memory (context + 8).toNat = saved.ebx
  esi : load memory (context + 12).toNat = saved.esi
  edi : load memory (context + 16).toNat = saved.edi
  eflags : load memory (context + 20).toNat = saved.eflags

section Contexts

variable {memory memory' : Memory} {context : Word} {saved : Saved} {machine : Machine}

/-- The addresses of the fields of a context. -/
theorem field_addresses (fits : context.toNat + contextSize ≤ 2 ^ 32) :
    (context + 0).toNat = context.toNat ∧ (context + 4).toNat = context.toNat + 4 ∧
      (context + 8).toNat = context.toNat + 8 ∧ (context + 12).toNat = context.toNat + 12 ∧
      (context + 16).toNat = context.toNat + 16 ∧ (context + 20).toNat = context.toNat + 20 := by
  unfold contextSize at fits
  refine ⟨?_, ?_, ?_, ?_, ?_, ?_⟩ <;> bv_omega

theorem holds_context_congr (fits : context.toNat + contextSize ≤ 2 ^ 32)
    (same : ∀ place, context.toNat ≤ place → place < context.toNat + contextSize →
      memory' place = memory place)
    (holds : HoldsContext memory context saved) : HoldsContext memory' context saved := by
  obtain ⟨a0, a4, a8, a12, a16, a20⟩ := field_addresses fits
  unfold contextSize at same
  have field : ∀ offset, offset ≤ 20 →
      load memory' (context.toNat + offset) = load memory (context.toNat + offset) := by
    intro offset small
    apply load_congr
    intro place lower upper
    exact same place (by omega) (by omega)
  constructor
  case esp => rw [← holds.esp, a0]; exact field 0 (by omega)
  case ebp => rw [← holds.ebp, a4]; exact field 4 (by omega)
  case ebx => rw [← holds.ebx, a8]; exact field 8 (by omega)
  case esi => rw [← holds.esi, a12]; exact field 12 (by omega)
  case edi => rw [← holds.edi, a16]; exact field 16 (by omega)
  case eflags => rw [← holds.eflags, a20]; exact field 20 (by omega)

/-- The saved stack pointer is kept with the context. -/
theorem saved_pointer_congr (fits : context.toNat + contextSize ≤ 2 ^ 32)
    (same : ∀ place, context.toNat ≤ place → place < context.toNat + contextSize →
      memory' place = memory place) :
    load memory' (context + 0).toNat = load memory (context + 0).toNat := by
  have start := (field_addresses fits).1
  apply load_congr
  intro place lower upper
  rw [start] at lower upper
  exact same place lower (by unfold contextSize; omega)

/-- Saving writes the context and the word below the stack, nothing else. -/
theorem save_context_outside (fits : context.toNat + contextSize ≤ 2 ^ 32) {place : Nat}
    (room : 4 ≤ (machine.regs .esp).toNat)
    (offContext : place < context.toNat ∨ context.toNat + contextSize ≤ place)
    (offStack : place < (machine.regs .esp).toNat - 4 ∨ (machine.regs .esp).toNat ≤ place) :
    saveContext machine context place = machine.memory place := by
  obtain ⟨a0, a4, a8, a12, a16, a20⟩ := field_addresses fits
  have below : (machine.regs .esp - 4).toNat = (machine.regs .esp).toNat - 4 := by bv_omega
  unfold contextSize at offContext
  simp only [saveContext, a0, a4, a8, a12, a16, a20, below]
  rw [store_outside (by omega), store_outside (by omega), store_outside (by omega),
    store_outside (by omega), store_outside (by omega), store_outside (by omega),
    store_outside (by omega)]

theorem save_context_holds (fits : context.toNat + contextSize ≤ 2 ^ 32)
    (room : 4 ≤ (machine.regs .esp).toNat)
    (apart : RangesApart context.toNat contextSize ((machine.regs .esp).toNat - 4) 4) :
    HoldsContext (saveContext machine context) context (atCall machine) := by
  obtain ⟨a0, a4, a8, a12, a16, a20⟩ := field_addresses fits
  have below : (machine.regs .esp - 4).toNat = (machine.regs .esp).toNat - 4 := by bv_omega
  unfold RangesApart contextSize at apart
  have skip : ∀ {memory : Memory} {address other : Nat} {value : Word},
      address + 4 ≤ other ∨ other + 4 ≤ address →
      load (store memory address value) other = load memory other :=
    fun apart => load_store_apart apart
  constructor
  all_goals simp only [saveContext, a0, a4, a8, a12, a16, a20, below, atCall]
  case esp =>
      rw [skip (by omega), skip (by omega), skip (by omega), skip (by omega), skip (by omega),
        skip (by omega), load_store_same]
  case ebp =>
      rw [skip (by omega), skip (by omega), skip (by omega), skip (by omega), skip (by omega),
        load_store_same]
  case ebx =>
      rw [skip (by omega), skip (by omega), skip (by omega), skip (by omega), load_store_same]
  case esi => rw [skip (by omega), skip (by omega), skip (by omega), load_store_same]
  case edi => rw [skip (by omega), skip (by omega), load_store_same]
  case eflags => rw [load_store_same]

end Contexts

/-! ## Calls -/

/-- A thread's context and the stack from `low` to `high` are memory apart. -/
structure ThreadPlaces (low high : Nat) (context : Word) : Prop where
  context_end : context.toNat + contextSize ≤ 2 ^ 32
  stack_end : high ≤ 2 ^ 32
  apart : context.toNat + contextSize ≤ low ∨ high ≤ context.toNat

/-- The place is in the stack or the context. -/
def OwnPlace (low high : Nat) (context : Word) (place : Nat) : Prop :=
  low ≤ place ∧ place < high ∨ context.toNat ≤ place ∧ place < context.toNat + contextSize

/-- At the entry of `switch_context`, with the context of the calling thread and
another one as arguments. -/
structure CallsSwitch (machine : Machine) (low high : Nat) (own other : Word) : Prop where
  room : low + 4 ≤ (machine.regs .esp).toNat
  frame : (machine.regs .esp).toNat + 12 ≤ high
  curArgument : load machine.memory (machine.regs .esp + 4).toNat = own
  nextArgument : load machine.memory (machine.regs .esp + 8).toNat = other

namespace CallsSwitch

variable {machine : Machine} {low high : Nat} {own other : Word}

theorem saved_outside (calls : CallsSwitch machine low high own other)
    (places : ThreadPlaces low high own) {place : Nat} (outside : ¬OwnPlace low high own place) :
    saveContext machine own place = machine.memory place := by
  obtain ⟨room, frame, -, -⟩ := calls
  unfold OwnPlace at outside
  exact save_context_outside places.context_end (by omega) (by omega) (by omega)

theorem saved_holds (calls : CallsSwitch machine low high own other)
    (places : ThreadPlaces low high own) :
    HoldsContext (saveContext machine own) own (atCall machine) := by
  obtain ⟨room, frame, -, -⟩ := calls
  have apart := places.apart
  exact save_context_holds places.context_end (by omega) (by unfold RangesApart; omega)

/-- What stands on the stack from the stack pointer on is not written. -/
theorem saved_stack (calls : CallsSwitch machine low high own other)
    (places : ThreadPlaces low high own) {place : Nat}
    (above : (machine.regs .esp).toNat ≤ place) (inside : place < high) :
    saveContext machine own place = machine.memory place := by
  obtain ⟨room, frame, -, -⟩ := calls
  have apart := places.apart
  exact save_context_outside places.context_end (by omega) (by omega) (by omega)

/-- The second argument is read after the flags have gone through the stack. -/
theorem saved_next (calls : CallsSwitch machine low high own other)
    (places : ThreadPlaces low high own) :
    load (saveContext machine own) (machine.regs .esp + 8).toNat = other := by
  have frame := calls.frame
  have last := places.stack_end
  have argument : (machine.regs .esp + 8).toNat = (machine.regs .esp).toNat + 8 := by bv_omega
  rw [← calls.nextArgument, argument]
  apply load_congr
  intro place lower upper
  exact calls.saved_stack places (by omega) (by omega)

/-- Switching in writes the word below the stack it switches to. -/
theorem run_memory (calls : CallsSwitch machine low high own other)
    (places : ThreadPlaces low high own) :
    (runSwitch machine).memory =
      store (saveContext machine own) (load (saveContext machine own) (other + 0).toNat - 4).toNat
        (load (saveContext machine own) (other + 20).toNat) := by
  obtain ⟨-, -, -, -, -, -, memory, -⟩ := run_switch_eq calls.curArgument (calls.saved_next places)
  exact memory

theorem run_outside (calls : CallsSwitch machine low high own other)
    (places : ThreadPlaces low high own) {place : Nat}
    (room : 4 ≤ (load (saveContext machine own) (other + 0).toNat).toNat)
    (outside : place < (load (saveContext machine own) (other + 0).toNat).toNat - 4 ∨
      (load (saveContext machine own) (other + 0).toNat).toNat ≤ place) :
    (runSwitch machine).memory place = saveContext machine own place := by
  rw [calls.run_memory places]
  apply store_outside
  generalize load (saveContext machine own) (other + 0).toNat = stack at room outside
  have below : (stack - 4).toNat = stack.toNat - 4 := by bv_omega
  omega

end CallsSwitch

/-! ## Threads on one processor -/

/-- The machine and the thread that runs on it. -/
structure Processor (Thread : Type*) where
  machine : Machine
  running : Thread

namespace Processor

variable {Thread : Type*}

def switchTo (processor : Processor Thread) (next : Thread) : Processor Thread where
  machine := runSwitch processor.machine
  running := next

/-- The running thread writes nothing that another thread owns. -/
def LeavesOthers (processor : Processor Thread) (owns : Thread → Nat → Prop) (memory : Memory) :
    Prop :=
  ∀ thread ≠ processor.running, ∀ place, owns thread place →
    memory place = processor.machine.memory place

end Processor

end ChaoOS.ContextSwitch
