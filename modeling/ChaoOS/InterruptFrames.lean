import ChaoOS.ContextSwitch
import ChaoOS.WordStack

/-!
# Interrupt entry and return

The stubs of `arch/i386/idt_s.S` as lists of instructions of a machine with all
general registers and the segment registers, what the processor itself does when
it delivers an interrupt, and what the frame they build is good for. Everything
runs at privilege level 0, so that the processor changes no stack, and no task is
nested.
-/

namespace ChaoOS.InterruptFrames

open ChaoOS.ByteMemory ChaoOS.WordStack

set_option autoImplicit false

inductive Register where
  | eax
  | ecx
  | edx
  | ebx
  | esp
  | ebp
  | esi
  | edi
  deriving DecidableEq

inductive Segment where
  | cs
  | ds
  | es
  | fs
  | gs
  | ss
  deriving DecidableEq

structure Cpu where
  regs : Register → Word
  segs : Segment → BitVec 16
  eflags : Word
  eip : Word
  memory : Memory

namespace Cpu

def setReg (cpu : Cpu) (reg : Register) (value : Word) : Cpu :=
  { cpu with regs := Function.update cpu.regs reg value }

def setSeg (cpu : Cpu) (seg : Segment) (value : BitVec 16) : Cpu :=
  { cpu with segs := Function.update cpu.segs seg value }

def pushWord (cpu : Cpu) (value : Word) : Cpu :=
  let top := cpu.regs .esp - 4
  { cpu.setReg .esp top with memory := store cpu.memory top.toNat value }

def pushWords (cpu : Cpu) (values : List Word) : Cpu := values.foldl pushWord cpu

/-- The word `offset` bytes above the stack pointer. -/
def peek (cpu : Cpu) (offset : Word) : Word := load cpu.memory (cpu.regs .esp + offset).toNat

def dropBytes (cpu : Cpu) (count : Word) : Cpu := cpu.setReg .esp (cpu.regs .esp + count)

end Cpu

/-! ## Instructions -/

/-- A write to the low half of a register leaves the other half. -/
def withLow (value : Word) (low : BitVec 16) : Word := value.extractLsb' 16 16 ++ low

def lowHalf (value : Word) : BitVec 16 := value.extractLsb' 0 16

/-- The selector as a word. -/
def selectorWord (selector : BitVec 16) : Word := selector.setWidth 32

def carryFlag : Word := 0x1
def parityFlag : Word := 0x4
def auxiliaryFlag : Word := 0x10
def zeroFlag : Word := 0x40
def signFlag : Word := 0x80
def trapFlag : Word := 0x100
def interruptFlag : Word := 0x200
def overflowFlag : Word := 0x800
def nestedTaskFlag : Word := 0x4000
def resumeFlag : Word := 0x10000
def virtualFlag : Word := 0x20000

def clearFlag (flags flag : Word) : Word := flags &&& ~~~flag

def putFlag (flags flag : Word) (holds : Bool) : Word :=
  if holds then flags ||| flag else clearFlag flags flag

/-- The status flags after an addition. -/
def addFlags (flags left right : Word) : Word :=
  let sum := left + right
  let carry := decide (2 ^ 32 ≤ left.toNat + right.toNat)
  let parity := ((List.range 8).filter fun bit => sum.getLsbD bit).length % 2 == 0
  let auxiliary := decide (16 ≤ left.toNat % 16 + right.toNat % 16)
  let overflow := left.msb == right.msb && sum.msb != left.msb
  let flags := putFlag flags carryFlag carry
  let flags := putFlag flags parityFlag parity
  let flags := putFlag flags auxiliaryFlag auxiliary
  let flags := putFlag flags zeroFlag (sum == 0)
  let flags := putFlag flags signFlag sum.msb
  putFlag flags overflowFlag overflow

inductive Instr where
  | cli
  /-- `push $value` -/
  | pushImm (value : Word)
  | push (src : Register)
  | pop (dst : Register)
  | pushal
  | popal
  /-- `mov %src, %dst`, with the low half of `dst` -/
  | movFromSeg (src : Segment) (dst : Register)
  /-- `mov $value, %dst`, with the low half of `dst` -/
  | movLow (value : BitVec 16) (dst : Register)
  /-- `mov %src, %dst`, with the low half of `src` -/
  | movToSeg (src : Register) (dst : Segment)
  /-- `add $value, %esp` -/
  | addEsp (value : Word)
  /-- `call`, up to the entry of what is called -/
  | call (target back : Word)
  | iret

def exec (cpu : Cpu) : Instr → Cpu
  | .cli => { cpu with eflags := clearFlag cpu.eflags interruptFlag }
  | .pushImm value => cpu.pushWord value
  | .push src => cpu.pushWord (cpu.regs src)
  | .pop dst => (cpu.dropBytes 4).setReg dst (cpu.peek 0)
  | .pushal =>
      cpu.pushWords [cpu.regs .eax, cpu.regs .ecx, cpu.regs .edx, cpu.regs .ebx, cpu.regs .esp,
        cpu.regs .ebp, cpu.regs .esi, cpu.regs .edi]
  | .popal =>
      { cpu with
        regs := fun
          | .edi => cpu.peek 0
          | .esi => cpu.peek 4
          | .ebp => cpu.peek 8
          -- the stack pointer that `pushal` saved is skipped
          | .esp => cpu.regs .esp + 32
          | .ebx => cpu.peek 16
          | .edx => cpu.peek 20
          | .ecx => cpu.peek 24
          | .eax => cpu.peek 28 }
  | .movFromSeg src dst => cpu.setReg dst (withLow (cpu.regs dst) (cpu.segs src))
  | .movLow value dst => cpu.setReg dst (withLow (cpu.regs dst) value)
  | .movToSeg src dst => cpu.setSeg dst (lowHalf (cpu.regs src))
  | .addEsp value =>
      { cpu.dropBytes value with eflags := addFlags cpu.eflags (cpu.regs .esp) value }
  | .call target back => { cpu.pushWord back with eip := target }
  | .iret =>
      { (cpu.dropBytes 12).setSeg .cs (lowHalf (cpu.peek 4)) with
        eip := cpu.peek 0
        eflags := cpu.peek 8 }

/-! ## The routines of `idt_s.S` -/

/-- The vectors with `ISR_ERRCODE`; the others have `ISR_NOERRCODE`. -/
def errorCodeStubs : List Nat := [8, 10, 11, 12, 13, 14, 17]

def isrStub (number : BitVec 8) : List Instr :=
  if number.toNat ∈ errorCodeStubs then [.cli, .pushImm (number.setWidth 32)]
  else [.cli, .pushImm 0, .pushImm (number.setWidth 32)]

/-- `isr_common_stub` up to the entry of `isr_handler`; `back` is the address
after the call. -/
def commonStubEntry (isrHandler back : Word) : List Instr :=
  [.pushal,
    .movFromSeg .ds .eax,
    .push .eax,
    .movLow 0x10 .eax,
    .movToSeg .eax .ds,
    .movToSeg .eax .es,
    .movToSeg .eax .fs,
    .movToSeg .eax .gs,
    .movToSeg .eax .ss,
    .push .esp,
    .call isrHandler back]

/-- `isr_common_stub` from the return of `isr_handler` on. -/
def commonStubExit : List Instr :=
  [.addEsp 4,
    .pop .ebx,
    .movToSeg .ebx .ds,
    .movToSeg .ebx .es,
    .movToSeg .ebx .fs,
    .movToSeg .ebx .gs,
    .movToSeg .ebx .ss,
    .popal,
    .addEsp 8,
    .iret]

/-! ## The processor's part -/

/-- The exceptions for which the processor pushes an error code. -/
def errorCodeExceptions : List Nat := [8, 10, 11, 12, 13, 14, 17]

/-- An exception that the processor raises, or an external interrupt. -/
structure Event where
  number : BitVec 8
  errorCode : Option Word
  has_code : errorCode.isSome = decide (number.toNat ∈ errorCodeExceptions)

/-- The word that stands for the error code in the frame. -/
def Event.codeWord (event : Event) : Word := event.errorCode.getD 0

/-- Delivery through an interrupt gate that leads to `selector` and `offset`. -/
def deliver (selector : BitVec 16) (offset : Word) (event : Event) (cpu : Cpu) : Cpu :=
  let pushed := cpu.pushWords
    ([cpu.eflags, selectorWord (cpu.segs .cs), cpu.eip] ++ event.errorCode.toList)
  let flags := clearFlag cpu.eflags interruptFlag
  let flags := clearFlag flags trapFlag
  let flags := clearFlag flags nestedTaskFlag
  let flags := clearFlag flags resumeFlag
  { pushed.setSeg .cs selector with
    eip := offset
    eflags := clearFlag flags virtualFlag }

/-- From the interrupted instruction to the entry of `isr_handler`. -/
def enter (selector : BitVec 16) (offset isrHandler back : Word) (event : Event) (cpu : Cpu) :
    Cpu :=
  (isrStub event.number ++ commonStubEntry isrHandler back).foldl exec
    (deliver selector offset event cpu)

/-- From the return of `isr_handler` to the interrupted instruction. -/
def leave (cpu : Cpu) : Cpu := commonStubExit.foldl exec cpu

/-! ## Frames -/

/-- An event with the state that it interrupted. -/
structure Frame where
  was : Cpu
  event : Event

/-- The saved `ds` is the low half of a word whose high half is that of `eax`. -/
def dsWord (cpu : Cpu) : Word := withLow (cpu.regs .eax) (cpu.segs .ds)

namespace Frame

/-- `pt_regs` without the last two fields, which nothing has pushed. -/
def words (frame : Frame) : List Word :=
  let was := frame.was
  [dsWord was, was.regs .edi, was.regs .esi, was.regs .ebp, was.regs .esp - 20,
    was.regs .ebx, was.regs .edx, was.regs .ecx, was.regs .eax,
    frame.event.number.setWidth 32, frame.event.codeWord,
    was.eip, selectorWord (was.segs .cs), was.eflags]

/-- The address of the `pt_regs`. -/
def base (frame : Frame) : Word := frame.was.regs .esp - 56

end Frame

def frameSize : Nat := 56

/-- A word of the frame at `base`. -/
def readAt (memory : Memory) (base offset : Word) : Word := load memory (base + offset).toNat

def HoldsFrame (memory : Memory) (frame : Frame) : Prop :=
  Holds memory frame.base.toNat frame.words

theorem low_half_with_low (value : Word) (low : BitVec 16) :
    lowHalf (withLow value low) = low := by
  apply BitVec.eq_of_getLsbD_eq
  intro bit small
  simp only [lowHalf, withLow, BitVec.getLsbD_append, BitVec.getLsbD_extractLsb']
  grind

theorem low_half_selector_word (selector : BitVec 16) :
    lowHalf (selectorWord selector) = selector := by
  apply BitVec.eq_of_getLsbD_eq
  intro bit small
  simp only [lowHalf, selectorWord, BitVec.getLsbD_extractLsb', BitVec.getLsbD_setWidth]
  grind

theorem sub_sub_words (value first second : Word) :
    value - first - second = value - (first + second) := by
  grind

/-! ## Entry -/

section Entry

variable (selector : BitVec 16) (offset isrHandler back : Word) (event : Event) (cpu : Cpu)

/-- After delivery and the stub, whether or not the processor has an error code,
the same five words are on the stack. -/
structure StubDone (done : Cpu) : Prop where
  regs : ∀ reg, reg ≠ .esp → done.regs reg = cpu.regs reg
  esp : done.regs .esp = cpu.regs .esp - 20
  memory : done.memory = pushAll cpu.memory (cpu.regs .esp)
    [cpu.eflags, selectorWord (cpu.segs .cs), cpu.eip, event.codeWord, event.number.setWidth 32]
  cs : done.segs .cs = selector
  data : ∀ seg, seg ≠ .cs → done.segs seg = cpu.segs seg
  masked : done.eflags &&& interruptFlag = 0

theorem clear_flag_clears (flags flag : Word) : clearFlag flags flag &&& flag = 0 := by
  simp [clearFlag, BitVec.and_assoc]

theorem stub_done :
    StubDone selector event cpu
      ((isrStub event.number).foldl exec (deliver selector offset event cpu)) := by
  obtain ⟨number, code, has_code⟩ := event
  by_cases listed : number.toNat ∈ errorCodeStubs
  · have some_code : code.isSome = true := by rw [has_code]; exact decide_eq_true listed
    obtain ⟨value, rfl⟩ := Option.isSome_iff_exists.mp some_code
    constructor
    case masked => simp [isrStub, listed, exec, Cpu.pushWord, Cpu.setReg, clear_flag_clears]
    all_goals
      simp +contextual [isrStub, listed, deliver, exec, Cpu.pushWords, Cpu.pushWord, Cpu.setReg,
        Cpu.setSeg, sub_sub_words, pushAll, Event.codeWord]
  · have no_code : code = none := by
      apply Option.not_isSome_iff_eq_none.mp
      rw [has_code, decide_eq_true_eq]
      exact listed
    subst no_code
    constructor
    case masked => simp [isrStub, listed, exec, Cpu.pushWord, Cpu.setReg, clear_flag_clears]
    all_goals
      simp +contextual [isrStub, listed, deliver, exec, Cpu.pushWords, Cpu.pushWord, Cpu.setReg,
        Cpu.setSeg, sub_sub_words, pushAll, Event.codeWord]

/-- What the common part does up to the entry of `isr_handler`. -/
theorem common_stub_entered :
    let entered := (commonStubEntry isrHandler back).foldl exec cpu
    entered.regs .esp = cpu.regs .esp - 44 ∧
      entered.memory = pushAll cpu.memory (cpu.regs .esp)
        [cpu.regs .eax, cpu.regs .ecx, cpu.regs .edx, cpu.regs .ebx, cpu.regs .esp, cpu.regs .ebp,
          cpu.regs .esi, cpu.regs .edi, dsWord cpu, cpu.regs .esp - 36, back] ∧
      entered.eip = isrHandler ∧ entered.eflags = cpu.eflags ∧
      entered.segs .cs = cpu.segs .cs ∧ ∀ seg, seg ≠ .cs → entered.segs seg = 0x10 := by
  refine ⟨?_, ?_, ?_, ?_, ?_, ?_⟩
  case refine_6 =>
    intro seg other
    cases seg <;>
      simp [commonStubEntry, exec, Cpu.pushWords, Cpu.pushWord, Cpu.setReg, Cpu.setSeg,
        low_half_with_low] at other ⊢
  all_goals
    simp [commonStubEntry, exec, Cpu.pushWords, Cpu.pushWord, Cpu.setReg, Cpu.setSeg,
      sub_sub_words, pushAll, dsWord]

/-- The machine at the entry of `isr_handler`. -/
structure Entered (frame : Frame) (entered : Cpu) : Prop where
  esp : entered.regs .esp = frame.was.regs .esp - 64
  memory : entered.memory =
    pushAll frame.was.memory (frame.was.regs .esp) (frame.words.reverse ++ [frame.base, back])
  eip : entered.eip = isrHandler
  cs : entered.segs .cs = selector
  data : ∀ seg, seg ≠ .cs → entered.segs seg = 0x10
  masked : entered.eflags &&& interruptFlag = 0

theorem enter_entered :
    Entered selector isrHandler back ⟨cpu, event⟩
      (enter selector offset isrHandler back event cpu) := by
  obtain ⟨regs, esp, memory, cs, data, masked⟩ := stub_done selector offset event cpu
  rw [enter, List.foldl_append]
  generalize (isrStub event.number).foldl exec (deliver selector offset event cpu) = done at *
  obtain ⟨top, written, eip, flags, code, segments⟩ := common_stub_entered isrHandler back done
  constructor
  case esp => rw [top, esp, sub_sub_words]; rfl
  case memory =>
    have dsSame : dsWord done = dsWord cpu := by
      rw [dsWord, dsWord, regs .eax (by decide), data .ds (by decide)]
    rw [written, memory, esp, dsSame, regs .eax (by decide), regs .ecx (by decide),
      regs .edx (by decide), regs .ebx (by decide), regs .ebp (by decide), regs .esi (by decide),
      regs .edi (by decide)]
    have below : cpu.regs .esp - 20 - 36 = cpu.regs .esp - 56 := sub_sub_words _ _ _
    rw [below]
    exact push_all_append.symm
  case eip => exact eip
  case cs => rw [code, cs]
  case data => exact segments
  case masked => rw [flags]; exact masked

end Entry

section Frames

variable {selector : BitVec 16} {isrHandler back : Word} {frame : Frame} {cpu : Cpu}

theorem words_length (frame : Frame) : frame.words.length = 14 := rfl

theorem frame_base (room : frameSize ≤ (frame.was.regs .esp).toNat) :
    frame.base.toNat = (frame.was.regs .esp).toNat - frameSize :=
  @pointer_below (frame.was.regs .esp) 14 room

/-- The frame is complete, and `isr_handler` finds its address as its argument. -/
theorem entered_holds (room : 64 ≤ (frame.was.regs .esp).toNat)
    (entered : Entered selector isrHandler back frame cpu) :
    HoldsFrame cpu.memory frame ∧ load cpu.memory (cpu.regs .esp).toNat = back ∧
      load cpu.memory (cpu.regs .esp + 4).toNat = frame.base := by
  have place : (cpu.regs .esp).toNat = (frame.was.regs .esp).toNat - 64 := by
    rw [entered.esp]
    exact @pointer_below _ 16 room
  have size : (frame.words.reverse ++ [frame.base, back]).length = 16 := rfl
  have bound := (frame.was.regs .esp).isLt
  have holds := @push_all_holds (frame.words.reverse ++ [frame.base, back]) frame.was.memory
    (frame.was.regs .esp) (by rw [size]; exact room)
  rw [← entered.memory, List.reverse_append, List.reverse_reverse, size, holds_append] at holds
  obtain ⟨callWords, words⟩ := holds
  have base := @frame_base frame (by unfold frameSize; omega)
  have start : (frame.was.regs .esp).toNat - 4 * 16 + 4 * [frame.base, back].reverse.length =
      frame.base.toNat := by
    rw [base]
    simp only [List.reverse_cons, List.reverse_nil, List.nil_append, List.cons_append,
      List.length_cons, List.length_nil, frameSize]
    omega
  rw [start] at words
  have argument : (cpu.regs .esp + 4).toNat = (cpu.regs .esp).toNat + 4 := by bv_omega
  refine ⟨words, ?_, ?_⟩
  · rw [place]
    exact callWords 0 (Nat.zero_lt_two)
  · rw [argument, place]
    exact callWords 1 (Nat.one_lt_two)

/-- Entering writes the 64 bytes below the interrupted stack pointer only. -/
theorem entered_outside (room : 64 ≤ (frame.was.regs .esp).toNat)
    (entered : Entered selector isrHandler back frame cpu) {place : Nat}
    (outside : place < (frame.was.regs .esp).toNat - 64 ∨ (frame.was.regs .esp).toNat ≤ place) :
    cpu.memory place = frame.was.memory place := by
  rw [entered.memory]
  exact @push_all_outside (frame.words.reverse ++ [frame.base, back]) _ _ room _ outside

theorem holds_frame_congr {memory memory' : Memory}
    (same : ∀ place, frame.base.toNat ≤ place → place < frame.base.toNat + frameSize →
      memory' place = memory place)
    (holds : HoldsFrame memory frame) : HoldsFrame memory' frame :=
  holds_congr same holds

/-! ## Return -/

/-- The machine goes on as `was` would have, memory apart. -/
structure Restored (cpu was : Cpu) : Prop where
  regs : ∀ reg, cpu.regs reg = was.regs reg
  eip : cpu.eip = was.eip
  eflags : cpu.eflags = was.eflags
  cs : cpu.segs .cs = was.segs .cs
  data : ∀ seg, seg ≠ .cs → cpu.segs seg = was.segs .ds

/-- Where the return takes each register from; `base` is the address that was
the argument of `isr_handler`. -/
theorem leave_reads {base : Word} (returned : cpu.regs .esp + 4 = base) :
    let read := readAt cpu.memory base
    let left := leave cpu
    left.regs .edi = read 4 ∧ left.regs .esi = read 8 ∧ left.regs .ebp = read 12 ∧
      left.regs .esp = base + 56 ∧ left.regs .ebx = read 20 ∧ left.regs .edx = read 24 ∧
      left.regs .ecx = read 28 ∧ left.regs .eax = read 32 ∧ left.eip = read 44 ∧
      left.segs .cs = lowHalf (read 48) ∧ left.eflags = read 52 ∧
      ∀ seg, seg ≠ .cs → left.segs seg = lowHalf (read 0) := by
  subst returned
  refine ⟨?_, ?_, ?_, ?_, ?_, ?_, ?_, ?_, ?_, ?_, ?_, ?_⟩
  case refine_12 =>
    intro seg other
    cases seg <;>
      simp only [leave, commonStubExit, List.foldl_cons, List.foldl_nil, exec, Cpu.dropBytes,
        Cpu.setReg, Cpu.setSeg, Cpu.peek, Function.update_apply, reduceCtorEq, if_true, if_false,
        ne_eq, not_true_eq_false, readAt] at other ⊢
  all_goals
    simp only [leave, commonStubExit, List.foldl_cons, List.foldl_nil, exec, Cpu.dropBytes,
      Cpu.setReg, Cpu.setSeg, Cpu.peek, Function.update_apply, reduceCtorEq, if_true, if_false,
      BitVec.add_assoc, BitVec.reduceAdd, readAt]

theorem leave_restores (room : frameSize ≤ (frame.was.regs .esp).toNat)
    (holds : HoldsFrame cpu.memory frame) (returned : cpu.regs .esp + 4 = frame.base) :
    Restored (leave cpu) frame.was := by
  have bound := (frame.was.regs .esp).isLt
  have base := @frame_base frame room
  have word : ∀ {index : Nat} (small : index < 14),
      readAt cpu.memory frame.base (BitVec.ofNat 32 (4 * index)) = frame.words[index] := by
    intro index small
    exact load_of_holds holds (by rw [words_length, base]; unfold frameSize; omega) small
  obtain ⟨edi, esi, ebp, esp, ebx, edx, ecx, eax, eip, cs, eflags, data⟩ := leave_reads returned
  constructor
  case regs =>
    intro reg
    cases reg with
    | eax => rw [eax]; exact @word 8 (by decide)
    | ecx => rw [ecx]; exact @word 7 (by decide)
    | edx => rw [edx]; exact @word 6 (by decide)
    | ebx => rw [ebx]; exact @word 5 (by decide)
    | esp => rw [esp]; exact BitVec.sub_add_cancel _ _
    | ebp => rw [ebp]; exact @word 3 (by decide)
    | esi => rw [esi]; exact @word 2 (by decide)
    | edi => rw [edi]; exact @word 1 (by decide)
  case eip => rw [eip]; exact @word 11 (by decide)
  case eflags => rw [eflags]; exact @word 13 (by decide)
  case cs =>
    have saved : readAt cpu.memory frame.base 48 = selectorWord (frame.was.segs .cs) :=
      @word 12 (by decide)
    rw [cs, saved, low_half_selector_word]
  case data =>
    intro seg other
    have saved : readAt cpu.memory frame.base 0 = dsWord frame.was := @word 0 (by decide)
    rw [data seg other, saved, dsWord, low_half_with_low]

end Frames

end ChaoOS.InterruptFrames
