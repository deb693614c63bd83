import ChaoOS.ContextRuns
import ChaoOS.InterruptFrames

/-!
# Interrupts and switches in any order

Threads that are interrupted at any point, also inside the handling of an
earlier interrupt, and that switch among each other while their interrupts are
still being handled. Each thread keeps a list of the frames that wait on its
stack, innermost first.
-/

namespace ChaoOS.InterruptRuns

open ChaoOS.ByteMemory ChaoOS.ContextSwitch ChaoOS.ContextRuns ChaoOS.InterruptFrames

set_option autoImplicit false

/-! ## `switch_context` on the whole machine -/

def register : Reg → Register
  | .eax => .eax
  | .ebx => .ebx
  | .ecx => .ecx
  | .esi => .esi
  | .edi => .edi
  | .ebp => .ebp
  | .esp => .esp

/-- The part of the machine that `switch_context` works on. -/
def machineOf (cpu : Cpu) : Machine :=
  { regs := fun reg => cpu.regs (register reg)
    eflags := cpu.eflags
    eip := cpu.eip
    memory := cpu.memory }

/-- `switch_context` touches neither `edx` nor a segment register. -/
def withMachine (cpu : Cpu) (machine : Machine) : Cpu :=
  { cpu with
    regs := fun
      | .eax => machine.regs .eax
      | .ecx => machine.regs .ecx
      | .edx => cpu.regs .edx
      | .ebx => machine.regs .ebx
      | .esp => machine.regs .esp
      | .ebp => machine.regs .ebp
      | .esi => machine.regs .esi
      | .edi => machine.regs .edi
    eflags := machine.eflags
    eip := machine.eip
    memory := machine.memory }

theorem machine_of_with_machine (cpu : Cpu) (machine : Machine) :
    machineOf (withMachine cpu machine) = machine := by
  obtain ⟨regs, eflags, eip, memory⟩ := machine
  have same : (fun reg => (withMachine cpu ⟨regs, eflags, eip, memory⟩).regs (register reg)) =
      regs := by
    funext reg
    cases reg <;> rfl
  rw [machineOf, same]
  rfl

/-! ## Runs -/

/-- Where the linker has put the code. -/
structure Code where
  isr : BitVec 8 → Word
  isrHandler : Word
  /-- the instruction after the call of `isr_handler` -/
  back : Word

structure Kernel (Thread : Type*) where
  cpu : Cpu
  running : Thread
  last : Thread → Option Saved
  pending : Thread → List Frame

/-- The lowest address that the waiting frames take. -/
def lowest (high : Nat) : List Frame → Nat
  | [] => high
  | frame :: _ => frame.base.toNat

def InFrame (frame : Frame) (place : Nat) : Prop :=
  frame.base.toNat ≤ place ∧ place < frame.base.toNat + frameSize

variable {Thread : Type*}

namespace Kernel

def system (state : Kernel Thread) : System Thread :=
  { machine := machineOf state.cpu, running := state.running, last := state.last }

def esp (state : Kernel Thread) : Word := state.cpu.regs .esp

end Kernel

section Steps

variable [DecidableEq Thread] (code : Code) (layout : Layout Thread)

def interrupted (state : Kernel Thread) (event : Event) : Kernel Thread :=
  { state with
    cpu := enter 0x08 (code.isr event.number) code.isrHandler code.back event state.cpu
    pending := Function.update state.pending state.running
      (⟨state.cpu, event⟩ :: state.pending state.running) }

def switched (state : Kernel Thread) (next : Thread) : Kernel Thread :=
  { state with
    cpu := withMachine state.cpu (runSwitch (machineOf state.cpu))
    running := next
    last := (switchTo state.system next).last }

def left (state : Kernel Thread) (rest : List Frame) : Kernel Thread :=
  { state with
    cpu := leave state.cpu
    pending := Function.update state.pending state.running rest }

inductive Step : Kernel Thread → Kernel Thread → Prop
  /-- The running thread computes; it writes neither what others own nor a frame
  that waits on its own stack. -/
  | work (state : Kernel Thread) (cpu : Cpu)
      (others : state.system.LeavesOthers layout.Owns cpu.memory)
      (frames : ∀ frame ∈ state.pending state.running, ∀ place, InFrame frame place →
        cpu.memory place = state.cpu.memory place) :
      Step state { state with cpu := cpu }
  /-- An interrupt arrives while the stack is below the frames that wait. -/
  | interrupt (state : Kernel Thread) (event : Event)
      (room : layout.low state.running + 64 ≤ state.esp.toNat)
      (below : state.esp.toNat ≤
        lowest (layout.high state.running) (state.pending state.running)) :
      Step state (interrupted code state event)
  | switch (state : Kernel Thread) (next : Thread) (ready : Ready layout state.system next)
      (below : state.esp.toNat + 12 ≤
        lowest (layout.high state.running) (state.pending state.running)) :
      Step state (switched state next)
  /-- `isr_handler` has returned to the stub. -/
  | leave (state : Kernel Thread) (frame : Frame) (rest : List Frame)
      (innermost : state.pending state.running = frame :: rest)
      (returned : state.esp + 4 = frame.base) :
      Step state (left state rest)

end Steps

/-! ## Frames on a stack -/

/-- The frames stand one above the other between `low` and `high`. -/
def Nested (low high : Nat) : List Frame → Prop
  | [] => True
  | frame :: rest =>
      frameSize ≤ (frame.was.regs .esp).toNat ∧ low ≤ frame.base.toNat ∧
        frame.base.toNat + frameSize ≤ lowest high rest ∧ Nested low high rest

theorem lowest_le {low high : Nat} {frames : List Frame} (nested : Nested low high frames) :
    lowest high frames ≤ high := by
  induction frames with
  | nil => exact le_rfl
  | cons frame rest induction =>
      obtain ⟨-, -, under, inner⟩ := nested
      have above := induction inner
      simp only [lowest]
      omega

theorem nested_mem {low high : Nat} {frames : List Frame} (nested : Nested low high frames)
    {frame : Frame} (member : frame ∈ frames) :
    frameSize ≤ (frame.was.regs .esp).toNat ∧ low ≤ frame.base.toNat ∧
      lowest high frames ≤ frame.base.toNat ∧ frame.base.toNat + frameSize ≤ high := by
  induction frames with
  | nil => exact absurd member List.not_mem_nil
  | cons first rest induction =>
      obtain ⟨fits, lower, under, inner⟩ := nested
      rcases List.mem_cons.mp member with same | later
      · subst same
        exact ⟨fits, lower, le_rfl, le_trans under (lowest_le inner)⟩
      · obtain ⟨fits, lower, above, upper⟩ := induction inner later
        refine ⟨fits, lower, ?_, upper⟩
        simp only [lowest]
        omega

section Invariant

variable {layout : Layout Thread} {state : Kernel Thread}

/-- What holds of all threads in every state of a run. -/
structure FramesSound (layout : Layout Thread) (state : Kernel Thread) : Prop where
  nested : ∀ thread, Nested (layout.low thread) (layout.high thread) (state.pending thread)
  held : ∀ thread, ∀ frame ∈ state.pending thread, HoldsFrame state.cpu.memory frame
  asleep : ∀ thread ≠ state.running,
    (load state.cpu.memory (layout.context thread + 0).toNat).toNat ≤
      lowest (layout.high thread) (state.pending thread)

theorem frame_owned (sound : FramesSound layout state) {thread : Thread} {frame : Frame}
    (member : frame ∈ state.pending thread) {place : Nat} (inside : InFrame frame place) :
    layout.Owns thread place := by
  obtain ⟨-, lower, -, upper⟩ := nested_mem (sound.nested thread) member
  exact Or.inl ⟨le_trans lower inside.1, lt_of_lt_of_le inside.2 upper⟩

theorem owner_keeps_pointer {memory memory' : Memory} {thread : Thread}
    (same : ∀ place, layout.Owns thread place → memory' place = memory place) :
    load memory' (layout.context thread + 0).toNat =
      load memory (layout.context thread + 0).toNat :=
  saved_pointer_congr (layout.context_end thread)
    fun place lower upper => same place (Or.inr ⟨lower, upper⟩)

/-- A change of the running thread keeps the invariant if it leaves what others
own and the frames that still wait on its own stack. -/
theorem sound_of_kept (after : Kernel Thread) (sound : FramesSound layout state)
    (running : after.running = state.running)
    (others : state.system.LeavesOthers layout.Owns after.cpu.memory)
    (pending : ∀ thread ≠ state.running, after.pending thread = state.pending thread)
    (nested : Nested (layout.low state.running) (layout.high state.running)
      (after.pending state.running))
    (held : ∀ frame ∈ after.pending state.running, HoldsFrame after.cpu.memory frame) :
    FramesSound layout after := by
  constructor
  case nested =>
    intro thread
    by_cases own : thread = state.running
    · rw [own]; exact nested
    · rw [pending thread own]; exact sound.nested thread
  case held =>
    intro thread frame member
    by_cases own : thread = state.running
    · rw [own] at member; exact held frame member
    · rw [pending thread own] at member
      apply holds_frame_congr _ (sound.held thread frame member)
      intro place lower upper
      exact others thread own place (frame_owned sound member ⟨lower, upper⟩)
  case asleep =>
    intro thread other
    rw [running] at other
    rw [pending thread other, owner_keeps_pointer (others thread other)]
    exact sound.asleep thread other

theorem interrupt_sound [DecidableEq Thread] (code : Code) (event : Event)
    (sound : FramesSound layout state)
    (room : layout.low state.running + 64 ≤ state.esp.toNat)
    (below : state.esp.toNat ≤ lowest (layout.high state.running) (state.pending state.running)) :
    FramesSound layout (interrupted code state event) := by
  have entered : Entered 0x08 code.isrHandler code.back ⟨state.cpu, event⟩
      (interrupted code state event).cpu := enter_entered _ _ _ _ _ _
  have deep : 64 ≤ (state.cpu.regs .esp).toNat := by unfold Kernel.esp at room; omega
  have base := @frame_base ⟨state.cpu, event⟩ (by unfold frameSize; simp only; omega)
  have outside : ∀ place,
      place < (state.cpu.regs .esp).toNat - 64 ∨ (state.cpu.regs .esp).toNat ≤ place →
        (interrupted code state event).cpu.memory place = state.cpu.memory place :=
    fun place apart => entered_outside deep entered apart
  have top := lowest_le (sound.nested state.running)
  have stack : (interrupted code state event).pending state.running =
      ⟨state.cpu, event⟩ :: state.pending state.running := Function.update_self _ _ _
  unfold Kernel.esp at room below
  unfold frameSize at base
  apply sound_of_kept (interrupted code state event) sound rfl
  · intro thread other place owned
    apply outside
    have stacksApart := layout.stacks_apart thread state.running other
    have off := layout.context_off_stack thread state.running
    rcases owned with inStack | inContext <;> omega
  · intro thread other
    exact Function.update_of_ne other _ _
  · rw [stack]
    refine ⟨?_, ?_, ?_, sound.nested state.running⟩
    · unfold frameSize; simp only; omega
    · rw [base]; simp only; omega
    · rw [base]; unfold frameSize; simp only; omega
  · intro frame member
    rw [stack] at member
    rcases List.mem_cons.mp member with new | old
    · subst new
      exact (entered_holds deep entered).1
    · obtain ⟨-, -, above, -⟩ := nested_mem (sound.nested state.running) old
      apply holds_frame_congr _ (sound.held state.running frame old)
      intro place lower upper
      exact outside place (Or.inr (by omega))

theorem leave_sound [DecidableEq Thread] {frame : Frame} {rest : List Frame}
    (sound : FramesSound layout state)
    (innermost : state.pending state.running = frame :: rest) :
    FramesSound layout (left state rest) := by
  have stack : (left state rest).pending state.running = rest := Function.update_self _ _ _
  have nested := sound.nested state.running
  rw [innermost] at nested
  apply sound_of_kept (left state rest) sound rfl
  · intro thread other place owned
    rfl
  · intro thread other
    exact Function.update_of_ne other _ _
  · rw [stack]
    exact nested.2.2.2
  · intro frame' member
    rw [stack] at member
    have earlier : frame' ∈ state.pending state.running := by
      rw [innermost]
      exact List.mem_cons_of_mem _ member
    exact sound.held state.running frame' earlier

/-! ## Switching -/

section Switching

variable {next : Thread}

/-- Memory when the running thread's context has been written. -/
def savedMemory (layout : Layout Thread) (state : Kernel Thread) : Memory :=
  saveContext (machineOf state.cpu) (layout.context state.running)

/-- The stack pointer in the context that is switched to. -/
def nextPointer (layout : Layout Thread) (state : Kernel Thread) (next : Thread) : Word :=
  load (savedMemory layout state) (layout.context next + 0).toNat

theorem saved_pointer (ready : Ready layout state.system next) :
    load (savedMemory layout state) (layout.context state.running + 0).toNat = state.esp :=
  (ready.saved_holds (layout.places state.running)).esp

/-- What the running thread's saving leaves of the others. -/
theorem saved_keeps_owned (ready : Ready layout state.system next) {thread : Thread}
    (other : thread ≠ state.running) {place : Nat} (owned : layout.Owns thread place) :
    savedMemory layout state place = state.cpu.memory place :=
  ready.saved_outside (layout.places state.running) (layout.owns_apart other owned)

/-- The thread that is switched in goes on below its waiting frames. -/
theorem next_pointer_below (sound : FramesSound layout state)
    (ready : Ready layout state.system next)
    (below : state.esp.toNat + 12 ≤
      lowest (layout.high state.running) (state.pending state.running)) :
    (nextPointer layout state next).toNat ≤ lowest (layout.high next) (state.pending next) := by
  by_cases own : next = state.running
  · rw [nextPointer, own, saved_pointer ready]
    omega
  · rw [nextPointer, owner_keeps_pointer fun place owned => saved_keeps_owned ready own owned]
    exact sound.asleep next own

/-- Switching in writes the word below the stack pointer that is switched to. -/
theorem switch_outside [DecidableEq Thread] (ready : Ready layout state.system next) {place : Nat}
    (room : 4 ≤ (nextPointer layout state next).toNat)
    (outside : place < (nextPointer layout state next).toNat - 4 ∨
      (nextPointer layout state next).toNat ≤ place) :
    (switched state next).cpu.memory place = savedMemory layout state place :=
  ready.run_outside (layout.places state.running) room outside

theorem switch_keeps_owned [DecidableEq Thread] (ready : Ready layout state.system next)
    (inNext : layout.low next + 4 ≤ (nextPointer layout state next).toNat ∧
      (nextPointer layout state next).toNat + 4 ≤ layout.high next) {thread : Thread}
    (other : thread ≠ next) {place : Nat} (owned : layout.Owns thread place) :
    (switched state next).cpu.memory place = savedMemory layout state place := by
  have stacksApart := layout.stacks_apart thread next other
  have off := layout.context_off_stack thread next
  apply switch_outside ready (by omega)
  rcases owned with inStack | inContext <;> omega

theorem switch_sound [DecidableEq Thread] (sound : FramesSound layout state)
    (ready : Ready layout state.system next)
    (below : state.esp.toNat + 12 ≤
      lowest (layout.high state.running) (state.pending state.running))
    (others : ∀ thread ≠ state.running,
      Resumable layout state.cpu.memory thread (state.last thread)) :
    FramesSound layout (switched state next) := by
  have resumable := saved_resumable ready others next
  have inNext : layout.low next + 4 ≤ (nextPointer layout state next).toNat ∧
      (nextPointer layout state next).toNat + 4 ≤ layout.high next :=
    ⟨resumable.room, resumable.inside⟩
  have beneath := next_pointer_below sound ready below
  constructor
  case nested => exact sound.nested
  case held =>
    intro thread frame member
    obtain ⟨-, -, under, upper⟩ := nested_mem (sound.nested thread) member
    apply holds_frame_congr _ (sound.held thread frame member)
    intro place start finish
    have owned := frame_owned sound member ⟨start, finish⟩
    -- the frames of the thread that is switched in are above its stack pointer
    have written : (switched state next).cpu.memory place = savedMemory layout state place := by
      by_cases here : thread = next
      · rw [here] at under
        exact switch_outside ready (by omega) (by omega)
      · exact switch_keeps_owned ready inNext here owned
    rw [written]
    by_cases own : thread = state.running
    · rw [own] at under upper
      have above : state.esp.toNat ≤ place := by omega
      have inside : place < layout.high state.running := by omega
      exact ready.saved_stack (layout.places state.running) above inside
    · exact saved_keeps_owned ready own owned
  case asleep =>
    intro thread other
    rw [owner_keeps_pointer fun place owned => switch_keeps_owned ready inNext other owned]
    by_cases own : thread = state.running
    · rw [own, saved_pointer ready]
      exact le_trans (Nat.le_add_right _ 12) below
    · rw [owner_keeps_pointer fun place owned => saved_keeps_owned ready own owned]
      exact sound.asleep thread own

end Switching

end Invariant

/-! ## Every run -/

section Runs

variable [DecidableEq Thread] {code : Code} {layout : Layout Thread}
variable {start state after : Kernel Thread}

/-- What the switches are about is a run of threads that only compute and switch. -/
theorem step_system (sound : FramesSound layout state) (step : Step code layout state after) :
    ContextRuns.Step layout state.system after.system := by
  cases step with
  | work cpu others frames => exact ContextRuns.Step.work state.system (machineOf cpu) others
  | interrupt event room below =>
      apply ContextRuns.Step.work state.system
      intro thread other place owned
      have entered : Entered 0x08 code.isrHandler code.back ⟨state.cpu, event⟩
          (interrupted code state event).cpu := enter_entered _ _ _ _ _ _
      have stacksApart := layout.stacks_apart thread state.running other
      have off := layout.context_off_stack thread state.running
      have top := lowest_le (sound.nested state.running)
      unfold Kernel.esp at room below
      apply entered_outside (by simp only; omega) entered
      rcases owned with inStack | inContext <;> simp only <;> omega
  | switch next ready below =>
      have same : (switched state next).system = switchTo state.system next := by
        simp only [Kernel.system, switched, machine_of_with_machine, switchTo, Processor.switchTo]
      rw [same]
      exact ContextRuns.Step.switch state.system next ready
  | leave frame rest innermost returned =>
      apply ContextRuns.Step.work state.system
      intro thread other place owned
      rfl

/-- Nobody has been interrupted yet. -/
def Quiet (start : Kernel Thread) : Prop := ∀ thread, start.pending thread = []

omit [DecidableEq Thread] in
theorem quiet_sound (fresh : FreshContexts layout start.system) (quiet : Quiet start) :
    FramesSound layout start := by
  constructor
  case nested => intro thread; rw [quiet thread]; trivial
  case held =>
    intro thread frame member
    rw [quiet thread] at member
    exact absurd member List.not_mem_nil
  case asleep =>
    intro thread other
    obtain ⟨-, -, inside⟩ := fresh thread other
    rw [quiet thread]
    exact le_trans (Nat.le_add_right _ 4) inside

theorem step_sound (step : Step code layout state after) (sound : FramesSound layout state)
    (others : ∀ thread ≠ state.running,
      Resumable layout state.cpu.memory thread (state.last thread)) :
    FramesSound layout after := by
  cases step with
  | work cpu kept frames =>
      apply sound_of_kept { state with cpu := cpu } sound rfl kept (fun _ _ => rfl)
        (sound.nested state.running)
      intro frame member
      apply holds_frame_congr _ (sound.held state.running frame member)
      exact fun place lower upper => frames frame member place ⟨lower, upper⟩
  | interrupt event room below => exact interrupt_sound code event sound room below
  | switch next ready below => exact switch_sound sound ready below others
  | leave frame rest innermost returned => exact leave_sound sound innermost

theorem run_sound (fresh : FreshContexts layout start.system) (quiet : Quiet start)
    (reached : Relation.ReflTransGen (Step code layout) start state) :
    FramesSound layout state ∧
      Relation.ReflTransGen (ContextRuns.Step layout) start.system state.system := by
  induction reached with
  | refl => exact ⟨quiet_sound fresh quiet, Relation.ReflTransGen.refl⟩
  | tail _ step induction =>
      obtain ⟨sound, run⟩ := induction
      exact ⟨step_sound step sound (run_resumable fresh run), run.tail (step_system sound step)⟩

/-- In every run, when `isr_handler` returns, the stub puts back the registers,
flags and segments of the code that was interrupted, whatever other interrupts
and threads came in between. -/
theorem interrupts_are_transparent (code : Code) (layout : Layout Thread)
    (fresh : FreshContexts layout start.system) (quiet : Quiet start)
    (reached : Relation.ReflTransGen (Step code layout) start state) {frame : Frame}
    {rest : List Frame} (innermost : state.pending state.running = frame :: rest)
    (returned : state.esp + 4 = frame.base) :
    Restored (left state rest).cpu frame.was := by
  have sound := (run_sound fresh quiet reached).1
  have member : frame ∈ state.pending state.running := by
    rw [innermost]
    exact List.mem_cons_self
  obtain ⟨fits, -, -, -⟩ := nested_mem (sound.nested state.running) member
  exact leave_restores fits (sound.held state.running frame member) returned

end Runs

/-! ### A timer interrupt with a switch away and back -/

def sampleCode : Code :=
  { isr := fun number => 0x100000 + number.setWidth 32, isrHandler := 0x200000, back := 0x100400 }

def timerEvent : Event := { number := 32, errorCode := none, has_code := rfl }

def sampleCpu : Cpu :=
  { regs := fun
      | .esp => 0x3800
      | .eax => 0xDEADBEEF
      | .edx => 5
      | _ => 7
    segs := fun
      | .cs => 8
      | _ => 0x10
    eflags := 0x246
    eip := 0x101234
    memory := store (fun _ => 0) 0x2000 0x5800 }

def sampleStart : Kernel Bool :=
  { cpu := sampleCpu, running := false, last := fun _ => none, pending := fun _ => [] }

/-- The running thread is about to call `switch_context` at the stack pointer. -/
def calling (cpu : Cpu) (esp own next : Word) : Cpu :=
  { cpu.setReg .esp esp with
    memory := store (store cpu.memory (esp + 4).toNat own) (esp + 8).toNat next }

def sampleHandled : Kernel Bool := interrupted sampleCode sampleStart timerEvent

def sampleCalling : Kernel Bool :=
  { sampleHandled with cpu := calling sampleHandled.cpu 0x3700 0x1000 0x2000 }

def sampleAway : Kernel Bool := switched sampleCalling true

def sampleReturning : Kernel Bool :=
  { sampleAway with cpu := calling sampleAway.cpu 0x5700 0x2000 0x1000 }

def sampleBack : Kernel Bool := switched sampleReturning false

def sampleDone : Kernel Bool :=
  { sampleBack with cpu := sampleBack.cpu.setReg .esp 0x37C4 }

theorem calling_outside (cpu : Cpu) {esp own next : Word} {place : Nat}
    (outside : place < (esp + 4).toNat ∨ (esp + 8).toNat + 4 ≤ place)
    (order : (esp + 4).toNat + 4 = (esp + 8).toNat) :
    (calling cpu esp own next).memory place = cpu.memory place := by
  simp only [calling]
  rw [store_outside (by omega), store_outside (by omega)]

theorem interrupts_are_transparent_sample :
    Restored (left sampleDone []).cpu sampleCpu := by
  have fresh : FreshContexts pairLayout sampleStart.system := by
    intro thread other
    cases thread with
    | false => exact absurd rfl other
    | true => decide +kernel
  have quiet : Quiet sampleStart := fun _ => rfl
  have arrives : Step sampleCode pairLayout sampleStart sampleHandled :=
    Step.interrupt sampleStart timerEvent (by decide) (by decide)
  have calls : Step sampleCode pairLayout sampleHandled sampleCalling := by
    apply Step.work
    · intro thread other place owned
      cases thread with
      | false => exact absurd rfl other
      | true =>
          apply calling_outside _ _ (by decide)
          rcases owned with inStack | inContext
          · exact Or.inr (le_trans (by decide) inStack.1)
          · exact Or.inl (lt_trans inContext.2 (by decide))
    · intro frame member place inside
      have same : frame = ⟨sampleCpu, timerEvent⟩ := List.mem_singleton.mp member
      subst same
      exact calling_outside _ (Or.inr (le_trans (by decide) inside.1)) (by decide)
  have away : Step sampleCode pairLayout sampleCalling sampleAway :=
    Step.switch sampleCalling true
      ⟨by decide, by decide, by decide +kernel, by decide +kernel⟩ (by decide)
  have returns : Step sampleCode pairLayout sampleAway sampleReturning := by
    apply Step.work
    · intro thread other place owned
      cases thread with
      | true => exact absurd rfl other
      | false =>
          apply calling_outside _ _ (by decide)
          rcases owned with inStack | inContext
          · exact Or.inl (lt_trans inStack.2 (by decide))
          · exact Or.inl (lt_trans inContext.2 (by decide))
    · intro frame member
      exact absurd member List.not_mem_nil
  have back : Step sampleCode pairLayout sampleReturning sampleBack :=
    Step.switch sampleReturning false
      ⟨by decide, by decide, by decide +kernel, by decide +kernel⟩ (by decide)
  have done : Step sampleCode pairLayout sampleBack sampleDone :=
    Step.work sampleBack _ (fun _ _ _ _ => rfl) (fun _ _ _ _ => rfl)
  have reached := (((((Relation.ReflTransGen.refl.tail arrives).tail calls).tail away).tail
    returns).tail back).tail done
  exact interrupts_are_transparent sampleCode pairLayout fresh quiet reached rfl (by decide)

end ChaoOS.InterruptRuns
