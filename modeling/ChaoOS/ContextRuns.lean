import ChaoOS.ContextSwitch
import Mathlib.Logic.Relation

/-!
# Threads that switch among each other

Any number of threads with their own contexts and stacks take turns. The
running thread changes registers and memory as it likes, outside what the others
own, and calls `switch_context`. The calls are recorded, so that what a thread
finds when it is switched in can be compared with its own last call.
-/

namespace ChaoOS.ContextRuns

open ChaoOS.ByteMemory ChaoOS.ContextSwitch

set_option autoImplicit false

/-- Where each thread has its `context_t` and its stack. -/
structure Layout (Thread : Type*) where
  context : Thread → Word
  low : Thread → Nat
  high : Thread → Nat
  context_end : ∀ thread, (context thread).toNat + contextSize ≤ 2 ^ 32
  stack_end : ∀ thread, high thread ≤ 2 ^ 32
  contexts_apart : ∀ thread other, thread ≠ other →
    RangesApart (context thread).toNat contextSize (context other).toNat contextSize
  stacks_apart : ∀ thread other, thread ≠ other →
    high thread ≤ low other ∨ high other ≤ low thread
  context_off_stack : ∀ thread other,
    (context thread).toNat + contextSize ≤ low other ∨ high other ≤ (context thread).toNat

variable {Thread : Type*}

namespace Layout

variable (layout : Layout Thread)

def Owns (thread : Thread) (place : Nat) : Prop :=
  OwnPlace (layout.low thread) (layout.high thread) (layout.context thread) place

theorem places (thread : Thread) :
    ThreadPlaces (layout.low thread) (layout.high thread) (layout.context thread) :=
  ⟨layout.context_end thread, layout.stack_end thread, layout.context_off_stack thread thread⟩

/-- Nobody owns what another thread owns. -/
theorem owns_apart {thread other : Thread} (different : thread ≠ other) {place : Nat}
    (owned : layout.Owns thread place) : ¬layout.Owns other place := by
  have contexts := layout.contexts_apart thread other different
  have stacksApart := layout.stacks_apart thread other different
  have off := layout.context_off_stack thread other
  have off' := layout.context_off_stack other thread
  unfold RangesApart at contexts
  unfold Owns OwnPlace at owned ⊢
  omega

end Layout

structure System (Thread : Type*) extends Processor Thread where
  last : Thread → Option Saved

section Steps

variable [DecidableEq Thread]

/-- The running thread calls `switch_context` with its own context and that of `next`. -/
abbrev Ready (layout : Layout Thread) (state : System Thread) (next : Thread) : Prop :=
  CallsSwitch state.machine (layout.low state.running) (layout.high state.running)
    (layout.context state.running) (layout.context next)

def switchTo (state : System Thread) (next : Thread) : System Thread :=
  { state.toProcessor.switchTo next with
    last := Function.update state.last state.running (some (atCall state.machine)) }

inductive Step (layout : Layout Thread) : System Thread → System Thread → Prop
  | work (state : System Thread) (machine : Machine)
      (kept : state.LeavesOthers layout.Owns machine.memory) :
      Step layout state { state with machine := machine }
  | switch (state : System Thread) (next : Thread) (ready : Ready layout state next) :
      Step layout state (switchTo state next)

end Steps

/-! ## Threads that can be switched in -/

/-- The thread's context has a stack pointer inside its own stack; if the thread
has called `switch_context`, context and stack are as it left them. -/
structure Resumable (layout : Layout Thread) (memory : Memory) (thread : Thread)
    (last : Option Saved) : Prop where
  room : layout.low thread + 4 ≤ (load memory (layout.context thread + 0).toNat).toNat
  inside : (load memory (layout.context thread + 0).toNat).toNat + 4 ≤ layout.high thread
  context : ∀ saved, last = some saved → HoldsContext memory (layout.context thread) saved
  address : ∀ saved, last = some saved → load memory saved.esp.toNat = saved.returnAddress

variable {layout : Layout Thread} {state : System Thread}

theorem Resumable.congr {memory memory' : Memory} {thread : Thread} {last : Option Saved}
    (resumable : Resumable layout memory thread last)
    (same : ∀ place, layout.Owns thread place → memory' place = memory place) :
    Resumable layout memory' thread last := by
  obtain ⟨room, inside, context, address⟩ := resumable
  have fits := layout.context_end thread
  have block : ∀ place, (layout.context thread).toNat ≤ place →
      place < (layout.context thread).toNat + contextSize → memory' place = memory place :=
    fun place lower upper => same place (Or.inr ⟨lower, upper⟩)
  have pointer : load memory' (layout.context thread + 0).toNat =
      load memory (layout.context thread + 0).toNat := saved_pointer_congr fits block
  refine ⟨by rw [pointer]; exact room, by rw [pointer]; exact inside, ?_, ?_⟩
  · exact fun saved out => holds_context_congr fits block (context saved out)
  · intro saved out
    have own : load memory (layout.context thread + 0).toNat = saved.esp := (context saved out).esp
    rw [own] at room inside
    rw [← address saved out]
    apply load_congr
    intro place lower upper
    exact same place (Or.inl ⟨by omega, by omega⟩)

section Switches

variable [DecidableEq Thread] {next : Thread}

/-- When the context of the running thread has been saved, every thread can be
switched in, the running one included. -/
theorem saved_resumable (ready : Ready layout state next)
    (others : ∀ thread ≠ state.running,
      Resumable layout state.machine.memory thread (state.last thread)) (thread : Thread) :
    Resumable layout (saveContext state.machine (layout.context state.running)) thread
      ((switchTo state next).last thread) := by
  have places := layout.places state.running
  by_cases here : thread = state.running
  · subst here
    have last : (switchTo state next).last state.running = some (atCall state.machine) :=
      Function.update_self _ _ _
    have holds := ready.saved_holds places
    have pointer : load (saveContext state.machine (layout.context state.running))
        (layout.context state.running + 0).toNat = state.machine.regs .esp := holds.esp
    have room := ready.room
    have frame := ready.frame
    refine ⟨by rw [pointer]; exact room, by rw [pointer]; omega, ?_, ?_⟩
    · intro saved out
      rw [last, Option.some.injEq] at out
      rw [← out]
      exact holds
    · intro saved out
      rw [last, Option.some.injEq] at out
      rw [← out]
      apply load_congr
      intro place lower upper
      simp only [atCall] at lower upper
      exact ready.saved_stack places lower (by omega)
  · have last : (switchTo state next).last thread = state.last thread :=
      Function.update_of_ne here _ _
    rw [last]
    apply (others thread here).congr
    exact fun place owned => ready.saved_outside places (layout.owns_apart here owned)

theorem switch_resumable (ready : Ready layout state next)
    (others : ∀ thread ≠ state.running,
      Resumable layout state.machine.memory thread (state.last thread)) :
    ∀ thread ≠ next, Resumable layout (runSwitch state.machine).memory thread
      ((switchTo state next).last thread) := by
  intro thread other
  have resumable := saved_resumable ready others
  obtain ⟨room, inside, -, -⟩ := resumable next
  have stacksApart := layout.stacks_apart thread next other
  have off := layout.context_off_stack thread next
  apply (resumable thread).congr
  intro place owned
  apply ready.run_outside (layout.places state.running) (by omega)
  rcases owned with inStack | inContext <;> omega

/-- What the thread finds that is switched in. -/
structure Resumes (machine : Machine) (saved : Saved) : Prop where
  esp : machine.regs .esp = saved.esp + 4
  ebp : machine.regs .ebp = saved.ebp
  ebx : machine.regs .ebx = saved.ebx
  esi : machine.regs .esi = saved.esi
  edi : machine.regs .edi = saved.edi
  eflags : machine.eflags = saved.eflags
  eip : machine.eip = saved.returnAddress

theorem switch_resumes (ready : Ready layout state next)
    (others : ∀ thread ≠ state.running,
      Resumable layout state.machine.memory thread (state.last thread)) {saved : Saved}
    (out : (switchTo state next).last next = some saved) :
    Resumes (runSwitch state.machine) saved := by
  obtain ⟨room, -, context, address⟩ := saved_resumable ready others next
  obtain ⟨esp, ebp, ebx, esi, edi, eflags, -, eip⟩ :=
    run_switch_eq ready.curArgument (ready.saved_next (layout.places state.running))
  have holds := context saved out
  have restored := address saved out
  rw [holds.esp] at room esp eip
  have below : (saved.esp - 4).toNat + 4 = saved.esp.toNat := by bv_omega
  rw [load_store_apart (Or.inl (le_of_eq below)), restored] at eip
  exact ⟨esp, ebp.trans holds.ebp, ebx.trans holds.ebx, esi.trans holds.esi,
    edi.trans holds.edi, eflags.trans holds.eflags, eip⟩

theorem step_resumable {after : System Thread} (step : Step layout state after)
    (others : ∀ thread ≠ state.running,
      Resumable layout state.machine.memory thread (state.last thread)) :
    ∀ thread ≠ after.running,
      Resumable layout after.machine.memory thread (after.last thread) := by
  cases step with
  | work machine kept => exact fun thread other => (others thread other).congr (kept thread other)
  | switch next ready => exact switch_resumable ready others

/-- Threads that have not run yet have a stack pointer inside their own stack. -/
def FreshContexts (layout : Layout Thread) (start : System Thread) : Prop :=
  ∀ thread ≠ start.running, start.last thread = none ∧
    layout.low thread + 4 ≤
      (load start.machine.memory (layout.context thread + 0).toNat).toNat ∧
    (load start.machine.memory (layout.context thread + 0).toNat).toNat + 4 ≤
      layout.high thread

theorem run_resumable {start : System Thread} (fresh : FreshContexts layout start)
    (reached : Relation.ReflTransGen (Step layout) start state) :
    ∀ thread ≠ state.running,
      Resumable layout state.machine.memory thread (state.last thread) := by
  induction reached with
  | refl =>
      intro thread other
      obtain ⟨unused, room, inside⟩ := fresh thread other
      exact ⟨room, inside, by simp [unused], by simp [unused]⟩
  | tail _ step induction => exact step_resumable step induction

/-- In every run, a thread that is switched in again goes on where it called
`switch_context` last, with what it had there. -/
theorem switches_are_transparent (layout : Layout Thread) {start : System Thread}
    (fresh : FreshContexts layout start)
    (reached : Relation.ReflTransGen (Step layout) start state) (ready : Ready layout state next)
    {saved : Saved} (out : (switchTo state next).last next = some saved) :
    Resumes (switchTo state next).machine saved :=
  switch_resumes ready (run_resumable fresh reached) out

end Switches

/-! ### Two threads -/

def pairLayout : Layout Bool where
  context := fun thread => if thread then 0x2000 else 0x1000
  low := fun thread => if thread then 0x5000 else 0x3000
  high := fun thread => if thread then 0x6000 else 0x4000
  context_end := by decide
  stack_end := by decide
  contexts_apart := by decide
  stacks_apart := by decide
  context_off_stack := by decide

/-- The first thread is about to switch to the second one. -/
def firstMachine : Machine :=
  { regs := fun reg => if reg = .esp then 0x3800 else 7
    eflags := 0x202
    eip := 0
    memory := store (store (store (store (fun _ => 0) 0x3800 0x401000) 0x3804 0x1000) 0x3808 0x2000)
      0x2000 0x5800 }

def pairStart : System Bool :=
  { machine := firstMachine, running := false, last := fun _ => none }

/-- The second thread has put the arguments for switching back on its stack. -/
def secondMachine : Machine :=
  { regs := fun reg => if reg = .esp then 0x5700 else 9
    eflags := 0x246
    eip := 0
    memory := store (store (runSwitch firstMachine).memory 0x5704 0x2000) 0x5708 0x1000 }

def pairMiddle : System Bool := { switchTo pairStart true with machine := secondMachine }

theorem switches_are_transparent_sample :
    Resumes (switchTo pairMiddle false).machine (atCall firstMachine) := by
  have fresh : FreshContexts pairLayout pairStart := by
    intro thread other
    cases thread with
    | false => exact absurd rfl other
    | true => decide +kernel
  have ready : Ready pairLayout pairStart true :=
    ⟨by decide, by decide, by decide +kernel, by decide +kernel⟩
  have there := Step.switch pairStart true ready
  have works : Step pairLayout (switchTo pairStart true) pairMiddle := by
    apply Step.work
    intro thread other place owned
    cases thread with
    | true => exact absurd rfl other
    | false =>
        have outside : place < 0x5000 := by
          rcases owned with inStack | inContext
          · exact lt_trans inStack.2 (by decide)
          · exact lt_trans inContext.2 (by decide)
        have untouched : secondMachine.memory place = (runSwitch firstMachine).memory place := by
          simp only [secondMachine]
          rw [store_outside (by omega), store_outside (by omega)]
        exact untouched
  have back : Ready pairLayout pairMiddle false :=
    ⟨by decide, by decide, by decide +kernel, by decide +kernel⟩
  have reached := (Relation.ReflTransGen.refl.tail there).tail works
  exact switches_are_transparent pairLayout fresh reached back rfl

end ChaoOS.ContextRuns
