import ChaoOS.ContextSwitch
import ChaoOS.TaskModel
import Mathlib.Logic.Relation

/-!
# The first instruction of a thread

`thread_create` fills in a context and the three words on top of the new stack;
`switch_context` loads that context some time later and returns into the word it
finds on the stack. What the thread's function then sees as its return address
and as its argument is compared with the calling convention.

Threads come and go: a thread has a struct and a stack, the running thread works
on its own stack and on memory that is no other thread's, creates threads, has
others released, and calls `switch_context`.
-/

namespace ChaoOS.ThreadStart

open ChaoOS.ByteMemory ChaoOS.ContextSwitch
open ChaoOS.TaskModel (stackSizeKernel)

set_option autoImplicit false

/-- `sizeof(task_struct_t)`. -/
def taskSize : Nat := 60

def taskRunnable : Word := 2

/-- The addresses that `thread_create` takes from the linked image. -/
structure Image where
  threadExit : Word
  /-- The physical address of the kernel's page directory. -/
  pageDir : Word

/-- The struct and the stack of one thread. -/
structure Space where
  task : Word
  stack : Word
  task_end : task.toNat + taskSize ≤ 2 ^ 32
  stack_end : stack.toNat + stackSizeKernel ≤ 2 ^ 32
  apart : RangesApart task.toNat taskSize stack.toNat stackSizeKernel

namespace Space

/-- `&task->context`. -/
def context (space : Space) : Word := space.task + 20

def InStack (space : Space) (place : Nat) : Prop :=
  space.stack.toNat ≤ place ∧ place < space.stack.toNat + stackSizeKernel

def InContext (space : Space) (place : Nat) : Prop :=
  space.task.toNat + 20 ≤ place ∧ place < space.task.toNat + 20 + contextSize

/-- What only the thread itself, `thread_create` and `switch_context` write. -/
def Owns (space : Space) (place : Nat) : Prop := space.InStack place ∨ space.InContext place

def Covers (space : Space) (place : Nat) : Prop :=
  space.InStack place ∨ space.task.toNat ≤ place ∧ place < space.task.toNat + taskSize

end Space

/-- The words `thread_create` writes to the struct and the stack of a new thread. -/
def threadCreate (image : Image) (memory : Memory) (space : Space) (pid ppid fn arg : Word) :
    Memory :=
  let newTask := space.task
  let memory := store memory (newTask + 0).toNat 0
  let memory := store memory (newTask + 4).toNat 0
  let memory := store memory (newTask + 8).toNat pid
  let memory := store memory (newTask + 12).toNat ppid
  let memory := store memory (newTask + 16).toNat space.stack
  let memory := store memory (newTask + 44).toNat image.pageDir
  let memory := store memory (newTask + 48).toNat taskRunnable
  let newStack := space.stack + stackSizeKernel
  let newStack := newStack - 4
  let memory := store memory newStack.toNat image.threadExit
  let newStack := newStack - 4
  let memory := store memory newStack.toNat arg
  let newStack := newStack - 4
  let memory := store memory newStack.toNat fn
  let memory := store memory (newTask + 20).toNat newStack
  store memory (newTask + 40).toNat 0x200

/-! ## Runs -/

variable {Thread : Type*}

/-- `fresh` has the function and the argument of every thread that has not run. -/
structure System (Thread : Type*) extends Processor Thread where
  space : Thread → Option Space
  fresh : Thread → Option (Word × Word)

def System.Owns (state : System Thread) (thread : Thread) (place : Nat) : Prop :=
  ∃ space, state.space thread = some space ∧ space.Owns place

section Steps

variable [DecidableEq Thread]

/-- The running thread calls `switch_context` with its own context and that of another
thread. -/
structure Ready (state : System Thread) (next : Thread) (own other : Space) : Prop extends
    CallsSwitch state.machine own.stack.toNat (own.stack.toNat + stackSizeKernel) own.context
      other.context where
  different : next ≠ state.running
  ownSpace : state.space state.running = some own
  otherSpace : state.space next = some other

def create (image : Image) (state : System Thread) (thread : Thread) (space : Space)
    (pid ppid fn arg : Word) : System Thread :=
  { state with
    machine :=
      { state.machine with memory := threadCreate image state.machine.memory space pid ppid fn arg }
    space := Function.update state.space thread (some space)
    fresh := Function.update state.fresh thread (some (fn, arg)) }

def switchTo (state : System Thread) (next : Thread) : System Thread :=
  { state with
    toProcessor := state.toProcessor.switchTo next
    fresh := Function.update state.fresh next none }

def release (state : System Thread) (thread : Thread) : System Thread :=
  { state with
    space := Function.update state.space thread none
    fresh := Function.update state.fresh thread none }

inductive Step (image : Image) : System Thread → System Thread → Prop
  | work (state : System Thread) (machine : Machine)
      (kept : state.LeavesOthers state.Owns machine.memory) :
      Step image state { state with machine := machine }
  | create (state : System Thread) (thread : Thread) (space : Space) (pid ppid fn arg : Word)
      (new : state.space thread = none)
      (apart : ∀ other taken, state.space other = some taken →
        ∀ place, space.Covers place → ¬taken.Covers place) :
      Step image state (create image state thread space pid ppid fn arg)
  | switch (state : System Thread) (next : Thread) (own other : Space)
      (ready : Ready state next own other) : Step image state (switchTo state next)
  | release (state : System Thread) (thread : Thread) (different : thread ≠ state.running) :
      Step image state (release state thread)

/-- Only the first thread is there. -/
def Booted (start : System Thread) : Prop :=
  (∃ space, start.space = Function.update (fun _ => none) start.running (some space)) ∧
    ∀ thread, start.fresh thread = none

end Steps

/-- A function entered by the convention of C: the return address on top of the
stack, the argument above it. -/
structure EntersWith (machine : Machine) (fn arg returnAddress : Word) : Prop where
  eip : machine.eip = fn
  returnAddress : load machine.memory (machine.regs .esp).toNat = returnAddress
  argument : load machine.memory (machine.regs .esp + 4).toNat = arg

/-! ## A thread that has not run -/

/-- The stack pointer in the context is inside the stack. -/
def HasRoom (memory : Memory) (space : Space) : Prop :=
  space.stack.toNat + 4 ≤ (load memory (space.context + 0).toNat).toNat ∧
    (load memory (space.context + 0).toNat).toNat + 4 ≤ space.stack.toNat + stackSizeKernel

/-- What `thread_create` leaves in the context and on the stack. -/
structure Prepared (image : Image) (memory : Memory) (space : Space) (fn arg : Word) : Prop where
  pointer : (load memory (space.context + 0).toNat).toNat + 12 =
    space.stack.toNat + stackSizeKernel
  fn : load memory (space.stack.toNat + 0x3FF4) = fn
  arg : load memory (space.stack.toNat + 0x3FF8) = arg
  exit : load memory (space.stack.toNat + 0x3FFC) = image.threadExit

section Spaces

variable {image : Image} {memory memory' : Memory} {space : Space} {fn arg : Word}

theorem Space.owns_covers {place : Nat} (owned : space.Owns place) : space.Covers place := by
  rcases owned with inStack | inContext
  · exact Or.inl inStack
  · right
    unfold Space.InContext contextSize at inContext
    unfold taskSize
    omega

theorem Space.context_address (space : Space) : (space.context + 0).toNat = space.task.toNat + 20 ∧
    space.context.toNat = space.task.toNat + 20 := by
  have fits := space.task_end
  unfold taskSize at fits
  unfold Space.context
  constructor <;> bv_omega

theorem Space.places (space : Space) :
    ThreadPlaces space.stack.toNat (space.stack.toNat + stackSizeKernel) space.context := by
  have fits := space.task_end
  have apart := space.apart
  unfold RangesApart at apart
  unfold taskSize at fits apart
  constructor
  case context_end => rw [space.context_address.2, contextSize]; omega
  case stack_end => exact space.stack_end
  case apart => rw [space.context_address.2, contextSize]; omega

theorem Space.covers_of_own_place {place : Nat}
    (owned : OwnPlace space.stack.toNat (space.stack.toNat + stackSizeKernel) space.context place) :
    space.Covers place := by
  apply Space.owns_covers
  unfold OwnPlace at owned
  rwa [space.context_address.2] at owned

theorem load_stack_congr (same : ∀ place, space.Owns place → memory' place = memory place)
    {offset : Nat} (inside : offset + 4 ≤ stackSizeKernel) :
    load memory' (space.stack.toNat + offset) = load memory (space.stack.toNat + offset) := by
  apply load_congr
  intro place lower upper
  exact same place (Or.inl ⟨by omega, by omega⟩)

theorem load_pointer_congr (same : ∀ place, space.Owns place → memory' place = memory place) :
    load memory' (space.context + 0).toNat = load memory (space.context + 0).toNat := by
  apply saved_pointer_congr space.places.context_end
  intro place lower upper
  rw [space.context_address.2] at lower upper
  exact same place (Or.inr ⟨lower, upper⟩)

theorem HasRoom.congr (room : HasRoom memory space)
    (same : ∀ place, space.Owns place → memory' place = memory place) : HasRoom memory' space := by
  unfold HasRoom
  rw [load_pointer_congr same]
  exact room

theorem Prepared.congr (prepared : Prepared image memory space fn arg)
    (same : ∀ place, space.Owns place → memory' place = memory place) :
    Prepared image memory' space fn arg := by
  constructor
  · rw [load_pointer_congr same]
    exact prepared.pointer
  · rw [load_stack_congr same (by decide)]
    exact prepared.fn
  · rw [load_stack_congr same (by decide)]
    exact prepared.arg
  · rw [load_stack_congr same (by decide)]
    exact prepared.exit

theorem Prepared.has_room (prepared : Prepared image memory space fn arg) :
    HasRoom memory space := by
  have pointer := prepared.pointer
  unfold HasRoom stackSizeKernel at *
  omega

/-- The fields of the struct that `thread_create` assigns. -/
theorem task_field_addresses (space : Space) :
    (space.task + 0).toNat = space.task.toNat ∧ (space.task + 4).toNat = space.task.toNat + 4 ∧
      (space.task + 8).toNat = space.task.toNat + 8 ∧
      (space.task + 12).toNat = space.task.toNat + 12 ∧
      (space.task + 16).toNat = space.task.toNat + 16 ∧
      (space.task + 20).toNat = space.task.toNat + 20 ∧
      (space.task + 40).toNat = space.task.toNat + 40 ∧
      (space.task + 44).toNat = space.task.toNat + 44 ∧
      (space.task + 48).toNat = space.task.toNat + 48 := by
  have fits := space.task_end
  unfold taskSize at fits
  refine ⟨?_, ?_, ?_, ?_, ?_, ?_, ?_, ?_, ?_⟩ <;> bv_omega

/-- The three words it pushes. -/
theorem pushed_addresses (space : Space) :
    (space.stack + stackSizeKernel - 4).toNat = space.stack.toNat + 0x3FFC ∧
      (space.stack + stackSizeKernel - 4 - 4).toNat = space.stack.toNat + 0x3FF8 ∧
      (space.stack + stackSizeKernel - 4 - 4 - 4).toNat = space.stack.toNat + 0x3FF4 := by
  have fits := space.stack_end
  have size : ((stackSizeKernel : Nat) : Word) = 0x4000 := rfl
  unfold stackSizeKernel at fits
  rw [size]
  refine ⟨?_, ?_, ?_⟩ <;> bv_omega

theorem Space.task_store_outside {place offset : Nat} {value : Word}
    (outside : ¬space.Covers place) (inside : offset + 4 ≤ taskSize) :
    store memory (space.task.toNat + offset) value place = memory place := by
  have apart := not_and_or.mp (not_or.mp outside).2
  exact store_outside (by omega)

theorem Space.stack_store_outside {place offset : Nat} {value : Word}
    (outside : ¬space.Covers place) (inside : offset + 4 ≤ stackSizeKernel) :
    store memory (space.stack.toNat + offset) value place = memory place := by
  have apart := not_and_or.mp (not_or.mp outside).1
  exact store_outside (by omega)

/-- Only the new thread's struct and stack are written. -/
theorem thread_create_outside {pid ppid : Word} {place : Nat} (outside : ¬space.Covers place) :
    threadCreate image memory space pid ppid fn arg place = memory place := by
  obtain ⟨exit, argument, entry⟩ := pushed_addresses space
  obtain ⟨a0, a4, a8, a12, a16, a20, a40, a44, a48⟩ := task_field_addresses space
  rw [← Nat.add_zero space.task.toNat] at a0
  have inTask : ∀ {memory : Memory} {value : Word} (offset : Nat), offset + 4 ≤ taskSize →
      store memory (space.task.toNat + offset) value place = memory place :=
    fun offset inside => space.task_store_outside outside inside
  have inStack : ∀ {memory : Memory} {value : Word} (offset : Nat), offset + 4 ≤ stackSizeKernel →
      store memory (space.stack.toNat + offset) value place = memory place :=
    fun offset inside => space.stack_store_outside outside inside
  simp only [threadCreate, exit, argument, entry, a0, a4, a8, a12, a16, a20, a40, a44, a48]
  rw [inTask 40 (by decide), inTask 20 (by decide)]
  rw [inStack 0x3FF4 (by decide), inStack 0x3FF8 (by decide), inStack 0x3FFC (by decide)]
  rw [inTask 48 (by decide), inTask 44 (by decide), inTask 16 (by decide), inTask 12 (by decide),
    inTask 8 (by decide), inTask 4 (by decide), inTask 0 (by decide)]

theorem thread_create_prepared (pid ppid : Word) :
    Prepared image (threadCreate image memory space pid ppid fn arg) space fn arg := by
  obtain ⟨exit, argument, entry⟩ := pushed_addresses space
  obtain ⟨-, -, -, -, -, a20, a40, -, -⟩ := task_field_addresses space
  have apart := space.apart
  unfold RangesApart taskSize stackSizeKernel at apart
  have skip : ∀ {memory : Memory} {address other : Nat} {value : Word},
      address + 4 ≤ other ∨ other + 4 ≤ address →
      load (store memory address value) other = load memory other :=
    fun apart => load_store_apart apart
  constructor
  all_goals simp only [threadCreate, a20, a40, exit, argument, entry, space.context_address.1]
  case pointer =>
      rw [skip (by omega), load_store_same, entry, stackSizeKernel]
  case fn => rw [skip (by omega), skip (by omega), load_store_same]
  case arg => rw [skip (by omega), skip (by omega), skip (by omega), load_store_same]
  case exit =>
      rw [skip (by omega), skip (by omega), skip (by omega), skip (by omega), load_store_same]

end Spaces

/-! ## What a run keeps -/

section Switches

/-- Spaces have no byte in common, every thread that is switched out can be
switched in, and a fresh one is as `thread_create` left it. -/
structure Sound (image : Image) (state : System Thread) : Prop where
  apart : ∀ thread other space taken, thread ≠ other → state.space thread = some space →
    state.space other = some taken → ∀ place, space.Covers place → ¬taken.Covers place
  running : ∃ space, state.space state.running = some space
  room : ∀ thread ≠ state.running, ∀ space, state.space thread = some space →
    HasRoom state.machine.memory space
  fresh : ∀ thread fn arg, state.fresh thread = some (fn, arg) → thread ≠ state.running ∧
    ∃ space, state.space thread = some space ∧
      Prepared image state.machine.memory space fn arg

variable {image : Image} {state : System Thread} {next : Thread} {own other : Space}

theorem saved_elsewhere (ready : Ready state next own other) {place : Nat}
    (outside : ¬own.Covers place) :
    saveContext state.machine own.context place = state.machine.memory place :=
  ready.saved_outside own.places fun owned => outside (Space.covers_of_own_place owned)

/-- The context of the thread that is switched out has its stack pointer. -/
theorem saved_room (ready : Ready state next own other) :
    HasRoom (saveContext state.machine own.context) own := by
  have room := ready.room
  have frame := ready.frame
  have pointer : load (saveContext state.machine own.context) (own.context + 0).toNat =
      state.machine.regs .esp := (ready.saved_holds own.places).esp
  unfold HasRoom
  rw [pointer]
  omega

/-- A switch as the thread that is switched in sees it. -/
structure SwitchedIn (state : System Thread) (own other : Space) : Prop where
  esp : (runSwitch state.machine).regs .esp =
    load state.machine.memory (other.context + 0).toNat + 4
  eip : (runSwitch state.machine).eip =
    load state.machine.memory (load state.machine.memory (other.context + 0).toNat).toNat
  elsewhere : ∀ place, ¬other.Covers place → (runSwitch state.machine).memory place =
    saveContext state.machine own.context place
  above : ∀ place, other.Covers place →
    (load state.machine.memory (other.context + 0).toNat).toNat ≤ place →
    (runSwitch state.machine).memory place = state.machine.memory place

theorem switched_in (sound : Sound image state) (ready : Ready state next own other) :
    SwitchedIn state own other := by
  have apart := sound.apart next state.running other own ready.different ready.otherSpace
    ready.ownSpace
  obtain ⟨low, high⟩ := sound.room next ready.different other ready.otherSpace
  have kept : ∀ place, other.Covers place →
      saveContext state.machine own.context place = state.machine.memory place :=
    fun place covered => saved_elsewhere ready (apart place covered)
  have pointer : load (saveContext state.machine own.context) (other.context + 0).toNat =
      load state.machine.memory (other.context + 0).toNat :=
    load_pointer_congr fun place owned => kept place (Space.owns_covers owned)
  obtain ⟨esp, -, -, -, -, -, -, eip⟩ :=
    run_switch_eq ready.curArgument (ready.saved_next own.places)
  rw [pointer] at esp eip
  obtain ⟨stack, named⟩ : ∃ stack, load state.machine.memory (other.context + 0).toNat = stack :=
    ⟨_, rfl⟩
  rw [named] at low high esp eip
  have below : (stack - 4).toNat = stack.toNat - 4 := by bv_omega
  have word : load (saveContext state.machine own.context) stack.toNat =
      load state.machine.memory stack.toNat := by
    apply load_congr
    intro place lower upper
    exact kept place (Or.inl ⟨by omega, by omega⟩)
  rw [load_store_apart (Or.inl (by omega)), word] at eip
  constructor
  case esp => rw [named, esp]
  case eip => rw [named, eip]
  case elsewhere =>
      intro place outside
      unfold Space.Covers Space.InStack at outside
      apply ready.run_outside own.places
      all_goals rw [pointer, named]; omega
  case above =>
      intro place covered above
      rw [named] at above
      rw [← kept place covered]
      apply ready.run_outside own.places
      all_goals rw [pointer, named]; omega

end Switches

section Runs

variable [DecidableEq Thread] {image : Image} {state : System Thread}

omit [DecidableEq Thread] in
theorem Sound.work (sound : Sound image state) {machine : Machine}
    (kept : state.LeavesOthers state.Owns machine.memory) :
    Sound image { state with machine := machine } := by
  have own : ∀ thread ≠ state.running, ∀ space, state.space thread = some space →
      ∀ place, space.Owns place → machine.memory place = state.machine.memory place :=
    fun thread other space here place owned => kept thread other place ⟨space, here, owned⟩
  refine ⟨sound.apart, sound.running, ?_, ?_⟩
  · intro thread other space here
    exact (sound.room thread other space here).congr (own thread other space here)
  · intro thread fn arg unused
    obtain ⟨other, space, here, prepared⟩ := sound.fresh thread fn arg unused
    exact ⟨other, space, here, prepared.congr (own thread other space here)⟩

theorem Sound.create (sound : Sound image state) {thread : Thread} {space : Space}
    (pid ppid fn arg : Word) (new : state.space thread = none)
    (apart : ∀ other taken, state.space other = some taken →
      ∀ place, space.Covers place → ¬taken.Covers place) :
    Sound image (create image state thread space pid ppid fn arg) := by
  obtain ⟨running, runs⟩ := sound.running
  have other : thread ≠ state.running := by
    intro same
    rw [same, runs] at new
    exact absurd new (by simp)
  have kept : ∀ old taken, state.space old = some taken → ∀ place, taken.Owns place →
      threadCreate image state.machine.memory space pid ppid fn arg place =
        state.machine.memory place := by
    intro old taken here place owned
    apply thread_create_outside
    intro covered
    exact apart old taken here place covered (Space.owns_covers owned)
  have prepared : Prepared image
      (threadCreate image state.machine.memory space pid ppid fn arg) space fn arg :=
    thread_create_prepared pid ppid
  constructor
  case apart =>
      intro first second firstSpace secondSpace different firstHere secondHere place
      simp only [ThreadStart.create, Function.update_apply] at firstHere secondHere
      split_ifs at firstHere secondHere with isFirst isSecond isSecond
      · exact absurd (isFirst.trans isSecond.symm) different
      · rw [← Option.some.inj firstHere]
        exact apart second secondSpace secondHere place
      · rw [← Option.some.inj secondHere]
        exact fun covered new => apart first firstSpace firstHere place new covered
      · exact sound.apart first second firstSpace secondSpace different firstHere secondHere place
  case running =>
      refine ⟨running, ?_⟩
      simp only [ThreadStart.create]
      rw [Function.update_of_ne other.symm]
      exact runs
  case room =>
      intro old different taken here
      simp only [ThreadStart.create, Function.update_apply] at here
      split_ifs at here with isNew
      · rw [← Option.some.inj here]
        exact prepared.has_room
      · exact (sound.room old different taken here).congr (kept old taken here)
  case fresh =>
      intro old oldFn oldArg unused
      simp only [ThreadStart.create, Function.update_apply] at unused ⊢
      split_ifs at unused ⊢ with isNew
      · obtain ⟨sameFn, sameArg⟩ := Prod.mk.inj (Option.some.inj unused)
        rw [← sameFn, ← sameArg]
        exact ⟨isNew ▸ other, space, rfl, prepared⟩
      · obtain ⟨different, taken, here, older⟩ := sound.fresh old oldFn oldArg unused
        exact ⟨different, taken, here, older.congr (kept old taken here)⟩

theorem Sound.switch (sound : Sound image state) {next : Thread} {own other : Space}
    (ready : Ready state next own other) : Sound image (switchTo state next) := by
  have entered := switched_in sound ready
  have apart := sound.apart next state.running other own ready.different ready.otherSpace
    ready.ownSpace
  have elsewhere : ∀ old taken, old ≠ next → state.space old = some taken →
      ∀ place, taken.Owns place → (runSwitch state.machine).memory place =
        saveContext state.machine own.context place := by
    intro old taken different here place owned
    exact entered.elsewhere place (sound.apart old next taken other different here
      ready.otherSpace place (Space.owns_covers owned))
  have kept : ∀ old taken, old ≠ next → old ≠ state.running → state.space old = some taken →
      ∀ place, taken.Owns place → (runSwitch state.machine).memory place =
        state.machine.memory place := by
    intro old taken different notRunning here place owned
    rw [elsewhere old taken different here place owned]
    exact saved_elsewhere ready (sound.apart old state.running taken own notRunning here
      ready.ownSpace place (Space.owns_covers owned))
  refine ⟨sound.apart, ⟨other, ready.otherSpace⟩, ?_, ?_⟩
  · intro old different taken here
    by_cases running : old = state.running
    · subst running
      have same : own = taken := Option.some.inj (ready.ownSpace.symm.trans here)
      rw [← same] at here ⊢
      exact (saved_room ready).congr (elsewhere state.running own different here)
    · exact (sound.room old running taken here).congr (kept old taken different running here)
  · intro old fn arg unused
    simp only [switchTo, Function.update_apply] at unused ⊢
    split_ifs at unused with entering
    obtain ⟨notRunning, taken, here, prepared⟩ := sound.fresh old fn arg unused
    exact ⟨entering, taken, here, prepared.congr (kept old taken entering notRunning here)⟩

theorem Sound.release (sound : Sound image state) {thread : Thread}
    (different : thread ≠ state.running) : Sound image (release state thread) := by
  have still : ∀ old taken, Function.update state.space thread none old = some taken →
      old ≠ thread ∧ state.space old = some taken := by
    intro old taken here
    rw [Function.update_apply] at here
    split_ifs at here with released
    exact ⟨released, here⟩
  constructor
  case apart =>
      intro first second firstSpace secondSpace distinct firstHere secondHere
      exact sound.apart first second firstSpace secondSpace distinct (still _ _ firstHere).2
        (still _ _ secondHere).2
  case running =>
      obtain ⟨space, runs⟩ := sound.running
      refine ⟨space, ?_⟩
      simp only [ThreadStart.release]
      rw [Function.update_of_ne different.symm]
      exact runs
  case room =>
      intro old other taken here
      exact sound.room old other taken (still _ _ here).2
  case fresh =>
      intro old fn arg unused
      simp only [ThreadStart.release, Function.update_apply] at unused ⊢
      split_ifs at unused with released
      rw [if_neg released]
      exact sound.fresh old fn arg unused

theorem step_sound {after : System Thread} (step : Step image state after)
    (sound : Sound image state) : Sound image after := by
  cases step with
  | work machine kept => exact sound.work kept
  | create thread space pid ppid fn arg new apart => exact sound.create pid ppid fn arg new apart
  | switch next own other ready => exact sound.switch ready
  | release thread different => exact sound.release different

theorem booted_sound {start : System Thread} (booted : Booted start) : Sound image start := by
  obtain ⟨⟨space, only⟩, fresh⟩ := booted
  have alone : ∀ thread taken, start.space thread = some taken → thread = start.running := by
    intro thread taken here
    rw [only, Function.update_apply] at here
    split_ifs at here with running
    exact running
  constructor
  case apart =>
      intro thread other first second different firstHere secondHere
      exact absurd ((alone _ _ firstHere).trans (alone _ _ secondHere).symm) different
  case running => exact ⟨space, by rw [only, Function.update_self]⟩
  case room =>
      intro thread different taken here
      exact absurd (alone _ _ here) different
  case fresh =>
      intro thread fn arg unused
      rw [fresh] at unused
      exact absurd unused (by simp)

theorem run_sound {start : System Thread} (booted : Booted start)
    (reached : Relation.ReflTransGen (Step image) start state) : Sound image state := by
  induction reached with
  | refl => exact booted_sound booted
  | tail _ step induction => exact step_sound step induction

/-- A thread enters its function with the argument on top of the stack and the
address of `thread_exit` above it. -/
theorem first_entry {next : Thread} {own other : Space} {fn arg : Word}
    (sound : Sound image state) (ready : Ready state next own other)
    (first : state.fresh next = some (fn, arg)) :
    EntersWith (switchTo state next).machine fn image.threadExit arg := by
  obtain ⟨-, space, here, prepared⟩ := sound.fresh next fn arg first
  have same : other = space := Option.some.inj (ready.otherSpace.symm.trans here)
  rw [← same] at prepared
  obtain ⟨esp, eip, -, above⟩ := switched_in sound ready
  have fits := other.stack_end
  have pointer := prepared.pointer
  obtain ⟨stack, named⟩ : ∃ stack, load state.machine.memory (other.context + 0).toNat = stack :=
    ⟨_, rfl⟩
  rw [named] at esp eip above pointer
  unfold stackSizeKernel at fits pointer
  have entry : stack.toNat = other.stack.toNat + 0x3FF4 := by omega
  have top : (stack + 4).toNat = other.stack.toNat + 0x3FF8 := by bv_omega
  have next : (stack + 4 + 4).toNat = other.stack.toNat + 0x3FFC := by bv_omega
  have word : ∀ offset, 0x3FF4 ≤ offset → offset + 4 ≤ stackSizeKernel →
      load (runSwitch state.machine).memory (other.stack.toNat + offset) =
        load state.machine.memory (other.stack.toNat + offset) := by
    intro offset low high
    apply load_congr
    intro place lower upper
    exact above place (Or.inl ⟨by omega, by omega⟩) (by omega)
  constructor
  case eip => rw [switchTo, Processor.switchTo, eip, entry, prepared.fn]
  case returnAddress =>
      rw [switchTo, Processor.switchTo, esp, top, word _ (by decide) (by decide), prepared.arg]
  case argument =>
      rw [switchTo, Processor.switchTo, esp, next, word _ (by decide) (by decide), prepared.exit]

/-- In every run, a thread that is switched to for the first time enters its
function as the convention asks exactly when its argument is the address of
`thread_exit`: the two words are in each other's place. -/
theorem first_entry_cdecl_iff {start : System Thread} (booted : Booted start)
    (reached : Relation.ReflTransGen (Step image) start state) {next : Thread}
    {own other : Space} (ready : Ready state next own other) {fn arg : Word}
    (first : state.fresh next = some (fn, arg)) :
    EntersWith (switchTo state next).machine fn arg image.threadExit ↔
      arg = image.threadExit := by
  have enters := first_entry (run_sound booted reached) ready first
  constructor
  · intro convention
    exact enters.returnAddress.symm.trans convention.returnAddress
  · intro same
    rw [same] at enters ⊢
    exact enters

end Runs

/-! ### One thread creates another -/

def sampleImage : Image := ⟨0xC0104000, 0x120000⟩

def mainSpace : Space where
  task := 0xC0400000
  stack := 0xC0130000
  task_end := by decide
  stack_end := by decide
  apart := by decide

def workerSpace : Space where
  task := 0xC0400040
  stack := 0xC0500000
  task_end := by decide
  stack_end := by decide
  apart := by decide

/-- The first thread is about to switch to the one it is going to create. -/
def sampleStart : System Bool where
  machine :=
    { regs := fun reg => if reg = .esp then 0xC0133000 else 7
      eflags := 0x202
      eip := 0xC0102000
      memory := store (store (fun _ => 0) 0xC0133004 0xC0400014) 0xC0133008 0xC0400054 }
  running := false
  space := Function.update (fun _ => none) false (some mainSpace)
  fresh := fun _ => none

/-- `thread_create(0xC0105000, 0)` -/
def sampleCreated : System Bool :=
  create sampleImage sampleStart true workerSpace 1 0 0xC0105000 0

theorem sample_reached : Booted sampleStart ∧
    Relation.ReflTransGen (Step sampleImage) sampleStart sampleCreated := by
  refine ⟨⟨⟨mainSpace, rfl⟩, fun _ => rfl⟩, Relation.ReflTransGen.single ?_⟩
  apply Step.create sampleStart true workerSpace 1 0 0xC0105000 0 rfl
  intro other taken here place new old
  have same : taken = mainSpace := by
    cases other with
    | false => exact (Option.some.inj here).symm
    | true => exact absurd here (by simp [sampleStart])
  rw [same] at old
  have mainStack : mainSpace.stack.toNat = 0xC0130000 := rfl
  have mainTask : mainSpace.task.toNat = 0xC0400000 := rfl
  have workerStack : workerSpace.stack.toNat = 0xC0500000 := rfl
  have workerTask : workerSpace.task.toNat = 0xC0400040 := rfl
  unfold Space.Covers Space.InStack taskSize stackSizeKernel at new old
  omega

theorem sample_ready : Ready sampleCreated true mainSpace workerSpace where
  room := by decide
  frame := by decide
  curArgument := by decide +kernel
  nextArgument := by decide +kernel
  different := by decide
  ownSpace := rfl
  otherSpace := rfl

theorem first_entry_cdecl_sample :
    ¬EntersWith (switchTo sampleCreated true).machine 0xC0105000 0 0xC0104000 := by
  intro enters
  have same := (first_entry_cdecl_iff sample_reached.1 sample_reached.2 sample_ready rfl).mp enters
  exact absurd same (by decide)

/-- A thread created with a null argument enters its function with a null return
address. -/
theorem first_entry_reversed : ¬∀ (start state : System Bool) (next : Bool) (own other : Space)
    (fn arg : Word), Booted start → Relation.ReflTransGen (Step sampleImage) start state →
    Ready state next own other → state.fresh next = some (fn, arg) →
    EntersWith (switchTo state next).machine fn arg sampleImage.threadExit := by
  intro convention
  have enters := convention sampleStart sampleCreated true mainSpace workerSpace 0xC0105000 0
    sample_reached.1 sample_reached.2 sample_ready rfl
  have reversed := first_entry (run_sound sample_reached.1 sample_reached.2) sample_ready rfl
  have same := enters.returnAddress.symm.trans reversed.returnAddress
  exact absurd same (by decide)

end ChaoOS.ThreadStart
