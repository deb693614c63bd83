import ChaoOS.DescriptorTables
import ChaoOS.InterruptController
import ChaoOS.InterruptRuns

/-!
# From the interrupt line to the registered handler

`isr_handler` of `idt.c` and the table of handlers in `interrupt.c`, put together
with the descriptor tables, the stubs and the interrupt controllers.
-/

namespace ChaoOS.InterruptDispatch

open ChaoOS.ByteMemory ChaoOS.DescriptorTables ChaoOS.InterruptController
open ChaoOS.InterruptFrames ChaoOS.InterruptRuns

set_option autoImplicit false

/-! ## `pt_regs` -/

/-- The fields of `pt_regs` that an interrupt of the kernel itself fills in. -/
structure PtRegs where
  ds : Word
  edi : Word
  esi : Word
  ebp : Word
  esp : Word
  ebx : Word
  edx : Word
  ecx : Word
  eax : Word
  intNo : Word
  errCode : Word
  eip : Word
  cs : Word
  eflags : Word
  deriving DecidableEq

def readRegs (memory : Memory) (regs : Word) : PtRegs :=
  { ds := readAt memory regs 0
    edi := readAt memory regs 4
    esi := readAt memory regs 8
    ebp := readAt memory regs 12
    esp := readAt memory regs 16
    ebx := readAt memory regs 20
    edx := readAt memory regs 24
    ecx := readAt memory regs 28
    eax := readAt memory regs 32
    intNo := readAt memory regs 36
    errCode := readAt memory regs 40
    eip := readAt memory regs 44
    cs := readAt memory regs 48
    eflags := readAt memory regs 52 }

/-! ## Handlers -/

variable {Handler : Type*}

/-- `interrupt_handlers`; no entry is a null pointer. -/
abbrev Handlers (Handler : Type*) := BitVec 8 → Option Handler

def registerInterruptHandler (handlers : Handlers Handler) (n : BitVec 8) (h : Option Handler) :
    Handlers Handler :=
  Function.update handlers n h

/-- `init_interrupt_handlers`, with the two handlers of `interrupt.c`. -/
def initInterruptHandlers (isrHandler255 pageFault : Handler) : Handlers Handler :=
  let handlers := registerInterruptHandler (fun _ => none) 255 (some isrHandler255)
  registerInterruptHandler handlers 14 (some pageFault)

/-- Any number of registrations, in order. -/
def registerAll (handlers : Handlers Handler) (registrations : List (BitVec 8 × Option Handler)) :
    Handlers Handler :=
  registrations.foldl (fun handlers entry => registerInterruptHandler handlers entry.1 entry.2)
    handlers

/-- The end of interrupt that `isr_handler` sends for an interrupt number. -/
def endOfInterrupt (intNo : BitVec 8) : List PortWrite :=
  (if 32 ≤ intNo.toNat ∧ intNo.toNat < 40 then [⟨0x20, 0x20⟩] else []) ++
    if 40 ≤ intNo.toNat ∧ intNo.toNat ≤ 47 then [⟨0x20, 0x20⟩, ⟨0xA0, 0x20⟩] else []

/-- `isr_handler`: what it writes to the ports, and the call it makes then. -/
def isrHandler (handlers : Handlers Handler) (memory : Memory) (regs : Word) :
    List PortWrite × Option (Handler × Word) :=
  let intNo := ((readRegs memory regs).intNo &&& 0xFF).setWidth 8
  (endOfInterrupt intNo, (handlers intNo).map fun handler => (handler, regs))

/-- The writes of `init_idt` to the interrupt controllers. -/
def initControllers : List PortWrite :=
  [⟨0x20, 0x11⟩, ⟨0xA0, 0x11⟩, ⟨0x21, 0x20⟩, ⟨0xA1, 0x28⟩, ⟨0x21, 0x04⟩, ⟨0xA1, 0x02⟩,
    ⟨0x21, 0x01⟩, ⟨0xA1, 0x01⟩, ⟨0x21, 0x0⟩, ⟨0xA1, 0x0⟩]

/-! ## Registrations -/

/-- The last registration for the number counts. -/
def lastRegistered (handlers : Handlers Handler) (registrations : List (BitVec 8 × Option Handler))
    (n : BitVec 8) : Option Handler :=
  match registrations.reverse.find? fun entry => entry.1 = n with
  | some entry => entry.2
  | none => handlers n

theorem register_all_last (registrations : List (BitVec 8 × Option Handler)) (n : BitVec 8) :
    ∀ handlers : Handlers Handler,
      registerAll handlers registrations n = lastRegistered handlers registrations n := by
  induction registrations with
  | nil => intro handlers; rfl
  | cons entry rest induction =>
      intro handlers
      have step : registerAll handlers (entry :: rest) =
          registerAll (registerInterruptHandler handlers entry.1 entry.2) rest := rfl
      rw [step, induction, lastRegistered, lastRegistered, List.reverse_cons, List.find?_append]
      cases rest.reverse.find? fun entry => entry.1 = n with
      | some later => rfl
      | none =>
          by_cases here : entry.1 = n
          · subst here
            simp [registerInterruptHandler]
          · simp [registerInterruptHandler, here, Function.update_of_ne (Ne.symm here)]

/-! ## What `isr_handler` finds -/

/-- The fields as the interrupted machine gives them. The saved stack pointer is
that of the stub, and `ds` has the high half of `eax` above it. -/
def savedRegs (cpu : Cpu) (event : Event) : PtRegs :=
  { ds := dsWord cpu
    edi := cpu.regs .edi
    esi := cpu.regs .esi
    ebp := cpu.regs .ebp
    esp := cpu.regs .esp - 20
    ebx := cpu.regs .ebx
    edx := cpu.regs .edx
    ecx := cpu.regs .ecx
    eax := cpu.regs .eax
    intNo := event.number.setWidth 32
    errCode := event.codeWord
    eip := cpu.eip
    cs := selectorWord (cpu.segs .cs)
    eflags := cpu.eflags }

theorem read_regs_of_frame {memory : Memory} {frame : Frame}
    (room : frameSize ≤ (frame.was.regs .esp).toNat) (holds : HoldsFrame memory frame) :
    readRegs memory frame.base = savedRegs frame.was frame.event := by
  have bound := (frame.was.regs .esp).isLt
  have base := @frame_base frame room
  have word : ∀ {index : Nat} (small : index < 14),
      readAt memory frame.base (BitVec.ofNat 32 (4 * index)) = frame.words[index] := by
    intro index small
    exact WordStack.load_of_holds holds (by rw [words_length, base]; unfold frameSize; omega) small
  rw [readRegs, savedRegs, PtRegs.mk.injEq]
  exact ⟨@word 0 (by decide), @word 1 (by decide), @word 2 (by decide), @word 3 (by decide),
    @word 4 (by decide), @word 5 (by decide), @word 6 (by decide), @word 7 (by decide),
    @word 8 (by decide), @word 9 (by decide), @word 10 (by decide), @word 11 (by decide),
    @word 12 (by decide), @word 13 (by decide)⟩

theorem number_of_word (number : BitVec 8) :
    ((number.setWidth 32 &&& 0xFF : Word)).setWidth 8 = number := by
  apply BitVec.eq_of_toNat_eq
  have mask : (0xFF : Word).toNat = 2 ^ 8 - 1 := rfl
  have bound := number.isLt
  rw [BitVec.toNat_setWidth, BitVec.toNat_and, mask, Nat.and_two_pow_sub_one_eq_mod, Nat.mod_mod,
    BitVec.toNat_setWidth]
  omega

/-- Every interrupt or exception whose vector has a gate leads to the stub of its
vector. `isr_handler` finds the interrupted registers with the number and the
error code, sends the end of interrupt of that number, and calls the handler
registered last. -/
theorem interrupts_reach_their_handlers (code : Code) (entries : GdtEntries)
    (isrHandler255 pageFault : Handler) (registrations : List (BitVec 8 × Option Handler))
    (event : Event) (cpu : Cpu) (gated : event.number.toNat < 48 ∨ event.number = 255)
    (room : 64 ≤ (cpu.regs .esp).toNat) :
    ∃ selector offset address,
      interruptTarget (initGdt entries) (initIdt code.isr) event.number =
          some (selector, offset, address) ∧
        address = code.isr event.number ∧
        let entered := enter selector offset code.isrHandler code.back event cpu
        let regs := load entered.memory (entered.regs .esp + 4).toNat
        let handlers := initInterruptHandlers isrHandler255 pageFault
        entered.eflags &&& interruptFlag = 0 ∧ readRegs entered.memory regs = savedRegs cpu event ∧
          isrHandler (registerAll handlers registrations) entered.memory regs =
            (endOfInterrupt event.number,
              (lastRegistered handlers registrations event.number).map fun handler =>
                (handler, regs)) := by
  refine ⟨0x08, code.isr event.number, code.isr event.number, ?_, rfl, ?_⟩
  · rw [interrupt_target, if_pos gated]
  · have entered := enter_entered 0x08 (code.isr event.number) code.isrHandler code.back event cpu
    obtain ⟨holds, -, argument⟩ := entered_holds room entered
    have saved := read_regs_of_frame (le_trans (by decide) room) holds
    simp only
    rw [argument]
    refine ⟨entered.masked, saved, ?_⟩
    have number : (savedRegs cpu event).intNo = event.number.setWidth 32 := rfl
    rw [isrHandler, saved, number, number_of_word, register_all_last]

theorem interrupts_reach_their_handlers_sample :
    ∃ selector offset address,
      interruptTarget (initGdt fun _ => gdtEntry 0 0 0 0) (initIdt sampleCode.isr) 32 =
          some (selector, offset, address) ∧
        address = sampleCode.isr 32 ∧
        let entered := enter selector offset sampleCode.isrHandler sampleCode.back timerEvent
          sampleCpu
        let regs := load entered.memory (entered.regs .esp + 4).toNat
        let handlers := initInterruptHandlers "isr_handler255" "page_fault"
        entered.eflags &&& interruptFlag = 0 ∧
          readRegs entered.memory regs = savedRegs sampleCpu timerEvent ∧
          isrHandler (registerAll handlers [(33, some "keyboard_handler"), (32, some "timer_handler")])
              entered.memory regs =
            ([⟨0x20, 0x20⟩], some ("timer_handler", regs)) :=
  interrupts_reach_their_handlers sampleCode (fun _ => gdtEntry 0 0 0 0) "isr_handler255"
    "page_fault" [(33, some "keyboard_handler"), (32, some "timer_handler")] timerEvent sampleCpu
    (Or.inl (by decide)) (by decide)

/-! ## Any sequence of device requests -/

/-- The pair after `init_idt`. -/
def configured : Pair :=
  { master :=
      { stage := .ready, wantsMode := true, single := false, vectorBase := 0x20, cascade := 4
        mode := 1, mask := 0, inService := 0 }
    slave :=
      { stage := .ready, wantsMode := true, single := false, vectorBase := 0x28, cascade := 2
        mode := 1, mask := 0, inService := 0 } }

theorem init_controllers_configures (pair : Pair) : outbs pair initControllers = configured := rfl

/-- The vector of a request: the lines follow the exceptions in order. -/
def requestVector : Request → BitVec 8
  | .master line _ => BitVec.ofNat 8 (32 + line.val)
  | .slave line => BitVec.ofNat 8 (40 + line.val)
  | .spuriousMaster => 39
  | .spuriousSlave => 47

/-- A request is acknowledged, and `isr_handler` writes to the ports. -/
def serve (pair : Pair) (request : Request) : Option (BitVec 8 × Pair) :=
  (acknowledge pair request).map fun answer =>
    (answer.1, outbs answer.2 (endOfInterrupt answer.1))

def serveAll (pair : Pair) : List Request → Option (List (BitVec 8) × Pair)
  | [] => some ([], pair)
  | request :: rest => do
      let (vector, pair) ← serve pair request
      let (vectors, pair) ← serveAll pair rest
      some (vector :: vectors, pair)

theorem serve_configured (request : Request) :
    serve configured request = some (requestVector request, configured) := by
  cases request with
  | master line own =>
      have lines : ∀ line : Fin 8, line ≠ 2 →
          ∀ own, serve configured (.master line own) =
            some (requestVector (.master line own), configured) := by decide
      exact lines line own own
  | slave line =>
      have lines : ∀ line : Fin 8, serve configured (.slave line) =
          some (requestVector (.slave line), configured) := by decide
      exact lines line
  | spuriousMaster => decide
  | spuriousSlave => decide

theorem request_vector_gated (request : Request) : (requestVector request).toNat < 48 := by
  cases request with
  | master line own => simp only [requestVector, BitVec.toNat_ofNat]; omega
  | slave line => simp only [requestVector, BitVec.toNat_ofNat]; omega
  | spuriousMaster => decide
  | spuriousSlave => decide

/-- After `init_idt`, whatever was in the controllers before, every request of
any sequence is delivered, with the vector of its line and through the gate of
that vector: none is blocked by one that has been served. -/
theorem requests_are_served (pair : Pair) (entries : GdtEntries) (isr : BitVec 8 → Word)
    (requests : List Request) :
    serveAll (outbs pair initControllers) requests =
        some (requests.map requestVector, outbs pair initControllers) ∧
      ∀ number ∈ requests.map requestVector,
        interruptTarget (initGdt entries) (initIdt isr) number =
          some (0x08, isr number, isr number) := by
  constructor
  · rw [init_controllers_configures]
    induction requests with
    | nil => rfl
    | cons request rest induction => simp [serveAll, serve_configured, induction]
  · intro number member
    obtain ⟨request, -, rfl⟩ := List.mem_map.mp member
    rw [interrupt_target, if_pos (Or.inl (request_vector_gated request))]

end ChaoOS.InterruptDispatch
