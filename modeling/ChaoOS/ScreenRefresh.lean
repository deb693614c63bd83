import ChaoOS.BackBuffer
import ChaoOS.ClockInterrupts
import ChaoOS.TerminalScreen

/-!
# The screen follows the back buffer

`init_vbe` registers `swap_buffer` with a frequency of 60, so that the clock interrupts
copy the back buffer to the video memory. Threads draw into the buffer byte by byte, and
an interrupt may come between any two bytes. The routine is known by its address.
-/

namespace ChaoOS.ScreenRefresh

open ChaoOS.BackBuffer ChaoOS.ClockInterrupts ChaoOS.GuardedRun ChaoOS.KernelMath
open ChaoOS.TerminalModel ChaoOS.TimerModel ChaoOS.TimerRates
open ChaoOS.TaskModel (TaskImage bootKernel initTask)
open ChaoOS.TaskRings (sampleImage sampleBoot)
open ChaoOS.TerminalScreen (smallMode)

set_option autoImplicit false

structure Desktop where
  clock : Clock
  display : Display

/-- The handler's round calls `swap_buffer`. -/
def Swaps (swap : Nat) (clock : Clock) : ClockOp → Prop
  | .turn =>
      match clock.frames clock.kernel.currentTask with
      | .visiting current :: _ =>
          current ≠ 0 ∧ Due (clock.timers.timer current) ∧
            (clock.timers.timer current).callbackFunc = .other swap
      | _ => False
  | _ => False

instance decidableSwaps (swap : Nat) (clock : Clock) : (op : ClockOp) → Decidable (Swaps swap clock op)
  | .turn =>
      match frames : clock.frames clock.kernel.currentTask with
      | .visiting current :: _ =>
          decidable_of_iff (current ≠ 0 ∧ Due (clock.timers.timer current) ∧
            (clock.timers.timer current).callbackFunc = .other swap) (by simp only [Swaps, frames])
      | .called _ :: _ => isFalse (by simp only [Swaps, frames, not_false_eq_true])
      | [] => isFalse (by simp only [Swaps, frames, not_false_eq_true])
  | .interrupt | .registerTimer .. | .threadCreate .. => isFalse id

inductive DesktopOp where
  | clock (op : ClockOp)
  | put (offset value : Nat)

def desktopStep (image : TaskImage) (swap : Nat) (mode : Mode) (desktop : Desktop) :
    DesktopOp → Option Desktop
  | .clock op =>
      (clockStep image desktop.clock op).map fun next =>
        { clock := next
          display :=
            if Swaps swap desktop.clock op then swapBuffer mode desktop.display
            else desktop.display }
  | .put offset value =>
      some { desktop with
        display :=
          { desktop.display with vbeBuffer := desktop.display.vbeBuffer.write offset value } }

def DesktopAllowed (desktop : Desktop) : DesktopOp → Prop
  | .clock op => ClockAllowed desktop.clock op
  | .put _ _ => True

instance (desktop : Desktop) : (op : DesktopOp) → Decidable (DesktopAllowed desktop op)
  | .clock _ => inferInstanceAs (Decidable (ClockAllowed _ _))
  | .put _ _ => inferInstanceAs (Decidable True)

def clockOps (ops : List DesktopOp) : List ClockOp :=
  ops.filterMap fun op => match op with
    | .clock op => some op
    | .put _ _ => none

/-! ## The copy -/

/-- Byte after byte, in the loop of `memcpy`. -/
def copyByte (display : Display) (i : Nat) : Display where
  vram := display.vram.write i (display.vbeBuffer.bytes i)
  vbeBuffer := display.vbeBuffer.read i

theorem copy_bytes (display : Display) (size : Nat) :
    ((List.range size).foldl copyByte display).vbeBuffer.bytes = display.vbeBuffer.bytes ∧
      ∀ offset < size, ((List.range size).foldl copyByte display).vram.bytes offset =
        display.vbeBuffer.bytes offset := by
  induction size with
  | zero => exact ⟨rfl, fun offset inside => absurd inside (Nat.not_lt_zero offset)⟩
  | succ size induction =>
      obtain ⟨buffer, copied⟩ := induction
      rw [List.range_succ, List.foldl_append, List.foldl_cons, List.foldl_nil]
      refine ⟨buffer, fun offset inside => ?_⟩
      by_cases last : offset = size
      · rw [last]
        exact (Function.update_self ..).trans (congrFun buffer size)
      · exact (Function.update_of_ne last ..).trans (copied offset (by omega))

/-- `swap_buffer` copies the bytes of the video memory and leaves the buffer. -/
theorem swap_buffer_bytes (mode : Mode) (display : Display) :
    (swapBuffer mode display).vbeBuffer.bytes = display.vbeBuffer.bytes ∧
      ∀ offset < vramSize mode,
        (swapBuffer mode display).vram.bytes offset = display.vbeBuffer.bytes offset := by
  have loop : swapBuffer mode display =
      (List.range (vramSize mode)).foldl copyByte display := by
    unfold swapBuffer copyByte
    with_reducible rfl
  rw [loop]
  exact copy_bytes display (vramSize mode)

/-- The video memory holds what the buffer holds. -/
def Synced (mode : Mode) (display : Display) : Prop :=
  ∀ offset < vramSize mode, display.vram.bytes offset = display.vbeBuffer.bytes offset

section Steps

variable {image : TaskImage} {swap address : Nat} {mode : Mode} {desktop final : Desktop}

/-- Only a swap is a call of `swap_buffer`. -/
theorem calls_kept {clock next : Clock} {op : ClockOp}
    (stepped : clockStep image clock op = some next) (plain : ¬Swaps swap clock op) :
    next.timers.calls.count (address, .other swap) =
      clock.timers.calls.count (address, .other swap) := by
  cases op with
  | interrupt =>
      simp only [clockStep, Option.ite_none_right_eq_some, Option.some.injEq] at stepped
      rw [← stepped.2]
      rfl
  | turn =>
      rw [clockStep, turn] at stepped
      cases frames : clock.frames clock.kernel.currentTask with
      | nil =>
          rw [frames] at stepped
          cases stepped
      | cons frame rest =>
          rw [frames] at stepped
          cases frame with
          | called current =>
              rw [← Option.some.inj stepped]
              rfl
          | visiting current =>
              simp only [Swaps, frames] at plain
              dsimp only at stepped
              split_ifs at stepped with null schedules
              · rw [← Option.some.inj stepped]
                rfl
              all_goals
                rw [← Option.some.inj stepped, visit_eq]
                dsimp only
                split_ifs with due
                · apply List.count_cons_of_ne
                  intro same
                  exact plain ⟨null, due, (Prod.mk.inj same).2⟩
                · rfl
  | registerTimer callback frequency place =>
      simp only [clockStep, Option.ite_none_right_eq_some, Option.some.injEq] at stepped
      rw [← stepped.2]
      by_cases accepted : Accepted frequency
      · simp only [register_timer_eq accepted]
      · simp only [register_timer_rejected accepted]
  | threadCreate fn arg newTask newStack =>
      simp only [clockStep, Option.ite_none_right_eq_some] at stepped
      obtain ⟨created, -, same⟩ := Option.map_eq_some_iff.mp stepped.2
      rw [← same]

/-- While nobody draws, the buffer stays, and a call of `swap_buffer` brings the screen up to
it. -/
theorem quiet_step {op : ClockOp} {next : Desktop}
    (stepped : desktopStep image swap mode desktop (.clock op) = some next) :
    next.display.vbeBuffer.bytes = desktop.display.vbeBuffer.bytes ∧
      (Synced mode next.display ∨
        next.clock.timers.calls.count (address, .other swap) =
            desktop.clock.timers.calls.count (address, .other swap) ∧
          next.display = desktop.display) := by
  obtain ⟨clock, moved, rfl⟩ := Option.map_eq_some_iff.mp stepped
  dsimp only
  by_cases swaps : Swaps swap desktop.clock op
  · obtain ⟨buffer, copied⟩ := swap_buffer_bytes mode desktop.display
    rw [if_pos swaps]
    refine ⟨buffer, Or.inl fun offset inside => ?_⟩
    rw [copied offset inside, buffer]
  · rw [if_neg swaps]
    exact ⟨rfl, Or.inr ⟨calls_kept moved swaps, rfl⟩⟩

theorem quiet_run {ops : List DesktopOp} (quiet : ∀ op ∈ ops, ∃ clockOp, op = .clock clockOp)
    (run : runFrom (desktopStep image swap mode) desktop ops = some final) :
    final.display.vbeBuffer.bytes = desktop.display.vbeBuffer.bytes ∧
      ((Synced mode desktop.display ∨
          final.clock.timers.calls.count (address, .other swap) ≠
            desktop.clock.timers.calls.count (address, .other swap)) →
        Synced mode final.display) := by
  induction ops generalizing desktop with
  | nil =>
      rw [← Option.some.inj run]
      exact ⟨rfl, fun either => either.resolve_right fun differs => differs rfl⟩
  | cons op rest induction =>
      obtain ⟨next, stepped, later⟩ := run_cons run
      obtain ⟨clockOp, rfl⟩ := quiet op List.mem_cons_self
      obtain ⟨buffer, kept⟩ := @quiet_step image swap address mode desktop clockOp next stepped
      obtain ⟨same, synced⟩ := induction (fun other member =>
        quiet other (List.mem_cons_of_mem _ member)) later
      refine ⟨same.trans buffer, fun either => synced ?_⟩
      rcases kept with now | ⟨calls, display⟩
      · exact Or.inl now
      · rw [display, calls]
        exact either

/-! ## The clock of a run -/

theorem clock_run {ops : List DesktopOp}
    (run : runFrom (desktopStep image swap mode) desktop ops = some final) :
    runFrom (clockStep image) desktop.clock (clockOps ops) = some final.clock := by
  induction ops generalizing desktop with
  | nil =>
      rw [← Option.some.inj run]
      rfl
  | cons op rest induction =>
      obtain ⟨next, stepped, later⟩ := run_cons run
      cases op with
      | clock op =>
          obtain ⟨clock, moved, rfl⟩ := Option.map_eq_some_iff.mp stepped
          have clocked : clockOps (.clock op :: rest) = op :: clockOps rest := rfl
          rw [clocked, runFrom, moved]
          exact induction later
      | put offset value =>
          have same : next.clock = desktop.clock := by
            rw [← Option.some.inj stepped]
          rw [← same]
          exact induction later

theorem clock_permitted {ops : List DesktopOp}
    (permitted : Permitted (desktopStep image swap mode) DesktopAllowed desktop ops) :
    Permitted (clockStep image) ClockAllowed desktop.clock (clockOps ops) := by
  induction ops generalizing desktop with
  | nil => trivial
  | cons op rest induction =>
      cases op with
      | clock op =>
          refine ⟨permitted.1, fun next moved => ?_⟩
          have stepped : ∃ display, desktopStep image swap mode desktop (.clock op) =
              some ⟨next, display⟩ := by
            simp only [desktopStep, moved, Option.map_some, Option.some.injEq, Desktop.mk.injEq,
              true_and, exists_eq']
          obtain ⟨display, there⟩ := stepped
          exact @induction ⟨next, display⟩ (permitted.2 _ there)
      | put offset value =>
          obtain ⟨next, there⟩ : ∃ next, desktopStep image swap mode desktop (.put offset value) =
              some next := ⟨_, rfl⟩
          have same : next.clock = desktop.clock := by
            rw [← Option.some.inj there]
          have rest := induction (permitted.2 next there)
          rw [same] at rest
          exact rest

theorem clock_ops_append (first second : List DesktopOp) :
    clockOps (first ++ second) = clockOps first ++ clockOps second :=
  List.filterMap_append ..

end Steps

section Runs

variable {image : TaskImage} {swap address last : Nat} {mode : Mode} {middle final : Desktop}

def startDesktop (memory : Nat → Timer Routine) (kernel : TaskModel.Kernel) (last : Nat)
    (display : Display) : Desktop :=
  ⟨startClock memory kernel last, display⟩

def swapFrequency : Nat := 60

/-- Wherever the drawing stops and wherever the interrupts meet the threads, seventeen clock
interrupts later the screen shows the picture that is in the back buffer. -/
theorem screen_refreshed {memory : Nat → Timer Routine} {kernel : TaskModel.Kernel}
    (nonnull : last ≠ 0) (word : last < wordSize) {display : Display}
    {before between later : List DesktopOp}
    (permitted : Permitted (desktopStep image swap mode) DesktopAllowed
      (startDesktop memory kernel last display)
      ((before ++ .clock (.registerTimer (.other swap) swapFrequency address) :: between) ++ later))
    (reached : runFrom (desktopStep image swap mode) (startDesktop memory kernel last display)
      (before ++ .clock (.registerTimer (.other swap) swapFrequency address) :: between) =
        some middle)
    (run : runFrom (desktopStep image swap mode) middle later = some final)
    (quiet : ∀ op ∈ later, ∃ clockOp, op = .clock clockOp)
    (long : 17 ≤ interrupts (clockOps later)) :
    Synced mode final.display ∧
      final.display.vbeBuffer.bytes = middle.display.vbeBuffer.bytes ∧
      (mode.Plain → ∀ picture, Shows mode middle.display.vbeBuffer.bytes picture →
        Shows mode final.display.vram.bytes picture) := by
  obtain ⟨buffer, refreshed⟩ := @quiet_run image swap address mode middle final later quiet run
  have early := (permitted_append permitted).1
  have whole := (run_append reached).trans run
  have first := clock_permitted early
  have firstRun := clock_run reached
  have second := clock_permitted permitted
  have secondRun := clock_run whole
  rw [clock_ops_append] at first firstRun
  rw [clock_ops_append, clock_ops_append, List.append_assoc] at second secondRun
  have accepted : Accepted swapFrequency := by decide
  have sixteen : period (timerFre / swapFrequency) = 16 := by decide
  have atMiddle : Timed last address (.other swap) (timerFre / swapFrequency)
      (interrupts (clockOps between)) middle.clock :=
    registered_timed nonnull word accepted first firstRun
  have atFinal : Timed last address (.other swap) (timerFre / swapFrequency)
      (interrupts (clockOps between ++ clockOps later)) final.clock :=
    registered_timed nonnull word accepted second secondRun
  have total : interrupts (clockOps between ++ clockOps later) =
      interrupts (clockOps between) + interrupts (clockOps later) := List.count_append ..
  have called : final.clock.timers.calls.count (address, .other swap) ≠
      middle.clock.timers.calls.count (address, .other swap) := by
    obtain ⟨-, most⟩ := timed_bounds (by decide) atMiddle
    obtain ⟨least, -⟩ := timed_bounds (by decide) atFinal
    rw [sixteen] at most least
    omega
  have synced := refreshed (Or.inr called)
  refine ⟨synced, buffer, fun plain picture shown x y index inX inY small => ?_⟩
  have inside : pixelByte mode x y index < vramSize mode := by
    have bound := pixel_number_lt inX inY
    rw [plain.vram_size, pixelByte]
    omega
  rw [synced _ inside, buffer]
  exact shown x y index inX inY small

end Runs

/-- `swap_buffer` is registered, and a byte is drawn. -/
def sampleDrawing : List DesktopOp :=
  [.clock (.registerTimer (.other 0xC0105000) swapFrequency 0xC1000300), .put 5 255]

/-- Seventeen interrupts that are passed through one after the other. -/
def sampleQuiet : List DesktopOp :=
  (List.replicate 17 (.interrupt :: List.replicate 5 .turn)).flatten.map .clock

theorem screen_refreshed_sample : ∃ start middle final,
    initTask sampleImage 0xC1000000 (bootKernel sampleBoot) = some start ∧
      runFrom (desktopStep sampleImage 0xC0105000 smallMode)
        (startDesktop (fun _ => emptyTimer) start 0xC1000200 blankDisplay) sampleDrawing =
          some middle ∧
      runFrom (desktopStep sampleImage 0xC0105000 smallMode) middle sampleQuiet = some final ∧
      final.display.vram.bytes 5 = 255 := by
  have facts : ((initTask sampleImage 0xC1000000 (bootKernel sampleBoot)).bind fun start =>
      (runFrom (desktopStep sampleImage 0xC0105000 smallMode)
        (startDesktop (fun _ => emptyTimer) start 0xC1000200 blankDisplay) sampleDrawing).bind
        fun middle =>
          (runFrom (desktopStep sampleImage 0xC0105000 smallMode) middle sampleQuiet).map fun _ =>
            (middle.display.vbeBuffer.bytes 5,
              decide (Permitted (desktopStep sampleImage 0xC0105000 smallMode) DesktopAllowed
                (startDesktop (fun _ => emptyTimer) start 0xC1000200 blankDisplay)
                (sampleDrawing ++ sampleQuiet)))) = some (255, true) := by
    decide +kernel
  obtain ⟨start, init, rest⟩ := Option.bind_eq_some_iff.mp facts
  obtain ⟨middle, reached, rest⟩ := Option.bind_eq_some_iff.mp rest
  obtain ⟨final, run, both⟩ := Option.map_eq_some_iff.mp rest
  obtain ⟨drawn, permitted⟩ := Prod.mk.inj both
  have quiet : ∀ op ∈ sampleQuiet, ∃ clockOp, op = .clock clockOp := by
    intro op member
    obtain ⟨clockOp, -, same⟩ := List.mem_map.mp member
    exact ⟨clockOp, same.symm⟩
  obtain ⟨synced, buffer, -⟩ := @screen_refreshed sampleImage 0xC0105000 0xC1000300 0xC1000200
    smallMode middle final (fun _ => emptyTimer) start (by decide) (by decide) blankDisplay []
    [.put 5 255] sampleQuiet (of_decide_eq_true permitted) reached run quiet (by decide +kernel)
  refine ⟨start, middle, final, init, reached, run, ?_⟩
  rw [synced 5 (by decide +kernel), buffer, drawn]

end ChaoOS.ScreenRefresh
