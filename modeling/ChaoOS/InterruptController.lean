import Mathlib.Logic.Function.Basic

/-!
# The two interrupt controllers

A cascaded pair of 8259A chips as far as `idt.c` programs them: the
initialisation words, the mask and the non-specific end of interrupt. A chip
delivers a request only if it is not masked and none of the same or a higher
priority is being served.
-/

namespace ChaoOS.InterruptController

set_option autoImplicit false

/-! ## One chip -/

/-- Which word the data port expects. -/
inductive Stage where
  | ready
  | vectorBase
  | cascade
  | mode
  deriving DecidableEq

structure Chip where
  stage : Stage
  wantsMode : Bool
  single : Bool
  vectorBase : BitVec 8
  cascade : BitVec 8
  mode : BitVec 8
  mask : BitVec 8
  /-- the requests that are being served -/
  inService : BitVec 8
  deriving DecidableEq

namespace Chip

def nonSpecificEnd : BitVec 8 := 0x20

/-- Line 0 has the highest priority. -/
def endHighest (inService : BitVec 8) : BitVec 8 := inService &&& (inService - 1)

/-- A write to the command port. -/
def command (chip : Chip) (value : BitVec 8) : Chip :=
  if value.getLsbD 4 then
    { stage := .vectorBase
      wantsMode := value.getLsbD 0
      single := value.getLsbD 1
      vectorBase := 0
      cascade := 0
      mode := 0
      mask := 0
      inService := 0 }
  else if value = nonSpecificEnd then { chip with inService := endHighest chip.inService }
  else chip

def afterCascade (wantsMode : Bool) : Stage := if wantsMode then .mode else .ready

/-- A write to the data port. -/
def data (chip : Chip) (value : BitVec 8) : Chip :=
  match chip.stage with
  | .vectorBase =>
      { chip with
        vectorBase := value &&& 0xF8
        stage := if chip.single then afterCascade chip.wantsMode else .cascade }
  | .cascade => { chip with cascade := value, stage := afterCascade chip.wantsMode }
  | .mode => { chip with mode := value, stage := .ready }
  | .ready => { chip with mask := value }

def bit (line : Fin 8) : BitVec 8 := 1 <<< line.val

/-- The lines of the same or a higher priority. -/
def upTo (line : Fin 8) : BitVec 8 := bit line ||| (bit line - 1)

def accepts (chip : Chip) (line : Fin 8) : Bool :=
  chip.stage = .ready && !chip.mask.getLsbD line && (chip.inService &&& upTo line) == 0

def automaticEnd (chip : Chip) : Bool := chip.mode.getLsbD 1

/-- The processor has acknowledged the request. -/
def acknowledge (chip : Chip) (line : Fin 8) : Chip :=
  if chip.automaticEnd then chip else { chip with inService := chip.inService ||| bit line }

def vector (chip : Chip) (line : Fin 8) : BitVec 8 := chip.vectorBase ||| BitVec.ofNat 8 line

end Chip

/-! ## The pair -/

structure Pair where
  master : Chip
  slave : Chip
  deriving DecidableEq

structure PortWrite where
  port : BitVec 16
  value : BitVec 8
  deriving DecidableEq

/-- `outb` to one of the four ports of the pair. -/
def outb (pair : Pair) (write : PortWrite) : Pair :=
  if write.port = 0x20 then { pair with master := pair.master.command write.value }
  else if write.port = 0x21 then { pair with master := pair.master.data write.value }
  else if write.port = 0xA0 then { pair with slave := pair.slave.command write.value }
  else if write.port = 0xA1 then { pair with slave := pair.slave.data write.value }
  else pair

def outbs (pair : Pair) (writes : List PortWrite) : Pair := writes.foldl outb pair

/-- The line of the master that the slave is wired to. -/
def slaveLine : Fin 8 := 2

/-- What a device or noise on the lines makes the pair ask the processor for. -/
inductive Request where
  /-- one of the eight lines of the master, the one of the slave apart -/
  | master (line : Fin 8) (own : line ≠ slaveLine)
  | slave (line : Fin 8)
  /-- a request that was gone when the processor acknowledged it -/
  | spuriousMaster
  | spuriousSlave

/-- The slave answers when the master's cascade word has its line and it has been
told its number. -/
def wired (pair : Pair) : Bool :=
  pair.master.cascade.getLsbD slaveLine && pair.slave.cascade == BitVec.ofNat 8 slaveLine

/-- The vector that the processor is given, and the pair afterwards. -/
def acknowledge (pair : Pair) : Request → Option (BitVec 8 × Pair)
  | .master line _ =>
      if pair.master.accepts line then
        some (pair.master.vector line, { pair with master := pair.master.acknowledge line })
      else none
  | .slave line =>
      if wired pair && pair.master.accepts slaveLine && pair.slave.accepts line then
        some (pair.slave.vector line,
          { master := pair.master.acknowledge slaveLine, slave := pair.slave.acknowledge line })
      else none
  | .spuriousMaster =>
      if pair.master.accepts 7 then some (pair.master.vector 7, pair) else none
  | .spuriousSlave =>
      if wired pair && pair.master.accepts slaveLine && pair.slave.accepts 7 then
        some (pair.slave.vector 7,
          { pair with master := pair.master.acknowledge slaveLine })
      else none

end ChaoOS.InterruptController
