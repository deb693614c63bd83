import ChaoOS.KernelMath
import ChaoOS.NumberText

/-!
# `printf`

The function of `stdio/printf.c` as a loop over its format. A format is the
list of its bytes before the terminator. `print` hands its bytes to `putchar`,
which never fails, so that what is printed is one growing list; the lock around
it is left out.
-/

namespace ChaoOS.PrintfModel

open ChaoOS.KernelMath ChaoOS.NumberText

set_option autoImplicit false

def intMax : Nat := 2 ^ 31 - 1

def bufSize : Nat := 100

/-- What `str` points to. -/
inductive Text where
  | null
  | buffer (index : Int)
  | bytes (text : List Nat)

/-- A variadic argument: an `int` or `unsigned int` as its word, or a string as
its bytes before the terminator. -/
inductive Arg where
  | word (value : Nat)
  | text (bytes : List Nat)

/-- The variables of a call and what it has printed. The formatting variables
are global and come with the values an earlier call has left. -/
structure Call where
  hex : HexFormat
  buf : Buffer
  str : Text
  args : List Arg
  written : Nat
  output : List Nat

/-- The bytes up to the terminator, which is in the buffer. -/
def scan (buf : Buffer) : Nat → Int → List Nat
  | 0, _ => []
  | fuel + 1, index =>
      if buf.bytes index = 0 then [] else buf.bytes index :: scan buf fuel (index + 1)

/-- The string at `str`: `strlen` takes the null pointer for an empty one. -/
def Call.text (call : Call) : List Nat :=
  match call.str with
  | .null => []
  | .buffer index => scan call.buf bufSize index
  | .bytes text => text

/-- `print` and the addition to `written`. -/
def Call.emit (call : Call) (bytes : List Nat) : Call :=
  { call with
    output := call.output ++ bytes
    written := add32 call.written bytes.length }

/-- How a call ends: with `written`, with `-1`, or without a meaning, when
`va_arg` finds no argument of its type. -/
inductive Ending where
  | returned
  | failed
  | undefined
  deriving DecidableEq

inductive Turn where
  | next (format : List Nat) (call : Call)
  | stop (ending : Ending) (call : Call)

def maxrem (call : Call) : Nat := sub32 intMax call.written

/-- Literal text: the byte at `format`, whatever it is, and those after it up
to the next percent sign. -/
def literalTurn (format : List Nat) (call : Call) : Turn :=
  let amount := (format.tail.takeWhile fun value => value ≠ byte '%').length + 1
  if maxrem call < amount then .stop .failed call
  else .next (format.drop amount) (call.emit (format.take amount))

/-- What stands after the branches: the text at `str` is printed. -/
def printStr (maxrem : Nat) (format : List Nat) (call : Call) : Turn :=
  let len := call.text.length
  if maxrem < len then .stop .failed call
  else .next format (call.emit call.text)

def charTurn (format : List Nat) (call : Call) : Turn :=
  match call.args with
  | .word value :: args =>
      let after := { call with args := args }
      if maxrem call = 0 then .stop .failed after
      else printStr (maxrem call) format (after.emit [value % 256])
  | _ => .stop .undefined call

def stringTurn (format : List Nat) (call : Call) : Turn :=
  match call.args with
  | .text bytes :: args =>
      printStr (maxrem call) format { call with args := args, str := .bytes bytes }
  | _ => .stop .undefined call

/-- A pointer into the buffer, or the null pointer. -/
def bufferText : Option Int → Text
  | some index => .buffer index
  | none => .null

/-- A word as an `int`. -/
def toInt (value : Nat) : Int :=
  if value < 2 ^ 31 then value else value - 2 ^ 32

def decimalTurn (format : List Nat) (call : Call) : Turn :=
  match call.args with
  | .word value :: args =>
      let (str, buf) := int2string (toInt value) call.buf bufSize
      printStr (maxrem call) format
        { call with args := args, str := bufferText str, buf := buf }
  | _ => .stop .undefined call

/-- A hexadecimal conversion sets the formatting variables, all but
`hex_complement`, which only some set. -/
def hexTurn (flag digitsMax sign : Nat) (complement : Option Nat) (format : List Nat)
    (call : Call) : Turn :=
  let hex : HexFormat :=
    { digitsMax := digitsMax
      flag := flag
      complement := complement.getD call.hex.complement
      sign := sign }
  match call.args with
  | .word value :: args =>
      let (str, buf) := hex2string hex value call.buf bufSize
      printStr (maxrem call) format
        { call with hex := hex, args := args, str := bufferText str, buf := buf }
  | _ => .stop .undefined { call with hex := hex }

def isX (value : Nat) : Bool := value == byte 'x' || value == byte 'X'

/-- The conversions, tried in this order, with `format` after the percent sign.
Anything else is printed as it stands, together with all that follows. -/
def conversionTurn (format : List Nat) (call : Call) : Turn :=
  let at0 := format.getD 0 0
  let at1 := format.getD 1 0
  let at2 := format.getD 2 0
  let at3 := format.getD 3 0
  let blank := byte ' '
  let digit0 := byte '0'
  let eight := byte '8'
  let hash := byte '#'
  if at0 = byte 'c' then charTurn (format.drop 1) call
  else if at0 = byte 's' then stringTurn (format.drop 1) call
  else if at0 = byte 'd' then decimalTurn (format.drop 1) call
  else if isX at0 then hexTurn at0 0 blank none (format.drop 1) call
  else if at0 = digit0 ∧ isX at1 then hexTurn at1 0 blank none (format.drop 2) call
  else if at0 = digit0 ∧ at1 = eight ∧ isX at2 then
    hexTurn at2 8 blank (some digit0) (format.drop 3) call
  else if at0 = eight ∧ isX at1 then hexTurn at1 8 blank (some blank) (format.drop 2) call
  else if at0 = hash ∧ isX at1 then hexTurn at1 0 hash none (format.drop 2) call
  else if at0 = hash ∧ at1 = digit0 ∧ isX at2 then hexTurn at2 0 hash none (format.drop 3) call
  else if at0 = hash ∧ at1 = digit0 ∧ at2 = eight ∧ isX at3 then
    hexTurn at3 8 hash (some digit0) (format.drop 4) call
  else if at0 = hash ∧ at1 = eight ∧ isX at2 then
    hexTurn at2 8 hash (some blank) (format.drop 3) call
  else printStr (maxrem call) [] { call with str := .bytes (byte '%' :: format) }

/-- One turn of the loop. -/
def turn (format : List Nat) (call : Call) : Turn :=
  if format.getD 0 0 ≠ byte '%' then literalTurn format call
  else if format.getD 1 0 = byte '%' then literalTurn (format.drop 1) call
  else conversionTurn (format.drop 1) call

/-- The loop. Each turn moves `format` on, so that as many turns as it has
bytes are enough. -/
def printfLoop : Nat → List Nat → Call → Ending × Call
  | _, [], call => (.returned, call)
  | 0, _ :: _, call => (.undefined, call)
  | fuel + 1, first :: rest, call =>
      match turn (first :: rest) call with
      | .next format call => printfLoop fuel format call
      | .stop ending call => (ending, call)

def printf (hex : HexFormat) (buf : Buffer) (format : List Nat) (args : List Arg) : Ending × Call :=
  printfLoop format.length format
    { hex := hex, buf := buf, str := .null, args := args, written := 0, output := [] }

end ChaoOS.PrintfModel
