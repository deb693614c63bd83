import Mathlib.Data.Nat.Digits.Lemmas
import Mathlib.Logic.Function.Basic

/-!
# Numbers as text

`uint2string`, `int2string` and `hex2string` of `stdio/printf.c` write the
digits of a number from the end of a buffer towards its start and return the
place of the first one. A buffer is its bytes by index and the indices written.
-/

namespace ChaoOS.NumberText

set_option autoImplicit false

def byte (character : Char) : Nat := character.toNat

structure Buffer where
  bytes : Int → Nat
  writes : List Int

def Buffer.put (buf : Buffer) (index : Int) (value : Nat) : Buffer :=
  { bytes := Function.update buf.bytes index value, writes := buf.writes ++ [index] }

/-- The variables of a conversion loop. -/
structure Digits where
  i : Int
  num : Nat
  n : Nat
  buf : Buffer

/-- The loop `while (i >= 0 && n > 0)`. It counts `i` down, so that `max_size`
turns are enough. -/
def writeDigits (base : Nat) (digit : Nat → Nat) : Nat → Digits → Digits
  | 0, state => state
  | fuel + 1, state =>
      if 0 ≤ state.i ∧ 0 < state.n then
        writeDigits base digit fuel
          { i := state.i - 1
            num := state.num + 1
            n := state.n / base
            buf := state.buf.put (state.i - 1) (digit (state.n % base)) }
      else state

/-- The terminator, and the digit of zero, which the loop would not write. -/
def beginDigits (n : Nat) (buf : Buffer) (maxSize : Nat) : Digits :=
  let i : Int := maxSize - 1
  let buf := buf.put i 0
  if n = 0 then { i := i - 1, num := 1, n := n, buf := buf.put (i - 1) (byte '0') }
  else { i := i, num := 0, n := n, buf := buf }

/-- The returned pointer as an index into the buffer, and the buffer. -/
def uint2string (n : Nat) (buf : Buffer) (maxSize : Nat) : Option Int × Buffer :=
  let state := writeDigits 10 (fun digit => digit + byte '0') maxSize (beginDigits n buf maxSize)
  (if state.n = 0 then some state.i else none, state.buf)

/-- A negative `n` is brought into `unsigned int` by way of `-(n + 1) + 1`. When
`uint2string` has no room, the sign is written before address zero, outside the
buffer. -/
def int2string (n : Int) (buf : Buffer) (maxSize : Nat) : Option Int × Buffer :=
  if n < 0 then
    let num := (0 - (n + 1)).toNat + 1
    match uint2string num buf (maxSize - 1) with
    | (some tmp, buf) => (some (tmp - 1), buf.put (tmp - 1) (byte '-'))
    | (none, buf) => (none, buf)
  else uint2string n.toNat buf maxSize

/-- The variables `hex_digits_max`, `hex_flag`, `hex_complement` and
`format_sign`, which outlive a call. -/
structure HexFormat where
  digitsMax : Nat
  flag : Nat
  complement : Nat
  sign : Nat

def mapx : List Nat :=
  ['0', '1', '2', '3', '4', '5', '6', '7', '8', '9', 'a', 'b', 'c', 'd', 'e', 'f'].map byte

def mapX : List Nat :=
  ['0', '1', '2', '3', '4', '5', '6', '7', '8', '9', 'A', 'B', 'C', 'D', 'E', 'F'].map byte

def hexDigit (flag digit : Nat) : Nat :=
  if flag = byte 'x' then mapx.getD digit 0 else mapX.getD digit 0

/-- The loop `while (num < hex_digits_max)`. -/
def padDigits (complement digitsMax : Nat) : Nat → Digits → Digits
  | 0, state => state
  | fuel + 1, state =>
      if state.num < digitsMax then
        padDigits complement digitsMax fuel
          { state with
            i := state.i - 1
            num := state.num + 1
            buf := state.buf.put (state.i - 1) complement }
      else state

def writeSign (sign : Nat) (state : Digits) : Digits :=
  if sign = byte '#' then
    { state with
      i := state.i - 2
      buf := (state.buf.put (state.i - 1) (byte 'x')).put (state.i - 2) (byte '0') }
  else state

def hex2string (hex : HexFormat) (n : Nat) (buf : Buffer) (maxSize : Nat) : Option Int × Buffer :=
  let state := writeDigits 16 (hexDigit hex.flag) maxSize (beginDigits n buf maxSize)
  let state := padDigits hex.complement hex.digitsMax hex.digitsMax state
  let state := writeSign hex.sign state
  (if state.n = 0 then some state.i else none, state.buf)

/-! ## The text of a number -/

/-- A digit in lower or upper case. -/
def digitByte (upper : Bool) (digit : Nat) : Nat :=
  if digit < 10 then byte '0' + digit
  else (if upper then byte 'A' else byte 'a') + (digit - 10)

/-- The digits of a number, most significant first, without leading zeros. -/
def numeral (base : Nat) (upper : Bool) (n : Nat) : List Nat :=
  if n = 0 then [byte '0'] else (Nat.digits base n).reverse.map (digitByte upper)

def decimalText (n : Int) : List Nat :=
  if n < 0 then byte '-' :: numeral 10 false n.natAbs else numeral 10 false n.natAbs

def hexText (n : Nat) (upper : Bool) (complement digitsMax : Nat) (prefixed : Bool) : List Nat :=
  let digits := numeral 16 upper n
  (if prefixed then [byte '0', byte 'x'] else []) ++
    (List.replicate (digitsMax - digits.length) complement ++ digits)

/-! ## Reading a buffer -/

/-- From `index` on the buffer holds the bytes and then a terminator. -/
def Holds (buf : Buffer) : Int → List Nat → Prop
  | index, [] => buf.bytes index = 0
  | index, first :: rest => buf.bytes index = first ∧ first ≠ 0 ∧ Holds buf (index + 1) rest

theorem holds_congr {buf buf' : Buffer} {index : Int} {text : List Nat}
    (same : ∀ place, index ≤ place → buf'.bytes place = buf.bytes place)
    (holds : Holds buf index text) : Holds buf' index text := by
  induction text generalizing index with
  | nil => exact (same index le_rfl).trans holds
  | cons first rest induction =>
      refine ⟨(same index le_rfl).trans holds.1, holds.2.1, ?_⟩
      exact induction (fun place later => same place (by omega)) holds.2.2

/-- A byte written before a text extends it. -/
theorem holds_put {buf : Buffer} {index : Int} {text : List Nat} {value : Nat}
    (holds : Holds buf index text) (visible : value ≠ 0) :
    Holds (buf.put (index - 1) value) (index - 1) (value :: text) := by
  refine ⟨by simp [Buffer.put], visible, ?_⟩
  rw [show index - 1 + 1 = index by omega]
  apply holds_congr _ holds
  intro place later
  exact Function.update_of_ne (by omega) _ _

/-! ## What the loops write -/

section Loops

variable {base : Nat} {digit : Nat → Nat}

theorem digits_length_le {n count : Nat} (several : 1 < base) (small : n < base ^ count) :
    (Nat.digits base n).length ≤ count :=
  (Nat.digits_length_le_iff several n).mpr small

/-- With room for the digits and a turn for each, the loop writes them before
what stands at `i` and leaves nothing of `n`. -/
theorem write_digits_spec (several : 1 < base) (visible : ∀ value < base, digit value ≠ 0)
    (fuel : Nat) (state : Digits) (text : List Nat) (holds : Holds state.buf state.i text)
    (turns : (Nat.digits base state.n).length ≤ fuel)
    (room : (Nat.digits base state.n).length ≤ state.i) :
    let final := writeDigits base digit fuel state
    final.n = 0 ∧ final.i = state.i - (Nat.digits base state.n).length ∧
      final.num = state.num + (Nat.digits base state.n).length ∧
      Holds final.buf final.i ((Nat.digits base state.n).reverse.map digit ++ text) := by
  induction fuel generalizing state text with
  | zero =>
      have empty : Nat.digits base state.n = [] := List.length_eq_zero_iff.mp (by omega)
      have none : state.n = 0 := Nat.digits_eq_nil_iff_eq_zero.mp empty
      simpa [writeDigits, none] using holds
  | succ fuel induction =>
      by_cases positive : 0 < state.n
      · rw [Nat.digits_def' several positive] at turns room ⊢
        simp only [List.length_cons] at turns room ⊢
        have going : 0 ≤ state.i ∧ 0 < state.n := ⟨by omega, positive⟩
        rw [writeDigits, if_pos going]
        have small : state.n % base < base := Nat.mod_lt _ (by omega)
        have written := holds_put holds (visible _ small)
        obtain ⟨nothing, place, count, whole⟩ := induction
          { i := state.i - 1
            num := state.num + 1
            n := state.n / base
            buf := state.buf.put (state.i - 1) (digit (state.n % base)) } _ written
          (by simp only; omega) (by simp only; omega)
        refine ⟨nothing, ?_, ?_, ?_⟩
        · rw [place]
          simp only
          omega
        · rw [count]
          simp only
          omega
        · simpa using whole
      · have none : state.n = 0 := by omega
        have stops : ¬(0 ≤ state.i ∧ 0 < state.n) := fun both => positive both.2
        rw [writeDigits, if_neg stops]
        simpa [none] using holds

theorem digit_byte_visible (upper : Bool) (value : Nat) : digitByte upper value ≠ 0 := by
  unfold digitByte
  have zero : byte '0' = 48 := rfl
  have capital : byte 'A' = 65 := rfl
  have small : byte 'a' = 97 := rfl
  split_ifs <;> omega

theorem numeral_eq {upper : Bool} {n : Nat} (positive : n ≠ 0) (several : 1 < base)
    (named : ∀ value < base, digit value = digitByte upper value) :
    (Nat.digits base n).reverse.map digit = numeral base upper n := by
  rw [numeral, if_neg positive]
  apply List.map_congr_left
  intro value member
  exact named value (Nat.digits_lt_base several (List.mem_reverse.mp member))

/-- The digits of `n`, written from the end of the buffer. -/
theorem digits_written {upper : Bool} (n count maxSize : Nat) (buf : Buffer) (several : 1 < base)
    (named : ∀ value < base, digit value = digitByte upper value) (small : n < base ^ count)
    (room : count + 2 ≤ maxSize) :
    let final := writeDigits base digit maxSize (beginDigits n buf maxSize)
    final.n = 0 ∧ final.num = (numeral base upper n).length ∧
      Holds final.buf final.i (numeral base upper n) := by
  have visible : ∀ value < base, digit value ≠ 0 := by
    intro value below
    rw [named value below]
    exact digit_byte_visible upper value
  have short := digits_length_le several small
  have ended : Holds (buf.put (maxSize - 1) 0) (maxSize - 1) [] := by simp [Holds, Buffer.put]
  by_cases zero : n = 0
  · subst zero
    have single : Holds ((buf.put (maxSize - 1) 0).put (maxSize - 1 - 1) (byte '0'))
        (maxSize - 1 - 1) [byte '0'] := holds_put ended (by decide)
    obtain ⟨nothing, -, total, whole⟩ := write_digits_spec several visible maxSize
      (beginDigits 0 buf maxSize) [byte '0'] (by simpa [beginDigits] using single)
      (by simp [beginDigits]) (by simp [beginDigits]; omega)
    refine ⟨nothing, ?_, ?_⟩
    · simpa [beginDigits, numeral] using total
    · simpa [beginDigits, numeral] using whole
  · have begun : beginDigits n buf maxSize =
        { i := maxSize - 1, num := 0, n := n, buf := buf.put (maxSize - 1) 0 } := by
      simp [beginDigits, zero]
    rw [begun]
    obtain ⟨nothing, -, total, whole⟩ := write_digits_spec several visible maxSize
      { i := maxSize - 1, num := 0, n := n, buf := buf.put (maxSize - 1) 0 } [] ended
      (by simp only; omega) (by simp only; omega)
    simp only [numeral_eq zero several named, List.append_nil] at whole
    refine ⟨nothing, ?_, whole⟩
    rw [total, ← numeral_eq zero several named]
    simp

/-- The padding loop puts one byte after the other before the text, however the
buffer is read. -/
theorem pad_digits_reads {complement : Nat} {Reads : Buffer → Int → List Nat → Prop}
    (digitsMax : Nat)
    (grows : digitsMax ≠ 0 → ∀ buf index text, Reads buf index text →
      Reads (buf.put (index - 1) complement) (index - 1) (complement :: text))
    (fuel : Nat) (state : Digits) {text : List Nat} (reads : Reads state.buf state.i text)
    (turns : digitsMax ≤ state.num + fuel) :
    let final := padDigits complement digitsMax fuel state
    final.n = state.n ∧ final.num = max state.num digitsMax ∧
      Reads final.buf final.i (List.replicate (digitsMax - state.num) complement ++ text) := by
  induction fuel generalizing state text with
  | zero =>
      have full : digitsMax - state.num = 0 := by omega
      rw [full, Nat.max_eq_left (by omega)]
      exact ⟨rfl, rfl, reads⟩
  | succ fuel induction =>
      by_cases less : state.num < digitsMax
      · rw [padDigits, if_pos less]
        obtain ⟨same, total, whole⟩ := induction
          { state with
            i := state.i - 1
            num := state.num + 1
            buf := state.buf.put (state.i - 1) complement } (grows (by omega) _ _ _ reads)
          (by simp only; omega)
        refine ⟨same, total.trans (by simp only; omega), ?_⟩
        have count : digitsMax - state.num = digitsMax - (state.num + 1) + 1 := by omega
        rw [count, List.replicate_succ']
        simpa using whole
      · rw [padDigits, if_neg less]
        have full : digitsMax - state.num = 0 := by omega
        rw [full, Nat.max_eq_left (by omega)]
        exact ⟨rfl, rfl, reads⟩

theorem pad_digits_spec {complement : Nat} (digitsMax : Nat)
    (visible : digitsMax ≠ 0 → complement ≠ 0) (fuel : Nat) (state : Digits) {text : List Nat}
    (holds : Holds state.buf state.i text)
    (turns : digitsMax ≤ state.num + fuel) :
    let final := padDigits complement digitsMax fuel state
    final.n = state.n ∧
      Holds final.buf final.i (List.replicate (digitsMax - state.num) complement ++ text) := by
  obtain ⟨same, -, whole⟩ := pad_digits_reads digitsMax
    (fun some_left _ _ _ reads => holds_put reads (visible some_left)) fuel state holds turns
  exact ⟨same, whole⟩

theorem write_sign_spec (sign : Nat) (state : Digits) {text : List Nat}
    (holds : Holds state.buf state.i text) :
    (writeSign sign state).n = state.n ∧
      Holds (writeSign sign state).buf (writeSign sign state).i
        ((if sign = byte '#' then [byte '0', byte 'x'] else []) ++ text) := by
  unfold writeSign
  split_ifs with signed
  · refine ⟨rfl, ?_⟩
    have once := holds_put holds (show byte 'x' ≠ 0 by decide)
    have twice := holds_put once (show byte '0' ≠ 0 by decide)
    rw [show state.i - 1 - 1 = state.i - 2 by omega] at twice
    exact twice
  · exact ⟨rfl, holds⟩

end Loops

/-! ## The conversions -/

/-- Digits of a word, a sign and a terminator fit into a buffer of this size. -/
theorem uint2string_spec (n maxSize : Nat) (buf : Buffer) (small : n < 2 ^ 32)
    (room : 12 ≤ maxSize) :
    ∃ index after, uint2string n buf maxSize = (some index, after) ∧
      Holds after index (numeral 10 false n) := by
  have named : ∀ value < 10, value + byte '0' = digitByte false value := by decide
  obtain ⟨nothing, -, whole⟩ := digits_written n 10 maxSize buf (by decide) named
    (by omega) (by omega)
  exact ⟨_, _, by rw [uint2string, if_pos nothing], whole⟩

theorem int2string_spec {n : Int} (maxSize : Nat) (buf : Buffer) (lower : -2 ^ 31 ≤ n)
    (upper : n < 2 ^ 31) (room : 13 ≤ maxSize) :
    ∃ index after, int2string n buf maxSize = (some index, after) ∧
      Holds after index (decimalText n) := by
  unfold int2string decimalText
  by_cases negative : n < 0
  · simp only [if_pos negative]
    have value : (0 - (n + 1)).toNat + 1 = n.natAbs := by omega
    rw [value]
    obtain ⟨index, after, run, holds⟩ := uint2string_spec n.natAbs (maxSize - 1) buf
      (by omega) (by omega)
    rw [run]
    exact ⟨_, _, rfl, holds_put holds (by decide)⟩
  · simp only [if_neg negative]
    have value : n.toNat = n.natAbs := by omega
    rw [value]
    exact uint2string_spec n.natAbs maxSize buf (by omega) (by omega)

theorem hex_digit_named (upper : Bool) :
    ∀ value < 16, hexDigit (byte (if upper then 'X' else 'x')) value = digitByte upper value := by
  cases upper <;> decide

theorem hex2string_spec {hex : HexFormat} {upper : Bool} {n : Nat} (maxSize : Nat) (buf : Buffer)
    (flag : hex.flag = byte (if upper then 'X' else 'x'))
    (visible : hex.digitsMax ≠ 0 → hex.complement ≠ 0) (small : n < 2 ^ 32) (room : 12 ≤ maxSize) :
    ∃ index after, hex2string hex n buf maxSize = (some index, after) ∧
      Holds after index
        (hexText n upper hex.complement hex.digitsMax (decide (hex.sign = byte '#'))) := by
  have named := hex_digit_named upper
  rw [← flag] at named
  obtain ⟨nothing, total, whole⟩ := digits_written n 8 maxSize buf (by decide) named
    (by omega) (by omega)
  obtain ⟨padded, filled⟩ := pad_digits_spec hex.digitsMax visible hex.digitsMax _ whole
    (by omega)
  obtain ⟨same, final⟩ := write_sign_spec hex.sign _ filled
  rw [total, show (if hex.sign = byte '#' then [byte '0', byte 'x'] else []) ++
      (List.replicate (hex.digitsMax - (numeral 16 upper n).length) hex.complement ++
        numeral 16 upper n) =
      hexText n upper hex.complement hex.digitsMax (decide (hex.sign = byte '#')) by
    simp [hexText]] at final
  exact ⟨_, _, by rw [hex2string, if_pos (same.trans (padded.trans nothing))], final⟩

end ChaoOS.NumberText
