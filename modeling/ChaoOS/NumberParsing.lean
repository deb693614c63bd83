import ChaoOS.NumberText

/-!
# Exact numbers

The conversions of `stdio/printf.c` write nothing outside their buffer, and what
they write is the one text of the number without leading zeros. The padding may
be any byte, also the terminator, so that a text is compared byte for byte.
-/

namespace ChaoOS.NumberParsing

open ChaoOS.NumberText

set_option autoImplicit false

/-! ## Reading digits -/

def digitValue (digit : Nat) : Nat :=
  if digit < byte 'A' then digit - byte '0'
  else if digit < byte 'a' then digit - byte 'A' + 10
  else digit - byte 'a' + 10

def parseDigits (base : Nat) (digits : List Nat) : Nat :=
  digits.foldl (fun value digit => base * value + digitValue digit) 0

def parseInteger (text : List Nat) : Int :=
  if text.head? = some (byte '-') then -(parseDigits 10 text.tail) else parseDigits 10 text

/-- Digits of the base in one case, without leading zeros. -/
structure Canonical (base : Nat) (upper : Bool) (digits : List Nat) : Prop where
  nonempty : digits ≠ []
  digit : ∀ place ∈ digits, ∃ value < base, place = digitByte upper value
  leading : digits.head? = some (byte '0') → digits = [byte '0']

section Numerals

variable {base n : Nat} {upper : Bool}

theorem digit_value_byte (upper : Bool) : ∀ value < 16, digitValue (digitByte upper value) = value := by
  cases upper <;> decide

theorem digit_byte_zero (upper : Bool) : ∀ value < 16, digitByte upper value = byte '0' → value = 0 := by
  cases upper <;> decide

theorem digit_byte_not_minus (upper : Bool) : ∀ value < 16, digitByte upper value ≠ byte '-' := by
  cases upper <;> decide

/-- Horner's rule, read from the most significant digit on. -/
theorem parse_digits_reverse (small : base ≤ 16) {digits : List Nat}
    (below : ∀ value ∈ digits, value < base) :
    parseDigits base (digits.reverse.map (digitByte upper)) = Nat.ofDigits base digits := by
  induction digits with
  | nil => rfl
  | cons first rest induction =>
      have last := digit_value_byte upper first (Nat.lt_of_lt_of_le (below first (by simp)) small)
      have earlier := induction fun value member => below value (List.mem_cons_of_mem _ member)
      rw [parseDigits] at earlier ⊢
      rw [List.reverse_cons, List.map_append, List.foldl_append, earlier, List.map_singleton,
        List.foldl_cons, List.foldl_nil, last, Nat.ofDigits_cons, Nat.add_comm]

theorem parse_numeral (several : 1 < base) (small : base ≤ 16) :
    parseDigits base (numeral base upper n) = n := by
  unfold numeral
  split_ifs with zero
  · rw [zero]
    rfl
  · rw [parse_digits_reverse small fun value member => Nat.digits_lt_base several member,
      Nat.ofDigits_digits]

theorem numeral_canonical (several : 1 < base) (small : base ≤ 16) :
    Canonical base upper (numeral base upper n) := by
  unfold numeral
  split_ifs with zero
  · refine ⟨by simp, ?_, fun _ => rfl⟩
    intro place member
    refine ⟨0, by omega, ?_⟩
    rw [List.mem_singleton.mp member]
    rfl
  · have digits : Nat.digits base n ≠ [] := Nat.digits_ne_nil_iff_ne_zero.mpr zero
    constructor
    case nonempty => simpa using digits
    case digit =>
        intro place member
        obtain ⟨value, listed, same⟩ := List.mem_map.mp member
        exact ⟨value, Nat.digits_lt_base several (List.mem_reverse.mp listed), same.symm⟩
    case leading =>
        intro first
        rw [List.head?_map, List.head?_reverse, List.getLast?_eq_getLast_of_ne_nil digits,
          Option.map_some, Option.some.injEq] at first
        have below := Nat.digits_lt_base several (List.getLast_mem digits)
        exact absurd (digit_byte_zero upper _ (Nat.lt_of_lt_of_le below small) first)
          (Nat.getLast_digit_ne_zero base zero)

theorem numeral_length_le (several : 1 < base) {count : Nat} (bound : n < base ^ count)
    (positive : 0 < count) : (numeral base upper n).length ≤ count := by
  unfold numeral
  split_ifs
  · exact positive
  · rw [List.length_map, List.length_reverse]
    exact digits_length_le several bound

end Numerals

/-! ## The buffer -/

/-- From `index` on the buffer has the bytes of the text and then a terminator. -/
def Spells (buf : Buffer) : Int → List Nat → Prop
  | index, [] => buf.bytes index = 0
  | index, first :: rest => buf.bytes index = first ∧ Spells buf (index + 1) rest

/-- Every index written since `old` lies between `low` and `high`. -/
def WrittenWithin (old : List Int) (low high : Int) (buf : Buffer) : Prop :=
  ∀ place ∈ buf.writes, place ∈ old ∨ low ≤ place ∧ place ≤ high

/-- A loop that has counted its digits: `i` is as many places below `high`. -/
structure Logged (old : List Int) (high : Int) (state : Digits) : Prop where
  counted : state.i + state.num = high
  within : WrittenWithin old state.i high state.buf

section Loops

variable {buf : Buffer} {index high : Int} {text : List Nat} {old : List Int} {state : Digits}

theorem spells_of_holds (holds : Holds buf index text) : Spells buf index text := by
  induction text generalizing index with
  | nil => exact holds
  | cons first rest induction => exact ⟨holds.1, induction holds.2.2⟩

theorem spells_congr {buf' : Buffer} (same : ∀ place, index ≤ place → buf'.bytes place = buf.bytes place)
    (spells : Spells buf index text) : Spells buf' index text := by
  induction text generalizing index with
  | nil => exact (same index le_rfl).trans spells
  | cons first rest induction =>
      refine ⟨(same index le_rfl).trans spells.1, ?_⟩
      exact induction (fun place later => same place (by omega)) spells.2

theorem spells_put (value : Nat) (spells : Spells buf index text) :
    Spells (buf.put (index - 1) value) (index - 1) (value :: text) := by
  refine ⟨by simp [Buffer.put], ?_⟩
  rw [show index - 1 + 1 = index by omega]
  apply spells_congr _ spells
  intro place later
  exact Function.update_of_ne (by omega) _ _

theorem within_put {low place : Int} (value : Nat) (within : WrittenWithin old low high buf)
    (lower : low - 1 ≤ place) (upper : place ≤ high) :
    WrittenWithin old (low - 1) high (buf.put place value) := by
  intro other member
  rcases List.mem_append.mp member with earlier | now
  · rcases within other earlier with before | inside
    · exact Or.inl before
    · exact Or.inr ⟨by omega, inside.2⟩
  · rw [List.mem_singleton.mp now]
    exact Or.inr ⟨lower, upper⟩

/-- One digit more, before the others. -/
theorem Logged.digit (logged : Logged old high state) (left value : Nat) :
    Logged old high
      { i := state.i - 1, num := state.num + 1, n := left, buf := state.buf.put (state.i - 1) value } := by
  have counted := logged.counted
  refine ⟨by simp only; omega, ?_⟩
  exact within_put value logged.within le_rfl (by omega)

theorem begin_digits_logged (n maxSize : Nat) (buf : Buffer) :
    Logged buf.writes (maxSize - 1) (beginDigits n buf maxSize) := by
  have start : Logged buf.writes (maxSize - 1)
      { i := maxSize - 1, num := 0, n := n, buf := buf.put (maxSize - 1) 0 } := by
    refine ⟨by simp, ?_⟩
    intro place member
    rcases List.mem_append.mp member with earlier | now
    · exact Or.inl earlier
    · rw [List.mem_singleton.mp now]
      exact Or.inr ⟨le_rfl, le_rfl⟩
  unfold beginDigits
  dsimp only
  split_ifs
  · exact start.digit n (byte '0')
  · exact start

theorem write_digits_logged (base : Nat) (digit : Nat → Nat) (fuel : Nat)
    (logged : Logged old high state) : Logged old high (writeDigits base digit fuel state) := by
  induction fuel generalizing state with
  | zero => exact logged
  | succ fuel induction =>
      rw [writeDigits]
      split_ifs
      · exact induction (logged.digit _ _)
      · exact logged

theorem pad_digits_logged (complement digitsMax fuel : Nat) (logged : Logged old high state) :
    Logged old high (padDigits complement digitsMax fuel state) := by
  induction fuel generalizing state with
  | zero => exact logged
  | succ fuel induction =>
      rw [padDigits]
      split_ifs
      · exact induction (logged.digit _ _)
      · exact logged

/-- The sign takes two places more at most. -/
theorem write_sign_logged (sign : Nat) (logged : Logged old high state) :
    WrittenWithin old (state.i - 2) high (writeSign sign state).buf ∧
      (writeSign sign state).n = state.n := by
  have counted := logged.counted
  unfold writeSign
  split_ifs
  · have once := within_put (byte 'x') logged.within le_rfl (by omega)
    have second : state.i - 1 - 1 = state.i - 2 := by omega
    have twice := within_put (byte '0') once le_rfl (by omega)
    rw [second] at twice
    exact ⟨twice, rfl⟩
  · refine ⟨?_, rfl⟩
    intro place member
    exact (logged.within place member).imp_right fun inside => ⟨by omega, inside.2⟩

theorem write_sign_spells (sign : Nat) (spells : Spells state.buf state.i text) :
    Spells (writeSign sign state).buf (writeSign sign state).i
      ((if sign = byte '#' then [byte '0', byte 'x'] else []) ++ text) := by
  unfold writeSign
  split_ifs
  · have twice := spells_put (byte '0') (spells_put (byte 'x') spells)
    rw [show state.i - 1 - 1 = state.i - 2 by omega] at twice
    exact twice
  · exact spells

end Loops

/-! ## The conversions -/

/-- The call answers a pointer to the text, in a buffer of `maxSize` bytes that it
does not leave. -/
structure Returns (buf : Buffer) (maxSize : Nat) (result : Option Int × Buffer) (text : List Nat) :
    Prop where
  answered : ∃ index, result.1 = some index ∧ Spells result.2 index text
  inside : ∀ place ∈ result.2.writes, place ∈ buf.writes ∨ 0 ≤ place ∧ place < maxSize

section Conversions

variable {buf : Buffer}

/-- The size of the buffers of `printf`. -/
def bufferSize : Nat := 100

theorem uint2string_returns {n : Nat} (maxSize : Nat) (buf : Buffer) (small : n < 2 ^ 32)
    (room : 12 ≤ maxSize) : ∃ index after, uint2string n buf maxSize = (some index, after) ∧
      Spells after index (numeral 10 false n) ∧
      WrittenWithin buf.writes index (maxSize - 1) after ∧
      (maxSize : Int) - 11 ≤ index ∧ index < maxSize := by
  have named : ∀ value < 10, value + byte '0' = digitByte false value := by decide
  have several : 1 < 10 := by decide
  obtain ⟨nothing, total, whole⟩ := digits_written n 10 maxSize buf several named (by omega)
    (by omega)
  have logged := write_digits_logged 10 (fun digit => digit + byte '0') maxSize
    (begin_digits_logged n maxSize buf)
  have short : (numeral 10 false n).length ≤ 10 := numeral_length_le several (by omega) (by omega)
  have counted := logged.counted
  refine ⟨_, _, by rw [uint2string, if_pos nothing], spells_of_holds whole, logged.within,
    ?_, ?_⟩
  · omega
  · omega

theorem int2string_returns {n : Int} (buf : Buffer) (lower : -2 ^ 31 ≤ n) (upper : n < 2 ^ 31) :
    Returns buf bufferSize (int2string n buf bufferSize) (decimalText n) := by
  have size : bufferSize = 100 := rfl
  unfold int2string decimalText
  rw [size]
  by_cases negative : n < 0
  · simp only [if_pos negative]
    have value : (0 - (n + 1)).toNat + 1 = n.natAbs := by omega
    obtain ⟨index, after, run, spells, within, room, inside⟩ :=
      uint2string_returns (n := n.natAbs) (100 - 1) buf (by omega) (by omega)
    rw [value, run]
    have signed := within_put (byte '-') within le_rfl (by omega)
    refine ⟨⟨_, rfl, spells_put _ spells⟩, ?_⟩
    intro place member
    exact (signed place member).imp_right fun between => by omega
  · simp only [if_neg negative]
    have value : n.toNat = n.natAbs := by omega
    obtain ⟨index, after, run, spells, within, room, -⟩ :=
      uint2string_returns (n := n.natAbs) 100 buf (by omega) (by omega)
    rw [value, run]
    refine ⟨⟨_, rfl, spells⟩, ?_⟩
    intro place member
    exact (within place member).imp_right fun between => by omega

theorem hex2string_returns {hex : HexFormat} {upper : Bool} {n : Nat} (buf : Buffer)
    (flag : hex.flag = byte (if upper then 'X' else 'x')) (narrow : hex.digitsMax ≤ 8)
    (small : n < 2 ^ 32) :
    Returns buf bufferSize (hex2string hex n buf bufferSize)
      (hexText n upper hex.complement hex.digitsMax (decide (hex.sign = byte '#'))) := by
  have size : bufferSize = 100 := rfl
  have named := hex_digit_named upper
  rw [← flag] at named
  have several : 1 < 16 := by decide
  rw [size]
  obtain ⟨nothing, total, whole⟩ := digits_written n 8 100 buf several named (by omega) (by omega)
  have logged := write_digits_logged 16 (hexDigit hex.flag) 100 (begin_digits_logged n 100 buf)
  have short : (numeral 16 upper n).length ≤ 8 := numeral_length_le several (by omega) (by omega)
  obtain ⟨padded, count, filled⟩ := pad_digits_reads hex.digitsMax
    (fun _ _ _ _ spells => spells_put hex.complement spells) hex.digitsMax _
    (spells_of_holds whole) (by omega)
  have further := pad_digits_logged hex.complement hex.digitsMax hex.digitsMax logged
  obtain ⟨within, same⟩ := write_sign_logged hex.sign further
  have final := write_sign_spells hex.sign filled
  have counted := further.counted
  have text : (if hex.sign = byte '#' then [byte '0', byte 'x'] else []) ++
      (List.replicate (hex.digitsMax - (numeral 16 upper n).length) hex.complement ++
        numeral 16 upper n) =
      hexText n upper hex.complement hex.digitsMax (decide (hex.sign = byte '#')) := by
    simp [hexText]
  rw [total, text] at final
  refine ⟨⟨_, by rw [hex2string, if_pos (same.trans (padded.trans nothing))], final⟩, ?_⟩
  intro place member
  exact (within place member).imp_right fun between => by omega

/-- The parts of the two texts. -/
theorem decimal_text_parts (n : Int) : ∃ digits, Canonical 10 false digits ∧
    decimalText n = (if n < 0 then [byte '-'] else []) ++ digits ∧
    parseDigits 10 digits = n.natAbs ∧ parseInteger (decimalText n) = n := by
  have canonical : Canonical 10 false (numeral 10 false n.natAbs) :=
    numeral_canonical (by decide) (by decide)
  have value : parseDigits 10 (numeral 10 false n.natAbs) = n.natAbs :=
    parse_numeral (by decide) (by decide)
  refine ⟨numeral 10 false n.natAbs, canonical, ?_, value, ?_⟩
  · unfold decimalText
    split_ifs
    · rfl
    · rfl
  · unfold decimalText parseInteger
    split_ifs with negative signed plain
    · rw [List.tail_cons, value]
      omega
    · exact absurd rfl signed
    · obtain ⟨digit, below, same⟩ := canonical.digit (byte '-') (List.mem_of_head? plain)
      exact absurd same.symm (digit_byte_not_minus false digit (by omega))
    · rw [value]
      omega

theorem hex_text_parts (n : Nat) (upper : Bool) (complement digitsMax : Nat) (signed : Bool) :
    ∃ digits, Canonical 16 upper digits ∧ parseDigits 16 digits = n ∧
      hexText n upper complement digitsMax signed =
        (if signed then [byte '0', byte 'x'] else []) ++
          (List.replicate (digitsMax - digits.length) complement ++ digits) :=
  ⟨numeral 16 upper n, numeral_canonical (by decide) (by decide),
    parse_numeral (by decide) (by decide), rfl⟩

/-- Both conversions answer the text of their number, from which the number is
read back, and stay in the buffer. -/
theorem conversions_exact :
    (∀ (n : Int) (buf : Buffer), -2 ^ 31 ≤ n → n < 2 ^ 31 →
      ∃ digits, Canonical 10 false digits ∧
        Returns buf bufferSize (int2string n buf bufferSize)
          ((if n < 0 then [byte '-'] else []) ++ digits) ∧
        parseInteger ((if n < 0 then [byte '-'] else []) ++ digits) = n) ∧
    ∀ (n : Nat) (hex : HexFormat) (upper : Bool) (buf : Buffer), n < 2 ^ 32 →
      hex.flag = byte (if upper then 'X' else 'x') → hex.digitsMax = 0 ∨ hex.digitsMax = 8 →
      ∃ digits, Canonical 16 upper digits ∧
        Returns buf bufferSize (hex2string hex n buf bufferSize)
          ((if hex.sign = byte '#' then [byte '0', byte 'x'] else []) ++
            (List.replicate (hex.digitsMax - digits.length) hex.complement ++ digits)) ∧
        parseDigits 16 digits = n := by
  constructor
  · intro n buf lower upper
    obtain ⟨digits, canonical, text, -, value⟩ := decimal_text_parts n
    have returns := int2string_returns buf lower upper
    rw [text] at returns value
    exact ⟨digits, canonical, returns, value⟩
  · intro n hex upper buf small flag digitsMax
    obtain ⟨digits, canonical, value, text⟩ := hex_text_parts n upper hex.complement hex.digitsMax
      (decide (hex.sign = byte '#'))
    have returns := hex2string_returns buf flag (by omega) small
    rw [text] at returns
    simp only [decide_eq_true_eq] at returns
    exact ⟨digits, canonical, returns, value⟩

end Conversions

/-- The smallest `int`, and a word padded with spaces. -/
theorem conversions_exact_sample :
    (∃ digits, Canonical 10 false digits ∧
      Returns ⟨fun _ => 0, []⟩ bufferSize (int2string (-2147483648) ⟨fun _ => 0, []⟩ bufferSize)
        ((if (-2147483648 : Int) < 0 then [byte '-'] else []) ++ digits) ∧
      parseInteger ((if (-2147483648 : Int) < 0 then [byte '-'] else []) ++ digits) =
        -2147483648) ∧
    ∃ digits, Canonical 16 true digits ∧
      Returns ⟨fun _ => 0, []⟩ bufferSize
        (hex2string ⟨8, byte 'X', byte ' ', byte '#'⟩ 48879 ⟨fun _ => 0, []⟩ bufferSize)
        ((if byte '#' = byte '#' then [byte '0', byte 'x'] else []) ++
          (List.replicate (8 - digits.length) (byte ' ') ++ digits)) ∧
      parseDigits 16 digits = 48879 :=
  ⟨conversions_exact.1 (-2147483648) ⟨fun _ => 0, []⟩ (by decide) (by decide),
    conversions_exact.2 48879 ⟨8, byte 'X', byte ' ', byte '#'⟩ true ⟨fun _ => 0, []⟩ (by decide)
      rfl (Or.inr rfl)⟩

end ChaoOS.NumberParsing
