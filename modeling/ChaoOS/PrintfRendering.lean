import ChaoOS.PrintfModel

/-!
# What `printf` prints

A format with matching arguments is a list of pieces, each with the argument it
takes. A piece has its own text; what the loop prints for it is that text,
except that `%c` is followed by the text `str` still points to.
-/

namespace ChaoOS.PrintfRendering

open ChaoOS.KernelMath ChaoOS.NumberText ChaoOS.PrintfModel

set_option autoImplicit false

/-! ## Formats -/

inductive Width where
  | plain
  | zero
  | eight
  | zeroEight

def Width.bytes : Width → List Nat
  | plain => []
  | zero => [byte '0']
  | eight => [byte '8']
  | zeroEight => [byte '0', byte '8']

def Width.digitsMax : Width → Nat
  | plain => 0
  | zero => 0
  | eight => 8
  | zeroEight => 8

def Width.complement : Width → Nat
  | eight => byte ' '
  | _ => byte '0'

inductive Piece where
  | literal (value : Nat)
  | percent
  | char (value : Nat)
  | string (bytes : List Nat)
  | decimal (value : Nat)
  | hex (prefixed : Bool) (width : Width) (upper : Bool) (value : Nat)

namespace Piece

def format : Piece → List Nat
  | literal value => [value]
  | percent => [byte '%', byte '%']
  | char _ => [byte '%', byte 'c']
  | string _ => [byte '%', byte 's']
  | decimal _ => [byte '%', byte 'd']
  | hex prefixed width upper _ =>
      byte '%' :: ((if prefixed then [byte '#'] else []) ++ width.bytes ++
        [byte (if upper then 'X' else 'x')])

def args : Piece → List Arg
  | literal _ => []
  | percent => []
  | char value => [.word value]
  | string bytes => [.text bytes]
  | decimal value => [.word value]
  | hex _ _ _ value => [.word value]

/-- What the piece stands for in the output. -/
def text : Piece → List Nat
  | literal value => [value]
  | percent => [byte '%']
  | char value => [value % 256]
  | string bytes => bytes
  | decimal value => decimalText (toInt value)
  | hex prefixed width upper value =>
      hexText value upper width.complement width.digitsMax prefixed

/-- Literal bytes are neither a terminator nor a percent sign, numbers are
words, and a string has no terminator inside. -/
def WellFormed : Piece → Prop
  | literal value => value ≠ 0 ∧ value ≠ byte '%'
  | percent => True
  | char value => value < wordSize
  | string bytes => ∀ value ∈ bytes, value ≠ 0
  | decimal value => value < wordSize
  | hex _ _ _ value => value < wordSize

instance : DecidablePred WellFormed
  | literal value => inferInstanceAs (Decidable (value ≠ 0 ∧ value ≠ byte '%'))
  | percent => inferInstanceAs (Decidable True)
  | char value => inferInstanceAs (Decidable (value < wordSize))
  | string bytes => inferInstanceAs (Decidable (∀ value ∈ bytes, value ≠ 0))
  | decimal value => inferInstanceAs (Decidable (value < wordSize))
  | hex _ _ _ value => inferInstanceAs (Decidable (value < wordSize))

/-- The text at `str` after the piece, when it was `last` before. -/
def leaves (last : List Nat) : Piece → List Nat
  | literal _ => last
  | percent => last
  | char _ => last
  | string bytes => bytes
  | decimal value => (decimal value).text
  | hex prefixed width upper value => (hex prefixed width upper value).text

/-- What the loop prints for the piece. -/
def printed (last : List Nat) : Piece → List Nat
  | char value => (char value).text ++ last
  | piece => piece.text

end Piece

def formatOf (pieces : List Piece) : List Nat := pieces.flatMap Piece.format

def argsOf (pieces : List Piece) : List Arg := pieces.flatMap Piece.args

/-- The faithful rendering. -/
def rendering (pieces : List Piece) : List Nat := pieces.flatMap Piece.text

def printedFrom : List Nat → List Piece → List Nat
  | _, [] => []
  | last, piece :: rest => piece.printed last ++ printedFrom (piece.leaves last) rest

/-- The text of the last conversion other than `%c`. -/
def lastText (last : List Nat) (pieces : List Piece) : List Nat := pieces.foldl Piece.leaves last

/-- At every `%c` the last other conversion, if there was one, had no text. -/
def NothingRepeated (last : List Nat) (pieces : List Piece) : Prop :=
  ∀ before value after, pieces = before ++ .char value :: after → lastText last before = []

/-! ## Repeated texts -/

theorem nothing_repeated_cons {last : List Nat} {piece : Piece} {rest : List Piece} :
    NothingRepeated last (piece :: rest) ↔
      (piece.printed last = piece.text) ∧ NothingRepeated (piece.leaves last) rest := by
  constructor
  · intro nothing
    refine ⟨?_, ?_⟩
    · cases piece with
      | char value => simp [Piece.printed, show last = [] from nothing [] value rest rfl]
      | _ => rfl
    · intro before value after split
      exact nothing (piece :: before) value after (by rw [split]; rfl)
  · rintro ⟨own, later⟩ before value after split
    cases before with
    | nil =>
        obtain ⟨rfl, -⟩ := List.cons.inj split
        simpa [Piece.printed, lastText] using own
    | cons first before =>
        obtain ⟨rfl, tail⟩ := List.cons.inj split
        exact later before value after tail

theorem text_length_le (last : List Nat) (piece : Piece) :
    piece.text.length ≤ (piece.printed last).length := by
  cases piece <;> simp [Piece.printed]

theorem rendering_length_le (last : List Nat) (pieces : List Piece) :
    (rendering pieces).length ≤ (printedFrom last pieces).length := by
  induction pieces generalizing last with
  | nil => exact le_rfl
  | cons piece rest induction =>
      have own := text_length_le last piece
      have later := induction (piece.leaves last)
      simp only [rendering, List.flatMap_cons, printedFrom, List.length_append] at later ⊢
      omega

/-- Repeated text makes the output longer, so nothing after it can make up for
it. -/
theorem printed_eq_rendering_iff (last : List Nat) (pieces : List Piece) :
    printedFrom last pieces = rendering pieces ↔ NothingRepeated last pieces := by
  induction pieces generalizing last with
  | nil => simp [printedFrom, rendering, NothingRepeated]
  | cons piece rest induction =>
      rw [nothing_repeated_cons, ← induction]
      have split : rendering (piece :: rest) = piece.text ++ rendering rest := rfl
      rw [printedFrom, split]
      constructor
      · intro same
        have lengths := congrArg List.length same
        have own := text_length_le last piece
        have later := rendering_length_le (piece.leaves last) rest
        simp only [List.length_append] at lengths
        exact List.append_inj same (by omega)
      · rintro ⟨own, later⟩
        rw [own, later]

/-! ## The text at `str` -/

theorem scan_holds {buf : Buffer} {index : Int} {text : List Nat} (holds : Holds buf index text)
    {fuel : Nat} (short : text.length < fuel) : scan buf fuel index = text := by
  induction text generalizing fuel index with
  | nil =>
      obtain ⟨fuel, rfl⟩ : ∃ less, fuel = less + 1 := ⟨fuel - 1, by simp at short; omega⟩
      have ended : buf.bytes index = 0 := holds
      rw [scan, if_pos ended]
  | cons first rest induction =>
      obtain ⟨fuel, rfl⟩ : ∃ less, fuel = less + 1 := ⟨fuel - 1, by simp at short; omega⟩
      obtain ⟨here, visible, later⟩ := holds
      rw [scan, here, if_neg visible]
      rw [induction later (by simp at short; omega)]

theorem numeral_length_le (upper : Bool) {base count n : Nat} (several : 1 < base)
    (positive : 0 < count) (small : n < base ^ count) :
    (numeral base upper n).length ≤ count := by
  unfold numeral
  split_ifs with zero
  · exact positive
  · simpa using digits_length_le several small

theorem decimal_text_length {value : Nat} (word : value < wordSize) :
    (decimalText (toInt value)).length < bufSize := by
  have size : wordSize = 4294967296 := rfl
  have small : (toInt value).natAbs < 10 ^ 10 := by
    unfold toInt
    split_ifs <;> omega
  have digits := numeral_length_le false (by decide) (by decide) small
  unfold decimalText bufSize
  split_ifs
  · simp only [List.length_cons]
    omega
  · omega

theorem hex_text_length {value complement digitsMax : Nat} {upper prefixed : Bool}
    (word : value < wordSize) (narrow : digitsMax ≤ 8) :
    (hexText value upper complement digitsMax prefixed).length < bufSize := by
  have small : value < 16 ^ 8 := word
  have digits := numeral_length_le upper (by decide) (by decide) small
  unfold hexText bufSize
  cases prefixed <;> simp <;> omega

/-! ## Turns -/

/-- A turn prints the bytes, leaves `text` at `str` and goes on with the rest, or
it fails because there would be too much output. -/
def Turned (call : Call) (bytes text : List Nat) (args : List Arg) (rest : List Nat)
    (result : Turn) : Prop :=
  (∃ after, result = .next rest after ∧ after.output = call.output ++ bytes ∧
    after.written = after.output.length % wordSize ∧ after.args = args ∧ after.text = text) ∨
  ∃ after, result = .stop .failed after ∧ intMax < call.output.length + bytes.length

section Turns

variable {call : Call} {rest : List Nat} {args : List Arg}

theorem too_much (amount : Nat) (count : call.written = call.output.length % wordSize)
    (less : maxrem call < amount) : intMax < call.output.length + amount := by
  by_cases more : intMax < call.output.length
  · omega
  · have word : intMax < wordSize := by decide
    have same : call.written = call.output.length := by
      rw [count]
      exact Nat.mod_eq_of_lt (by omega)
    rw [maxrem, same, sub32_of_le word (by omega)] at less
    omega

theorem emit_written {bytes : List Nat} (count : call.written = call.output.length % wordSize) :
    (call.emit bytes).written = (call.emit bytes).output.length % wordSize := by
  simp [Call.emit, add32, count]

theorem print_str_turned {after : Call} {text : List Nat}
    (count : call.written = call.output.length % wordSize) (output : after.output = call.output)
    (written : after.written = call.written) (known : after.text = text) :
    Turned call text text after.args rest (printStr (maxrem call) rest after) := by
  simp only [printStr, known]
  split_ifs with less
  · exact Or.inr ⟨after, rfl, too_much _ count less⟩
  · refine Or.inl ⟨after.emit text, rfl, ?_, ?_, rfl, known⟩
    · simp [Call.emit, output]
    · exact emit_written (by rw [written, output, count])

theorem char_turned {value : Nat} (count : call.written = call.output.length % wordSize)
    (own : call.args = .word value :: args) :
    Turned call ([value % 256] ++ call.text) call.text args rest (charTurn rest call) := by
  unfold charTurn
  rw [own]
  simp only
  split_ifs with full
  · refine Or.inr ⟨_, rfl, ?_⟩
    have less := too_much 1 count (by omega)
    simp only [List.length_append, List.length_singleton]
    omega
  · have unchanged : (Call.emit { call with args := args } [value % 256]).text = call.text := rfl
    simp only [printStr, unchanged]
    split_ifs with less
    · have more := too_much _ count less
      refine Or.inr ⟨_, rfl, ?_⟩
      simp only [List.length_append, List.length_singleton]
      omega
    · refine Or.inl ⟨_, rfl, ?_, ?_, rfl, unchanged⟩
      · simp [Call.emit]
      · exact emit_written (emit_written count)

theorem string_turned {bytes : List Nat} (count : call.written = call.output.length % wordSize)
    (own : call.args = .text bytes :: args) :
    Turned call bytes bytes args rest (stringTurn rest call) := by
  unfold stringTurn
  rw [own]
  exact print_str_turned count rfl rfl rfl

theorem decimal_turned {value : Nat} (count : call.written = call.output.length % wordSize)
    (own : call.args = .word value :: args) (word : value < wordSize) :
    Turned call (decimalText (toInt value)) (decimalText (toInt value)) args rest
      (decimalTurn rest call) := by
  have size : wordSize = 4294967296 := rfl
  have lower : -2 ^ 31 ≤ toInt value := by
    unfold toInt
    split_ifs <;> omega
  have upper : toInt value < 2 ^ 31 := by
    unfold toInt
    split_ifs <;> omega
  obtain ⟨index, buf, run, holds⟩ := int2string_spec bufSize call.buf lower upper (by decide)
  unfold decimalTurn
  rw [own]
  simp only [run, bufferText]
  exact print_str_turned count rfl rfl (scan_holds holds (decimal_text_length word))

theorem hex_text_unpadded (value one other : Nat) (upper prefixed : Bool) :
    hexText value upper one 0 prefixed = hexText value upper other 0 prefixed := by
  simp [hexText]

theorem hex_turned {value sign complement : Nat} (digitsMax : Nat) {upper prefixed : Bool}
    {chosen : Option Nat} (count : call.written = call.output.length % wordSize)
    (own : call.args = .word value :: args) (word : value < wordSize) (narrow : digitsMax ≤ 8)
    (visible : complement ≠ 0) (padding : digitsMax = 0 ∨ chosen = some complement)
    (signed : decide (sign = byte '#') = prefixed) :
    let text := hexText value upper complement digitsMax prefixed
    Turned call text text args rest
      (hexTurn (byte (if upper then 'X' else 'x')) digitsMax sign chosen rest call) := by
  intro text
  let hex : HexFormat :=
    { digitsMax := digitsMax
      flag := byte (if upper then 'X' else 'x')
      complement := chosen.getD call.hex.complement
      sign := sign }
  have printable : hex.digitsMax ≠ 0 → hex.complement ≠ 0 := by
    intro padded
    rcases padding with none | some
    · exact absurd none padded
    · simpa [hex, some] using visible
  have same : hexText value upper hex.complement hex.digitsMax (decide (hex.sign = byte '#')) =
      text := by
    rcases padding with none | some
    · simp only [text, hex, none, signed]
      exact hex_text_unpadded _ _ _ _ _
    · simp [text, hex, some, signed]
  obtain ⟨index, buf, run, holds⟩ := hex2string_spec bufSize call.buf rfl printable word
    (by decide)
  rw [same] at holds
  unfold hexTurn
  rw [own]
  simp only [hex] at run
  simp only [run, bufferText]
  exact print_str_turned count rfl rfl (scan_holds holds (hex_text_length word narrow))

theorem turn_hex (prefixed upper : Bool) (width : Width) (value : Nat) :
    turn ((Piece.hex prefixed width upper value).format ++ rest) call =
      hexTurn (byte (if upper then 'X' else 'x')) width.digitsMax
        (if prefixed then byte '#' else byte ' ')
        (if width.digitsMax = 0 then none else some width.complement) rest call := by
  cases prefixed <;> cases width <;> cases upper <;> rfl

/-- The branches take the conversions for what they are. -/
theorem conversion_turned {piece : Piece} (notLiteral : ∀ value, piece ≠ .literal value)
    (notPercent : piece ≠ .percent) (wellFormed : piece.WellFormed)
    (count : call.written = call.output.length % wordSize)
    (own : call.args = piece.args ++ args) :
    Turned call (piece.printed call.text) (piece.leaves call.text) args rest
      (turn (piece.format ++ rest) call) := by
  cases piece with
  | literal value => exact absurd rfl (notLiteral value)
  | percent => exact absurd rfl notPercent
  | char value => exact char_turned count own
  | string bytes => exact string_turned count own
  | decimal value => exact decimal_turned count own wellFormed
  | hex prefixed width upper value =>
      have signs : (decide ((if prefixed then byte '#' else byte ' ') = byte '#')) = prefixed := by
        cases prefixed <;> decide
      have narrow : width.digitsMax ≤ 8 := by cases width <;> decide
      have visible : width.complement ≠ 0 := by cases width <;> decide
      have padding : width.digitsMax = 0 ∨
          (if width.digitsMax = 0 then none else some width.complement) =
            some width.complement := by
        cases width <;> decide
      rw [turn_hex]
      exact hex_turned width.digitsMax count own wellFormed narrow visible padding signs

end Turns

/-! ## Literal text

A turn takes all literal bytes up to the next percent sign at once. -/

/-- The leading literal bytes and the pieces after them. -/
def literalRun : List Piece → List Nat × List Piece
  | .literal value :: rest => (value :: (literalRun rest).1, (literalRun rest).2)
  | pieces => ([], pieces)

theorem format_literal_run (pieces : List Piece) :
    formatOf pieces = (literalRun pieces).1 ++ formatOf (literalRun pieces).2 := by
  induction pieces with
  | nil => rfl
  | cons piece rest induction =>
      cases piece with
      | literal value =>
          have split : formatOf (.literal value :: rest) = value :: formatOf rest := rfl
          rw [split, literalRun, induction]
          rfl
      | _ => rfl

theorem printed_literal_run (last : List Nat) (pieces : List Piece) :
    printedFrom last pieces =
      (literalRun pieces).1 ++ printedFrom last (literalRun pieces).2 := by
  induction pieces with
  | nil => rfl
  | cons piece rest induction =>
      cases piece with
      | literal value =>
          have split : printedFrom last (.literal value :: rest) =
            value :: printedFrom last rest := rfl
          rw [split, literalRun, induction]
          rfl
      | _ => rfl

theorem args_literal_run (pieces : List Piece) :
    argsOf (literalRun pieces).2 = argsOf pieces := by
  induction pieces with
  | nil => rfl
  | cons piece rest induction =>
      cases piece with
      | literal value => exact induction
      | _ => rfl

theorem literal_run_suffix (pieces : List Piece) : (literalRun pieces).2 <:+ pieces := by
  induction pieces with
  | nil => exact List.suffix_rfl
  | cons piece rest induction =>
      cases piece with
      | literal value => exact induction.trans (List.suffix_cons _ _)
      | _ => exact List.suffix_rfl

theorem literal_run_stops {pieces : List Piece} (wellFormed : ∀ piece ∈ pieces, piece.WellFormed) :
    (formatOf pieces).takeWhile (fun value => value ≠ byte '%') = (literalRun pieces).1 := by
  induction pieces with
  | nil => rfl
  | cons piece rest induction =>
      cases piece with
      | literal value =>
          have own : value ≠ byte '%' := (wellFormed _ List.mem_cons_self).2
          have later := induction fun piece member =>
            wellFormed piece (List.mem_cons_of_mem _ member)
          have split : formatOf (.literal value :: rest) = value :: formatOf rest := rfl
          rw [split, List.takeWhile_cons_of_pos (by simpa using own), later]
          rfl
      | _ => rfl

theorem literal_turned {call : Call} {pieces : List Piece} (first : Nat)
    (wellFormed : ∀ piece ∈ pieces, piece.WellFormed)
    (count : call.written = call.output.length % wordSize) :
    Turned call (first :: (literalRun pieces).1) call.text call.args
      (formatOf (literalRun pieces).2) (literalTurn (first :: formatOf pieces) call) := by
  simp only [literalTurn, List.tail_cons, literal_run_stops wellFormed]
  split_ifs with less
  · exact Or.inr ⟨call, rfl, too_much _ count less⟩
  · refine Or.inl ⟨call.emit (first :: (literalRun pieces).1), ?_, rfl, emit_written count, rfl,
      rfl⟩
    rw [List.drop_succ_cons, List.take_succ_cons, format_literal_run pieces, List.drop_left,
      List.take_left]

/-! ## The whole call -/

/-- The loop prints the bytes and ends well, or fails because there would be too
much output. -/
def Finished (fuel : Nat) (format : List Nat) (call : Call) (bytes : List Nat) : Prop :=
  (∃ after, printfLoop fuel format call = (.returned, after) ∧
    after.output = call.output ++ bytes ∧ after.written = after.output.length % wordSize) ∨
  ∃ after, printfLoop fuel format call = (.failed, after) ∧
    intMax < call.output.length + bytes.length

theorem finished_of_turned {call : Call} {first fuel : Nat} {tail rest bytes text more : List Nat}
    {args : List Arg} (turned : Turned call bytes text args rest (turn (first :: tail) call))
    (later : ∀ after : Call, after.written = after.output.length % wordSize → after.args = args →
      after.text = text → Finished fuel rest after more) :
    Finished (fuel + 1) (first :: tail) call (bytes ++ more) := by
  rcases turned with ⟨after, next, output, written, remaining, known⟩ | ⟨after, stop, large⟩
  · have run : printfLoop (fuel + 1) (first :: tail) call = printfLoop fuel rest after := by
      rw [printfLoop, next]
    rcases later after written remaining known with
      ⟨final, ends, whole, total⟩ | ⟨final, ends, large⟩
    · refine Or.inl ⟨final, run.trans ends, ?_, total⟩
      rw [whole, output, List.append_assoc]
    · refine Or.inr ⟨final, run.trans ends, ?_⟩
      rw [output, List.length_append] at large
      rw [List.length_append]
      omega
  · refine Or.inr ⟨after, by rw [printfLoop, stop], ?_⟩
    rw [List.length_append]
    omega

/-- What holds of the calls with fewer pieces. -/
def FinishesBelow (size : Nat) : Prop :=
  ∀ (pieces : List Piece) (fuel : Nat) (call : Call), pieces.length < size →
    (∀ piece ∈ pieces, piece.WellFormed) → (formatOf pieces).length ≤ fuel →
    call.args = argsOf pieces → call.written = call.output.length % wordSize →
    Finished fuel (formatOf pieces) call (printedFrom call.text pieces)

theorem literal_finished {rest : List Piece} {fuel first value : Nat} {tail : List Nat} {call : Call}
    (shorter : FinishesBelow (rest.length + 1)) (wellFormed : ∀ piece ∈ rest, piece.WellFormed)
    (literal : turn (first :: tail) call = literalTurn (value :: formatOf rest) call)
    (turns : (formatOf rest).length ≤ fuel) (own : call.args = argsOf rest)
    (count : call.written = call.output.length % wordSize) :
    Finished (fuel + 1) (first :: tail) call (value :: printedFrom call.text rest) := by
  have suffix := literal_run_suffix rest
  rw [printed_literal_run, ← List.cons_append]
  apply finished_of_turned (by rw [literal]; exact literal_turned value wellFormed count)
  intro after written remaining known
  rw [← known]
  apply shorter _ fuel after
  · exact Nat.lt_succ_of_le suffix.length_le
  · exact fun piece member => wellFormed piece (suffix.subset member)
  · rw [format_literal_run, List.length_append] at turns
    omega
  · rw [remaining, own, args_literal_run]
  · exact written

theorem conversion_finished {piece : Piece} {rest : List Piece} {fuel : Nat} {call : Call}
    (shorter : FinishesBelow (rest.length + 1)) (notLiteral : ∀ value, piece ≠ .literal value)
    (notPercent : piece ≠ .percent) (wellFormed : ∀ other ∈ piece :: rest, other.WellFormed)
    (turns : (formatOf (piece :: rest)).length ≤ fuel + 1)
    (own : call.args = piece.args ++ argsOf rest)
    (count : call.written = call.output.length % wordSize) :
    Finished (fuel + 1) (formatOf (piece :: rest)) call
      (printedFrom call.text (piece :: rest)) := by
  have turned : Turned call (piece.printed call.text) (piece.leaves call.text) (argsOf rest)
      (formatOf rest) (turn (piece.format ++ formatOf rest) call) :=
    conversion_turned notLiteral notPercent (wellFormed piece List.mem_cons_self) count own
  have split : formatOf (piece :: rest) = piece.format ++ formatOf rest := rfl
  obtain ⟨first, tail, starts⟩ : ∃ first tail, piece.format = first :: tail := by
    cases piece <;> exact ⟨_, _, rfl⟩
  rw [split, starts] at turns ⊢
  rw [starts] at turned
  apply finished_of_turned turned
  intro after written remaining known
  rw [← known]
  apply shorter rest fuel after
  · exact Nat.lt_succ_self _
  · exact fun other member => wellFormed other (List.mem_cons_of_mem _ member)
  · simp only [List.cons_append, List.length_cons, List.length_append] at turns
    omega
  · exact remaining
  · exact written

theorem printf_loop_prints (size : Nat) : FinishesBelow size := by
  -- by the number of pieces, since a turn may take several literal ones
  induction size with
  | zero => exact fun pieces fuel call below => absurd below (Nat.not_lt_zero _)
  | succ size induction =>
      intro pieces fuel call below wellFormed turns own count
      cases pieces with
      | nil =>
          refine Or.inl ⟨call, ?_, ?_, count⟩
          · rw [formatOf, List.flatMap_nil, printfLoop]
          · rw [printedFrom, List.append_nil]
      | cons piece rest =>
          have shorter : FinishesBelow (rest.length + 1) := by
            intro others fuel call smaller
            simp only [List.length_cons] at below
            exact induction others fuel call (by omega)
          have later : ∀ other ∈ rest, other.WellFormed := fun other member =>
            wellFormed other (List.mem_cons_of_mem _ member)
          have positive : 0 < (formatOf (piece :: rest)).length := by
            cases piece <;> exact Nat.succ_pos _
          obtain ⟨fuel, rfl⟩ : ∃ less, fuel = less + 1 := ⟨fuel - 1, by omega⟩
          cases piece with
          | literal value =>
              have plain : value ≠ byte '%' := (wellFormed _ List.mem_cons_self).2
              have literal : turn (value :: formatOf rest) call =
                  literalTurn (value :: formatOf rest) call := if_pos plain
              exact literal_finished shorter later literal (Nat.le_of_succ_le_succ turns) own count
          | percent =>
              have longer : (formatOf (.percent :: rest)).length = (formatOf rest).length + 2 := rfl
              exact literal_finished shorter later rfl (by omega) own count
          | _ => exact conversion_finished shorter nofun nofun wellFormed turns own count

/-- From whatever formatting variables and buffer contents, the call returns
with the faithful rendering printed if and only if there is nothing that `%c`
prints again. -/
theorem printf_renders_iff (hex : HexFormat) (buf : Buffer) (pieces : List Piece)
    (wellFormed : ∀ piece ∈ pieces, piece.WellFormed)
    (bounded : (rendering pieces).length < intMax) :
    ((printf hex buf (formatOf pieces) (argsOf pieces)).1 = .returned ∧
        (printf hex buf (formatOf pieces) (argsOf pieces)).2.output = rendering pieces) ↔
      NothingRepeated [] pieces := by
  rw [← printed_eq_rendering_iff]
  have finished := printf_loop_prints (pieces.length + 1) pieces (formatOf pieces).length
    { hex := hex, buf := buf, str := .null, args := argsOf pieces, written := 0, output := [] }
    (Nat.lt_succ_self _) wellFormed le_rfl rfl rfl
  rcases finished with ⟨after, run, output, -⟩ | ⟨after, run, large⟩
  · rw [printf, run, output]
    exact ⟨fun both => both.2, fun same => ⟨rfl, same⟩⟩
  · rw [printf, run]
    constructor
    · rintro ⟨returned, -⟩
      cases returned
    · intro same
      have length := congrArg List.length same
      simp only [Call.text, List.length_nil, Nat.zero_add] at large
      omega

/-- The values the formatting variables are declared with. -/
def sampleHex : HexFormat :=
  { digitsMax := 0, flag := byte 'x', complement := byte '0', sign := byte '#' }

def sampleBuffer : Buffer := { bytes := fun _ => 170, writes := [] }

/-- `"a%%%#8X%d%s%c"` with 255, -5, an empty string and `b`. -/
def samplePieces : List Piece :=
  [.literal (byte 'a'), .percent, .hex true .eight true 255, .decimal 4294967291, .string [],
    .char (byte 'b')]

theorem printf_renders_sample :
    (printf sampleHex sampleBuffer (formatOf samplePieces) (argsOf samplePieces)).1 = .returned ∧
      (printf sampleHex sampleBuffer (formatOf samplePieces) (argsOf samplePieces)).2.output =
        rendering samplePieces := by
  apply (printf_renders_iff sampleHex sampleBuffer samplePieces ?_ ?_).mpr
  · simp only [samplePieces, nothing_repeated_cons]
    simp [Piece.printed, Piece.leaves, NothingRepeated]
  · decide +kernel
  · decide +kernel

/-- `"%s%c"` with `a` and `b` gives `aba`. -/
theorem printf_repeats_string :
    (∀ piece ∈ [Piece.string [byte 'a'], .char (byte 'b')], piece.WellFormed) ∧
      (rendering [Piece.string [byte 'a'], .char (byte 'b')]).length < intMax ∧
      (printf sampleHex sampleBuffer (formatOf [.string [byte 'a'], .char (byte 'b')])
        (argsOf [.string [byte 'a'], .char (byte 'b')])).2.output ≠
          rendering [.string [byte 'a'], .char (byte 'b')] := by
  exact ⟨by decide +kernel, by decide +kernel, by decide +kernel⟩

end ChaoOS.PrintfRendering
