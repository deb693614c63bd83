import Mathlib.Data.Finset.Card
import Mathlib.Data.Nat.Bitwise
import ChaoOS.SliceLists

/-!
# The two page formats

A linked page keeps its unused slices on a chain through their header bytes; a
bitmap page has one bit for each slice. Both are described by the set of live
slices, so that taking and returning a slice are statements about that set.

`kfree` puts a slice at the head of the chain without linking it to the rest.
The chain then has that slice only, and `tidy` asks for more than the code
gives: that the chain has every slice that is not live.
-/

namespace ChaoOS.SlicePages

open ChaoOS.KernelMath ChaoOS.IndexList ChaoOS.PageDirectory ChaoOS.SliceHeapModel

set_option autoImplicit false

/-! ## Linked pages -/

structure LinkedPage (tidy : Prop) (slices : Nat) (header : Nat → Nat) (first avail : Nat)
    (live : Finset Nat) (chain : List Nat) : Prop where
  bound : ∀ j ∈ live, j < slices
  count : avail + live.card = slices
  follows : Follows header sliceEnd first chain
  nodup : chain.Nodup
  idle : ∀ j ∈ chain, j < slices ∧ j ∉ live
  closed : ∀ j ∈ live, header j = sliceEnd
  whole : tidy → ∀ j, j < slices → j ∉ live → j ∈ chain

section Linked

variable {tidy : Prop} {slices first avail : Nat} {header : Nat → Nat} {live : Finset Nat}

theorem card_insert_live {j : Nat} (idle : j ∉ live) (bound : ∀ i ∈ live, i < slices)
    (inside : j < slices) (count : avail + live.card = slices) :
    0 < avail ∧ avail - 1 + (insert j live).card = slices := by
  have room : (insert j live).card ≤ slices := by
    rw [← Finset.card_range slices]
    apply Finset.card_le_card
    intro i member
    rw [Finset.mem_range]
    rcases Finset.mem_insert.mp member with same | later
    · rw [same]
      exact inside
    · exact bound i later
  rw [Finset.card_insert_of_notMem idle] at room ⊢
  omega

theorem card_erase_live {j : Nat} (member : j ∈ live) (count : avail + live.card = slices) :
    avail + 1 + (live.erase j).card = slices := by
  have positive : 0 < live.card := Finset.card_pos.mpr ⟨j, member⟩
  rw [Finset.card_erase_of_mem member]
  omega

/-- Nothing is available exactly when all slices are live. -/
theorem all_live (bound : ∀ i ∈ live, i < slices) (count : avail + live.card = slices)
    (none_left : avail = 0) {j : Nat} (inside : j < slices) : j ∈ live := by
  have whole : live = Finset.range slices := by
    apply Finset.eq_of_subset_of_card_le
    · intro i member
      exact Finset.mem_range.mpr (bound i member)
    · rw [Finset.card_range]
      omega
  rw [whole]
  exact Finset.mem_range.mpr inside

/-- Taking the head of the chain. -/
theorem LinkedPage.take {j : Nat} {rest : List Nat}
    (page : LinkedPage tidy slices header first avail live (j :: rest)) :
    first = j ∧ LinkedPage tidy slices (Function.update header j sliceEnd) (header j) (avail - 1)
      (insert j live) rest := by
  have own := page.idle j List.mem_cons_self
  have fresh := (List.nodup_cons.mp page.nodup).1
  have notOwn : ∀ i ∈ rest, i ≠ j := by
    intro i listed same
    rw [same] at listed
    exact fresh listed
  refine ⟨page.follows.1, ?_, ?_, ?_, (List.nodup_cons.mp page.nodup).2, ?_, ?_, ?_⟩
  · intro i member
    rcases Finset.mem_insert.mp member with same | later
    · rw [same]
      exact own.1
    · exact page.bound i later
  · exact (card_insert_live own.2 page.bound own.1 page.count).2
  · apply follows_congr page.follows.2.2
    intro i listed
    exact Function.update_of_ne (notOwn i listed) _ _
  · intro i listed
    have facts := page.idle i (List.mem_cons_of_mem j listed)
    refine ⟨facts.1, ?_⟩
    intro member
    rcases Finset.mem_insert.mp member with same | later
    · exact notOwn i listed same
    · exact facts.2 later
  · intro i member
    rw [Function.update_apply]
    split_ifs with here
    · rfl
    · rcases Finset.mem_insert.mp member with same | later
      · exact absurd same here
      · exact page.closed i later
  · intro exact_chain i inside idle
    rw [Finset.mem_insert, not_or] at idle
    rcases List.mem_cons.mp (page.whole exact_chain i inside idle.2) with same | later
    · exact absurd same idle.1
    · exact later

/-- Returning a slice leaves a chain of that one slice. -/
theorem LinkedPage.give {chain : List Nat} (page : LinkedPage tidy slices header first avail live chain)
    (small : slices < sliceEnd) {j : Nat} (member : j ∈ live) (exhausted : tidy → avail = 0) :
    LinkedPage tidy slices header j (avail + 1) (live.erase j) [j] := by
  have inside := page.bound j member
  refine ⟨?_, card_erase_live member page.count, ⟨rfl, by omega, page.closed j member⟩,
    List.nodup_singleton j, ?_, ?_, ?_⟩
  · intro i still
    exact page.bound i (Finset.mem_of_mem_erase still)
  · intro i listed
    rw [List.mem_singleton] at listed
    rw [listed]
    exact ⟨inside, Finset.notMem_erase j live⟩
  · intro i still
    exact page.closed i (Finset.mem_of_mem_erase still)
  · intro exact_chain i bound idle
    have everywhere := all_live page.bound page.count (exhausted exact_chain) bound
    by_contra other
    apply idle
    rw [Finset.mem_erase]
    refine ⟨?_, everywhere⟩
    intro same
    rw [same] at other
    exact other List.mem_cons_self

/-- The headers `init_linked_page` writes thread all slices in order. -/
theorem linked_page_fresh (positive : 0 < slices) (small : slices < sliceEnd)
    (links : ∀ i, i < slices → header i = if i + 1 = slices then sliceEnd else i + 1) :
    LinkedPage tidy slices header 0 slices ∅ (List.range slices) := by
  have threaded : ∀ count start, start + count = slices →
      Follows header sliceEnd (if count = 0 then sliceEnd else start) (List.range' start count) := by
    intro count
    induction count with
    | zero =>
        intro start _
        exact rfl
    | succ count induction =>
        intro start total
        have tail := induction (start + 1) (by omega)
        refine ⟨by simp, by omega, ?_⟩
        rw [links start (by omega)]
        by_cases last : count = 0
        · have ends : start + 1 = slices := by omega
          rw [if_pos ends]
          rw [if_pos last] at tail
          exact tail
        · have more : ¬start + 1 = slices := by omega
          rw [if_neg more]
          rw [if_neg last] at tail
          exact tail
  have whole := threaded slices 0 (Nat.zero_add _)
  rw [if_neg (by omega), ← List.range_eq_range'] at whole
  refine ⟨?_, by simp, whole, List.nodup_range, ?_, ?_, ?_⟩
  · intro i member
    exact absurd member (Finset.notMem_empty i)
  · intro i listed
    exact ⟨List.mem_range.mp listed, Finset.notMem_empty i⟩
  · intro i member
    exact absurd member (Finset.notMem_empty i)
  · intro _ i inside _
    exact List.mem_range.mpr inside

end Linked

/-! ## The headers of a new page -/

/-- What the loop has done when the headers from `i` on are written. -/
structure HeadersLinked (start real slices i nextAvail : Nat) (memory : Nat → Nat)
    (result : Nat × (Nat → Nat)) : Prop where
  last : result.1 = if i = slices then nextAvail else start + (slices - 1) * real
  links : ∀ j, i ≤ j → j < slices → result.2 (start + j * real) = j + 1
  frame : ∀ address, (∀ j, i ≤ j → j < slices → address ≠ start + j * real) →
    result.2 address = memory address

section Headers

variable {start real limit slices : Nat}

/-- The loop of `init_linked_page` writes the header of every slice that fits,
and nothing else. -/
theorem link_headers_spec (positive : 0 < real) (small : slices < sliceEnd)
    (room : start + (slices + 1) * real < wordSize) (fits : start + slices * real ≤ limit)
    (limited : limit < start + (slices + 1) * real) (fuel i nextAvail : Nat) (memory : Nat → Nat)
    (low : i ≤ slices) (enough : slices ≤ i + fuel) :
    HeadersLinked start real slices i nextAvail memory
      (linkHeaders real limit fuel i (start + i * real) nextAvail memory) := by
  induction fuel generalizing i nextAvail memory with
  | zero =>
      have ended : i = slices := by omega
      rw [ended]
      exact ⟨(if_pos rfl).symm, fun j least inside => absurd inside (by omega), fun _ _ => rfl⟩
  | succ fuel induction =>
      have reach : (i + 1) * real ≤ (slices + 1) * real := Nat.mul_le_mul_right _ (by omega)
      have step : start + i * real + real = start + (i + 1) * real := by
        rw [Nat.succ_mul, Nat.add_assoc]
      have advance : add32 (start + i * real) real = start + (i + 1) * real := by
        rw [add32_of_lt, step]
        omega
      rw [linkHeaders, advance]
      by_cases ended : i = slices
      · rw [if_neg (by rw [ended]; omega), ended]
        exact ⟨(if_pos rfl).symm, fun j least inside => absurd inside (by omega), fun _ _ => rfl⟩
      · have within : (i + 1) * real ≤ slices * real := Nat.mul_le_mul_right _ (by omega)
        have counter : (i + 1) % 256 = i + 1 := by
          unfold sliceEnd at small
          omega
        rw [if_pos (by omega), counter]
        have tail := induction (i + 1) (start + i * real)
          (store memory (start + i * real) (i + 1)) (by omega) (by omega)
        refine ⟨?_, ?_, ?_⟩
        · rw [tail.last, if_neg ended]
          split_ifs with final
          · rw [← final, Nat.add_sub_cancel]
          · rfl
        · intro j least inside
          rcases Nat.eq_or_lt_of_le least with here | later
          · rw [← here, tail.frame, store, if_pos rfl]
            intro other after _ same
            have product : i * real = other * real := by omega
            have equal := Nat.eq_of_mul_eq_mul_right positive product
            omega
          · exact tail.links j later inside
        · intro address elsewhere
          rw [tail.frame address fun j later => elsewhere j (by omega), store, if_neg]
          exact elsewhere i (Nat.le_refl i) (by omega)

end Headers

/-! ## Bitmap pages -/

structure BitmapPage (slices bitmap avail : Nat) (live : Finset Nat) : Prop where
  bound : ∀ j ∈ live, j < slices
  count : avail + live.card = slices
  byte : bitmap < 256
  bits : ∀ j, j < 8 → (bitmap.testBit (7 - j) = true ↔ j ∈ live)

section Bitmap

variable {slices bitmap avail : Nat} {live : Finset Nat}

theorem bit_test (bitmap i : Nat) : (bitmap >>> (7 - i)) &&& 1 = 0 ↔ bitmap.testBit (7 - i) = false := by
  rw [Nat.testBit_eq_decide_div_mod_eq, Nat.and_one_is_mod, Nat.shiftRight_eq_div_pow,
    decide_eq_false_iff_not]
  omega

/-- The loop stops at the first slice whose bit is clear. -/
theorem first_zero_bit_spec (bitmap bits fuel i : Nat) (enough : bits ≤ i + fuel) (low : i ≤ bits)
    {j : Nat} (least : i ≤ j) (inside : j < bits) (clear : bitmap.testBit (7 - j) = false) :
    firstZeroBit bitmap bits fuel i < bits ∧
      bitmap.testBit (7 - firstZeroBit bitmap bits fuel i) = false := by
  induction fuel generalizing i with
  | zero => omega
  | succ fuel induction =>
      rw [firstZeroBit, if_pos (by omega)]
      split_ifs with zero
      · exact ⟨by omega, (bit_test bitmap i).mp zero⟩
      · apply induction (i + 1) (by omega) (by omega)
        rcases Nat.eq_or_lt_of_le least with same | later
        · rw [← same] at clear
          exact absurd ((bit_test bitmap i).mpr clear) zero
        · exact later

theorem test_bit_set {j i : Nat} (byte : j < 8) (other : i < 8) :
    (bitmap ||| (1 <<< (7 - j))).testBit (7 - i) = (bitmap.testBit (7 - i) || decide (i = j)) := by
  rw [Nat.testBit_or, Nat.one_shiftLeft, Nat.testBit_two_pow]
  congr 1
  rw [decide_eq_decide]
  omega

theorem test_bit_flip {j i : Nat} (byte : j < 8) (other : i < 8) :
    (bitmap ^^^ (1 <<< (7 - j))).testBit (7 - i) = (bitmap.testBit (7 - i) ^^ decide (i = j)) := by
  rw [Nat.testBit_xor, Nat.one_shiftLeft, Nat.testBit_two_pow]
  congr 1
  rw [decide_eq_decide]
  omega

theorem single_bit_lt {j : Nat} : 1 <<< (7 - j) < 2 ^ 8 := by
  rw [Nat.one_shiftLeft]
  exact Nat.pow_lt_pow_right (by decide) (by omega)

theorem BitmapPage.take (page : BitmapPage slices bitmap avail live) (few : slices ≤ 8) {j : Nat}
    (inside : j < slices) (clear : bitmap.testBit (7 - j) = false) :
    j ∉ live ∧ BitmapPage slices (bitmap ||| (1 <<< (7 - j))) (avail - 1) (insert j live) := by
  have idle : j ∉ live := by
    rw [← page.bits j (by omega), clear]
    decide
  refine ⟨idle, ?_, (card_insert_live idle page.bound inside page.count).2, ?_, ?_⟩
  · intro i member
    rcases Finset.mem_insert.mp member with same | later
    · rw [same]
      exact inside
    · exact page.bound i later
  · exact Nat.or_lt_two_pow page.byte single_bit_lt
  · intro i bound
    rw [test_bit_set (by omega) (by omega), Bool.or_eq_true, page.bits i bound, Finset.mem_insert,
      decide_eq_true_iff, or_comm]

theorem BitmapPage.give (page : BitmapPage slices bitmap avail live) (few : slices ≤ 8) {j : Nat}
    (member : j ∈ live) :
    BitmapPage slices (bitmap ^^^ (1 <<< (7 - j))) (avail + 1) (live.erase j) := by
  have inside := page.bound j member
  refine ⟨?_, card_erase_live member page.count, ?_, ?_⟩
  · intro i still
    exact page.bound i (Finset.mem_of_mem_erase still)
  · exact Nat.xor_lt_two_pow page.byte single_bit_lt
  · intro i bound
    rw [test_bit_flip (by omega) (by omega), Finset.mem_erase, ← page.bits i bound]
    by_cases here : i = j
    · have set := (page.bits j (by omega)).mpr member
      simp [here, set]
    · simp [here]

/-- The full test compares the top bits of the map with all ones. -/
theorem full_test_iff (page : BitmapPage slices bitmap avail live) (few : slices ≤ 8) :
    bitmap >>> (8 - slices) = 0xFF >>> (8 - slices) ↔ avail = 0 := by
  have ones : (0xFF : Nat) = 2 ^ 8 - 1 := by decide
  constructor
  · intro same
    have everywhere : ∀ j, j < slices → j ∈ live := by
      intro j inside
      rw [← page.bits j (by omega)]
      have bit := congrArg (fun word => word.testBit (slices - 1 - j)) same
      simp only [Nat.testBit_shiftRight] at bit
      have position : 8 - slices + (slices - 1 - j) = 7 - j := by omega
      rw [position, ones, Nat.testBit_two_pow_sub_one, decide_eq_true (by omega)] at bit
      exact bit
    have large : slices ≤ live.card := by
      have covered : Finset.range slices ⊆ live := by
        intro j member
        exact everywhere j (Finset.mem_range.mp member)
      have size := Finset.card_le_card covered
      rw [Finset.card_range] at size
      exact size
    have count := page.count
    omega
  · intro exhausted
    apply Nat.eq_of_testBit_eq
    intro i
    rw [Nat.testBit_shiftRight, Nat.testBit_shiftRight, ones, Nat.testBit_two_pow_sub_one]
    by_cases inside : i < slices
    · have member := all_live page.bound page.count exhausted (show slices - 1 - i < slices by omega)
      have bit := (page.bits _ (by omega)).mpr member
      have position : 7 - (slices - 1 - i) = 8 - slices + i := by omega
      rw [position] at bit
      rw [bit, decide_eq_true (by omega)]
    · have high : bitmap < 2 ^ (8 - slices + i) := by
        have grows : 2 ^ 8 ≤ 2 ^ (8 - slices + i) := Nat.pow_le_pow_right (by decide) (by omega)
        exact lt_of_lt_of_le page.byte grows
      rw [Nat.testBit_lt_two_pow high, decide_eq_false (by omega)]

theorem bitmap_page_first (many : 2 ≤ slices) (few : slices ≤ 8) :
    BitmapPage slices 0x80 (slices - 1) {0} := by
  refine ⟨?_, ?_, by decide, ?_⟩
  · intro j member
    rw [Finset.mem_singleton] at member
    omega
  · rw [Finset.card_singleton]
    omega
  · intro j inside
    have bit : (0x80 : Nat) = 2 ^ 7 := by decide
    rw [bit, Nat.testBit_two_pow, decide_eq_true_iff, Finset.mem_singleton]
    omega

end Bitmap

end ChaoOS.SlicePages
