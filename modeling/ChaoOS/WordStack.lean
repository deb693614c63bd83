import ChaoOS.ByteMemory
import Mathlib.Logic.Function.Basic

/-!
# A stack of words that grows down

Words pushed one after the other from a stack pointer. The last one pushed has
the lowest address, so the words stand in memory in reverse order.
-/

namespace ChaoOS.WordStack

open ChaoOS.ByteMemory

set_option autoImplicit false

/-- The words are pushed one after the other, the first one just below `top`. -/
def pushAll (memory : Memory) (top : Word) : List Word → Memory
  | [] => memory
  | word :: rest => pushAll (store memory (top - 4).toNat word) (top - 4) rest

/-- The words stand one after the other from `base` on. -/
def Holds (memory : Memory) (base : Nat) (words : List Word) : Prop :=
  ∀ index (small : index < words.length), load memory (base + 4 * index) = words[index]

variable {memory memory' : Memory} {top : Word} {words more : List Word} {base : Nat}

theorem holds_congr
    (same : ∀ place, base ≤ place → place < base + 4 * words.length → memory' place = memory place)
    (holds : Holds memory base words) : Holds memory' base words := by
  intro index small
  rw [← holds index small]
  apply load_congr
  intro place lower upper
  exact same place (by omega) (by omega)

theorem holds_append :
    Holds memory base (words ++ more) ↔
      Holds memory base words ∧ Holds memory (base + 4 * words.length) more := by
  constructor
  · intro holds
    constructor
    · intro index small
      have both : index < (words ++ more).length := by rw [List.length_append]; omega
      rw [holds index both, List.getElem_append_left small]
    · intro index small
      have both : words.length + index < (words ++ more).length := by
        rw [List.length_append]; omega
      have shifted : base + 4 * words.length + 4 * index = base + 4 * (words.length + index) := by
        omega
      rw [shifted, holds _ both, List.getElem_append_right (by omega)]
      simp
  · rintro ⟨first, second⟩ index small
    rw [List.length_append] at small
    by_cases early : index < words.length
    · rw [first index early, List.getElem_append_left early]
    · have late : index - words.length < more.length := by omega
      have shifted :
          base + 4 * index = base + 4 * words.length + 4 * (index - words.length) := by omega
      rw [shifted, second _ late, List.getElem_append_right (by omega)]

theorem holds_singleton {word : Word} : Holds memory base [word] ↔ load memory base = word := by
  constructor
  · intro holds
    exact holds 0 Nat.one_pos
  · intro loaded index small
    have first : index = 0 := by simpa using small
    subst first
    exact loaded

/-- The word at a place that is reached by adding to a pointer. -/
theorem load_of_holds {pointer : Word} (holds : Holds memory pointer.toNat words)
    (fits : pointer.toNat + 4 * words.length ≤ 2 ^ 32) {index : Nat}
    (small : index < words.length) :
    load memory (pointer + BitVec.ofNat 32 (4 * index)).toNat = words[index] := by
  have place : (pointer + BitVec.ofNat 32 (4 * index)).toNat = pointer.toNat + 4 * index := by
    rw [BitVec.toNat_add, BitVec.toNat_ofNat, Nat.mod_eq_of_lt (show 4 * index < 2 ^ 32 by omega),
      Nat.mod_eq_of_lt (by omega)]
  rw [place]
  exact holds index small

/-! ## What pushing leaves -/

theorem push_all_append : ∀ {memory : Memory} {top : Word},
    pushAll memory top (words ++ more) =
      pushAll (pushAll memory top words) (top - BitVec.ofNat 32 (4 * words.length)) more := by
  induction words with
  | nil => intro memory top; simp [pushAll]
  | cons word rest induction =>
      intro memory top
      have lower : top - 4 - BitVec.ofNat 32 (4 * rest.length) =
          top - BitVec.ofNat 32 (4 * (word :: rest).length) := by
        rw [List.length_cons, Nat.mul_succ, BitVec.ofNat_add]
        grind
      rw [List.cons_append, pushAll, induction, lower, pushAll]

theorem pointer_below {count : Nat} (room : 4 * count ≤ top.toNat) :
    (top - BitVec.ofNat 32 (4 * count)).toNat = top.toNat - 4 * count := by
  have bound := top.isLt
  have small : (BitVec.ofNat 32 (4 * count)).toNat = 4 * count := by
    rw [BitVec.toNat_ofNat, Nat.mod_eq_of_lt (by omega)]
  rw [BitVec.toNat_sub_of_le (by rw [BitVec.le_def, small]; exact room), small]

theorem pointer_below_one (room : 4 ≤ top.toNat) : (top - 4).toNat = top.toNat - 4 :=
  @pointer_below top 1 room

theorem push_all_outside : ∀ {memory : Memory} {top : Word}, 4 * words.length ≤ top.toNat →
    ∀ {place : Nat}, place < top.toNat - 4 * words.length ∨ top.toNat ≤ place →
      pushAll memory top words place = memory place := by
  induction words with
  | nil => intro memory top room place outside; rfl
  | cons word rest induction =>
      intro memory top room place outside
      rw [List.length_cons] at room outside
      have below : (top - 4).toNat = top.toNat - 4 := pointer_below_one (by omega)
      rw [pushAll, induction (by omega) (by omega), below]
      exact store_outside (by omega)

theorem push_all_holds : ∀ {memory : Memory} {top : Word}, 4 * words.length ≤ top.toNat →
    Holds (pushAll memory top words) (top.toNat - 4 * words.length) words.reverse := by
  induction words with
  | nil => intro memory top room index small; exact absurd small (Nat.not_lt_zero _)
  | cons word rest induction =>
      intro memory top room
      rw [List.length_cons] at room
      have below : (top - 4).toNat = top.toNat - 4 := pointer_below_one (by omega)
      have later : Holds (pushAll memory top (word :: rest))
          (top.toNat - 4 * (rest.length + 1)) rest.reverse := by
        have inner := @induction (store memory (top - 4).toNat word) (top - 4) (by omega)
        have place : (top - 4).toNat - 4 * rest.length = top.toNat - 4 * (rest.length + 1) := by
          omega
        rw [place] at inner
        exact inner
      have own : Holds (pushAll memory top (word :: rest)) (top.toNat - 4) [word] := by
        rw [holds_singleton, pushAll, ← below]
        have kept : load (pushAll (store memory (top - 4).toNat word) (top - 4) rest)
            (top - 4).toNat = load (store memory (top - 4).toNat word) (top - 4).toNat := by
          apply load_congr
          intro place lower upper
          exact push_all_outside (by omega) (Or.inr lower)
        rw [kept, load_store_same]
      rw [List.reverse_cons, List.length_cons, holds_append]
      have place : top.toNat - 4 * (rest.length + 1) + 4 * rest.reverse.length = top.toNat - 4 := by
        rw [List.length_reverse]; omega
      rw [place]
      exact ⟨later, own⟩

end ChaoOS.WordStack
