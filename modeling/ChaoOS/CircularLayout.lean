import Mathlib.Data.List.Basic
import Mathlib.Data.Nat.ModEq

/-!
# Lists laid out around a circle of slots

A list laid out from `base` on puts its items into the slots `base`, `base + 1`
and so on, and goes on at slot zero after the last one. What it means for a slot
to hold an item is a parameter: an item may also be one that is still on its way
to the slot.
-/

namespace ChaoOS.CircularLayout

set_option autoImplicit false

variable {Item Other : Type*} {size base : Nat}

def placeAt (size base index : Nat) : Nat := (base + index) % size

theorem place_at_injective {left right : Nat} (leftFits : left < size) (rightFits : right < size)
    (same : placeAt size base left = placeAt size base right) : left = right := by
  have congruent : left ≡ right [MOD size] := Nat.ModEq.add_left_cancel' base same
  exact congruent.eq_of_lt_of_lt leftFits rightFits

theorem place_at_zero (based : base < size) : placeAt size base 0 = base :=
  Nat.mod_eq_of_lt based

theorem place_at_next (index : Nat) :
    placeAt size ((base + 1) % size) index = placeAt size base (index + 1) := by
  rw [placeAt, placeAt, Nat.mod_add_mod, Nat.add_assoc, Nat.add_comm 1]

/-- Every item is held by its slot. -/
def LaidOut (size : Nat) (holds : Nat → Item → Prop) (base : Nat) (items : List Item) : Prop :=
  ∀ index item, items[index]? = some item → holds (placeAt size base index) item

variable {holds : Nat → Item → Prop} {items : List Item}

theorem LaidOut.pop {item : Item} (laid : LaidOut size holds base (item :: items)) :
    holds (placeAt size base 0) item ∧ LaidOut size holds ((base + 1) % size) items := by
  constructor
  · exact laid 0 item rfl
  · intro index next found
    rw [place_at_next]
    exact laid (index + 1) next found

theorem LaidOut.push {item : Item} (laid : LaidOut size holds base items)
    (held : holds (placeAt size base items.length) item) :
    LaidOut size holds base (items ++ [item]) := by
  intro index other found
  rcases Nat.lt_trichotomy index items.length with inside | last | beyond
  · rw [List.getElem?_append_left inside] at found
    exact laid index other found
  · rw [last, List.getElem?_concat_length] at found
    rw [last, ← Option.some.inj found]
    exact held
  · have short : (items ++ [item]).length ≤ index := by
      rw [List.length_append, List.length_singleton]
      exact beyond
    rw [List.getElem?_eq_none short] at found
    cases found

/-- A change that keeps every item where it is. -/
theorem LaidOut.map {after : Nat → Other → Prop} {change : Item → Other}
    (laid : LaidOut size holds base items)
    (kept : ∀ index item, items[index]? = some item → holds (placeAt size base index) item →
      after (placeAt size base index) (change item)) :
    LaidOut size after base (items.map change) := by
  intro index item found
  rw [List.getElem?_map] at found
  obtain ⟨old, there, same⟩ := Option.map_eq_some_iff.mp found
  rw [← same]
  exact kept index old there (laid index old there)

theorem LaidOut.imp {after : Nat → Item → Prop} (laid : LaidOut size holds base items)
    (kept : ∀ slot, ∀ item ∈ items, holds slot item → after slot item) :
    LaidOut size after base items := by
  intro index item found
  exact kept _ item (List.mem_of_getElem? found) (laid index item found)

/-- What the slots contain, when each contains the value of its item. -/
theorem LaidOut.values {Value : Type*} {value : Item → Value} {content : Nat → Value}
    (laid : LaidOut size (fun slot item => content slot = value item) base items) :
    items.map value =
      (List.range items.length).map fun index => content (placeAt size base index) := by
  apply List.ext_getElem
  · simp
  · intro index left right
    rw [List.length_map] at left
    simp only [List.getElem_map, List.getElem_range]
    exact (laid index items[index] (List.getElem?_eq_getElem left)).symm

end ChaoOS.CircularLayout
