import ChaoOS.GuardedRun
import ChaoOS.HashMapContents

/-!
# Runs of the hash map

Runs start from `map_init`; a run that reaches a call which does not return has
no final state. Two results about every run: with fresh keys only the map is a
finite map, and with any keys it is one as long as no insertion finds a tombstone
before its own key.
-/

namespace ChaoOS.HashMapRuns

open ChaoOS.GuardedRun ChaoOS.HashMapModel ChaoOS.HashMapProbing
open ChaoOS.HashMapContents

set_option autoImplicit false

inductive MapOp where
  | insert (key value : Nat)
  | delete (key : Nat)
  | find (key : Nat)

def mapStep (map : HashMap) : MapOp → Option HashMap
  | .insert key value => mapInsert key value map
  | .delete key => mapDelete key map
  | .find key => (mapFind key 0 map).map fun _ => map

/-- The effect of one call on the finite map. -/
def noteOp (contents : Contents) : MapOp → Contents
  | .insert key value => contents.insert key value
  | .delete key => contents.erase key
  | .find _ => contents

def contentsAfter (ops : List MapOp) : Contents := ops.foldl noteOp ∅

theorem map_init_stores : Stores ∅ mapInit ∧ Exact mapInit := by
  rcases fresh_table_stores (show 3 ≤ 27 by decide) with ⟨stores, sized, _⟩
  exact ⟨stores, sized⟩

/-! ## Fresh keys only -/

/-- Every insertion of the run is of a key that is not present at that point. -/
def FreshInserts : Contents → List MapOp → Prop
  | _, [] => True
  | contents, .insert key value :: ops =>
      key ∉ contents ∧ FreshInserts (contents.insert key value) ops
  | contents, .delete key :: ops => FreshInserts (contents.erase key) ops
  | contents, .find _ :: ops => FreshInserts contents ops

instance decidableFreshInserts : (contents : Contents) → (ops : List MapOp) →
    Decidable (FreshInserts contents ops)
  | _, [] => inferInstanceAs (Decidable True)
  | contents, .insert key value :: ops =>
      have := decidableFreshInserts (contents.insert key value) ops
      inferInstanceAs (Decidable (_ ∧ _))
  | contents, .delete key :: ops => decidableFreshInserts (contents.erase key) ops
  | contents, .find _ :: ops => decidableFreshInserts contents ops

theorem fresh_run_stores (ops : List MapOp) {contents : Contents} {map final : HashMap}
    (stores : Stores contents map) (sized : Exact map) (fresh : FreshInserts contents ops)
    (run : runFrom mapStep map ops = some final) :
    Stores (ops.foldl noteOp contents) final ∧ Exact final := by
  induction ops generalizing contents map with
  | nil =>
      cases run
      exact ⟨stores, sized⟩
  | cons op ops induction =>
      rcases run_cons run with ⟨next, first, rest⟩
      cases op with
      | insert key value =>
          rcases map_insert_fresh contents key value map next stores fresh.1 first
            with ⟨after, kept, _⟩
          exact induction after (kept sized) fresh.2 rest
      | delete key =>
          rcases map_delete_stores stores first with ⟨after, kept⟩
          exact induction after (kept sized) fresh rest
      | find key =>
          rcases Option.map_eq_some_iff.mp first with ⟨_, _, same⟩
          rw [← same] at rest
          exact induction stores sized fresh rest

/-- With fresh keys only, look-ups and the size are those of a finite map. -/
theorem fresh_run_refines (ops : List MapOp) (fresh : FreshInserts ∅ ops) (final : HashMap)
    (run : runFrom mapStep mapInit ops = some final) :
    final.size = (contentsAfter ops).keys.card ∧
      ∀ key old answer, mapFind key old final = some answer →
        answer = match (contentsAfter ops).lookup key with
          | some value => (1, value)
          | none => (0, old) := by
  rcases fresh_run_stores ops map_init_stores.1 map_init_stores.2 fresh run with ⟨stores, sized⟩
  refine ⟨stores.size sized, ?_⟩
  intro key old answer call
  exact stores.find call

/-- The seventh key makes the map grow, with a tombstone to leave behind. -/
theorem fresh_run_refines_sample : ∃ final,
    runFrom mapStep mapInit [.insert 0 10, .insert 7 17, .delete 0, .insert 14 24, .insert 1 11,
      .insert 2 12, .insert 3 13, .insert 4 14, .insert 5 15, .delete 7, .find 2] = some final ∧
    final.capacity = 19 ∧ final.size = 6 ∧
    ∀ old answer, mapFind 7 old final = some answer → answer = (0, old) := by
  have reached : (runFrom mapStep mapInit [.insert 0 10, .insert 7 17, .delete 0, .insert 14 24,
      .insert 1 11, .insert 2 12, .insert 3 13, .insert 4 14, .insert 5 15, .delete 7,
      .find 2]).map HashMap.capacity = some 19 := by
    decide +kernel
  rcases Option.map_eq_some_iff.mp reached with ⟨final, run, capacity⟩
  rcases fresh_run_refines _ (by decide +kernel) final run with ⟨size, finds⟩
  refine ⟨final, run, capacity, ?_, ?_⟩
  · rw [size]
    decide +kernel
  · intro old answer call
    have gone : (contentsAfter [.insert 0 10, .insert 7 17, .delete 0, .insert 14 24,
        .insert 1 11, .insert 2 12, .insert 3 13, .insert 4 14, .insert 5 15, .delete 7,
        .find 2]).lookup 7 = none := by
      decide +kernel
    have answered := finds 7 old answer call
    rw [gone] at answered
    exact answered

/-! ## Any keys -/

/-- An insertion grows the table first or meets no tombstone before its key. -/
def MeetsNoTombstone (map : HashMap) : MapOp → Prop
  | .insert key _ => GrowTest map ∨ NoTombstoneBefore map key
  | _ => True

theorem map_step_stores (contents : Contents) (map : HashMap) (op : MapOp) (next : HashMap)
    (stores : Stores contents map) (clear : MeetsNoTombstone map op)
    (call : mapStep map op = some next) : Stores (noteOp contents op) next := by
  cases op with
  | insert key value => exact map_insert_stores stores clear call
  | delete key => exact (map_delete_stores stores call).1
  | find key =>
      rcases Option.map_eq_some_iff.mp call with ⟨_, _, same⟩
      rw [← same]
      exact stores

/-- In every run without such tombstones each key has at most one slot. Once a
key is deleted its look-ups find nothing, and they end when there is an EMPTY
slot to end at. -/
theorem untombed_run_unique (ops : List MapOp) (final : HashMap)
    (clear : Permitted mapStep MeetsNoTombstone mapInit ops)
    (run : runFrom mapStep mapInit ops = some final) :
    UniqueKeys final ∧ ∀ before key value, ops = before ++ [.insert key value, .delete key] →
      ∀ old, (∀ answer, mapFind key old final = some answer → answer = (0, old)) ∧
        ((∃ i, (nodeAt final key i).status = .empty) → mapFind key old final = some (0, old)) := by
  have stores := run_simulation map_step_stores map_init_stores.1 clear run
  refine ⟨stores.unique, ?_⟩
  intro before key value shape old
  have gone : (ops.foldl noteOp ∅).lookup key = none := by
    rw [shape, List.foldl_append]
    exact Finmap.lookup_erase key _
  have absent : ∀ answer, mapFind key old final = some answer → answer = (0, old) := by
    intro answer call
    have answered := stores.find call
    rw [gone] at answered
    exact answered
  refine ⟨absent, ?_⟩
  intro empty
  have returns := (find_index_returns_iff stores.probing key).mpr (Or.inr empty)
  rcases Option.isSome_iff_exists.mp returns with ⟨index, found⟩
  have call : mapFind key old final = some _ := congrArg (Option.map _) found
  rw [call, absent _ call]

/-- A stored key is overwritten where it is, and then deleted. -/
theorem untombed_run_unique_sample : ∃ final,
    runFrom mapStep mapInit [.insert 0 5, .insert 7 6, .insert 7 8, .delete 7] = some final ∧
    UniqueKeys final ∧ mapFind 7 99 final = some (0, 99) := by
  have clean : Permitted mapStep (fun map _ => Untombed map ∧ 0 < map.capacity) mapInit
      [.insert 0 5, .insert 7 6, .insert 7 8, .delete 7] := by
    decide +kernel
  have clear : Permitted mapStep MeetsNoTombstone mapInit
      [.insert 0 5, .insert 7 6, .insert 7 8, .delete 7] := by
    apply clean.imp
    intro map op facts
    cases op with
    | insert key value => exact Or.inr (facts.1.no_tombstone facts.2 key)
    | delete key => trivial
    | find key => trivial
  have reached : (runFrom mapStep mapInit [.insert 0 5, .insert 7 6, .insert 7 8, .delete 7]).map
      (fun map => (nodeAt map 7 2).status) = some .empty := by
    decide +kernel
  rcases Option.map_eq_some_iff.mp reached with ⟨final, run, empty⟩
  rcases untombed_run_unique _ final clear run with ⟨unique, deleted⟩
  refine ⟨final, run, unique, ?_⟩
  exact (deleted [.insert 0 5, .insert 7 6] 7 8 rfl 99).2 ⟨2, empty⟩

/-- Key 7 sits behind key 0. Deleting 0 leaves a tombstone that the second
insertion of 7 takes, so that 7 is stored twice and survives its deletion. -/
theorem tombstone_doubles_key :
    (¬∀ ops final, runFrom mapStep mapInit ops = some final → UniqueKeys final) ∧
      ¬∀ ops final key value, runFrom mapStep mapInit
        (ops ++ [.insert key value, .delete key]) = some final →
          ∀ old, mapFind key old final = some (0, old) := by
  constructor
  · intro always
    have reached : (runFrom mapStep mapInit [.insert 0 1, .insert 7 2, .delete 0, .insert 7 3]).map
        (fun map => (map.capacity, map.list 0, map.list 1)) =
          some (7, ⟨7, 3, .occupied⟩, ⟨7, 2, .occupied⟩) := by
      decide +kernel
    rcases Option.map_eq_some_iff.mp reached with ⟨final, run, facts⟩
    rcases Prod.mk.inj facts with ⟨capacity, nodes⟩
    rcases Prod.mk.inj nodes with ⟨first, second⟩
    have unique := always _ final run 7 0 1 (by omega) (by omega)
      ((holds_iff_node _ _ _).mpr ⟨3, first⟩) ((holds_iff_node _ _ _).mpr ⟨2, second⟩)
    exact absurd unique (by decide)
  · intro always
    have reached : (runFrom mapStep mapInit ([.insert 0 1, .insert 7 2, .delete 0] ++
        [.insert 7 3, .delete 7])).map (mapFind 7 9) = some (some (1, 2)) := by
      decide +kernel
    rcases Option.map_eq_some_iff.mp reached with ⟨final, run, found⟩
    have absent := always _ final 7 3 run 9
    rw [found] at absent
    exact absurd absent (by decide)

end ChaoOS.HashMapRuns
