/-
A finite map whose keys are handed out by a counter: what a store of numbered
records is for.  Keys are issued in ascending order, an erased key is never
issued again, and the entries can be listed in ascending key order.
-/
import Mathlib.Data.List.Basic
import Mathlib.Data.List.Pairwise

universe u

/-- Keys below `next` were issued; only these can be bound. -/
structure CounterMap (V : Type u) where
  next : Nat
  get? : Nat → Option V
  fresh : ∀ k, next ≤ k → get? k = none

namespace CounterMap

variable {V : Type u}

def empty : CounterMap V :=
  ⟨0, fun _ => none, fun _ _ => rfl⟩

/-- Bind the next key. -/
def create (map : CounterMap V) (value : V) : CounterMap V where
  next := map.next + 1
  get? k := if k = map.next then some value else map.get? k
  fresh k hk := by
    rw [if_neg (by omega)]
    exact map.fresh k (by omega)

/-- Unbind a key; a key that is not bound stays so. -/
def erase (map : CounterMap V) (key : Nat) : CounterMap V where
  next := map.next
  get? k := if k = key then none else map.get? k
  fresh k hk := by
    split
    · rfl
    · exact map.fresh k hk

/-- The bindings in ascending key order. -/
def entries (map : CounterMap V) : List (Nat × V) :=
  (List.range map.next).filterMap fun k => (map.get? k).map (k, ·)

@[simp] theorem empty_next : (empty : CounterMap V).next = 0 := rfl

@[simp] theorem empty_get? (k : Nat) : (empty : CounterMap V).get? k = none := rfl

@[simp] theorem create_next (map : CounterMap V) (value : V) :
    (map.create value).next = map.next + 1 := rfl

@[simp] theorem erase_next (map : CounterMap V) (key : Nat) :
    (map.erase key).next = map.next := rfl

theorem create_get? (map : CounterMap V) (value : V) (k : Nat) :
    (map.create value).get? k =
      if k = map.next then some value else map.get? k := rfl

theorem erase_get? (map : CounterMap V) (key k : Nat) :
    (map.erase key).get? k = if k = key then none else map.get? k := rfl

/-- A bound key was issued. -/
theorem lt_next {map : CounterMap V} {k : Nat} {value : V}
    (hget : map.get? k = some value) : k < map.next := by
  by_contra hle
  rw [map.fresh k (by omega)] at hget
  cases hget

theorem mem_entries {map : CounterMap V} {k : Nat} {value : V} :
    (k, value) ∈ map.entries ↔ map.get? k = some value := by
  simp only [entries, List.mem_filterMap, List.mem_range, Option.map_eq_some_iff,
    Prod.mk.injEq]
  constructor
  · rintro ⟨_, _, _, hget, rfl, rfl⟩
    exact hget
  · intro hget
    exact ⟨k, lt_next hget, value, hget, rfl, rfl⟩

theorem entries_pairwise (map : CounterMap V) :
    map.entries.Pairwise fun a b => a.1 < b.1 := by
  refine List.Pairwise.filterMap _ ?_ List.pairwise_lt_range
  intro a a' hlt b hb b' hb'
  simp only [Option.map_eq_some_iff] at hb hb'
  obtain ⟨_, _, rfl⟩ := hb
  obtain ⟨_, _, rfl⟩ := hb'
  exact hlt

theorem entries_create (map : CounterMap V) (value : V) :
    (map.create value).entries = map.entries ++ [(map.next, value)] := by
  simp only [entries, create_next, List.range_succ, List.filterMap_append,
    create_get?]
  congr 1
  · refine List.filterMap_congr fun k hk => ?_
    rw [if_neg (Nat.ne_of_lt (List.mem_range.mp hk))]
  · simp

theorem entries_erase (map : CounterMap V) (key : Nat) :
    (map.erase key).entries = map.entries.filter fun entry => entry.1 ≠ key := by
  simp only [entries, erase_next, erase_get?, List.filter_filterMap]
  refine List.filterMap_congr fun k _ => ?_
  by_cases hk : k = key
  · cases hget : map.get? key <;> simp [hk, hget, Option.filter]
  · cases hget : map.get? k <;> simp [hk, Option.filter]

end CounterMap
