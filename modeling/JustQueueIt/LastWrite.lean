/-
Maps filled by assignments one after the other: the last assignment to a key
decides what the key is bound to.
-/
import Mathlib.Data.Finmap
import Mathlib.Data.List.Induction

namespace LastWrite

universe u v w

variable {α : Type u} {β : Type v} {ι : Type w} [DecidableEq α]

/-- The value of the last item with a key. -/
def lastValue (key : ι → α) (value : ι → β) (items : List ι) (a : α) :
    Option β :=
  (items.reverse.find? fun item => key item = a).map value

/-- `map[key(item)] = value(item)` for every item, in order. -/
def assignAll (key : ι → α) (value : ι → β) (items : List ι)
    (map : Finmap fun _ : α => β) : Finmap fun _ : α => β :=
  items.foldl (fun map item => map.insert (key item) (value item)) map

variable {key : ι → α} {value : ι → β}

theorem lastValue_concat (items : List ι) (item : ι) (a : α) :
    lastValue key value (items ++ [item]) a =
      if key item = a then some (value item)
      else lastValue key value items a := by
  rw [lastValue, List.reverse_concat, List.find?_cons]
  by_cases hkey : key item = a
  · simp [hkey]
  · simp [hkey, lastValue]

theorem lookup_assignAll (items : List ι) (map : Finmap fun _ : α => β)
    (a : α) :
    (assignAll key value items map).lookup a =
      (lastValue key value items a).or (map.lookup a) := by
  induction items using List.reverseRecOn with
  | nil => rfl
  | append_singleton items item ih =>
      rw [assignAll, List.foldl_concat, lastValue_concat]
      by_cases hkey : key item = a
      · subst hkey
        rw [Finmap.lookup_insert, if_pos rfl, Option.some_or]
      · rw [Finmap.lookup_insert_of_ne _ (Ne.symm hkey), if_neg hkey]
        exact ih

theorem lookup_assignAll_empty (items : List ι) (a : α) :
    (assignAll key value items ∅).lookup a = lastValue key value items a := by
  rw [lookup_assignAll, Finmap.lookup_empty, Option.or_none]

theorem lastValue_eq_none_iff {items : List ι} {a : α} :
    lastValue key value items a = none ↔ ∀ item ∈ items, key item ≠ a := by
  simp [lastValue]

/-- The last value is that of an item no later item has the key of. -/
theorem lastValue_eq_some_iff {items : List ι} {a : α} {b : β} :
    lastValue key value items a = some b ↔
      ∃ before item after, items = before ++ item :: after ∧ key item = a ∧
        (∀ other ∈ after, key other ≠ a) ∧ value item = b := by
  constructor
  · intro hlast
    obtain ⟨item, hfind, hvalue⟩ := Option.map_eq_some_iff.mp hlast
    obtain ⟨hkey, later, earlier, hsplit, hlater⟩ :=
      List.find?_eq_some_iff_append.mp hfind
    refine ⟨earlier.reverse, item, later.reverse, ?_, by simpa using hkey,
      ?_, hvalue⟩
    · simpa using congrArg List.reverse hsplit
    · intro other hother
      simpa using hlater other (List.mem_reverse.mp hother)
  · rintro ⟨before, item, after, rfl, hkey, hafter, hvalue⟩
    apply Option.map_eq_some_iff.mpr
    refine ⟨item, List.find?_eq_some_iff_append.mpr
      ⟨by simpa using hkey, after.reverse, before.reverse, by simp, ?_⟩,
      hvalue⟩
    intro other hother
    simpa using hafter other (List.mem_reverse.mp hother)

/-- The value at a position with no later item of the same key. -/
theorem lastValue_of_getElem? {items : List ι} {i : Nat} {item : ι}
    (hitem : items[i]? = some item)
    (hlater : ∀ j other, i < j → items[j]? = some other →
      key other ≠ key item) :
    lastValue key value items (key item) = some (value item) := by
  obtain ⟨hi, rfl⟩ := List.getElem?_eq_some_iff.mp hitem
  apply lastValue_eq_some_iff.mpr
  refine ⟨items.take i, items[i], items.drop (i + 1), ?_, rfl, ?_, rfl⟩
  · rw [List.getElem_cons_drop, List.take_append_drop]
  · intro other hother
    obtain ⟨j, hj⟩ := List.mem_iff_getElem?.mp hother
    rw [List.getElem?_drop] at hj
    exact hlater (i + 1 + j) other (by omega) hj

/-- With distinct keys every item's value is kept. -/
theorem lastValue_eq_some_iff_of_nodup {items : List ι}
    (hnodup : (items.map key).Nodup) {a : α} {b : β} :
    lastValue key value items a = some b ↔
      ∃ item ∈ items, key item = a ∧ value item = b := by
  rw [lastValue_eq_some_iff]
  constructor
  · rintro ⟨before, item, after, rfl, hkey, -, hvalue⟩
    exact ⟨item, by simp, hkey, hvalue⟩
  · rintro ⟨item, hmem, rfl, rfl⟩
    obtain ⟨before, after, rfl⟩ := List.append_of_mem hmem
    refine ⟨before, item, after, rfl, rfl, ?_, rfl⟩
    intro other hother hsame
    simp only [List.map_append, List.map_cons, List.nodup_append,
      List.nodup_cons] at hnodup
    exact hnodup.2.1.1 (hsame ▸ List.mem_map_of_mem hother)

end LastWrite
