/-
`std::ranges::lower_bound` over a list: the halving search, what it returns on
a partitioned list, and finding and erasing by a strictly increasing key.
-/
import Mathlib.Data.List.Basic
import Mathlib.Tactic.Linarith

universe u

variable {α : Type u}

/-- The search window is `[first, first + len)`.  Every round shortens it, so
`len` rounds are enough. -/
def lowerBoundLoop (before : α → Bool) (items : List α) :
    Nat → Nat → Nat → Nat
  | 0, first, _ => first
  | rounds + 1, first, len =>
      if len = 0 then first
      else
        let half := len / 2
        match items[first + half]? with
        | none => first
        | some middle =>
            if before middle then
              lowerBoundLoop before items rounds (first + half + 1)
                (len - half - 1)
            else lowerBoundLoop before items rounds first half

/-- The index of the first item that is not `before` the sought value. -/
def lowerBound (before : α → Bool) (items : List α) : Nat :=
  lowerBoundLoop before items items.length 0 items.length

namespace LowerBound

/-- The search ends in its window or right after it. -/
theorem loop_le (before : α → Bool) (items : List α) (rounds : Nat) :
    ∀ first len : Nat,
      lowerBoundLoop before items rounds first len ≤ first + len := by
  induction rounds with
  | zero =>
      intro first len
      exact Nat.le_add_right first len
  | succ rounds ih =>
      intro first len
      unfold lowerBoundLoop
      by_cases hzero : len = 0
      · simp [hzero]
      simp only [hzero, ↓reduceIte]
      cases hget : items[first + len / 2]? with
      | none => exact Nat.le_add_right first len
      | some middle =>
          have hright := ih (first + len / 2 + 1) (len - len / 2 - 1)
          have hleft := ih first (len / 2)
          by_cases hbefore : before middle = true
          · simp only [hbefore, ↓reduceIte]
            omega
          · simp only [hbefore, Bool.false_eq_true, ↓reduceIte]
            omega

/-- Everything left of the window is before the value, nothing right of it
is. -/
structure Window (before : α → Bool) (items : List α) (first len : Nat) :
    Prop where
  fits : first + len ≤ items.length
  left : ∀ i (hi : i < items.length), i < first → before items[i] = true
  right : ∀ i (hi : i < items.length), first + len ≤ i →
    before items[i] = false

/-- What `lower_bound` asks of its range. -/
def Partitioned (before : α → Bool) (items : List α) : Prop :=
  items.Pairwise fun a b => before b = true → before a = true

theorem Partitioned.getElem {before : α → Bool} {items : List α}
    (hpart : Partitioned before items) {i j : Nat} (hj : j < items.length)
    (hij : i ≤ j) (hbefore : before items[j] = true) :
    before items[i] = true := by
  rcases Nat.lt_or_eq_of_le hij with hlt | rfl
  · exact List.pairwise_iff_getElem.mp hpart i j (by omega) hj hlt hbefore
  · exact hbefore

theorem loop_window {before : α → Bool} {items : List α}
    (hpart : Partitioned before items) {rounds : Nat} :
    ∀ {first len : Nat}, len ≤ rounds → Window before items first len →
      Window before items (lowerBoundLoop before items rounds first len) 0 := by
  induction rounds with
  | zero =>
      intro first len hlen hwindow
      obtain rfl := Nat.le_zero.mp hlen
      exact hwindow
  | succ rounds ih =>
      intro first len hlen hwindow
      unfold lowerBoundLoop
      by_cases hzero : len = 0
      · subst len
        simpa using hwindow
      have hmiddle : first + len / 2 < items.length := by
        have hfits := hwindow.fits
        omega
      simp only [hzero, ↓reduceIte, List.getElem?_eq_getElem hmiddle]
      by_cases hbefore : before items[first + len / 2] = true
      · rw [if_pos hbefore]
        apply ih (by omega)
        refine ⟨by have := hwindow.fits; omega, ?_, ?_⟩
        · intro i hi hlt
          exact hpart.getElem hmiddle (by omega) hbefore
        · intro i hi hle
          exact hwindow.right i hi (by omega)
      · rw [if_neg hbefore]
        apply ih (by omega)
        refine ⟨by omega, hwindow.left, ?_⟩
        intro i hi hle
        by_contra hcontra
        exact hbefore (hpart.getElem hi hle (by simpa using hcontra))

/-- The result splits the list into what is before the value and what is
not. -/
theorem lowerBound_window {before : α → Bool} {items : List α}
    (hpart : Partitioned before items) :
    Window before items (lowerBound before items) 0 := by
  refine loop_window hpart (Nat.le_refl _) ⟨by omega, ?_, ?_⟩
  · intro i _ hlt
    omega
  · intro i hi hle
    omega

section Key

variable {key : α → Nat} {items : List α}

/-- The items stand in strictly ascending key order. -/
def Sorted (key : α → Nat) (items : List α) : Prop :=
  items.Pairwise fun a b => key a < key b

theorem Sorted.partitioned (hsorted : Sorted key items) (value : Nat) :
    Partitioned (fun item => key item < value) items := by
  apply hsorted.imp
  intro a b hab hb
  simp only [decide_eq_true_eq] at hb ⊢
  omega

/-- The search stops at an item if and only if the item has the key. -/
theorem Sorted.getElem?_lowerBound (hsorted : Sorted key items) {value : Nat}
    {item : α} (hkey : key item = value) :
    items[lowerBound (fun item => key item < value) items]? = some item ↔
      item ∈ items := by
  have hwindow := lowerBound_window (hsorted.partitioned value)
  set index := lowerBound (fun item => key item < value) items
  constructor
  · exact fun hget => List.mem_of_getElem? hget
  · intro hmem
    obtain ⟨i, hi, hget⟩ := List.mem_iff_getElem.mp hmem
    have hlow : index ≤ i := by
      by_contra hlt
      have hleft := hwindow.left i hi (by omega)
      simp [hget, hkey] at hleft
    rcases Nat.lt_or_eq_of_le hlow with hlt | heq
    · have hless := List.pairwise_iff_getElem.mp hsorted index i
        (by omega) hi hlt
      have hright := hwindow.right index (by omega) (by omega)
      simp [hget, hkey] at hless hright
      omega
    · rw [heq, List.getElem?_eq_getElem hi, hget]

/-- Erasing the item the search found leaves the items of other keys. -/
theorem Sorted.eraseIdx_eq_filter (hsorted : Sorted key items) {i : Nat}
    (hi : i < items.length) :
    items.eraseIdx i = items.filter fun item => key item ≠ key items[i] := by
  induction items generalizing i with
  | nil => simp at hi
  | cons head tail ih =>
      obtain ⟨hhead, htail⟩ := List.pairwise_cons.mp hsorted
      cases i with
      | zero =>
          have hall : ∀ item ∈ tail, key item ≠ key head := fun item hmem =>
            Nat.ne_of_gt (hhead item hmem)
          simp only [List.eraseIdx_cons_zero, List.getElem_cons_zero,
            List.filter_cons, ne_eq, not_true_eq_false, decide_false,
            Bool.false_eq_true, ↓reduceIte]
          exact (List.filter_eq_self.mpr (by simpa using hall)).symm
      | succ i =>
          have hlt : i < tail.length := by simpa using hi
          have hne : key head ≠ key tail[i] :=
            Nat.ne_of_lt (hhead _ (List.getElem_mem hlt))
          have hrest := ih htail hlt
          simp only [List.eraseIdx_cons_succ, List.getElem_cons_succ, hrest,
            List.filter_cons, hne, ne_eq, not_false_eq_true, decide_true,
            ↓reduceIte]

end Key

end LowerBound
