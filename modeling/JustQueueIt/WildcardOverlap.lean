/-
Words and patterns with wildcards.  Whether some word matches two patterns is
decided by walking through both at once: a letter meets a letter, and a
repetition stops or takes one more letter of the other pattern.
-/
import Mathlib.Data.List.Basic

universe u

namespace Wildcard

/-- One letter, which may be left open, or any number of open letters. -/
inductive Item (α : Type u) where
  | letter (given : Option α)
  | many
deriving Repr, DecidableEq

variable {α : Type u}

/-- What a letter of a pattern stands for. -/
def Accepts (free : α → Prop) (given : Option α) (a : α) : Prop :=
  match given with
  | some b => a = b
  | none => free a

inductive Matches (free : α → Prop) : List (Item α) → List α → Prop
  | nil : Matches free [] []
  | letter {given a items word} (haccepts : Accepts free given a)
      (hrest : Matches free items word) :
      Matches free (.letter given :: items) (a :: word)
  | stop {items word} (hrest : Matches free items word) :
      Matches free (.many :: items) word
  | more {a items word} (hfree : free a)
      (hrest : Matches free (.many :: items) word) :
      Matches free (.many :: items) (a :: word)

/-- Some letter is accepted on both sides; two open letters always meet. -/
def meets [DecidableEq α] (free : α → Prop) [DecidablePred free] :
    Option α → Option α → Bool
  | some a, some b => a = b
  | some a, none => free a
  | none, some b => free b
  | none, none => true

/-- Go through the other pattern with `item` in front of what `rest` does. -/
def advance [DecidableEq α] (free : α → Prop) [DecidablePred free]
    (item : Item α) (rest : List (Item α) → Bool) : List (Item α) → Bool
  | [] =>
      match item with
      | .letter _ => false
      | .many => rest []
  | other :: others =>
      match item, other with
      | .letter given, .letter its => meets free given its && rest others
      | .letter given, .many =>
          advance free item rest others ||
            (meets free given none && rest (.many :: others))
      | .many, .letter its =>
          rest (.letter its :: others) ||
            (meets free none its && advance free item rest others)
      | .many, .many =>
          rest (.many :: others) || advance free item rest others

/-- Whether some word matches both patterns. -/
def overlap [DecidableEq α] (free : α → Prop) [DecidablePred free] :
    List (Item α) → List (Item α) → Bool
  | [] => fun others => others.all fun other => other = .many
  | item :: items => advance free item (overlap free items)

variable {free : α → Prop}

theorem matches_nil {word : List α} : Matches free [] word ↔ word = [] := by
  constructor
  · intro hmatches
    cases hmatches
    rfl
  · rintro rfl
    exact .nil

theorem matches_letter {given : Option α} {items : List (Item α)}
    {word : List α} :
    Matches free (.letter given :: items) word ↔
      ∃ a rest, word = a :: rest ∧ Accepts free given a ∧
        Matches free items rest := by
  constructor
  · intro hmatches
    cases hmatches with
    | letter haccepts hrest => exact ⟨_, _, rfl, haccepts, hrest⟩
  · rintro ⟨a, rest, rfl, haccepts, hrest⟩
    exact .letter haccepts hrest

/-- A repetition stops, or takes a letter and goes on. -/
theorem matches_many {items : List (Item α)} {word : List α} :
    Matches free (.many :: items) word ↔
      Matches free items word ∨
      ∃ a rest, word = a :: rest ∧ free a ∧
        Matches free (.many :: items) rest := by
  constructor
  · intro hmatches
    cases hmatches with
    | stop hrest => exact Or.inl hrest
    | more hfree hrest => exact Or.inr ⟨_, _, rfl, hfree, hrest⟩
  · rintro (hrest | ⟨a, rest, rfl, hfree, hrest⟩)
    · exact .stop hrest
    · exact .more hfree hrest

/-- A repetition takes a stretch of open letters. -/
theorem matches_many_iff {items : List (Item α)} {word : List α} :
    Matches free (.many :: items) word ↔
      ∃ taken rest, word = taken ++ rest ∧ (∀ a ∈ taken, free a) ∧
        Matches free items rest := by
  constructor
  · intro hmatches
    induction word with
    | nil =>
        rcases matches_many.mp hmatches with hrest | ⟨a, rest, hnil, -⟩
        · exact ⟨[], [], rfl, by simp, hrest⟩
        · cases hnil
    | cons a word ih =>
        rcases matches_many.mp hmatches with hrest | ⟨b, rest, hword, hfree,
          hmore⟩
        · exact ⟨[], a :: word, rfl, by simp, hrest⟩
        · obtain ⟨rfl, rfl⟩ := List.cons.inj hword
          obtain ⟨taken, rest, rfl, htaken, hrest⟩ := ih hmore
          exact ⟨a :: taken, rest, rfl,
            List.forall_mem_cons.mpr ⟨hfree, htaken⟩, hrest⟩
  · rintro ⟨taken, rest, rfl, htaken, hrest⟩
    induction taken with
    | nil => exact .stop hrest
    | cons a taken ih =>
        obtain ⟨hfree, htaken⟩ := List.forall_mem_cons.mp htaken
        exact .more hfree (ih htaken)

/-- Some word matches both patterns. -/
def Meet (free : α → Prop) (items others : List (Item α)) : Prop :=
  ∃ word, Matches free items word ∧ Matches free others word

theorem meet_comm {items others : List (Item α)} :
    Meet free items others ↔ Meet free others items := by
  constructor
  · rintro ⟨word, hleft, hright⟩
    exact ⟨word, hright, hleft⟩
  · rintro ⟨word, hleft, hright⟩
    exact ⟨word, hright, hleft⟩

theorem meet_nil_many {others : List (Item α)} :
    Meet free [] (.many :: others) ↔ Meet free [] others := by
  constructor
  · rintro ⟨word, hnil, hmany⟩
    obtain rfl := matches_nil.mp hnil
    rcases matches_many.mp hmany with hrest | ⟨a, rest, hword, -⟩
    · exact ⟨[], hnil, hrest⟩
    · cases hword
  · rintro ⟨word, hnil, hrest⟩
    exact ⟨word, hnil, .stop hrest⟩

theorem not_meet_nil_letter {given : Option α} {others : List (Item α)} :
    ¬ Meet free [] (.letter given :: others) := by
  rintro ⟨word, hnil, hletter⟩
  obtain rfl := matches_nil.mp hnil
  obtain ⟨a, rest, hword, -⟩ := matches_letter.mp hletter
  cases hword

theorem meet_letter_letter {given its : Option α}
    {items others : List (Item α)} :
    Meet free (.letter given :: items) (.letter its :: others) ↔
      (∃ a, Accepts free given a ∧ Accepts free its a) ∧
        Meet free items others := by
  constructor
  · rintro ⟨word, hleft, hright⟩
    obtain ⟨a, rest, rfl, hgiven, hitems⟩ := matches_letter.mp hleft
    obtain ⟨b, tail, hword, hits, hothers⟩ := matches_letter.mp hright
    obtain ⟨rfl, rfl⟩ := List.cons.inj hword
    exact ⟨⟨a, hgiven, hits⟩, rest, hitems, hothers⟩
  · rintro ⟨⟨a, hgiven, hits⟩, rest, hitems, hothers⟩
    exact ⟨a :: rest, .letter hgiven hitems, .letter hits hothers⟩

theorem meet_many_letter {its : Option α} {items others : List (Item α)} :
    Meet free (.many :: items) (.letter its :: others) ↔
      Meet free items (.letter its :: others) ∨
      (∃ a, free a ∧ Accepts free its a) ∧
        Meet free (.many :: items) others := by
  constructor
  · rintro ⟨word, hleft, hright⟩
    rcases matches_many.mp hleft with hitems | ⟨a, rest, rfl, hfree, hmore⟩
    · exact Or.inl ⟨word, hitems, hright⟩
    · obtain ⟨b, tail, hword, hits, hothers⟩ := matches_letter.mp hright
      obtain ⟨rfl, rfl⟩ := List.cons.inj hword
      exact Or.inr ⟨⟨a, hfree, hits⟩, rest, hmore, hothers⟩
  · rintro (⟨word, hitems, hright⟩ | ⟨⟨a, hfree, hits⟩, rest, hmore, hothers⟩)
    · exact ⟨word, .stop hitems, hright⟩
    · exact ⟨a :: rest, .more hfree hmore, .letter hits hothers⟩

theorem meet_letter_many {given : Option α} {items others : List (Item α)} :
    Meet free (.letter given :: items) (.many :: others) ↔
      Meet free (.letter given :: items) others ∨
      (∃ a, Accepts free given a ∧ free a) ∧
        Meet free items (.many :: others) := by
  have hswap : (∃ a, free a ∧ Accepts free given a) ↔
      ∃ a, Accepts free given a ∧ free a :=
    exists_congr fun a => and_comm
  exact meet_comm.trans (meet_many_letter.trans
    (or_congr meet_comm (and_congr hswap meet_comm)))

/-- Where both patterns repeat, one of the repetitions stops first. -/
theorem meet_many_many {items others : List (Item α)} :
    Meet free (.many :: items) (.many :: others) ↔
      Meet free items (.many :: others) ∨ Meet free (.many :: items) others := by
  constructor
  · rintro ⟨word, hleft, hright⟩
    induction word with
    | nil =>
        rcases matches_many.mp hleft with hitems | ⟨a, rest, hword, -⟩
        · exact Or.inl ⟨[], hitems, hright⟩
        · cases hword
    | cons a word ih =>
        rcases matches_many.mp hleft with hitems | ⟨b, rest, hword, -, hmore⟩
        · exact Or.inl ⟨_, hitems, hright⟩
        · rcases matches_many.mp hright with
            hothers | ⟨c, tail, hsame, -, hagain⟩
          · exact Or.inr ⟨_, hleft, hothers⟩
          · obtain ⟨rfl, rfl⟩ := List.cons.inj hword
            obtain ⟨rfl, rfl⟩ := List.cons.inj hsame
            exact ih hmore hagain
  · rintro (⟨word, hitems, hright⟩ | ⟨word, hleft, hothers⟩)
    · exact ⟨word, .stop hitems, hright⟩
    · exact ⟨word, hleft, .stop hothers⟩

theorem meet_nil {others : List (Item α)} :
    Meet free [] others ↔ ∀ other ∈ others, other = .many := by
  induction others with
  | nil => exact iff_of_true ⟨[], .nil, .nil⟩ (by simp)
  | cons other others ih =>
      cases other with
      | letter its => exact iff_of_false not_meet_nil_letter (by simp)
      | many => rw [meet_nil_many, ih, List.forall_mem_cons, eq_self, true_and]

section Decision

variable [DecidableEq α] [DecidablePred free]

theorem meets_iff (hfree : ∃ a, free a) (given its : Option α) :
    meets free given its = true ↔
      ∃ a, Accepts free given a ∧ Accepts free its a := by
  cases given with
  | none =>
      cases its with
      | none => simpa [meets, Accepts] using hfree
      | some b => simp [meets, Accepts]
  | some a => cases its <;> simp [meets, Accepts]

/-- One item in front: the walk through the other pattern finds a common word
if the walk through the rest does. -/
theorem advance_iff (hfree : ∃ a, free a) {item : Item α}
    {items : List (Item α)} {rest : List (Item α) → Bool}
    (hrest : ∀ others, rest others = true ↔ Meet free items others)
    (others : List (Item α)) :
    advance free item rest others = true ↔
      Meet free (item :: items) others := by
  induction others with
  | nil =>
      cases item with
      | letter given =>
          rw [meet_comm]
          exact iff_of_false Bool.false_ne_true not_meet_nil_letter
      | many => rw [meet_comm, meet_nil_many, meet_comm]; exact hrest []
  | cons other others ih =>
      cases item with
      | letter given =>
          cases other with
          | letter its =>
              rw [advance, Bool.and_eq_true, meets_iff hfree, hrest,
                meet_letter_letter]
          | many =>
              rw [advance, Bool.or_eq_true, Bool.and_eq_true, ih, hrest,
                meets_iff hfree, meet_letter_many]
              rfl
      | many =>
          cases other with
          | letter its =>
              rw [advance, Bool.or_eq_true, Bool.and_eq_true, ih, hrest,
                meets_iff hfree, meet_many_letter]
              rfl
          | many => rw [advance, Bool.or_eq_true, ih, hrest, meet_many_many]

theorem overlap_iff (hfree : ∃ a, free a) (items others : List (Item α)) :
    overlap free items others = true ↔ Meet free items others := by
  induction items generalizing others with
  | nil => rw [meet_nil, overlap]; simp
  | cons item items ih => exact advance_iff hfree ih others

end Decision

end Wildcard
