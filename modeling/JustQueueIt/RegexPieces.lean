/-
Templates of literal characters and slots.  The anchored pattern of a template
matches exactly the texts that fill its slots with segments, and captures the
segments.
-/
import JustQueueIt.RegexTemplate

universe u

namespace Regex

/-- A character that stands for itself, or a slot for a segment. -/
inductive Piece (α : Type u) where
  | char (c : Char)
  | slot (label : α)
deriving Repr, DecidableEq

namespace Piece

variable {α : Type u}

/-- The labels of the slots, in order. -/
def labels : List (Piece α) → List α
  | [] => []
  | .char _ :: pieces => labels pieces
  | .slot label :: pieces => label :: labels pieces

/-- The literal characters, in order. -/
def literals : List (Piece α) → List Char
  | [] => []
  | .char c :: pieces => c :: literals pieces
  | .slot _ :: pieces => literals pieces

/-- The template with values in its slots. -/
def fill : List (Piece α) → List (List Char) → List Char
  | [], _ => []
  | .char c :: pieces, values => c :: fill pieces values
  | .slot _ :: pieces, [] => fill pieces []
  | .slot _ :: pieces, value :: values => value ++ fill pieces values

/-- One value for each slot, each a non-empty text without the separator. -/
structure Fits (separator : Char) (pieces : List (Piece α))
    (values : List (List Char)) : Prop where
  length : values.length = (labels pieces).length
  segment : ∀ value ∈ values, value ≠ [] ∧ separator ∉ value

/-- The syntax tree of a template, in front of `tail`.  Groups are numbered
from `index + 1`. -/
def tree (separator : Char) : Nat → List (Piece α) → Ast → Ast
  | _, [], tail => tail
  | index, .char c :: pieces, tail =>
      .seq (.set (.single c)) (tree separator index pieces tail)
  | index, .slot _ :: pieces, tail =>
      .seq (.segment (index + 1) separator)
        (tree separator (index + 1) pieces tail)

theorem fits_char {separator c : Char} {pieces : List (Piece α)}
    {values : List (List Char)} :
    Fits separator (.char c :: pieces) values ↔ Fits separator pieces values :=
  ⟨fun hfits => ⟨hfits.length, hfits.segment⟩,
    fun hfits => ⟨hfits.length, hfits.segment⟩⟩

theorem fits_slot {separator : Char} {label : α} {pieces : List (Piece α)}
    {value : List Char} {values : List (List Char)} :
    Fits separator (.slot label :: pieces) (value :: values) ↔
      (value ≠ [] ∧ separator ∉ value) ∧ Fits separator pieces values := by
  constructor
  · intro hfits
    have hall := List.forall_mem_cons.mp hfits.segment
    exact ⟨hall.1, Nat.succ.inj hfits.length, hall.2⟩
  · rintro ⟨hvalue, hfits⟩
    exact ⟨congrArg (· + 1) hfits.length,
      List.forall_mem_cons.mpr ⟨hvalue, hfits.segment⟩⟩

theorem Fits.exists_cons {separator : Char} {label : α}
    {pieces : List (Piece α)} {values : List (List Char)}
    (hfits : Fits separator (.slot label :: pieces) values) :
    ∃ value rest, values = value :: rest := by
  apply List.exists_cons_of_length_pos
  rw [hfits.length]
  exact Nat.succ_pos _

end Piece

/-- Capture the values in the groups from `index + 1` on. -/
def Cursor.captureAll (cursor : Cursor) : Nat → List (List Char) → Cursor
  | _, [] => cursor
  | index, value :: values =>
      (cursor.capture (index + 1) value).captureAll (index + 1) values

@[simp] theorem Cursor.captureAll_rest (cursor : Cursor) (index : Nat)
    (values : List (List Char)) :
    (cursor.captureAll index values).rest = cursor.rest := by
  induction values generalizing cursor index with
  | nil => rfl
  | cons value values ih => exact ih _ _

theorem Cursor.captureAll_of_le {cursor : Cursor} {index i : Nat}
    (values : List (List Char)) (hi : i ≤ index) :
    (cursor.captureAll index values).captures i = cursor.captures i := by
  induction values generalizing cursor index with
  | nil => rfl
  | cons value values ih =>
      rw [captureAll, ih (by omega)]
      exact if_neg (by omega)

theorem Cursor.captureAll_getElem? {cursor : Cursor} {index i : Nat}
    {values : List (List Char)} {value : List Char}
    (hvalue : values[i]? = some value) :
    (cursor.captureAll index values).captures (index + i + 1) =
      some value := by
  induction values generalizing cursor index i with
  | nil => cases hvalue
  | cons first values ih =>
      rw [captureAll]
      cases i with
      | zero =>
          rw [captureAll_of_le values (Nat.le_refl _)]
          obtain rfl := Option.some.inj hvalue
          exact if_pos rfl
      | succ i =>
          rw [show index + (i + 1) + 1 = index + 1 + i + 1 by omega]
          exact ih hvalue

namespace Piece

variable {α : Type u}

/-- The text at the cursor begins with the filled template, and the tail takes
a path from there to `last`. -/
def Spells (separator : Char) (tail : Ast) (pieces : List (Piece α))
    (index : Nat) (cursor last : Cursor) : Prop :=
  ∃ values, Fits separator pieces values ∧
    fill pieces values <+: cursor.rest ∧
    last ∈ tail.paths ((cursor.skip
      (fill pieces values).length).captureAll index values)

theorem spells_nil {separator : Char} {tail : Ast} {index : Nat}
    {cursor last : Cursor} :
    Spells separator tail ([] : List (Piece α)) index cursor last ↔
      last ∈ tail.paths cursor := by
  constructor
  · rintro ⟨values, hfits, -, hlast⟩
    obtain rfl := List.length_eq_zero_iff.mp hfits.length
    simpa [fill, Cursor.captureAll] using hlast
  · intro hlast
    refine ⟨[], ⟨rfl, by simp⟩, List.nil_prefix, ?_⟩
    simpa [fill, Cursor.captureAll] using hlast

theorem spells_char {separator c : Char} {tail : Ast}
    {pieces : List (Piece α)} {index : Nat} {cursor last : Cursor} :
    Spells separator tail (.char c :: pieces) index cursor last ↔
      (∃ rest, cursor.rest = c :: rest) ∧
      Spells separator tail pieces index (cursor.skip 1) last := by
  constructor
  · rintro ⟨values, hfits, ⟨rest, hrest⟩, hlast⟩
    refine ⟨⟨fill pieces values ++ rest, hrest.symm⟩, values,
      fits_char.mp hfits, ?_, ?_⟩
    · rw [Cursor.skip_rest, ← hrest]
      exact List.prefix_append _ _
    · rwa [Cursor.skip_skip, Nat.add_comm]
  · rintro ⟨⟨rest, hrest⟩, values, hfits, hleading, hlast⟩
    refine ⟨values, fits_char.mpr hfits, ?_, ?_⟩
    · rw [Cursor.skip_rest, hrest] at hleading
      rw [hrest]
      exact List.prefix_cons_inj _ |>.mpr hleading
    · rwa [Cursor.skip_skip, Nat.add_comm] at hlast

theorem spells_slot {separator : Char} {label : α} {tail : Ast}
    {pieces : List (Piece α)} {index : Nat} {cursor last : Cursor} :
    Spells separator tail (.slot label :: pieces) index cursor last ↔
      ∃ n, 0 < n ∧ n ≤ cursor.rest.length ∧
        separator ∉ cursor.rest.take n ∧
        Spells separator tail pieces (index + 1)
          ((cursor.skip n).capture (index + 1) (cursor.rest.take n))
          last := by
  constructor
  · rintro ⟨values, hfits, hleading, hlast⟩
    obtain ⟨value, values, rfl⟩ := hfits.exists_cons
    obtain ⟨⟨hne, hsep⟩, hrest⟩ := fits_slot.mp hfits
    obtain ⟨after, hafter⟩ := hleading
    rw [fill, List.append_assoc] at hafter
    have htake : cursor.rest.take value.length = value := by
      rw [← hafter, List.take_left']
      rfl
    refine ⟨value.length, List.length_pos_iff.mpr hne, ?_, htake.symm ▸ hsep,
      values, hrest, ?_, ?_⟩
    · rw [← hafter, List.length_append]
      omega
    · rw [Cursor.capture_rest, Cursor.skip_rest, ← hafter, List.drop_left']
      · exact List.prefix_append _ _
      · rfl
    · rw [fill, List.length_append, ← Cursor.skip_skip] at hlast
      rw [htake]
      exact hlast
  · rintro ⟨n, hpos, hn, hsep, values, hfits, hleading, hlast⟩
    have hlength : (cursor.rest.take n).length = n := by
      rw [List.length_take, Nat.min_eq_left hn]
    refine ⟨cursor.rest.take n :: values,
      fits_slot.mpr ⟨⟨?_, hsep⟩, hfits⟩, ?_, ?_⟩
    · apply List.ne_nil_of_length_pos
      omega
    · obtain ⟨rest, hrest⟩ := hleading
      refine ⟨rest, ?_⟩
      rw [fill, List.append_assoc, hrest]
      exact List.take_append_drop n cursor.rest
    · rw [fill, List.length_append, hlength, ← Cursor.skip_skip]
      exact hlast

/-- The paths through the tree of a template, one for each way to fill it. -/
theorem mem_paths_tree {separator : Char} {pieces : List (Piece α)}
    {tail : Ast} :
    ∀ {index : Nat} {cursor last : Cursor},
      last ∈ (tree separator index pieces tail).paths cursor ↔
        Spells separator tail pieces index cursor last := by
  induction pieces with
  | nil => exact spells_nil.symm
  | cons piece pieces ih =>
      intro index cursor last
      cases piece with
      | char c =>
          simp only [tree, mem_paths_seq, mem_paths_set, CharSet.single_test,
            ih, spells_char]
          constructor
          · rintro ⟨next, ⟨c, rest, hrest, rfl, rfl⟩, hspells⟩
            exact ⟨⟨rest, hrest⟩, hspells⟩
          · rintro ⟨⟨rest, hrest⟩, hspells⟩
            exact ⟨cursor.skip 1, ⟨c, rest, hrest, rfl, rfl⟩, hspells⟩
      | slot label =>
          simp only [tree, mem_paths_seq, mem_paths_segment, ih, spells_slot]
          constructor
          · rintro ⟨next, ⟨n, hpos, hn, hsep, rfl⟩, hspells⟩
            exact ⟨n, hpos, hn, hsep, hspells⟩
          · rintro ⟨n, hpos, hn, hsep, hspells⟩
            exact ⟨_, ⟨n, hpos, hn, hsep, rfl⟩, hspells⟩

/-- A match of a template fills it, and the captures are the values. -/
theorem exists_values_of_regexMatch {separator : Char} {pieces : List (Piece α)}
    {marks : Nat} {text : List Char} {found : Match}
    (hmatch : Compiled.regexMatch
      ⟨.anchored (tree separator 0 pieces), marks⟩ text = some found) :
    ∃ values, Fits separator pieces values ∧ text = fill pieces values ∧
      ∀ i value, values[i]? = some value → found.get (i + 1) = value := by
  simp only [Compiled.regexMatch, Option.map_eq_some_iff] at hmatch
  obtain ⟨last, hfind, rfl⟩ := hmatch
  have hpath := List.mem_of_find?_eq_some hfind
  rw [mem_paths_anchored, mem_paths_tree] at hpath
  obtain ⟨values, hfits, ⟨rest, hrest⟩, hlast⟩ := hpath
  rw [mem_paths_lineEnd_empty] at hlast
  obtain ⟨hend, rfl⟩ := hlast
  refine ⟨values, hfits, ?_, ?_⟩
  · rw [Cursor.captureAll_rest, Cursor.skip_rest, ← hrest,
      List.drop_left' rfl] at hend
    rw [← Cursor.start_rest text, ← hrest, hend, List.append_nil]
  · intro i value hvalue
    have hcapture : (((Cursor.start text).skip
        (fill pieces values).length).captureAll 0 values).captures (i + 1) =
          some value := by
      rw [← Nat.zero_add i]
      exact Cursor.captureAll_getElem? hvalue
    exact congrArg (fun capture => capture.getD []) hcapture

/-- A filled template is matched. -/
theorem regexMatch_fill_ne_none {separator : Char} {pieces : List (Piece α)}
    {values : List (List Char)} (hfits : Fits separator pieces values)
    (marks : Nat) :
    Compiled.regexMatch ⟨.anchored (tree separator 0 pieces), marks⟩
      (fill pieces values) ≠ none := by
  rw [ne_eq, Compiled.regexMatch_eq_none_iff]
  intro hnone
  refine hnone (((Cursor.start (fill pieces values)).skip
    (fill pieces values).length).captureAll 0 values) ?_ ?_
  · rw [mem_paths_anchored, mem_paths_tree]
    refine ⟨values, hfits, List.prefix_refl _, ?_⟩
    rw [mem_paths_lineEnd_empty]
    simp
  · simp

/-- The separator stands in front of the first slot. -/
def Leads (separator : Char) : List (Piece α) → Prop
  | [] => True
  | .char c :: pieces => c = separator ∨ Leads separator pieces
  | .slot _ :: _ => False

/-- Between any two slots stands the separator. -/
def Separated (separator : Char) : List (Piece α) → Prop
  | [] => True
  | .char _ :: pieces => Separated separator pieces
  | .slot _ :: pieces => Leads separator pieces ∧ Separated separator pieces

instance decidableLeads (separator : Char) :
    (pieces : List (Piece α)) → Decidable (Leads separator pieces)
  | [] => isTrue trivial
  | .char c :: pieces =>
      have := decidableLeads separator pieces
      inferInstanceAs (Decidable (c = separator ∨ Leads separator pieces))
  | .slot _ :: _ => isFalse not_false

instance decidableSeparated (separator : Char) :
    (pieces : List (Piece α)) → Decidable (Separated separator pieces)
  | [] => isTrue trivial
  | .char _ :: pieces => decidableSeparated separator pieces
  | .slot _ :: pieces =>
      have := decidableSeparated separator pieces
      inferInstanceAs (Decidable (Leads separator pieces ∧
        Separated separator pieces))

/-- If the separator stands in front of the first slot, a filled template
begins with a fixed word, up to the separator or the end. -/
theorem Leads.exists_word {separator : Char} {pieces : List (Piece α)}
    (hleads : Leads separator pieces) :
    ∃ word, separator ∉ word ∧
      ((∀ values, fill pieces values = word) ∨
        ∀ values, ∃ rest, fill pieces values = word ++ separator :: rest) := by
  induction pieces with
  | nil => exact ⟨[], by simp, Or.inl fun _ => rfl⟩
  | cons piece pieces ih =>
      cases piece with
      | slot label => exact absurd hleads id
      | char c =>
          by_cases hc : c = separator
          · subst hc
            exact ⟨[], by simp, Or.inr fun values => ⟨fill pieces values, rfl⟩⟩
          · obtain ⟨word, hword, hfill⟩ := ih (hleads.resolve_left hc)
            refine ⟨c :: word, by simp [hword, Ne.symm hc], ?_⟩
            apply hfill.imp
            · exact fun hall values => congrArg (c :: ·) (hall values)
            · intro hall values
              obtain ⟨rest, hrest⟩ := hall values
              exact ⟨rest, congrArg (c :: ·) hrest⟩

/-- Values without the separator in front of the same fixed word agree. -/
theorem value_unique {separator : Char} {value other word : List Char}
    {text text' : List Char} (hvalue : separator ∉ value)
    (hother : separator ∉ other) (hword : separator ∉ word)
    (hsame : value ++ (word ++ separator :: text) =
      other ++ (word ++ separator :: text')) : value = other := by
  have htake : ∀ (front back : List Char), separator ∉ front →
      (front ++ (word ++ separator :: back)).takeWhile (· ≠ separator) =
        front ++ word := by
    intro front back hfront
    rw [← List.append_assoc, List.takeWhile_append_of_pos]
    · simp
    · intro c hc
      have hnot : separator ∉ front ++ word := by simp [hfront, hword]
      exact decide_eq_true (ne_of_mem_of_not_mem hc hnot)
  have hwords : value ++ word = other ++ word := by
    rw [← htake value text hvalue, hsame, htake other text' hother]
  exact List.append_cancel_right hwords

/-- A separated template is filled in one way only. -/
theorem fill_inj_of_separated {separator : Char} {pieces : List (Piece α)}
    (hsep : Separated separator pieces) :
    ∀ {values others : List (List Char)}, Fits separator pieces values →
      Fits separator pieces others → fill pieces values = fill pieces others →
      values = others := by
  induction pieces with
  | nil =>
      intro values others hfits hothers _
      rw [List.length_eq_zero_iff.mp hfits.length,
        List.length_eq_zero_iff.mp hothers.length]
  | cons piece pieces ih =>
      intro values others hfits hothers hsame
      cases piece with
      | char c =>
          exact ih hsep (fits_char.mp hfits) (fits_char.mp hothers)
            (List.cons.inj hsame).2
      | slot label =>
          obtain ⟨value, rest, rfl⟩ := hfits.exists_cons
          obtain ⟨other, rest', rfl⟩ := hothers.exists_cons
          obtain ⟨hvalue, hrest⟩ := fits_slot.mp hfits
          obtain ⟨hother, hrest'⟩ := fits_slot.mp hothers
          obtain ⟨word, hword, hfill⟩ := hsep.1.exists_word
          rw [fill, fill] at hsame
          have heq : value = other := by
            rcases hfill with hall | hall
            · rw [hall, hall] at hsame
              exact List.append_cancel_right hsame
            · obtain ⟨text, htext⟩ := hall rest
              obtain ⟨text', htext'⟩ := hall rest'
              rw [htext, htext'] at hsame
              exact value_unique hvalue.2 hother.2 hword hsame
          subst heq
          rw [ih hsep.2 hrest hrest' (List.append_cancel_left hsame)]

theorem length_le_fill {separator : Char} {pieces : List (Piece α)} :
    ∀ {values : List (List Char)}, Fits separator pieces values →
      pieces.length ≤ (fill pieces values).length := by
  induction pieces with
  | nil => exact fun _ => Nat.zero_le _
  | cons piece pieces ih =>
      intro values hfits
      cases piece with
      | char c => exact Nat.succ_le_succ (ih (fits_char.mp hfits))
      | slot label =>
          obtain ⟨value, rest, rfl⟩ := hfits.exists_cons
          obtain ⟨⟨hne, -⟩, hrest⟩ := fits_slot.mp hfits
          have hle := ih hrest
          have hpos := List.length_pos_iff.mpr hne
          rw [fill, List.length_append, List.length_cons]
          omega

/-- Values of one character are found again wherever the slots stand: any
other values make a longer text. -/
theorem fill_inj_of_single {separator : Char} {pieces : List (Piece α)} :
    ∀ {values others : List (List Char)}, Fits separator pieces values →
      (∀ value ∈ values, value.length = 1) → Fits separator pieces others →
      fill pieces values = fill pieces others →
      values = others ∧ (fill pieces values).length = pieces.length := by
  induction pieces with
  | nil =>
      intro values others hfits _ hothers _
      rw [List.length_eq_zero_iff.mp hfits.length,
        List.length_eq_zero_iff.mp hothers.length]
      exact ⟨rfl, rfl⟩
  | cons piece pieces ih =>
      intro values others hfits hsingle hothers hsame
      cases piece with
      | char c =>
          obtain ⟨heq, hlength⟩ := ih (fits_char.mp hfits) hsingle
            (fits_char.mp hothers) (List.cons.inj hsame).2
          exact ⟨heq, congrArg (· + 1) hlength⟩
      | slot label =>
          obtain ⟨value, rest, rfl⟩ := hfits.exists_cons
          obtain ⟨other, rest', rfl⟩ := hothers.exists_cons
          obtain ⟨-, hrest⟩ := fits_slot.mp hfits
          obtain ⟨⟨hne, -⟩, hrest'⟩ := fits_slot.mp hothers
          obtain ⟨hone, hones⟩ := List.forall_mem_cons.mp hsingle
          obtain ⟨-, hlength⟩ := ih hrest hones hrest rfl
          have hle := length_le_fill hrest'
          have hpos := List.length_pos_iff.mpr hne
          have htotal := congrArg List.length hsame
          simp only [fill, List.length_append] at htotal
          obtain ⟨rfl, htail⟩ := List.append_inj hsame (by omega)
          obtain ⟨rfl, -⟩ := ih hrest hones hrest' htail
          refine ⟨rfl, ?_⟩
          rw [fill, List.length_append, List.length_cons]
          omega

end Piece

end Regex
