/-
Anchored patterns made of literal text and segment groups: what they match and
what they capture.  A segment is a non-empty text without one separator
character, the language of `([^/]+)`.
-/
import JustQueueIt.RegexMatch

namespace Regex

/-- A group that takes one or more characters other than the separator. -/
def Ast.segment (index : Nat) (separator : Char) : Ast :=
  .group index
    (.seq (.rep 1 none true (.set ⟨true, [.char separator]⟩)) .empty)

/-- `body` between `^` and `$`. -/
def Ast.anchored (body : Ast → Ast) : Ast :=
  .seq .lineBegin (body (.seq .lineEnd .empty))

theorem CharSet.other_test (separator c : Char) :
    (CharSet.mk true [.char separator]).test c = true ↔ c ≠ separator := by
  by_cases heq : separator = c
  · simp [test, ClassItem.test, heq]
  · simp [test, ClassItem.test, heq, Ne.symm heq]

theorem mem_paths_lineEnd_empty {cursor last : Cursor} :
    last ∈ (Ast.seq .lineEnd .empty).paths cursor ↔
      cursor.rest = [] ∧ last = cursor := by
  simp

theorem mem_paths_segment {index : Nat} {separator : Char}
    {cursor last : Cursor} :
    last ∈ (Ast.segment index separator).paths cursor ↔
      ∃ n, 1 ≤ n ∧ n ≤ cursor.rest.length ∧
        separator ∉ cursor.rest.take n ∧
        last = (cursor.skip n).capture index (cursor.rest.take n) := by
  have hnone : ∀ text : List Char,
      (∀ c ∈ text, (CharSet.mk true [.char separator]).test c = true) ↔
        separator ∉ text := by
    intro text
    simp only [CharSet.other_test]
    exact ⟨fun hall hmem => hall separator hmem rfl,
      fun hmem c hc heq => hmem (heq ▸ hc)⟩
  simp only [Ast.segment, mem_paths_group, mem_paths_seq, mem_paths_empty,
    mem_paths_rep_set, hnone]
  constructor
  · rintro ⟨_, ⟨_, ⟨n, hpos, hn, hsep, rfl⟩, rfl⟩, rfl⟩
    exact ⟨n, hpos, hn, hsep, by rw [cursor.textTo_skip hn]⟩
  · rintro ⟨n, hpos, hn, hsep, rfl⟩
    exact ⟨cursor.skip n, ⟨_, ⟨n, hpos, hn, hsep, rfl⟩, rfl⟩,
      by rw [cursor.textTo_skip hn]⟩

theorem mem_paths_anchored {body : Ast → Ast} {text : List Char}
    {last : Cursor} :
    last ∈ (Ast.anchored body).paths (.start text) ↔
      last ∈ (body (.seq .lineEnd .empty)).paths (.start text) := by
  simp [Ast.anchored]

theorem mem_paths_anchored_literal {word text : List Char} {last : Cursor} :
    last ∈ (Ast.anchored (.literal word)).paths (.start text) ↔
      text = word ∧ last = (Cursor.start text).skip word.length := by
  rw [mem_paths_anchored, mem_paths_literal, mem_paths_lineEnd_empty]
  constructor
  · rintro ⟨⟨tail, htail⟩, hrest, rfl⟩
    change word ++ tail = text at htail
    subst htail
    have hnil : tail = [] := by simpa using hrest
    simp [hnil]
  · rintro ⟨rfl, rfl⟩
    simp

/-- `^text$` matches its text and captures nothing. -/
theorem regexMatch_literal (word text : List Char) :
    Compiled.regexMatch ⟨.anchored (.literal word), 0⟩ text =
      if text = word then some ⟨text, 0, fun _ => none⟩ else none := by
  refine Eq.trans
    (Compiled.regexMatch_of_paths (fun _ => mem_paths_anchored_literal) ?_) rfl
  intro heq
  simp [heq]

theorem mem_paths_anchored_literal_segment {word text : List Char}
    {separator : Char} {last : Cursor} :
    last ∈ (Ast.anchored fun tail => .literal word
        (.seq (.segment 1 separator) tail)).paths (.start text) ↔
      (word <+: text ∧ text.drop word.length ≠ [] ∧
        separator ∉ text.drop word.length) ∧
      last = ((Cursor.start text).skip text.length).capture 1
        (text.drop word.length) := by
  simp only [mem_paths_anchored, mem_paths_literal, mem_paths_seq,
    mem_paths_segment, mem_paths_lineEnd, mem_paths_empty]
  simp only [Cursor.skip_rest, Cursor.start_rest]
  constructor
  · rintro ⟨hleading, _, ⟨n, hpos, hn, hsep, rfl⟩, _, ⟨hrest, rfl⟩, rfl⟩
    have hall : (text.drop word.length).length ≤ n := by
      simp only [Cursor.capture_rest, Cursor.skip_rest, Cursor.start_rest,
        List.drop_drop, List.drop_eq_nil_iff] at hrest
      rw [List.length_drop]
      omega
    have hlength : n = (text.drop word.length).length := by omega
    have hword : word.length ≤ text.length := hleading.length_le
    rw [List.take_of_length_le hall] at hsep ⊢
    refine ⟨⟨hleading, ?_, hsep⟩, ?_⟩
    · intro hnil
      simp [hnil] at hlength
      omega
    · rw [Cursor.skip_skip, hlength, List.length_drop,
        Nat.add_sub_cancel' hword]
  · rintro ⟨⟨hleading, hne, hsep⟩, rfl⟩
    have hword : word.length ≤ text.length := hleading.length_le
    have hskips : (Cursor.start text).skip text.length =
        ((Cursor.start text).skip word.length).skip
          (text.drop word.length).length := by
      rw [Cursor.skip_skip, List.length_drop, Nat.add_sub_cancel' hword]
    refine ⟨hleading, _, ⟨(text.drop word.length).length,
      List.length_pos_iff.mpr hne, Nat.le_refl _, ?_, rfl⟩, _, ⟨?_, rfl⟩, ?_⟩
    · rwa [List.take_length]
    · simp only [Cursor.capture_rest, Cursor.skip_rest, Cursor.start_rest]
      exact List.drop_length
    · rw [List.take_length, hskips]

/-- `^text([^s]+)$` matches its text followed by one segment, and captures the
segment. -/
theorem regexMatch_literal_segment (word text : List Char)
    (separator : Char) :
    Compiled.regexMatch
        ⟨.anchored fun tail =>
          .literal word (.seq (.segment 1 separator) tail), 1⟩ text =
      if word <+: text ∧ text.drop word.length ≠ [] ∧
          separator ∉ text.drop word.length then
        some ⟨text, 1, fun i =>
          if i = 1 then some (text.drop word.length) else none⟩
      else none := by
  refine Eq.trans (Compiled.regexMatch_of_paths
    (fun _ => mem_paths_anchored_literal_segment) ?_) rfl
  intro _
  simp

end Regex
