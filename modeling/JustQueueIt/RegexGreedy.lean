/-
Which filling of a template a match captures.  The paths through its pattern
come in the order a backtracking matcher tries them: a slot takes as much as it
can before it gives characters back, and earlier slots choose first.
-/
import JustQueueIt.RegexPieces
import Mathlib.Data.List.Lex

universe u

namespace Regex

/-- The lengths a greedy repetition tries, from `n` down to one. -/
def longestFirst : Nat → List Nat
  | 0 => []
  | n + 1 => (n + 1) :: longestFirst n

theorem mem_longestFirst {n k : Nat} :
    k ∈ longestFirst n ↔ 0 < k ∧ k ≤ n := by
  induction n with
  | zero => simp [longestFirst]; omega
  | succ n ih =>
      rw [longestFirst, List.mem_cons, ih]
      omega

theorem pairwise_longestFirst (n : Nat) :
    (longestFirst n).Pairwise (· > ·) := by
  induction n with
  | zero => exact List.Pairwise.nil
  | succ n ih =>
      refine List.Pairwise.cons (fun k hk => ?_) ih
      have hle := (mem_longestFirst.mp hk).2
      omega

theorem longestFirst_succ (n : Nat) :
    longestFirst (n + 1) = (longestFirst n).map (1 + ·) ++ [1] := by
  induction n with
  | zero => rfl
  | succ n ih =>
      calc longestFirst (n + 1 + 1)
          = (n + 1 + 1) :: longestFirst (n + 1) := rfl
        _ = (1 + (n + 1)) :: ((longestFirst n).map (1 + ·) ++ [1]) := by
            rw [ih, Nat.add_comm 1]
        _ = (longestFirst (n + 1)).map (1 + ·) ++ [1] := rfl

/-- How many characters of the text a class takes. -/
def CharSet.run (chars : CharSet) (text : List Char) : Nat :=
  (text.takeWhile chars.test).length

theorem CharSet.run_cons {chars : CharSet} {c : Char}
    (htest : chars.test c = true) (rest : List Char) :
    chars.run (c :: rest) = chars.run rest + 1 := by
  rw [run, List.takeWhile_cons_of_pos htest]
  rfl

/-- The first `n` characters are in the class when it takes as many. -/
theorem CharSet.le_run_iff {chars : CharSet} {text : List Char} :
    ∀ {n : Nat}, n ≤ chars.run text ↔
      n ≤ text.length ∧ ∀ c ∈ text.take n, chars.test c = true := by
  induction text with
  | nil => intro n; simp [run]
  | cons c rest ih =>
      intro n
      cases n with
      | zero => simp
      | succ n =>
          by_cases htest : chars.test c = true
          · rw [run_cons htest, Nat.succ_le_succ_iff, ih, List.length_cons,
              Nat.succ_le_succ_iff, List.take_succ_cons, List.forall_mem_cons]
            exact and_congr_right fun _ => (and_iff_right htest).symm
          · simp [run, htest]

/-- The first round of a repetition of a class, whatever follows it. -/
theorem flatMap_paths_set {chars : CharSet} {cursor : Cursor}
    {later : Cursor → List Cursor}
    (hlater : (cursor.skip 1).rest.length < cursor.rest.length →
      later (cursor.skip 1) =
        (longestFirst (chars.run (cursor.skip 1).rest)).map
            (cursor.skip 1).skip ++ [cursor.skip 1]) :
    ((Ast.set chars).paths cursor).flatMap later =
      (longestFirst (chars.run cursor.rest)).map cursor.skip := by
  cases hrest : cursor.rest with
  | nil => simp [Ast.paths, hrest, CharSet.run, longestFirst]
  | cons c tail =>
      by_cases htest : chars.test c = true
      · have hpaths : (Ast.set chars).paths cursor = [cursor.skip 1] := by
          simp [Ast.paths, hrest, htest]
        have hnext : (cursor.skip 1).rest = tail := by
          rw [Cursor.skip_rest, hrest]
          rfl
        have hshorter : (cursor.skip 1).rest.length < cursor.rest.length := by
          rw [hnext, hrest]
          exact Nat.lt_succ_self _
        rw [hpaths, List.flatMap_singleton, hlater hshorter, hnext,
          CharSet.run_cons htest, longestFirst_succ, List.map_append,
          List.map_map]
        congr 1
        apply List.map_congr_left
        intro n _
        exact Cursor.skip_skip cursor 1 n
      · have hpaths : (Ast.set chars).paths cursor = [] := by
          simp [Ast.paths, hrest, htest]
        rw [hpaths, CharSet.run, List.takeWhile_cons_of_neg htest]
        rfl

/-- A greedy repetition of a class tries its runs from the longest on, and last
of all none. -/
theorem repPaths_set_greedy {chars : CharSet} {fuel : Nat} :
    ∀ {cursor : Cursor}, cursor.rest.length < fuel →
      repPaths (fun next => (Ast.set chars).paths next) [] true fuel 0 none
          cursor =
        (longestFirst (chars.run cursor.rest)).map cursor.skip ++
          [cursor] := by
  induction fuel with
  | zero => intro cursor hfuel; omega
  | succ fuel ih =>
      intro cursor hfuel
      rw [repPaths, if_neg (by simp), if_neg (by simp), if_pos rfl,
        Cursor.clear_nil]
      refine congrArg (· ++ [cursor]) (flatMap_paths_set ?_)
      intro hshorter
      rw [if_neg (by omega)]
      exact ih (by omega)

/-- How many characters stand in front of the first separator. -/
def segmentRun (separator : Char) (text : List Char) : Nat :=
  (CharSet.mk true [.char separator]).run text

theorem le_segmentRun_iff {separator : Char} {text : List Char} {n : Nat} :
    n ≤ segmentRun separator text ↔
      n ≤ text.length ∧ separator ∉ text.take n := by
  rw [segmentRun, CharSet.le_run_iff]
  apply and_congr_right
  intro _
  simp only [CharSet.other_test]
  exact ⟨fun hall hmem => hall separator hmem rfl,
    fun hmem c hc heq => hmem (heq ▸ hc)⟩

/-- A segment group takes the longest segment first. -/
theorem paths_segment (index : Nat) (separator : Char) (cursor : Cursor) :
    (Ast.segment index separator).paths cursor =
      (longestFirst (segmentRun separator cursor.rest)).map fun n =>
        (cursor.skip n).capture index (cursor.rest.take n) := by
  have hrounds : (Ast.rep 1 none true (.set ⟨true, [.char separator]⟩)).paths
      cursor = (longestFirst (segmentRun separator cursor.rest)).map
        cursor.skip := by
    change repPaths (fun next => (Ast.set _).paths next) [] true
      (1 + cursor.rest.length + 1) 1 none cursor = _
    rw [repPaths, if_neg (by simp), if_pos (by simp), Cursor.clear_nil]
    apply flatMap_paths_set
    intro hshorter
    rw [if_neg (by simp)]
    exact repPaths_set_greedy (by omega)
  have hbody : (Ast.seq (.rep 1 none true (.set ⟨true, [.char separator]⟩))
      .empty).paths cursor = (longestFirst (segmentRun separator
        cursor.rest)).map cursor.skip := by
    rw [Ast.paths, hrounds]
    exact List.flatMap_singleton' _
  rw [Ast.segment, Ast.paths, hbody, List.map_map]
  apply List.map_congr_left
  intro n hn
  have hle := (le_segmentRun_iff.mp (mem_longestFirst.mp hn).2).1
  rw [Function.comp_apply, Cursor.textTo_skip cursor hle]

namespace Piece

variable {α : Type u}

/-- The ways to fill a template at the front of a text, in the order in which
its pattern tries them. -/
def fillings (separator : Char) :
    List (Piece α) → List Char → List (List (List Char))
  | [], _ => [[]]
  | .char c :: pieces, text =>
      if text.head? = some c then fillings separator pieces (text.drop 1)
      else []
  | .slot _ :: pieces, text =>
      (longestFirst (segmentRun separator text)).flatMap fun n =>
        (fillings separator pieces (text.drop n)).map (text.take n :: ·)

theorem mem_fillings {separator : Char} {pieces : List (Piece α)} :
    ∀ {text : List Char} {values : List (List Char)},
      values ∈ fillings separator pieces text ↔
        Fits separator pieces values ∧ fill pieces values <+: text := by
  induction pieces with
  | nil =>
      intro text values
      rw [fillings, List.mem_singleton]
      constructor
      · rintro rfl
        exact ⟨⟨rfl, by simp⟩, List.nil_prefix⟩
      · rintro ⟨hfits, -⟩
        exact List.length_eq_zero_iff.mp hfits.length
  | cons piece pieces ih =>
      intro text values
      cases piece with
      | char c =>
          cases text with
          | nil => simp [fillings, fill]
          | cons first rest =>
              by_cases hfirst : first = c
              · simp [fillings, fill, hfirst, ih, fits_char]
              · simp [fillings, fill, hfirst, Ne.symm hfirst]
      | slot label =>
          simp only [fillings, List.mem_flatMap, List.mem_map,
            mem_longestFirst, ih, le_segmentRun_iff]
          constructor
          · rintro ⟨n, ⟨hpos, hn, hsep⟩, rest, ⟨hfits, hleading⟩, rfl⟩
            refine ⟨fits_slot.mpr ⟨⟨?_, hsep⟩, hfits⟩, ?_⟩
            · apply List.ne_nil_of_length_pos
              rw [List.length_take]
              omega
            · obtain ⟨after, hafter⟩ := hleading
              refine ⟨after, ?_⟩
              rw [fill, List.append_assoc, hafter]
              exact List.take_append_drop n text
          · rintro ⟨hfits, after, hafter⟩
            obtain ⟨value, rest, rfl⟩ := hfits.exists_cons
            obtain ⟨⟨hne, hsep⟩, hrest⟩ := fits_slot.mp hfits
            rw [fill, List.append_assoc] at hafter
            have htake : text.take value.length = value := by
              rw [← hafter, List.take_left' rfl]
            have hdrop : text.drop value.length = fill pieces rest ++ after := by
              rw [← hafter, List.drop_left' rfl]
            refine ⟨value.length, ⟨List.length_pos_iff.mpr hne, ?_,
              htake.symm ▸ hsep⟩, rest, ⟨hrest, ?_⟩, by rw [htake]⟩
            · rw [← hafter, List.length_append]
              omega
            · rw [hdrop]
              exact List.prefix_append _ _

def Longer (value other : List Char) : Prop :=
  other.length < value.length

instance : Std.Asymm Longer :=
  ⟨fun _ _ hlonger => Nat.lt_asymm hlonger⟩

/-- The first value in which the one filling differs from the other is
longer. -/
def Prefers : List (List Char) → List (List Char) → Prop :=
  List.Lex Longer

theorem Prefers.asymm {values others : List (List Char)}
    (hprefers : Prefers values others) : ¬ Prefers others values :=
  (List.Lex.asymm Longer).asymm values others hprefers

/-- What is tried earlier is preferred. -/
theorem pairwise_fillings {separator : Char} {pieces : List (Piece α)} :
    ∀ {text : List Char}, (fillings separator pieces text).Pairwise Prefers := by
  induction pieces with
  | nil => exact List.pairwise_singleton _ _
  | cons piece pieces ih =>
      intro text
      cases piece with
      | char c =>
          rw [fillings]
          split
          · exact ih
          · exact List.Pairwise.nil
      | slot label =>
          rw [fillings, List.pairwise_flatMap]
          constructor
          · intro n _
            rw [List.pairwise_map]
            exact ih.imp fun hprefers => List.Lex.cons hprefers
          · apply (pairwise_longestFirst _).imp_of_mem
            intro n k hn hk hgt values hvalues others hothers
            obtain ⟨rest, -, rfl⟩ := List.mem_map.mp hvalues
            obtain ⟨rest', -, rfl⟩ := List.mem_map.mp hothers
            have hle := (le_segmentRun_iff.mp (mem_longestFirst.mp hn).2).1
            apply List.Lex.rel
            rw [Longer, List.length_take, List.length_take]
            omega

/-- The paths through the tree of a template, in order. -/
theorem paths_tree {separator : Char} {pieces : List (Piece α)} {tail : Ast} :
    ∀ {index : Nat} {cursor : Cursor},
      (tree separator index pieces tail).paths cursor =
        (fillings separator pieces cursor.rest).flatMap fun values =>
          tail.paths ((cursor.skip
            (fill pieces values).length).captureAll index values) := by
  induction pieces with
  | nil =>
      intro index cursor
      rw [fillings, List.flatMap_singleton, fill, List.length_nil,
        Cursor.skip_zero]
      rfl
  | cons piece pieces ih =>
      intro index cursor
      cases piece with
      | char c =>
          cases hrest : cursor.rest with
          | nil => simp [tree, fillings, Ast.paths, hrest]
          | cons first rest =>
              by_cases hfirst : first = c
              · have hpaths : (Ast.set (.single c)).paths cursor =
                    [cursor.skip 1] := by
                  simp [Ast.paths, hrest, hfirst]
                have hhead : (first :: rest).head? = some c :=
                  congrArg some hfirst
                rw [tree, Ast.paths, hpaths, List.flatMap_singleton, ih,
                  fillings, if_pos hhead, Cursor.skip_rest, hrest]
                apply List.flatMap_congr
                intro values _
                rw [Cursor.skip_skip, fill, List.length_cons, Nat.add_comm 1]
              · simp [tree, fillings, Ast.paths, hrest, hfirst]
      | slot label =>
          rw [tree, Ast.paths, paths_segment, List.flatMap_map, fillings,
            List.flatMap_assoc]
          apply List.flatMap_congr
          intro n hn
          have hle := (le_segmentRun_iff.mp (mem_longestFirst.mp hn).2).1
          rw [ih, List.flatMap_map]
          apply List.flatMap_congr
          intro values _
          rw [fill, List.length_append, List.length_take,
            Nat.min_eq_left hle, ← Cursor.skip_skip]
          rfl

/-- The ways to fill a template that make the whole text, in order. -/
def wholeFillings (separator : Char) (pieces : List (Piece α))
    (text : List Char) : List (List (List Char)) :=
  (fillings separator pieces text).filter fun values =>
    fill pieces values = text

theorem mem_wholeFillings {separator : Char} {pieces : List (Piece α)}
    {text : List Char} {values : List (List Char)} :
    values ∈ wholeFillings separator pieces text ↔
      Fits separator pieces values ∧ fill pieces values = text := by
  rw [wholeFillings, List.mem_filter, mem_fillings, decide_eq_true_iff]
  constructor
  · rintro ⟨⟨hfits, -⟩, hfill⟩
    exact ⟨hfits, hfill⟩
  · rintro ⟨hfits, rfl⟩
    exact ⟨⟨hfits, List.prefix_refl _⟩, rfl⟩

/-- A filling that makes the whole text is a path to its end. -/
theorem paths_lineEnd_fill {text : List Char} {pieces : List (Piece α)}
    {values : List (List Char)} (hleading : fill pieces values <+: text) :
    (Ast.seq .lineEnd .empty).paths (((Cursor.start text).skip
        (fill pieces values).length).captureAll 0 values) =
      if fill pieces values = text then
        [((Cursor.start text).skip text.length).captureAll 0 values]
      else [] := by
  have hend : text.drop (fill pieces values).length = [] ↔
      fill pieces values = text := by
    rw [List.drop_eq_nil_iff]
    exact ⟨fun hle => hleading.eq_of_length_le hle,
      fun hfill => Nat.le_of_eq (congrArg List.length hfill).symm⟩
  by_cases hfill : fill pieces values = text
  · simp [Ast.paths, hfill]
  · simp [Ast.paths, hend, hfill]

/-- A template is matched by the first way to fill it. -/
theorem regexMatch_tree (separator : Char) (pieces : List (Piece α))
    (marks : Nat) (text : List Char) :
    Compiled.regexMatch ⟨.anchored (tree separator 0 pieces), marks⟩ text =
      (wholeFillings separator pieces text).head?.map fun values =>
        ⟨text, marks, (((Cursor.start text).skip
          text.length).captureAll 0 values).captures⟩ := by
  have hpaths : (Ast.anchored (tree separator 0 pieces)).paths (.start text) =
      (wholeFillings separator pieces text).map fun values =>
        ((Cursor.start text).skip text.length).captureAll 0 values := by
    rw [Ast.anchored, Ast.paths, wholeFillings]
    change List.flatMap _ [Cursor.start text] = _
    rw [List.flatMap_singleton, paths_tree, Cursor.start_rest,
      List.flatMap_congr fun values hvalues =>
        paths_lineEnd_fill (mem_fillings.mp hvalues).2]
    induction fillings separator pieces text with
    | nil => rfl
    | cons values later ih =>
        rw [List.flatMap_cons, ih, List.filter_cons]
        by_cases hfill : fill pieces values = text <;> simp [hfill]
  rw [Compiled.regexMatch, hpaths]
  cases wholeFillings separator pieces text with
  | nil => rfl
  | cons values later => simp

/-- A match captures the first way to make the text. -/
theorem exists_first_of_regexMatch {separator : Char}
    {pieces : List (Piece α)} {marks : Nat} {text : List Char} {found : Match}
    (hmatch : Compiled.regexMatch
      ⟨.anchored (tree separator 0 pieces), marks⟩ text = some found) :
    ∃ values later, wholeFillings separator pieces text = values :: later ∧
      ∀ i value, values[i]? = some value → found.get (i + 1) = value := by
  rw [regexMatch_tree, Option.map_eq_some_iff] at hmatch
  obtain ⟨values, hhead, rfl⟩ := hmatch
  obtain ⟨later, hlater⟩ := List.head?_eq_some_iff.mp hhead
  refine ⟨values, later, hlater, ?_⟩
  intro i value hvalue
  have hcapture : (((Cursor.start text).skip
      text.length).captureAll 0 values).captures (i + 1) = some value := by
    rw [← Nat.zero_add i]
    exact Cursor.captureAll_getElem? hvalue
  exact congrArg (fun capture => capture.getD []) hcapture

/-- No other way to fill the template makes the same text and is preferred. -/
def Greediest (separator : Char) (pieces : List (Piece α))
    (values : List (List Char)) : Prop :=
  ∀ others, Fits separator pieces others →
    fill pieces others = fill pieces values → ¬ Prefers others values

/-- One filling of a text is preferred to all others, and it is tried first. -/
theorem greediest_iff {separator : Char} {pieces : List (Piece α)}
    {values : List (List Char)} (hfits : Fits separator pieces values)
    {first : List (List Char)} {later : List (List (List Char))}
    (hwhole : wholeFillings separator pieces (fill pieces values) =
      first :: later) :
    Greediest separator pieces values ↔ first = values := by
  have hmem : ∀ others, others ∈ first :: later ↔
      Fits separator pieces others ∧
        fill pieces others = fill pieces values := by
    intro others
    rw [← hwhole, mem_wholeFillings]
  have hpreferred : ∀ others ∈ later, Prefers first others := by
    have hpairwise : (first :: later).Pairwise Prefers := by
      rw [← hwhole]
      exact pairwise_fillings.filter _
    exact (List.pairwise_cons.mp hpairwise).1
  constructor
  · intro hgreediest
    obtain ⟨hfirst, hsame⟩ := (hmem first).mp List.mem_cons_self
    rcases List.mem_cons.mp ((hmem values).mpr ⟨hfits, rfl⟩) with
      hvalues | hlater
    · exact hvalues.symm
    · exact absurd (hpreferred values hlater) (hgreediest first hfirst hsame)
  · rintro rfl others hothers hsame hprefers
    rcases List.mem_cons.mp ((hmem others).mpr ⟨hothers, hsame⟩) with
      rfl | hlater
    · exact hprefers.asymm hprefers
    · exact hprefers.asymm (hpreferred others hlater)

/-- Fillings are told apart by what is captured. -/
theorem Fits.eq_of_captures {separator : Char} {pieces : List (Piece α)}
    {values others : List (List Char)} (hfits : Fits separator pieces values)
    (hothers : Fits separator pieces others) {found : Match}
    (hvalues : ∀ i value, values[i]? = some value → found.get (i + 1) = value)
    (hget : ∀ i value, others[i]? = some value → found.get (i + 1) = value) :
    values = others := by
  apply List.ext_getElem (hfits.length.trans hothers.length.symm)
  intro i hi hi'
  rw [← hvalues i _ (List.getElem?_eq_getElem hi)]
  exact hget i _ (List.getElem?_eq_getElem hi')

/-- Only one filling of a text is preferred to all others. -/
theorem Greediest.unique {separator : Char} {pieces : List (Piece α)}
    {values others : List (List Char)} (hfits : Fits separator pieces values)
    (hothers : Fits separator pieces others)
    (hsame : fill pieces values = fill pieces others)
    (hvalues : Greediest separator pieces values)
    (hgreediest : Greediest separator pieces others) : values = others := by
  have hmem : values ∈ wholeFillings separator pieces (fill pieces values) :=
    mem_wholeFillings.mpr ⟨hfits, rfl⟩
  obtain ⟨first, later, hwhole⟩ :=
    List.exists_cons_of_ne_nil (List.ne_nil_of_mem hmem)
  have hfirst := (greediest_iff hfits hwhole).mp hvalues
  rw [hsame] at hwhole
  exact hfirst.symm.trans ((greediest_iff hothers hwhole).mp hgreediest)

/-- A text that fills the template is matched, and what is captured is the
filling that is preferred to all others. -/
theorem exists_regexMatch_greediest {separator : Char}
    {pieces : List (Piece α)} {values : List (List Char)}
    (hfits : Fits separator pieces values) (marks : Nat) :
    ∃ found, Compiled.regexMatch
        ⟨.anchored (tree separator 0 pieces), marks⟩ (fill pieces values) =
          some found ∧
      ∃ best, Fits separator pieces best ∧
        fill pieces best = fill pieces values ∧
        Greediest separator pieces best ∧
        ∀ i value, best[i]? = some value → found.get (i + 1) = value := by
  obtain ⟨found, hfound⟩ := Option.ne_none_iff_exists'.mp
    (regexMatch_fill_ne_none hfits marks)
  obtain ⟨best, later, hwhole, hget⟩ := exists_first_of_regexMatch hfound
  have hmem : best ∈ wholeFillings separator pieces (fill pieces values) := by
    rw [hwhole]
    exact List.mem_cons_self
  obtain ⟨hbest, hsame⟩ := mem_wholeFillings.mp hmem
  refine ⟨found, hfound, best, hbest, hsame, ?_, hget⟩
  rw [← hsame] at hwhole
  exact (greediest_iff hbest hwhole).mpr rfl

end Piece

end Regex
