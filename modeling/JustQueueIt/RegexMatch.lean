/-
The backtracking matcher of the ECMAScript grammar.  A tree maps a cursor to
the list of cursors its successful paths end in, in the order a backtracking
matcher tries them; a continuation that fails asks for the next one.  On top of
it stand `std::regex_match` and the enumeration of matches that
`std::sregex_iterator` and `std::regex_replace` share.
-/
import JustQueueIt.RegexSyntax

namespace Regex

/-- A position in the text: what was consumed (latest first), what is left,
and the captures made so far. -/
structure Cursor where
  before : List Char
  rest : List Char
  captures : Nat → Option (List Char)

def Cursor.start (text : List Char) : Cursor :=
  ⟨[], text, fun _ => none⟩

/-- Move over the next `n` characters. -/
def Cursor.skip (cursor : Cursor) (n : Nat) : Cursor :=
  { cursor with
    before := (cursor.rest.take n).reverse ++ cursor.before
    rest := cursor.rest.drop n }

/-- The text between two cursors of one path. -/
def Cursor.textTo (cursor last : Cursor) : List Char :=
  cursor.rest.take (cursor.rest.length - last.rest.length)

def Cursor.capture (cursor : Cursor) (index : Nat) (text : List Char) :
    Cursor :=
  { cursor with
    captures := fun i => if i = index then some text else cursor.captures i }

/-- Forget the captures of the listed groups. -/
def Cursor.clear (cursor : Cursor) (groups : List Nat) : Cursor :=
  { cursor with
    captures := fun i => if i ∈ groups then none else cursor.captures i }

/-- Whether the cursor stands between a word character and something else. -/
def Cursor.atWordBoundary (cursor : Cursor) : Bool :=
  cursor.before.head?.any isWordChar != cursor.rest.head?.any isWordChar

@[simp] theorem Cursor.start_rest (text : List Char) :
    (Cursor.start text).rest = text := rfl

@[simp] theorem Cursor.start_before (text : List Char) :
    (Cursor.start text).before = [] := rfl

@[simp] theorem Cursor.skip_rest (cursor : Cursor) (n : Nat) :
    (cursor.skip n).rest = cursor.rest.drop n := rfl

@[simp] theorem Cursor.capture_rest (cursor : Cursor) (index : Nat)
    (text : List Char) : (cursor.capture index text).rest = cursor.rest := rfl

@[simp] theorem Cursor.skip_zero (cursor : Cursor) : cursor.skip 0 = cursor := by
  cases cursor
  simp [skip]

@[simp] theorem Cursor.skip_skip (cursor : Cursor) (m n : Nat) :
    (cursor.skip m).skip n = cursor.skip (m + n) := by
  cases cursor
  simp [skip, List.take_add, List.drop_drop]

theorem Cursor.textTo_skip (cursor : Cursor) {n : Nat}
    (hn : n ≤ cursor.rest.length) :
    cursor.textTo (cursor.skip n) = cursor.rest.take n := by
  simp only [textTo, skip_rest, List.length_drop]
  congr 1
  omega

/-- The capture groups of a tree. -/
def Ast.groups : Ast → List Nat
  | .seq first second => first.groups ++ second.groups
  | .alt first second => first.groups ++ second.groups
  | .group index body => index :: body.groups
  | .rep _ _ _ body => body.groups
  | .look _ body => body.groups
  | _ => []

/-- The repetition of `body`.  Captures inside it are cleared before every
round, and an optional round that consumes nothing fails.  Each round lowers
`min` or shortens the rest of the text, so `min` plus that length is fuel
enough. -/
def repPaths (body : Cursor → List Cursor) (groups : List Nat)
    (greedy : Bool) : Nat → Nat → Option Nat → Cursor → List Cursor
  | 0, _, _, _ => []
  | fuel + 1, min, max, cursor =>
      if max = some 0 then [cursor]
      else
        let more := (body (cursor.clear groups)).flatMap fun next =>
          if min = 0 ∧ next.rest.length = cursor.rest.length then []
          else repPaths body groups greedy fuel (min - 1)
            (max.map (· - 1)) next
        if min ≠ 0 then more
        else if greedy then more ++ [cursor]
        else cursor :: more

/-- Where the successful paths through a tree end, in backtracking order. -/
def Ast.paths : Ast → Cursor → List Cursor
  | .empty, cursor => [cursor]
  | .set chars, cursor =>
      match cursor.rest with
      | c :: _ => if chars.test c then [cursor.skip 1] else []
      | [] => []
  | .lineBegin, cursor => if cursor.before = [] then [cursor] else []
  | .lineEnd, cursor => if cursor.rest = [] then [cursor] else []
  | .wordBoundary negated, cursor =>
      if cursor.atWordBoundary != negated then [cursor] else []
  | .backref index, cursor =>
      match cursor.captures index with
      | none => [cursor]
      | some text =>
          if text.isPrefixOf cursor.rest then [cursor.skip text.length] else []
  | .seq first second, cursor =>
      (first.paths cursor).flatMap fun next => second.paths next
  | .alt first second, cursor => first.paths cursor ++ second.paths cursor
  | .group index body, cursor =>
      (body.paths cursor).map fun next =>
        next.capture index (cursor.textTo next)
  | .rep min max greedy body, cursor =>
      repPaths (fun next => body.paths next) body.groups greedy
        (min + cursor.rest.length + 1) min max cursor
  | .look negated body, cursor =>
      match body.paths cursor with
      | [] => if negated then [cursor] else []
      | next :: _ =>
          if negated then []
          else [{ cursor with captures := next.captures }]

/-- `std::smatch`: the matched text and its captures. -/
structure Match where
  text : List Char
  markCount : Nat
  captures : Nat → Option (List Char)

/-- `smatch::size`: the whole match and one entry for each group. -/
def Match.size (found : Match) : Nat :=
  found.markCount + 1

/-- `smatch::operator[]` as a string; a group that took no part is empty. -/
def Match.get (found : Match) : Nat → List Char
  | 0 => found.text
  | index + 1 => (found.captures (index + 1)).getD []

/-- `std::regex_match`: the first path that consumes the whole text. -/
def Compiled.regexMatch (pattern : Compiled) (text : List Char) :
    Option Match :=
  ((pattern.ast.paths (.start text)).find? fun last => last.rest.isEmpty).map
    fun last => ⟨text, pattern.markCount, last.captures⟩

/-- A text cut up by a search: characters outside any match, and matches. -/
inductive Segment where
  | char (c : Char)
  | found (found : Match)

/-- The walk of `std::sregex_iterator`: the leftmost match, then on from its
end.  `skip` counts characters that belong to the last match already.  A match
of the empty text is passed over. -/
def Compiled.segments (pattern : Compiled) :
    List Char → Nat → List Char → List Segment
  | _, _, [] => []
  | before, skip + 1, c :: rest => pattern.segments (c :: before) skip rest
  | before, 0, c :: rest =>
      let cursor : Cursor := ⟨before, c :: rest, fun _ => none⟩
      match (pattern.ast.paths cursor).head? with
      | none => .char c :: pattern.segments (c :: before) 0 rest
      | some last =>
          match cursor.textTo last with
          | [] => .char c :: pattern.segments (c :: before) 0 rest
          | text@(_ :: tail) =>
              .found ⟨text, pattern.markCount, last.captures⟩ ::
                pattern.segments (c :: before) tail.length rest

/-- The matches `std::sregex_iterator` runs through. -/
def Compiled.regexIterator (pattern : Compiled) (text : List Char) :
    List Match :=
  (pattern.segments [] 0 text).filterMap fun
    | .char _ => none
    | .found found => some found

/-- `std::regex_replace` with a format that holds no `$`. -/
def Compiled.regexReplace (pattern : Compiled) (text format : List Char) :
    List Char :=
  (pattern.segments [] 0 text).flatMap fun
    | .char c => [c]
    | .found _ => format

/-- The text a segment covers. -/
def Segment.text : Segment → List Char
  | .char c => [c]
  | .found its => its.text

/-- A search covers the text. -/
theorem Compiled.segments_text (pattern : Compiled) {text : List Char} :
    ∀ (before : List Char) (skip : Nat),
      (pattern.segments before skip text).flatMap Segment.text =
        text.drop skip := by
  induction text with
  | nil => intro before skip; rw [segments, List.drop_nil]; rfl
  | cons c rest ih =>
      intro before skip
      cases skip with
      | succ skip => rw [segments, ih, List.drop_succ_cons]
      | zero =>
          rw [segments]
          cases hhead : (pattern.ast.paths ⟨before, c :: rest,
              fun _ => none⟩).head? with
          | none => exact congrArg (c :: ·) (ih _ 0)
          | some last =>
              simp only
              cases hcut : Cursor.textTo ⟨before, c :: rest, fun _ => none⟩
                  last with
              | nil => exact congrArg (c :: ·) (ih _ 0)
              | cons first tail =>
                  have hleading : first :: tail <+: c :: rest := by
                    rw [← hcut]
                    exact List.take_prefix _ _
                  change (first :: tail) ++ List.flatMap _ _ = _
                  rw [ih]
                  exact List.prefix_iff_eq_append.mp hleading

/-- A match that a search finds is a path of the pattern. -/
theorem Compiled.mem_segments_found {pattern : Compiled} {text : List Char}
    {found : Match} :
    ∀ {before : List Char} {skip : Nat},
      .found found ∈ pattern.segments before skip text →
      ∃ cursor, ∃ last ∈ pattern.ast.paths cursor,
        found = ⟨cursor.textTo last, pattern.markCount, last.captures⟩ := by
  induction text with
  | nil => intro before skip hmem; rw [segments] at hmem; cases hmem
  | cons c rest ih =>
      intro before skip hmem
      cases skip with
      | succ skip => rw [segments] at hmem; exact ih hmem
      | zero =>
          rw [segments] at hmem
          cases hhead : (pattern.ast.paths ⟨before, c :: rest,
              fun _ => none⟩).head? with
          | none =>
              rw [hhead] at hmem
              exact ih (by simpa using hmem)
          | some last =>
              rw [hhead] at hmem
              simp only at hmem
              cases hcut : Cursor.textTo ⟨before, c :: rest, fun _ => none⟩
                  last with
              | nil =>
                  rw [hcut] at hmem
                  exact ih (by simpa using hmem)
              | cons first tail =>
                  rw [hcut] at hmem
                  rcases List.mem_cons.mp hmem with hfound | hmem
                  · refine ⟨_, last, List.mem_of_head? hhead, ?_⟩
                    rw [hcut]
                    exact Segment.found.inj hfound
                  · exact ih hmem

@[simp] theorem mem_paths_empty {cursor last : Cursor} :
    last ∈ Ast.empty.paths cursor ↔ last = cursor := by
  simp [Ast.paths]

@[simp] theorem mem_paths_set {chars : CharSet} {cursor last : Cursor} :
    last ∈ (Ast.set chars).paths cursor ↔
      ∃ c tail, cursor.rest = c :: tail ∧ chars.test c = true ∧
        last = cursor.skip 1 := by
  unfold Ast.paths
  cases hrest : cursor.rest with
  | nil => simp
  | cons c tail =>
      by_cases htest : chars.test c = true
      · simp [htest]
      · simp [htest]

@[simp] theorem mem_paths_lineBegin {cursor last : Cursor} :
    last ∈ Ast.lineBegin.paths cursor ↔
      cursor.before = [] ∧ last = cursor := by
  by_cases hbefore : cursor.before = [] <;> simp [Ast.paths, hbefore]

@[simp] theorem mem_paths_lineEnd {cursor last : Cursor} :
    last ∈ Ast.lineEnd.paths cursor ↔ cursor.rest = [] ∧ last = cursor := by
  by_cases hrest : cursor.rest = [] <;> simp [Ast.paths, hrest]

@[simp] theorem mem_paths_seq {first second : Ast} {cursor last : Cursor} :
    last ∈ (Ast.seq first second).paths cursor ↔
      ∃ next ∈ first.paths cursor, last ∈ second.paths next := by
  simp [Ast.paths]

@[simp] theorem mem_paths_group {index : Nat} {body : Ast}
    {cursor last : Cursor} :
    last ∈ (Ast.group index body).paths cursor ↔
      ∃ next ∈ body.paths cursor,
        last = next.capture index (cursor.textTo next) := by
  simp [Ast.paths, eq_comm]

@[simp] theorem Cursor.clear_nil (cursor : Cursor) : cursor.clear [] = cursor := by
  simp [clear]

/-- A path through an unbounded repetition makes one more round or, once `min`
is used up, stops. -/
theorem mem_repPaths_succ {body : Cursor → List Cursor} {groups : List Nat}
    {greedy : Bool} {fuel min : Nat} {cursor last : Cursor} :
    last ∈ repPaths body groups greedy (fuel + 1) min none cursor ↔
      (∃ next ∈ body (cursor.clear groups),
        ¬ (min = 0 ∧ next.rest.length = cursor.rest.length) ∧
        last ∈ repPaths body groups greedy fuel (min - 1) none next) ∨
      (min = 0 ∧ last = cursor) := by
  rw [repPaths, if_neg (by simp)]
  by_cases hmin : min = 0
  · cases greedy
    · simp [hmin, or_comm]
    · simp [hmin]
  · simp [hmin]

/-- The rounds of an unbounded repetition of one character class take every
number of characters that `min` and the class allow. -/
theorem mem_repPaths_set {chars : CharSet} {greedy : Bool} {fuel : Nat} :
    ∀ {min : Nat} {cursor last : Cursor},
      min + cursor.rest.length < fuel →
      (last ∈ repPaths (fun next => (Ast.set chars).paths next) [] greedy
          fuel min none cursor ↔
        ∃ n, min ≤ n ∧ n ≤ cursor.rest.length ∧
          (∀ c ∈ cursor.rest.take n, chars.test c = true) ∧
          last = cursor.skip n) := by
  induction fuel with
  | zero => intro min cursor last hfuel; omega
  | succ fuel ih =>
      intro min cursor last hfuel
      rw [mem_repPaths_succ]
      simp only [Cursor.clear_nil, mem_paths_set]
      constructor
      · rintro (⟨next, ⟨c, tail, hrest, htest, rfl⟩, _, hlast⟩ | ⟨rfl, rfl⟩)
        · have hlength : tail.length + 1 = cursor.rest.length := by simp [hrest]
          rw [ih (by simp [hrest]; omega)] at hlast
          obtain ⟨n, hmin, hn, hall, rfl⟩ := hlast
          simp only [Cursor.skip_rest, hrest, List.drop_one, List.tail_cons]
            at hn hall
          refine ⟨n + 1, by omega, by omega, ?_, ?_⟩
          · simpa [hrest, htest] using hall
          · rw [Cursor.skip_skip, Nat.add_comm]
        · exact ⟨0, Nat.le_refl 0, Nat.zero_le _, by simp, by simp⟩
      · rintro ⟨n, hmin, hn, hall, rfl⟩
        cases n with
        | zero => exact Or.inr ⟨Nat.le_zero.mp hmin, by simp⟩
        | succ n =>
            cases hrest : cursor.rest with
            | nil => simp [hrest] at hn
            | cons c tail =>
                simp only [hrest, List.length_cons, List.take_succ_cons,
                  List.forall_mem_cons] at hn hall
                refine Or.inl ⟨cursor.skip 1, ⟨c, tail, rfl, hall.1, rfl⟩,
                  by simp [hrest], ?_⟩
                rw [ih (by simp [hrest]; simp [hrest] at hfuel; omega)]
                refine ⟨n, by omega, by simp [hrest]; omega, ?_, ?_⟩
                · simpa [hrest] using hall.2
                · rw [Cursor.skip_skip, Nat.add_comm]

@[simp] theorem mem_paths_rep_set {chars : CharSet} {greedy : Bool} {min : Nat}
    {cursor last : Cursor} :
    last ∈ (Ast.rep min none greedy (.set chars)).paths cursor ↔
      ∃ n, min ≤ n ∧ n ≤ cursor.rest.length ∧
        (∀ c ∈ cursor.rest.take n, chars.test c = true) ∧
        last = cursor.skip n := by
  exact mem_repPaths_set (Nat.lt_succ_self _)

/-- Literal text in front of a tree. -/
def Ast.literal (text : List Char) (tail : Ast) : Ast :=
  text.foldr (fun c tree => .seq (.set (.single c)) tree) tail

@[simp] theorem CharSet.single_test (a c : Char) :
    (CharSet.single a).test c = true ↔ c = a := by
  simp [single, test, ClassItem.test, eq_comm]

theorem mem_paths_literal {text : List Char} {tail : Ast} :
    ∀ {cursor last : Cursor},
      last ∈ (Ast.literal text tail).paths cursor ↔
        text <+: cursor.rest ∧ last ∈ tail.paths (cursor.skip text.length) := by
  induction text with
  | nil => simp [Ast.literal]
  | cons a text ih =>
      intro cursor last
      change last ∈ (Ast.seq (.set (.single a)) (.literal text tail)).paths
        cursor ↔ _
      simp only [mem_paths_seq, mem_paths_set, CharSet.single_test]
      constructor
      · rintro ⟨next, ⟨c, rest, hrest, rfl, rfl⟩, hlast⟩
        rw [ih] at hlast
        simpa [hrest, Nat.add_comm 1] using hlast
      · rintro ⟨⟨rest, hrest⟩, hlast⟩
        refine ⟨cursor.skip 1, ⟨a, text ++ rest, hrest.symm, rfl, rfl⟩, ?_⟩
        rw [ih]
        simpa [← hrest, Nat.add_comm 1] using hlast

theorem Compiled.regexMatch_eq_none_iff {pattern : Compiled}
    {text : List Char} :
    pattern.regexMatch text = none ↔
      ∀ last ∈ pattern.ast.paths (.start text), last.rest ≠ [] := by
  simp [regexMatch]

theorem Compiled.markCount_of_regexMatch {pattern : Compiled}
    {text : List Char} {found : Match}
    (hmatch : pattern.regexMatch text = some found) :
    found.markCount = pattern.markCount := by
  simp only [regexMatch, Option.map_eq_some_iff] at hmatch
  obtain ⟨last, -, rfl⟩ := hmatch
  rfl

/-- A pattern that takes the text on one path matches by that path. -/
theorem Compiled.regexMatch_of_paths {pattern : Compiled} {text : List Char}
    {Holds : Prop} [Decidable Holds] {only : Cursor}
    (hpaths : ∀ last, last ∈ pattern.ast.paths (.start text) ↔
      Holds ∧ last = only)
    (hrest : Holds → only.rest = []) :
    pattern.regexMatch text =
      if Holds then some ⟨text, pattern.markCount, only.captures⟩
      else none := by
  split
  · next hholds =>
      unfold regexMatch
      cases hfind : (pattern.ast.paths (.start text)).find?
          fun last => last.rest.isEmpty with
      | none =>
          have hnone := List.find?_eq_none.mp hfind only
            ((hpaths only).mpr ⟨hholds, rfl⟩)
          simp [hrest hholds] at hnone
      | some last =>
          have hmem := List.mem_of_find?_eq_some hfind
          rw [((hpaths last).mp hmem).2, Option.map_some]
  · next hnot =>
      rw [regexMatch_eq_none_iff]
      intro last hlast
      exact absurd ((hpaths last).mp hlast).1 hnot

end Regex
