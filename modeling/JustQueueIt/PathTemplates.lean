/-
The templates that paths are.  `AddRouteImpl` scans a path for placeholders
twice and hands the rest to the regular expression unescaped: where that rest
has no syntax characters, the compiled pattern is the pattern of the template.
-/
import JustQueueIt.RegexPieces
import JustQueueIt.RestRouter

namespace JustQueueIt

namespace Rest

open Regex (Piece)

/-- A character of a path, or a placeholder with its name. -/
abbrev PathPiece := Piece Str

def pieceOf : Regex.Segment → PathPiece
  | .char c => .char c
  | .found found => .slot (found.get 1)

/-- A path as literal characters and placeholders. -/
def pathPieces (path : Str) : List PathPiece :=
  (paramRegex.segments [] 0 path).map pieceOf

/-- A piece as it stands in the path. -/
def pieceText : PathPiece → Str
  | .char c => [c]
  | .slot name => '{' :: ':' :: name ++ ['}']

/-- A piece as it stands in the regular expression. -/
def pieceRegexText : PathPiece → Str
  | .char c => [c]
  | .slot _ => placeholderGroup

/-- A path whose literal characters stand for themselves in a regular
expression. -/
def PlainPath (path : Str) : Prop :=
  ∀ c ∈ Piece.literals (pathPieces path), c ∉ Regex.syntaxCharacters

instance (path : Str) : Decidable (PlainPath path) :=
  decidable_of_iff ((Piece.literals (pathPieces path)).all
      fun c => !Regex.syntaxCharacters.elem c) (by simp [PlainPath])

/-- A group around a word takes some characters and captures them. -/
theorem of_mem_paths_word {index : Nat} {first more : Regex.CharSet}
    {cursor last : Regex.Cursor}
    (hlast : last ∈ (Regex.Ast.group index (.seq (.set first)
      (.seq (.rep 0 none true (.set more)) .empty))).paths cursor) :
    ∃ n, last =
      (cursor.skip n).capture index (cursor.rest.take n) := by
  simp only [Regex.mem_paths_group, Regex.mem_paths_seq, Regex.mem_paths_set,
    Regex.mem_paths_rep_set, Regex.mem_paths_empty] at hlast
  obtain ⟨_, ⟨_, ⟨c, tail, hrest, -, rfl⟩, _, ⟨n, -, hn, -, rfl⟩, rfl⟩, rfl⟩ :=
    hlast
  have hbound : 1 + n ≤ cursor.rest.length := by
    rw [Regex.Cursor.skip_rest, List.length_drop] at hn
    have hpos : 0 < cursor.rest.length := by
      rw [hrest]
      exact Nat.succ_pos _
    omega
  refine ⟨1 + n, ?_⟩
  rw [Regex.Cursor.skip_skip, Regex.Cursor.textTo_skip _ hbound]

/-- A placeholder that is found is its name between `{:` and `}`. -/
theorem textTo_paramRegex {cursor last : Regex.Cursor}
    (hlast : last ∈ paramRegex.ast.paths cursor) :
    cursor.textTo last =
      '{' :: ':' :: (last.captures 1).getD [] ++ ['}'] := by
  rw [paramRegex, Regex.mem_paths_literal, Regex.mem_paths_seq] at hlast
  obtain ⟨⟨text, htext⟩, next, hword, hlast⟩ := hlast
  obtain ⟨n, rfl⟩ := of_mem_paths_word hword
  simp only [Regex.mem_paths_seq, Regex.mem_paths_set,
    Regex.CharSet.single_test, Regex.mem_paths_empty] at hlast
  obtain ⟨_, ⟨c, after, hclose, rfl, rfl⟩, rfl⟩ := hlast
  have hrest : (cursor.skip ['{', ':'].length).rest = text := by
    rw [Regex.Cursor.skip_rest, ← htext, List.drop_left' rfl]
  rw [Regex.Cursor.capture_rest, Regex.Cursor.skip_rest, hrest] at hclose
  rw [hrest]
  have hsplit : cursor.rest =
      ('{' :: ':' :: text.take n ++ ['}']) ++ after := by
    rw [← htext]
    change '{' :: ':' :: text = '{' :: ':' :: (text.take n ++ ['}'] ++ after)
    rw [List.append_assoc, List.singleton_append, ← hclose,
      List.take_append_drop]
  rw [Regex.Cursor.textTo, Regex.Cursor.skip_rest, Regex.Cursor.capture_rest,
    Regex.Cursor.skip_rest, hrest, hclose, hsplit, List.length_append]
  change ((('{' :: ':' :: text.take n ++ ['}']) ++ after).take
    (_ + after.length - after.length)) = '{' :: ':' :: text.take n ++ ['}']
  rw [Nat.add_sub_cancel, List.take_left' rfl]

theorem pathPieces_text (path : Str) :
    (pathPieces path).flatMap pieceText = path := by
  have hpieces : ∀ segment ∈ paramRegex.segments [] 0 path,
      pieceText (pieceOf segment) = segment.text := by
    intro segment hsegment
    cases segment with
    | char c => rfl
    | found found =>
        obtain ⟨cursor, last, hlast, rfl⟩ :=
          Regex.Compiled.mem_segments_found hsegment
        exact (textTo_paramRegex hlast).symm
  have htext : (paramRegex.segments [] 0 path).flatMap Regex.Segment.text =
      path.drop 0 := paramRegex.segments_text [] 0
  rw [pathPieces, List.flatMap_map]
  exact (List.flatMap_congr hpieces).trans htext

theorem labels_pathPieces (path : Str) :
    Piece.labels (pathPieces path) = parameterNames path := by
  rw [pathPieces, parameterNames, Regex.Compiled.regexIterator]
  induction paramRegex.segments [] 0 path with
  | nil => rfl
  | cons segment segments ih =>
      cases segment with
      | char c => exact ih
      | found found => exact congrArg (found.get 1 :: ·) ih

theorem regexReplace_eq (path : Str) :
    paramRegex.regexReplace path placeholderGroup =
      (pathPieces path).flatMap pieceRegexText := by
  rw [pathPieces, Regex.Compiled.regexReplace]
  induction paramRegex.segments [] 0 path with
  | nil => rfl
  | cons segment segments ih =>
      cases segment with
      | char c => exact congrArg (c :: ·) ih
      | found found => exact congrArg (placeholderGroup ++ ·) ih

/-- The tokens of a piece whose character stands for itself. -/
def pieceTokens : PathPiece → List Regex.Token
  | .char c => [.atom (.set (.single c))]
  | .slot _ => [.openCapture, .atom (.set ⟨true, [.char '/']⟩),
      .quantifier 1 none true, .close]

/-- The scanner reads a placeholder's group as its own four tokens. -/
theorem lex_placeholderGroup (name rest : Str) :
    Regex.lex 0 (placeholderGroup ++ rest) =
      (Regex.lex 0 rest).map (pieceTokens (.slot name) ++ ·) := by
  have hopen : Regex.lexToken '('
      ('[' :: '^' :: '/' :: ']' :: '+' :: ')' :: rest) =
        .ok (.openCapture, 0) := rfl
  have hset : Regex.lexToken '[' ('^' :: '/' :: ']' :: '+' :: ')' :: rest) =
      .ok (.atom (.set ⟨true, [.char '/']⟩), 3) := rfl
  have hplus : Regex.lexToken '+' (')' :: rest) =
      .ok (.quantifier 1 none true, 0) := rfl
  have hclose : Regex.lexToken ')' rest = .ok (.close, 0) := rfl
  change Regex.lex 0 ('(' :: '[' :: '^' :: '/' :: ']' :: '+' :: ')' :: rest) = _
  rw [Regex.lex_of_lexToken hopen, Regex.lex_of_lexToken hset]
  change ((Regex.lex 0 ('+' :: ')' :: rest)).map _).map _ = _
  rw [Regex.lex_of_lexToken hplus, Regex.lex_of_lexToken hclose]
  cases Regex.lex 0 rest with
  | error e => rfl
  | ok tokens => rfl

theorem lex_pieces {pieces : List PathPiece}
    (hplain : ∀ c ∈ Piece.literals pieces, c ∉ Regex.syntaxCharacters) :
    Regex.lex 0 (pieces.flatMap pieceRegexText ++ ['$']) =
      .ok (pieces.flatMap pieceTokens ++ [.assertion .lineEnd]) := by
  induction pieces with
  | nil => rfl
  | cons piece pieces ih =>
      cases piece with
      | char c =>
          have hchar := hplain c (by simp [Piece.literals])
          have hrest := ih fun other hother =>
            hplain other (List.mem_cons_of_mem c hother)
          change Regex.lex 0 (c :: (pieces.flatMap pieceRegexText ++ ['$'])) = _
          rw [Regex.lex_of_lexToken (Regex.lexToken_plain hchar _), hrest]
          rfl
      | slot name =>
          rw [List.flatMap_cons, List.append_assoc, pieceRegexText,
            lex_placeholderGroup name, ih hplain, List.flatMap_cons,
            List.append_assoc]
          rfl

/-- The terms the parser makes of the pieces, in order. -/
def pieceTerms : Nat → List PathPiece → List Regex.Ast
  | _, [] => []
  | index, .char c :: pieces => .set (.single c) :: pieceTerms index pieces
  | index, .slot _ :: pieces =>
      .segment (index + 1) '/' :: pieceTerms (index + 1) pieces

theorem tree_eq_foldr (index : Nat) (pieces : List PathPiece)
    (tail : Regex.Ast) :
    Piece.tree '/' index pieces tail =
      (pieceTerms index pieces).foldr .seq tail := by
  induction pieces generalizing index with
  | nil => rfl
  | cons piece pieces ih =>
      cases piece with
      | char c => exact congrArg (Regex.Ast.seq _) (ih index)
      | slot name => exact congrArg (Regex.Ast.seq _) (ih (index + 1))

/-- The parser's state after the pieces. -/
theorem foldlM_pieceTokens (pieces : List PathPiece) :
    ∀ state : Regex.ParseState, ∃ quantifiable,
      (pieces.flatMap pieceTokens).foldlM Regex.ParseState.step state =
        .ok ⟨⟨state.level.alts,
            (pieceTerms state.groups pieces).reverse ++ state.level.terms⟩,
          state.enclosing, state.groups + (Piece.labels pieces).length,
          quantifiable⟩ := by
  induction pieces with
  | nil => exact fun state => ⟨state.quantifiable, rfl⟩
  | cons piece pieces ih =>
      intro state
      cases piece with
      | char c =>
          obtain ⟨quantifiable, hrest⟩ :=
            ih (state.push (.set (.single c)) true)
          refine ⟨quantifiable, ?_⟩
          change (pieces.flatMap pieceTokens).foldlM Regex.ParseState.step
            (state.push (.set (.single c)) true) = _
          rw [hrest]
          simp [pieceTerms, Piece.labels, Regex.ParseState.push]
      | slot name =>
          obtain ⟨quantifiable, hrest⟩ :=
            ih ({ state with groups := state.groups + 1 }.push
              (.segment (state.groups + 1) '/') true)
          refine ⟨quantifiable, ?_⟩
          change (pieces.flatMap pieceTokens).foldlM Regex.ParseState.step
            ({ state with groups := state.groups + 1 }.push
              (.segment (state.groups + 1) '/') true) = _
          rw [hrest]
          simp [pieceTerms, Piece.labels, Regex.ParseState.push, Nat.add_assoc,
            Nat.add_comm 1]

/-- The pattern of a template in front of which stands `^` and after which
stands `$`. -/
theorem compile_pieces {pieces : List PathPiece}
    (hplain : ∀ c ∈ Piece.literals pieces, c ∉ Regex.syntaxCharacters) :
    Regex.compile ('^' :: pieces.flatMap pieceRegexText ++ ['$']) =
      .ok ⟨.anchored (Piece.tree '/' 0 pieces),
        (Piece.labels pieces).length⟩ := by
  have hbegin : Regex.lexToken '^' (pieces.flatMap pieceRegexText ++ ['$']) =
      .ok (.assertion .lineBegin, 0) := rfl
  obtain ⟨quantifiable, hfold⟩ := foldlM_pieceTokens pieces
    (Regex.ParseState.initial.push .lineBegin false)
  rw [Regex.compile, List.cons_append, Regex.lex_of_lexToken hbegin,
    lex_pieces hplain]
  change (List.foldlM Regex.ParseState.step
    (Regex.ParseState.initial.push .lineBegin false)
    (pieces.flatMap pieceTokens ++ [.assertion .lineEnd]) >>= _) = _
  rw [List.foldlM_append, hfold]
  have htree : Regex.Level.alternative
      ⟨[], .lineEnd :: ((pieceTerms 0 pieces).reverse ++ [.lineBegin])⟩ =
        .anchored (Piece.tree '/' 0 pieces) := by
    rw [Regex.Level.alternative, List.foldl_cons, List.foldl_append,
      List.foldl_reverse, ← tree_eq_foldr]
    rfl
  have hgroups : (Regex.ParseState.initial.push .lineBegin false).groups +
      (Piece.labels pieces).length = (Piece.labels pieces).length :=
    Nat.zero_add _
  rw [← htree, hgroups]
  rfl

theorem compilePath_of_plainPath {path : Str} (hplain : PlainPath path) :
    compilePath path = .ok ⟨.anchored (Piece.tree '/' 0 (pathPieces path)),
      (parameterNames path).length⟩ := by
  rw [compilePath, regexReplace_eq, regex, compile_pieces hplain,
    labels_pathPieces]

/-- The pattern of a path matches the urls that put a non-empty text without
`/` in place of each placeholder. -/
def MatchesLiterally (path : Str) : Prop :=
  ∀ pattern, compilePath path = .ok pattern → ∀ url, '?' ∉ url →
    (pattern.regexMatch url ≠ none ↔
      ∃ values, Piece.Fits '/' (pathPieces path) values ∧
        url = Piece.fill (pathPieces path) values)

/-- A path is cut into literal characters and placeholders; if none of the
characters is special in a regular expression, the path is accepted and
matches literally outside its placeholders. -/
theorem plainPath_matchesLiterally (path : Str) (hplain : PlainPath path) :
    (pathPieces path).flatMap pieceText = path ∧
    (∃ pattern, compilePath path = .ok pattern) ∧ MatchesLiterally path := by
  refine ⟨pathPieces_text path, ⟨_, compilePath_of_plainPath hplain⟩, ?_⟩
  intro pattern hpattern url _
  rw [compilePath_of_plainPath hplain] at hpattern
  obtain rfl := Except.ok.inj hpattern
  constructor
  · intro hmatch
    obtain ⟨found, hfound⟩ := Option.ne_none_iff_exists'.mp hmatch
    obtain ⟨values, hfits, hurl, -⟩ := Piece.exists_values_of_regexMatch hfound
    exact ⟨values, hfits, hurl⟩
  · rintro ⟨values, hfits, rfl⟩
    exact Piece.regexMatch_fill_ne_none hfits _

/-- `/a/{:id}`. -/
theorem plainPath_matchesLiterally_item :
    (pathPieces "/a/{:id}".toList).flatMap pieceText =
      "/a/{:id}".toList ∧
    (∃ pattern, compilePath "/a/{:id}".toList = .ok pattern) ∧
    MatchesLiterally "/a/{:id}".toList :=
  plainPath_matchesLiterally "/a/{:id}".toList (by decide)

/-- The dot of `/a.b` matches any character. -/
theorem dottedPath_not_matchesLiterally :
    ¬ ∀ path, path.head? = some '/' → MatchesLiterally path := by
  intro hall
  have hmatches := hall "/a.b".toList rfl _ rfl "/axb".toList (by decide)
  obtain ⟨values, hfits, hurl⟩ := hmatches.mp (by decide)
  obtain rfl := List.length_eq_zero_iff.mp hfits.length
  cases hurl

end Rest

end JustQueueIt
