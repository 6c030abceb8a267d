/-
The groups of a path.  The names come from one scan of the path and the groups
from the regular expression its replacement is compiled to: they agree exactly
when no token of literal text opens a group or runs into a placeholder.
-/
import JustQueueIt.PathParams
import JustQueueIt.PathTemplates
import JustQueueIt.RegexGroups

namespace JustQueueIt

namespace Rest

open Regex (Piece)

variable {m : Type → Type}

/-- The text `AddRouteImpl` compiles. -/
def fullRegexText (path : Str) : Str :=
  '^' :: paramRegex.regexReplace path placeholderGroup ++ ['$']

/-- Where the groups of the placeholders stand in the regular expression of
pieces that begins at `position`. -/
def placeholderStarts : Nat → List PathPiece → List Nat
  | _, [] => []
  | position, .char _ :: pieces => placeholderStarts (position + 1) pieces
  | position, .slot _ :: pieces =>
      position :: placeholderStarts (position + placeholderGroup.length) pieces

/-- Reading the regular expression of the pieces token by token, no literal
text opens a capture group or takes some of a placeholder with it.  `skip`
counts characters that belong to the last token already. -/
def readsApart : Nat → List PathPiece → Bool
  | _, [] => true
  | skip + 1, .char _ :: pieces => readsApart skip pieces
  | _ + 1, .slot _ :: _ => false
  | 0, .slot _ :: pieces => readsApart 0 pieces
  | 0, .char c :: pieces =>
      match Regex.lexToken c (pieces.flatMap pieceRegexText ++ ['$']) with
      | .error _ => false
      | .ok (token, skip) => token ≠ .openCapture && readsApart skip pieces

/-- The literal text of a path leaves its placeholders alone. -/
def ReadsApart (path : Str) : Prop :=
  readsApart 0 (pathPieces path) = true

instance (path : Str) : Decidable (ReadsApart path) :=
  inferInstanceAs (Decidable (_ = true))

example : ReadsApart "/a(?:b)/{:id}".toList := by decide

example : ¬ ReadsApart "/(\\{:id}".toList := by decide

/-- A match has one group for each placeholder, and captures for each
placeholder what the group put in its place captures. -/
structure RightGroups (path : Str) (found : Regex.Match) : Prop where
  size : found.size = (parameterNames path).length + 1
  captures : ∀ (i start : Nat),
    (placeholderStarts 1 (pathPieces path))[i]? = some start →
    found.groupText (fullRegexText path) start = some (found.get (i + 1))

theorem le_of_mem_placeholderStarts {pieces : List PathPiece} :
    ∀ {position start : Nat}, start ∈ placeholderStarts position pieces →
      position ≤ start := by
  induction pieces with
  | nil =>
      intro position start hstart
      cases hstart
  | cons piece pieces ih =>
      intro position start hstart
      cases piece with
      | char c => exact Nat.le_of_succ_le (ih hstart)
      | slot name =>
          rcases List.mem_cons.mp hstart with rfl | hlater
          · exact Nat.le_refl _
          · exact (Nat.le_add_right _ _).trans (ih hlater)

theorem pairwise_placeholderStarts {pieces : List PathPiece} :
    ∀ {position : Nat},
      (placeholderStarts position pieces).Pairwise (· < ·) := by
  induction pieces with
  | nil => exact List.Pairwise.nil
  | cons piece pieces ih =>
      intro position
      cases piece with
      | char c => exact ih
      | slot name =>
          refine List.Pairwise.cons ?_ ih
          intro start hstart
          have hle := le_of_mem_placeholderStarts hstart
          have hlength : placeholderGroup.length = 7 := rfl
          omega

theorem length_placeholderStarts (position : Nat) (pieces : List PathPiece) :
    (placeholderStarts position pieces).length =
      (Piece.labels pieces).length := by
  induction pieces generalizing position with
  | nil => rfl
  | cons piece pieces ih =>
      cases piece with
      | char c => exact ih _
      | slot name => exact congrArg (· + 1) (ih _)

/-- A placeholder's group is the first one where it begins, and the text after
it is read on its own. -/
theorem captureStarts_placeholderGroup (position : Nat) (rest : Str) :
    Regex.captureStarts position 0 (placeholderGroup ++ rest) =
      position :: Regex.captureStarts (position + placeholderGroup.length) 0
        rest := by
  have hopen : Regex.lexToken '('
      ('[' :: '^' :: '/' :: ']' :: '+' :: ')' :: rest) =
        .ok (.openCapture, 0) := rfl
  have hset : Regex.lexToken '[' ('^' :: '/' :: ']' :: '+' :: ')' :: rest) =
      .ok (.atom (.set ⟨true, [.char '/']⟩), 3) := rfl
  have hplus : Regex.lexToken '+' (')' :: rest) =
      .ok (.quantifier 1 none true, 0) := rfl
  have hclose : Regex.lexToken ')' rest = .ok (.close, 0) := rfl
  change Regex.captureStarts position 0
    ('(' :: '[' :: '^' :: '/' :: ']' :: '+' :: ')' :: rest) = _
  rw [Regex.captureStarts_of_open hopen,
    Regex.captureStarts_of_ne_open hset (by simp)]
  change _ :: Regex.captureStarts _ 0 ('+' :: ')' :: rest) = _
  rw [Regex.captureStarts_of_ne_open hplus (by simp),
    Regex.captureStarts_of_ne_open hclose (by simp)]
  rfl

/-- Text after a placeholder is scanned on its own. -/
theorem exists_lex_of_placeholderGroup {rest : Str}
    {tokens : List Regex.Token}
    (hlex : Regex.lex 0 (placeholderGroup ++ rest) = .ok tokens) :
    ∃ later, Regex.lex 0 rest = .ok later := by
  rw [lex_placeholderGroup []] at hlex
  cases hrest : Regex.lex 0 rest with
  | error e =>
      rw [hrest] at hlex
      cases hlex
  | ok later => exact ⟨later, rfl⟩

/-- A token that reaches into a placeholder hides its parenthesis. -/
theorem captureStarts_ne_of_skip (position skip : Nat) (text : Str)
    (later : List Nat) :
    Regex.captureStarts position (skip + 1) text ≠ position :: later := by
  intro hsame
  have hmem : position ∈ Regex.captureStarts position (skip + 1) text := by
    rw [hsame]
    exact List.mem_cons_self
  have hle := Regex.le_of_mem_captureStarts hmem
  omega

/-- A group opened by a literal character is no placeholder's. -/
theorem placeholderStarts_ne (position : Nat) (pieces : List PathPiece)
    (later : List Nat) :
    position :: later ≠ placeholderStarts (position + 1) pieces := by
  intro hsame
  have hmem : position ∈ placeholderStarts (position + 1) pieces := by
    rw [← hsame]
    exact List.mem_cons_self
  have hle := le_of_mem_placeholderStarts hmem
  omega

/-- The groups stand where the placeholders stand exactly when the literal
text leaves them alone. -/
theorem captureStarts_pieces {pieces : List PathPiece} :
    ∀ {position skip : Nat} {tokens : List Regex.Token},
      Regex.lex skip (pieces.flatMap pieceRegexText ++ ['$']) = .ok tokens →
      (Regex.captureStarts position skip
          (pieces.flatMap pieceRegexText ++ ['$']) =
        placeholderStarts position pieces ↔ readsApart skip pieces = true) := by
  induction pieces with
  | nil =>
      intro position skip tokens _
      cases skip with
      | zero => exact ⟨fun _ => rfl, fun _ => rfl⟩
      | succ skip =>
          refine ⟨fun _ => rfl, fun _ => ?_⟩
          change Regex.captureStarts (position + 1) skip [] = []
          rw [Regex.captureStarts]
  | cons piece pieces ih =>
      intro position skip tokens hlex
      cases piece with
      | slot name =>
          rw [List.flatMap_cons, List.append_assoc, pieceRegexText] at hlex ⊢
          cases skip with
          | zero =>
              obtain ⟨later, hrest⟩ := exists_lex_of_placeholderGroup hlex
              rw [captureStarts_placeholderGroup, placeholderStarts,
                List.cons_inj_right]
              exact ih hrest
          | succ skip =>
              exact iff_of_false (captureStarts_ne_of_skip _ _ _ _)
                Bool.false_ne_true
      | char c =>
          cases skip with
          | succ skip => exact ih hlex
          | zero =>
              change Regex.lex 0
                (c :: (pieces.flatMap pieceRegexText ++ ['$'])) = _ at hlex
              change Regex.captureStarts position 0
                (c :: (pieces.flatMap pieceRegexText ++ ['$'])) =
                  placeholderStarts (position + 1) pieces ↔ _
              obtain ⟨token, skip, later, htoken, hrest, -⟩ :=
                Regex.exists_of_lex hlex
              rw [readsApart, htoken]
              by_cases hopen : token = .openCapture
              · subst hopen
                rw [Regex.captureStarts_of_open htoken]
                exact iff_of_false (placeholderStarts_ne _ _ _)
                  Bool.false_ne_true
              · rw [Regex.captureStarts_of_ne_open htoken hopen, ih hrest]
                simp [hopen]

theorem lex_of_compilePath {path : Str} {pattern : Regex.Compiled}
    (hpattern : compilePath path = .ok pattern) :
    Regex.compile (fullRegexText path) = .ok pattern := by
  rw [compilePath, regex] at hpattern
  rw [fullRegexText]
  split at hpattern
  · rename_i compiled hcompile
    rw [hcompile, Except.ok.inj hpattern]
  · cases hpattern

theorem readsApart_iff {path : Str} {pattern : Regex.Compiled}
    (hpattern : compilePath path = .ok pattern) :
    Regex.captureStarts 0 0 (fullRegexText path) =
        placeholderStarts 1 (pathPieces path) ↔ ReadsApart path := by
  obtain ⟨tokens, -, hlex, -⟩ :=
    Regex.exists_of_compile (lex_of_compilePath hpattern)
  have hbegin : Regex.lexToken '^'
      ((pathPieces path).flatMap pieceRegexText ++ ['$']) =
        .ok (.assertion .lineBegin, 0) := rfl
  rw [fullRegexText, regexReplace_eq, List.cons_append] at hlex ⊢
  obtain ⟨token, skip, later, htoken, hrest, -⟩ := Regex.exists_of_lex hlex
  obtain ⟨rfl, rfl⟩ := Prod.mk.inj (Except.ok.inj (hbegin.symm.trans htoken))
  rw [Regex.captureStarts_of_ne_open hbegin (by simp)]
  exact captureStarts_pieces hrest

theorem size_eq_of_compilePath {path : Str} {pattern : Regex.Compiled}
    (hpattern : compilePath path = .ok pattern) {url : Str}
    {found : Regex.Match} (hfound : pattern.regexMatch url = some found) :
    found.size =
      (Regex.captureStarts 0 0 (fullRegexText path)).length + 1 := by
  rw [Regex.Match.size, Regex.Compiled.markCount_of_regexMatch hfound,
    Regex.markCount_of_compile (lex_of_compilePath hpattern)]

theorem length_placeholderStarts_path (path : Str) :
    (placeholderStarts 1 (pathPieces path)).length =
      (parameterNames path).length := by
  rw [length_placeholderStarts, labels_pathPieces]

/-- In a strictly increasing list every entry is found at its own place. -/
theorem idxOf?_of_pairwise {starts : List Nat}
    (hstarts : starts.Pairwise (· < ·)) {i start : Nat}
    (hstart : starts[i]? = some start) : starts.idxOf? start = some i := by
  obtain ⟨hi, hget⟩ := List.getElem?_eq_some_iff.mp hstart
  rw [List.idxOf?_eq_some_iff]
  refine ⟨hi, hget, fun j hj hsame => ?_⟩
  have hlt := List.pairwise_iff_getElem.mp hstarts j i (hj.trans hi) hi hj
  omega

/-- The groups of a match are right exactly when the literal text of the path
leaves its placeholders alone. -/
theorem rightGroups_iff {path : Str} {pattern : Regex.Compiled}
    (hpattern : compilePath path = .ok pattern) {url : Str}
    {found : Regex.Match} (hfound : pattern.regexMatch url = some found) :
    RightGroups path found ↔ ReadsApart path := by
  have hsize := size_eq_of_compilePath hpattern hfound
  rw [← readsApart_iff hpattern]
  constructor
  · intro hright
    have hlength := hsize.symm.trans hright.size
    have hsubset : placeholderStarts 1 (pathPieces path) ⊆
        Regex.captureStarts 0 0 (fullRegexText path) := by
      intro start hstart
      obtain ⟨i, hi⟩ := List.getElem?_of_mem hstart
      have hcapture := hright.captures i start hi
      rw [Regex.Match.groupText, Option.map_eq_some_iff] at hcapture
      obtain ⟨index, hindex, -⟩ := hcapture
      obtain ⟨hlt, hget, -⟩ := List.idxOf?_eq_some_iff.mp hindex
      exact List.mem_of_getElem hget
    have hnodup : (placeholderStarts 1 (pathPieces path)).Nodup :=
      pairwise_placeholderStarts.imp fun hlt => Nat.ne_of_lt hlt
    have hperm : (placeholderStarts 1 (pathPieces path)).Perm
        (Regex.captureStarts 0 0 (fullRegexText path)) := by
      apply (List.subperm_of_subset hnodup hsubset).perm_of_length_le
      rw [length_placeholderStarts_path]
      omega
    apply hperm.symm.eq_of_pairwise _ Regex.pairwise_captureStarts
      pairwise_placeholderStarts
    intro start other _ _ hlt hgt
    omega
  · intro hsame
    constructor
    · rw [hsize, hsame, length_placeholderStarts_path]
    · intro i start hstart
      rw [Regex.Match.groupText, hsame,
        idxOf?_of_pairwise pairwise_placeholderStarts hstart]
      rfl

/-- `Route` stops at a route only with a match whose groups are right, and the
handler gets under each name what was captured for a placeholder of that
name. -/
structure Served (order : List (RouteEntry m)) (req : Request) : Prop where
  answered : selected order req ≠ .own .internalServerError
  right : ∀ entry found,
    firstMatch (pathOf req.path) order = some (entry, found) →
      RightGroups entry.1 found
  captured : ∀ handler params, selected order req = .invoke handler params →
    ∀ entry found,
      firstMatch (pathOf req.path) order = some (entry, found) →
      ∀ name ∈ parameterNames entry.1, ∃ i start : Nat,
        (parameterNames entry.1)[i]? = some name ∧
        (placeholderStarts 1 (pathPieces entry.1))[i]? = some start ∧
        params.lookup name =
          found.groupText (fullRegexText entry.1) start

/-- The pattern of a path matches no url that a request can have. -/
def Unmatched (path : Str) : Prop :=
  ∀ pattern, compilePath path = .ok pattern →
    ∀ url, '?' ∉ url → pattern.regexMatch url = none

theorem Response.notFound_ne : notFound ≠ internalServerError := by
  intro hsame
  cases congrArg Response.statusCode hsame

theorem Response.methodNotAllowed_ne :
    methodNotAllowed ≠ internalServerError := by
  intro hsame
  cases congrArg Response.statusCode hsame

/-- A match of the right size is not answered with an internal server
error. -/
theorem RouteInfo.select_ne (route : RouteInfo m) (method : Method)
    {found : Regex.Match}
    (hsize : found.size = route.parameterNames.length + 1) (params : Params) :
    route.select method params found ≠ .own .internalServerError := by
  rw [select, if_neg (not_not_intro hsize)]
  split
  · intro hsame
    exact Response.methodNotAllowed_ne (Selection.own.inj hsame)
  · simp

/-- Where the groups of the route it stops at are right, a request is
served. -/
theorem served_of_right {registrations : List (Registration m)}
    {router : Router m} (hholds : router.Holds registrations)
    {order : List (RouteEntry m)} (horder : order.Perm router.routes.entries)
    {req : Request}
    (hright : ∀ entry found,
      firstMatch (pathOf req.path) order = some (entry, found) →
        RightGroups entry.1 found) : Served order req := by
  refine ⟨?_, hright, ?_⟩
  · rw [selected]
    cases hfirst : firstMatch (pathOf req.path) order with
    | none =>
        rw [select_of_firstMatch_none hfirst]
        intro hsame
        exact Response.notFound_ne (Selection.own.inj hsame)
    | some pair =>
        obtain ⟨entry, found⟩ := pair
        have hnames := (hholds.entry horder (firstMatch_mem hfirst).1).names
        rw [select_of_firstMatch hfirst]
        apply RouteInfo.select_ne
        rw [hnames]
        exact (hright entry found hfirst).size
  · intro handler params hselected entry found hfirst name hname
    have hnames := (hholds.entry horder (firstMatch_mem hfirst).1).names
    obtain ⟨i, hi, hlast⟩ := exists_last_getElem? hname
    have hlt : i < (placeholderStarts 1 (pathPieces entry.1)).length := by
      rw [length_placeholderStarts_path]
      exact (List.getElem?_eq_some_iff.mp hi).1
    have hstart := List.getElem?_eq_getElem hlt
    refine ⟨i, _, hi, hstart, ?_⟩
    rw [(params_of_firstMatch hselected hfirst).2, hnames,
      bindCaptures_lookup hi hlast,
      (hright entry found hfirst).captures i _ hstart]

/-- A path whose entry is visited first decides the urls it matches, so its
groups are right if all requests are served. -/
theorem readsApart_of_served {registrations : List (Registration m)}
    {router : Router m} (hholds : router.Holds registrations)
    (hserved : ∀ order : List (RouteEntry m),
      order.Perm router.routes.entries → ∀ req, Served order req)
    {each : Registration m} (heach : each ∈ registrations)
    {pattern : Regex.Compiled} (hpattern : compilePath each.path = .ok pattern)
    {url : Str} (hurl : '?' ∉ url) {found : Regex.Match}
    (hfound : pattern.regexMatch url = some found) : ReadsApart each.path := by
  have hmem : each.path ∈ router.routes :=
    (hholds.paths each.path).mpr ⟨each, heach, rfl⟩
  obtain ⟨info, hinfo⟩ := Option.isSome_iff_exists.mp
    (AList.lookup_isSome.mpr hmem)
  have hsame : info.pattern = pattern :=
    Except.ok.inj ((hholds.pattern each.path info hinfo).symm.trans hpattern)
  obtain ⟨before, after, hentries⟩ :=
    List.append_of_mem (AList.mem_lookup_iff.mp hinfo)
  have horder : ((⟨each.path, info⟩ : RouteEntry m) :: (before ++ after)).Perm
      router.routes.entries := by
    rw [hentries]
    exact List.perm_middle.symm
  have hfirst : firstMatch (pathOf url)
      ((⟨each.path, info⟩ : RouteEntry m) :: (before ++ after)) =
        some (⟨each.path, info⟩, found) := by
    rw [pathOf_of_notMem hurl, firstMatch, hsame, hfound]
  have hright := (hserved _ horder (getPath url)).right _ _ hfirst
  exact (rightGroups_iff hpattern hfound).mp hright

/-- Every request to a table is served exactly when each path in it leaves its
placeholders alone, or matches nothing. -/
theorem served_iff {registrations : List (Registration m)}
    {router : Router m} (hbuilt : register registrations = .ok router) :
    (∀ order : List (RouteEntry m), order.Perm router.routes.entries →
      ∀ req, Served order req) ↔
    ∀ each ∈ registrations, ReadsApart each.path ∨ Unmatched each.path := by
  have hholds := holds_of_register hbuilt
  constructor
  · intro hserved each heach
    by_cases hunmatched : Unmatched each.path
    · exact Or.inr hunmatched
    · simp only [Unmatched, not_forall] at hunmatched
      obtain ⟨pattern, hpattern, url, hurl, hmatch⟩ := hunmatched
      obtain ⟨found, hfound⟩ := Option.ne_none_iff_exists'.mp hmatch
      apply Or.inl
      exact readsApart_of_served hholds hserved heach hpattern hurl hfound
  · intro hpaths order horder req
    apply served_of_right hholds horder
    intro entry found hfirst
    obtain ⟨hmem, hfound⟩ := firstMatch_mem hfirst
    have hentry := hholds.entry horder hmem
    obtain ⟨each, heach, hname⟩ := hentry.registered
    rw [rightGroups_iff hentry.pattern hfound, ← hname]
    apply (hpaths each heach).resolve_right
    intro hunmatched
    have hnone := hunmatched entry.2.pattern (hname ▸ hentry.pattern)
      (pathOf req.path) (question_notMem_pathOf req.path)
    rw [hfound] at hnone
    cases hnone

/-- A table with the one path `/a/{:id}`. -/
theorem served_iff_item :
    ∃ router, register
        [(⟨"/a/{:id}".toList, .get, answerWith ['1']⟩ : Registration Id)] =
          .ok router ∧
      ((∀ order : List (RouteEntry Id), order.Perm router.routes.entries →
          ∀ req, Served order req) ↔
        ∀ each ∈ [(⟨"/a/{:id}".toList, .get, answerWith ['1']⟩ :
            Registration Id)],
          ReadsApart each.path ∨ Unmatched each.path) :=
  ⟨_, rfl, served_iff rfl⟩

/-- `GET /ab` to `/a(b)` is an internal server error. -/
theorem groupedPath_not_served :
    ¬ ∀ (registrations : List (Registration Id)) (router : Router Id),
      register registrations = .ok router →
      ∀ order : List (RouteEntry Id), order.Perm router.routes.entries →
        ∀ req, Served order req := by
  intro hall
  have hserved := hall [⟨"/a(b)".toList, .get, answerWith ['1']⟩] _ rfl _
    (List.Perm.refl _) (getPath "/ab".toList)
  exact hserved.answered rfl

end Rest

end JustQueueIt
