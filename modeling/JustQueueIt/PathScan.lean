/-
What `AddRouteImpl` takes for a placeholder.  The search of `param_regex` is
described without regular expressions: it cuts a path at every `{:identifier}`
it meets from the left, and there is only one way to do so.
-/
import JustQueueIt.PathTemplates

namespace JustQueueIt

namespace Rest

open Regex (Piece)

variable {m : Type → Type}

def IsNameStart (c : Char) : Prop :=
  ('a' ≤ c ∧ c ≤ 'z') ∨ ('A' ≤ c ∧ c ≤ 'Z') ∨ c = '_'

def IsNamePart (c : Char) : Prop :=
  IsNameStart c ∨ ('0' ≤ c ∧ c ≤ '9')

/-- A letter or an underscore, then letters, digits and underscores. -/
def IsIdentifier : Str → Prop
  | [] => False
  | c :: rest => IsNameStart c ∧ ∀ d ∈ rest, IsNamePart d

/-- A placeholder stands at the front of the text. -/
def StartsPlaceholder (text : Str) : Prop :=
  ∃ name, IsIdentifier name ∧ pieceText (.slot name) <+: text

/-- The pieces of a scan from the left: every placeholder has an identifier
for its name, and no literal character begins a placeholder. -/
def Scanned : List PathPiece → Prop
  | [] => True
  | .char c :: pieces =>
      ¬ StartsPlaceholder (c :: pieces.flatMap pieceText) ∧ Scanned pieces
  | .slot name :: pieces => IsIdentifier name ∧ Scanned pieces

theorem nameStart_test (c : Char) :
    Regex.CharSet.test ⟨false, [.range 'a' 'z', .range 'A' 'Z', .char '_']⟩ c =
      true ↔ IsNameStart c := by
  simp only [Regex.CharSet.test, Regex.ClassItem.test, IsNameStart,
    List.any_cons, List.any_nil, Bool.bne_false, Bool.or_eq_true,
    Bool.and_eq_true, decide_eq_true_eq, Bool.or_false, @eq_comm _ '_' c]

theorem namePart_test (c : Char) :
    Regex.CharSet.test ⟨false, [.range 'a' 'z', .range 'A' 'Z',
      .range '0' '9', .char '_']⟩ c = true ↔ IsNamePart c := by
  simp only [Regex.CharSet.test, Regex.ClassItem.test, IsNamePart, IsNameStart,
    List.any_cons, List.any_nil, Bool.bne_false, Bool.or_eq_true,
    Bool.and_eq_true, decide_eq_true_eq, Bool.or_false, @eq_comm _ '_' c]
  tauto

theorem IsNamePart.ne_close {c : Char} (hpart : IsNamePart c) : c ≠ '}' := by
  rintro rfl
  revert hpart
  unfold IsNamePart IsNameStart
  decide

theorem IsIdentifier.close_notMem {name : Str} (hname : IsIdentifier name) :
    '}' ∉ name := by
  cases name with
  | nil => exact List.not_mem_nil
  | cons c rest =>
      intro hmem
      rcases List.mem_cons.mp hmem with hfirst | hrest
      · exact IsNamePart.ne_close (Or.inl hname.1) hfirst.symm
      · exact (hname.2 _ hrest).ne_close rfl

/-- A group around a word takes every word the two classes allow. -/
theorem mem_paths_word {index : Nat} {first more : Regex.CharSet}
    {cursor last : Regex.Cursor} :
    last ∈ (Regex.Ast.group index (.seq (.set first)
        (.seq (.rep 0 none true (.set more)) .empty))).paths cursor ↔
      ∃ c word, c :: word <+: cursor.rest ∧ first.test c = true ∧
        (∀ d ∈ word, more.test d = true) ∧
        last = (cursor.skip (word.length + 1)).capture index (c :: word) := by
  simp only [Regex.mem_paths_group, Regex.mem_paths_seq, Regex.mem_paths_set,
    Regex.mem_paths_rep_set, Regex.mem_paths_empty]
  constructor
  · rintro ⟨_, ⟨_, ⟨c, tail, hrest, hfirst, rfl⟩, _, ⟨n, -, hn, hmore, rfl⟩,
      rfl⟩, rfl⟩
    rw [Regex.Cursor.skip_rest, hrest] at hn hmore
    change n ≤ tail.length at hn
    change ∀ d ∈ tail.take n, _ at hmore
    have hlength : (tail.take n).length = n := List.length_take_of_le hn
    have hbound : 1 + n ≤ cursor.rest.length := by
      rw [hrest, List.length_cons]
      omega
    refine ⟨c, tail.take n, ?_, hfirst, hmore, ?_⟩
    · rw [hrest]
      exact List.cons_prefix_cons.mpr ⟨rfl, List.take_prefix n tail⟩
    · rw [Regex.Cursor.skip_skip, Regex.Cursor.textTo_skip _ hbound, hlength,
        hrest, Nat.add_comm 1 n, List.take_succ_cons]
  · rintro ⟨c, word, ⟨after, hafter⟩, hfirst, hmore, rfl⟩
    have hrest : cursor.rest = c :: (word ++ after) := hafter.symm
    have hbound : 1 + word.length ≤ cursor.rest.length := by
      rw [hrest, List.length_cons, List.length_append]
      omega
    have htake : cursor.rest.take (1 + word.length) = c :: word := by
      rw [hrest, Nat.add_comm, List.take_succ_cons, List.take_left' rfl]
    refine ⟨_, ⟨_, ⟨c, word ++ after, hrest, hfirst, rfl⟩, _,
      ⟨word.length, Nat.zero_le _, ?_, ?_, rfl⟩, rfl⟩, ?_⟩
    · rw [Regex.Cursor.skip_rest, hrest]
      change word.length ≤ (word ++ after).length
      rw [List.length_append]
      exact Nat.le_add_right _ _
    · rw [Regex.Cursor.skip_rest, hrest]
      change ∀ d ∈ (word ++ after).take word.length, _
      rwa [List.take_left' rfl]
    · rw [Regex.Cursor.skip_skip, Regex.Cursor.textTo_skip _ hbound, htake,
        Nat.add_comm 1]

/-- What `param_regex` captures is an identifier. -/
theorem isIdentifier_of_mem_paths {cursor last : Regex.Cursor}
    (hlast : last ∈ paramRegex.ast.paths cursor) :
    IsIdentifier ((last.captures 1).getD []) := by
  rw [paramRegex, Regex.mem_paths_literal, Regex.mem_paths_seq] at hlast
  obtain ⟨-, next, hword, hlast⟩ := hlast
  obtain ⟨c, word, -, hfirst, hmore, rfl⟩ := mem_paths_word.mp hword
  simp only [Regex.mem_paths_seq, Regex.mem_paths_set,
    Regex.mem_paths_empty] at hlast
  obtain ⟨_, ⟨_, _, -, -, rfl⟩, rfl⟩ := hlast
  exact ⟨(nameStart_test c).mp hfirst,
    fun d hd => (namePart_test d).mp (hmore d hd)⟩

/-- `param_regex` finds something exactly where a placeholder stands. -/
theorem exists_mem_paths_iff {cursor : Regex.Cursor} :
    (∃ last, last ∈ paramRegex.ast.paths cursor) ↔
      StartsPlaceholder cursor.rest := by
  constructor
  · intro ⟨last, hlast⟩
    refine ⟨_, isIdentifier_of_mem_paths hlast, ?_⟩
    change '{' :: ':' :: (last.captures 1).getD [] ++ ['}'] <+: cursor.rest
    rw [← textTo_paramRegex hlast]
    exact List.take_prefix _ _
  · intro ⟨name, hname, after, hafter⟩
    cases name with
    | nil => exact hname.elim
    | cons c word =>
        have hrest : cursor.rest =
            ['{', ':'] ++ (c :: word ++ '}' :: after) := by
          rw [← hafter]
          change '{' :: ':' :: (c :: word ++ ['}'] ++ after) = _
          rw [List.append_assoc]
          rfl
        have hopened : (cursor.skip 2).rest = c :: word ++ '}' :: after := by
          rw [Regex.Cursor.skip_rest, hrest]
          rfl
        have hnamed : ((cursor.skip 2).skip (word.length + 1)).rest =
            '}' :: after := by
          rw [Regex.Cursor.skip_rest, hopened]
          exact List.drop_left' rfl
        refine ⟨((cursor.skip 2).skip (word.length + 1) |>.capture 1
          (c :: word)).skip 1, ?_⟩
        rw [paramRegex, Regex.mem_paths_literal, Regex.mem_paths_seq]
        refine ⟨⟨_, hrest.symm⟩, _, mem_paths_word.mpr
          ⟨c, word, ⟨_, hopened.symm⟩, (nameStart_test c).mpr hname.1,
            fun d hd => (namePart_test d).mpr (hname.2 d hd), rfl⟩, ?_⟩
        simp only [Regex.mem_paths_seq, Regex.mem_paths_set,
          Regex.CharSet.single_test, Regex.mem_paths_empty]
        exact ⟨_, ⟨'}', after, hnamed, rfl, rfl⟩, rfl⟩

theorem pieceText_ne_nil (piece : PathPiece) : pieceText piece ≠ [] := by
  cases piece with
  | char c => exact List.cons_ne_nil c []
  | slot name => exact List.cons_ne_nil '{' _

theorem segments_pieceText (before : Str) (skip : Nat) (text : Str) :
    ((paramRegex.segments before skip text).map pieceOf).flatMap pieceText =
      text.drop skip := by
  have hpieces : ∀ segment ∈ paramRegex.segments before skip text,
      pieceText (pieceOf segment) = segment.text := by
    intro segment hsegment
    cases segment with
    | char c => rfl
    | found found =>
        obtain ⟨cursor, last, hlast, rfl⟩ :=
          Regex.Compiled.mem_segments_found hsegment
        exact (textTo_paramRegex hlast).symm
  rw [List.flatMap_map, ← paramRegex.segments_text before skip]
  exact List.flatMap_congr hpieces

/-- The iterator stops at every placeholder and at nothing else. -/
theorem scanned_segments {text : Str} :
    ∀ (before : Str) (skip : Nat),
      Scanned ((paramRegex.segments before skip text).map pieceOf) := by
  induction text with
  | nil =>
      intro before skip
      rw [Regex.Compiled.segments]
      exact trivial
  | cons c rest ih =>
      intro before skip
      cases skip with
      | succ skip => exact ih (c :: before) skip
      | zero =>
          have hliteral : (∀ last, last ∉ paramRegex.ast.paths
              ⟨before, c :: rest, fun _ => none⟩) →
              Scanned ((.char c :: paramRegex.segments (c :: before) 0 rest).map
                pieceOf) := by
            intro hnone
            refine ⟨?_, ih (c :: before) 0⟩
            rw [segments_pieceText, List.drop_zero]
            intro hstarts
            have hfound : ∃ last, last ∈ paramRegex.ast.paths
                ⟨before, c :: rest, fun _ => none⟩ :=
              exists_mem_paths_iff.mpr hstarts
            obtain ⟨last, hlast⟩ := hfound
            exact hnone last hlast
          rw [Regex.Compiled.segments]
          cases hhead : (paramRegex.ast.paths
              ⟨before, c :: rest, fun _ => none⟩).head? with
          | none =>
              apply hliteral
              rw [List.head?_eq_none_iff.mp hhead]
              exact fun last => List.not_mem_nil
          | some last =>
              have hlast := List.mem_of_head? hhead
              have hcut := textTo_paramRegex hlast
              simp only [hcut]
              exact ⟨isIdentifier_of_mem_paths hlast, ih (c :: before) _⟩

theorem scanned_pathPieces (path : Str) : Scanned (pathPieces path) :=
  scanned_segments [] 0

/-- Two placeholders at one place have the same name. -/
theorem slot_text_inj {name other after next : Str} (hname : '}' ∉ name)
    (hother : '}' ∉ other)
    (htext : pieceText (.slot name) ++ after =
      pieceText (.slot other) ++ next) :
    name = other ∧ after = next := by
  have hread : ∀ word rest : Str, '}' ∉ word →
      (word ++ '}' :: rest).takeWhile (· ≠ '}') = word := by
    intro word rest hword
    rw [List.takeWhile_append_of_pos, List.takeWhile_cons_of_neg]
    · exact List.append_nil word
    · decide
    · intro d hd
      exact decide_eq_true fun heq => hword (heq ▸ hd)
  have hbody : name ++ '}' :: after = other ++ '}' :: next := by
    change '{' :: ':' :: (name ++ ['}'] ++ after) =
      '{' :: ':' :: (other ++ ['}'] ++ next) at htext
    rw [List.append_assoc, List.append_assoc] at htext
    exact (List.cons.inj (List.cons.inj htext).2).2
  have hsame : name = other := by
    rw [← hread name after hname, hbody, hread other next hother]
  subst hsame
  exact ⟨rfl, (List.cons.inj (List.append_cancel_left hbody)).2⟩

/-- A text has one scan only. -/
theorem Scanned.eq_of_text {pieces : List PathPiece} :
    ∀ {others : List PathPiece}, Scanned pieces → Scanned others →
      pieces.flatMap pieceText = others.flatMap pieceText →
      pieces = others := by
  induction pieces with
  | nil =>
      intro others _ _ htext
      cases others with
      | nil => rfl
      | cons piece others =>
          have hnil := (List.append_eq_nil_iff.mp htext.symm).1
          exact absurd hnil (pieceText_ne_nil piece)
  | cons piece pieces ih =>
      intro others hpieces hothers htext
      cases others with
      | nil =>
          have hnil := (List.append_eq_nil_iff.mp htext).1
          exact absurd hnil (pieceText_ne_nil piece)
      | cons other others =>
          change pieceText piece ++ pieces.flatMap pieceText =
            pieceText other ++ others.flatMap pieceText at htext
          cases piece with
          | char c =>
              cases other with
              | char d =>
                  obtain ⟨rfl, hrest⟩ := List.cons.inj htext
                  rw [ih hpieces.2 hothers.2 hrest]
              | slot name =>
                  refine absurd ⟨name, hothers.1, ?_⟩ hpieces.1
                  exact ⟨_, htext.symm⟩
          | slot name =>
              cases other with
              | char d =>
                  refine absurd ⟨name, hpieces.1, ?_⟩ hothers.1
                  exact ⟨_, htext⟩
              | slot word =>
                  obtain ⟨rfl, hrest⟩ := slot_text_inj
                    hpieces.1.close_notMem hothers.1.close_notMem htext
                  rw [ih hpieces.2 hothers.2 hrest]

theorem pathPieces_eq_iff {path : Str} {pieces : List PathPiece} :
    pathPieces path = pieces ↔
      Scanned pieces ∧ pieces.flatMap pieceText = path := by
  constructor
  · rintro rfl
    exact ⟨scanned_pathPieces path, pathPieces_text path⟩
  · intro ⟨hscanned, htext⟩
    apply (scanned_pathPieces path).eq_of_text hscanned
    rw [pathPieces_text, htext]

/-- An unfinished placeholder stands for itself. -/
example : pathPieces "/{:{:id}}".toList =
    [.char '/', .char '{', .char ':', .slot ['i', 'd'], .char '}'] := by
  rfl

/-- `AddRouteImpl` without its search: a path is read in exactly one way as
literal characters and placeholders `{:identifier}` taken from the left.  The
placeholders give the parameter names, and with `([^/]+)` for each of them the
pieces give the pattern. -/
theorem addRouteImpl_placeholders (path : Str) :
    ∃ pieces : List PathPiece,
      (∀ others, Scanned others ∧ others.flatMap pieceText = path ↔
        others = pieces) ∧
      ∀ (router : Router m) (method : Method) (handler : HandlerWithParams m),
        router.addRouteImpl path method (some handler) =
          if path.head? = some '/' then
            (regex ('^' :: pieces.flatMap pieceRegexText ++ ['$'])).map
              fun pattern => ⟨router.routes.insert path
                ⟨pattern, Piece.labels pieces,
                  (router.handlersOf path).assign method handler⟩⟩
          else
            .error ⟨.invalidArgument, "Path must start with '/'".toList⟩ := by
  refine ⟨pathPieces path, fun others => ?_, fun router method handler => ?_⟩
  · rw [← pathPieces_eq_iff, eq_comm]
  · split
    · next hpath =>
        rw [Router.addRouteImpl_eq router hpath, compilePath, regexReplace_eq,
          labels_pathPieces]
    · next hpath =>
        rw [Router.addRouteImpl, if_pos (Or.inr hpath)]

end Rest

end JustQueueIt
