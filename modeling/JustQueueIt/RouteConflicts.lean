/-
Which templates compete for a URL.  `Route` takes the first entry that matches,
and the order of its table is the library's choice; whether that can be noticed
is decided from the texts of the paths alone, for every handler and request.
-/
import JustQueueIt.OwnAnswers
import JustQueueIt.PathValues
import JustQueueIt.WildcardOverlap

namespace JustQueueIt

namespace Rest

open Regex (Piece)

variable {m : Type → Type}

/-- A character that may stand in for a placeholder in front of the query. -/
def IsOpen (c : Char) : Prop :=
  c ≠ '/' ∧ c ≠ '?'

instance : DecidablePred IsOpen :=
  fun c => inferInstanceAs (Decidable (c ≠ '/' ∧ c ≠ '?'))

def pieceItems : PathPiece → List (Wildcard.Item Char)
  | .char c => [.letter (some c)]
  | .slot _ => [.letter none, .many]

def pathItems (path : Str) : List (Wildcard.Item Char) :=
  (pathPieces path).flatMap pieceItems

/-- Whether some URL is matched by the templates of both paths. -/
def collide (path other : Str) : Bool :=
  Wildcard.overlap IsOpen (pathItems path) (pathItems other)

example : collide "/a/{:id}".toList "/{:x}b/c".toList = false := by
  decide +kernel

example : collide "/a/{:id}".toList "/{:x}/b{:y}".toList = true := by
  decide +kernel

/-- The words of a template are its fillings that hold no `?`. -/
theorem matches_pieceItems {pieces : List PathPiece} :
    ∀ {word : Str}, '?' ∉ Piece.literals pieces →
      (Wildcard.Matches IsOpen (pieces.flatMap pieceItems) word ↔
        '?' ∉ word ∧ ∃ values, Piece.Fits '/' pieces values ∧
          word = Piece.fill pieces values) := by
  induction pieces with
  | nil =>
      intro word _
      rw [List.flatMap_nil, Wildcard.matches_nil]
      constructor
      · rintro rfl
        exact ⟨List.not_mem_nil, [], ⟨rfl, by simp⟩, rfl⟩
      · rintro ⟨-, values, -, rfl⟩
        rfl
  | cons piece pieces ih =>
      intro word hliterals
      cases piece with
      | char c =>
          rw [Piece.literals, List.mem_cons, not_or] at hliterals
          change Wildcard.Matches IsOpen (.letter (some c) ::
            pieces.flatMap pieceItems) word ↔ _
          rw [Wildcard.matches_letter]
          constructor
          · rintro ⟨_, rest, rfl, rfl, hrest⟩
            obtain ⟨hquery, values, hfits, rfl⟩ := (ih hliterals.2).mp hrest
            refine ⟨?_, values, Piece.fits_char.mpr hfits, rfl⟩
            exact List.not_mem_cons_of_ne_of_not_mem hliterals.1 hquery
          · rintro ⟨hquery, values, hfits, rfl⟩
            refine ⟨c, _, rfl, rfl, (ih hliterals.2).mpr ⟨?_, values,
              Piece.fits_char.mp hfits, rfl⟩⟩
            exact List.not_mem_of_not_mem_cons hquery
      | slot name =>
          change Wildcard.Matches IsOpen (.letter none :: .many ::
            pieces.flatMap pieceItems) word ↔ _
          simp only [Wildcard.matches_letter, Wildcard.matches_many_iff]
          constructor
          · rintro ⟨a, _, rfl, hopen, taken, rest, rfl, htaken, hrest⟩
            obtain ⟨hquery, values, hfits, rfl⟩ := (ih hliterals).mp hrest
            have hall : ∀ c ∈ a :: taken, IsOpen c :=
              List.forall_mem_cons.mpr ⟨hopen, htaken⟩
            refine ⟨?_, (a :: taken) :: values, Piece.fits_slot.mpr
              ⟨⟨List.cons_ne_nil a taken, fun hmem => (hall _ hmem).1 rfl⟩,
                hfits⟩, rfl⟩
            change '?' ∉ (a :: taken) ++ Piece.fill pieces values
            rw [List.mem_append, not_or]
            exact ⟨fun hmem => (hall _ hmem).2 rfl, hquery⟩
          · rintro ⟨hquery, values, hfits, rfl⟩
            obtain ⟨value, values, rfl⟩ := hfits.exists_cons
            obtain ⟨⟨hne, hslash⟩, hrest⟩ := Piece.fits_slot.mp hfits
            rw [Piece.fill, List.mem_append, not_or] at hquery
            have hall : ∀ c ∈ value, IsOpen c := fun c hc =>
              ⟨fun heq => hslash (heq ▸ hc), fun heq => hquery.1 (heq ▸ hc)⟩
            obtain ⟨a, taken, rfl⟩ := List.exists_cons_of_ne_nil hne
            obtain ⟨hopen, htaken⟩ := List.forall_mem_cons.mp hall
            exact ⟨a, _, rfl, hopen, taken, _, rfl, htaken,
              (ih hliterals).mpr ⟨hquery.2, values, hrest, rfl⟩⟩

/-- The pattern of a plain path matches the words of its template. -/
theorem PlainPath.regexMatch_iff {path : Str} (hplain : PlainPath path)
    {pattern : Regex.Compiled} (hpattern : compilePath path = .ok pattern)
    {url : Str} (hurl : '?' ∉ url) :
    pattern.regexMatch url ≠ none ↔
      Wildcard.Matches IsOpen (pathItems path) url := by
  rw [pathItems, matches_pieceItems hplain.question_notMem]
  constructor
  · intro hmatch
    obtain ⟨found, hfound⟩ := Option.ne_none_iff_exists'.mp hmatch
    obtain ⟨-, values, hfits, hfill, -⟩ := hplain.exists_values hpattern hfound
    exact ⟨hurl, values, hfits, hfill⟩
  · rintro ⟨-, values, hfits, rfl⟩
    rw [← Except.ok.inj ((compilePath_of_plainPath hplain).symm.trans hpattern)]
    exact Piece.regexMatch_fill_ne_none hfits _

theorem collide_iff_meet (path other : Str) :
    collide path other = true ↔
      Wildcard.Meet IsOpen (pathItems path) (pathItems other) :=
  Wildcard.overlap_iff ⟨'a', by decide⟩ _ _

/-- Two templates compete for a URL exactly where the walk through both finds
one. -/
theorem collide_iff {path other : Str} (hplain : PlainPath path)
    (hother : PlainPath other) {pattern its : Regex.Compiled}
    (hpattern : compilePath path = .ok pattern)
    (hits : compilePath other = .ok its) :
    collide path other = true ↔
      ∃ url, '?' ∉ url ∧ pattern.regexMatch url ≠ none ∧
        its.regexMatch url ≠ none := by
  rw [collide_iff_meet]
  constructor
  · rintro ⟨url, hleft, hright⟩
    have hurl := ((matches_pieceItems hplain.question_notMem).mp hleft).1
    exact ⟨url, hurl, (hplain.regexMatch_iff hpattern hurl).mpr hleft,
      (hother.regexMatch_iff hits hurl).mpr hright⟩
  · rintro ⟨url, hurl, hleft, hright⟩
    exact ⟨url, (hplain.regexMatch_iff hpattern hurl).mp hleft,
      (hother.regexMatch_iff hits hurl).mp hright⟩

/-- `/a/{:id}` and `/{:x}/b` both match `/a/b`. -/
theorem collide_iff_item :
    collide itemPath "/{:x}/b".toList = true ↔
      ∃ url, '?' ∉ url ∧
        (⟨.anchored (Piece.tree '/' 0 (pathPieces itemPath)), 1⟩ :
          Regex.Compiled).regexMatch url ≠ none ∧
        (⟨.anchored (Piece.tree '/' 0 (pathPieces "/{:x}/b".toList)), 1⟩ :
          Regex.Compiled).regexMatch url ≠ none :=
  collide_iff (by decide) (by decide) (compilePath_of_plainPath (by decide))
    (compilePath_of_plainPath (by decide))

/-- The paths and methods an interface offers. -/
abbrev Surface := List (Str × Method)

/-- The registrations that give every path and method its handler. -/
def Surface.registrations (surface : Surface)
    (handlers : Str → Method → HandlerWithParams m) : List (Registration m) :=
  surface.map fun each => ⟨each.1, each.2, handlers each.1 each.2⟩

/-- Every path and method is offered once, and `AddRoute` takes the paths for
what they spell. -/
structure Surface.Plain (surface : Surface) : Prop where
  distinct : surface.Nodup
  slash : ∀ each ∈ surface, each.1.head? = some '/'
  plain : ∀ each ∈ surface, PlainPath each.1

/-- No two of the paths compete for a URL. -/
def Surface.ConflictFree (surface : Surface) : Prop :=
  ∀ each ∈ surface, ∀ other ∈ surface, each.1 ≠ other.1 →
    collide each.1 other.1 = false

/-- Paths that compete for a URL are offered with the same methods. -/
def Surface.SameMethods (surface : Surface) : Prop :=
  ∀ each ∈ surface, ∀ other ∈ surface, collide each.1 other.1 = true →
    (other.1, each.2) ∈ surface

instance (surface : Surface) : Decidable surface.ConflictFree :=
  inferInstanceAs (Decidable (∀ each ∈ surface, ∀ other ∈ surface,
    each.1 ≠ other.1 → collide each.1 other.1 = false))

instance (surface : Surface) : Decidable surface.SameMethods :=
  inferInstanceAs (Decidable (∀ each ∈ surface, ∀ other ∈ surface,
    collide each.1 other.1 = true → (other.1, each.2) ∈ surface))

namespace Surface

variable {surface : Surface} {handlers : Str → Method → HandlerWithParams m}

theorem map_registrations (surface : Surface)
    (handlers : Str → Method → HandlerWithParams m) :
    ((surface.registrations handlers).map fun each =>
      (each.path, each.method)) = surface := by
  rw [registrations, List.map_map]
  exact List.map_id _

theorem mem_registrations {registration : Registration m} :
    registration ∈ surface.registrations handlers ↔
      (registration.path, registration.method) ∈ surface ∧
        registration.handler =
          handlers registration.path registration.method := by
  rw [registrations, List.mem_map]
  constructor
  · rintro ⟨each, heach, rfl⟩
    exact ⟨heach, rfl⟩
  · rintro ⟨hmem, hhandler⟩
    exact ⟨_, hmem, by rw [← hhandler]⟩

/-- All the registrations are accepted. -/
theorem exists_foldlM {registrations : List (Registration m)}
    (hslash : ∀ each ∈ registrations, each.path.head? = some '/')
    (hplain : ∀ each ∈ registrations, PlainPath each.path) :
    ∀ router : Router m, ∃ after,
      registrations.foldlM addRegistration router = .ok after := by
  induction registrations with
  | nil => exact fun router => ⟨router, rfl⟩
  | cons registration rest ih =>
      intro router
      obtain ⟨hfirst, hslash⟩ := List.forall_mem_cons.mp hslash
      obtain ⟨hplainFirst, hplain⟩ := List.forall_mem_cons.mp hplain
      rw [List.foldlM_cons, addRegistration,
        Router.addRouteImpl_eq_ok hfirst (compilePath_of_plainPath hplainFirst)]
      exact ih hslash hplain _

theorem Plain.exists_table (hsurface : surface.Plain)
    (handlers : Str → Method → HandlerWithParams m) :
    Nonempty (TableOf (surface.registrations handlers)) := by
  obtain ⟨router, hrouter⟩ := exists_foldlM
    (fun each heach => hsurface.slash _ (mem_registrations.mp heach).1)
    (fun each heach => hsurface.plain _ (mem_registrations.mp heach).1)
    Router.empty
  exact ⟨⟨surface.registrations handlers, List.Perm.refl _, router, hrouter,
    router.routes.entries, List.Perm.refl _⟩⟩

variable (table : TableOf (surface.registrations handlers))

theorem mem_calls {registration : Registration m} :
    registration ∈ table.calls ↔
      (registration.path, registration.method) ∈ surface ∧
        registration.handler =
          handlers registration.path registration.method := by
  rw [table.permutes.mem_iff, mem_registrations]

/-- Every path that is offered has an entry. -/
theorem exists_entry {each : Str × Method} (heach : each ∈ surface) :
    ∃ entry ∈ table.order, entry.1 = each.1 := by
  have hpath : each.1 ∈ table.router.routes :=
    (table.holds.paths each.1).mpr ⟨⟨each.1, each.2, handlers each.1 each.2⟩,
      (mem_calls table).mpr ⟨heach, rfl⟩, rfl⟩
  obtain ⟨info, hinfo⟩ := Option.isSome_iff_exists.mp
    (AList.lookup_isSome.mpr hpath)
  exact ⟨⟨each.1, info⟩, table.mem_order.mpr hinfo, rfl⟩

/-- Every entry belongs to a path that is offered. -/
theorem exists_method {entry : RouteEntry m} (hentry : entry ∈ table.order) :
    ∃ method, (entry.1, method) ∈ surface := by
  obtain ⟨registration, hmem, hpath⟩ :=
    (table.holds.entry table.iterates hentry).registered
  exact ⟨registration.method, hpath ▸ ((mem_calls table).mp hmem).1⟩

theorem eq_of_path_eq {entry other : RouteEntry m}
    (hentry : entry ∈ table.order) (hother : other ∈ table.order)
    (hpath : entry.1 = other.1) : entry = other := by
  have hlookup := table.mem_order.mp hentry
  rw [hpath, table.mem_order.mp hother] at hlookup
  exact Sigma.ext hpath (heq_of_eq (Option.some.inj hlookup).symm)

theorem Plain.lookup_eq_some (hsurface : surface.Plain)
    {entry : RouteEntry m} (hentry : entry ∈ table.order) {method : Method}
    {handler : HandlerWithParams m} :
    entry.2.handlers.lookup method = some handler ↔
      (entry.1, method) ∈ surface ∧ handler = handlers entry.1 method := by
  have hdistinct :
      (table.calls.map fun each => (each.path, each.method)).Nodup := by
    rw [(table.permutes.map _).nodup_iff, map_registrations]
    exact hsurface.distinct
  have hholds := table.holds.handlers entry.1 method
  rw [Router.handlersOf, table.mem_order.mp hentry] at hholds
  rw [hholds, registered_eq_some hdistinct, mem_calls]

theorem Plain.regexMatch_iff (hsurface : surface.Plain)
    {entry : RouteEntry m} (hentry : entry ∈ table.order) (req : Request) :
    RouteEntry.Matches entry req ↔
      Wildcard.Matches IsOpen (pathItems entry.1) (pathOf req.path) := by
  obtain ⟨method, hmem⟩ := exists_method table hentry
  rw [← (hsurface.plain _ hmem).regexMatch_iff
    (table.holds.entry table.iterates hentry).pattern
    (question_notMem_pathOf req.path)]
  exact Option.isSome_iff_ne_none

/-- Entries that match the same request belong to paths that compete. -/
theorem Plain.collide_of_matches (hsurface : surface.Plain)
    {entry other : RouteEntry m} (hentry : entry ∈ table.order)
    (hother : other ∈ table.order) {req : Request}
    (hmatches : RouteEntry.Matches entry req)
    (hothers : RouteEntry.Matches other req) :
    collide entry.1 other.1 = true :=
  (collide_iff_meet _ _).mpr ⟨pathOf req.path,
    (hsurface.regexMatch_iff table hentry req).mp hmatches,
    (hsurface.regexMatch_iff table hother req).mp hothers⟩

/-- For paths that compete there is a request that the entries of both
match. -/
theorem Plain.exists_request (hsurface : surface.Plain) (method : Method)
    {each other : Str × Method} (heach : each ∈ surface)
    (hcollide : collide each.1 other.1 = true) :
    ∃ req : Request, req.method = method ∧
      ∀ {handlers : Str → Method → HandlerWithParams m}
        (table : TableOf (surface.registrations handlers)),
        ∀ entry ∈ table.order, entry.1 = each.1 ∨ entry.1 = other.1 →
          RouteEntry.Matches entry req := by
  obtain ⟨url, hleft, hright⟩ := (collide_iff_meet _ _).mp hcollide
  have hurl : '?' ∉ url :=
    ((matches_pieceItems (hsurface.plain _ heach).question_notMem).mp hleft).1
  refine ⟨⟨method, url, [], .textPlain, .textPlain⟩, rfl, ?_⟩
  intro handlers table entry hentry hpath
  rw [hsurface.regexMatch_iff table hentry, pathOf_of_notMem hurl]
  rcases hpath with hpath | hpath
  · rwa [hpath]
  · rwa [hpath]

theorem Plain.plainTemplate (hsurface : surface.Plain) :
    ∀ each ∈ surface.registrations handlers, PlainTemplate each.path := by
  intro each heach pattern hpattern
  have hplain := hsurface.plain _ (mem_registrations.mp heach).1
  rw [compilePath_of_plainPath hplain] at hpattern
  rw [← Except.ok.inj hpattern]

/-- In a table without conflicts an entry that matches decides. -/
theorem selected_of_choice (hsurface : surface.Plain)
    (hfree : surface.ConflictFree) {entry : RouteEntry m}
    (hentry : entry ∈ table.order) {req : Request} {its : Selection m}
    (hits : entry.choice req = some its) :
    selected table.order req = its := by
  have hmatches : ∀ {each : RouteEntry m} {said : Selection m},
      each.choice req = some said → RouteEntry.Matches each req := by
    intro each said hsaid
    obtain ⟨found, hfound, -⟩ := Option.map_eq_some_iff.mp hsaid
    rw [RouteEntry.Matches, hfound]
    rfl
  refine select_of_agree hentry hits fun other hother said hsaid => ?_
  have hcollide := hsurface.collide_of_matches table hentry hother
    (hmatches hits) (hmatches hsaid)
  have hpath : entry.1 = other.1 := by
    obtain ⟨method, hmem⟩ := exists_method table hentry
    obtain ⟨method', hmem'⟩ := exists_method table hother
    by_contra hne
    have hnot := hfree _ hmem _ hmem' hne
    rw [hcollide] at hnot
    cases hnot
  rw [eq_of_path_eq table hentry hother hpath] at hits
  exact Option.some.inj (hsaid.symm.trans hits)

/-- The tables of an interface without conflicts select the same. -/
theorem selected_eq (hsurface : surface.Plain) (hfree : surface.ConflictFree)
    (table other : TableOf (surface.registrations handlers)) (req : Request) :
    selected table.order req = selected other.order req := by
  have hdistinct : ((surface.registrations handlers).map fun each =>
      (each.path, each.method)).Nodup := by
    rw [map_registrations]
    exact hsurface.distinct
  by_cases hnone : ∀ entry ∈ table.order, RouteEntry.choice entry req = none
  · rw [selected, select_of_none hnone]
    refine (select_of_none fun entry hentry => ?_).symm
    obtain ⟨same, hsame, hchoice⟩ :=
      other.exists_choice_eq table hdistinct hentry
    exact (hchoice req).symm.trans (hnone same hsame)
  · push Not at hnone
    obtain ⟨entry, hentry, hsome⟩ := hnone
    obtain ⟨its, hits⟩ := Option.ne_none_iff_exists'.mp hsome
    obtain ⟨same, hsame, hchoice⟩ :=
      table.exists_choice_eq other hdistinct hentry
    rw [selected_of_choice table hsurface hfree hentry hits,
      selected_of_choice other hsurface hfree hsame ((hchoice req).trans hits)]

theorem Plain.handles_iff (hsurface : surface.Plain) {entry : RouteEntry m}
    (hentry : entry ∈ table.order) (req : Request) :
    RouteEntry.Handles entry req ↔ (entry.1, req.method) ∈ surface := by
  rw [RouteEntry.Handles, Option.isSome_iff_exists]
  simp only [hsurface.lookup_eq_some table hentry, exists_and_left,
    exists_eq, and_true]

/-- An entry that is asked calls its handler, or has none for the method. -/
theorem Plain.select_eq (hsurface : surface.Plain) {entry : RouteEntry m}
    (hentry : entry ∈ table.order) {req : Request} {found : Regex.Match}
    (hfound : entry.2.pattern.regexMatch (pathOf req.path) = some found) :
    entry.2.select req.method (queryParams req.path) found =
      if (entry.1, req.method) ∈ surface then
        .invoke (handlers entry.1 req.method)
          (bindCaptures entry.2.parameterNames found (queryParams req.path))
      else .own .methodNotAllowed := by
  rw [table.select_entry hsurface.plainTemplate hentry hfound]
  cases hhandler : entry.2.handlers.lookup req.method with
  | none =>
      refine (if_neg fun hoffered => ?_).symm
      have hsome := (hsurface.lookup_eq_some table hentry).mpr ⟨hoffered, rfl⟩
      rw [hhandler] at hsome
      cases hsome
  | some handler =>
      obtain ⟨hoffered, rfl⟩ :=
        (hsurface.lookup_eq_some table hentry).mp hhandler
      exact (if_pos hoffered).symm

/-- Some table asks a given path first. -/
theorem Plain.exists_front (hsurface : surface.Plain)
    (handlers : Str → Method → HandlerWithParams m) {each : Str × Method}
    (heach : each ∈ surface) :
    ∃ table : TableOf (surface.registrations handlers), ∀ req : Request,
      (∀ entry ∈ table.order, entry.1 = each.1 →
        RouteEntry.Matches entry req) →
      ∃ params, selected table.order req =
        if (each.1, req.method) ∈ surface then
          .invoke (handlers each.1 req.method) params
        else .own .methodNotAllowed := by
  obtain ⟨table⟩ := hsurface.exists_table handlers
  obtain ⟨entry, hentry, hpath⟩ := exists_entry table heach
  obtain ⟨front, rest, horder⟩ := table.exists_order_cons hentry
  refine ⟨front, fun req hmatches => ?_⟩
  have hfirst : entry ∈ front.order := horder ▸ List.mem_cons_self
  obtain ⟨found, hfound⟩ :=
    Option.isSome_iff_exists.mp (hmatches entry hfirst hpath)
  have hchoice : entry.choice req = some (entry.2.select req.method
      (queryParams req.path) found) := by
    rw [RouteEntry.choice, outcome, hfound]
    rfl
  refine ⟨bindCaptures entry.2.parameterNames found (queryParams req.path), ?_⟩
  rw [horder, selected_cons hchoice, hsurface.select_eq front hfirst hfound,
    hpath]

/-- Where paths that compete are offered with the same methods, the first entry
that matches speaks for all of them. -/
theorem Plain.honest (hsurface : surface.Plain) (hsame : surface.SameMethods)
    (req : Request) : Honest table.order req := by
  cases hfind : table.order.find?
      fun entry => RouteEntry.Matches entry req with
  | none => exact honest_of_no_match (by simpa using hfind)
  | some first =>
      have hmem := List.mem_of_find?_eq_some hfind
      have hmatches : RouteEntry.Matches first req := by
        simpa using List.find?_some hfind
      obtain ⟨found, hfound, hselected⟩ := selected_of_find?_some hfind
      rw [hsurface.select_eq table hmem hfound] at hselected
      by_cases hoffered : (first.1, req.method) ∈ surface
      · rw [if_pos hoffered] at hselected
        have hhandler := (hsurface.lookup_eq_some table hmem).mpr
          ⟨hoffered, rfl⟩
        exact honest_of_invoke hmem hfound hhandler hselected
      · rw [if_neg hoffered] at hselected
        apply (honest_iff_of_methodNotAllowed hmem hmatches hselected).mpr
        intro entry hentry hits hhandles
        obtain ⟨method, hfirst⟩ := exists_method table hmem
        apply hoffered
        exact hsame _ ((hsurface.handles_iff table hentry req).mp hhandles) _
          hfirst (hsurface.collide_of_matches table hentry hmem hits hmatches)

end Surface

/-- The order of the table cannot be noticed, whatever the handlers and the
requests, exactly when no two paths compete for a URL. -/
theorem orderIndependent_iff_conflictFree [Monad m] [LawfulMonad m]
    [Nontrivial (HandlerWithParams m)] {surface : Surface}
    (hsurface : surface.Plain) :
    (∀ (handlers : Str → Method → HandlerWithParams m) (req : Request),
      OrderIndependent (surface.registrations handlers) req) ↔
      surface.ConflictFree := by
  constructor
  · intro hindependent each heach other hother hne
    by_contra hcollide
    rw [Bool.not_eq_false] at hcollide
    obtain ⟨one, two, hdiffer⟩ := exists_pair_ne (HandlerWithParams m)
    let handlers : Str → Method → HandlerWithParams m :=
      fun path _ => if path = each.1 then one else two
    obtain ⟨req, hmethod, hmatches⟩ :=
      hsurface.exists_request each.2 heach hcollide
    obtain ⟨front, hfront⟩ := hsurface.exists_front handlers heach
    obtain ⟨back, hback⟩ := hsurface.exists_front handlers hother
    obtain ⟨params, hone⟩ := hfront req fun entry hentry hpath =>
      hmatches front entry hentry (Or.inl hpath)
    obtain ⟨params', htwo⟩ := hback req fun entry hentry hpath =>
      hmatches back entry hentry (Or.inr hpath)
    have hsame := (hindependent handlers req front back).1
    rw [hmethod] at hone htwo
    rw [hone, htwo, if_pos heach] at hsame
    split at hsame
    · have hhandlers := (Selection.invoke.inj hsame).1
      rw [show handlers each.1 each.2 = one from if_pos rfl,
        show handlers other.1 each.2 = two from if_neg hne.symm] at hhandlers
      exact hdiffer hhandlers
    · cases hsame
  · intro hfree handlers req table other
    have hsame := Surface.selected_eq hsurface hfree table other req
    refine ⟨hsame, ?_⟩
    rw [route_eq, route_eq]
    exact congrArg (fun selection => Except.ok <$> selection.respond req) hsame

/-- What `backend::StartServer` offers. -/
def tasksSurface : Surface :=
  [("/tasks".toList, .get), ("/tasks".toList, .post),
    ("/tasks/{:id}".toList, .get), ("/tasks/{:id}".toList, .delete)]

theorem plain_tasksSurface : tasksSurface.Plain :=
  ⟨by decide, by decide, by decide⟩

theorem answerWith_ne : answerWith ['1'] ≠ answerWith ['2'] := by
  intro heq
  have hanswers : (Except.ok ⟨.ok, ['1'], .textPlain⟩ :
      Except StdException Response) = .ok ⟨.ok, ['2'], .textPlain⟩ :=
    congrFun (congrFun heq (getPath [])) ∅
  cases hanswers

instance : Nontrivial (HandlerWithParams Id) :=
  ⟨answerWith ['1'], answerWith ['2'], answerWith_ne⟩

theorem orderIndependent_iff_conflictFree_tasks :
    tasksSurface.ConflictFree ∧
    ((∀ (handlers : Str → Method → HandlerWithParams Id) (req : Request),
      OrderIndependent (tasksSurface.registrations handlers) req) ↔
      tasksSurface.ConflictFree) :=
  ⟨by decide +kernel, orderIndependent_iff_conflictFree plain_tasksSurface⟩

/-- The own answers of `Route` are honest in every table, whatever the
handlers and the requests, exactly when paths that compete are offered with the
same methods. -/
theorem honest_iff_sameMethods [Nonempty (HandlerWithParams m)]
    {surface : Surface} (hsurface : surface.Plain) :
    (∀ (handlers : Str → Method → HandlerWithParams m)
      (table : TableOf (surface.registrations handlers)) (req : Request),
      Honest table.order req) ↔ surface.SameMethods := by
  constructor
  · intro hhonest each heach other hother hcollide
    by_contra hmissing
    obtain ⟨handler⟩ := ‹Nonempty (HandlerWithParams m)›
    obtain ⟨req, hmethod, hmatches⟩ :=
      hsurface.exists_request each.2 heach hcollide
    obtain ⟨back, hback⟩ := hsurface.exists_front (fun _ _ => handler) hother
    obtain ⟨first, hfirst, hpath⟩ := Surface.exists_entry back heach
    obtain ⟨params, hselected⟩ := hback req fun entry hentry hpath =>
      hmatches back entry hentry (Or.inr hpath)
    have hhandles : RouteEntry.Handles first req := by
      rw [hsurface.handles_iff back hfirst, hpath, hmethod]
      exact heach
    rw [hmethod, if_neg hmissing] at hselected
    exact ((hhonest _ back req).methodNotAllowed.mp hselected).2 first hfirst
      (hmatches back first hfirst (Or.inl hpath)) hhandles
  · intro hsame handlers table req
    exact hsurface.honest table hsame req

/-- `GET /a/{:id}` and `POST /a/b`: where they compete, 405 may be wrong. -/
theorem honest_iff_sameMethods_item :
    (∀ (handlers : Str → Method → HandlerWithParams Id)
      (table : TableOf (Surface.registrations
        [(itemPath, .get), (fixedPath, .post)] handlers)) (req : Request),
      Honest table.order req) ↔
      Surface.SameMethods [(itemPath, .get), (fixedPath, .post)] :=
  honest_iff_sameMethods ⟨by decide, by decide, by decide⟩

example : ¬ Surface.SameMethods [(itemPath, .get), (fixedPath, .post)] := by
  decide +kernel

end Rest

end JustQueueIt
