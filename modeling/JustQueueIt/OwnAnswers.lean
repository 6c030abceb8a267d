/-
The answers `Route` gives of its own.  The method is looked up in the first
entry whose pattern matches and in no other, so 405 is also answered when a
later entry that matches has a handler for the method.
-/
import JustQueueIt.RouteOrder

namespace JustQueueIt

namespace Rest

variable {m : Type → Type}

def RouteEntry.Matches (entry : RouteEntry m) (req : Request) : Prop :=
  (entry.2.pattern.regexMatch (pathOf req.path)).isSome

def RouteEntry.Handles (entry : RouteEntry m) (req : Request) : Prop :=
  (entry.2.handlers.lookup req.method).isSome

instance (entry : RouteEntry m) (req : Request) :
    Decidable (entry.Matches req) :=
  inferInstanceAs (Decidable (_ = true))

/-- A handler is called when some entry that matches has one for the method,
405 is answered when none of the entries that match has one, and 404 when no
entry matches. -/
structure Honest (order : List (RouteEntry m)) (req : Request) : Prop where
  served : (∃ entry ∈ order, RouteEntry.Matches entry req ∧
      RouteEntry.Handles entry req) →
    ∃ entry ∈ order, ∃ found handler,
      entry.2.pattern.regexMatch (pathOf req.path) = some found ∧
        entry.2.handlers.lookup req.method = some handler ∧
        selected order req = .invoke handler
          (bindCaptures entry.2.parameterNames found (queryParams req.path))
  methodNotAllowed : selected order req = .own .methodNotAllowed ↔
    (∃ entry ∈ order, RouteEntry.Matches entry req) ∧
      ∀ entry ∈ order, RouteEntry.Matches entry req →
        ¬ RouteEntry.Handles entry req
  notFound : selected order req = .own .notFound ↔
    ∀ entry ∈ order, ¬ RouteEntry.Matches entry req

/-- If some entry that matches has a handler for the method, the first entry
that matches has one. -/
def FirstHandles (order : List (RouteEntry m)) (req : Request) : Prop :=
  ∀ first, order.find? (fun entry => RouteEntry.Matches entry req) =
      some first →
    (∃ entry ∈ order, RouteEntry.Matches entry req ∧
      RouteEntry.Handles entry req) →
    RouteEntry.Handles first req

/-- A template without capture groups of its own. -/
def PlainTemplate (path : Str) : Prop :=
  ∀ pattern, compilePath path = .ok pattern →
    pattern.markCount = (parameterNames path).length

theorem selected_of_find?_none {order : List (RouteEntry m)} {req : Request}
    (hfind : order.find? (fun entry => RouteEntry.Matches entry req) = none) :
    selected order req = .own .notFound := by
  refine select_of_none fun entry hentry => ?_
  have hnot : ¬ RouteEntry.Matches entry req := by
    simpa using List.find?_eq_none.mp hfind entry hentry
  simpa [RouteEntry.Matches, outcome] using hnot

theorem selected_of_find?_some {order : List (RouteEntry m)} {req : Request}
    {first : RouteEntry m}
    (hfind : order.find? (fun entry => RouteEntry.Matches entry req) =
      some first) :
    ∃ found, first.2.pattern.regexMatch (pathOf req.path) = some found ∧
      selected order req =
        first.2.select req.method (queryParams req.path) found := by
  induction order with
  | nil => cases hfind
  | cons entry rest ih =>
      rw [selected, select]
      cases hmatch : entry.2.pattern.regexMatch (pathOf req.path) with
      | none =>
          rw [List.find?_cons_of_neg (by simp [RouteEntry.Matches, hmatch])]
            at hfind
          exact ih hfind
      | some found =>
          rw [List.find?_cons_of_pos (by simp [RouteEntry.Matches, hmatch])]
            at hfind
          obtain rfl := Option.some.inj hfind
          exact ⟨found, hmatch, rfl⟩

/-- In a table of plain templates an entry that matches calls its handler or
answers 405. -/
theorem TableOf.select_entry {registrations : List (Registration m)}
    (table : TableOf registrations)
    (hplain : ∀ each ∈ registrations, PlainTemplate each.path)
    {entry : RouteEntry m} (hmem : entry ∈ table.order) {url : Str}
    {found : Regex.Match}
    (hmatch : entry.2.pattern.regexMatch url = some found) (method : Method)
    (params : Params) :
    entry.2.select method params found =
      match entry.2.handlers.lookup method with
      | none => .own .methodNotAllowed
      | some handler =>
          .invoke handler
            (bindCaptures entry.2.parameterNames found params) := by
  have hentry := table.holds.entry table.iterates hmem
  obtain ⟨registration, hregistration, hpath⟩ := hentry.registered
  have hmarks := hplain registration
    (table.permutes.mem_iff.mp hregistration) entry.2.pattern
    (hpath ▸ hentry.pattern)
  have hsize : found.size = entry.2.parameterNames.length + 1 := by
    rw [Regex.Match.size, Regex.Compiled.markCount_of_regexMatch hmatch, hmarks,
      hentry.names, hpath]
  cases hhandler : entry.2.handlers.lookup method with
  | none => simp only [RouteInfo.select, if_neg (not_not_intro hsize), hhandler]
  | some handler =>
      simp only [RouteInfo.select, if_neg (not_not_intro hsize), hhandler]

variable {order : List (RouteEntry m)} {req : Request}

theorem honest_of_no_match
    (hnone : ∀ entry ∈ order, ¬ RouteEntry.Matches entry req) :
    Honest order req := by
  have hselected : selected order req = .own .notFound :=
    selected_of_find?_none (List.find?_eq_none.mpr (by simpa using hnone))
  refine ⟨?_, ?_, iff_of_true hselected hnone⟩
  · rintro ⟨entry, hentry, hmatches, -⟩
    exact absurd hmatches (hnone entry hentry)
  · rw [hselected]
    refine iff_of_false (by simp [Response.notFound,
      Response.methodNotAllowed]) ?_
    rintro ⟨⟨entry, hentry, hmatches⟩, -⟩
    exact hnone entry hentry hmatches

/-- A handler that is called is the one asked for. -/
theorem honest_of_invoke {entry : RouteEntry m} (hmem : entry ∈ order)
    {found : Regex.Match}
    (hfound : entry.2.pattern.regexMatch (pathOf req.path) = some found)
    {handler : HandlerWithParams m}
    (hhandler : entry.2.handlers.lookup req.method = some handler)
    (hselected : selected order req = .invoke handler
      (bindCaptures entry.2.parameterNames found (queryParams req.path))) :
    Honest order req := by
  have hmatches : RouteEntry.Matches entry req := by
    simp [RouteEntry.Matches, hfound]
  have hhandles : RouteEntry.Handles entry req := by
    simp [RouteEntry.Handles, hhandler]
  refine ⟨fun _ => ⟨entry, hmem, found, handler, hfound, hhandler, hselected⟩,
    ?_, ?_⟩
  · rw [hselected]
    exact iff_of_false (by simp) fun h => h.2 entry hmem hmatches hhandles
  · rw [hselected]
    exact iff_of_false (by simp) fun h => h entry hmem hmatches

/-- An answer with 405 is honest if no entry that matches has a handler. -/
theorem honest_iff_of_methodNotAllowed {first : RouteEntry m}
    (hmem : first ∈ order) (hmatches : RouteEntry.Matches first req)
    (hselected : selected order req = .own .methodNotAllowed) :
    Honest order req ↔ ∀ entry ∈ order, RouteEntry.Matches entry req →
      ¬ RouteEntry.Handles entry req := by
  constructor
  · intro hhonest
    exact (hhonest.methodNotAllowed.mp hselected).2
  · intro hnone
    refine ⟨?_, iff_of_true hselected ⟨⟨first, hmem, hmatches⟩, hnone⟩, ?_⟩
    · rintro ⟨entry, hentry, hits, hhandles⟩
      exact absurd hhandles (hnone entry hentry hits)
    · rw [hselected]
      exact iff_of_false (by simp [Response.notFound,
        Response.methodNotAllowed]) fun h => h first hmem hmatches

/-- The own answers of `Route` are honest exactly when the first entry that
matches has a handler if any entry that matches has one. -/
theorem honest_iff {registrations : List (Registration m)}
    (table : TableOf registrations)
    (hplain : ∀ each ∈ registrations, PlainTemplate each.path)
    (req : Request) :
    Honest table.order req ↔ FirstHandles table.order req := by
  cases hfind : table.order.find?
      fun entry => RouteEntry.Matches entry req with
  | none =>
      refine iff_of_true (honest_of_no_match (by simpa using hfind)) ?_
      intro first hfirst
      rw [hfind] at hfirst
      cases hfirst
  | some first =>
      have hmem := List.mem_of_find?_eq_some hfind
      have hmatches : RouteEntry.Matches first req := by
        simpa using List.find?_some hfind
      obtain ⟨found, hfound, hselected⟩ := selected_of_find?_some hfind
      rw [table.select_entry hplain hmem hfound] at hselected
      have hfirst : FirstHandles table.order req ↔
          ((∃ entry ∈ table.order, RouteEntry.Matches entry req ∧
            RouteEntry.Handles entry req) → RouteEntry.Handles first req) := by
        simp only [FirstHandles, hfind, Option.some.injEq, forall_eq']
      rw [hfirst]
      cases hhandler : first.2.handlers.lookup req.method with
      | some handler =>
          rw [hhandler] at hselected
          exact iff_of_true (honest_of_invoke hmem hfound hhandler hselected)
            fun _ => by simp [RouteEntry.Handles, hhandler]
      | none =>
          have hnot : ¬ RouteEntry.Handles first req := by
            simp [RouteEntry.Handles, hhandler]
          rw [hhandler] at hselected
          rw [honest_iff_of_methodNotAllowed hmem hmatches hselected]
          constructor
          · rintro hnone ⟨entry, hentry, hits, hhandles⟩
            exact absurd hhandles (hnone entry hentry hits)
          · intro hall entry hentry hits hhandles
            exact hnot (hall ⟨entry, hentry, hits, hhandles⟩)

theorem plainTemplate_overlapping (method : Method) :
    ∀ each ∈ overlapping method, PlainTemplate each.path := by
  intro each heach pattern hpattern
  rcases List.mem_pair.mp heach with rfl | rfl
  · have hitem : compilePath itemPath = .ok itemEntry.2.pattern := rfl
    obtain rfl := Except.ok.inj (hpattern.symm.trans hitem)
    rfl
  · have hfixed : compilePath fixedPath = .ok (fixedEntry method).2.pattern :=
      rfl
    obtain rfl := Except.ok.inj (hpattern.symm.trans hfixed)
    rfl

/-- With the placeholder in front, `GET /a/b` reaches its handler. -/
theorem honest_itemFirst :
    Honest (itemFirst .post).order (getPath fixedPath) := by
  apply (honest_iff (itemFirst .post) (plainTemplate_overlapping _) _).mpr
  intro first hfirst _
  obtain rfl := Option.some.inj (hfirst.symm.trans
    (rfl : _ = some itemEntry))
  rfl

/-- With the fixed path in front, `GET /a/b` is answered with 405 although
`/a/{:id}` has a `GET` handler. -/
theorem not_honest_fixedFirst :
    ¬ Honest (fixedFirst .post).order (getPath fixedPath) := by
  intro hhonest
  have hselected : selected (fixedFirst .post).order (getPath fixedPath) =
      .own .methodNotAllowed := rfl
  obtain ⟨entry, -, _, _, -, -, hinvoke⟩ := hhonest.served
    ⟨itemEntry, List.mem_cons_of_mem _ List.mem_cons_self, rfl, rfl⟩
  rw [hselected] at hinvoke
  cases hinvoke

end Rest

end JustQueueIt
