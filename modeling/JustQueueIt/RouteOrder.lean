/-
What the order of the route table decides.  `Route` stops at the first entry
whose pattern matches, so its choice depends on the order exactly where
entries that match disagree.
-/
import JustQueueIt.RegexTemplate
import JustQueueIt.RouteTables

namespace JustQueueIt

namespace Rest

variable {m : Type → Type}

/-- A table that some order of the registrations builds, in some order of its
entries. -/
structure TableOf (registrations : List (Registration m)) where
  calls : List (Registration m)
  permutes : calls.Perm registrations
  router : Router m
  built : register calls = .ok router
  order : List (RouteEntry m)
  iterates : order.Perm router.routes.entries

/-- What one entry makes of a request, if its pattern matches. -/
def RouteEntry.choice (entry : RouteEntry m) (req : Request) :
    Option (Selection m) :=
  outcome req.method (pathOf req.path) (queryParams req.path) entry

/-- `Route` calls the same handler with the same parameters, and returns the
same response, for every order of the calls to `AddRoute` and of the table. -/
def OrderIndependent [Monad m] (registrations : List (Registration m))
    (req : Request) : Prop :=
  ∀ table other : TableOf registrations,
    selected table.order req = selected other.order req ∧
      (route table.order req).run = (route other.order req).run

/-- All entries that match the path of the request make the same of it. -/
def TableOf.Agrees {registrations : List (Registration m)}
    (table : TableOf registrations) (req : Request) : Prop :=
  ∀ entry ∈ table.order, ∀ other ∈ table.order, ∀ its its',
    entry.choice req = some its → other.choice req = some its' → its = its'

theorem registered_eq_some {registrations : List (Registration m)}
    (hdistinct :
      (registrations.map fun each => (each.path, each.method)).Nodup)
    {path : Str} {method : Method} {handler : HandlerWithParams m} :
    registered registrations path method = some handler ↔
      ⟨path, method, handler⟩ ∈ registrations := by
  constructor
  · intro hfind
    obtain ⟨registration, hfound, rfl⟩ := Option.map_eq_some_iff.mp hfind
    have hmem := List.mem_reverse.mp (List.mem_of_find?_eq_some hfound)
    have hkey := List.find?_some hfound
    simp only [decide_eq_true_eq] at hkey
    rwa [← hkey.1, ← hkey.2]
  · intro hmem
    rw [registered]
    cases hfind : registrations.reverse.find? fun registration =>
        registration.path = path ∧ registration.method = method with
    | none =>
        have hnone := List.find?_eq_none.mp hfind _ (List.mem_reverse.mpr hmem)
        simp at hnone
    | some found =>
        have hfound := List.mem_reverse.mp (List.mem_of_find?_eq_some hfind)
        have hkey := List.find?_some hfind
        simp only [decide_eq_true_eq] at hkey
        have hsame := List.inj_on_of_nodup_map hdistinct hfound hmem
          (by simp [hkey])
        rw [hsame]
        rfl

theorem registered_perm {registrations others : List (Registration m)}
    (hperm : registrations.Perm others)
    (hdistinct :
      (registrations.map fun each => (each.path, each.method)).Nodup)
    (path : Str) (method : Method) :
    registered registrations path method = registered others path method := by
  refine Option.ext fun handler => ?_
  rw [registered_eq_some hdistinct,
    registered_eq_some ((hperm.map _).nodup_iff.mp hdistinct), hperm.mem_iff]

namespace TableOf

variable {registrations : List (Registration m)}

theorem mem_order (table : TableOf registrations) {entry : RouteEntry m} :
    entry ∈ table.order ↔
      table.router.routes.lookup entry.1 = some entry.2 := by
  rw [table.iterates.mem_iff]
  exact (AList.mem_lookup_iff (s := table.router.routes)).symm

theorem holds (table : TableOf registrations) :
    table.router.Holds table.calls :=
  holds_of_register table.built

/-- Every entry of one table stands in the other tables of the registrations,
up to the order of its handlers. -/
theorem exists_choice_eq (table other : TableOf registrations)
    (hdistinct :
      (registrations.map fun each => (each.path, each.method)).Nodup)
    {entry : RouteEntry m} (hmem : entry ∈ table.order) :
    ∃ same ∈ other.order, ∀ req : Request,
      RouteEntry.choice same req = RouteEntry.choice entry req := by
  have hlookup := table.mem_order.mp hmem
  have hentry := table.holds.entry table.iterates hmem
  have hcalls : table.calls.Perm other.calls :=
    table.permutes.trans other.permutes.symm
  have hpath : entry.1 ∈ other.router.routes := by
    obtain ⟨registration, hregistration, hname⟩ := hentry.registered
    exact (other.holds.paths entry.1).mpr
      ⟨registration, hcalls.mem_iff.mp hregistration, hname⟩
  obtain ⟨info, hinfo⟩ := Option.isSome_iff_exists.mp
    (AList.lookup_isSome.mpr hpath)
  have hpattern : info.pattern = entry.2.pattern := by
    have hcompile := other.holds.pattern _ _ hinfo
    rw [hentry.pattern] at hcompile
    exact (Except.ok.inj hcompile).symm
  have hnames : info.parameterNames = entry.2.parameterNames :=
    (other.holds.names _ _ hinfo).trans hentry.names.symm
  have hhandlers : ∀ method,
      info.handlers.lookup method = entry.2.handlers.lookup method := by
    intro method
    have hother := other.holds.handlers entry.1 method
    have htable := table.holds.handlers entry.1 method
    rw [Router.handlersOf, hinfo] at hother
    rw [Router.handlersOf, hlookup] at htable
    rw [hother, htable]
    refine (registered_perm hcalls ?_ _ _).symm
    exact (table.permutes.map _).nodup_iff.mpr hdistinct
  refine ⟨⟨entry.1, info⟩, other.mem_order.mpr hinfo, fun req => ?_⟩
  simp only [RouteEntry.choice, outcome, hpattern]
  congr 1
  funext found
  simp only [RouteInfo.select, hnames, hhandlers]

/-- The same table, visited from one of its entries on. -/
theorem exists_order_cons (table : TableOf registrations)
    {entry : RouteEntry m} (hmem : entry ∈ table.order) :
    ∃ (other : TableOf registrations) (rest : List (RouteEntry m)),
      other.order = entry :: rest := by
  obtain ⟨before, after, hsplit⟩ := List.append_of_mem hmem
  have hperm : (entry :: (before ++ after)).Perm table.order := by
    rw [hsplit]
    exact List.perm_middle.symm
  exact ⟨{ table with
    order := entry :: (before ++ after)
    iterates := hperm.trans table.iterates }, before ++ after, rfl⟩

end TableOf

theorem selected_cons {entry : RouteEntry m} {rest : List (RouteEntry m)}
    {req : Request} {its : Selection m}
    (hchoice : RouteEntry.choice entry req = some its) :
    selected (entry :: rest) req = its := by
  rw [RouteEntry.choice] at hchoice
  rw [selected, select_eq_findSome?, List.findSome?_cons, hchoice]
  rfl

/-- Routing does not depend on orders exactly when the entries that match
agree. -/
theorem orderIndependent_iff [Monad m] [LawfulMonad m]
    {registrations : List (Registration m)}
    (hdistinct :
      (registrations.map fun each => (each.path, each.method)).Nodup)
    (table : TableOf registrations) (req : Request) :
    OrderIndependent registrations req ↔ table.Agrees req := by
  constructor
  · intro hindependent entry hentry other hother its its' hits hits'
    obtain ⟨first, rest, hfirst⟩ := table.exists_order_cons hentry
    obtain ⟨second, rest', hsecond⟩ := table.exists_order_cons hother
    have hsame := (hindependent first second).1
    rwa [hfirst, hsecond, selected_cons hits, selected_cons hits'] at hsame
  · intro hagrees
    have hselected : ∀ other : TableOf registrations,
        selected other.order req = selected table.order req := by
      intro other
      by_cases hnone : ∀ entry ∈ table.order,
          RouteEntry.choice entry req = none
      · rw [selected, selected, select_of_none hnone, select_of_none]
        intro entry hentry
        obtain ⟨same, hmem, hsame⟩ :=
          other.exists_choice_eq table hdistinct hentry
        exact (hsame req).symm.trans (hnone same hmem)
      · push Not at hnone
        obtain ⟨entry, hentry, hchoice⟩ := hnone
        obtain ⟨its, hits⟩ := Option.ne_none_iff_exists'.mp hchoice
        obtain ⟨copy, hcopy, hcopies⟩ :=
          table.exists_choice_eq other hdistinct hentry
        have hall : selected table.order req = its :=
          select_of_agree hentry hits fun other hother its' hits' =>
            hagrees other hother entry hentry its' its hits' hits
        rw [hall]
        apply select_of_agree hcopy ((hcopies req).trans hits)
        intro second hsecond its' hits'
        obtain ⟨same, hmem, hsame⟩ :=
          other.exists_choice_eq table hdistinct hsecond
        exact hagrees same hmem entry hentry its' its
          ((hsame req).trans hits') hits
    intro first second
    have hsame := (hselected first).trans (hselected second).symm
    refine ⟨hsame, ?_⟩
    rw [route_eq, route_eq]
    exact congrArg (fun selection => Except.ok <$> selection.respond req) hsame

def answerWith (body : Str) : HandlerWithParams Id :=
  fun _ _ => pure ⟨.ok, body, .textPlain⟩

def itemPath : Str :=
  "/a/{:id}".toList

def fixedPath : Str :=
  "/a/b".toList

/-- `GET /a/{:id}`, and another handler on `/a/b`. -/
def overlapping (method : Method) : List (Registration Id) :=
  [⟨itemPath, .get, answerWith ['1']⟩, ⟨fixedPath, method, answerWith ['2']⟩]

def itemEntry : RouteEntry Id where
  fst := itemPath
  snd := {
    pattern := ⟨.anchored fun tail =>
      .literal "/a/".toList (.seq (.segment 1 '/') tail), 1⟩
    parameterNames := ["id".toList]
    handlers := (∅ : Handlers Id).assign .get (answerWith ['1']) }

def fixedEntry (method : Method) : RouteEntry Id where
  fst := fixedPath
  snd := {
    pattern := ⟨.anchored (.literal fixedPath), 0⟩
    parameterNames := []
    handlers := (∅ : Handlers Id).assign method (answerWith ['2']) }

/-- The table with the fixed path in front. -/
def fixedFirst (method : Method) : TableOf (overlapping method) where
  calls := overlapping method
  permutes := List.Perm.refl _
  router := ⟨(AList.insert itemPath itemEntry.2 ∅).insert fixedPath
    (fixedEntry method).2⟩
  built := rfl
  order := [fixedEntry method, itemEntry]
  iterates := List.Perm.refl _

/-- The table with the placeholder in front. -/
def itemFirst (method : Method) : TableOf (overlapping method) where
  calls := overlapping method
  permutes := List.Perm.refl _
  router := ⟨(AList.insert itemPath itemEntry.2 ∅).insert fixedPath
    (fixedEntry method).2⟩
  built := rfl
  order := [itemEntry, fixedEntry method]
  iterates := List.Perm.swap ..

/-- A `GET` without body. -/
def getPath (path : Str) : Request where
  method := .get
  path := path
  contentType := .textPlain
  acceptContentType := .textPlain

/-- A path that one template matches is routed the same way in every order. -/
theorem orderIndependent_overlapping_otherItem :
    OrderIndependent (overlapping .get) (getPath "/a/c".toList) := by
  apply (orderIndependent_iff (by decide) (fixedFirst .get) _).mpr
  have hfixed : RouteEntry.choice (fixedEntry .get)
      (getPath "/a/c".toList) = none := rfl
  intro entry hentry other hother its its' hits hits'
  rcases List.mem_pair.mp hentry with rfl | rfl
  · rw [hfixed] at hits
    cases hits
  · rcases List.mem_pair.mp hother with rfl | rfl
    · rw [hfixed] at hits'
      cases hits'
    · exact Option.some.inj (hits.symm.trans hits')

/-- `GET /a/b` gets the answer of the template that comes first. -/
theorem not_orderIndependent_overlapping :
    ¬ OrderIndependent (overlapping .get) (getPath fixedPath) := by
  intro hindependent
  have hsame := (hindependent (itemFirst .get) (fixedFirst .get)).2
  have hanswers : (Except.ok ⟨.ok, ['1'], .textPlain⟩ :
      Except StdException Response) = .ok ⟨.ok, ['2'], .textPlain⟩ := hsame
  cases hanswers

end Rest

end JustQueueIt
