/-
Route tables that registrations build.  An entry is determined by its path and
the handlers registered for it; the order of the registrations and the order in
which the table is visited decide nothing else.
-/
import JustQueueIt.RestRouter

namespace JustQueueIt

namespace Rest

variable {m : Type → Type}

/-- One call of `AddRoute`, with the handler as `AddRouteImpl` gets it. -/
structure Registration (m : Type → Type) where
  path : Str
  method : Method
  handler : HandlerWithParams m

def addRegistration (router : Router m) (registration : Registration m) :
    Except StdException (Router m) :=
  router.addRouteImpl registration.path registration.method
    (some registration.handler)

/-- Registrations one after the other on an empty router. -/
def register (registrations : List (Registration m)) :
    Except StdException (Router m) :=
  registrations.foldlM addRegistration Router.empty

/-- The handler registered last for a path and a method. -/
def registered (registrations : List (Registration m)) (path : Str)
    (method : Method) : Option (HandlerWithParams m) :=
  (registrations.reverse.find? fun registration =>
    registration.path = path ∧ registration.method = method).map (·.handler)

/-- What a table owes to the registrations that built it. -/
structure Router.Holds (router : Router m)
    (registrations : List (Registration m)) : Prop where
  pattern : ∀ path info, router.routes.lookup path = some info →
    compilePath path = .ok info.pattern
  names : ∀ path info, router.routes.lookup path = some info →
    info.parameterNames = parameterNames path
  paths : ∀ path, path ∈ router.routes ↔
    ∃ registration ∈ registrations, registration.path = path
  handlers : ∀ path method, (router.handlersOf path).lookup method =
    registered registrations path method

theorem registered_concat (registrations : List (Registration m))
    (registration : Registration m) (path : Str) (method : Method) :
    registered (registrations ++ [registration]) path method =
      if registration.path = path ∧ registration.method = method then
        some registration.handler
      else registered registrations path method := by
  rw [registered, List.reverse_concat, List.find?_cons]
  split_ifs with hsame
  · simp [hsame]
  · simp [hsame, registered]

/-- What a registration that is accepted does to a router. -/
theorem addRegistration_eq_ok {router after : Router m}
    {registration : Registration m}
    (hadd : addRegistration router registration = .ok after) :
    ∃ pattern, compilePath registration.path = .ok pattern ∧
      after = ⟨router.routes.insert registration.path
        ⟨pattern, parameterNames registration.path,
          (router.handlersOf registration.path).assign registration.method
            registration.handler⟩⟩ := by
  by_cases hpath : registration.path.head? = some '/'
  · rw [addRegistration, Router.addRouteImpl_eq _ hpath] at hadd
    cases hcompile : compilePath registration.path with
    | error e =>
        rw [hcompile] at hadd
        cases hadd
    | ok pattern =>
        rw [hcompile] at hadd
        exact ⟨pattern, rfl, (Except.ok.inj hadd).symm⟩
  · simp [addRegistration, Router.addRouteImpl, hpath] at hadd

theorem Router.holds_empty : (Router.empty : Router m).Holds [] where
  pattern path info hinfo := by cases hinfo
  names path info hinfo := by cases hinfo
  paths path := iff_of_false (AList.notMem_empty path) (by simp)
  handlers path method := rfl

/-- A registration keeps the table in step with the registrations. -/
theorem Router.Holds.addRegistration {router after : Router m}
    {registrations : List (Registration m)} {registration : Registration m}
    (hholds : router.Holds registrations)
    (hadd : Rest.addRegistration router registration = .ok after) :
    after.Holds (registrations ++ [registration]) := by
  obtain ⟨pattern, hpattern, rfl⟩ := addRegistration_eq_ok hadd
  constructor
  case pattern =>
    intro path info hinfo
    by_cases heq : path = registration.path
    · subst heq
      rw [AList.lookup_insert] at hinfo
      rw [hpattern, ← Option.some.inj hinfo]
    · rw [AList.lookup_insert_ne heq] at hinfo
      exact hholds.pattern path info hinfo
  case names =>
    intro path info hinfo
    by_cases heq : path = registration.path
    · subst heq
      rw [AList.lookup_insert] at hinfo
      rw [← Option.some.inj hinfo]
    · rw [AList.lookup_insert_ne heq] at hinfo
      exact hholds.names path info hinfo
  case paths =>
    intro path
    rw [AList.mem_insert, hholds.paths]
    simp only [List.mem_append, List.mem_singleton]
    grind
  case handlers =>
    intro path method
    rw [registered_concat]
    by_cases heq : path = registration.path
    · subst heq
      simp only [handlersOf, AList.lookup_insert, Handlers.lookup_assign,
        true_and, eq_comm (a := method)]
      rw [← hholds.handlers, handlersOf]
    · rw [if_neg fun h => heq h.1.symm, ← hholds.handlers]
      simp only [handlersOf, AList.lookup_insert_ne heq]

theorem holds_of_foldlM {registrations done : List (Registration m)}
    {router after : Router m} (hholds : router.Holds done)
    (hfold : registrations.foldlM addRegistration router = .ok after) :
    after.Holds (done ++ registrations) := by
  induction registrations generalizing router done with
  | nil =>
      obtain rfl := Except.ok.inj hfold
      rwa [List.append_nil]
  | cons registration rest ih =>
      rw [List.foldlM_cons] at hfold
      cases hadd : addRegistration router registration with
      | error e =>
          rw [hadd] at hfold
          cases hfold
      | ok next =>
          rw [hadd] at hfold
          have hall := ih (hholds.addRegistration hadd) hfold
          rwa [List.append_assoc, List.singleton_append] at hall

theorem holds_of_register {registrations : List (Registration m)}
    {router : Router m} (hregister : register registrations = .ok router) :
    router.Holds registrations :=
  holds_of_foldlM Router.holds_empty hregister

/-- What is known of an entry the loop visits. -/
structure EntryOf (registrations : List (Registration m))
    (entry : RouteEntry m) : Prop where
  pattern : compilePath entry.1 = .ok entry.2.pattern
  names : entry.2.parameterNames = parameterNames entry.1
  registered : ∃ each ∈ registrations, each.path = entry.1

theorem Router.lookup_of_mem {router : Router m}
    {order : List (RouteEntry m)} (horder : order.Perm router.routes.entries)
    {entry : RouteEntry m} (hmem : entry ∈ order) :
    router.routes.lookup entry.1 = some entry.2 :=
  AList.mem_lookup_iff.mpr (horder.mem_iff.mp hmem)

theorem Router.Holds.entry {registrations : List (Registration m)}
    {router : Router m} (hholds : router.Holds registrations)
    {order : List (RouteEntry m)} (horder : order.Perm router.routes.entries)
    {entry : RouteEntry m} (hmem : entry ∈ order) :
    EntryOf registrations entry := by
  have hlookup := Router.lookup_of_mem horder hmem
  refine ⟨hholds.pattern _ _ hlookup, hholds.names _ _ hlookup, ?_⟩
  apply (hholds.paths entry.1).mp
  exact AList.lookup_isSome.mp (Option.isSome_iff_exists.mpr ⟨_, hlookup⟩)

end Rest

end JustQueueIt
