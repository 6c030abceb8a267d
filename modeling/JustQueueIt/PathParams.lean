/-
What a handler sees: the placeholders of the selected template have their
captures, every other key comes from the query, and the query decides nothing
else.
-/
import JustQueueIt.QueryFormat
import JustQueueIt.RouteOrder

namespace JustQueueIt

namespace Rest

variable {m : Type → Type}

/-- The first entry whose pattern matches the url, with its match. -/
def firstMatch (url : Str) :
    List (RouteEntry m) → Option (RouteEntry m × Regex.Match)
  | [] => none
  | entry :: rest =>
      match entry.2.pattern.regexMatch url with
      | some found => some (entry, found)
      | none => firstMatch url rest

theorem firstMatch_mem {url : Str} {order : List (RouteEntry m)}
    {entry : RouteEntry m} {found : Regex.Match}
    (hfirst : firstMatch url order = some (entry, found)) :
    entry ∈ order ∧ entry.2.pattern.regexMatch url = some found := by
  induction order with
  | nil => cases hfirst
  | cons head rest ih =>
      rw [firstMatch] at hfirst
      cases hmatch : head.2.pattern.regexMatch url with
      | none =>
          rw [hmatch] at hfirst
          exact ⟨List.mem_cons_of_mem head (ih hfirst).1, (ih hfirst).2⟩
      | some its =>
          rw [hmatch] at hfirst
          obtain ⟨rfl, rfl⟩ := Prod.mk.inj (Option.some.inj hfirst)
          exact ⟨List.mem_cons_self, hmatch⟩

theorem select_of_firstMatch {method : Method} {url : Str} {params : Params}
    {order : List (RouteEntry m)} {entry : RouteEntry m}
    {found : Regex.Match}
    (hfirst : firstMatch url order = some (entry, found)) :
    select method url params order = entry.2.select method params found := by
  induction order with
  | nil => cases hfirst
  | cons head rest ih =>
      rw [firstMatch] at hfirst
      rw [select]
      cases hmatch : head.2.pattern.regexMatch url with
      | none =>
          rw [hmatch] at hfirst
          exact ih hfirst
      | some its =>
          rw [hmatch] at hfirst
          obtain ⟨rfl, rfl⟩ := Prod.mk.inj (Option.some.inj hfirst)
          rfl

theorem select_of_firstMatch_none {method : Method} {url : Str}
    {params : Params} {order : List (RouteEntry m)}
    (hfirst : firstMatch url order = none) :
    select method url params order = .own .notFound := by
  induction order with
  | nil => rfl
  | cons head rest ih =>
      rw [firstMatch] at hfirst
      rw [select]
      cases hmatch : head.2.pattern.regexMatch url with
      | none =>
          rw [hmatch] at hfirst
          exact ih hfirst
      | some its =>
          rw [hmatch] at hfirst
          cases hfirst

/-- The matched route either answers by itself, whatever the parameters are,
or hands them to the handler of the method with its captures bound. -/
theorem RouteInfo.select_cases (route : RouteInfo m) (method : Method)
    (found : Regex.Match) :
    (∃ response, ∀ params,
      route.select method params found = .own response) ∨
    ∃ handler, route.handlers.lookup method = some handler ∧
      ∀ params, route.select method params found =
        .invoke handler (bindCaptures route.parameterNames found params) := by
  by_cases hsize : found.size = route.parameterNames.length + 1
  · cases hhandler : route.handlers.lookup method with
    | none =>
        refine Or.inl ⟨.methodNotAllowed, fun params => ?_⟩
        simp [RouteInfo.select, hsize, hhandler]
    | some handler =>
        refine Or.inr ⟨handler, rfl, fun params => ?_⟩
        simp [RouteInfo.select, hsize, hhandler]
  · exact Or.inl ⟨.internalServerError, fun params => by
      simp [RouteInfo.select, hsize]⟩

/-- A handler that is called belongs to the first entry that matches and gets
its captures. -/
theorem params_of_firstMatch {order : List (RouteEntry m)} {req : Request}
    {handler : HandlerWithParams m} {params : Params}
    (hselected : selected order req = .invoke handler params)
    {entry : RouteEntry m} {found : Regex.Match}
    (hfirst : firstMatch (pathOf req.path) order = some (entry, found)) :
    entry.2.handlers.lookup req.method = some handler ∧
      params = bindCaptures entry.2.parameterNames found
        (queryParams req.path) := by
  rw [selected, select_of_firstMatch hfirst] at hselected
  rcases entry.2.select_cases req.method found with
    ⟨response, hown⟩ | ⟨its, hits, hinvoke⟩
  · rw [hown] at hselected
    cases hselected
  · rw [hinvoke] at hselected
    obtain ⟨rfl, rfl⟩ := Selection.invoke.inj hselected
    exact ⟨hits, rfl⟩

theorem bindCaptures_eq (names : List Str) (found : Regex.Match)
    (params : Params) :
    bindCaptures names found params =
      LastWrite.assignAll Prod.fst (fun name => found.get (name.2 + 1))
        names.zipIdx params := rfl

/-- A name is bound to the last capture that carries it. -/
theorem bindCaptures_lookup {names : List Str} {i : Nat} {name : Str}
    (hname : names[i]? = some name)
    (hlast : ∀ j, i < j → names[j]? ≠ some name) (found : Regex.Match)
    (params : Params) :
    (bindCaptures names found params).lookup name =
      some (found.get (i + 1)) := by
  have hzip : names.zipIdx[i]? = some (name, i) := by
    rw [List.getElem?_zipIdx, hname]
    simp
  have hvalue : LastWrite.lastValue Prod.fst
      (fun name : Str × Nat => found.get (name.2 + 1)) names.zipIdx name =
        some (found.get (i + 1)) := by
    apply LastWrite.lastValue_of_getElem? hzip
    intro j other hj hother hsame
    rw [List.getElem?_zipIdx, Option.map_eq_some_iff] at hother
    obtain ⟨word, hword, rfl⟩ := hother
    obtain rfl : word = name := hsame
    exact hlast j hj hword
  rw [bindCaptures_eq, LastWrite.lookup_assignAll, hvalue]
  rfl

theorem bindCaptures_lookup_of_notMem {names : List Str} {key : Str}
    (hkey : key ∉ names) (found : Regex.Match) (params : Params) :
    (bindCaptures names found params).lookup key = params.lookup key := by
  have hnone : LastWrite.lastValue Prod.fst
      (fun name : Str × Nat => found.get (name.2 + 1)) names.zipIdx key =
        none := by
    apply LastWrite.lastValue_eq_none_iff.mpr
    rintro ⟨name, i⟩ hmem rfl
    exact hkey (List.fst_mem_of_mem_zipIdx hmem)
  rw [bindCaptures_eq, LastWrite.lookup_assignAll, hnone, Option.none_or]

/-- A name that occurs has a last occurrence. -/
theorem exists_last_getElem? {names : List Str} {name : Str}
    (hname : name ∈ names) :
    ∃ i : Nat, names[i]? = some name ∧
      ∀ j, i < j → names[j]? ≠ some name := by
  induction names with
  | nil => cases hname
  | cons head rest ih =>
      by_cases hrest : name ∈ rest
      · obtain ⟨i, hi, hlast⟩ := ih hrest
        refine ⟨i + 1, hi, fun j hj => ?_⟩
        cases j with
        | zero => omega
        | succ j => exact hlast j (by omega)
      · obtain rfl : name = head := (List.mem_cons.mp hname).resolve_right hrest
        refine ⟨0, rfl, fun j hj hsame => hrest ?_⟩
        cases j with
        | zero => omega
        | succ j => exact List.mem_of_getElem? hsame

/-- The parameters of a handler: each placeholder name has the last capture
that carries it, any other key its value in the query, and there is no further
key. -/
structure BoundParams (names : List Str) (found : Regex.Match)
    (segments : List Str) (params : Params) : Prop where
  captured : ∀ i name, names[i]? = some name →
    (∀ j, i < j → names[j]? ≠ some name) →
    params.lookup name = some (found.get (i + 1))
  fromQuery : ∀ key value, key ∉ names → LastSegment segments key value →
    params.lookup key = some value
  noFurther : ∀ key ∈ params,
    key ∈ names ∨ ∃ segment ∈ segments, keyOf segment = key

theorem boundParams_bindCaptures (names : List Str) (found : Regex.Match)
    (url : Str) :
    BoundParams names found (querySegments url)
      (bindCaptures names found (queryParams url)) := by
  constructor
  case captured =>
    intro i name hname hlast
    exact bindCaptures_lookup hname hlast found _
  case fromQuery =>
    intro key value hkey hsegment
    rw [bindCaptures_lookup_of_notMem hkey, queryParams_eq]
    exact (lookup_segments _ _ _).mpr hsegment
  case noFurther =>
    intro key hkey
    by_cases hname : key ∈ names
    · exact Or.inl hname
    · right
      rw [← Finmap.lookup_isSome, bindCaptures_lookup_of_notMem hname,
        Option.isSome_iff_exists] at hkey
      obtain ⟨value, hvalue⟩ := hkey
      rw [queryParams_eq] at hvalue
      obtain ⟨before, segment, after, hsplit, hsegment, -⟩ :=
        (lookup_segments _ _ _).mp hvalue
      exact ⟨segment, by simp [hsplit], hsegment⟩

/-- Two requests get the same answer of `Route`'s own, or the same handler of
the same route with the same value for each of its placeholder names. -/
def SameRouting (order : List (RouteEntry m)) (req other : Request) : Prop :=
  (∃ response, selected order req = .own response ∧
    selected order other = .own response) ∨
  ∃ entry found handler params params',
    firstMatch (pathOf req.path) order = some (entry, found) ∧
    firstMatch (pathOf other.path) order = some (entry, found) ∧
    selected order req = .invoke handler params ∧
    selected order other = .invoke handler params' ∧
    ∀ name ∈ entry.2.parameterNames, params.lookup name = params'.lookup name

theorem selected_boundParams {order : List (RouteEntry m)} {req : Request}
    {handler : HandlerWithParams m} {params : Params}
    (hselected : selected order req = .invoke handler params) :
    ∃ entry found, firstMatch (pathOf req.path) order = some (entry, found) ∧
      entry.2.handlers.lookup req.method = some handler ∧
      BoundParams entry.2.parameterNames found (querySegments req.path)
        params := by
  cases hfirst : firstMatch (pathOf req.path) order with
  | none =>
      rw [selected, select_of_firstMatch_none hfirst] at hselected
      cases hselected
  | some pair =>
      obtain ⟨entry, found⟩ := pair
      obtain ⟨hits, rfl⟩ := params_of_firstMatch hselected hfirst
      exact ⟨entry, found, rfl, hits, boundParams_bindCaptures _ _ _⟩

theorem sameRouting_of_pathOf_eq (order : List (RouteEntry m))
    {req other : Request} (hmethod : other.method = req.method)
    (hpath : pathOf other.path = pathOf req.path) :
    SameRouting order req other := by
  cases hfirst : firstMatch (pathOf req.path) order with
  | none =>
      refine Or.inl ⟨.notFound, select_of_firstMatch_none hfirst, ?_⟩
      rw [selected, hpath]
      exact select_of_firstMatch_none hfirst
  | some pair =>
      obtain ⟨entry, found⟩ := pair
      have hselect : ∀ params,
          select req.method (pathOf req.path) params order =
            entry.2.select req.method params found :=
        fun _ => select_of_firstMatch hfirst
      rcases entry.2.select_cases req.method found with
        ⟨response, hown⟩ | ⟨handler, -, hinvoke⟩
      · left
        refine ⟨response, (hselect _).trans (hown _), ?_⟩
        rw [selected, hmethod, hpath]
        exact (hselect _).trans (hown _)
      · right
        refine ⟨entry, found, handler,
          bindCaptures entry.2.parameterNames found (queryParams req.path),
          bindCaptures entry.2.parameterNames found (queryParams other.path),
          hfirst, hpath ▸ hfirst, (hselect _).trans (hinvoke _), ?_, ?_⟩
        · rw [selected, hmethod, hpath]
          exact (hselect _).trans (hinvoke _)
        · intro name hname
          obtain ⟨i, hi, hlast⟩ := exists_last_getElem? hname
          rw [bindCaptures_lookup hi hlast, bindCaptures_lookup hi hlast]

/-- The query reaches the handler only under keys that are no placeholder
names, and takes no part in the choice of the route. -/
theorem query_never_touches_path_params (order : List (RouteEntry m))
    (req : Request) :
    (∀ handler params, selected order req = .invoke handler params →
      ∃ entry found,
        firstMatch (pathOf req.path) order = some (entry, found) ∧
        entry.2.handlers.lookup req.method = some handler ∧
        BoundParams entry.2.parameterNames found (querySegments req.path)
          params) ∧
    ∀ other : Request, other.method = req.method →
      pathOf other.path = pathOf req.path → SameRouting order req other :=
  ⟨fun _ _ => selected_boundParams,
    fun _ => sameRouting_of_pathOf_eq order⟩

/-- `GET /a/c?id=9&x=1` on the route `/a/{:id}`, and the same without its
query. -/
theorem query_never_touches_path_params_item :
    (∃ entry found,
      firstMatch "/a/c".toList [itemEntry] = some (entry, found) ∧
      entry.2.handlers.lookup .get = some (answerWith ['1']) ∧
      BoundParams entry.2.parameterNames found ["id=9".toList, "x=1".toList]
        (bindCaptures ["id".toList] ⟨"/a/c".toList, 1, fun i =>
          if i = 1 then some ['c'] else none⟩
          (queryParams "/a/c?id=9&x=1".toList))) ∧
    SameRouting [itemEntry] (getPath "/a/c?id=9&x=1".toList)
      (getPath "/a/c".toList) :=
  ⟨(query_never_touches_path_params [itemEntry]
      (getPath "/a/c?id=9&x=1".toList)).1 _ _ rfl,
    (query_never_touches_path_params [itemEntry]
      (getPath "/a/c?id=9&x=1".toList)).2 _ rfl rfl⟩

end Rest

end JustQueueIt
