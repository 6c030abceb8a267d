/-
Typed routes as remote procedure calls.  A client that fills the template with
its values and sends the JSON of its argument has the handler called once, with
that argument and those values, and gets the JSON of what it returns.
-/
import JustQueueIt.RestServer
import JustQueueIt.RouteConflicts

namespace JustQueueIt

namespace Rest

open Regex (Piece)

variable {m : Type → Type}

/-- A typed call as it is sent: values in the path, the argument in the
body. -/
def callRequest {A : Type} (codec : Rfl A) (path : Str) (method : Method)
    (values : List Str) (query : Str) (argument : A) : HttpRequest where
  verb := method.verb
  target := Piece.fill (pathPieces path) values ++ query
  contentType := ContentType.applicationJson.parseContentType
  accept := ContentType.applicationJson.parseContentType
  body := codec.write argument
  keepAlive := true

/-- What comes back of the outcome of a typed handler. -/
def callResponse {R : Type} (codec : Rfl R) :
    Except StdException (SerializableResponse R) → Response
  | .ok res => ⟨res.statusCode, codec.write res.body, .applicationJson⟩
  | .error e => ⟨.internalServerError, e.what, .textPlain⟩

/-- The parameters give every placeholder of the path its value. -/
def BindsValues (path : Str) (values : List Str) (params : Params) : Prop :=
  ∀ (i : Nat) (name value : Str), (parameterNames path)[i]? = some name →
    values[i]? = some value → params.lookup name = some value

theorem parseRequest_callRequest {A : Type} (codec : Rfl A) (path : Str)
    (method : Method) (values : List Str) (query : Str) (argument : A) :
    parseRequest (callRequest codec path method values query argument) =
      .ok ⟨method, Piece.fill (pathPieces path) values ++ query,
        codec.write argument, .applicationJson, .applicationJson⟩ := by
  apply parseRequest_eq_ok.mpr
  exact ⟨parseMethod_eq_some.mpr rfl, rfl, rfl, rfl, rfl⟩

/-- The wrapper decodes what was encoded, and encodes what is returned. -/
theorem respond_call [Monad m] [LawfulMonad m] {A R : Type} {codec : Rfl A}
    (hcodec : codec.Lawful) (results : Rfl R)
    (handler : A → Params → ExceptT StdException m (SerializableResponse R))
    (params : Params) (method : Method) (target : Str) (argument : A) :
    (Selection.invoke (serializableHandler (deSerializeBody codec) results
        handler) params).respond
        ⟨method, target, codec.write argument, .applicationJson,
          .applicationJson⟩ =
      callResponse results <$> (handler argument params).run := by
  rw [respond_serializableHandler, deSerializeBody, deSerialize,
    hcodec argument, map_eq_pure_bind]
  dsimp only
  congr 1
  funext result
  cases result with
  | error e => rfl
  | ok res => rfl

/-- The query of a call is cut off. -/
theorem PlainPath.pathOf_fill_append {path : Str} (hplain : PlainPath path)
    {values : List Str} (hvalues : ∀ value ∈ values, '?' ∉ value) {query : Str}
    (hquery : query = [] ∨ query.head? = some '?') :
    pathOf (Piece.fill (pathPieces path) values ++ query) =
      Piece.fill (pathPieces path) values := by
  rcases hquery with rfl | hquery
  · rw [List.append_nil, hplain.pathOf_fill hvalues]
  · obtain ⟨text, rfl⟩ := List.head?_eq_some_iff.mp hquery
    exact pathOf_append_query (notMem_fill hplain.question_notMem hvalues) text

/-- Under different names, the parameters give back what was captured. -/
theorem bindsValues_bindCaptures_iff {path : Str}
    (hnames : (parameterNames path).Nodup) {values : List Str}
    (hfits : Piece.Fits '/' (pathPieces path) values) (found : Regex.Match)
    (params : Params) :
    BindsValues path values (bindCaptures (parameterNames path) found params) ↔
      ∀ i value, values[i]? = some value → found.get (i + 1) = value := by
  constructor
  · intro hbinds i value hvalue
    have hi : i < (parameterNames path).length := by
      rw [← length_of_fits hfits]
      exact (List.getElem?_eq_some_iff.mp hvalue).1
    have hname := List.getElem?_eq_getElem hi
    have hlookup := hbinds i _ value hname hvalue
    rw [bindCaptures_lookup_of_nodup hnames hname] at hlookup
    exact Option.some.inj hlookup
  · intro hget i name value hname hvalue
    rw [bindCaptures_lookup_of_nodup hnames hname, hget i value hvalue]

/-- A filled template without conflicts reaches the handler of its path, with
what its pattern captures. -/
theorem Surface.Plain.exists_selected_fill {surface : Surface}
    (hsurface : surface.Plain) (hfree : surface.ConflictFree)
    {handlers : Str → Method → HandlerWithParams m}
    (table : TableOf (surface.registrations handlers)) {path : Str}
    {req : Request} (hoffered : (path, req.method) ∈ surface)
    {values : List Str} (hfits : Piece.Fits '/' (pathPieces path) values)
    (hurl : pathOf req.path = Piece.fill (pathPieces path) values) :
    ∃ found, Regex.Compiled.regexMatch
        ⟨.anchored (Piece.tree '/' 0 (pathPieces path)),
          (parameterNames path).length⟩
        (Piece.fill (pathPieces path) values) = some found ∧
      selected table.order req =
        .invoke (handlers path req.method)
          (bindCaptures (parameterNames path) found
            (queryParams req.path)) := by
  obtain ⟨entry, hentry, hpath⟩ := exists_entry table hoffered
  have hpattern := (table.holds.entry table.iterates hentry).pattern
  have hentryNames := (table.holds.entry table.iterates hentry).names
  rw [hpath] at hpattern hentryNames
  have hcompile := compilePath_of_plainPath (hsurface.plain _ hoffered)
  obtain ⟨found, hfound⟩ := Option.ne_none_iff_exists'.mp
    (Piece.regexMatch_fill_ne_none hfits (parameterNames path).length)
  have hsize : found.size = (parameterNames path).length + 1 := by
    rw [Regex.Match.size, Regex.Compiled.markCount_of_regexMatch hfound]
  have hhandler : entry.2.handlers.lookup req.method =
      some (handlers path req.method) := by
    rw [hsurface.lookup_eq_some table hentry, hpath]
    exact ⟨hoffered, rfl⟩
  refine ⟨found, hfound, ?_⟩
  apply selected_of_choice table hsurface hfree hentry
  rw [RouteEntry.choice, outcome, hurl,
    ← Except.ok.inj (hcompile.symm.trans hpattern), hfound, Option.map_some,
    RouteInfo.select_invoke hhandler (hentryNames ▸ hsize), hentryNames]

/-- Where the values can be read off the path, the handler gets them. -/
theorem Surface.Plain.selected_fill {surface : Surface}
    (hsurface : surface.Plain) (hfree : surface.ConflictFree)
    {handlers : Str → Method → HandlerWithParams m}
    (table : TableOf (surface.registrations handlers)) {path : Str}
    {req : Request} (hoffered : (path, req.method) ∈ surface)
    (hnames : (parameterNames path).Nodup)
    (hseparated : Piece.Separated '/' (pathPieces path)) {values : List Str}
    (hfits : Piece.Fits '/' (pathPieces path) values)
    (hurl : pathOf req.path = Piece.fill (pathPieces path) values) :
    ∃ params, BindsValues path values params ∧
      selected table.order req =
        .invoke (handlers path req.method) params := by
  obtain ⟨found, hfound, hselected⟩ :=
    hsurface.exists_selected_fill hfree table hoffered hfits hurl
  refine ⟨_, (bindsValues_bindCaptures_iff hnames hfits _ _).mpr ?_, hselected⟩
  obtain ⟨others, hothers, hsame, hget⟩ :=
    Piece.exists_values_of_regexMatch hfound
  obtain rfl := Piece.fill_inj_of_separated hseparated hfits hothers hsame
  exact hget

/-- In an interface without conflicts a typed call is the call of its handler,
whatever the order of the table and whatever the query says. -/
theorem prepareResponse_call [Monad m] [LawfulMonad m] {surface : Surface}
    (hsurface : surface.Plain) (hfree : surface.ConflictFree)
    {handlers : Str → Method → HandlerWithParams m}
    (table : TableOf (surface.registrations handlers)) {A R : Type}
    {codec : Rfl A} (hcodec : codec.Lawful) (results : Rfl R)
    {handler : A → Params → ExceptT StdException m (SerializableResponse R)}
    {path : Str} {method : Method} (hoffered : (path, method) ∈ surface)
    (hhandler : handlers path method =
      serializableHandler (deSerializeBody codec) results handler)
    (hnames : (parameterNames path).Nodup)
    (hseparated : Piece.Separated '/' (pathPieces path)) {values : List Str}
    (hfits : Piece.Fits '/' (pathPieces path) values)
    (hvalues : ∀ value ∈ values, '?' ∉ value) {query : Str}
    (hquery : query = [] ∨ query.head? = some '?') (argument : A) :
    ∃ params, BindsValues path values params ∧
      (prepareResponse table.order
        (callRequest codec path method values query argument)).run =
        (fun outcome => .ok (callResponse results outcome)) <$>
          (handler argument params).run := by
  let req : Request := ⟨method, Piece.fill (pathPieces path) values ++ query,
    codec.write argument, .applicationJson, .applicationJson⟩
  have hurl : pathOf req.path = Piece.fill (pathPieces path) values :=
    (hsurface.plain _ hoffered).pathOf_fill_append hvalues hquery
  obtain ⟨params, hbinds, hselected⟩ :=
    hsurface.selected_fill hfree table hoffered hnames hseparated hfits hurl
  refine ⟨params, hbinds, ?_⟩
  rw [prepareResponse, parseRequest_callRequest]
  change (route table.order req).run = _
  rw [route_eq]
  change Except.ok <$> (selected table.order req).respond req = _
  rw [hselected]
  change Except.ok <$>
    (Selection.invoke (handlers path method) params).respond req = _
  rw [hhandler, respond_call hcodec, Functor.map_map]

/-- `PUT /a/{:id}` for a text, which the handler returns with the `id`. -/
def tagHandler :
    Str → Params → ExceptT StdException Id (SerializableResponse Str) :=
  fun body params => pure ⟨.ok, ((params.lookup ['i', 'd']).getD []) ++ body⟩

/-- A codec that sends a text as it is. -/
def plainText : Rfl Str :=
  ⟨fun text => text, fun text => .ok text⟩

def tagHandlers : Str → Method → HandlerWithParams Id :=
  fun _ _ =>
    serializableHandler (deSerializeBody plainText) plainText tagHandler

/-- The value of the path comes back in front of the argument, whatever the
query says. -/
theorem prepareResponse_call_tag :
    ∃ table : TableOf (Surface.registrations [(itemPath, .put)] tagHandlers),
      (prepareResponse table.order (callRequest plainText itemPath .put
        [['7']] "?id=8".toList ['x'])).run =
          .ok ⟨.ok, ['7', 'x'], .applicationJson⟩ := by
  have hsurface : Surface.Plain [(itemPath, .put)] :=
    ⟨by decide, by decide, by decide⟩
  have hfits : Piece.Fits '/' (pathPieces itemPath) [['7']] :=
    ⟨rfl, by decide⟩
  have hquery : "?id=8".toList = [] ∨ "?id=8".toList.head? = some '?' :=
    Or.inr rfl
  obtain ⟨table⟩ := hsurface.exists_table tagHandlers
  obtain ⟨params, hbinds, hrun⟩ := prepareResponse_call hsurface (by decide)
    table (fun _ => rfl) plainText List.mem_cons_self rfl (by decide)
    (by decide) hfits (by decide) hquery ['x']
  have hid : params.lookup ['i', 'd'] = some ['7'] := hbinds 0 _ _ rfl rfl
  refine ⟨table, hrun.trans ?_⟩
  change Except.ok (callResponse plainText (.ok ⟨.ok,
    ((params.lookup ['i', 'd']).getD []) ++ ['x']⟩)) = _
  rw [hid]
  rfl

end Rest

end JustQueueIt
