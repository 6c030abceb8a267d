/-
`rest::Router`: registration, the typed handler wrappers, and routing.
Handlers run in an arbitrary monad, so that one router serves the backend's
storage programs as well as plain state passing.
-/
import JustQueueIt.RegexMatch
import JustQueueIt.RestQuery

namespace JustQueueIt

namespace Rest

/-- The JSON writer and reader of the serialization library for one type.
Writing never fails; reading returns a value or throws. -/
structure Rfl (α : Type) where
  write : α → Str
  read : Str → Except StdException α

/-- Reading what was written gives the value back. -/
def Rfl.Lawful {α : Type} (codec : Rfl α) : Prop :=
  ∀ value, codec.read (codec.write value) = .ok value

/-- `rest::Serialize`. -/
def serialize {α : Type} (codec : Rfl α) (value : α) :
    ContentType → Except StdException Str
  | .applicationJson => .ok (codec.write value)
  | .textPlain =>
      .error ⟨.runtimeError, "Unsupported accept content type".toList⟩

/-- `rest::DeSerialize`. -/
def deSerialize {α : Type} (codec : Rfl α) (text : Str) :
    ContentType → Except StdException α
  | .applicationJson => codec.read text
  | .textPlain =>
      .error ⟨.runtimeError, "Unsupported request content type".toList⟩

/-- `Router::HandlerWithParams`. -/
abbrev HandlerWithParams (m : Type → Type) :=
  Request → Params → ExceptT StdException m Response

/-- `Router::SerializableResponse`. -/
structure SerializableResponse (R : Type) where
  statusCode : Status
  body : R

/-- The handlers of one path by method. -/
abbrev Handlers (m : Type → Type) :=
  AList fun _ : Method => HandlerWithParams m

/-- `handlers[method] = handler`. -/
def Handlers.assign {m : Type → Type} (handlers : Handlers m)
    (method : Method) (handler : HandlerWithParams m) : Handlers m :=
  AList.insert method handler handlers

theorem Handlers.lookup_assign {m : Type → Type} (handlers : Handlers m)
    (method other : Method) (handler : HandlerWithParams m) :
    AList.lookup other (handlers.assign method handler) =
      if other = method then some handler else AList.lookup other handlers := by
  split
  · next heq =>
      subst heq
      exact AList.lookup_insert handlers
  · next hne => exact AList.lookup_insert_ne hne

/-- `Router::RouteInfo`. -/
structure RouteInfo (m : Type → Type) where
  pattern : Regex.Compiled
  parameterNames : List Str
  handlers : Handlers m

/-- An entry of the route table: a path and what is registered for it. -/
abbrev RouteEntry (m : Type → Type) := Sigma fun _ : Str => RouteInfo m

/-- `rest::Router`.  `routes` is the unordered map `m_routes`; a run over it
visits the entries in an order of the library's choice. -/
structure Router (m : Type → Type) where
  routes : AList fun _ : Str => RouteInfo m

variable {m : Type → Type}

def Router.empty : Router m :=
  ⟨∅⟩

/-- `std::regex(text)`. -/
def regex (text : Str) : Except StdException Regex.Compiled :=
  match Regex.compile text with
  | .ok compiled => .ok compiled
  | .error code => .error ⟨.regexError code, "regex_error".toList⟩

/-- The raw string literal that `param_regex` is built from. -/
def paramRegexText : Str :=
  "\\\x7b\\:([a-zA-Z_][a-zA-Z0-9_]*)\\\x7d".toList

/-- What `param_regex` compiles to. -/
def paramRegex : Regex.Compiled :=
  ⟨.literal ['{', ':'] (.seq (.group 1 (.seq
      (.set ⟨false, [.range 'a' 'z', .range 'A' 'Z', .char '_']⟩)
      (.seq (.rep 0 none true (.set ⟨false, [.range 'a' 'z', .range 'A' 'Z',
        .range '0' '9', .char '_']⟩)) .empty)))
    (.seq (.set (.single '}')) .empty)), 1⟩

theorem regex_paramRegexText : regex paramRegexText = .ok paramRegex := rfl

/-- What a placeholder is replaced by. -/
def placeholderGroup : Str :=
  "([^/]+)".toList

/-- `Router::AddRouteImpl`.  A null handler is `none`. -/
def Router.addRouteImpl (router : Router m) (path : Str) (method : Method)
    (handler : Option (HandlerWithParams m)) :
    Except StdException (Router m) :=
  if path = [] ∨ path.head? ≠ some '/' then
    .error ⟨.invalidArgument, "Path must start with '/'".toList⟩
  else
    match handler with
    | none => .error ⟨.invalidArgument, "Handler cannot be null".toList⟩
    | some handler => do
        let paramRegex ← regex paramRegexText
        let regexPath := paramRegex.regexReplace path placeholderGroup
        let fullRegex ← regex ('^' :: regexPath ++ ['$'])
        let parameterNames :=
          (paramRegex.regexIterator path).map fun found => found.get 1
        -- `try_emplace` keeps the handlers of a path that is known already.
        let handlers : Handlers m := match router.routes.lookup path with
          | some info => info.handlers
          | none => ∅
        .ok ⟨router.routes.insert path
          ⟨fullRegex, parameterNames, handlers.assign method handler⟩⟩

/-- The regular expression `AddRouteImpl` builds from a path. -/
def compilePath (path : Str) : Except StdException Regex.Compiled :=
  regex ('^' :: paramRegex.regexReplace path placeholderGroup ++ ['$'])

/-- The placeholder names of a path, in order. -/
def parameterNames (path : Str) : List Str :=
  (paramRegex.regexIterator path).map fun found => found.get 1

/-- The handlers registered for a path. -/
def Router.handlersOf (router : Router m) (path : Str) : Handlers m :=
  match router.routes.lookup path with
  | some info => info.handlers
  | none => ∅

/-- A registration puts one handler into the entry of its path, if the path
begins with `/` and compiles. -/
theorem Router.addRouteImpl_eq (router : Router m) {path : Str}
    (hpath : path.head? = some '/') (method : Method)
    (handler : HandlerWithParams m) :
    router.addRouteImpl path method (some handler) =
      (compilePath path).map fun pattern =>
        ⟨router.routes.insert path ⟨pattern, parameterNames path,
          (router.handlersOf path).assign method handler⟩⟩ := by
  have hne : path ≠ [] := by
    rintro rfl
    cases hpath
  simp only [addRouteImpl, hne, hpath, ne_eq, not_true_eq_false, or_self,
    ↓reduceIte, regex_paramRegexText, bind, Except.bind, compilePath]
  cases regex ('^' :: paramRegex.regexReplace path placeholderGroup ++ ['$'])
  · rfl
  · rfl

theorem Router.addRouteImpl_eq_ok {router : Router m} {path : Str}
    {method : Method} {handler : HandlerWithParams m}
    {pattern : Regex.Compiled} (hpath : path.head? = some '/')
    (hpattern : compilePath path = .ok pattern) :
    router.addRouteImpl path method (some handler) =
      .ok ⟨router.routes.insert path ⟨pattern, parameterNames path,
        (router.handlersOf path).assign method handler⟩⟩ := by
  rw [addRouteImpl_eq router hpath, hpattern]
  rfl

/-- How a typed handler gets its first argument from the request. -/
abbrev ReadBody (A : Type) := Request → Except StdException A

/-- `body.emplace()`, for handlers of `None`. -/
def emplaceBody : ReadBody None :=
  fun _ => .ok ⟨⟩

/-- `DeSerialize<FirstArgument>(req.body, req.content_type)`. -/
def deSerializeBody {A : Type} (codec : Rfl A) : ReadBody A :=
  fun req => deSerialize codec req.body req.contentType

/-- The wrapper `AddRoute` puts around a handler that returns a
`SerializableResponse`. -/
def serializableHandler [Monad m] {A R : Type} (readBody : ReadBody A)
    (codec : Rfl R)
    (handler : A → Params → ExceptT StdException m (SerializableResponse R)) :
    HandlerWithParams m := fun req params =>
  match readBody req with
  | .error e => pure ⟨.badRequest, e.what, .textPlain⟩
  | .ok body => do
      let res ← handler body params
      match serialize codec res.body req.acceptContentType with
      | .error e => pure ⟨.badRequest, e.what, .textPlain⟩
      | .ok text => pure ⟨res.statusCode, text, req.acceptContentType⟩

/-- `Router::AddRoute` for a handler that returns a `SerializableResponse`. -/
def Router.addSerializableRoute [Monad m] {A R : Type} (router : Router m)
    (path : Str) (method : Method) (readBody : ReadBody A) (codec : Rfl R)
    (handler : A → Params → ExceptT StdException m (SerializableResponse R)) :
    Except StdException (Router m) :=
  router.addRouteImpl path method
    (some (serializableHandler readBody codec handler))

/-- The wrapper around a handler that returns a plain value. -/
def okResponse [Monad m] {A R : Type}
    (handler : A → Params → ExceptT StdException m R) :
    A → Params → ExceptT StdException m (SerializableResponse R) :=
  fun req params => do
    let res ← handler req params
    pure ⟨.ok, res⟩

/-- `Router::AddRoute` for a handler that returns a plain value: the status is
`Ok`. -/
def Router.addRoute [Monad m] {A R : Type} (router : Router m)
    (path : Str) (method : Method) (readBody : ReadBody A) (codec : Rfl R)
    (handler : A → Params → ExceptT StdException m R) :
    Except StdException (Router m) :=
  router.addSerializableRoute path method readBody codec (okResponse handler)

/-- `params[parameter_names[i]] = match[i + 1]` for every `i`. -/
def bindCaptures (names : List Str) (found : Regex.Match) (params : Params) :
    Params :=
  names.zipIdx.foldl
    (fun params name => params.insert name.1 (found.get (name.2 + 1))) params

/-- What `Route` settles on: an answer of its own, or a handler to call. -/
inductive Selection (m : Type → Type) where
  | own (response : Response)
  | invoke (handler : HandlerWithParams m) (params : Params)

def Response.notFound : Response :=
  ⟨.notFound, [], .textPlain⟩

def Response.methodNotAllowed : Response :=
  ⟨.methodNotAllowed, [], .textPlain⟩

def Response.internalServerError : Response :=
  ⟨.internalServerError, "Internal server error".toList, .textPlain⟩

/-- The body of the loop of `Route` once the pattern has matched. -/
def RouteInfo.select (route : RouteInfo m) (method : Method)
    (params : Params) (found : Regex.Match) : Selection m :=
  if found.size ≠ route.parameterNames.length + 1 then
    .own .internalServerError
  else
    match route.handlers.lookup method with
    | none => .own .methodNotAllowed
    | some handler =>
        .invoke handler (bindCaptures route.parameterNames found params)

/-- The loop of `Route` over the table: the first entry whose pattern matches
decides. -/
def select (method : Method) (url : Str) (params : Params) :
    List (RouteEntry m) → Selection m
  | [] => .own .notFound
  | entry :: rest =>
      match entry.2.pattern.regexMatch url with
      | none => select method url params rest
      | some found => entry.2.select method params found

/-- What `Route` settles on for a request. -/
def selected (order : List (RouteEntry m)) (req : Request) : Selection m :=
  select req.method (pathOf req.path) (queryParams req.path) order

/-- Call the handler, with exceptions turned into an answer. -/
def Selection.run [Monad m] (req : Request) :
    Selection m → ExceptT StdException m Response
  | .own response => pure response
  | .invoke handler params =>
      tryCatch (handler req params) fun e =>
        pure ⟨.internalServerError, e.what, .textPlain⟩

/-- `Router::Route`, with the entries of the table in the order the loop
visits them. -/
def route [Monad m] (order : List (RouteEntry m)) (req : Request) :
    ExceptT StdException m Response := do
  let (url, params) ← ExceptT.mk (pure (parseParams req.path))
  (select req.method url params order).run req

/-- The answer a selection leads to; nothing is thrown past `Route`. -/
def Selection.respond [Monad m] (req : Request) : Selection m → m Response
  | .own response => pure response
  | .invoke handler params => do
      match ← (handler req params).run with
      | .ok response => pure response
      | .error e => pure ⟨.internalServerError, e.what, .textPlain⟩

theorem Selection.run_eq [Monad m] [LawfulMonad m] (req : Request)
    (selection : Selection m) :
    (selection.run req).run = Except.ok <$> selection.respond req := by
  cases selection with
  | own response => simp [run, respond]
  | invoke handler params =>
      simp only [run, respond, map_bind, tryCatch, tryCatchThe,
        MonadExceptOf.tryCatch, ExceptT.tryCatch, ExceptT.run_mk]
      congr 1
      funext result
      cases result <;> simp [pure, ExceptT.pure, ExceptT.mk]

/-- The answer a value is turned into after the handler has returned it. -/
def encodeAnswer {R : Type} (codec : Rfl R) (status : Status) (value : R)
    (accept : ContentType) : Response :=
  match serialize codec value accept with
  | .error e => ⟨.badRequest, e.what, .textPlain⟩
  | .ok text => ⟨status, text, accept⟩

/-- A typed handler answers with a decoding error, an exception of its own, or
the encoding of what it returns. -/
theorem respond_serializableHandler [Monad m] [LawfulMonad m] {A R : Type}
    (readBody : ReadBody A) (codec : Rfl R)
    (handler : A → Params → ExceptT StdException m (SerializableResponse R))
    (params : Params) (req : Request) :
    (Selection.invoke (serializableHandler readBody codec handler)
        params).respond req =
      match readBody req with
      | .error e => pure ⟨.badRequest, e.what, .textPlain⟩
      | .ok body => (handler body params).run >>= fun
          | .error e => pure ⟨.internalServerError, e.what, .textPlain⟩
          | .ok res => pure (encodeAnswer codec res.statusCode res.body
              req.acceptContentType) := by
  simp only [Selection.respond, serializableHandler]
  cases readBody req with
  | error e => simp
  | ok body =>
      simp only [ExceptT.run_bind, bind_assoc]
      congr 1
      funext result
      cases result with
      | error e => simp
      | ok res =>
          simp only [encodeAnswer]
          cases serialize codec res.body req.acceptContentType <;> simp

/-- `Route` never throws: it selects on the path before the query and runs the
selection. -/
theorem route_eq [Monad m] [LawfulMonad m] (order : List (RouteEntry m))
    (req : Request) :
    (route order req).run = Except.ok <$>
      (select req.method (pathOf req.path) (queryParams req.path)
        order).respond req := by
  rw [← Selection.run_eq]
  simp only [route, parseParams_eq, ExceptT.run_bind, ExceptT.run_mk,
    pure_bind]

/-- What an entry makes of a request, if its pattern matches. -/
def outcome (method : Method) (url : Str) (params : Params)
    (entry : RouteEntry m) : Option (Selection m) :=
  (entry.2.pattern.regexMatch url).map (entry.2.select method params)

/-- `Route` settles on the first outcome in table order. -/
theorem select_eq_findSome? (method : Method) (url : Str) (params : Params)
    (order : List (RouteEntry m)) :
    select method url params order =
      (order.findSome? (outcome method url params)).getD (.own .notFound) := by
  induction order with
  | nil => rfl
  | cons entry rest ih =>
      rw [select, List.findSome?_cons, outcome]
      cases entry.2.pattern.regexMatch url with
      | none => exact ih
      | some found => rfl

/-- When all entries that match agree, what one of them says is what `Route`
settles on, wherever it stands in the table. -/
theorem select_of_agree {method : Method} {url : Str} {params : Params}
    {order : List (RouteEntry m)} {entry : RouteEntry m}
    {selection : Selection m} (hmem : entry ∈ order)
    (hout : outcome method url params entry = some selection)
    (hagree : ∀ other ∈ order, ∀ its,
      outcome method url params other = some its → its = selection) :
    select method url params order = selection := by
  rw [select_eq_findSome?]
  cases hfind : order.findSome? (outcome method url params) with
  | none =>
      have hnone := List.findSome?_eq_none_iff.mp hfind entry hmem
      rw [hout] at hnone
      cases hnone
  | some its =>
      obtain ⟨other, hother, hits⟩ := List.exists_of_findSome?_eq_some hfind
      exact hagree other hother its hits

theorem select_of_none {method : Method} {url : Str} {params : Params}
    {order : List (RouteEntry m)}
    (hnone : ∀ entry ∈ order, outcome method url params entry = none) :
    select method url params order = .own .notFound := by
  rw [select_eq_findSome?, List.findSome?_eq_none_iff.mpr hnone]
  rfl

end Rest

end JustQueueIt
