/-
The HTTP side of the server: what `PrepareResponse` makes of a request, what
`CreateResponse` makes of an answer, and the loop of `DoSession` over the
requests that arrive on one connection.  Reads and writes themselves succeed.
-/
import JustQueueIt.RestRouter

namespace JustQueueIt

namespace Rest

/-- `boost::beast::http::verb`. -/
inductive Verb where
  | unknown | delete | get | head | post | put | connect | options | trace
  | copy | lock | mkcol | move | propfind | proppatch | search | unlock | bind
  | rebind | unbind | acl | report | mkactivity | checkout | merge | msearch
  | notify | subscribe | unsubscribe | patch | purge | mkcalendar | link
  | unlink
deriving Repr, DecidableEq

/-- `ParseMethod`. -/
def parseMethod : Verb → Option Method
  | .get => some .get
  | .post => some .post
  | .put => some .put
  | .delete => some .delete
  | .patch => some .patch
  | .head => some .head
  | .options => some .options
  | _ => none

/-- The verb of a supported method. -/
def Method.verb : Method → Verb
  | .get => .get
  | .post => .post
  | .put => .put
  | .delete => .delete
  | .patch => .patch
  | .head => .head
  | .options => .options

theorem parseMethod_eq_some {verb : Verb} {method : Method} :
    parseMethod verb = some method ↔ verb = method.verb := by
  constructor
  · intro hparse
    unfold parseMethod at hparse
    split at hparse <;> cases hparse <;> rfl
  · rintro rfl
    cases method <;> rfl

/-- What the server reads of an HTTP request.  A header that is absent reads
as the empty text. -/
structure HttpRequest where
  verb : Verb
  target : Str
  contentType : Str
  accept : Str
  body : Str
  keepAlive : Bool
deriving Repr, DecidableEq

/-- The `http::response<string_body>` the server writes. -/
structure HttpResponse where
  result : Nat
  server : Str
  contentType : Str
  contentLength : Nat
  body : Str
  keepAlive : Bool
deriving Repr, DecidableEq

/-- `prepare_payload` of the message library: the `Content-Length` it sets for
a status and a body, or what it throws.  It refuses a body with a status that
has none, and sets the size of every other. -/
structure PreparePayload where
  run : Status → Str → Except StdException Nat
  refuses : ∀ {status : Status} {body : Str}, status.IsBodiless → body ≠ [] →
    ∃ what, run status body = .error ⟨.invalidArgument, what⟩
  sets : ∀ {status : Status} {body : Str}, (status.IsBodiless → body = []) →
    run status body = .ok body.length

/-- The library as it is. -/
def PreparePayload.beast : PreparePayload where
  run status body :=
    if status.IsBodiless ∧ body ≠ [] then
      .error ⟨.invalidArgument, "invalid response body".toList⟩
    else .ok body.length
  refuses hbodiless hbody := ⟨_, if_pos ⟨hbodiless, hbody⟩⟩
  sets hempty := if_neg fun hrefused => hrefused.2 (hempty hrefused.1)

variable (prepare : PreparePayload)

/-- `CreateResponse`. -/
def createResponse (response : Response) : Except StdException HttpResponse :=
  (prepare.run response.statusCode response.body).map fun contentLength => {
    result := response.statusCode.code
    server := "JustQueueIt".toList
    contentType := response.contentType.parseContentType
    contentLength := contentLength
    body := response.body
    keepAlive := true }

variable {prepare}

theorem createResponse_refused {response : Response}
    (hbodiless : response.statusCode.IsBodiless) (hbody : response.body ≠ []) :
    ∃ what,
      createResponse prepare response = .error ⟨.invalidArgument, what⟩ := by
  obtain ⟨what, hrefused⟩ := prepare.refuses hbodiless hbody
  exact ⟨what, by rw [createResponse, hrefused]; rfl⟩

/-- A message is created unless it has a body that its status does not allow;
it carries the status, the body and its length. -/
theorem createResponse_eq_ok {response : Response} {created : HttpResponse} :
    createResponse prepare response = .ok created ↔
      (response.statusCode.IsBodiless → response.body = []) ∧
        created = {
          result := response.statusCode.code
          server := "JustQueueIt".toList
          contentType := response.contentType.parseContentType
          contentLength := response.body.length
          body := response.body
          keepAlive := true } := by
  by_cases hempty : response.statusCode.IsBodiless → response.body = []
  · rw [createResponse, prepare.sets hempty, Except.map, Except.ok.injEq,
      and_iff_right hempty, eq_comm]
  · obtain ⟨hbodiless, hbody⟩ := Classical.not_imp.mp hempty
    obtain ⟨what, hrefused⟩ := createResponse_refused hbodiless hbody
    rw [hrefused]
    exact iff_of_false (by simp) fun h => hempty h.1

/-- The three early returns of `PrepareResponse`, or the request that is
handed to the router. -/
def parseRequest (req : HttpRequest) : Except Response Request :=
  match parseMethod req.verb with
  | none =>
      .error ⟨.methodNotAllowed, "Unsupported or unknown method".toList,
        .textPlain⟩
  | some method =>
      match parseContentType req.contentType with
      | none =>
          .error ⟨.badRequest, "Unsupported or unknown content type".toList,
            .textPlain⟩
      | some contentType =>
          match parseContentType req.accept with
          | none =>
              .error ⟨.badRequest,
                "Unsupported or unknown accept content type".toList,
                .textPlain⟩
          | some acceptContentType =>
              .ok {
                method := method
                path := req.target
                body := req.body
                contentType := contentType
                acceptContentType := acceptContentType }

theorem parseRequest_eq_ok {req : HttpRequest} {request : Request} :
    parseRequest req = .ok request ↔
      parseMethod req.verb = some request.method ∧
        parseContentType req.contentType = some request.contentType ∧
        parseContentType req.accept = some request.acceptContentType ∧
        request.path = req.target ∧ request.body = req.body := by
  rcases request with ⟨method, path, body, contentType, acceptContentType⟩
  unfold parseRequest
  cases parseMethod req.verb with
  | none => simp
  | some verb =>
      cases parseContentType req.contentType with
      | none => simp
      | some type =>
          cases parseContentType req.accept with
          | none => simp
          | some accept =>
              simp only [Except.ok.injEq, Request.mk.injEq, Option.some.injEq]
              grind

/-- Every early return is a client error. -/
theorem isClientError_of_parseRequest {req : HttpRequest} {response : Response}
    (hparse : parseRequest req = .error response) :
    response.statusCode.IsClientError := by
  unfold parseRequest at hparse
  split at hparse
  · cases hparse
    decide
  · split at hparse
    · cases hparse
      decide
    · split at hparse
      · cases hparse
        decide
      · cases hparse

variable {m : Type → Type}

/-- `PrepareResponse`. -/
def prepareResponse [Monad m] (order : List (RouteEntry m))
    (req : HttpRequest) : ExceptT StdException m Response :=
  match parseRequest req with
  | .error response => pure response
  | .ok request => route order request

/-- The answer `PrepareResponse` computes. -/
def answer [Monad m] (order : List (RouteEntry m)) (req : HttpRequest) :
    m Response :=
  match parseRequest req with
  | .error response => pure response
  | .ok request =>
      (select request.method (pathOf request.path) (queryParams request.path)
        order).respond request

/-- `PrepareResponse` never throws. -/
theorem prepareResponse_eq [Monad m] [LawfulMonad m]
    (order : List (RouteEntry m)) (req : HttpRequest) :
    (prepareResponse order req).run = Except.ok <$> answer order req := by
  unfold prepareResponse answer
  cases parseRequest req with
  | error response => simp
  | ok request => exact route_eq order request

/-- How a session ends: the client closed the connection, a request did not
ask to keep it alive, or an exception left the loop. -/
inductive SessionEnd where
  | endOfStream
  | shutdown
  | failed (e : StdException)
deriving Repr, DecidableEq

/-- `DoSession` over the requests one connection delivers: the responses it
writes, and how it ends. -/
def doSession [Monad m] (prepare : PreparePayload)
    (order : List (RouteEntry m)) :
    List HttpRequest → m (List HttpResponse × SessionEnd)
  | [] => pure ([], .endOfStream)
  | req :: rest => do
      match ← (prepareResponse order req).run with
      | .error e => pure ([], .failed e)
      | .ok response =>
          match createResponse prepare response with
          | .error e => pure ([], .failed e)
          | .ok created =>
              let written := { created with keepAlive := req.keepAlive }
              if req.keepAlive then do
                let (later, last) ← doSession prepare order rest
                pure (written :: later, last)
              else pure ([written], .shutdown)

/-- A session replies to its first request before it reads the next. -/
theorem doSession_cons [Monad m] [LawfulMonad m] (order : List (RouteEntry m))
    (req : HttpRequest) (rest : List HttpRequest) :
    doSession prepare order (req :: rest) =
        answer order req >>= fun response =>
      match createResponse prepare response with
      | .error e => pure ([], .failed e)
      | .ok created =>
          let written := { created with keepAlive := req.keepAlive }
          if req.keepAlive then
            doSession prepare order rest >>= fun later =>
              pure (written :: later.1, later.2)
          else pure ([written], .shutdown) := by
  rw [doSession, prepareResponse_eq, bind_map_left]

/-- The requests a session gets to: all up to the first that does not ask to
keep the connection alive. -/
def requestsRead : List HttpRequest → List HttpRequest
  | [] => []
  | req :: rest =>
      if req.keepAlive then req :: requestsRead rest else [req]

end Rest

end JustQueueIt
