/-
Sessions of the server.  A session replies to every request it reads, unless
it is asked for the JSON of a task that is not there: the answer then has
status 204 and the body `null`, and `CreateResponse` throws.
-/
import JustQueueIt.ServerPlan
import JustQueueIt.TaskJson

namespace JustQueueIt

namespace Backend

open Rest

variable {json : Json}

/-- `CreateResponse(PrepareResponse(req))` on a storage, and the storage after
it. -/
def Server.reply (server : Server json) (req : HttpRequest)
    (storage : InMemoryStorage) :
    Except StdException HttpResponse × InMemoryStorage :=
  ((server.prepareResponse req storage).1.bind
      (createResponse server.prepare),
    (server.prepareResponse req storage).2)

/-- `DoSession` on a storage nobody else uses. -/
def Server.session (server : Server json) (reqs : List HttpRequest)
    (storage : InMemoryStorage) :
    (List HttpResponse × SessionEnd) × InMemoryStorage :=
  (doSession server.prepare server.order reqs).run storage

/-- One reply for each request, computed on the storage that the requests
before it left behind. -/
inductive Replies (server : Server json) :
    InMemoryStorage → List HttpRequest → List HttpResponse → Prop
  | nil (storage : InMemoryStorage) : Replies server storage [] []
  | cons {storage : InMemoryStorage} {req : HttpRequest}
      {created : HttpResponse} {rest : List HttpRequest}
      {written : List HttpResponse}
      (hreply : (server.reply req storage).1 = .ok created)
      (hrest : Replies server (server.reply req storage).2 rest written) :
      Replies server storage (req :: rest)
        ({ created with keepAlive := req.keepAlive } :: written)

/-- The session writes exactly one response for every request it reads, up to
the first that does not keep the connection alive, and does not fail. -/
def AnswersAll (server : Server json) (storage : InMemoryStorage)
    (reqs : List HttpRequest) : Prop :=
  Replies server storage (requestsRead reqs)
      (server.session reqs storage).1.1 ∧
    ∀ e, (server.session reqs storage).1.2 ≠ .failed e

/-- A `GET` for the JSON of a task that the storage does not hold. -/
def AsksForAbsent (storage : InMemoryStorage) (req : HttpRequest) : Prop :=
  req.verb = .get ∧
    (∃ contentType, parseContentType req.contentType = some contentType) ∧
    parseContentType req.accept = some .applicationJson ∧
    ∃ segment id, endpointOf (pathOf req.target) = .task segment ∧
      stoull segment = .ok id ∧ storage.getTask id = none

/-- No request that is read asks for a task that is absent when its turn
comes. -/
def NeverAsksForAbsent (json : Json) :
    InMemoryStorage → List HttpRequest → Prop
  | _, [] => True
  | storage, req :: rest =>
      ¬ AsksForAbsent storage req ∧
        (req.keepAlive = true →
          NeverAsksForAbsent json (storage.after (requestCalls json req)) rest)

theorem Server.reply_snd (server : Server json) (req : HttpRequest)
    (storage : InMemoryStorage) :
    (server.reply req storage).2 = storage.after (requestCalls json req) :=
  server.prepareResponse_snd req storage

theorem asksForAbsent_iff (json : Json) {storage : InMemoryStorage}
    {req : HttpRequest} :
    AsksForAbsent storage req ↔
      ∃ id, httpCall json req = .ok (.getTask id, .applicationJson) ∧
        storage.getTask id = none := by
  constructor
  · rintro ⟨hverb, ⟨contentType, hcontent⟩, haccept, segment, id, hend, hid,
      habsent⟩
    exact ⟨id, httpCall_eq_ok.mpr ⟨.get, contentType, hverb, hcontent,
      haccept, rfl, segment, hend, hid⟩, habsent⟩
  · rintro ⟨id, hhttp, habsent⟩
    obtain ⟨method, contentType, hverb, hcontent, haccept, hasks⟩ :=
      httpCall_eq_ok.mp hhttp
    obtain ⟨rfl, segment, hend, hid⟩ := hasks
    exact ⟨hverb, ⟨contentType, hcontent⟩, haccept, segment, id, hend, hid,
      habsent⟩

theorem createResponse_of_not_isBodiless {prepare : PreparePayload}
    {response : Response} (hstatus : ¬ response.statusCode.IsBodiless) :
    ∃ created, createResponse prepare response = .ok created :=
  ⟨_, createResponse_eq_ok.mpr ⟨fun h => absurd h hstatus, rfl⟩⟩

theorem not_isBodiless_of_isError {status : Status}
    (herror : status.IsError) : ¬ status.IsBodiless := by
  rintro (hcode | rfl | rfl)
  · exact absurd herror.1 (by omega)
  · exact absurd herror (by decide)
  · exact absurd herror (by decide)

/-- A `GET` of an absent task has no reply, any other JSON answer has. -/
theorem createResponse_encodeResult
    (hnull : json.optionalTask.write none ≠ []) (prepare : PreparePayload)
    (op : StorageCall) (result : op.Result) :
    (∃ created, createResponse prepare
      (encodeResult json .applicationJson op result) = .ok created) ↔
        resultStatus op result = .ok := by
  have hstatus := encodeResult_statusCode json op result
  by_cases hok : resultStatus op result = .ok
  · refine iff_of_true (createResponse_of_not_isBodiless ?_) hok
    rw [hstatus, hok]
    decide
  · refine iff_of_false ?_ hok
    cases op with
    | getTask id =>
        cases result with
        | none =>
            have hbodiless : Status.noContent.IsBodiless := by decide
            rintro ⟨created, hcreated⟩
            exact hnull ((createResponse_eq_ok.mp hcreated).1 hbodiless)
        | some task => exact absurd rfl hok
    | _ => exact absurd rfl hok

theorem Server.reply_ok_iff (hnull : json.optionalTask.write none ≠ [])
    (server : Server json) (req : HttpRequest) (storage : InMemoryStorage) :
    (∃ created, (server.reply req storage).1 = .ok created) ↔
      ¬ AsksForAbsent storage req := by
  rw [asksForAbsent_iff json, reply, server.prepareResponse_eq]
  rcases hhttp : httpCall json req with response | ⟨op, accept⟩
  · exact iff_of_true (createResponse_of_not_isBodiless
      (not_isBodiless_of_isError (isError_of_httpCall hhttp))) (by simp)
  · cases accept with
    | textPlain =>
        refine iff_of_true ?_ (by simp)
        change ∃ created, createResponse _ _ = .ok created
        rw [encodeResult_textPlain]
        exact createResponse_of_not_isBodiless
          (by decide : ¬ Status.badRequest.IsBodiless)
    | applicationJson =>
        apply (createResponse_encodeResult hnull _ _ _).trans
        cases op with
        | getTask id =>
            cases hfind : storage.getTask id <;>
              simp [resultStatus, InMemoryStorage.exec, hfind]
        | _ => simp [resultStatus]

theorem Server.session_nil (server : Server json) (storage : InMemoryStorage) :
    server.session [] storage = (([], .endOfStream), storage) := rfl

theorem Server.session_cons (server : Server json) (req : HttpRequest)
    (rest : List HttpRequest) (storage : InMemoryStorage) :
    server.session (req :: rest) storage =
      match (server.reply req storage).1 with
      | .error e => (([], .failed e), (server.reply req storage).2)
      | .ok created =>
          let written := { created with keepAlive := req.keepAlive }
          if req.keepAlive then
            let later := server.session rest (server.reply req storage).2
            ((written :: later.1.1, later.1.2), later.2)
          else (([written], .shutdown), (server.reply req storage).2) := by
  simp only [session, doSession, StorageProg.run_bind, reply,
    Server.prepareResponse]
  cases ((Rest.prepareResponse server.order req).run.run storage).1 with
  | error e => rfl
  | ok response =>
      simp only [Except.bind]
      cases createResponse server.prepare response with
      | error e => rfl
      | ok created =>
          cases req.keepAlive with
          | true => simp [StorageProg.run_bind]
          | false => rfl

theorem replies_cons_iff {server : Server json} {storage : InMemoryStorage}
    {req : HttpRequest} {rest : List HttpRequest} {response : HttpResponse}
    {written : List HttpResponse} :
    Replies server storage (req :: rest) (response :: written) ↔
      ∃ created, (server.reply req storage).1 = .ok created ∧
        response = { created with keepAlive := req.keepAlive } ∧
        Replies server (server.reply req storage).2 rest written := by
  constructor
  · rintro (_ | ⟨hreply, hrest⟩)
    exact ⟨_, hreply, rfl, hrest⟩
  · rintro ⟨created, hreply, rfl, hrest⟩
    exact .cons hreply hrest

/-- A session replies to every request exactly when none of them asks for an
absent task. -/
theorem answersAll_iff (hnull : json.optionalTask.write none ≠ [])
    (server : Server json) (storage : InMemoryStorage)
    (reqs : List HttpRequest) :
    AnswersAll server storage reqs ↔
      NeverAsksForAbsent json storage reqs := by
  induction reqs generalizing storage with
  | nil =>
      rw [AnswersAll, server.session_nil]
      exact iff_of_true ⟨.nil storage, by simp⟩ trivial
  | cons req rest ih =>
      rw [NeverAsksForAbsent, ← server.reply_ok_iff hnull,
        ← server.reply_snd, ← ih, AnswersAll, server.session_cons]
      cases hreply : (server.reply req storage).1 with
      | error e => simp
      | ok created =>
          cases hkeep : req.keepAlive with
          | false =>
              refine iff_of_true ⟨?_, by simp⟩ ⟨⟨created, rfl⟩, by simp⟩
              rw [requestsRead, if_neg (by simp [hkeep])]
              simpa [hkeep] using Replies.cons hreply (.nil _)
          | true =>
              simp [hkeep, AnswersAll, requestsRead, replies_cons_iff, hreply]

def postTask : HttpRequest where
  verb := .post
  target := "/tasks".toList
  contentType := "application/json".toList
  accept := "application/json".toList
  body := "\x7b\"name\":\"a\",\"description\":\"b\"\x7d".toList
  keepAlive := true

/-- `GET /tasks/0` in JSON. -/
def getFirstTask : HttpRequest where
  verb := .get
  target := "/tasks/0".toList
  contentType := "application/json".toList
  accept := "application/json".toList
  body := []
  keepAlive := true

/-- A task can be posted and fetched in one session. -/
theorem answersAll_postTask_getFirstTask :
    AnswersAll (Server.start taskJson) .empty [postTask, getFirstTask] := by
  refine (answersAll_iff (by decide) _ _ _).mpr ⟨?_, fun _ => ⟨?_, fun _ => ?_⟩⟩
  · rintro ⟨hverb, -⟩
    cases hverb
  · rintro ⟨-, -, -, segment, id, hend, hid, habsent⟩
    have hendpoint : endpointOf (pathOf getFirstTask.target) = .task ['0'] := by
      decide
    obtain rfl := Endpoint.task.inj (hend.symm.trans hendpoint)
    have hzero : stoull ['0'] = .ok 0 := by decide
    obtain rfl := Except.ok.inj (hid.symm.trans hzero)
    revert habsent
    decide
  · trivial

/-- On an empty storage the session that fetches a task ends without a
response. -/
theorem getFirstTask_not_answersAll :
    ¬ AnswersAll (Server.start taskJson) .empty [getFirstTask] := by
  have hhttp : httpCall taskJson getFirstTask =
      .ok (.getTask 0, .applicationJson) := by decide
  have hreply : ((Server.start taskJson).reply getFirstTask .empty).1 =
      .error ⟨.invalidArgument, "invalid response body".toList⟩ := by
    rw [Server.reply, Server.prepareResponse_eq, hhttp]
    rfl
  rintro ⟨-, hnotFailed⟩
  rw [Server.session_cons, hreply] at hnotFailed
  exact hnotFailed _ rfl

end Backend

end JustQueueIt
