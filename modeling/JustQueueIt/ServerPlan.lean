/-
What the server of `StartServer` does with a request, without regular
expressions: its path selects an endpoint, and a request makes at most one
storage call, whose result is encoded into the answer.
-/
import JustQueueIt.BackendServer

namespace JustQueueIt

namespace Backend

open Rest

/-- Which of the two templates a path belongs to. -/
inductive Endpoint where
  | tasks
  | task (segment : Str)
  | unknown
deriving Repr, DecidableEq

/-- `/tasks`, or `/tasks/` followed by a non-empty segment without `/`. -/
def endpointOf (path : Str) : Endpoint :=
  if path = tasksPath then .tasks
  else if taskPrefix <+: path ∧ path.drop taskPrefix.length ≠ [] ∧
      '/' ∉ path.drop taskPrefix.length then
    .task (path.drop taskPrefix.length)
  else .unknown

theorem endpointOf_taskPrefix_append {segment : Str} (hne : segment ≠ [])
    (hslash : '/' ∉ segment) :
    endpointOf (taskPrefix ++ segment) = .task segment := by
  have hdisjoint : ¬ taskPrefix <+: tasksPath := by decide
  have htasks : taskPrefix ++ segment ≠ tasksPath := fun heq =>
    hdisjoint ⟨segment, heq⟩
  rw [endpointOf, if_neg htasks, List.drop_left,
    if_pos ⟨List.prefix_append .., hne, hslash⟩]

/-- The storage call a request leads to, or the answer it gets without one. -/
def callOf (json : Json) (req : Request) : Except Response StorageCall :=
  match endpointOf (pathOf req.path), req.method with
  | .tasks, .get => .ok .getTasks
  | .tasks, .post =>
      match deSerialize json.payload req.body req.contentType with
      | .error e => .error ⟨.badRequest, e.what, .textPlain⟩
      | .ok payload => .ok (.createTask payload)
  | .task segment, .get =>
      match stoull segment with
      | .error e => .error ⟨.internalServerError, e.what, .textPlain⟩
      | .ok id => .ok (.getTask id)
  | .task segment, .delete =>
      match stoull segment with
      | .error e => .error ⟨.internalServerError, e.what, .textPlain⟩
      | .ok id => .ok (.deleteTask id)
  | .unknown, _ => .error .notFound
  | _, _ => .error .methodNotAllowed

/-- The answer the result of a call is turned into. -/
def encodeResult (json : Json) (accept : ContentType) :
    (op : StorageCall) → op.Result → Response
  | .createTask _, task => encodeAnswer json.task .ok task accept
  | .getTask _, task =>
      encodeAnswer json.optionalTask (if task.isSome then .ok else .noContent)
        task accept
  | .deleteTask _, _ => encodeAnswer json.none .ok ⟨⟩ accept
  | .getTasks, tasks => encodeAnswer json.tasks .ok tasks accept

/-- The storage program that answers a request the router got. -/
def plan (json : Json) (req : Request) : StorageProg Response :=
  match callOf json req with
  | .error response => .ret response
  | .ok op =>
      .call op fun result =>
        .ret (encodeResult json req.acceptContentType op result)

theorem outcome_tasks (json : Json) (method : Method) (url : Str)
    (params : Params) :
    outcome method url params ⟨tasksPath, tasksInfo json⟩ =
      if url = tasksPath then
        some ((tasksInfo json).select method params ⟨url, 0, fun _ => none⟩)
      else none := by
  rw [outcome, tasksInfo, tasksPattern, Regex.regexMatch_literal]
  split <;> rfl

theorem outcome_task (json : Json) (method : Method) (url : Str)
    (params : Params) :
    outcome method url params ⟨taskPath, taskInfo json⟩ =
      if taskPrefix <+: url ∧ url.drop taskPrefix.length ≠ [] ∧
          '/' ∉ url.drop taskPrefix.length then
        some ((taskInfo json).select method params ⟨url, 1, fun i =>
          if i = 1 then some (url.drop taskPrefix.length) else none⟩)
      else none := by
  rw [outcome, taskInfo, taskPattern, Regex.regexMatch_literal_segment]
  split <;> rfl

/-- Every visiting order of the table selects by endpoint: no url belongs to
both templates. -/
theorem select_served {json : Json} {order : List (RouteEntry StorageProg)}
    (horder : order.Perm (servedEntries json)) (method : Method) (url : Str)
    (params : Params) :
    select method url params order =
      match endpointOf url with
      | .tasks =>
          (tasksInfo json).select method params ⟨url, 0, fun _ => none⟩
      | .task segment =>
          (taskInfo json).select method params
            ⟨url, 1, fun i => if i = 1 then some segment else none⟩
      | .unknown => .own .notFound := by
  have hmem : ∀ entry, entry ∈ order ↔
      entry = ⟨taskPath, taskInfo json⟩ ∨
        entry = ⟨tasksPath, tasksInfo json⟩ := by
    intro entry
    rw [horder.mem_iff, servedEntries, List.mem_pair]
  have hdisjoint : ¬ taskPrefix <+: tasksPath := by decide
  unfold endpointOf
  split_ifs with htasks htask
  · subst url
    refine select_of_agree ((hmem _).mpr (Or.inr rfl))
      (by rw [outcome_tasks, if_pos rfl]) ?_
    intro other hother its hits
    rcases (hmem other).mp hother with rfl | rfl
    · rw [outcome_task, if_neg (fun h => hdisjoint h.1)] at hits
      cases hits
    · rw [outcome_tasks, if_pos rfl] at hits
      exact (Option.some.inj hits).symm
  · refine select_of_agree ((hmem _).mpr (Or.inl rfl))
      (by rw [outcome_task, if_pos htask]) ?_
    intro other hother its hits
    rcases (hmem other).mp hother with rfl | rfl
    · rw [outcome_task, if_pos htask] at hits
      exact (Option.some.inj hits).symm
    · rw [outcome_tasks, if_neg htasks] at hits
      cases hits
  · refine select_of_none fun entry hentry => ?_
    rcases (hmem entry).mp hentry with rfl | rfl
    · rw [outcome_task, if_neg htask]
    · rw [outcome_tasks, if_neg htasks]

/-- The capture reaches the handlers of the task routes whatever the query
string holds. -/
theorem at_bindCaptures_id (url segment : Str) (params : Params) :
    Params.at (bindCaptures [idName] ⟨url, 1, fun i =>
      if i = 1 then some segment else none⟩ params) idName = .ok segment := by
  simp [Params.at, bindCaptures, Regex.Match.get]

theorem tasksInfo_select (json : Json) (method : Method) (url : Str)
    (params : Params) :
    (tasksInfo json).select method params ⟨url, 0, fun _ => none⟩ =
      match method with
      | .get => .invoke (serializableHandler emplaceBody json.tasks
          (okResponse getTasksHandler)) params
      | .post => .invoke (serializableHandler (deSerializeBody json.payload)
          json.task (okResponse createTaskHandler)) params
      | _ => .own .methodNotAllowed := by
  cases method <;> rfl

theorem taskInfo_select (json : Json) (method : Method) (params : Params)
    (found : Regex.Match) (hfound : found.markCount = 1) :
    (taskInfo json).select method params found =
      match method with
      | .get => .invoke (serializableHandler emplaceBody json.optionalTask
          getTaskHandler) (bindCaptures [idName] found params)
      | .delete => .invoke (serializableHandler emplaceBody json.none
          (okResponse deleteTaskHandler)) (bindCaptures [idName] found params)
      | _ => .own .methodNotAllowed := by
  rw [RouteInfo.select, Regex.Match.size, hfound]
  cases method <;> rfl

theorem getTaskHandler_run {params : Params} {segment : Str}
    (hid : Params.at params idName = .ok segment) :
    (getTaskHandler ⟨⟩ params).run =
      match stoull segment with
      | .error e => .ret (.error e)
      | .ok id =>
          .call (.getTask id) fun task =>
            .ret (.ok ⟨if task.isSome then .ok else .noContent, task⟩) := by
  simp only [getTaskHandler, hid, ExceptT.run_bind, ExceptT.run_mk, pure_bind]
  cases stoull segment <;> rfl

theorem deleteTaskHandler_run {params : Params} {segment : Str}
    (hid : Params.at params idName = .ok segment) :
    (okResponse deleteTaskHandler ⟨⟩ params).run =
      match stoull segment with
      | .error e => .ret (.error e)
      | .ok id => .call (.deleteTask id) fun _ => .ret (.ok ⟨.ok, ⟨⟩⟩) := by
  simp only [okResponse, deleteTaskHandler, hid, ExceptT.run_bind,
    ExceptT.run_mk, pure_bind]
  cases stoull segment <;> rfl

/-- The router of `StartServer` answers every request as planned. -/
theorem respond_served {json : Json} {order : List (RouteEntry StorageProg)}
    (horder : order.Perm (servedEntries json)) (req : Request) :
    (select req.method (pathOf req.path) (queryParams req.path)
      order).respond req = plan json req := by
  rw [select_served horder, plan, callOf]
  cases endpointOf (pathOf req.path) with
  | unknown => rfl
  | tasks =>
      dsimp only
      rw [tasksInfo_select]
      cases req.method with
      | get => rw [respond_serializableHandler]; rfl
      | post =>
          rw [respond_serializableHandler, deSerializeBody]
          cases deSerialize json.payload req.body req.contentType <;> rfl
      | _ => rfl
  | task segment =>
      dsimp only
      rw [taskInfo_select _ _ _ _ rfl]
      cases req.method with
      | get =>
          rw [respond_serializableHandler, emplaceBody]
          dsimp only
          rw [getTaskHandler_run (at_bindCaptures_id ..)]
          cases stoull segment <;> rfl
      | delete =>
          rw [respond_serializableHandler, emplaceBody]
          dsimp only
          rw [deleteTaskHandler_run (at_bindCaptures_id ..)]
          cases stoull segment <;> rfl
      | _ => rfl

theorem Server.route_eq {json : Json} (server : Server json) (req : Request) :
    (route server.order req).run = Except.ok <$> plan json req := by
  rw [Rest.route_eq, respond_served server.perm]

/-- The call an HTTP request leads to, with the content type its answer is
wanted in, or the answer it gets without a call. -/
def httpCall (json : Json) (req : HttpRequest) :
    Except Response (StorageCall × ContentType) :=
  match parseRequest req with
  | .error response => .error response
  | .ok request =>
      match callOf json request with
      | .error response => .error response
      | .ok op => .ok (op, request.acceptContentType)

/-- The answer of the server to an HTTP request. -/
theorem Server.answer_eq {json : Json} (server : Server json)
    (req : HttpRequest) :
    answer server.order req =
      match httpCall json req with
      | .error response => .ret response
      | .ok (op, accept) =>
          .call op fun result => .ret (encodeResult json accept op result) := by
  unfold answer httpCall
  cases parseRequest req with
  | error response => rfl
  | ok request =>
      dsimp only
      rw [respond_served server.perm, plan]
      cases callOf json request <;> rfl

/-- `PrepareResponse` on a storage: the answer and the storage after it. -/
def Server.prepareResponse {json : Json} (server : Server json)
    (req : HttpRequest) (storage : InMemoryStorage) :
    Except StdException Response × InMemoryStorage :=
  (Rest.prepareResponse server.order req).run.run storage

theorem Server.prepareResponse_eq {json : Json} (server : Server json)
    (req : HttpRequest) (storage : InMemoryStorage) :
    server.prepareResponse req storage =
      match httpCall json req with
      | .error response => (.ok response, storage)
      | .ok (op, accept) =>
          (.ok (encodeResult json accept op (storage.exec op).1),
            (storage.exec op).2) := by
  rw [Server.prepareResponse, Rest.prepareResponse_eq, StorageProg.run_map,
    server.answer_eq]
  rcases httpCall json req with response | ⟨op, accept⟩ <;> rfl

/-- The storage calls of a request, at most one. -/
def requestCalls (json : Json) (req : HttpRequest) : List StorageCall :=
  match httpCall json req with
  | .error _ => []
  | .ok (op, _) => [op]

/-- A request changes the storage only by its call. -/
theorem Server.prepareResponse_snd {json : Json} (server : Server json)
    (req : HttpRequest) (storage : InMemoryStorage) :
    (server.prepareResponse req storage).2 =
      storage.after (requestCalls json req) := by
  rw [server.prepareResponse_eq, requestCalls]
  rcases httpCall json req with response | ⟨op, accept⟩ <;> rfl

/-- The method, the path and the body that make a request lead to a call. -/
def Asks (json : Json) (method : Method) (path body : Str)
    (contentType : ContentType) : StorageCall → Prop
  | .createTask payload =>
      method = .post ∧ endpointOf path = .tasks ∧
        deSerialize json.payload body contentType = .ok payload
  | .getTask id =>
      method = .get ∧ ∃ segment, endpointOf path = .task segment ∧
        stoull segment = .ok id
  | .deleteTask id =>
      method = .delete ∧ ∃ segment, endpointOf path = .task segment ∧
        stoull segment = .ok id
  | .getTasks => method = .get ∧ endpointOf path = .tasks

theorem callOf_eq_ok {json : Json} {req : Request} {op : StorageCall} :
    callOf json req = .ok op ↔
      Asks json req.method (pathOf req.path) req.body req.contentType op := by
  constructor
  · intro hcall
    unfold callOf at hcall
    split at hcall
    · next hend hmethod =>
        cases hcall
        exact ⟨hmethod, hend⟩
    · next hend hmethod =>
        split at hcall
        · cases hcall
        · next hpayload =>
            cases hcall
            exact ⟨hmethod, hend, hpayload⟩
    · next segment hend hmethod =>
        split at hcall
        · cases hcall
        · next hid =>
            cases hcall
            exact ⟨hmethod, segment, hend, hid⟩
    · next segment hend hmethod =>
        split at hcall
        · cases hcall
        · next hid =>
            cases hcall
            exact ⟨hmethod, segment, hend, hid⟩
    · cases hcall
    · cases hcall
  · intro hasks
    unfold callOf
    cases op with
    | createTask payload =>
        obtain ⟨hmethod, hend, hpayload⟩ := hasks
        simp only [hmethod, hend, hpayload]
    | getTask id =>
        obtain ⟨hmethod, segment, hend, hid⟩ := hasks
        simp only [hmethod, hend, hid]
    | deleteTask id =>
        obtain ⟨hmethod, segment, hend, hid⟩ := hasks
        simp only [hmethod, hend, hid]
    | getTasks =>
        obtain ⟨hmethod, hend⟩ := hasks
        simp only [hmethod, hend]

/-- A request that leads to no call is answered with an error. -/
theorem isError_of_callOf {json : Json} {req : Request} {response : Response}
    (hcall : callOf json req = .error response) :
    response.statusCode.IsError := by
  unfold callOf at hcall
  split at hcall
  · cases hcall
  · split at hcall <;> cases hcall
    exact (by decide : Status.badRequest.IsError)
  · split at hcall <;> cases hcall
    exact (by decide : Status.internalServerError.IsError)
  · split at hcall <;> cases hcall
    exact (by decide : Status.internalServerError.IsError)
  · cases hcall
    decide
  · cases hcall
    decide

theorem httpCall_eq_ok {json : Json} {req : HttpRequest} {op : StorageCall}
    {accept : ContentType} :
    httpCall json req = .ok (op, accept) ↔
      ∃ method contentType, req.verb = Method.verb method ∧
        parseContentType req.contentType = some contentType ∧
        parseContentType req.accept = some accept ∧
        Asks json method (pathOf req.target) req.body contentType op := by
  constructor
  · intro hhttp
    unfold httpCall at hhttp
    split at hhttp
    · cases hhttp
    · next request hparse =>
        split at hhttp
        · cases hhttp
        · next hcall =>
            cases hhttp
            obtain ⟨hmethod, hcontent, haccept, hpath, hbody⟩ :=
              parseRequest_eq_ok.mp hparse
            have hasks := callOf_eq_ok.mp hcall
            rw [hpath, hbody] at hasks
            exact ⟨_, _, parseMethod_eq_some.mp hmethod, hcontent, haccept,
              hasks⟩
  · rintro ⟨method, contentType, hverb, hcontent, haccept, hasks⟩
    have hparse : parseRequest req =
        .ok ⟨method, req.target, req.body, contentType, accept⟩ :=
      parseRequest_eq_ok.mpr
        ⟨parseMethod_eq_some.mpr hverb, hcontent, haccept, rfl, rfl⟩
    have hcall : callOf json
        ⟨method, req.target, req.body, contentType, accept⟩ = .ok op :=
      callOf_eq_ok.mpr hasks
    simp only [httpCall, hparse, hcall]

theorem isError_of_httpCall {json : Json} {req : HttpRequest}
    {response : Response} (hhttp : httpCall json req = .error response) :
    response.statusCode.IsError := by
  unfold httpCall at hhttp
  split at hhttp
  · next hparse =>
      cases hhttp
      have hclient := isClientError_of_parseRequest hparse
      exact ⟨hclient.1, by have := hclient.2; omega⟩
  · split at hhttp
    · next hcall =>
        cases hhttp
        exact isError_of_callOf hcall
    · cases hhttp

theorem encodeResult_textPlain (json : Json) (op : StorageCall)
    (result : op.Result) :
    encodeResult json .textPlain op result =
      ⟨.badRequest, "Unsupported accept content type".toList, .textPlain⟩ := by
  cases op <;> rfl

/-- The status of an answer in JSON. -/
def resultStatus : (op : StorageCall) → op.Result → Status
  | .getTask _, none => .noContent
  | _, _ => .ok

theorem encodeResult_statusCode (json : Json) (op : StorageCall)
    (result : op.Result) :
    (encodeResult json .applicationJson op result).statusCode =
      resultStatus op result := by
  cases op with
  | getTask index => cases result <;> rfl
  | _ => rfl

end Backend

end JustQueueIt
