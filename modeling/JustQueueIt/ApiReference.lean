/-
A reference for the served interface, on a finite map with a counter, and the
server as a refinement of it.  No order of the route table, no query string and
no stored vector is left in the reference.
-/
import JustQueueIt.ShownTasks
import JustQueueIt.TaskJson

namespace JustQueueIt

namespace Backend

open Rest

variable {json : Json}

/-- What a request in JSON is answered with, and the map after it. -/
def reference (json : Json) (method : Method) (target body : Str)
    (map : TaskMap) : Response × TaskMap :=
  match endpointOf (pathOf target), method with
  | .tasks, .get =>
      (⟨.ok, json.tasks.write (tasksOf map), .applicationJson⟩, map)
  | .tasks, .post =>
      match json.payload.read body with
      | .error e => (⟨.badRequest, e.what, .textPlain⟩, map)
      | .ok payload =>
          (⟨.ok, json.task.write ⟨map.next, payload⟩, .applicationJson⟩,
            map.create payload)
  | .task segment, .get =>
      match stoull segment with
      | .error e => (⟨.internalServerError, e.what, .textPlain⟩, map)
      | .ok id =>
          match map.get? id with
          | some payload =>
              (⟨.ok, json.task.write ⟨id, payload⟩, .applicationJson⟩, map)
          | none =>
              (⟨.noContent, json.optionalTask.write none, .applicationJson⟩,
                map)
  | .task segment, .delete =>
      match stoull segment with
      | .error e => (⟨.internalServerError, e.what, .textPlain⟩, map)
      | .ok id => (⟨.ok, json.none.write ⟨⟩, .applicationJson⟩, map.erase id)
  | .unknown, _ => (.notFound, map)
  | _, _ => (.methodNotAllowed, map)

/-- A request whose headers ask for JSON. -/
structure InJson (req : HttpRequest) (method : Method) : Prop where
  verb : req.verb = Method.verb method
  contentType : req.contentType = ContentType.applicationJson.parseContentType
  accept : req.accept = ContentType.applicationJson.parseContentType

theorem InJson.httpCall_eq {req : HttpRequest} {method : Method}
    (hjson : InJson req method) :
    httpCall json req =
      (callOf json ⟨method, req.target, req.body, .applicationJson,
        .applicationJson⟩).map (·, .applicationJson) := by
  have hparse : parseRequest req = .ok ⟨method, req.target, req.body,
      .applicationJson, .applicationJson⟩ :=
    parseRequest_eq_ok.mpr ⟨parseMethod_eq_some.mpr hjson.verb,
      parseContentType_eq_some.mpr hjson.contentType,
      parseContentType_eq_some.mpr hjson.accept, rfl, rfl⟩
  simp only [httpCall, hparse]
  cases callOf json _ <;> rfl

theorem InJson.httpCall_of_asks {req : HttpRequest} {method : Method}
    (hjson : InJson req method) {op : StorageCall}
    (hasks : Asks json method (pathOf req.target) req.body .applicationJson
      op) : httpCall json req = .ok (op, .applicationJson) :=
  httpCall_eq_ok.mpr ⟨method, .applicationJson, hjson.verb,
    parseContentType_eq_some.mpr hjson.contentType,
    parseContentType_eq_some.mpr hjson.accept, hasks⟩

/-- The answer in JSON to a call on the map. -/
def answerOn (json : Json) (map : TaskMap) : StorageCall → Response
  | .createTask payload =>
      ⟨.ok, json.task.write ⟨map.next, payload⟩, .applicationJson⟩
  | .getTask id =>
      match map.get? id with
      | some payload => ⟨.ok, json.task.write ⟨id, payload⟩, .applicationJson⟩
      | none =>
          ⟨.noContent, json.optionalTask.write none, .applicationJson⟩
  | .deleteTask _ => ⟨.ok, json.none.write ⟨⟩, .applicationJson⟩
  | .getTasks => ⟨.ok, json.tasks.write (tasksOf map), .applicationJson⟩

/-- The reference answers the call that a request leads to. -/
theorem reference_eq (method : Method) (target body : Str) (map : TaskMap) :
    reference json method target body map =
      match callOf json ⟨method, target, body, .applicationJson,
          .applicationJson⟩ with
      | .error response => (response, map)
      | .ok op => (answerOn json map op, applyCall map op) := by
  unfold reference callOf
  cases endpointOf (pathOf target) with
  | unknown => rfl
  | tasks =>
      cases method with
      | post =>
          dsimp only [deSerialize]
          cases json.payload.read body <;> rfl
      | _ => rfl
  | task segment =>
      cases method with
      | get =>
          dsimp only
          cases stoull segment with
          | error e => rfl
          | ok id =>
              dsimp only [answerOn, applyCall]
              cases map.get? id <;> rfl
      | delete =>
          dsimp only
          cases stoull segment <;> rfl
      | _ => rfl

/-- The answer in JSON to what a call returns on the map. -/
theorem encodeResult_resultOn (hlawful : json.Lawful) (map : TaskMap)
    (op : StorageCall) :
    encodeResult json .applicationJson op (resultOn map op) =
      answerOn json map op := by
  cases op with
  | getTask id =>
      simp only [resultOn, answerOn]
      cases map.get? id with
      | none => rfl
      | some payload =>
          simp only [Option.map_some, encodeResult, encodeAnswer, serialize,
            hlawful.present]
          rfl
  | _ => rfl

/-- A request in JSON is answered on the map as the reference has it. -/
theorem InJson.reference_eq (hlawful : json.Lawful) {req : HttpRequest}
    {method : Method} (hjson : InJson req method) (map : TaskMap) :
    reference json method req.target req.body map =
      (specAnswer json map req, mapAfter map (requestCalls json req)) := by
  rw [Backend.reference_eq, specAnswer, requestCalls, hjson.httpCall_eq]
  cases callOf json ⟨method, req.target, req.body, .applicationJson,
    .applicationJson⟩ with
  | error response => rfl
  | ok op =>
      refine Prod.ext ?_ rfl
      exact (encodeResult_resultOn hlawful map op).symm

/-- A request moves a storage that represents a map to one that represents the
map after it, and is answered alike. -/
theorem Represents.prepareResponse (hlawful : json.Lawful)
    (server : Server json) {storage : InMemoryStorage} {map : TaskMap}
    (hrep : Represents storage map) {req : HttpRequest} {method : Method}
    (hjson : InJson req method)
    (hroom : map.next + (creations (requestCalls json req)).length <
      sizeLimit) :
    (server.prepareResponse req storage).1 =
        .ok (reference json method req.target req.body map).1 ∧
      Represents (server.prepareResponse req storage).2
        (reference json method req.target req.body map).2 := by
  rw [hjson.reference_eq hlawful, server.prepareResponse_snd]
  exact ⟨hrep.prepareResponse_fst server req, hrep.after hroom⟩

/-- On every storage that calls can lead to, the server answers a request in
JSON as the reference does and leaves the storage the reference asks for. -/
theorem prepareResponse_eq_reference (hlawful : json.Lawful)
    (server : Server json) (calls : List StorageCall) {req : HttpRequest}
    {method : Method} (hjson : InJson req method)
    (hroom : (creations (calls ++ requestCalls json req)).length <
      sizeLimit) :
    (server.prepareResponse req (InMemoryStorage.empty.after calls)).1 =
        .ok (reference json method req.target req.body
          (mapAfter .empty calls)).1 ∧
      Represents
        (server.prepareResponse req (InMemoryStorage.empty.after calls)).2
        (reference json method req.target req.body
          (mapAfter .empty calls)).2 := by
  rw [creations_append, List.length_append] at hroom
  apply (represents_after (by omega)).prepareResponse hlawful server hjson
  rwa [mapAfter_next, CounterMap.empty_next, Nat.zero_add]

/-- `POST /tasks?id=7` in JSON. -/
def postWithQuery : HttpRequest where
  verb := .post
  target := "/tasks?id=7".toList
  contentType := "application/json".toList
  accept := "application/json".toList
  body := "\x7b\"name\":\"a\",\"description\":\"b\"\x7d".toList
  keepAlive := true

/-- The second task gets the id 1, whatever the query says. -/
theorem prepareResponse_postWithQuery :
    ((Server.start taskJson).prepareResponse postWithQuery
      (InMemoryStorage.empty.after [.createTask ⟨[], []⟩])).1 =
        .ok ⟨.ok, writeTask ⟨1, ⟨['a'], ['b']⟩⟩, .applicationJson⟩ :=
  have hjson : InJson postWithQuery .post := ⟨rfl, rfl, rfl⟩
  (prepareResponse_eq_reference taskJson_lawful (Server.start taskJson)
    [.createTask ⟨[], []⟩] hjson (by decide)).1

end Backend

end JustQueueIt
