/-
Posted tasks from end to end: a task that was posted is fetched under the
numeral of its id, through every query string, until it is deleted, and never
after.
-/
import JustQueueIt.ApiReference

namespace JustQueueIt

namespace Backend

open Rest

variable {json : Json}

/-- The storage after requests that were served one after the other. -/
def Server.storageAfter (server : Server json) (reqs : List HttpRequest)
    (storage : InMemoryStorage) : InMemoryStorage :=
  reqs.foldl (fun storage req => (server.prepareResponse req storage).2)
    storage

/-- The storage calls that requests lead to. -/
def callsOf (json : Json) (reqs : List HttpRequest) : List StorageCall :=
  reqs.flatMap (requestCalls json)

theorem Server.storageAfter_eq (server : Server json)
    (reqs : List HttpRequest) (calls : List StorageCall) :
    server.storageAfter reqs (InMemoryStorage.empty.after calls) =
      InMemoryStorage.empty.after (calls ++ callsOf json reqs) := by
  induction reqs generalizing calls with
  | nil => rw [callsOf, List.flatMap_nil, List.append_nil]; rfl
  | cons req rest ih =>
      have hreq := server.prepareResponse_snd req
        (InMemoryStorage.empty.after calls)
      rw [← InMemoryStorage.after_append] at hreq
      change server.storageAfter rest (server.prepareResponse req _).2 = _
      rw [hreq, ih, callsOf, callsOf, List.flatMap_cons, List.append_assoc]

/-- A `DELETE` whose id segment `stoull` reads as `k`. -/
def Deletes (k : Nat) (req : HttpRequest) : Prop :=
  req.verb = .delete ∧ ∃ segment,
    endpointOf (pathOf req.target) = .task segment ∧ stoull segment = .ok k

/-- A `POST /tasks` in JSON with the JSON of a payload. -/
structure Posts (json : Json) (payload : TaskPayload) (req : HttpRequest) :
    Prop where
  inJson : InJson req .post
  path : pathOf req.target = tasksPath
  body : req.body = json.payload.write payload

/-- A target that is a task path with the numeral of `k`, with any query string
or none appended. -/
def IsTaskTarget (k : Nat) (target : Str) : Prop :=
  ∃ query : Str, (query = [] ∨ query.head? = some '?') ∧
    target = taskPrefix ++ Stoull.numeral k ++ query

theorem endpointOf_of_isTaskTarget {k : Nat} {target : Str}
    (htarget : IsTaskTarget k target) :
    endpointOf (pathOf target) = .task (Stoull.numeral k) := by
  obtain ⟨query, hquery, rfl⟩ := htarget
  obtain ⟨hne, hdigits⟩ := Stoull.numeral_isNumeral k
  have hslash : '/' ∉ Stoull.numeral k := fun hmem =>
    absurd (hdigits _ hmem) (by decide)
  have hmark : '?' ∉ taskPrefix ++ Stoull.numeral k := by
    rw [List.mem_append, not_or]
    exact ⟨by decide, fun hmem => absurd (hdigits _ hmem) (by decide)⟩
  have hpath : pathOf (taskPrefix ++ Stoull.numeral k ++ query) =
      taskPrefix ++ Stoull.numeral k := by
    rcases hquery with rfl | hquery
    · rw [List.append_nil, pathOf_of_notMem hmark]
    · obtain ⟨text, rfl⟩ := List.head?_eq_some_iff.mp hquery
      exact pathOf_append_query hmark text
  rw [hpath, endpointOf_taskPrefix_append hne hslash]

theorem stoull_numeral {k : Nat} (hk : k < sizeLimit) :
    stoull (Stoull.numeral k) = .ok k :=
  stoull_eq_ok.mpr (Stoull.stoull_numeral hk)

theorem InJson.httpCall_getTask {req : HttpRequest} (hjson : InJson req .get)
    {k : Nat} (htarget : IsTaskTarget k req.target) (hk : k < sizeLimit) :
    httpCall json req = .ok (.getTask k, .applicationJson) :=
  hjson.httpCall_of_asks
    ⟨rfl, _, endpointOf_of_isTaskTarget htarget, stoull_numeral hk⟩

theorem InJson.httpCall_getTasks {req : HttpRequest} (hjson : InJson req .get)
    (hpath : pathOf req.target = tasksPath) :
    httpCall json req = .ok (.getTasks, .applicationJson) :=
  hjson.httpCall_of_asks ⟨rfl, by rw [hpath]; rfl⟩

theorem InJson.requestCalls_deleteTask {req : HttpRequest}
    (hjson : InJson req .delete) {k : Nat}
    (htarget : IsTaskTarget k req.target) (hk : k < sizeLimit) :
    requestCalls json req = [.deleteTask k] := by
  have hcall : httpCall json req = .ok (.deleteTask k, .applicationJson) :=
    hjson.httpCall_of_asks
      ⟨rfl, _, endpointOf_of_isTaskTarget htarget, stoull_numeral hk⟩
  rw [requestCalls, hcall]

theorem mem_requestCalls {req : HttpRequest} {op : StorageCall} :
    op ∈ requestCalls json req ↔
      ∃ accept, httpCall json req = .ok (op, accept) := by
  unfold requestCalls
  rcases httpCall json req with response | ⟨its, accept⟩
  · simp
  · simp [eq_comm]

theorem Deletes.of_mem_requestCalls {k : Nat} {req : HttpRequest}
    (hmem : .deleteTask k ∈ requestCalls json req) : Deletes k req := by
  obtain ⟨accept, hhttp⟩ := mem_requestCalls.mp hmem
  obtain ⟨method, contentType, hverb, -, -, hasks⟩ := httpCall_eq_ok.mp hhttp
  obtain ⟨rfl, segment, hend, hid⟩ := hasks
  exact ⟨hverb, segment, hend, hid⟩

theorem Posts.httpCall_eq (hlawful : json.Lawful) {payload : TaskPayload}
    {req : HttpRequest} (hposts : Posts json payload req) :
    httpCall json req = .ok (.createTask payload, .applicationJson) := by
  refine hposts.inJson.httpCall_of_asks ⟨rfl, ?_, ?_⟩
  · rw [hposts.path]
    rfl
  · rw [hposts.body]
    exact hlawful.payload payload

/-- The id in the answer to a post is the number of creations before it. -/
theorem Posts.task_eq (hlawful : json.Lawful) (server : Server json)
    {payload : TaskPayload} {post : HttpRequest}
    (hposts : Posts json payload post) {calls : List StorageCall}
    (hroom : (creations calls).length < sizeLimit) {response : Response}
    (hanswer : (server.prepareResponse post
      (InMemoryStorage.empty.after calls)).1 = .ok response) {task : Task}
    (htask : json.task.read response.body = .ok task) :
    task = ⟨(creations calls).length, payload⟩ := by
  rw [server.prepareResponse_eq, hposts.httpCall_eq hlawful] at hanswer
  obtain rfl := Except.ok.inj hanswer
  have hcreated := resultAfter_createTask hroom payload
  rw [← hcreated]
  exact (Except.ok.inj ((hlawful.task _).symm.trans htask)).symm

theorem Posts.requestCalls_eq (hlawful : json.Lawful) {payload : TaskPayload}
    {req : HttpRequest} (hposts : Posts json payload req) :
    requestCalls json req = [.createTask payload] := by
  rw [requestCalls, hposts.httpCall_eq hlawful]

/-- While nothing deletes it, a created task is alive. -/
theorem alive_of_creates {payload : TaskPayload} {post : HttpRequest}
    (hpost : requestCalls json post = [.createTask payload])
    (calls : List StorageCall) {later : List HttpRequest}
    (hkept : ∀ req ∈ later, ¬ Deletes (creations calls).length req) :
    Alive (calls ++ callsOf json (post :: later)) (creations calls).length
      payload := by
  refine ⟨calls, callsOf json later, ?_, rfl, ?_⟩
  · rw [callsOf, List.flatMap_cons, hpost]
    rfl
  · intro hmem
    obtain ⟨req, hreq, hcall⟩ := List.mem_flatMap.mp hmem
    exact hkept req hreq (.of_mem_requestCalls hcall)

/-- An alive task is fetched under its numeral. -/
theorem get_of_alive (hlawful : json.Lawful) (server : Server json)
    {calls : List StorageCall} (hroom : (creations calls).length < sizeLimit)
    {k : Nat} {payload : TaskPayload} (halive : Alive calls k payload)
    {get : HttpRequest} (hjson : InJson get .get)
    (htarget : IsTaskTarget k get.target) :
    (server.prepareResponse get (InMemoryStorage.empty.after calls)).1 =
      .ok ⟨.ok, json.task.write ⟨k, payload⟩, .applicationJson⟩ := by
  have hget := (mapAfter_get?_iff calls k payload).mpr halive
  have hk : k < sizeLimit := by
    have hnext := mapAfter_next .empty calls
    have hlt := CounterMap.lt_next hget
    rw [CounterMap.empty_next, Nat.zero_add] at hnext
    omega
  rw [(represents_after hroom).prepareResponse_fst, specAnswer,
    hjson.httpCall_getTask htarget hk]
  dsimp only
  rw [encodeResult_resultOn hlawful, answerOn, hget]

/-- An alive task is listed once, and no other task with its id is. -/
theorem list_of_alive (hlawful : json.Lawful) (server : Server json)
    {calls : List StorageCall} (hroom : (creations calls).length < sizeLimit)
    {k : Nat} {payload : TaskPayload} (halive : Alive calls k payload)
    {list : HttpRequest} (hjson : InJson list .get)
    (hpath : pathOf list.target = tasksPath) :
    ∃ tasks, (server.prepareResponse list
        (InMemoryStorage.empty.after calls)).1 =
          .ok ⟨.ok, json.tasks.write tasks, .applicationJson⟩ ∧
      tasks.count ⟨k, payload⟩ = 1 ∧
      ∀ task ∈ tasks, task.id = k → task = ⟨k, payload⟩ := by
  have hget := (mapAfter_get?_iff calls k payload).mpr halive
  refine ⟨tasksOf (mapAfter .empty calls), ?_, ?_, ?_⟩
  · rw [(represents_after hroom).prepareResponse_fst, specAnswer,
      hjson.httpCall_getTasks hpath]
    dsimp only
    rw [encodeResult_resultOn hlawful, answerOn]
  · have hnodup : (tasksOf (mapAfter .empty calls)).Nodup :=
      (tasksOf_sorted _).imp fun hlt heq => by
        rw [heq] at hlt
        exact Nat.lt_irrefl _ hlt
    exact List.count_eq_one_of_mem hnodup (mem_tasksOf.mpr hget)
  · rintro ⟨id, its⟩ hmem rfl
    have hits := mem_tasksOf.mp hmem
    rw [hget] at hits
    rw [Option.some.inj hits]

/-- A client is shown only tasks that are alive. -/
theorem alive_of_shown (hlawful : json.Lawful) (server : Server json)
    {calls : List StorageCall} (hroom : (creations calls).length < sizeLimit)
    {get : HttpRequest} (hverb : get.verb = .get) {response : Response}
    (hanswer : (server.prepareResponse get
      (InMemoryStorage.empty.after calls)).1 = .ok response) {task : Task}
    (hshown : task ∈ shown json get response.statusCode.code response.body) :
    Alive calls task.id task.payload := by
  rw [(represents_after hroom).prepareResponse_fst server get] at hanswer
  obtain rfl := Except.ok.inj hanswer
  rw [shown_specAnswer hlawful] at hshown
  exact (mapAfter_get?_iff calls _ _).mp (get?_of_mem_shownOn hverb hshown)

/-- A task that was issued before the delete of its id is shown by no `GET`
after it. -/
theorem ne_of_shown_after_delete (hlawful : json.Lawful) (server : Server json)
    {calls : List StorageCall} {k : Nat}
    (hissued : k < (creations calls).length) {delete : HttpRequest}
    (hdelete : InJson delete .delete) (htarget : IsTaskTarget k delete.target)
    {after : List HttpRequest}
    (hroom : (creations (calls ++ callsOf json (delete :: after))).length <
      sizeLimit) {get : HttpRequest} (hverb : get.verb = .get)
    {response : Response}
    (hanswer : (server.prepareResponse get (InMemoryStorage.empty.after
      (calls ++ callsOf json (delete :: after)))).1 = .ok response) {task : Task}
    (hshown : task ∈ shown json get response.statusCode.code response.body) :
    task.id ≠ k := by
  rintro rfl
  have hk : task.id < sizeLimit := by
    rw [creations_append, List.length_append] at hroom
    omega
  have halive := alive_of_shown hlawful server hroom hverb hanswer hshown
  rw [callsOf, List.flatMap_cons, hdelete.requestCalls_deleteTask htarget hk]
    at halive
  exact not_alive_of_deleted hissued _ halive

/-- What is posted can be fetched and is listed once until a delete of its id,
and is shown by no `GET` after one. -/
theorem posted_task_is_served (hlawful : json.Lawful) (server : Server json)
    (calls : List StorageCall) {payload : TaskPayload} {post : HttpRequest}
    (hposts : Posts json payload post) {response : Response}
    (hanswer : (server.prepareResponse post
      (InMemoryStorage.empty.after calls)).1 = .ok response) {task : Task}
    (htask : json.task.read response.body = .ok task) :
    (∀ later, (∀ req ∈ later, ¬ Deletes task.id req) →
      (creations (calls ++ callsOf json (post :: later))).length < sizeLimit →
      let storage := server.storageAfter (post :: later)
        (InMemoryStorage.empty.after calls)
      (∀ get, InJson get .get → IsTaskTarget task.id get.target →
        (server.prepareResponse get storage).1 =
          .ok ⟨.ok, json.task.write ⟨task.id, payload⟩, .applicationJson⟩) ∧
      ∀ list, InJson list .get → pathOf list.target = tasksPath →
        ∃ tasks, (server.prepareResponse list storage).1 =
            .ok ⟨.ok, json.tasks.write tasks, .applicationJson⟩ ∧
          tasks.count ⟨task.id, payload⟩ = 1 ∧
          ∀ other ∈ tasks, other.id = task.id → other = ⟨task.id, payload⟩) ∧
    ∀ before delete after, InJson delete .delete →
      IsTaskTarget task.id delete.target →
      (creations (calls ++ callsOf json
        (post :: before ++ delete :: after))).length < sizeLimit →
      ∀ get answer, get.verb = .get →
        (server.prepareResponse get (server.storageAfter
          (post :: before ++ delete :: after)
            (InMemoryStorage.empty.after calls))).1 = .ok answer →
        ∀ other ∈ shown json get answer.statusCode.code answer.body,
          other.id ≠ task.id := by
  constructor
  · intro later hkept hroom
    have hcalls : (creations calls).length < sizeLimit := by
      rw [creations_append, List.length_append] at hroom
      omega
    obtain rfl := hposts.task_eq hlawful server hcalls hanswer htask
    have halive := alive_of_creates (hposts.requestCalls_eq hlawful) calls hkept
    rw [server.storageAfter_eq]
    exact ⟨fun get hjson htarget =>
        get_of_alive hlawful server hroom halive hjson htarget,
      fun list hjson hpath =>
        list_of_alive hlawful server hroom halive hjson hpath⟩
  · intro before delete after hdelete htarget hroom get answer hverb hget other
      hother
    have hsplit : calls ++ callsOf json (post :: before ++ delete :: after) =
        (calls ++ callsOf json (post :: before)) ++
          callsOf json (delete :: after) := by
      rw [callsOf, List.flatMap_append, List.append_assoc]
      rfl
    have hcalls : (creations calls).length < sizeLimit := by
      rw [creations_append, List.length_append] at hroom
      omega
    obtain rfl := hposts.task_eq hlawful server hcalls hanswer htask
    have hissued : (creations calls).length <
        (creations (calls ++ callsOf json (post :: before))).length := by
      rw [callsOf, List.flatMap_cons, hposts.requestCalls_eq hlawful,
        creations_append, creations_append]
      simp [creations]
    rw [server.storageAfter_eq, hsplit] at hget
    rw [hsplit] at hroom
    exact ne_of_shown_after_delete hlawful server hissued hdelete htarget hroom
      hverb hget hother

/-- `GET /tasks/0?id=7` in JSON. -/
def getWithQuery : HttpRequest where
  verb := .get
  target := "/tasks/0?id=7".toList
  contentType := "application/json".toList
  accept := "application/json".toList
  body := []
  keepAlive := true

/-- `GET /tasks` in JSON. -/
def listTasks : HttpRequest :=
  { getWithQuery with target := tasksPath }

/-- `DELETE` of a task in JSON. -/
def deleteById (k : Nat) : HttpRequest :=
  { getWithQuery with
    verb := .delete
    target := taskPrefix ++ Stoull.numeral k }

theorem isTaskTarget_deleteById (k : Nat) :
    IsTaskTarget k (deleteById k).target :=
  ⟨[], Or.inl rfl, (List.append_nil _).symm⟩

theorem eq_of_deletes_deleteById {k j : Nat} (hj : j < sizeLimit)
    (hdeletes : Deletes k (deleteById j)) : k = j := by
  obtain ⟨-, segment, hend, hid⟩ := hdeletes
  rw [endpointOf_of_isTaskTarget (isTaskTarget_deleteById j)] at hend
  rw [← Endpoint.task.inj hend, stoull_numeral hj] at hid
  exact (Except.ok.inj hid).symm

/-- After another post and the delete of the second task the first task is
fetched, whatever the query says; once it is deleted itself, it is not listed
with the tasks posted before and after. -/
theorem getWithQuery_served :
    let server := Server.start taskJson
    let storage := InMemoryStorage.empty.after []
    (server.prepareResponse getWithQuery (server.storageAfter
      [postWithQuery, postWithQuery, deleteById 1] storage)).1 =
        .ok ⟨.ok, writeTask ⟨0, ⟨['a'], ['b']⟩⟩, .applicationJson⟩ ∧
    ∀ answer, (server.prepareResponse listTasks (server.storageAfter
        [postWithQuery, postWithQuery, deleteById 0, postWithQuery]
          storage)).1 = .ok answer →
      ∀ other ∈ shown taskJson listTasks answer.statusCode.code answer.body,
        other.id ≠ 0 := by
  have hposts : Posts taskJson ⟨['a'], ['b']⟩ postWithQuery :=
    ⟨⟨rfl, rfl, rfl⟩, by decide, by decide⟩
  have hanswer : ((Server.start taskJson).prepareResponse postWithQuery
      (InMemoryStorage.empty.after [])).1 =
        .ok ⟨.ok, writeTask ⟨0, ⟨['a'], ['b']⟩⟩, .applicationJson⟩ := by
    rw [Server.prepareResponse_eq, hposts.httpCall_eq taskJson_lawful]
    rfl
  have hkept : ∀ req ∈ [postWithQuery, deleteById 1], ¬ Deletes 0 req := by
    intro req hreq hdeletes
    rcases List.mem_pair.mp hreq with rfl | rfl
    · cases hdeletes.1
    · cases eq_of_deletes_deleteById (by decide) hdeletes
  obtain ⟨hserved, hgone⟩ := posted_task_is_served taskJson_lawful
    (Server.start taskJson) [] hposts hanswer (taskJson_lawful.task _)
  constructor
  · exact (hserved _ hkept (by decide)).1 getWithQuery ⟨rfl, rfl, rfl⟩
      ⟨"?id=7".toList, Or.inr rfl, rfl⟩
  · exact fun answer => hgone [postWithQuery] (deleteById 0) [postWithQuery]
      ⟨rfl, rfl, rfl⟩ (isTaskTarget_deleteById 0) (by decide) listTasks answer
      rfl

end Backend

end JustQueueIt
