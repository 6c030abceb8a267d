/-
`backend::StartServer`: the four handlers and the router they are registered
on.  Both templates are compiled by the regular expression library; a server is
the router together with one order in which the route table is visited.
-/
import JustQueueIt.RegexTemplate
import JustQueueIt.RestServer
import JustQueueIt.StorageProgram
import JustQueueIt.Stoull

namespace JustQueueIt

namespace Backend

open Rest

/-- The JSON codecs of the types the handlers exchange. -/
structure Json where
  payload : Rfl TaskPayload
  task : Rfl Task
  tasks : Rfl (List Task)
  optionalTask : Rfl (Option Task)
  none : Rfl Rest.None

/-- Decoding the JSON of a value gives the value back, and an optional with a
task is written as the task. -/
structure Json.Lawful (json : Json) : Prop where
  payload : json.payload.Lawful
  task : json.task.Lawful
  tasks : json.tasks.Lawful
  optionalTask : json.optionalTask.Lawful
  present : ∀ task, json.optionalTask.write (some task) = json.task.write task

/-- `std::stoull`, with the exceptions it throws. -/
def stoull (text : Str) : Except StdException Nat :=
  match Stoull.stoull text with
  | .ok value => .ok value
  | .error .invalidArgument => .error ⟨.invalidArgument, "stoull".toList⟩
  | .error .outOfRange => .error ⟨.outOfRange, "stoull".toList⟩

theorem stoull_eq_ok {text : Str} {n : Nat} :
    stoull text = .ok n ↔ Stoull.stoull text = .ok n := by
  unfold stoull
  split <;> simp_all

/-- The path parameter of the task routes. -/
def idName : Str :=
  "id".toList

/-- `GET /tasks`. -/
def getTasksHandler :
    Rest.None → Params → ExceptT StdException StorageProg (List Task) :=
  fun _ _ => ExceptT.lift TasksManager.getTasks

/-- `POST /tasks`. -/
def createTaskHandler :
    TaskPayload → Params → ExceptT StdException StorageProg Task :=
  fun task _ => ExceptT.lift (TasksManager.createTask task)

/-- `GET /tasks/{:id}`. -/
def getTaskHandler : Rest.None → Params →
    ExceptT StdException StorageProg (SerializableResponse (Option Task)) :=
  fun _ params => do
    let text ← ExceptT.mk (pure (params.at idName))
    let id ← ExceptT.mk (pure (stoull text))
    let task ← ExceptT.lift (TasksManager.getTask id)
    pure ⟨if task.isSome then .ok else .noContent, task⟩

/-- `DELETE /tasks/{:id}`. -/
def deleteTaskHandler :
    Rest.None → Params → ExceptT StdException StorageProg Rest.None :=
  fun _ params => do
    let text ← ExceptT.mk (pure (params.at idName))
    let id ← ExceptT.mk (pure (stoull text))
    let _ ← ExceptT.lift (TasksManager.deleteTask id)
    pure ⟨⟩

def tasksPath : Str :=
  "/tasks".toList

def taskPath : Str :=
  "/tasks/{:id}".toList

/-- The registrations of `backend::StartServer`. -/
def startServer (json : Json) : Except StdException (Router StorageProg) := do
  let router ← Router.empty.addRoute tasksPath .get emplaceBody json.tasks
    getTasksHandler
  let router ← router.addRoute tasksPath .post
    (deSerializeBody json.payload) json.task createTaskHandler
  let router ← router.addSerializableRoute taskPath .get emplaceBody
    json.optionalTask getTaskHandler
  router.addRoute taskPath .delete emplaceBody json.none deleteTaskHandler

/-- A running server: the router `StartServer` builds, the order in which the
loop of `Route` visits its table, and the `prepare_payload` it is linked with. -/
structure Server (json : Json) where
  router : Router StorageProg
  built : startServer json = .ok router
  order : List (RouteEntry StorageProg)
  iterates : order.Perm router.routes.entries
  prepare : PreparePayload

/-- What `/tasks/{:id}` holds before its placeholder. -/
def taskPrefix : Str :=
  "/tasks/".toList

def tasksPattern : Regex.Compiled :=
  ⟨.anchored (.literal tasksPath), 0⟩

def taskPattern : Regex.Compiled :=
  ⟨.anchored fun tail => .literal taskPrefix (.seq (.segment 1 '/') tail), 1⟩

theorem compilePath_tasks : compilePath tasksPath = .ok tasksPattern := rfl

theorem compilePath_task : compilePath taskPath = .ok taskPattern := rfl

theorem parameterNames_tasks : parameterNames tasksPath = [] := rfl

theorem parameterNames_task : parameterNames taskPath = [idName] := rfl

theorem taskPath_ne_tasksPath : taskPath ≠ tasksPath := by decide

def tasksInfo (json : Json) : RouteInfo StorageProg where
  pattern := tasksPattern
  parameterNames := []
  handlers := (∅ : Handlers StorageProg)
    |>.assign .get (serializableHandler emplaceBody json.tasks
      (okResponse getTasksHandler))
    |>.assign .post (serializableHandler (deSerializeBody json.payload)
      json.task (okResponse createTaskHandler))

def taskInfo (json : Json) : RouteInfo StorageProg where
  pattern := taskPattern
  parameterNames := [idName]
  handlers := (∅ : Handlers StorageProg)
    |>.assign .get (serializableHandler emplaceBody json.optionalTask
      getTaskHandler)
    |>.assign .delete (serializableHandler emplaceBody json.none
      (okResponse deleteTaskHandler))

/-- The table in one of its orders. -/
def servedEntries (json : Json) : List (RouteEntry StorageProg) :=
  [⟨taskPath, taskInfo json⟩, ⟨tasksPath, tasksInfo json⟩]

/-- The table that the four registrations leave behind. -/
def servedRouter (json : Json) : Router StorageProg :=
  ⟨(AList.insert tasksPath (tasksInfo json) ∅).insert taskPath (taskInfo json)⟩

theorem startServer_eq (json : Json) :
    startServer json = .ok (servedRouter json) := by
  have htasks : tasksPath.head? = some '/' := rfl
  have htask : taskPath.head? = some '/' := rfl
  simp only [startServer, Router.addRoute, Router.addSerializableRoute,
    bind, Except.bind, Router.addRouteImpl_eq_ok htasks compilePath_tasks,
    Router.addRouteImpl_eq_ok htask compilePath_task, Router.handlersOf,
    Router.empty, AList.lookup_empty, AList.lookup_insert,
    AList.insert_insert, parameterNames_tasks, parameterNames_task,
    AList.lookup_insert_ne taskPath_ne_tasksPath]
  rfl

theorem servedRouter_entries (json : Json) :
    (servedRouter json).routes.entries = servedEntries json := by
  rw [servedRouter, AList.entries_insert_of_notMem]
  · rfl
  · rw [AList.mem_insert]
    exact not_or.mpr ⟨taskPath_ne_tasksPath, AList.notMem_empty _⟩

/-- `StartServer` accepts its registrations, so there is a server. -/
def Server.start (json : Json) : Server json :=
  ⟨servedRouter json, startServer_eq json, _, List.Perm.refl _, .beast⟩

/-- The table of a server holds the two templates. -/
theorem Server.perm {json : Json} (server : Server json) :
    server.order.Perm (servedEntries json) := by
  have hsame := server.built.symm.trans (startServer_eq json)
  rw [← servedRouter_entries, ← Except.ok.inj hsame]
  exact server.iterates

end Backend

end JustQueueIt
