/-
What an answer shows its client.  Every request has one answer on the abstract
map, and the tasks a client reads from it are those that the call of the
request returns there.
-/
import JustQueueIt.ServerPlan

namespace JustQueueIt

namespace Backend

open Rest

variable {json : Json}

/-- The answer to a request on the abstract map. -/
def specAnswer (json : Json) (map : TaskMap) (req : HttpRequest) : Response :=
  match httpCall json req with
  | .error response => response
  | .ok (op, accept) => encodeResult json accept op (resultOn map op)

/-- The server answers as the map that its storage represents. -/
theorem Represents.prepareResponse_fst (server : Server json)
    {storage : InMemoryStorage} {map : TaskMap} (hrep : Represents storage map)
    (req : HttpRequest) :
    (server.prepareResponse req storage).1 =
      .ok (specAnswer json map req) := by
  rw [server.prepareResponse_eq, specAnswer]
  rcases httpCall json req with response | ⟨op, accept⟩
  · rfl
  · dsimp only
    rw [hrep.exec_fst]

/-- The tasks a client reads from the answer to a request: the task it posted,
the tasks listed, or the task it asked for. -/
def shown (json : Json) (req : HttpRequest) (code : Nat) (body : Str) :
    List Task :=
  if code = 200 then
    match endpointOf (pathOf req.target), req.verb with
    | .tasks, .post =>
        match json.task.read body with
        | .ok task => [task]
        | .error _ => []
    | .tasks, .get =>
        match json.tasks.read body with
        | .ok tasks => tasks
        | .error _ => []
    | .task _, .get =>
        match json.optionalTask.read body with
        | .ok task => task.toList
        | .error _ => []
    | _, _ => []
  else []

/-- The tasks that a request is shown on the abstract map. -/
def shownOn (json : Json) (map : TaskMap) (req : HttpRequest) : List Task :=
  match httpCall json req with
  | .ok (.createTask payload, .applicationJson) => [⟨map.next, payload⟩]
  | .ok (.getTask id, .applicationJson) =>
      ((map.get? id).map (Task.mk id)).toList
  | .ok (.getTasks, .applicationJson) => tasksOf map
  | _ => []

theorem shown_of_ne {req : HttpRequest} {code : Nat} (hcode : code ≠ 200)
    (body : Str) : shown json req code body = [] := by
  rw [shown, if_neg hcode]

/-- A client reads from an answer what the map holds. -/
theorem shown_specAnswer (hlawful : json.Lawful) (map : TaskMap)
    (req : HttpRequest) :
    shown json req (specAnswer json map req).statusCode.code
        (specAnswer json map req).body = shownOn json map req := by
  unfold specAnswer shownOn
  rcases hhttp : httpCall json req with response | ⟨op, accept⟩
  · refine shown_of_ne ?_ _
    have herror := (isError_of_httpCall hhttp).1
    dsimp only
    omega
  · cases accept with
    | textPlain =>
        dsimp only
        rw [encodeResult_textPlain]
        cases op <;>
          exact shown_of_ne (by decide : Status.badRequest.code ≠ 200) _
    | applicationJson =>
        obtain ⟨method, contentType, hverb, -, -, hasks⟩ :=
          httpCall_eq_ok.mp hhttp
        cases op with
        | createTask payload =>
            obtain ⟨rfl, hend, -⟩ := hasks
            have hread := hlawful.task ⟨map.next, payload⟩
            simp only [shown, hend, hverb, Method.verb, encodeResult,
              encodeAnswer, serialize, resultOn, hread, Status.code, if_true]
        | getTask id =>
            obtain ⟨rfl, segment, hend, -⟩ := hasks
            cases hget : map.get? id with
            | none =>
                simp [shown, encodeResult, encodeAnswer, serialize, resultOn,
                  hget, Status.code]
            | some payload =>
                have hread := hlawful.optionalTask (some ⟨id, payload⟩)
                simp only [shown, hend, hverb, Method.verb, encodeResult,
                  encodeAnswer, serialize, resultOn, hget, Option.map_some,
                  Option.isSome_some, if_true, hread, Status.code]
        | deleteTask id =>
            obtain ⟨rfl, segment, hend, -⟩ := hasks
            simp only [shown, hend, hverb, Method.verb, encodeResult,
              encodeAnswer, serialize, Status.code, if_true]
        | getTasks =>
            obtain ⟨rfl, hend⟩ := hasks
            have hread := hlawful.tasks (tasksOf map)
            simp only [shown, hend, hverb, Method.verb, encodeResult,
              encodeAnswer, serialize, resultOn, hread, Status.code, if_true]

/-- A `GET` shows only tasks that the map holds. -/
theorem get?_of_mem_shownOn {map : TaskMap} {get : HttpRequest}
    (hverb : get.verb = .get) {task : Task}
    (hshown : task ∈ shownOn json map get) :
    map.get? task.id = some task.payload := by
  unfold shownOn at hshown
  split at hshown
  · next hhttp =>
      obtain ⟨method, _, hmethod, -, -, rfl, -⟩ := httpCall_eq_ok.mp hhttp
      rw [hverb] at hmethod
      cases hmethod
  · rw [Option.mem_toList, Option.map_eq_some_iff] at hshown
    obtain ⟨payload, hget, rfl⟩ := hshown
    exact hget
  · exact mem_tasksOf.mp hshown
  · cases hshown

/-- A `POST` shows the task it creates. -/
theorem creates_of_mem_shownOn {map : TaskMap} {post : HttpRequest}
    (hverb : post.verb = .post) {task : Task}
    (hshown : task ∈ shownOn json map post) :
    requestCalls json post = [.createTask task.payload] ∧
      task.id = map.next := by
  unfold shownOn at hshown
  split at hshown
  · next payload hhttp =>
      obtain rfl := List.mem_singleton.mp hshown
      rw [requestCalls, hhttp]
      exact ⟨rfl, rfl⟩
  · next hhttp =>
      obtain ⟨method, _, hmethod, -, -, rfl, -⟩ := httpCall_eq_ok.mp hhttp
      rw [hverb] at hmethod
      cases hmethod
  · next hhttp =>
      obtain ⟨method, _, hmethod, -, -, rfl, -⟩ := httpCall_eq_ok.mp hhttp
      rw [hverb] at hmethod
      cases hmethod
  · cases hshown

/-- The id of a task that is shown was issued. -/
theorem lt_next_of_mem_shownOn {map : TaskMap} {req : HttpRequest} {task : Task}
    (hshown : task ∈ shownOn json map req) :
    task.id < (mapAfter map (requestCalls json req)).next := by
  unfold shownOn at hshown
  rw [mapAfter_next]
  split at hshown
  · next payload hhttp =>
      obtain rfl := List.mem_singleton.mp hshown
      rw [requestCalls, hhttp]
      exact Nat.lt_succ_self _
  · rw [Option.mem_toList, Option.map_eq_some_iff] at hshown
    obtain ⟨payload, hget, rfl⟩ := hshown
    exact Nat.lt_add_right _ (CounterMap.lt_next hget)
  · exact Nat.lt_add_right _ (CounterMap.lt_next (mem_tasksOf.mp hshown))
  · cases hshown

end Backend

end JustQueueIt
