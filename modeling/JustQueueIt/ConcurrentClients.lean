/-
What concurrent clients see.  The order that explains a run puts their requests
one after the other, so ids, reads and deletes are as on one store: real time
puts a request before another, and nothing else has to be known of the run.
-/
import JustQueueIt.NetworkOrder
import JustQueueIt.PostedTasks

namespace JustQueueIt

namespace Backend

open Rest Linearization

variable {json : Json} {prepare : PreparePayload} {Client : Type}

/-- A request that was sent and whose response was delivered. -/
structure Answered (history : List (TaskEvent Client)) (id : Client × Nat)
    (req : HttpRequest) (response : HttpResponse) : Prop where
  sent : .invoke id req ∈ history
  delivered : .respond id (.ok response) ∈ history

/-- The tasks that a client reads from a response. -/
def shownIn (json : Json) (req : HttpRequest) (response : HttpResponse) :
    List Task :=
  shown json req response.result response.body

/-- The id was issued when the request took effect. -/
def IssuedAt (json : Json) (prepare : PreparePayload)
    (order : List ((Client × Nat) × HttpRequest))
    (entry : (Client × Nat) × HttpRequest) (k : Nat) : Prop :=
  ∃ before after, order = before ++ entry :: after ∧
    k < ((taskStore json prepare).stateAfter before).next

/-- One sequential order of the requests that tells each client what it
sees. -/
structure Sequential (json : Json) (prepare : PreparePayload)
    (history : List (TaskEvent Client))
    (order : List ((Client × Nat) × HttpRequest)) : Prop where
  linearizes : (taskStore json prepare).Linearizes history order
  /-- No two posts are answered with one id. -/
  distinct : ∀ first reqFirst responseFirst second reqSecond responseSecond,
    Answered history first reqFirst responseFirst →
    Answered history second reqSecond responseSecond →
    reqFirst.verb = .post → reqSecond.verb = .post → first ≠ second →
    ∀ taskFirst ∈ shownIn json reqFirst responseFirst,
      ∀ taskSecond ∈ shownIn json reqSecond responseSecond,
        taskFirst.id ≠ taskSecond.id
  /-- A task posted before a `GET` is in its answer unless a delete of its id
  was sent by then. -/
  kept : ∀ post reqPost responsePost get reqGet responseGet,
    Answered history post reqPost responsePost → reqPost.verb = .post →
    Answered history get reqGet responseGet → InJson reqGet .get →
    Precedes history (.respond post (.ok responsePost)) (.invoke get reqGet) →
    ∀ task ∈ shownIn json reqPost responsePost,
      (pathOf reqGet.target = tasksPath ∨ IsTaskTarget task.id reqGet.target) →
      (∀ delete reqDelete, Precedes history (.invoke delete reqDelete)
        (.respond get (.ok responseGet)) → ¬ Deletes task.id reqDelete) →
      task ∈ shownIn json reqGet responseGet
  /-- A task that a client saw before a request was sent was issued before it
  took effect. -/
  issued : ∀ seen reqSeen responseSeen id req response,
    Answered history seen reqSeen responseSeen →
    Answered history id req response →
    Precedes history (.respond seen (.ok responseSeen)) (.invoke id req) →
    ∀ task ∈ shownIn json reqSeen responseSeen,
      IssuedAt json prepare order (id, req) task.id
  /-- A task whose delete was answered before a `GET` is not in its answer. -/
  deleted : ∀ delete reqDelete responseDelete get reqGet responseGet k,
    Answered history delete reqDelete responseDelete →
    InJson reqDelete .delete → IsTaskTarget k reqDelete.target →
    IssuedAt json prepare order (delete, reqDelete) k →
    Answered history get reqGet responseGet → reqGet.verb = .get →
    Precedes history (.respond delete (.ok responseDelete))
      (.invoke get reqGet) →
    ∀ task ∈ shownIn json reqGet responseGet, task.id ≠ k

/-- The store that an order leads to is the map after its storage calls. -/
theorem taskStore_stateAfter (order : List ((Client × Nat) × HttpRequest)) :
    (taskStore json prepare).stateAfter order =
      mapAfter .empty (callsOf json (order.map Prod.snd)) := by
  induction order using List.reverseRecOn with
  | nil => rfl
  | append_singleton order entry ih =>
      rw [Object.stateAfter_concat]
      change mapAfter ((taskStore json prepare).stateAfter order)
        (requestCalls json entry.2) = _
      rw [ih, List.map_append, callsOf, callsOf, List.flatMap_append]
      simp only [mapAfter, List.foldl_append, List.map_singleton,
        List.flatMap_singleton]

theorem taskStore_next (order : List ((Client × Nat) × HttpRequest)) :
    ((taskStore json prepare).stateAfter order).next =
      (creations (callsOf json (order.map Prod.snd))).length := by
  rw [taskStore_stateAfter, mapAfter_next, CounterMap.empty_next, Nat.zero_add]

/-- Ids that were issued stay issued. -/
theorem taskStore_next_le (json : Json) (prepare : PreparePayload)
    (order more : List ((Client × Nat) × HttpRequest)) :
    ((taskStore json prepare).stateAfter order).next ≤
      ((taskStore json prepare).stateAfter (order ++ more)).next := by
  rw [taskStore_next, taskStore_next, callsOf, callsOf, List.map_append,
    List.flatMap_append, creations_append, List.length_append]
  exact Nat.le_add_right ..

variable {history : List (TaskEvent Client)}
  {order before after : List ((Client × Nat) × HttpRequest)}

/-- Where the order has a request, its client reads what the store holds. -/
theorem Answered.shownIn_eq {id : Client × Nat} {req : HttpRequest}
    {response : HttpResponse} (hanswered : Answered history id req response)
    (hlawful : json.Lawful)
    (hlin : (taskStore json prepare).Linearizes history order)
    (horder : order = before ++ (id, req) :: after) :
    shownIn json req response =
      shownOn json ((taskStore json prepare).stateAfter before) req := by
  have hreply := hlin.returns_at hanswered.delivered horder
  change replyOf prepare req (specAnswer json
    ((taskStore json prepare).stateAfter before) req) = .ok response at hreply
  rw [replyOf] at hreply
  cases hcreate : createResponse prepare (specAnswer json
      ((taskStore json prepare).stateAfter before) req) with
  | error e =>
      rw [hcreate] at hreply
      cases hreply
  | ok created =>
      rw [hcreate] at hreply
      obtain rfl := Except.ok.inj hreply
      rw [← shown_specAnswer hlawful, (createResponse_eq_ok.mp hcreate).2]
      rfl

/-- The ids that a client was shown are issued for all that comes later. -/
theorem Answered.id_lt_next {id : Client × Nat} {req : HttpRequest}
    {response : HttpResponse} (hanswered : Answered history id req response)
    (hlawful : json.Lawful)
    (hlin : (taskStore json prepare).Linearizes history order)
    (horder : order = before ++ after) (hmem : (id, req) ∈ before)
    {task : Task} (htask : task ∈ shownIn json req response) :
    task.id < ((taskStore json prepare).stateAfter before).next := by
  obtain ⟨earlier, between, rfl⟩ := List.append_of_mem hmem
  rw [hanswered.shownIn_eq hlawful hlin
    (horder.trans (List.append_assoc earlier _ after))] at htask
  have hlt := lt_next_of_mem_shownOn htask
  have hle := taskStore_next_le json prepare (earlier ++ [(id, req)]) between
  rw [Object.stateAfter_concat, List.append_assoc] at hle
  exact Nat.lt_of_lt_of_le hlt hle

/-- A post that takes effect later gets a larger id. -/
theorem Answered.id_lt {first second : Client × Nat}
    {reqFirst reqSecond : HttpRequest}
    {responseFirst responseSecond : HttpResponse}
    (hfirst : Answered history first reqFirst responseFirst)
    (hsecond : Answered history second reqSecond responseSecond)
    (hlawful : json.Lawful)
    (hlin : (taskStore json prepare).Linearizes history order)
    (hpost : reqSecond.verb = .post)
    (hprecedes : Precedes order (first, reqFirst) (second, reqSecond))
    {taskFirst taskSecond : Task}
    (htaskFirst : taskFirst ∈ shownIn json reqFirst responseFirst)
    (htaskSecond : taskSecond ∈ shownIn json reqSecond responseSecond) :
    taskFirst.id < taskSecond.id := by
  obtain ⟨before, after, horder, hmem⟩ := hprecedes
  have hlt := hfirst.id_lt_next hlawful hlin horder hmem htaskFirst
  rw [hsecond.shownIn_eq hlawful hlin horder] at htaskSecond
  rwa [(creates_of_mem_shownOn hpost htaskSecond).2]

/-- An alive task is shown by the `GET` requests for it. -/
theorem mem_shownOn_of_get? {map : TaskMap} {task : Task}
    (hget : map.get? task.id = some task.payload)
    (hroom : map.next ≤ sizeLimit) {get : HttpRequest}
    (hjson : InJson get .get)
    (htarget : pathOf get.target = tasksPath ∨
      IsTaskTarget task.id get.target) :
    task ∈ shownOn json map get := by
  rcases htarget with hpath | htarget
  · rw [shownOn, hjson.httpCall_getTasks hpath]
    exact mem_tasksOf.mpr hget
  · have hk := Nat.lt_of_lt_of_le (CounterMap.lt_next hget) hroom
    rw [shownOn, hjson.httpCall_getTask htarget hk]
    simp [hget]

/-- A post that took effect before a `GET` is read by it if no delete comes in
between. -/
theorem Answered.kept {post get : Client × Nat}
    {reqPost reqGet : HttpRequest} {responsePost responseGet : HttpResponse}
    (hposted : Answered history post reqPost responsePost)
    (hgot : Answered history get reqGet responseGet)
    (hlawful : json.Lawful)
    (hlin : (taskStore json prepare).Linearizes history order)
    (hroom : ((taskStore json prepare).stateAfter order).next ≤ sizeLimit)
    (hpost : reqPost.verb = .post) (hjson : InJson reqGet .get)
    (horder : order = before ++ (get, reqGet) :: after)
    (hmem : (post, reqPost) ∈ before)
    {task : Task} (htask : task ∈ shownIn json reqPost responsePost)
    (htarget : pathOf reqGet.target = tasksPath ∨
      IsTaskTarget task.id reqGet.target)
    (hkept : ∀ entry ∈ before, ¬ Deletes task.id entry.2) :
    task ∈ shownIn json reqGet responseGet := by
  rw [hgot.shownIn_eq hlawful hlin horder]
  obtain ⟨earlier, between, rfl⟩ := List.append_of_mem hmem
  rw [hposted.shownIn_eq hlawful hlin
    (horder.trans (List.append_assoc earlier _ _))] at htask
  obtain ⟨hcreates, hid⟩ := creates_of_mem_shownOn hpost htask
  rw [taskStore_next] at hid
  have hbetween : ∀ req ∈ between.map Prod.snd, ¬ Deletes
      (creations (callsOf json (earlier.map Prod.snd))).length req := by
    intro req hreq
    obtain ⟨entry, hentry, rfl⟩ := List.mem_map.mp hreq
    rw [← hid]
    exact hkept entry (List.mem_append_right _ (.tail _ hentry))
  have halive := alive_of_creates hcreates _ hbetween
  refine mem_shownOn_of_get? ?_ ?_ hjson htarget
  · rw [taskStore_stateAfter, mapAfter_get?_iff, hid, List.map_append,
      List.map_cons, callsOf, List.flatMap_append]
    exact halive
  · refine Nat.le_trans ?_ hroom
    rw [horder]
    exact taskStore_next_le ..

/-- What a delete removed is not read after it. -/
theorem Answered.deleted {delete get : Client × Nat}
    {reqDelete reqGet : HttpRequest} {responseGet : HttpResponse}
    (hgot : Answered history get reqGet responseGet)
    (hlawful : json.Lawful)
    (hlin : (taskStore json prepare).Linearizes history order)
    (hroom : ((taskStore json prepare).stateAfter order).next ≤ sizeLimit)
    (hjson : InJson reqDelete .delete) {k : Nat}
    (htarget : IsTaskTarget k reqDelete.target)
    (hissued : IssuedAt json prepare order (delete, reqDelete) k)
    (hget : reqGet.verb = .get)
    (horder : order = before ++ (get, reqGet) :: after)
    (hmem : (delete, reqDelete) ∈ before)
    {task : Task} (htask : task ∈ shownIn json reqGet responseGet) :
    task.id ≠ k := by
  rintro rfl
  obtain ⟨earlier, between, rfl⟩ := List.append_of_mem hmem
  have hsplit : order = earlier ++ (delete, reqDelete) ::
      (between ++ (get, reqGet) :: after) :=
    horder.trans (List.append_assoc earlier _ _)
  have hk : task.id < ((taskStore json prepare).stateAfter earlier).next := by
    obtain ⟨other, rest, hother, hlt⟩ := hissued
    have hnodup := List.Nodup.of_map _ hlin.nodup
    rw [hsplit] at hnodup
    rwa [before_unique hnodup (hsplit.symm.trans hother)]
  have hsmall : task.id < sizeLimit := by
    have hle := taskStore_next_le json prepare earlier
      ((delete, reqDelete) :: (between ++ (get, reqGet) :: after))
    rw [← hsplit] at hle
    omega
  rw [hgot.shownIn_eq hlawful hlin horder] at htask
  have halive := get?_of_mem_shownOn hget htask
  rw [taskStore_stateAfter, mapAfter_get?_iff, List.map_append, List.map_cons,
    callsOf, List.flatMap_append, List.flatMap_cons,
    hjson.requestCalls_deleteTask htarget hsmall] at halive
  rw [taskStore_next] at hk
  exact not_alive_of_deleted hk _ halive

/-- A linearization tells the clients all they see. -/
theorem sequential_of_linearizes (hlawful : json.Lawful)
    (hlin : (taskStore json prepare).Linearizes history order)
    (hroom : ((taskStore json prepare).stateAfter order).next ≤ sizeLimit) :
    Sequential json prepare history order where
  linearizes := hlin
  distinct first reqFirst responseFirst second reqSecond responseSecond hfirst
      hsecond hpostFirst hpostSecond hne taskFirst htaskFirst taskSecond
      htaskSecond := by
    rcases precedes_or_precedes (hlin.mem_order hfirst.sent hfirst.delivered)
      (hlin.mem_order hsecond.sent hsecond.delivered)
      (fun heq => hne (congrArg Prod.fst heq)) with hbefore | hafter
    · exact Nat.ne_of_lt (hfirst.id_lt hsecond hlawful hlin hpostSecond hbefore
        htaskFirst htaskSecond)
    · exact Nat.ne_of_gt (hsecond.id_lt hfirst hlawful hlin hpostFirst hafter
        htaskSecond htaskFirst)
  kept post reqPost responsePost get reqGet responseGet hposted hpost hgot hjson
      hprecedes task htask htarget hkept := by
    obtain ⟨before, after, horder⟩ :=
      List.append_of_mem (hlin.mem_order hgot.sent hgot.delivered)
    refine hposted.kept hgot hlawful hlin hroom hpost hjson horder
      (hlin.mem_before hposted.sent hprecedes horder) htask htarget ?_
    rintro ⟨delete, reqDelete⟩ hdelete
    exact hkept delete reqDelete
      (hlin.invoke_precedes horder hdelete hgot.delivered)
  issued seen reqSeen responseSeen id req response hseen hanswered hprecedes task
      htask := by
    obtain ⟨before, after, horder⟩ :=
      List.append_of_mem (hlin.mem_order hanswered.sent hanswered.delivered)
    exact ⟨before, after, horder, hseen.id_lt_next hlawful hlin horder
      (hlin.mem_before hseen.sent hprecedes horder) htask⟩
  deleted delete reqDelete responseDelete get reqGet responseGet k hdeleted hjson
      htarget hissued hgot hget hprecedes task htask := by
    obtain ⟨before, after, horder⟩ :=
      List.append_of_mem (hlin.mem_order hgot.sent hgot.delivered)
    exact hgot.deleted hlawful hlin hroom hjson htarget hissued hget horder
      (hlin.mem_before hdeleted.sent hprecedes horder) htask

/-- Concurrent clients see one sequential task store, in every run that leaves
ids. -/
theorem concurrent_clients_see_one_store [DecidableEq Client]
    (hlawful : json.Lawful) (server : Server json)
    {labels : List (Label Client)} {network : Network Client}
    (hrun : Run server labels network)
    (hroom : (creations (storageCalls labels)).length < sizeLimit) :
    ∃ order, Represents network.storage
        ((taskStore json server.prepare).stateAfter order) ∧
      Sequential json server.prepare (historyOf labels) order := by
  obtain ⟨order, hexplained⟩ := hrun.explained hroom
  refine ⟨order, hexplained.represents,
    sequential_of_linearizes hlawful hexplained.linearizes ?_⟩
  rw [hexplained.next]
  exact Nat.le_of_lt hroom

/-- The response to a post of the first task, and to a `GET` of it. -/
def firstTaskResponse : HttpResponse where
  result := 200
  server := "JustQueueIt".toList
  contentType := "application/json".toList
  contentLength := (writeTask ⟨0, ⟨['a'], ['b']⟩⟩).length
  body := writeTask ⟨0, ⟨['a'], ['b']⟩⟩
  keepAlive := true

/-- One client posts, another one gets what was posted. -/
def postThenGet : List (Label Bool) :=
  [.send (false, 0) postWithQuery, .read false,
    .call false (.createTask ⟨['a'], ['b']⟩), .write false,
    .deliver (false, 0) firstTaskResponse,
    .send (true, 0) getWithQuery, .read true, .call true (.getTask 0),
    .write true, .deliver (true, 0) firstTaskResponse]

/-- The second client reads the task of the first. -/
theorem postThenGet_shows :
    ⟨0, ⟨['a'], ['b']⟩⟩ ∈ shownIn taskJson getWithQuery firstTaskResponse := by
  have hposts : Posts taskJson ⟨['a'], ['b']⟩ postWithQuery :=
    ⟨⟨rfl, rfl, rfl⟩, by decide, by decide⟩
  have hjson : InJson getWithQuery .get := ⟨rfl, rfl, rfl⟩
  have htarget : IsTaskTarget 0 getWithQuery.target :=
    ⟨"?id=7".toList, Or.inr rfl, rfl⟩
  have hget : httpCall taskJson getWithQuery =
      .ok (.getTask 0, .applicationJson) :=
    hjson.httpCall_getTask htarget (by decide)
  have hposted : Run (Server.start taskJson) (postThenGet.take 5) _ :=
    Run.init.serve rfl rfl (hposts.httpCall_eq taskJson_lawful) rfl
  have hrun : Run (Server.start taskJson) postThenGet _ :=
    hposted.serve rfl rfl hget rfl
  obtain ⟨order, -, hsequential⟩ := concurrent_clients_see_one_store
    taskJson_lawful (Server.start taskJson) hrun (by decide)
  have hhistory : historyOf postThenGet =
      [.invoke (false, 0) postWithQuery,
        .respond (false, 0) (.ok firstTaskResponse),
        .invoke (true, 0) getWithQuery,
        .respond (true, 0) (.ok firstTaskResponse)] := rfl
  rw [hhistory] at hsequential
  have hshown : shownIn taskJson postWithQuery firstTaskResponse =
      [⟨0, ⟨['a'], ['b']⟩⟩] := by decide
  refine hsequential.kept (false, 0) postWithQuery firstTaskResponse (true, 0)
    getWithQuery firstTaskResponse ⟨by simp, by simp⟩ rfl ⟨by simp, by simp⟩
    hjson ⟨[_, _], [_], rfl, by simp⟩ _ (by simp [hshown]) (Or.inr htarget) ?_
  intro delete reqDelete hprecedes hdeletes
  have hsent := hprecedes.mem_left
  simp only [List.mem_cons, Event.invoke.injEq, reduceCtorEq, false_or, or_false,
    List.not_mem_nil] at hsent
  rcases hsent with ⟨-, rfl⟩ | ⟨-, rfl⟩
  · cases hdeletes.1
  · cases hdeletes.1

end Backend

end JustQueueIt
