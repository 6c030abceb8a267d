/-
Requests that are sent again.  A client that lost a connection does not know
whether its request was served; it may repeat everything but a `POST`, and a
`DELETE` as late as it likes once the id was issued.
-/
import JustQueueIt.PostedTasks

namespace JustQueueIt

namespace Backend

open Rest

variable {json : Json}

/-- A request that is served: for the first time, or once more. -/
structure Delivery where
  req : HttpRequest
  again : Bool
deriving Repr, DecidableEq

def sent (deliveries : List Delivery) : List HttpRequest :=
  deliveries.map (·.req)

/-- The requests without their repetitions. -/
def meant (deliveries : List Delivery) : List HttpRequest :=
  sent (deliveries.filter fun delivery => !delivery.again)

/-- The answers to requests that are served one after the other. -/
def Server.answers (server : Server json) :
    List HttpRequest → InMemoryStorage → List (Except StdException Response)
  | [], _ => []
  | req :: rest, storage =>
      let served := server.prepareResponse req storage
      served.1 :: server.answers rest served.2

/-- Of all deliveries, the answers to those that are no repetitions. -/
def Server.firstAnswers (server : Server json) :
    List Delivery → InMemoryStorage → List (Except StdException Response)
  | [], _ => []
  | delivery :: rest, storage =>
      let served := server.prepareResponse delivery.req storage
      if delivery.again then server.firstAnswers rest served.2
      else served.1 :: server.firstAnswers rest served.2

/-- A request that may be repeated after what was served already: it is no
`POST`, it was served before, and if it is a `DELETE` its id was issued by
then. -/
structure Repeatable (json : Json) (calls : List StorageCall)
    (served : List HttpRequest) (req : HttpRequest) : Prop where
  verb : req.verb ≠ .post
  before : ∃ front back, served = front ++ req :: back ∧
    ∀ k, Deletes k req →
      k < (creations (calls ++ callsOf json front)).length

/-- Every repetition may be repeated where it stands. -/
def Repeats (json : Json) (calls : List StorageCall) :
    List HttpRequest → List Delivery → Prop
  | _, [] => True
  | served, delivery :: rest =>
      (delivery.again = true → Repeatable json calls served delivery.req) ∧
        Repeats json calls (served ++ [delivery.req]) rest

theorem creations_le_of_prefix {calls later : List StorageCall} :
    (creations calls).length ≤ (creations (calls ++ later)).length := by
  rw [creations_append, List.length_append]
  exact Nat.le_add_right _ _

/-- A repetition leaves the storage as it is. -/
theorem Repeatable.unchanged (server : Server json)
    {calls : List StorageCall} {served : List HttpRequest} {req : HttpRequest}
    (hrepeatable : Repeatable json calls served req)
    (hroom : (creations (calls ++ callsOf json served)).length < sizeLimit) :
    (server.prepareResponse req
        (InMemoryStorage.empty.after (calls ++ callsOf json served))).2 =
      InMemoryStorage.empty.after (calls ++ callsOf json served) := by
  rw [server.prepareResponse_snd]
  have hunchanged : ∀ op ∈ requestCalls json req,
      ((InMemoryStorage.empty.after
        (calls ++ callsOf json served)).exec op).2 =
          InMemoryStorage.empty.after (calls ++ callsOf json served) := by
    intro op hop
    cases op with
    | getTask id => rfl
    | getTasks => rfl
    | createTask payload =>
        obtain ⟨accept, hhttp⟩ := mem_requestCalls.mp hop
        obtain ⟨method, _, hverb, -, -, hasks⟩ := httpCall_eq_ok.mp hhttp
        rw [hasks.1] at hverb
        exact absurd hverb hrepeatable.verb
    | deleteTask k =>
        obtain ⟨front, back, rfl, hissued⟩ := hrepeatable.before
        have hcall : requestCalls json req = [.deleteTask k] := by
          obtain ⟨accept, hhttp⟩ := mem_requestCalls.mp hop
          rw [requestCalls, hhttp]
        have hsplit : calls ++ callsOf json (front ++ req :: back) =
            (calls ++ callsOf json front) ++
              .deleteTask k :: callsOf json back := by
          rw [callsOf, List.flatMap_append, List.flatMap_cons, hcall,
            ← List.append_assoc]
          rfl
        rw [hsplit] at hroom ⊢
        apply (InMemoryStorage.deleteTask_eq_self_iff _ k).mpr
        exact (absent_after_delete (hissued k (.of_mem_requestCalls hop))
          hroom).1
  cases hcalls : requestCalls json req with
  | nil => rfl
  | cons op rest =>
      have honly : rest = [] := by
        rw [requestCalls] at hcalls
        split at hcalls
        · cases hcalls
        · exact (List.cons.inj hcalls).2.symm
      rw [honly]
      exact hunchanged op (hcalls ▸ List.mem_cons_self)

/-- The answer to a `DELETE` does not depend on the storage. -/
theorem Server.prepareResponse_delete_fst (server : Server json)
    {req : HttpRequest} (hverb : req.verb = .delete)
    (storage other : InMemoryStorage) :
    (server.prepareResponse req storage).1 =
      (server.prepareResponse req other).1 := by
  rw [server.prepareResponse_eq, server.prepareResponse_eq]
  cases hhttp : httpCall json req with
  | error response => rfl
  | ok call =>
      obtain ⟨op, accept⟩ := call
      obtain ⟨method, _, hmethod, -, -, hasks⟩ := httpCall_eq_ok.mp hhttp
      rw [hverb] at hmethod
      cases op with
      | deleteTask k => rfl
      | createTask payload => rw [hasks.1] at hmethod; cases hmethod
      | getTask id => rw [hasks.1] at hmethod; cases hmethod
      | getTasks => rw [hasks.1] at hmethod; cases hmethod

/-- From every point on, the repetitions change neither the storage nor the
answers to the other requests. -/
theorem Repeats.unnoticed (server : Server json) {calls : List StorageCall}
    {deliveries : List Delivery} :
    ∀ {served : List HttpRequest}, Repeats json calls served deliveries →
      (creations (calls ++ callsOf json
        (served ++ sent deliveries))).length < sizeLimit →
      let storage := InMemoryStorage.empty.after
        (calls ++ callsOf json served)
      server.storageAfter (sent deliveries) storage =
          server.storageAfter (meant deliveries) storage ∧
        server.firstAnswers deliveries storage =
          server.answers (meant deliveries) storage := by
  induction deliveries with
  | nil => exact fun _ _ => ⟨rfl, rfl⟩
  | cons delivery rest ih =>
      intro served hrepeats hroom
      obtain ⟨hfirst, hrest⟩ := hrepeats
      have hnext : (server.prepareResponse delivery.req
          (InMemoryStorage.empty.after (calls ++ callsOf json served))).2 =
          InMemoryStorage.empty.after
            (calls ++ callsOf json (served ++ [delivery.req])) := by
        rw [server.prepareResponse_snd, ← InMemoryStorage.after_append, callsOf,
          callsOf, List.flatMap_append, List.flatMap_singleton,
          List.append_assoc]
      have hsent : served ++ sent (delivery :: rest) =
          served ++ [delivery.req] ++ sent rest := by
        rw [List.append_assoc]
        rfl
      obtain ⟨hstorage, hanswers⟩ := ih hrest (hsent ▸ hroom)
      cases hagain : delivery.again with
      | false =>
          have hmeant : meant (delivery :: rest) =
              delivery.req :: meant rest := by
            rw [meant, List.filter_cons_of_pos (by rw [hagain]; rfl)]
            rfl
          rw [hmeant]
          refine ⟨?_, ?_⟩
          · change server.storageAfter (sent rest) (server.prepareResponse
              delivery.req _).2 = server.storageAfter (meant rest)
                (server.prepareResponse delivery.req _).2
            rw [hnext, hstorage]
          · rw [Server.firstAnswers, Server.answers]
            simp only [hagain, Bool.false_eq_true, ↓reduceIte, hnext, hanswers]
      | true =>
          have hmeant : meant (delivery :: rest) = meant rest := by
            rw [meant, List.filter_cons_of_neg (by rw [hagain]; decide)]
            rfl
          have hserved : (creations (calls ++ callsOf json served)).length <
              sizeLimit := by
            rw [callsOf, List.flatMap_append, ← List.append_assoc] at hroom
            exact Nat.lt_of_le_of_lt creations_le_of_prefix hroom
          have hsame := hnext.symm.trans
            ((hfirst hagain).unchanged server hserved)
          rw [hmeant]
          refine ⟨?_, ?_⟩
          · change server.storageAfter (sent rest) (server.prepareResponse
              delivery.req _).2 = _
            rw [hnext, hstorage, hsame]
          · rw [hsame] at hanswers
            rw [Server.firstAnswers]
            simp only [hagain, ↓reduceIte, hnext, hsame]
            exact hanswers

/-- Repeating requests other than `POST` is not noticed: the storage and the
answers to the requests themselves are as if nothing had been repeated, and a
`DELETE` gets the same answer each time. -/
theorem repetitions_unnoticed (server : Server json)
    (calls : List StorageCall) {deliveries : List Delivery}
    (hrepeats : Repeats json calls [] deliveries)
    (hroom : (creations (calls ++ callsOf json (sent deliveries))).length <
      sizeLimit) :
    let storage := InMemoryStorage.empty.after calls
    server.storageAfter (sent deliveries) storage =
        server.storageAfter (meant deliveries) storage ∧
      server.firstAnswers deliveries storage =
        server.answers (meant deliveries) storage ∧
      ∀ req, req.verb = .delete → ∀ other later,
        (server.prepareResponse req other).1 =
          (server.prepareResponse req later).1 := by
  have hnone : calls ++ callsOf json [] = calls := List.append_nil calls
  have hunnoticed := hrepeats.unnoticed server hroom
  rw [hnone] at hunnoticed
  exact ⟨hunnoticed.1, hunnoticed.2, fun req hverb other later =>
    server.prepareResponse_delete_fst hverb other later⟩

/-- `DELETE /tasks/0` in JSON. -/
def deleteFirst : HttpRequest where
  verb := .delete
  target := "/tasks/0".toList
  contentType := "application/json".toList
  accept := "application/json".toList
  body := []
  keepAlive := true

theorem deletes_deleteFirst {k : Nat} (hdeletes : Deletes k deleteFirst) :
    k = 0 := by
  have hsame : deleteFirst = deleteById 0 := by decide
  exact eq_of_deletes_deleteById (by decide) (hsame ▸ hdeletes)

/-- The task is deleted once more after another one was posted. -/
def deletedTwice : List Delivery :=
  [⟨postWithQuery, false⟩, ⟨deleteFirst, false⟩, ⟨postWithQuery, false⟩,
    ⟨deleteFirst, true⟩]

theorem repetitions_unnoticed_deletedTwice :
    let server := Server.start taskJson
    let storage := InMemoryStorage.empty.after []
    server.storageAfter (sent deletedTwice) storage =
        server.storageAfter (meant deletedTwice) storage ∧
      server.firstAnswers deletedTwice storage =
        server.answers (meant deletedTwice) storage ∧
      ∀ req, req.verb = .delete → ∀ other later,
        (server.prepareResponse req other).1 =
          (server.prepareResponse req later).1 := by
  have hposts : Posts taskJson ⟨['a'], ['b']⟩ postWithQuery :=
    ⟨⟨rfl, rfl, rfl⟩, by decide, by decide⟩
  have hcalls := hposts.requestCalls_eq taskJson_lawful
  have hrepeatable : Repeatable taskJson []
      [postWithQuery, deleteFirst, postWithQuery] deleteFirst := by
    refine ⟨by decide, [postWithQuery], [postWithQuery], rfl, ?_⟩
    intro k hdeletes
    rw [deletes_deleteFirst hdeletes, callsOf, List.flatMap_singleton, hcalls]
    exact Nat.one_pos
  have hrepeats : Repeats taskJson [] [] deletedTwice := by
    refine ⟨by simp, by simp, by simp, fun _ => hrepeatable, trivial⟩
  exact repetitions_unnoticed (Server.start taskJson) [] hrepeats (by decide)

end Backend

end JustQueueIt
