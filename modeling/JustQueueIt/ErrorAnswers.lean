/-
Error answers and the storage.  `AddRoute` decodes the body before it calls a
handler, but encodes the answer after the handler has changed the storage: a
request that wants its answer as plain text is refused too late.
-/
import JustQueueIt.ServerPlan
import JustQueueIt.TaskJson

namespace JustQueueIt

namespace Backend

open Rest

/-- An error answer of `PrepareResponse` leaves the storage as it was. -/
def ErrorAtomic {json : Json} (server : Server json) (req : HttpRequest)
    (storage : InMemoryStorage) : Prop :=
  ∀ response, (server.prepareResponse req storage).1 = .ok response →
    response.statusCode.IsError →
      (server.prepareResponse req storage).2 = storage

/-- The request asks for a plain text answer to a call that changes the
storage: a `POST /tasks` with a body that decodes, or a `DELETE` of a task that
is there. -/
def ChangesForText (json : Json) (req : HttpRequest)
    (storage : InMemoryStorage) : Prop :=
  parseContentType req.accept = some .textPlain ∧
    ∃ contentType, parseContentType req.contentType = some contentType ∧
      ((req.verb = .post ∧ endpointOf (pathOf req.target) = .tasks ∧
          ∃ payload,
            deSerialize json.payload req.body contentType = .ok payload) ∨
        (req.verb = .delete ∧ ∃ segment id,
          endpointOf (pathOf req.target) = .task segment ∧
            stoull segment = .ok id ∧ storage.getTask id ≠ none))

theorem changesForText_iff {json : Json} {req : HttpRequest}
    {storage : InMemoryStorage} :
    ChangesForText json req storage ↔
      ∃ op, httpCall json req = .ok (op, .textPlain) ∧ storage.Changes op := by
  constructor
  · rintro ⟨haccept, contentType, hcontent, hpost | hdelete⟩
    · obtain ⟨hverb, hend, payload, hpayload⟩ := hpost
      exact ⟨.createTask payload, httpCall_eq_ok.mpr ⟨.post, contentType,
        hverb, hcontent, haccept, rfl, hend, hpayload⟩, trivial⟩
    · obtain ⟨hverb, segment, id, hend, hid, hfound⟩ := hdelete
      exact ⟨.deleteTask id, httpCall_eq_ok.mpr ⟨.delete, contentType,
        hverb, hcontent, haccept, rfl, segment, hend, hid⟩, hfound⟩
  · rintro ⟨op, hhttp, hchanges⟩
    obtain ⟨method, contentType, hverb, hcontent, haccept, hasks⟩ :=
      httpCall_eq_ok.mp hhttp
    refine ⟨haccept, contentType, hcontent, ?_⟩
    cases op with
    | createTask payload =>
        obtain ⟨rfl, hend, hpayload⟩ := hasks
        exact Or.inl ⟨hverb, hend, payload, hpayload⟩
    | deleteTask id =>
        obtain ⟨rfl, segment, hend, hid⟩ := hasks
        exact Or.inr ⟨hverb, segment, id, hend, hid, hchanges⟩
    | getTask id => exact hchanges.elim
    | getTasks => exact hchanges.elim

theorem not_isError_resultStatus (op : StorageCall) (result : op.Result) :
    ¬ (resultStatus op result).IsError := by
  unfold resultStatus
  split <;> decide

/-- On every storage, an error answer changes nothing exactly when the request
does not ask for a plain text answer to a call that does. -/
theorem errorAtomic_iff {json : Json} (server : Server json)
    (req : HttpRequest) (storage : InMemoryStorage) :
    ErrorAtomic server req storage ↔ ¬ ChangesForText json req storage := by
  rw [changesForText_iff, ErrorAtomic, server.prepareResponse_eq]
  rcases httpCall json req with response | ⟨op, accept⟩
  · simp
  · cases accept with
    | applicationJson =>
        refine iff_of_true (fun response hresponse herror => ?_) (by simp)
        obtain rfl := Except.ok.inj hresponse
        rw [encodeResult_statusCode] at herror
        exact absurd herror (not_isError_resultStatus _ _)
    | textPlain =>
        have herror : Status.badRequest.IsError := by decide
        simp only [encodeResult_textPlain, Except.ok.injEq, forall_eq', herror,
          true_imp_iff, storage.exec_eq_self_iff, Prod.mk.injEq, and_true,
          exists_eq_left']

/-- A task posted with `Accept: text/plain`. -/
def postForText : HttpRequest where
  verb := .post
  target := "/tasks".toList
  contentType := "application/json".toList
  accept := "text/plain".toList
  body := "\x7b\"name\":\"a\",\"description\":\"b\"\x7d".toList
  keepAlive := true

/-- The post is answered with 400, and the task is there. -/
theorem postForText_not_errorAtomic :
    ¬ ErrorAtomic (Server.start taskJson) postForText .empty := by
  have hhttp : httpCall taskJson postForText =
      .ok (.createTask ⟨['a'], ['b']⟩, .textPlain) := by decide
  intro hatomic
  rw [ErrorAtomic, Server.prepareResponse_eq, hhttp] at hatomic
  have hsame := hatomic _ rfl (by decide)
  exact InMemoryStorage.createTask_ne _ _ hsame

end Backend

end JustQueueIt
