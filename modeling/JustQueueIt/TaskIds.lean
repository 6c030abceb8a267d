/-
The task ids in URLs.  `std::stoull` takes more texts than decimal numerals
for numbers, and what it throws is answered with status 500: an id is read
exactly only when its segment is a numeral of 64 bits.
-/
import JustQueueIt.ServerPlan
import JustQueueIt.TaskJson

namespace JustQueueIt

namespace Backend

open Rest

variable {json : Json}

/-- Only the task whose numeral the segment is gets read or deleted, and a
segment that is no numeral of 64 bits is refused with a client error. -/
def ReadsExactly (server : Server json) (req : Request) (segment : Str)
    (storage : InMemoryStorage) : Prop :=
  let program := (route server.order req).run
  (∀ k, .getTask k ∈ program.calls storage ∨
      .deleteTask k ∈ program.calls storage →
    Stoull.IsNumeral segment ∧ Stoull.numeralValue segment = k) ∧
  (¬ (Stoull.IsNumeral segment ∧ Stoull.numeralValue segment < sizeLimit) →
    (∃ response, (program.run storage).1 = .ok response ∧
      response.statusCode.IsClientError) ∧
    (program.run storage).2 = storage)

/-- A request for a task is answered by what `stoull` makes of its id. -/
theorem plan_task (json : Json) {req : Request} {segment : Str}
    (hend : endpointOf (pathOf req.path) = .task segment)
    (hmethod : req.method = .get ∨ req.method = .delete) :
    (∃ e, stoull segment = .error e ∧
      plan json req = .ret ⟨.internalServerError, e.what, .textPlain⟩) ∨
    ∃ id op, stoull segment = .ok id ∧ (op = .getTask id ∨ op = .deleteTask id) ∧
      plan json req = .call op fun result =>
        .ret (encodeResult json req.acceptContentType op result) := by
  cases hread : stoull segment with
  | error e =>
      refine Or.inl ⟨e, rfl, ?_⟩
      rcases hmethod with hmethod | hmethod <;>
        simp only [plan, callOf, hend, hmethod, hread]
  | ok id =>
      rcases hmethod with hmethod | hmethod
      · refine Or.inr ⟨id, .getTask id, rfl, Or.inl rfl, ?_⟩
        simp only [plan, callOf, hend, hmethod, hread]
      · refine Or.inr ⟨id, .deleteTask id, rfl, Or.inr rfl, ?_⟩
        simp only [plan, callOf, hend, hmethod, hread]

theorem stoull_numeral_segment {segment : Str}
    (hnum : Stoull.IsNumeral segment)
    (hvalue : Stoull.numeralValue segment < sizeLimit) :
    stoull segment = .ok (Stoull.numeralValue segment) := by
  rw [stoull_eq_ok, Stoull.stoull_of_isNumeral hnum, if_neg (by
    simpa [sizeLimit] using hvalue)]

/-- An id is read exactly when its segment is a numeral of 64 bits. -/
theorem readsExactly_iff (server : Server json) (storage : InMemoryStorage)
    {req : Request} {segment : Str} (hne : segment ≠ [])
    (hslash : '/' ∉ segment) (hquery : '?' ∉ segment)
    (hpath : req.path = taskPrefix ++ segment)
    (hmethod : req.method = .get ∨ req.method = .delete) :
    ReadsExactly server req segment storage ↔
      Stoull.IsNumeral segment ∧ Stoull.numeralValue segment < sizeLimit := by
  have hurl : '?' ∉ taskPrefix ++ segment := by
    rw [List.mem_append, not_or]
    exact ⟨by decide, hquery⟩
  have hend : endpointOf (pathOf req.path) = .task segment := by
    rw [hpath, pathOf_of_notMem hurl, endpointOf_taskPrefix_append hne hslash]
  rw [ReadsExactly, server.route_eq]
  rcases plan_task json hend hmethod with
    ⟨e, hread, hplan⟩ | ⟨id, op, hread, hop, hplan⟩
  · have hbad : ¬ (Stoull.IsNumeral segment ∧
        Stoull.numeralValue segment < sizeLimit) := by
      rintro ⟨hnum, hvalue⟩
      rw [stoull_numeral_segment hnum hvalue] at hread
      cases hread
    refine iff_of_false ?_ hbad
    rintro ⟨-, hrefused⟩
    rw [hplan] at hrefused
    obtain ⟨⟨response, hresponse, hclient⟩, -⟩ := hrefused hbad
    obtain rfl := Except.ok.inj hresponse
    exact absurd hclient (by decide : ¬ Status.internalServerError.IsClientError)
  · have hcall : StorageCall.getTask id ∈ [op] ∨
        StorageCall.deleteTask id ∈ [op] := by
      rcases hop with rfl | rfl
      · exact Or.inl List.mem_cons_self
      · exact Or.inr List.mem_cons_self
    have hcalls : (Except.ok (ε := StdException) <$> plan json req).calls
        storage = [op] := by
      rw [StorageProg.calls_map, hplan]
      rfl
    rw [hcalls]
    constructor
    · rintro ⟨hexact, -⟩
      obtain ⟨hnum, hvalue⟩ := hexact id hcall
      exact ⟨hnum, hvalue ▸ Stoull.stoull_lt (stoull_eq_ok.mp hread)⟩
    · rintro ⟨hnum, hvalue⟩
      rw [stoull_numeral_segment hnum hvalue] at hread
      obtain rfl := Except.ok.inj hread
      refine ⟨fun k hk => ⟨hnum, ?_⟩, fun hbad => absurd ⟨hnum, hvalue⟩ hbad⟩
      rcases hop with rfl | rfl <;> simp_all

/-- `DELETE` of a path. -/
def deletePath (path : Str) : Request where
  method := .delete
  path := path
  contentType := .applicationJson
  acceptContentType := .applicationJson

/-- The numeral of the largest id is read exactly. -/
theorem readsExactly_largest :
    ReadsExactly (Server.start taskJson)
      (deletePath "/tasks/18446744073709551615".toList)
      "18446744073709551615".toList .empty :=
  (readsExactly_iff _ _ (by decide) (by decide) (by decide) rfl
    (Or.inr rfl)).mpr (by decide)

/-- `DELETE /tasks/0abc` deletes the task with id 0. -/
theorem not_readsExactly_trailing :
    ¬ ReadsExactly (Server.start taskJson) (deletePath "/tasks/0abc".toList)
      "0abc".toList (InMemoryStorage.empty.createTask ⟨['a'], ['b']⟩).2 := by
  have hcall : callOf taskJson (deletePath "/tasks/0abc".toList) =
      .ok (.deleteTask 0) := by decide
  rintro ⟨hexact, -⟩
  rw [Server.route_eq, StorageProg.calls_map, plan, hcall] at hexact
  exact absurd (hexact 0 (Or.inr List.mem_cons_self)).1 (by decide)

end Backend

end JustQueueIt
