/-
The bytes of a kept-alive connection.  After the response to a `HEAD` request
a client expects no body, but `CreateResponse` never sees the method and the
session writes the body it was given.
-/
import JustQueueIt.HttpHead
import JustQueueIt.RegexTemplate

namespace JustQueueIt

namespace Rest

variable {σ : Type}

/-- The bytes of responses: the head and the body of each. -/
def HeadCodec.wire (codec : HeadCodec) (written : List HttpResponse) : Str :=
  written.flatMap fun response => codec.write response.head ++ response.body

/-- The length of the body that a client expects after a head. -/
def bodyLength (verb : Verb) (head : Head) : Nat :=
  if verb = .head ∨ head.result = 204 ∨ head.result = 304 then 0
  else head.contentLength

def Head.withBody (head : Head) (body : Str) : HttpResponse where
  result := head.result
  server := head.server
  contentType := head.contentType
  contentLength := head.contentLength
  body := body
  keepAlive := head.keepAlive

/-- A client that reads one response for each request it sent. -/
def HeadCodec.readResponses (codec : HeadCodec) :
    List Verb → Str → Option (List HttpResponse × Str)
  | [], text => some ([], text)
  | verb :: verbs, text => do
      let (head, text) ← codec.read text
      if text.length < bodyLength verb head then none
      else
        let (later, rest) ←
          codec.readResponses verbs (text.drop (bodyLength verb head))
        some (head.withBody (text.take (bodyLength verb head)) :: later, rest)

/-- `DoSession` with handlers that share a state. -/
def sessionOf (prepare : PreparePayload) (order : List (RouteEntry (StateM σ)))
    (reqs : List HttpRequest) (state : σ) :
    (List HttpResponse × SessionEnd) × σ :=
  (doSession prepare order reqs).run state

/-- `PrepareResponse` with handlers that share a state. -/
def answerOf (order : List (RouteEntry (StateM σ))) (req : HttpRequest)
    (state : σ) : Response × σ :=
  (answer order req).run state

/-- The client reads back the responses written, and nothing is left. -/
def ReadsBack (codec : HeadCodec) (prepare : PreparePayload)
    (order : List (RouteEntry (StateM σ))) (reqs : List HttpRequest)
    (state : σ) : Prop :=
  codec.readResponses (reqs.map (·.verb))
      (codec.wire (sessionOf prepare order reqs state).1.1) =
    some ((sessionOf prepare order reqs state).1.1, [])

/-- The request has supported content types, and either `Route` calls no
handler and answers without a text, or the handler it calls returns an empty
body or throws an exception without a text. -/
def AnsweredEmpty (order : List (RouteEntry (StateM σ))) (req : HttpRequest)
    (state : σ) : Prop :=
  ∃ request, parseRequest req = .ok request ∧
    match selected order request with
    | .own response => response.body = []
    | .invoke handler params =>
        match ((handler request params).run.run state).1 with
        | .ok response => response.body = []
        | .error e => e.what = []

/-- Every `HEAD` request is answered with an empty body when its turn comes. -/
def HeadsAnsweredEmpty (order : List (RouteEntry (StateM σ))) :
    σ → List HttpRequest → Prop
  | _, [] => True
  | state, req :: rest =>
      (req.verb = .head → AnsweredEmpty order req state) ∧
        HeadsAnsweredEmpty order (answerOf order req state).2 rest

theorem body_ne_nil_of_parseRequest {req : HttpRequest} {response : Response}
    (hparse : parseRequest req = .error response) : response.body ≠ [] := by
  unfold parseRequest at hparse
  split at hparse
  · cases hparse
    decide
  · split at hparse
    · cases hparse
      decide
    · split at hparse
      · cases hparse
        decide
      · cases hparse

theorem answeredEmpty_iff (order : List (RouteEntry (StateM σ)))
    (req : HttpRequest) (state : σ) :
    AnsweredEmpty order req state ↔ (answerOf order req state).1.body = [] := by
  unfold AnsweredEmpty answerOf answer
  cases hparse : parseRequest req with
  | error response =>
      exact iff_of_false (by simp) (body_ne_nil_of_parseRequest hparse)
  | ok request =>
      simp only [Except.ok.injEq, exists_eq_left', selected]
      cases select request.method (pathOf request.path)
          (queryParams request.path) order with
      | own response => exact Iff.rfl
      | invoke handler params =>
          simp only [Selection.respond, StateT.run_bind]
          rcases (handler request params).run.run state with ⟨e | response, after⟩
          · exact Iff.rfl
          · exact Iff.rfl

/-- What `CreateResponse` guarantees of a message. -/
structure HttpResponse.Sound (response : HttpResponse) : Prop where
  wellFormed : response.head.WellFormed
  length : response.contentLength = response.body.length
  bodiless : response.result = 204 ∨ response.result = 304 →
    response.body = []

theorem code_noContent_or_notModified {status : Status}
    (hcode : status.code = 204 ∨ status.code = 304) : status.IsBodiless := by
  cases status <;> revert hcode <;> decide

theorem createResponse_sound {prepare : PreparePayload} {response : Response}
    {created : HttpResponse}
    (hcreated : createResponse prepare response = .ok created)
    (keepAlive : Bool) : { created with keepAlive := keepAlive }.Sound := by
  obtain ⟨hempty, rfl⟩ := createResponse_eq_ok.mp hcreated
  refine ⟨⟨(by decide : '\r' ∉ "JustQueueIt".toList), ?_⟩, rfl, ?_⟩
  · change '\r' ∉ response.contentType.parseContentType
    cases response.contentType <;> decide
  · exact fun hcode => hempty (code_noContent_or_notModified hcode)

/-- The client looks for as many bytes as were written, unless they follow the
response to a `HEAD`. -/
theorem bodyLength_eq {verb : Verb} {response : HttpResponse}
    (hsound : response.Sound) (hhead : verb = .head → response.body = []) :
    bodyLength verb response.head = response.body.length := by
  unfold bodyLength
  split_ifs with hnone
  · rcases hnone with hverb | hcode
    · rw [hhead hverb, List.length_nil]
    · rw [hsound.bodiless hcode, List.length_nil]
  · exact hsound.length

theorem HeadCodec.wire_cons (codec : HeadCodec) (response : HttpResponse)
    (rest : List HttpResponse) :
    codec.wire (response :: rest) = codec.write response.head ++
      (response.body ++ codec.wire rest) := by
  rw [wire, List.flatMap_cons, List.append_assoc]
  rfl

/-- What a client makes of the bytes of one more response. -/
theorem HeadCodec.readResponses_wire_cons (codec : HeadCodec) (verb : Verb)
    (verbs : List Verb) {response : HttpResponse} (hsound : response.Sound)
    (rest : List HttpResponse) :
    codec.readResponses (verb :: verbs) (codec.wire (response :: rest)) =
      (codec.readResponses verbs ((response.body ++ codec.wire rest).drop
        (bodyLength verb response.head))).map fun later =>
          (response.head.withBody ((response.body ++ codec.wire rest).take
            (bodyLength verb response.head)) :: later.1, later.2) := by
  have hle : bodyLength verb response.head ≤ response.body.length := by
    unfold bodyLength
    split_ifs
    · exact Nat.zero_le _
    · exact hsound.length.le
  rw [codec.wire_cons, readResponses, codec.read_write _ _ hsound.wellFormed]
  generalize htext : response.body ++ codec.wire rest = text
  have hshort : ¬ text.length < bodyLength verb response.head := by
    rw [← htext, List.length_append]
    omega
  simp only [bind, Option.bind, if_neg hshort]
  cases codec.readResponses verbs
    (text.drop (bodyLength verb response.head)) <;> rfl

/-- A client stays in frame over one more response exactly when that response
is not to a `HEAD` or has no body. -/
theorem HeadCodec.readResponses_wire_cons_iff (codec : HeadCodec) (verb : Verb)
    (verbs : List Verb) {response : HttpResponse} (hsound : response.Sound)
    (rest : List HttpResponse) :
    codec.readResponses (verb :: verbs) (codec.wire (response :: rest)) =
        some (response :: rest, []) ↔
      (verb = .head → response.body = []) ∧
        codec.readResponses verbs (codec.wire rest) = some (rest, []) := by
  rw [codec.readResponses_wire_cons verb verbs hsound rest]
  by_cases hhead : verb = .head → response.body = []
  · have hsame : response.head.withBody response.body = response := rfl
    rw [bodyLength_eq hsound hhead, List.drop_left, List.take_left, hsame]
    simp only [Option.map_eq_some_iff, Prod.mk.injEq, List.cons.injEq, true_and,
      Prod.exists]
    grind
  · refine iff_of_false ?_ fun h => hhead h.1
    obtain ⟨rfl, hbody⟩ := Classical.not_imp.mp hhead
    have hzero : bodyLength .head response.head = 0 := by simp [bodyLength]
    rw [hzero, List.take_zero]
    intro hread
    obtain ⟨later, -, hlater⟩ := Option.map_eq_some_iff.mp hread
    have hfirst : response.head.withBody [] = response := by
      simpa using congrArg (fun found => found.1.head?) hlater
    rw [← hfirst] at hbody
    exact hbody rfl

theorem sessionOf_cons (prepare : PreparePayload)
    (order : List (RouteEntry (StateM σ))) (req : HttpRequest)
    (rest : List HttpRequest) (state : σ) :
    sessionOf prepare order (req :: rest) state =
      match createResponse prepare (answerOf order req state).1 with
      | .error e => (([], .failed e), (answerOf order req state).2)
      | .ok created =>
          let written := { created with keepAlive := req.keepAlive }
          if req.keepAlive then
            let later :=
              sessionOf prepare order rest (answerOf order req state).2
            ((written :: later.1.1, later.1.2), later.2)
          else (([written], .shutdown), (answerOf order req state).2) := by
  rw [sessionOf, doSession_cons, StateT.run_bind, answerOf]
  rcases StateT.run (answer order req) state with ⟨response, after⟩
  dsimp [bind]
  cases createResponse prepare response with
  | error e => rfl
  | ok created => cases req.keepAlive <;> rfl

/-- On a connection that is kept alive and does not fail, the client reads
back what was written exactly when every `HEAD` is answered with an empty
body. -/
theorem readsBack_iff (codec : HeadCodec) (prepare : PreparePayload)
    (order : List (RouteEntry (StateM σ))) (reqs : List HttpRequest)
    (state : σ) (hkeep : ∀ req ∈ reqs, req.keepAlive = true)
    (hcreated : ∀ e, (sessionOf prepare order reqs state).1.2 ≠ .failed e) :
    ReadsBack codec prepare order reqs state ↔
      HeadsAnsweredEmpty order state reqs := by
  induction reqs generalizing state with
  | nil => exact iff_of_true rfl trivial
  | cons req rest ih =>
      have hsession := sessionOf_cons prepare order req rest state
      cases hcreate : createResponse prepare (answerOf order req state).1 with
      | error e =>
          rw [hcreate] at hsession
          refine absurd ?_ (hcreated e)
          rw [hsession]
      | ok created =>
          rw [hcreate, hkeep req List.mem_cons_self] at hsession
          have hlater := ih (answerOf order req state).2
            (fun each heach => hkeep each (List.mem_cons_of_mem req heach))
            (fun e => by
              have hnot := hcreated e
              rwa [hsession] at hnot)
          have hbody : created.body = (answerOf order req state).1.body := by
            rw [(createResponse_eq_ok.mp hcreate).2]
          rw [HeadsAnsweredEmpty, answeredEmpty_iff, ← hlater, ← hbody,
            ReadsBack, hsession]
          exact codec.readResponses_wire_cons_iff req.verb _
            (createResponse_sound hcreate true) _

/-- A request on `/tasks`, with a supported or unsupported content type. -/
def tasksRequest (verb : Verb) (contentType : Str) : HttpRequest where
  verb := verb
  target := "/tasks".toList
  contentType := contentType
  accept := "application/json".toList
  body := []
  keepAlive := true

/-- `GET /tasks`, with a handler that counts its calls. -/
def tasksEntry : RouteEntry (StateM Nat) where
  fst := "/tasks".toList
  snd := {
    pattern := ⟨.anchored (.literal "/tasks".toList), 0⟩
    parameterNames := []
    handlers := (∅ : Handlers (StateM Nat)).assign .get fun _ _ => do
      let calls ← get
      set (calls + 1)
      pure ⟨.ok, "[]".toList, .applicationJson⟩ }

example : compilePath tasksEntry.1 = .ok tasksEntry.2.pattern := rfl

/-- A `GET`, a `HEAD` that no handler takes, and a `GET`. -/
def getHeadGet : List HttpRequest :=
  [.get, .head, .get].map fun verb =>
    tasksRequest verb "application/json".toList

/-- A `HEAD` that is answered with 405 keeps the connection in frame for the
body that follows. -/
theorem readsBack_headPath :
    ReadsBack messageHeads .beast [tasksEntry] getHeadGet 0 :=
  (readsBack_iff messageHeads .beast [tasksEntry] getHeadGet 0 (by decide) (by
    intro e he
    cases he)).mpr
    ⟨fun hget => absurd hget (by decide),
      fun _ => ⟨⟨.head, "/tasks".toList, [], .applicationJson,
        .applicationJson⟩, by decide, rfl⟩,
      fun hget => absurd hget (by decide), trivial⟩

/-- A `HEAD` with an unknown content type does not: the text of the error
follows its head. -/
theorem not_readsBack_headPath :
    ¬ ReadsBack messageHeads .beast ([] : List (RouteEntry (StateM Unit)))
      [tasksRequest .head []] () := by
  intro hread
  have hcreate : createResponse .beast ⟨.badRequest,
      "Unsupported or unknown content type".toList, .textPlain⟩ = .ok _ := rfl
  obtain ⟨hempty, -⟩ := (messageHeads.readResponses_wire_cons_iff .head []
    (createResponse_sound hcreate true) []).mp hread
  exact absurd (hempty rfl) (by decide)

end Rest

end JustQueueIt
