/-
Every run of the network is linearizable.  A request takes effect with its
storage call, or when it is read if it makes none; what explains a network is
the order in which requests took effect, the storage it leads to, and the place
of every other request.
-/
import JustQueueIt.ConcurrentServer

namespace JustQueueIt

namespace Backend

open Rest Linearization

variable {json : Json} {prepare : PreparePayload} {Client : Type}

/-- A request that was sent and did not take effect yet. -/
def Waiting (history : List (TaskEvent Client))
    (order : List ((Client × Nat) × HttpRequest)) (id : Client × Nat)
    (req : HttpRequest) : Prop :=
  .invoke id req ∈ history ∧ id ∉ order.map Prod.fst

/-- The requests in flight wait under the numbers from `first` on. -/
structure Queue (history : List (TaskEvent Client))
    (order : List ((Client × Nat) × HttpRequest)) (client : Client)
    (sent : Nat) (requests : List HttpRequest) (first : Nat) : Prop where
  count : first + requests.length = sent
  waiting : ∀ i req, requests[i]? = some req →
    Waiting history order (client, first + i) req

/-- Where a session stands: its request waits for its storage call, or has
taken effect and the reply is known. -/
def Session.Stands (json : Json) (prepare : PreparePayload)
    (history : List (TaskEvent Client))
    (order : List ((Client × Nat) × HttpRequest)) (client : Client)
    (sent : Nat) (requests : List HttpRequest) (current : Nat) :
    Session → Prop
  | .idle => Queue history order client sent requests current
  | .busy req program =>
      Queue history order client sent requests (current + 1) ∧
        ((∃ op accept, httpCall json req = .ok (op, accept) ∧
            Waiting history order (client, current) req ∧
            program = .call op fun result =>
              .ret (replyOf prepare req (encodeResult json accept op result))) ∨
          ∃ reply, program = .ret reply ∧
            (taskStore json prepare).Returns order (client, current) reply)
  | .closed => True

structure Connection.Explained (json : Json) (prepare : PreparePayload)
    (history : List (TaskEvent Client))
    (order : List ((Client × Nat) × HttpRequest)) (client : Client)
    (connection : Connection) : Prop where
  fresh : ∀ n req, .invoke (client, n) req ∈ history → n < connection.sent
  responses : ∀ i response, connection.responses[i]? = some response →
    (taskStore json prepare).Returns order (client, connection.received + i)
      (.ok response)
  session : connection.session.Stands json prepare history order client
    connection.sent connection.requests connection.current

structure Network.Explained (json : Json) (prepare : PreparePayload)
    (labels : List (Label Client))
    (order : List ((Client × Nat) × HttpRequest)) (network : Network Client) :
    Prop where
  linearizes : (taskStore json prepare).Linearizes (historyOf labels) order
  represents :
    Represents network.storage ((taskStore json prepare).stateAfter order)
  next : ((taskStore json prepare).stateAfter order).next =
    (creations (storageCalls labels)).length
  connections : ∀ client, (network.connections client).Explained json prepare
    (historyOf labels) order client

theorem Waiting.append {history more : List (TaskEvent Client)}
    {order added : List ((Client × Nat) × HttpRequest)} {id : Client × Nat}
    {req : HttpRequest} (hwaiting : Waiting history order id req)
    (hadded : ∀ entry ∈ added, entry.1 ≠ id) :
    Waiting (history ++ more) (order ++ added) id req := by
  refine ⟨List.mem_append_left _ hwaiting.1, ?_⟩
  rw [List.map_append, List.mem_append, not_or]
  refine ⟨hwaiting.2, fun hmem => ?_⟩
  obtain ⟨entry, hentry, hid⟩ := List.mem_map.mp hmem
  exact hadded entry hentry hid

theorem Queue.append {history more : List (TaskEvent Client)}
    {order added : List ((Client × Nat) × HttpRequest)} {client : Client}
    {sent first : Nat} {requests : List HttpRequest}
    (hqueue : Queue history order client sent requests first)
    (hadded : ∀ entry ∈ added, ∀ i, entry.1 ≠ (client, first + i)) :
    Queue (history ++ more) (order ++ added) client sent requests first where
  count := hqueue.count
  waiting i req hreq := (hqueue.waiting i req hreq).append
    fun entry hentry => hadded entry hentry i

/-- One more request at the end of the queue. -/
theorem Queue.concat {history : List (TaskEvent Client)}
    {order : List ((Client × Nat) × HttpRequest)} {client : Client}
    {sent first : Nat} {requests : List HttpRequest}
    (hqueue : Queue history order client sent requests first)
    (req : HttpRequest) (hnew : (client, sent) ∉ order.map Prod.fst) :
    Queue (history ++ [.invoke (client, sent) req]) order client (sent + 1)
      (requests ++ [req]) first where
  count := by
    have hcount := hqueue.count
    rw [List.length_append, List.length_singleton]
    omega
  waiting i other hother := by
    rw [List.getElem?_append] at hother
    split at hother
    · have hwaiting := hqueue.waiting i other hother
      exact ⟨List.mem_append_left _ hwaiting.1, hwaiting.2⟩
    · have hlast : i - requests.length = 0 := by
        by_contra hne
        rw [List.getElem?_eq_none (by simp; omega)] at hother
        cases hother
      rw [hlast] at hother
      obtain rfl := Option.some.inj hother
      have hid : first + i = sent := by
        have hcount := hqueue.count
        omega
      rw [hid]
      exact ⟨List.mem_append_right _ List.mem_cons_self, hnew⟩

/-- The queue after its first request was taken. -/
theorem Queue.tail {history : List (TaskEvent Client)}
    {order : List ((Client × Nat) × HttpRequest)} {client : Client}
    {sent first : Nat} {req : HttpRequest} {rest : List HttpRequest}
    (hqueue : Queue history order client sent (req :: rest) first) :
    Queue history order client sent rest (first + 1) where
  count := by
    have hcount := hqueue.count
    rw [List.length_cons] at hcount
    omega
  waiting i other hother := by
    rw [Nat.add_assoc, Nat.add_comm 1 i]
    exact hqueue.waiting (i + 1) other hother

/-- A connection is explained as before when only others took steps. -/
theorem Connection.Explained.append {history more : List (TaskEvent Client)}
    {order added : List ((Client × Nat) × HttpRequest)} {client : Client}
    {connection : Connection}
    (hexplained : connection.Explained json prepare history order client)
    (hmore : ∀ n req, .invoke (client, n) req ∉ more)
    (hadded : ∀ entry ∈ added, entry.1.1 ≠ client) :
    connection.Explained json prepare (history ++ more) (order ++ added)
      client where
  fresh n req hmem := by
    rcases List.mem_append.mp hmem with hmem | hmem
    · exact hexplained.fresh n req hmem
    · exact absurd hmem (hmore n req)
  responses i response hresponse :=
    (hexplained.responses i response hresponse).append added
  session := by
    have hids : ∀ entry ∈ added, ∀ n, entry.1 ≠ (client, n) := by
      intro entry hentry n heq
      exact hadded entry hentry (congrArg Prod.fst heq)
    have hstands := hexplained.session
    cases hsession : connection.session with
    | closed => trivial
    | idle =>
        rw [hsession] at hstands
        exact Queue.append hstands fun entry hentry i => hids entry hentry _
    | busy req program =>
        rw [hsession] at hstands
        obtain ⟨hqueue, hwork⟩ := hstands
        refine ⟨hqueue.append fun entry hentry i => hids entry hentry _, ?_⟩
        rcases hwork with ⟨op, accept, hhttp, hwaiting, hprogram⟩ |
          ⟨reply, hprogram, hreturns⟩
        · exact Or.inl ⟨op, accept, hhttp,
            hwaiting.append fun entry hentry => hids entry hentry _, hprogram⟩
        · exact Or.inr ⟨reply, hprogram, hreturns.append added⟩

/-- A request that is sent joins the requests in flight. -/
theorem Connection.Explained.send {history : List (TaskEvent Client)}
    {order : List ((Client × Nat) × HttpRequest)} {client : Client}
    {connection : Connection}
    (hown : connection.Explained json prepare history order client)
    (req : HttpRequest) (hnew : (client, connection.sent) ∉ order.map Prod.fst) :
    { connection with
      sent := connection.sent + 1
      requests := connection.requests ++ [req] }.Explained json prepare
        (history ++ [Event.invoke (client, connection.sent) req]) order
          client where
  fresh n other hmem := by
    rcases List.mem_append.mp hmem with hmem | hmem
    · exact Nat.lt_succ_of_lt (hown.fresh n other hmem)
    · obtain ⟨hid, -⟩ := Event.invoke.inj (List.mem_singleton.mp hmem)
      rw [(Prod.mk.inj hid).2]
      exact Nat.lt_succ_self _
  responses := hown.responses
  session := by
    have hstands := hown.session
    cases hsession : connection.session with
    | closed => trivial
    | idle =>
        rw [hsession] at hstands
        exact Queue.concat hstands req hnew
    | busy its program =>
        rw [hsession] at hstands
        obtain ⟨hqueue, hwork⟩ := hstands
        refine ⟨hqueue.concat req hnew, ?_⟩
        rcases hwork with ⟨op, accept, hhttp, hwaiting, hprogram⟩ | hdone
        · exact Or.inl ⟨op, accept, hhttp,
            ⟨List.mem_append_left _ hwaiting.1, hwaiting.2⟩, hprogram⟩
        · exact Or.inr hdone

theorem historyOf_append (first second : List (Label Client)) :
    historyOf (first ++ second) = historyOf first ++ historyOf second :=
  List.filterMap_append

theorem storageCalls_append (first second : List (Label Client)) :
    storageCalls (first ++ second) =
      storageCalls first ++ storageCalls second :=
  List.filterMap_append

theorem Network.explained_init :
    (Network.init : Network Client).Explained json prepare [] [] where
  linearizes := .nil
  represents := Represents.empty
  next := rfl
  connections _ := {
    fresh := fun _ _ hmem => by cases hmem
    responses := fun _ _ hget => by cases hget
    session := ⟨rfl, fun _ _ hget => by cases hget⟩ }

theorem Network.Explained.fresh {labels : List (Label Client)}
    {order : List ((Client × Nat) × HttpRequest)} {network : Network Client}
    (hexplained : network.Explained json prepare labels order)
    (client : Client) :
    (client, (network.connections client).sent) ∉
      invocations (historyOf labels) := by
  intro hmem
  obtain ⟨req, hreq⟩ := mem_invocations.mp hmem
  exact Nat.lt_irrefl _ ((hexplained.connections client).fresh _ req hreq)

variable [DecidableEq Client]

/-- One connection takes a step: what is explained of the others stays. -/
theorem Network.Explained.set {labels : List (Label Client)}
    {label : Label Client}
    {order added : List ((Client × Nat) × HttpRequest)}
    {network : Network Client} {client : Client} {connection : Connection}
    {storage : InMemoryStorage}
    (hexplained : network.Explained json prepare labels order)
    (hlin : (taskStore json prepare).Linearizes
      (historyOf labels ++ historyOf [label]) (order ++ added))
    (hrep : Represents storage
      ((taskStore json prepare).stateAfter (order ++ added)))
    (hnext : ((taskStore json prepare).stateAfter (order ++ added)).next =
      (creations (storageCalls labels)).length +
        (creations (storageCalls [label])).length)
    (hown : connection.Explained json prepare
      (historyOf labels ++ historyOf [label]) (order ++ added) client)
    (hlabel : ∀ other n req, .invoke (other, n) req ∈ historyOf [label] →
      other = client)
    (hadded : ∀ entry ∈ added, entry.1.1 = client) :
    ({ network with storage := storage }.set client connection).Explained json
      prepare (labels ++ [label]) (order ++ added) where
  linearizes := by rwa [historyOf_append]
  represents := hrep
  next := by
    rw [hnext, storageCalls_append, creations_append, List.length_append]
  connections other := by
    rw [historyOf_append]
    by_cases hother : other = client
    · subst hother
      rw [Network.connections_set_self]
      exact hown
    · rw [Network.connections_set_ne _ hother]
      exact (hexplained.connections other).append
        (fun n req hmem => hother (hlabel other n req hmem))
        fun entry hentry heq => hother (heq.symm.trans (hadded entry hentry))

/-- A client sends a request: it is invoked. -/
theorem Network.Explained.send {labels : List (Label Client)}
    {order : List ((Client × Nat) × HttpRequest)} {network : Network Client}
    (hexplained : network.Explained json prepare labels order) (client : Client)
    (req : HttpRequest) :
    (network.set client { network.connections client with
      sent := (network.connections client).sent + 1
      requests := (network.connections client).requests ++ [req] }).Explained
        json prepare (labels ++
          [.send (client, (network.connections client).sent) req])
        (order ++ []) := by
  have hfresh := hexplained.fresh client
  have hnew : (client, (network.connections client).sent) ∉
      order.map Prod.fst := by
    intro hmem
    obtain ⟨entry, hentry, hid⟩ := List.mem_map.mp hmem
    exact hfresh (mem_invocations.mpr
      ⟨entry.2, hid ▸ hexplained.linearizes.invoked entry hentry⟩)
  refine hexplained.set ?_ ?_ ?_ ?_ ?_ (by simp)
  · rw [List.append_nil]
    exact hexplained.linearizes.invoke hfresh req
  · rw [List.append_nil]
    exact hexplained.represents
  · rw [List.append_nil]
    exact hexplained.next
  · rw [List.append_nil]
    exact (hexplained.connections client).send req hnew
  · intro other n its hmem
    obtain ⟨hid, -⟩ := Event.invoke.inj (List.mem_singleton.mp hmem)
    exact (Prod.mk.inj hid).1

/-- A session takes a step that no client sees. -/
theorem Network.Explained.setSilent {labels : List (Label Client)}
    {label : Label Client}
    {order added : List ((Client × Nat) × HttpRequest)}
    {network : Network Client} {client : Client} {connection : Connection}
    {storage : InMemoryStorage}
    (hexplained : network.Explained json prepare labels order)
    (hsilent : historyOf [label] = [])
    (hlin : (taskStore json prepare).Linearizes (historyOf labels)
      (order ++ added))
    (hrep : Represents storage
      ((taskStore json prepare).stateAfter (order ++ added)))
    (hnext : ((taskStore json prepare).stateAfter (order ++ added)).next =
      (creations (storageCalls labels)).length +
        (creations (storageCalls [label])).length)
    (hown : connection.Explained json prepare (historyOf labels)
      (order ++ added) client)
    (hadded : ∀ entry ∈ added, entry.1.1 = client) :
    ({ network with storage := storage }.set client connection).Explained json
      prepare (labels ++ [label]) (order ++ added) := by
  refine hexplained.set ?_ hrep hnext ?_ ?_ hadded
  · rwa [hsilent, List.append_nil]
  · rwa [hsilent, List.append_nil]
  · intro other n req hmem
    rw [hsilent] at hmem
    cases hmem

omit [DecidableEq Client] in
/-- The request of a session takes effect, and its reply is known. -/
theorem Connection.Explained.perform {history : List (TaskEvent Client)}
    {order : List ((Client × Nat) × HttpRequest)} {client : Client}
    {connection : Connection}
    (hown : connection.Explained json prepare history order client)
    (req : HttpRequest) {requests : List HttpRequest}
    (hqueue : Queue history order client connection.sent requests
      (connection.current + 1)) :
    { connection with
      requests := requests
      session := .busy req (.ret (replyOf prepare req
        (specAnswer json
          ((taskStore json prepare).stateAfter order) req))) }.Explained json
      prepare history (order ++ [((client, connection.current), req)])
        client where
  fresh := hown.fresh
  responses i response hresponse := (hown.responses i response hresponse).append _
  session := by
    have hkeep : Queue (history ++ [])
        (order ++ [((client, connection.current), req)]) client
        connection.sent requests (connection.current + 1) := by
      refine hqueue.append fun entry hentry i heq => ?_
      rw [List.mem_singleton.mp hentry] at heq
      have hindex := congrArg Prod.snd heq
      simp only at hindex
      omega
    rw [List.append_nil] at hkeep
    exact ⟨hkeep, Or.inr ⟨_, rfl, Object.returns_concat _ _ req⟩⟩

/-- A session reads a request.  One that makes no storage call takes effect
here. -/
theorem Network.Explained.read {labels : List (Label Client)}
    {order : List ((Client × Nat) × HttpRequest)} {network : Network Client}
    {server : Server json}
    (hexplained : network.Explained json server.prepare labels order)
    {client : Client} {req : HttpRequest} {rest : List HttpRequest}
    (hsession : (network.connections client).session = .idle)
    (hrequests : (network.connections client).requests = req :: rest) :
    ∃ added, (network.set client { network.connections client with
      requests := rest
      session := .busy req (server.replyProgram req) }).Explained json
        server.prepare (labels ++ [.read client]) (order ++ added) := by
  have hown := hexplained.connections client
  have hqueue := hown.session
  rw [hsession, hrequests] at hqueue
  have hwaiting : Waiting (historyOf labels) order
      (client, (network.connections client).current) req :=
    Queue.waiting hqueue 0 req rfl
  rw [server.replyProgram_eq]
  rcases hhttp : httpCall json req with response | ⟨op, accept⟩
  · have hcalls : requestCalls json req = [] := by rw [requestCalls, hhttp]
    have hstate : (taskStore json server.prepare).stateAfter
        (order ++ [((client, (network.connections client).current), req)]) =
          (taskStore json server.prepare).stateAfter order := by
      rw [Object.stateAfter_concat]
      change mapAfter _ (requestCalls json req) = _
      rw [hcalls]
      rfl
    have hanswer : specAnswer json
        ((taskStore json server.prepare).stateAfter order) req =
        response := by rw [specAnswer, hhttp]
    have hperformed := hown.perform req hqueue.tail
    rw [hanswer] at hperformed
    refine ⟨[((client, (network.connections client).current), req)],
      hexplained.setSilent rfl
        (hexplained.linearizes.perform hwaiting.1 hwaiting.2) ?_ ?_ hperformed
        (by simp)⟩
    · rw [hstate]
      exact hexplained.represents
    · rw [hstate]
      exact hexplained.next
  · refine ⟨[], hexplained.setSilent rfl ?_ ?_ ?_ ?_ (by simp)⟩
    · rw [List.append_nil]
      exact hexplained.linearizes
    · rw [List.append_nil]
      exact hexplained.represents
    · rw [List.append_nil]
      exact hexplained.next
    · rw [List.append_nil]
      exact ⟨hown.fresh, hown.responses, hqueue.tail,
        Or.inl ⟨op, accept, hhttp, hwaiting, rfl⟩⟩

/-- A session makes its storage call: its request takes effect. -/
theorem Network.Explained.call {labels : List (Label Client)}
    {order : List ((Client × Nat) × HttpRequest)} {network : Network Client}
    (hexplained : network.Explained json prepare labels order) {client : Client}
    {req : HttpRequest} {op : StorageCall}
    {next : op.Result → StorageProg (Except StdException HttpResponse)}
    (hsession : (network.connections client).session =
      .busy req (.call op next))
    (hroom : (creations (storageCalls (labels ++ [Label.call client op]))).length <
      sizeLimit) :
    ∃ added, ({ network with storage := (network.storage.exec op).2 }.set
      client { network.connections client with
        session := .busy req (next (network.storage.exec op).1) }).Explained
          json prepare (labels ++ [Label.call client op]) (order ++ added) := by
  have hown := hexplained.connections client
  have hstands := hown.session
  rw [hsession] at hstands
  obtain ⟨hqueue, ⟨its, accept, hhttp, hwaiting, hprogram⟩ | ⟨_, hprogram, -⟩⟩ :=
    hstands
  · cases hprogram
    have hcalls : requestCalls json req = [op] := by rw [requestCalls, hhttp]
    have hstate : (taskStore json prepare).stateAfter
        (order ++ [((client, (network.connections client).current), req)]) =
          applyCall ((taskStore json prepare).stateAfter order) op := by
      rw [Object.stateAfter_concat]
      change mapAfter _ (requestCalls json req) = _
      rw [hcalls]
      rfl
    have hanswer : specAnswer json
        ((taskStore json prepare).stateAfter order) req =
        encodeResult json accept op (network.storage.exec op).1 := by
      rw [specAnswer, hhttp, hexplained.represents.exec_fst]
    have hperformed := hown.perform req hqueue
    rw [hanswer] at hperformed
    rw [storageCalls_append, creations_append, List.length_append,
      ← hexplained.next] at hroom
    refine ⟨[((client, (network.connections client).current), req)],
      hexplained.setSilent rfl
        (hexplained.linearizes.perform hwaiting.1 hwaiting.2) ?_ ?_ hperformed
        (by simp)⟩
    · rw [hstate]
      exact hexplained.represents.exec op hroom
    · rw [hstate, applyCall_next, hexplained.next]
      rfl
  · cases hprogram

/-- A session that changes nothing else than itself takes a silent step. -/
theorem Network.Explained.setSession {labels : List (Label Client)}
    {label : Label Client}
    {order : List ((Client × Nat) × HttpRequest)} {network : Network Client}
    (hexplained : network.Explained json prepare labels order)
    (hsilent : historyOf [label] = []) (hcalls : storageCalls [label] = [])
    {client : Client} {connection : Connection}
    (hown : connection.Explained json prepare (historyOf labels) order client) :
    (network.set client connection).Explained json prepare (labels ++ [label])
      (order ++ []) := by
  refine hexplained.setSilent hsilent ?_ ?_ ?_ ?_ (by simp)
  · rw [List.append_nil]
    exact hexplained.linearizes
  · rw [List.append_nil]
    exact hexplained.represents
  · rw [List.append_nil, hcalls]
    exact hexplained.next
  · rwa [List.append_nil]

omit [DecidableEq Client] in
/-- A reply that is written joins the responses in flight. -/
theorem Connection.Explained.write {history : List (TaskEvent Client)}
    {order : List ((Client × Nat) × HttpRequest)} {client : Client}
    {connection : Connection}
    (hown : connection.Explained json prepare history order client)
    {req : HttpRequest} {response : HttpResponse}
    (hsession : connection.session = .busy req (.ret (.ok response))) :
    { connection with
      session := if req.keepAlive then .idle else .closed
      responses := connection.responses ++ [response] }.Explained json prepare
        history order client := by
  have hstands := hown.session
  rw [hsession] at hstands
  obtain ⟨hqueue, ⟨_, _, _, _, hprogram⟩ | ⟨reply, hprogram, hreturns⟩⟩ :=
    hstands
  · cases hprogram
  · cases hprogram
    refine ⟨hown.fresh, fun i its hits => ?_, ?_⟩
    · rw [List.getElem?_append] at hits
      split at hits
      · exact hown.responses i its hits
      · have hlast : i - connection.responses.length = 0 := by
          by_contra hne
          rw [List.getElem?_eq_none (by simp; omega)] at hits
          cases hits
        rw [hlast] at hits
        obtain rfl := Option.some.inj hits
        have hid : i = connection.responses.length := by omega
        rw [hid]
        exact hreturns
    · cases req.keepAlive with
      | false => trivial
      | true =>
          have hcurrent : connection.received +
              (connection.responses ++ [response]).length =
                connection.current + 1 := by
            rw [List.length_append, List.length_singleton]
            rfl
          change Queue _ _ _ _ _ (connection.received +
            (connection.responses ++ [response]).length)
          rw [hcurrent]
          exact hqueue

omit [DecidableEq Client] in
/-- A response that was delivered is no longer in flight. -/
theorem Connection.Explained.deliver {history : List (TaskEvent Client)}
    {order : List ((Client × Nat) × HttpRequest)} {client : Client}
    {connection : Connection}
    (hown : connection.Explained json prepare history order client)
    {response : HttpResponse} {rest : List HttpResponse}
    (hresponses : connection.responses = response :: rest) :
    { connection with
      responses := rest
      received := connection.received + 1 }.Explained json prepare history order
        client where
  fresh := hown.fresh
  responses i its hits := by
    have hreturns := hown.responses (i + 1) its (by rw [hresponses]; exact hits)
    rwa [← Nat.add_assoc, Nat.add_right_comm] at hreturns
  session := by
    have hcurrent : connection.received + 1 + rest.length =
        connection.current := by
      rw [Connection.current, hresponses, List.length_cons]
      omega
    change Session.Stands json prepare history order client connection.sent
      connection.requests (connection.received + 1 + rest.length)
      connection.session
    rw [hcurrent]
    exact hown.session

/-- A client takes a response: the operation returns. -/
theorem Network.Explained.deliver {labels : List (Label Client)}
    {order : List ((Client × Nat) × HttpRequest)} {network : Network Client}
    (hexplained : network.Explained json prepare labels order) {client : Client}
    {response : HttpResponse} {rest : List HttpResponse}
    (hresponses : (network.connections client).responses = response :: rest) :
    (network.set client { network.connections client with
      responses := rest
      received := (network.connections client).received + 1 }).Explained json
        prepare (labels ++ [.deliver (client,
          (network.connections client).received) response]) (order ++ []) := by
  have hown := hexplained.connections client
  have hreturns : (taskStore json prepare).Returns order
      (client, (network.connections client).received) (.ok response) :=
    hown.responses 0 response (by rw [hresponses]; rfl)
  have hnone : ∀ other n req, (Event.invoke (other, n) req : TaskEvent Client) ∉
      historyOf [.deliver (client, (network.connections client).received)
        response] := by
    intro other n req hmem
    cases List.mem_singleton.mp hmem
  refine hexplained.set ?_ ?_ ?_ ?_ ?_ (by simp)
  · rw [List.append_nil]
    exact hexplained.linearizes.respond hreturns
  · rw [List.append_nil]
    exact hexplained.represents
  · rw [List.append_nil]
    exact hexplained.next
  · exact (hown.deliver hresponses).append (hnone client) (by simp)
  · intro other n req hmem
    exact absurd hmem (hnone other n req)

/-- Whatever step is taken, an explained network stays explained. -/
theorem Network.Explained.step {labels : List (Label Client)}
    {label : Label Client}
    {order : List ((Client × Nat) × HttpRequest)}
    {network after : Network Client}
    {server : Server json}
    (hexplained : network.Explained json server.prepare labels order)
    (hstep : Step server network label after)
    (hroom : (creations (storageCalls (labels ++ [label]))).length <
      sizeLimit) :
    ∃ added, after.Explained json server.prepare (labels ++ [label])
      (order ++ added) := by
  cases hstep with
  | send client req => exact ⟨[], hexplained.send client req⟩
  | read hsession hrequests =>
      exact hexplained.read hsession hrequests
  | call hsession => exact hexplained.call hsession hroom
  | write hsession =>
      exact ⟨[], hexplained.setSession rfl rfl
        ((hexplained.connections _).write hsession)⟩
  | fail hsession =>
      have hown := hexplained.connections
      exact ⟨[], hexplained.setSession rfl rfl
        ⟨(hown _).fresh, (hown _).responses, trivial⟩⟩
  | deliver hresponses => exact ⟨[], hexplained.deliver hresponses⟩

/-- Every run with fewer creates than ids has an explanation. -/
theorem Run.explained {server : Server json} {labels : List (Label Client)}
    {network : Network Client} (hrun : Run server labels network)
    (hroom : (creations (storageCalls labels)).length < sizeLimit) :
    ∃ order, network.Explained json server.prepare labels order := by
  induction hrun with
  | init => exact ⟨[], Network.explained_init⟩
  | step hrun hstep ih =>
      have hbefore := hroom
      rw [storageCalls_append, creations_append, List.length_append] at hbefore
      obtain ⟨order, hexplained⟩ := ih (by omega)
      obtain ⟨added, hafter⟩ := hexplained.step hstep hroom
      exact ⟨order ++ added, hafter⟩

end Backend

end JustQueueIt
