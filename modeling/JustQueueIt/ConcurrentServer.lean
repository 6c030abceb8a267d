/-
Any number of clients, each with a connection and a session of its own.
Requests and responses are in flight, sessions take turns in any order, and a
storage call is one step.
-/
import JustQueueIt.ApiReference
import JustQueueIt.Linearization

namespace JustQueueIt

namespace Backend

open Rest Linearization

variable {json : Json}

/-- The reply to a request from the answer to it. -/
def replyOf (prepare : PreparePayload) (req : HttpRequest)
    (response : Response) : Except StdException HttpResponse :=
  (createResponse prepare response).map fun created =>
    { created with keepAlive := req.keepAlive }

/-- The body of the loop of `DoSession`: what is written, or what is thrown. -/
def Server.replyProgram (server : Server json) (req : HttpRequest) :
    StorageProg (Except StdException HttpResponse) :=
  (fun prepared => prepared.bind (replyOf server.prepare req)) <$>
    (Rest.prepareResponse server.order req).run

/-- The session of a connection: waiting for a request, at work on one, or
over. -/
inductive Session where
  | idle
  | busy (req : HttpRequest)
      (program : StorageProg (Except StdException HttpResponse))
  | closed

/-- A connection with what is in flight on it.  The client numbers its requests
and takes the responses in order. -/
structure Connection where
  sent : Nat
  requests : List HttpRequest
  session : Session
  responses : List HttpResponse
  received : Nat

def Connection.opened : Connection :=
  ⟨0, [], .idle, [], 0⟩

/-- The number of the request the session works on, or will read next. -/
def Connection.current (connection : Connection) : Nat :=
  connection.received + connection.responses.length

structure Network (Client : Type) where
  connections : Client → Connection
  storage : InMemoryStorage

variable {Client : Type}

def Network.init : Network Client :=
  ⟨fun _ => .opened, .empty⟩

def Network.set [DecidableEq Client] (network : Network Client) (client : Client)
    (connection : Connection) : Network Client :=
  { network with
    connections := Function.update network.connections client connection }

theorem Network.connections_set_self [DecidableEq Client]
    (network : Network Client) (client : Client) (connection : Connection) :
    (network.set client connection).connections client = connection :=
  Function.update_self ..

theorem Network.connections_set_ne [DecidableEq Client]
    (network : Network Client) {client other : Client} (hne : other ≠ client)
    (connection : Connection) :
    (network.set client connection).connections other =
      network.connections other :=
  Function.update_of_ne hne ..

theorem Network.set_set [DecidableEq Client] (network : Network Client)
    (client : Client) (connection connection' : Connection) :
    (network.set client connection).set client connection' =
      network.set client connection' := by
  simp only [Network.set, Function.update_idem]

inductive Label (Client : Type) where
  | send (id : Client × Nat) (req : HttpRequest)
  | read (client : Client)
  | call (client : Client) (op : StorageCall)
  | write (client : Client)
  | fail (client : Client)
  | deliver (id : Client × Nat) (response : HttpResponse)

/-- One step of one client or one session. -/
inductive Step [DecidableEq Client] (server : Server json) :
    Network Client → Label Client → Network Client → Prop
  | send (network : Network Client) (client : Client) (req : HttpRequest) :
      Step server network (.send (client, (network.connections client).sent) req)
        (network.set client { network.connections client with
          sent := (network.connections client).sent + 1
          requests := (network.connections client).requests ++ [req] })
  | read {network : Network Client} {client : Client} {req : HttpRequest}
      {rest : List HttpRequest}
      (hsession : (network.connections client).session = .idle)
      (hrequests : (network.connections client).requests = req :: rest) :
      Step server network (.read client)
        (network.set client { network.connections client with
          requests := rest
          session := .busy req (server.replyProgram req) })
  | call {network : Network Client} {client : Client} {req : HttpRequest}
      {op : StorageCall}
      {next : op.Result → StorageProg (Except StdException HttpResponse)}
      (hsession : (network.connections client).session =
        .busy req (.call op next)) :
      Step server network (.call client op)
        ({ network with storage := (network.storage.exec op).2 }.set client
          { network.connections client with
            session := .busy req (next (network.storage.exec op).1) })
  | write {network : Network Client} {client : Client} {req : HttpRequest}
      {response : HttpResponse}
      (hsession : (network.connections client).session =
        .busy req (.ret (.ok response))) :
      Step server network (.write client)
        (network.set client { network.connections client with
          session := if req.keepAlive then .idle else .closed
          responses := (network.connections client).responses ++ [response] })
  | fail {network : Network Client} {client : Client} {req : HttpRequest}
      {e : StdException}
      (hsession : (network.connections client).session =
        .busy req (.ret (.error e))) :
      Step server network (.fail client)
        (network.set client { network.connections client with
          session := .closed })
  | deliver {network : Network Client} {client : Client}
      {response : HttpResponse} {rest : List HttpResponse}
      (hresponses : (network.connections client).responses =
        response :: rest) :
      Step server network
        (.deliver (client, (network.connections client).received) response)
        (network.set client { network.connections client with
          responses := rest
          received := (network.connections client).received + 1 })

/-- The runs from the empty storage, in any interleaving. -/
inductive Run [DecidableEq Client] (server : Server json) :
    List (Label Client) → Network Client → Prop
  | init : Run server [] .init
  | step {labels : List (Label Client)} {network after : Network Client}
      {label : Label Client} (hrun : Run server labels network)
      (hstep : Step server network label after) :
      Run server (labels ++ [label]) after

abbrev TaskEvent (Client : Type) :=
  Event (Client × Nat) HttpRequest (Except StdException HttpResponse)

/-- What the clients see of a run. -/
def historyOf (labels : List (Label Client)) : List (TaskEvent Client) :=
  labels.filterMap fun
    | .send id req => some (.invoke id req)
    | .deliver id response => some (.respond id (.ok response))
    | _ => none

/-- The storage calls of a run. -/
def storageCalls (labels : List (Label Client)) : List StorageCall :=
  labels.filterMap fun
    | .call _ op => some op
    | _ => none

/-- The sequential task store: a map with a counter, one reply for each
request. -/
def taskStore (json : Json) (prepare : PreparePayload) :
    Object HttpRequest (Except StdException HttpResponse) TaskMap where
  init := .empty
  apply map req :=
    (replyOf prepare req (specAnswer json map req),
      mapAfter map (requestCalls json req))

/-- On requests in JSON the store is the reference. -/
theorem taskStore_apply (hlawful : json.Lawful) (prepare : PreparePayload)
    {req : HttpRequest} {method : Method} (hjson : InJson req method)
    (map : TaskMap) :
    (taskStore json prepare).apply map req =
      (replyOf prepare req (reference json method req.target req.body map).1,
        (reference json method req.target req.body map).2) := by
  rw [hjson.reference_eq hlawful]
  rfl

theorem Server.replyProgram_eq (server : Server json) (req : HttpRequest) :
    server.replyProgram req =
      match httpCall json req with
      | .error response => .ret (replyOf server.prepare req response)
      | .ok (op, accept) => .call op fun result =>
          .ret (replyOf server.prepare req
            (encodeResult json accept op result)) := by
  rw [replyProgram, Rest.prepareResponse_eq, server.answer_eq]
  rcases httpCall json req with response | ⟨op, accept⟩ <;> rfl

section

variable [DecidableEq Client] {server : Server json}
  {labels : List (Label Client)} {network : Network Client} {client : Client}
  {connection : Connection} {req : HttpRequest}

theorem Run.read (hrun : Run server labels (network.set client connection))
    {rest : List HttpRequest} (hsession : connection.session = .idle)
    (hrequests : connection.requests = req :: rest) :
    Run server (labels ++ [.read client]) (network.set client { connection with
      requests := rest
      session := .busy req (server.replyProgram req) }) := by
  have hself := network.connections_set_self client connection
  have hstep := hrun.step (.read ((congrArg Connection.session hself).trans
    hsession) ((congrArg Connection.requests hself).trans hrequests))
  rwa [hself, network.set_set] at hstep

theorem Run.call (hrun : Run server labels (network.set client connection))
    {op : StorageCall}
    {next : op.Result → StorageProg (Except StdException HttpResponse)}
    (hsession : connection.session = .busy req (.call op next)) :
    Run server (labels ++ [.call client op])
      ({ network with storage := (network.storage.exec op).2 }.set client
        { connection with
          session := .busy req (next (network.storage.exec op).1) }) := by
  have hself := network.connections_set_self client connection
  have hstep := hrun.step
    (.call ((congrArg Connection.session hself).trans hsession))
  rw [hself] at hstep
  rwa [← Network.set_set _ client connection]

theorem Run.write (hrun : Run server labels (network.set client connection))
    {response : HttpResponse}
    (hsession : connection.session = .busy req (.ret (.ok response))) :
    Run server (labels ++ [.write client]) (network.set client
      { connection with
        session := if req.keepAlive then .idle else .closed
        responses := connection.responses ++ [response] }) := by
  have hself := network.connections_set_self client connection
  have hstep := hrun.step
    (.write ((congrArg Connection.session hself).trans hsession))
  rwa [hself, network.set_set] at hstep

theorem Run.deliver (hrun : Run server labels (network.set client connection))
    {response : HttpResponse} {rest : List HttpResponse}
    (hresponses : connection.responses = response :: rest) :
    Run server (labels ++ [.deliver (client, connection.received) response])
      (network.set client { connection with
        responses := rest
        received := connection.received + 1 }) := by
  have hself := network.connections_set_self client connection
  have hstep := hrun.step
    (.deliver ((congrArg Connection.responses hself).trans hresponses))
  rwa [hself, network.set_set] at hstep

/-- A client that awaits nothing can be served while the others stand still. -/
theorem Run.serve (hrun : Run server labels network) {n : Nat}
    (hidle : network.connections client = ⟨n, [], .idle, [], n⟩)
    (hkeep : req.keepAlive = true) {op : StorageCall} {accept : ContentType}
    (hcall : httpCall json req = .ok (op, accept)) {response : HttpResponse}
    (hreply : replyOf server.prepare req (encodeResult json accept op
      (network.storage.exec op).1) = .ok response) :
    Run server
      (labels ++ [.send (client, n) req, .read client, .call client op,
        .write client, .deliver (client, n) response])
      ({ network with storage := (network.storage.exec op).2 }.set client
        ⟨n + 1, [], .idle, [], n + 1⟩) := by
  have hsent := hrun.step (.send network client req)
  rw [hidle] at hsent
  have hread := hsent.read rfl rfl
  rw [server.replyProgram_eq, hcall] at hread
  have hwritten := (hread.call rfl).write (congrArg _ (congrArg _ hreply))
  have hdelivered := hwritten.deliver rfl
  rw [hkeep] at hdelivered
  simpa using hdelivered

end

end Backend

end JustQueueIt
