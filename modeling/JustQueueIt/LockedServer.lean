/-
The server down to the mutex of its storage.  A session at a storage call waits
for the mutex, makes its accesses while it holds it, and goes on with the result
when it has let go.  Every such run is a run with storage calls of one step:
what the clients see is the same, and a call takes effect when the mutex is
acquired.
-/
import JustQueueIt.ConcurrentClients
import JustQueueIt.LockedStorage

namespace JustQueueIt

namespace Backend

open Rest Linearization SharedMutex

variable {json : Json} {Client : Type}

/-- A session that holds the mutex, with what is left of its call. -/
abbrev StorageHolder := Holder StorageAccess.Answer StorageCall.Result

structure LockedNetwork (Client : Type) where
  connections : Client → Connection
  storage : InMemoryStorage
  inside : Client → Option StorageHolder

namespace LockedNetwork

def init : LockedNetwork Client :=
  ⟨fun _ => .opened, .empty, fun _ => none⟩

def network (locked : LockedNetwork Client) : Network Client :=
  ⟨locked.connections, locked.storage⟩

def set [DecidableEq Client] (locked : LockedNetwork Client) (client : Client)
    (connection : Connection) (holder : Option StorageHolder) :
    LockedNetwork Client :=
  { locked with
    connections := Function.update locked.connections client connection
    inside := Function.update locked.inside client holder }

end LockedNetwork

inductive LockedLabel (Client : Type) where
  | step (label : Label Client)
  | acquire (client : Client) (op : StorageCall)
  | access (client : Client) (act : StorageAccess)
  | release (client : Client)

/-- One step: any step of the network that is not a storage call, or a step of
a storage call. -/
inductive LockedStep [DecidableEq Client] (server : Server json) :
    LockedNetwork Client → LockedLabel Client → LockedNetwork Client → Prop
  | step {locked : LockedNetwork Client} {label : Label Client}
      {after : Network Client} (hnot : ∀ client op, label ≠ .call client op)
      (hstep : Step server locked.network label after) :
      LockedStep server locked (.step label)
        { locked with connections := after.connections }
  | acquire {locked : LockedNetwork Client} {client : Client}
      {req : HttpRequest} {op : StorageCall}
      {next : op.Result → StorageProg (Except StdException HttpResponse)}
      (hsession : (locked.connections client).session = .busy req (.call op next))
      (houtside : locked.inside client = none)
      (hfree : InMemoryStorage.locked.Free locked.inside
        (InMemoryStorage.lockMode op)) :
      LockedStep server locked (.acquire client op)
        (locked.set client (locked.connections client)
          (some ⟨op, InMemoryStorage.code op⟩))
  | access {locked : LockedNetwork Client} {client : Client}
      {op : StorageCall} {act : StorageAccess}
      {code : act.Answer → StorageCode op.Result} {answer : act.Answer}
      {storage : InMemoryStorage}
      (hinside : locked.inside client = some ⟨op, .access act code⟩)
      (hperform : locked.storage.perform act = some (answer, storage)) :
      LockedStep server locked (.access client act)
        { locked.set client (locked.connections client)
            (some ⟨op, code answer⟩) with storage := storage }
  | release {locked : LockedNetwork Client} {client : Client}
      {req : HttpRequest} {op : StorageCall}
      {next : op.Result → StorageProg (Except StdException HttpResponse)}
      {ret : op.Result}
      (hsession : (locked.connections client).session = .busy req (.call op next))
      (hinside : locked.inside client = some ⟨op, .done ret⟩) :
      LockedStep server locked (.release client)
        (locked.set client { locked.connections client with
          session := .busy req (next ret) } none)

inductive LockedRun [DecidableEq Client] (server : Server json) :
    List (LockedLabel Client) → LockedNetwork Client → Prop
  | init : LockedRun server [] .init
  | step {labels : List (LockedLabel Client)}
      {locked after : LockedNetwork Client} {label : LockedLabel Client}
      (hrun : LockedRun server labels locked)
      (hstep : LockedStep server locked label after) :
      LockedRun server (labels ++ [label]) after

/-- The steps of a run when a storage call is one step, made when the mutex is
acquired. -/
def atomicLabels (labels : List (LockedLabel Client)) : List (Label Client) :=
  labels.filterMap fun
    | .step label => some label
    | .acquire client op => some (.call client op)
    | .access _ _ => none
    | .release _ => none

theorem atomicLabels_append (first second : List (LockedLabel Client)) :
    atomicLabels (first ++ second) =
      atomicLabels first ++ atomicLabels second :=
  List.filterMap_append

/-- A connection with a storage call of one step is the connection itself, or is
ahead of it by the call its session is in. -/
def Ahead (storage : InMemoryStorage) (connection ahead : Connection) :
    Option StorageHolder → Prop
  | none => ahead = connection
  | some holder => ∃ req next ret after,
      connection.session = .busy req (.call holder.1 next) ∧
        holder.2.run storageMemory storage = some (ret, after) ∧
        ahead = { connection with session := .busy req (next ret) }

/-- The network with storage calls of one step that a network with the mutex
simulates: every holder is past its call there. -/
structure Simulates (locked : LockedNetwork Client) (network : Network Client) :
    Prop where
  sound : InMemoryStorage.locked.Sound locked.inside locked.storage
    network.storage
  connections : ∀ client, Ahead locked.storage (locked.connections client)
    (network.connections client) (locked.inside client)

theorem simulates_init :
    Simulates (.init : LockedNetwork Client) (.init : Network Client) where
  sound := .nobody InMemoryStorage.locked .empty
  connections _ := rfl

/-- The session is at a storage call. -/
def Session.AtCall (session : Session) : Prop :=
  ∃ req op next, session = .busy req (.call op next)

theorem Session.not_atCall_of_idle {session : Session}
    (hsession : session = .idle) : ¬ session.AtCall := by
  intro hcall
  obtain ⟨req, op, next, hbusy⟩ := hcall
  simp [hsession] at hbusy

theorem Session.not_atCall_of_ret {session : Session} {req : HttpRequest}
    {reply : Except StdException HttpResponse}
    (hsession : session = .busy req (.ret reply)) : ¬ session.AtCall := by
  intro hcall
  obtain ⟨its, op, next, hbusy⟩ := hcall
  simp [hsession] at hbusy

section

variable {storage after : InMemoryStorage} {connection ahead : Connection}
  {holder : Option StorageHolder}

/-- A session that is at no storage call holds no mutex. -/
theorem Ahead.eq_of_session (hahead : Ahead storage connection ahead holder)
    (hsession : ¬ connection.session.AtCall) :
    holder = none ∧ ahead = connection := by
  cases holder with
  | none => exact ⟨rfl, hahead⟩
  | some holder =>
      obtain ⟨req, next, ret, after, hbusy, -, -⟩ := hahead
      exact absurd ⟨req, _, next, hbusy⟩ hsession

/-- What is in flight is the same, and changes in the same way. -/
theorem Ahead.update (hahead : Ahead storage connection ahead holder)
    (sent received : Nat) (requests : List HttpRequest)
    (responses : List HttpResponse) :
    Ahead storage
      ⟨sent, requests, connection.session, responses, received⟩
      ⟨sent, requests, ahead.session, responses, received⟩ holder := by
  cases holder with
  | none =>
      obtain rfl : ahead = connection := hahead
      rfl
  | some holder =>
      obtain ⟨req, next, ret, after, hbusy, hrun, rfl⟩ := hahead
      exact ⟨req, next, ret, after, hbusy, hrun, rfl⟩

theorem Ahead.eq_with_session (hahead : Ahead storage connection ahead holder) :
    ahead = { connection with session := ahead.session } := by
  cases holder with
  | none =>
      obtain rfl : ahead = connection := hahead
      rfl
  | some holder =>
      obtain ⟨req, next, ret, after, -, -, rfl⟩ := hahead
      rfl

end

section

variable [DecidableEq Client] {server : Server json}
  {locked : LockedNetwork Client} {network : Network Client} {client : Client}

/-- One client moves, with the storage and with its hold on the mutex. -/
theorem Simulates.set (hsimulates : Simulates locked network)
    {connection ahead : Connection} {holder : Option StorageHolder}
    {storage whole : InMemoryStorage}
    (hsound : InMemoryStorage.locked.Sound
      (Function.update locked.inside client holder) storage whole)
    (hahead : Ahead storage connection ahead holder)
    (hkeep : ∀ other, other ≠ client → locked.inside other ≠ none →
      storage = locked.storage) :
    Simulates { locked.set client connection holder with storage := storage }
      ({ network with storage := whole }.set client ahead) where
  sound := hsound
  connections other := by
    by_cases heq : other = client
    · subst heq
      simpa [LockedNetwork.set, Network.set] using hahead
    · have hother := hsimulates.connections other
      simp only [LockedNetwork.set, Network.set, Function.update_of_ne heq]
      cases hinside : locked.inside other with
      | none =>
          rw [hinside] at hother
          exact hother
      | some its =>
          rw [hinside] at hother
          rw [hkeep other heq (by simp [hinside])]
          exact hother

/-- One client moves and keeps its hold on the mutex. -/
theorem Simulates.setConnection (hsimulates : Simulates locked network)
    {connection ahead : Connection}
    (hahead : Ahead locked.storage connection ahead (locked.inside client)) :
    Simulates { locked with
      connections := Function.update locked.connections client connection }
      (network.set client ahead) := by
  have hset : Simulates
      { locked.set client connection (locked.inside client) with
        storage := locked.storage }
      ({ network with storage := network.storage }.set client ahead) := by
    apply hsimulates.set
    · rw [Function.update_eq_self]
      exact hsimulates.sound
    · exact hahead
    · intro other _ _
      rfl
  simpa [LockedNetwork.set] using hset

/-- A client that is at no storage call moves as it does with storage calls of
one step. -/
theorem Simulates.same (hsimulates : Simulates locked network)
    (hsession : ¬ (locked.connections client).session.AtCall) :
    network.connections client = locked.connections client ∧
      ∀ connection, Simulates { locked with
        connections := Function.update locked.connections client connection }
        (network.set client connection) := by
  obtain ⟨houtside, hsame⟩ :=
    (hsimulates.connections client).eq_of_session hsession
  refine ⟨hsame, fun connection => hsimulates.setConnection ?_⟩
  rw [houtside]
  rfl

/-- A client takes its next response, wherever its session is. -/
theorem Simulates.deliver (hsimulates : Simulates locked network)
    {response : HttpResponse} {rest : List HttpResponse}
    (hresponses : (locked.connections client).responses = response :: rest) :
    ∃ network', Step server network
        (.deliver (client, (locked.connections client).received) response)
        network' ∧
      Simulates { locked with
        connections := Function.update locked.connections client
          { locked.connections client with
            responses := rest
            received := (locked.connections client).received + 1 } }
        network' := by
  have hahead := hsimulates.connections client
  have heq := hahead.eq_with_session
  have hstep : Step server network (.deliver (client, _) response) _ :=
    .deliver ((congrArg Connection.responses heq).trans hresponses)
  rw [heq] at hstep
  exact ⟨_, hstep, hsimulates.setConnection (hahead.update _ _ _ _)⟩

/-- A step that is no storage call is the same step with storage calls of one
step. -/
theorem Simulates.step (hsimulates : Simulates locked network)
    {label : Label Client} {after : Network Client}
    (hnot : ∀ client op, label ≠ .call client op)
    (hstep : Step server locked.network label after) :
    ∃ network', Step server network label network' ∧
      Simulates { locked with connections := after.connections } network' := by
  cases hstep with
  | send client req =>
      have hahead := hsimulates.connections client
      have heq := hahead.eq_with_session
      have hstep : Step server network (.send (client, _) req) _ :=
        .send network client req
      rw [heq] at hstep
      exact ⟨_, hstep, hsimulates.setConnection (hahead.update _ _ _ _)⟩
  | call hsession => exact absurd rfl (hnot _ _)
  | read hsession hrequests =>
      obtain ⟨hsame, hmoved⟩ :=
        hsimulates.same (Session.not_atCall_of_idle hsession)
      have hstep : Step server network (.read _) _ :=
        .read ((congrArg Connection.session hsame).trans hsession)
          ((congrArg Connection.requests hsame).trans hrequests)
      rw [hsame] at hstep
      exact ⟨_, hstep, hmoved _⟩
  | write hsession =>
      obtain ⟨hsame, hmoved⟩ :=
        hsimulates.same (Session.not_atCall_of_ret hsession)
      have hstep : Step server network (.write _) _ :=
        .write ((congrArg Connection.session hsame).trans hsession)
      rw [hsame] at hstep
      exact ⟨_, hstep, hmoved _⟩
  | fail hsession =>
      obtain ⟨hsame, hmoved⟩ :=
        hsimulates.same (Session.not_atCall_of_ret hsession)
      have hstep : Step server network (.fail _) _ :=
        .fail ((congrArg Connection.session hsame).trans hsession)
      rw [hsame] at hstep
      exact ⟨_, hstep, hmoved _⟩
  | deliver hresponses => exact hsimulates.deliver hresponses

/-- The mutex is acquired: with storage calls of one step, the call is made. -/
theorem Simulates.acquire (hsimulates : Simulates locked network)
    {req : HttpRequest} {op : StorageCall}
    {next : op.Result → StorageProg (Except StdException HttpResponse)}
    (hsession : (locked.connections client).session = .busy req (.call op next))
    (houtside : locked.inside client = none)
    (hfree : InMemoryStorage.locked.Free locked.inside
      (InMemoryStorage.lockMode op)) :
    ∃ network', Step server network (.call client op) network' ∧
      Simulates (locked.set client (locked.connections client)
        (some ⟨op, InMemoryStorage.code op⟩)) network' := by
  have hahead := hsimulates.connections client
  rw [houtside] at hahead
  have hsame : network.connections client = locked.connections client := hahead
  have hwhole := hsimulates.sound.eq_of_free hfree
  have hstep : Step server network (.call client op) _ :=
    .call ((congrArg Connection.session hsame).trans hsession)
  rw [hsame] at hstep
  refine ⟨_, hstep, ?_⟩
  have hset : Simulates
      { locked.set client (locked.connections client)
          (some ⟨op, InMemoryStorage.code op⟩) with storage := locked.storage }
      ({ network with storage := (network.storage.exec op).2 }.set client
        { locked.connections client with
          session := .busy req (next (network.storage.exec op).1) }) := by
    apply hsimulates.set
    · exact hsimulates.sound.acquire client op hfree
    · rw [hwhole]
      exact ⟨req, next, _, _, hsession, InMemoryStorage.run_code op _, rfl⟩
    · intro other _ _
      rfl
  exact hset

/-- An access is made: with storage calls of one step, it was made before. -/
theorem Simulates.access (hsimulates : Simulates locked network)
    {op : StorageCall} {act : StorageAccess}
    {code : act.Answer → StorageCode op.Result} {answer : act.Answer}
    {storage : InMemoryStorage}
    (hinside : locked.inside client = some ⟨op, .access act code⟩)
    (hperform : locked.storage.perform act = some (answer, storage)) :
    Simulates { locked.set client (locked.connections client)
      (some ⟨op, code answer⟩) with storage := storage } network := by
  have hahead := hsimulates.connections client
  rw [hinside] at hahead
  obtain ⟨req, next, ret, after, hbusy, hrun, hsame⟩ := hahead
  have hset : Simulates
      { locked.set client (locked.connections client)
          (some ⟨op, code answer⟩) with storage := storage }
      ({ network with storage := network.storage }.set client
        (network.connections client)) := by
    apply hsimulates.set
    · obtain ⟨its, other, hits, hsound⟩ := hsimulates.sound.access hinside
      obtain ⟨rfl, rfl⟩ := Prod.mk.inj
        (Option.some.inj (hperform.symm.trans hits))
      exact hsound
    · refine ⟨req, next, ret, after, hbusy, ?_, hsame⟩
      rw [← hrun]
      exact (Code.run_access hperform).symm
    · intro other hne hother
      exact hsimulates.sound.keeps hinside hne hother hperform
  rw [Network.set, Function.update_eq_self] at hset
  exact hset

/-- The mutex is released: the two networks agree about the client. -/
theorem Simulates.release (hsimulates : Simulates locked network)
    {req : HttpRequest} {op : StorageCall}
    {next : op.Result → StorageProg (Except StdException HttpResponse)}
    {ret : op.Result}
    (hsession : (locked.connections client).session = .busy req (.call op next))
    (hinside : locked.inside client = some ⟨op, .done ret⟩) :
    Simulates (locked.set client { locked.connections client with
      session := .busy req (next ret) } none) network := by
  have hahead := hsimulates.connections client
  rw [hinside] at hahead
  obtain ⟨its, more, result, after, hbusy, hrun, hsame⟩ := hahead
  obtain ⟨rfl, hprogram⟩ := Session.busy.inj (hsession.symm.trans hbusy)
  obtain ⟨-, hnext⟩ := StorageProg.call.inj hprogram
  obtain rfl := eq_of_heq hnext
  obtain ⟨rfl, -⟩ := Prod.mk.inj (Option.some.inj hrun)
  have hset : Simulates
      { locked.set client { locked.connections client with
          session := .busy req (next ret) } none with
        storage := locked.storage }
      ({ network with storage := network.storage }.set client
        (network.connections client)) := by
    apply hsimulates.set
    · exact hsimulates.sound.release hinside
    · exact hsame
    · intro other _ _
      rfl
  rw [Network.set, Function.update_eq_self] at hset
  exact hset

/-- Every run with the mutex is a run with storage calls of one step. -/
theorem LockedRun.atomic {labels : List (LockedLabel Client)}
    (hrun : LockedRun server labels locked) :
    ∃ network, Run server (atomicLabels labels) network ∧
      Simulates locked network := by
  induction hrun with
  | init => exact ⟨.init, .init, simulates_init⟩
  | step hrun hstep ih =>
      obtain ⟨network, hatomic, hsimulates⟩ := ih
      rw [atomicLabels_append]
      cases hstep with
      | step hnot hstep =>
          obtain ⟨after, htaken, hafter⟩ := hsimulates.step hnot hstep
          exact ⟨after, hatomic.step htaken, hafter⟩
      | acquire hsession houtside hfree =>
          obtain ⟨after, htaken, hafter⟩ :=
            hsimulates.acquire hsession houtside hfree
          exact ⟨after, hatomic.step htaken, hafter⟩
      | access hinside hperform =>
          have hafter := hsimulates.access hinside hperform
          exact ⟨network, by simpa [atomicLabels] using hatomic, hafter⟩
      | release hsession hinside =>
          have hafter := hsimulates.release hsession hinside
          exact ⟨network, by simpa [atomicLabels] using hatomic, hafter⟩

end

/-- What the clients see of a run. -/
def lockedHistory (labels : List (LockedLabel Client)) :
    List (TaskEvent Client) :=
  labels.filterMap fun
    | .step (.send id req) => some (.invoke id req)
    | .step (.deliver id response) => some (.respond id (.ok response))
    | _ => none

/-- The storage calls of a run, in the order in which they acquired the
mutex. -/
def acquiredCalls (labels : List (LockedLabel Client)) : List StorageCall :=
  labels.filterMap fun
    | .acquire _ op => some op
    | _ => none

theorem historyOf_atomicLabels (labels : List (LockedLabel Client)) :
    historyOf (atomicLabels labels) = lockedHistory labels := by
  rw [historyOf, atomicLabels, List.filterMap_filterMap]
  apply congrArg (List.filterMap · labels)
  funext label
  cases label with
  | step label => cases label <;> rfl
  | acquire client op => rfl
  | access client act => rfl
  | release client => rfl

theorem acquiredCalls_append (first second : List (LockedLabel Client)) :
    acquiredCalls (first ++ second) =
      acquiredCalls first ++ acquiredCalls second :=
  List.filterMap_append

theorem storageCalls_of_not_call {label : Label Client}
    (hnot : ∀ client op, label ≠ .call client op) :
    storageCalls [label] = [] := by
  cases label with
  | call client op => exact absurd rfl (hnot client op)
  | send id req => rfl
  | read client => rfl
  | write client => rfl
  | fail client => rfl
  | deliver id response => rfl

section

variable [DecidableEq Client] {server : Server json}
  {labels : List (LockedLabel Client)} {locked : LockedNetwork Client}

theorem LockedRun.storageCalls_eq (hrun : LockedRun server labels locked) :
    storageCalls (atomicLabels labels) = acquiredCalls labels := by
  induction hrun with
  | init => rfl
  | step hrun hstep ih =>
      rw [atomicLabels_append, storageCalls_append, ih, acquiredCalls_append]
      apply congrArg
      cases hstep with
      | step hnot hstep => exact storageCalls_of_not_call hnot
      | acquire hsession houtside hfree => rfl
      | access hinside hperform => rfl
      | release hsession hinside => rfl

/-- One client posts a task and has its response, while another one is inside
`GetTask` for it. -/
def postedInside : List (LockedLabel Bool) :=
  [.step (.send (false, 0) postWithQuery), .step (.send (true, 0) getWithQuery),
    .step (.read false), .step (.read true),
    .acquire false (.createTask ⟨['a'], ['b']⟩), .access false .readId,
    .access false (.writeId 1), .access false (.pushBack ⟨0, ⟨['a'], ['b']⟩⟩),
    .access false .readSize, .access false (.readTask 0), .release false,
    .acquire true (.getTask 0), .step (.write false),
    .step (.deliver (false, 0) firstTaskResponse)]

theorem postedInside_run :
    ∃ locked, LockedRun (Server.start taskJson) postedInside locked := by
  have hposts : Posts taskJson ⟨['a'], ['b']⟩ postWithQuery :=
    ⟨⟨rfl, rfl, rfl⟩, by decide, by decide⟩
  have hjson : InJson getWithQuery .get := ⟨rfl, rfl, rfl⟩
  have hpost := (Server.start taskJson).replyProgram_eq postWithQuery
  rw [hposts.httpCall_eq taskJson_lawful] at hpost
  have hget := (Server.start taskJson).replyProgram_eq getWithQuery
  have htarget : IsTaskTarget 0 getWithQuery.target :=
    ⟨"?id=7".toList, Or.inr rfl, rfl⟩
  rw [hjson.httpCall_getTask htarget (by decide)] at hget
  have hsent : LockedRun (Server.start taskJson) (postedInside.take 2) _ :=
    (LockedRun.init.step (.step (by simp) (.send _ false postWithQuery))).step
      (.step (by simp) (.send _ true getWithQuery))
  have hreadPost : LockedRun (Server.start taskJson) (postedInside.take 3) _ :=
    hsent.step (.step (by simp) (.read rfl rfl))
  have hread : LockedRun (Server.start taskJson) (postedInside.take 4) _ :=
    hreadPost.step (.step (by simp) (.read rfl rfl))
  have hacquired : LockedRun (Server.start taskJson) (postedInside.take 5) _ :=
    hread.step (.acquire (congrArg (Session.busy _) hpost) rfl fun _ => rfl)
  have hid : LockedRun (Server.start taskJson) (postedInside.take 6) _ :=
    hacquired.step (.access rfl rfl)
  have hissued : LockedRun (Server.start taskJson) (postedInside.take 7) _ :=
    hid.step (.access rfl rfl)
  have hpushed : LockedRun (Server.start taskJson) (postedInside.take 8) _ :=
    hissued.step (.access rfl rfl)
  have hsized : LockedRun (Server.start taskJson) (postedInside.take 9) _ :=
    hpushed.step (.access rfl rfl)
  have hdone : LockedRun (Server.start taskJson) (postedInside.take 10) _ :=
    hsized.step (.access rfl rfl)
  have hreleased : LockedRun (Server.start taskJson) (postedInside.take 11) _ :=
    hdone.step (.release (congrArg (Session.busy _) hpost) rfl)
  have hinside : LockedRun (Server.start taskJson) (postedInside.take 12) _ :=
    hreleased.step (.acquire (congrArg (Session.busy _) hget) rfl
      fun client => by cases client <;> rfl)
  have hwritten : LockedRun (Server.start taskJson) (postedInside.take 13) _ :=
    hinside.step (.step (by simp) (.write rfl))
  exact ⟨_, hwritten.step (.step (by simp) (.deliver rfl))⟩

/-- To the clients the server with its mutex is the server with storage calls of
one step: some run of that has the same history, makes the calls in the order
in which the mutex was acquired, agrees about every session that does not hold
it, and about the storage when no session does. -/
theorem locked_server_refines (hrun : LockedRun server labels locked) :
    ∃ steps network, Run server steps network ∧
      historyOf steps = lockedHistory labels ∧
      storageCalls steps = acquiredCalls labels ∧
      (∀ client, locked.inside client = none →
        network.connections client = locked.connections client) ∧
      ((∀ client, locked.inside client = none) →
        network.storage = locked.storage) := by
  obtain ⟨network, hatomic, hsimulates⟩ := hrun.atomic
  refine ⟨atomicLabels labels, network, hatomic, historyOf_atomicLabels labels,
    hrun.storageCalls_eq, ?_, hsimulates.sound.quiet⟩
  intro client houtside
  have hahead := hsimulates.connections client
  rw [houtside] at hahead
  exact hahead

theorem locked_server_refines_post :
    ∃ locked, LockedRun (Server.start taskJson) postedInside locked ∧
      ∃ steps network, Run (Server.start taskJson) steps network ∧
        historyOf steps = lockedHistory postedInside ∧
        storageCalls steps = acquiredCalls postedInside ∧
        (∀ client, locked.inside client = none →
          network.connections client = locked.connections client) ∧
        ((∀ client, locked.inside client = none) →
          network.storage = locked.storage) := by
  obtain ⟨locked, hrun⟩ := postedInside_run
  exact ⟨locked, hrun, locked_server_refines hrun⟩

/-- The server with its mutex is linearizable to the task store, in every run
that leaves ids. -/
theorem locked_server_linearizable (hrun : LockedRun server labels locked)
    (hroom : (creations (acquiredCalls labels)).length < sizeLimit) :
    ∃ order, (taskStore json server.prepare).Linearizes (lockedHistory labels)
      order := by
  obtain ⟨network, hatomic, -⟩ := hrun.atomic
  rw [← hrun.storageCalls_eq] at hroom
  obtain ⟨order, hexplained⟩ := hatomic.explained hroom
  refine ⟨order, ?_⟩
  rw [← historyOf_atomicLabels]
  exact hexplained.linearizes

theorem locked_server_linearizable_post :
    ∃ order, (taskStore taskJson .beast).Linearizes (lockedHistory postedInside)
      order := by
  obtain ⟨locked, hrun⟩ := postedInside_run
  exact locked_server_linearizable hrun (by decide)

end

end Backend

end JustQueueIt
