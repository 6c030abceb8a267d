/-
The server comes to rest.  Without new requests every run ends, whatever the
order of the steps; where no step is left, all responses have been delivered,
and a connection that is still open has an answer to each of its requests.
-/
import JustQueueIt.LockedServer
import JustQueueIt.MutexProgress

namespace JustQueueIt

namespace Backend

open Rest SharedMutex

variable {json : Json} {Client : Type}

/-- A session makes at most one storage call for a request. -/
def Session.OneCall : Session → Prop
  | .busy _ (.call _ next) => ∀ ret, ∃ reply, next ret = .ret reply
  | _ => True

/-- Whether a session has a request that is neither unread nor answered. -/
def Session.inHand : Session → Nat
  | .busy _ _ => 1
  | _ => 0

/-- A connection that is open has every request somewhere. -/
structure Connection.Kept (connection : Connection) : Prop where
  oneCall : connection.session.OneCall
  count : connection.session ≠ .closed →
    connection.received + connection.responses.length +
      connection.session.inHand + connection.requests.length = connection.sent

theorem Connection.kept_opened : Connection.opened.Kept :=
  ⟨trivial, fun _ => rfl⟩

theorem Server.replyProgram_oneCall (server : Server json) (req : HttpRequest) :
    (Session.busy req (server.replyProgram req)).OneCall := by
  rw [server.replyProgram_eq]
  cases httpCall json req with
  | error response => trivial
  | ok asked => exact fun ret => ⟨_, rfl⟩

section

variable {connection : Connection} {req : HttpRequest}

theorem Connection.Kept.send (hkept : connection.Kept) (req : HttpRequest) :
    { connection with
      sent := connection.sent + 1
      requests := connection.requests ++ [req] }.Kept where
  oneCall := hkept.oneCall
  count hopen := by
    have hcount := hkept.count hopen
    simp only [List.length_append, List.length_singleton]
    omega

theorem Connection.Kept.read (hkept : connection.Kept)
    {rest : List HttpRequest} (hsession : connection.session = .idle)
    (hrequests : connection.requests = req :: rest) (server : Server json) :
    { connection with
      requests := rest
      session := .busy req (server.replyProgram req) }.Kept where
  oneCall := server.replyProgram_oneCall req
  count _ := by
    have hcount := hkept.count (by simp [hsession])
    rw [hsession, hrequests, List.length_cons] at hcount
    simp only [Session.inHand] at hcount ⊢
    omega

theorem Connection.Kept.resume (hkept : connection.Kept) {op : StorageCall}
    {next : op.Result → StorageProg (Except StdException HttpResponse)}
    (hsession : connection.session = .busy req (.call op next))
    (ret : op.Result) :
    { connection with session := .busy req (next ret) }.Kept where
  oneCall := by
    have hone := hkept.oneCall
    rw [hsession] at hone
    obtain ⟨reply, hreply⟩ := hone ret
    rw [hreply]
    trivial
  count _ := by
    have hcount := hkept.count (by simp [hsession])
    rwa [hsession] at hcount

theorem Connection.Kept.write (hkept : connection.Kept)
    {response : HttpResponse}
    (hsession : connection.session = .busy req (.ret (.ok response))) :
    { connection with
      session := if req.keepAlive then .idle else .closed
      responses := connection.responses ++ [response] }.Kept := by
  have hcount := hkept.count (by simp [hsession])
  simp only [hsession, Session.inHand] at hcount
  constructor
  · by_cases halive : req.keepAlive = true
    · simp [halive, Session.OneCall]
    · simp [halive, Session.OneCall]
  · intro hopen
    by_cases halive : req.keepAlive = true
    · simp only [halive, ↓reduceIte, Session.inHand, List.length_append,
        List.length_singleton]
      omega
    · simp [halive] at hopen

theorem Connection.kept_closed (connection : Connection) :
    { connection with session := .closed }.Kept where
  oneCall := trivial
  count hopen := absurd rfl hopen

theorem Connection.Kept.deliver (hkept : connection.Kept)
    {response : HttpResponse} {rest : List HttpResponse}
    (hresponses : connection.responses = response :: rest) :
    { connection with
      responses := rest
      received := connection.received + 1 }.Kept where
  oneCall := hkept.oneCall
  count hopen := by
    have hcount := hkept.count hopen
    rw [hresponses, List.length_cons] at hcount
    change connection.received + 1 + rest.length + connection.session.inHand +
      connection.requests.length = connection.sent
    omega

end

section

variable [DecidableEq Client] {server : Server json}
  {labels : List (LockedLabel Client)} {locked after : LockedNetwork Client}
  {label : LockedLabel Client}

theorem kept_update {connections : Client → Connection}
    (hkept : ∀ client, (connections client).Kept) {client : Client}
    {connection : Connection} (hown : connection.Kept) (other : Client) :
    (Function.update connections client connection other).Kept := by
  by_cases heq : other = client
  · subst heq
    simpa using hown
  · simpa [heq] using hkept other

theorem LockedStep.kept (hstep : LockedStep server locked label after)
    (hkept : ∀ client, (locked.connections client).Kept) :
    ∀ client, (after.connections client).Kept := by
  cases hstep with
  | step hnot hstep =>
      cases hstep with
      | send client req => exact kept_update hkept ((hkept client).send req)
      | read hsession hrequests =>
          exact kept_update hkept ((hkept _).read hsession hrequests server)
      | call hsession => exact absurd rfl (hnot _ _)
      | write hsession => exact kept_update hkept ((hkept _).write hsession)
      | fail hsession => exact kept_update hkept (Connection.kept_closed _)
      | deliver hresponses =>
          exact kept_update hkept ((hkept _).deliver hresponses)
  | acquire hsession houtside hfree => exact kept_update hkept (hkept _)
  | access hinside hperform => exact kept_update hkept (hkept _)
  | release hsession hinside =>
      exact kept_update hkept ((hkept _).resume hsession _)

/-- In every run each open connection has every request somewhere. -/
theorem LockedRun.kept (hrun : LockedRun server labels locked) :
    ∀ client, (locked.connections client).Kept := by
  induction hrun with
  | init => exact fun _ => Connection.kept_opened
  | step hrun hstep ih => exact hstep.kept ih

end

/-- What is left to do for the request in hand. -/
def Session.load (holder : Option StorageHolder) : Session → Nat
  | .busy _ (.call _ _) => if holder = none then 4 else 3
  | .busy _ (.ret _) => 2
  | _ => 0

theorem Session.load_le (holder : Option StorageHolder) (session : Session) :
    session.load holder ≤ 4 := by
  unfold Session.load
  split
  · split <;> omega
  · omega
  · omega

/-- A connection, with its session's hold on the mutex. -/
abbrev Seat := Connection × Option StorageHolder

/-- Five for an unread request: it is read, may wait for the mutex and hold it,
is answered, and its response delivered. -/
def Seat.load (seat : Seat) : Nat :=
  5 * seat.1.requests.length + seat.1.session.load seat.2 +
    seat.1.responses.length

def Seat.accesses (storage : InMemoryStorage) (seat : Seat) : Nat :=
  match seat.2 with
  | none => 0
  | some holder => holder.2.steps storageMemory storage

section

variable {connection : Connection} {holder : Option StorageHolder}
  {req : HttpRequest}

theorem Seat.load_read {rest : List HttpRequest}
    (hsession : connection.session = .idle)
    (hrequests : connection.requests = req :: rest) (session : Session) :
    Seat.load ({ connection with requests := rest, session := session },
      holder) < Seat.load (connection, holder) := by
  have hle := session.load_le holder
  simp only [Seat.load, hsession, hrequests, List.length_cons]
  omega

theorem Seat.load_write {response : HttpResponse}
    {reply : Except StdException HttpResponse}
    (hsession : connection.session = .busy req (.ret reply)) (alive : Bool) :
    Seat.load ({ connection with
      session := if alive then .idle else .closed
      responses := connection.responses ++ [response] }, holder) <
        Seat.load (connection, holder) := by
  have hbusy : (Session.busy req (.ret reply)).load holder = 2 := rfl
  have hzero : (if alive then Session.idle else .closed).load holder = 0 := by
    cases alive <;> rfl
  simp only [Seat.load, hsession, hbusy, hzero, List.length_append,
    List.length_singleton]
  omega

theorem Seat.load_fail {reply : Except StdException HttpResponse}
    (hsession : connection.session = .busy req (.ret reply)) :
    Seat.load ({ connection with session := .closed }, holder) <
      Seat.load (connection, holder) := by
  simp only [Seat.load, hsession, Session.load]
  omega

theorem Seat.load_deliver {response : HttpResponse}
    {rest : List HttpResponse}
    (hresponses : connection.responses = response :: rest) (received : Nat) :
    Seat.load ({ connection with responses := rest, received := received },
      holder) < Seat.load (connection, holder) := by
  simp only [Seat.load, hresponses, List.length_cons]
  omega

theorem Seat.load_acquire {op : StorageCall}
    {next : op.Result → StorageProg (Except StdException HttpResponse)}
    (hsession : connection.session = .busy req (.call op next))
    (its : StorageHolder) :
    Seat.load (connection, some its) < Seat.load (connection, none) := by
  simp [Seat.load, hsession, Session.load]

theorem Seat.load_release (hone : connection.session.OneCall)
    {op : StorageCall}
    {next : op.Result → StorageProg (Except StdException HttpResponse)}
    (hsession : connection.session = .busy req (.call op next))
    (ret : op.Result) (its : StorageHolder) :
    Seat.load ({ connection with session := .busy req (next ret) }, none) <
      Seat.load (connection, some its) := by
  rw [hsession] at hone
  obtain ⟨reply, hreply⟩ := hone ret
  simp [Seat.load, hsession, hreply, Session.load]

end

def LockedNetwork.seats (locked : LockedNetwork Client) (client : Client) :
    Seat :=
  (locked.connections client, locked.inside client)

theorem LockedNetwork.seats_set [DecidableEq Client]
    (locked : LockedNetwork Client) (client : Client) (connection : Connection)
    (holder : Option StorageHolder) :
    (locked.set client connection holder).seats =
      Function.update locked.seats client (connection, holder) := by
  funext other
  by_cases heq : other = client
  · subst heq
    simp [seats, set]
  · simp [seats, set, heq]

section

variable [DecidableEq Client] [Fintype Client] {server : Server json}
  {labels : List (LockedLabel Client)} {locked after : LockedNetwork Client}
  {client : Client}

def LockedNetwork.measure (locked : LockedNetwork Client) : Nat × Nat :=
  (∑ client, (locked.seats client).load,
    ∑ client, (locked.seats client).accesses locked.storage)

/-- One step that is not a new request. -/
def LockedNetwork.Advances (server : Server json)
    (after locked : LockedNetwork Client) : Prop :=
  ∃ label, (∀ id req, label ≠ .step (.send id req)) ∧
    LockedStep server locked label after

/-- One connection has less to do. -/
theorem LockedNetwork.measure_lt {connection : Connection}
    {holder : Option StorageHolder}
    (hload : Seat.load (connection, holder) < (locked.seats client).load) :
    Prod.Lex (· < ·) (· < ·) (locked.set client connection holder).measure
      locked.measure := by
  apply Prod.Lex.left
  rw [locked.seats_set]
  apply sum_update_lt _ _ _ hload
  intro other _
  exact Nat.le_refl _

theorem LockedNetwork.measure_lt_connection {connection : Connection}
    (hload : Seat.load (connection, locked.inside client) <
      (locked.seats client).load) :
    Prod.Lex (· < ·) (· < ·)
      ({ locked with
        connections := Function.update locked.connections client connection
        : LockedNetwork Client }).measure
      locked.measure := by
  have hlt := LockedNetwork.measure_lt hload
  rw [LockedNetwork.set, Function.update_eq_self] at hlt
  exact hlt

/-- A step that is neither a request nor a storage call. -/
theorem Step.measure_lt {label : Label Client} {after : Network Client}
    (hsend : ∀ id req, label ≠ .send id req)
    (hcall : ∀ client op, label ≠ .call client op)
    (hstep : Step server locked.network label after) :
    Prod.Lex (· < ·) (· < ·)
      ({ locked with connections := after.connections
        : LockedNetwork Client }).measure locked.measure := by
  cases hstep with
  | send client req => exact absurd rfl (hsend _ _)
  | call hsession => exact absurd rfl (hcall _ _)
  | read hsession hrequests =>
      exact LockedNetwork.measure_lt_connection
        (Seat.load_read hsession hrequests _)
  | write hsession =>
      exact LockedNetwork.measure_lt_connection (Seat.load_write hsession _)
  | fail hsession =>
      exact LockedNetwork.measure_lt_connection (Seat.load_fail hsession)
  | deliver hresponses =>
      exact LockedNetwork.measure_lt_connection
        (Seat.load_deliver hresponses _)

/-- An access leaves the holder less to do, and the others what they have. -/
theorem Simulates.measure_lt {network : Network Client}
    (hsimulates : Simulates locked network) {op : StorageCall}
    {act : StorageAccess} {code : act.Answer → StorageCode op.Result}
    {answer : act.Answer} {storage : InMemoryStorage}
    (hinside : locked.inside client = some ⟨op, .access act code⟩)
    (hperform : locked.storage.perform act = some (answer, storage)) :
    Prod.Lex (· < ·) (· < ·)
      ({ locked.set client (locked.connections client)
          (some ⟨op, code answer⟩) with storage := storage }).measure
      locked.measure := by
  apply Prod.Lex.right'
  · apply Nat.le_of_eq
    change ∑ other, ((locked.set client _ _).seats other).load = _
    rw [locked.seats_set]
    apply sum_update_eq
    simp [Seat.load, LockedNetwork.seats, hinside, Session.load]
  · change ∑ other, ((locked.set client _ _).seats other).accesses storage < _
    rw [locked.seats_set]
    have hsteps : (Code.access act code).steps storageMemory locked.storage =
        (code answer).steps storageMemory storage + 1 :=
      Code.steps_access hperform
    apply sum_update_lt _ _ _
    · simp [Seat.accesses, LockedNetwork.seats, hinside, hsteps]
    · intro other hne
      cases hother : locked.inside other with
      | none => simp [Seat.accesses, LockedNetwork.seats, hother]
      | some its =>
          have hkept := hsimulates.sound.keeps hinside hne (by simp [hother])
            hperform
          rw [hkept]

theorem LockedRun.measure_lt (hrun : LockedRun server labels locked)
    (hadvances : LockedNetwork.Advances server after locked) :
    Prod.Lex (· < ·) (· < ·) after.measure locked.measure := by
  obtain ⟨label, hnot, hstep⟩ := hadvances
  obtain ⟨network, -, hsimulates⟩ := hrun.atomic
  cases hstep with
  | step hcall hstep =>
      apply hstep.measure_lt _ hcall
      intro id req heq
      exact hnot id req (congrArg LockedLabel.step heq)
  | acquire hsession houtside hfree =>
      apply LockedNetwork.measure_lt
      rw [LockedNetwork.seats, houtside]
      exact Seat.load_acquire hsession _
  | access hinside hperform => exact hsimulates.measure_lt hinside hperform
  | release hsession hinside =>
      apply LockedNetwork.measure_lt
      rw [LockedNetwork.seats, hinside]
      exact Seat.load_release (hrun.kept _).oneCall hsession _ _

/-- Without new requests the steps come to an end, in any order. -/
theorem LockedRun.terminates (hrun : LockedRun server labels locked) :
    Acc (LockedNetwork.Advances server) locked := by
  have hwf := WellFounded.prod_lex Nat.lt_wfRel.wf Nat.lt_wfRel.wf
  generalize hmeasure : locked.measure = bound
  induction bound using hwf.induction generalizing locked labels with
  | _ bound ih =>
      constructor
      intro after hadvances
      have hlt := hrun.measure_lt hadvances
      rw [hmeasure] at hlt
      obtain ⟨label, -, hstep⟩ := hadvances
      exact ih _ hlt (hrun.step hstep) rfl

end

section

variable [DecidableEq Client] {server : Server json}
  {labels : List (LockedLabel Client)} {locked : LockedNetwork Client}

/-- Where no step is left, no session holds the mutex. -/
theorem LockedRun.outside_of_stuck (hrun : LockedRun server labels locked)
    (hstuck : ∀ after, ¬ LockedNetwork.Advances server after locked)
    (client : Client) : locked.inside client = none := by
  obtain ⟨network, -, hsimulates⟩ := hrun.atomic
  have hahead := hsimulates.connections client
  cases hinside : locked.inside client with
  | none => rfl
  | some holder =>
      rw [hinside] at hahead
      obtain ⟨op, code⟩ := holder
      obtain ⟨req, next, ret, after, hsession, -, -⟩ := hahead
      cases code with
      | done its =>
          exact absurd ⟨_, by simp, .release hsession hinside⟩ (hstuck _)
      | access act code =>
          obtain ⟨answer, storage, hperform, -⟩ :=
            hsimulates.sound.access hinside
          exact absurd ⟨_, by simp, .access hinside hperform⟩ (hstuck _)

/-- Where no step is left, every response was delivered, and every session is
over or has answered all it was sent. -/
theorem LockedRun.rest_of_stuck (hrun : LockedRun server labels locked)
    (hstuck : ∀ after, ¬ LockedNetwork.Advances server after locked)
    (client : Client) :
    (locked.connections client).responses = [] ∧
      ((locked.connections client).session = .closed ∨
        (locked.connections client).session = .idle ∧
          (locked.connections client).received =
            (locked.connections client).sent) := by
  have hnobody := hrun.outside_of_stuck hstuck
  have hdelivered : (locked.connections client).responses = [] := by
    cases hresponses : (locked.connections client).responses with
    | nil => rfl
    | cons response rest =>
        exact absurd ⟨_, by simp, .step (by simp) (.deliver hresponses)⟩
          (hstuck _)
  refine ⟨hdelivered, ?_⟩
  have hkept := hrun.kept client
  cases hsession : (locked.connections client).session with
  | closed => exact Or.inl rfl
  | idle =>
      have hcount := hkept.count (by simp [hsession])
      cases hrequests : (locked.connections client).requests with
      | nil =>
          rw [hsession, hdelivered, hrequests] at hcount
          exact Or.inr ⟨rfl, hcount⟩
      | cons req rest =>
          exact absurd
            ⟨_, by simp, .step (by simp) (.read hsession hrequests)⟩ (hstuck _)
  | busy req program =>
      cases program with
      | call op next =>
          have hfree := InMemoryStorage.locked.free_of_nobody hnobody
          exact absurd
            ⟨_, by simp, .acquire hsession (hnobody client) (hfree _)⟩
            (hstuck _)
      | ret reply =>
          cases reply with
          | ok response =>
              exact absurd ⟨_, by simp, .step (by simp) (.write hsession)⟩
                (hstuck _)
          | error e =>
              exact absurd ⟨_, by simp, .step (by simp) (.fail hsession)⟩
                (hstuck _)

end

/-- The server comes to rest: without new requests every run ends, and where it
ends each client has all responses, one for each request unless its session is
over. -/
theorem locked_server_comes_to_rest [DecidableEq Client] [Fintype Client]
    {server : Server json} {labels : List (LockedLabel Client)}
    {locked : LockedNetwork Client} (hrun : LockedRun server labels locked) :
    Acc (LockedNetwork.Advances server) locked ∧
      ((∀ after, ¬ LockedNetwork.Advances server after locked) →
        ∀ client, (locked.connections client).responses = [] ∧
          ((locked.connections client).session = .closed ∨
            (locked.connections client).session = .idle ∧
              (locked.connections client).received =
                (locked.connections client).sent)) :=
  ⟨hrun.terminates, fun hstuck => hrun.rest_of_stuck hstuck⟩

theorem locked_server_comes_to_rest_post :
    ∃ locked, LockedRun (Server.start taskJson) postedInside locked ∧
      Acc (LockedNetwork.Advances (Server.start taskJson)) locked ∧
      ((∀ after, ¬ LockedNetwork.Advances (Server.start taskJson) after
          locked) →
        ∀ client, (locked.connections client).responses = [] ∧
          ((locked.connections client).session = .closed ∨
            (locked.connections client).session = .idle ∧
              (locked.connections client).received =
                (locked.connections client).sent)) := by
  obtain ⟨locked, hrun⟩ := postedInside_run
  exact ⟨locked, hrun, locked_server_comes_to_rest hrun⟩

end Backend

end JustQueueIt
