/-
`StartServer` until it returns.  The calling thread resolves the address, spawns
`DoListen` and the workers and waits for `started`, which `DoListen` sets once
it listens.  It can still return unless the listener has failed before that; and
what it returns is a started server.
-/
import JustQueueIt.ServerLifetime
import Mathlib.Logic.Relation

namespace JustQueueIt

namespace Rest

/-- Where the thread that called `StartServer` is. -/
inductive Starter where
  | resolving
  | threw
  | spawning
  | waiting
  | returned
deriving Repr, DecidableEq

/-- Where `DoListen` is, by the call it makes next. -/
inductive Listener where
  | notSpawned
  | opening
  | settingOption
  | binding
  | listening
  | announcing
  | accepting
  | failed
deriving Repr, DecidableEq

/-- The calls of `DoListen` in order. -/
def Listener.next : Listener → Option Listener
  | .opening => some .settingOption
  | .settingOption => some .binding
  | .binding => some .listening
  | .listening => some .announcing
  | .announcing => some .accepting
  | _ => none

/-- The calls of `DoListen` that may throw. -/
def Listener.mayFail : Listener → Bool
  | .opening | .settingOption | .binding | .listening | .accepting => true
  | .notSpawned | .announcing | .failed => false

/-- A call of `DoListen` comes after it was spawned, and only the announcement
brings it to accepting connections. -/
theorem Listener.next_cases {listener next : Listener}
    (hnext : listener.next = some next) :
    listener ≠ .notSpawned ∧ listener ≠ .accepting ∧ listener ≠ .failed ∧
      next ≠ .notSpawned ∧ next ≠ .failed ∧
      (next = .accepting ↔ listener = .announcing) := by
  cases listener <;> simp_all [Listener.next] <;> simp [← hnext]

theorem Listener.of_mayFail {listener : Listener}
    (hfail : listener.mayFail = true) :
    listener ≠ .notSpawned ∧ listener ≠ .failed := by
  cases listener <;> simp_all [Listener.mayFail]

structure StartupState where
  starter : Starter
  listener : Listener
  started : Bool
  sessions : Nat
  stopped : Bool
  threads : List Worker
deriving Repr, DecidableEq

/-- The steps of a lifetime that its users have no part in. -/
def LifetimeAction.ofServer : LifetimeAction → Bool
  | .acceptSession | .endSession | .failListen | .runOutOfWork
  | .returnWorker _ => true
  | .copyHandler | .callStop | .callWait | .destroyHandler | .advance _
  | .destroyLifetime => false

namespace StartupState

def init : StartupState :=
  ⟨.resolving, .notSpawned, false, 0, false, []⟩

/-- A worker is in `ioc.run()`, and the context is not stopped. -/
def Running (state : StartupState) : Prop :=
  state.stopped = false ∧ ∃ worker ∈ state.threads, worker.returned = false

end StartupState

/-- `max_threads`. -/
def maxThreads (threads : Nat) : Nat := max 1 threads

/-- One step of the starting thread, of `DoListen`, of a session or of a
worker. -/
inductive StartupStep (threads : Nat) : StartupState → StartupState → Prop
  | badAddress {state : StartupState} (hstarter : state.starter = .resolving) :
      StartupStep threads state { state with starter := .threw }
  | spawnListener {state : StartupState}
      (hstarter : state.starter = .resolving) :
      StartupStep threads state
        { state with starter := .spawning, listener := .opening }
  | spawnWorker {state : StartupState} (hstarter : state.starter = .spawning)
      (hmore : state.threads.length < maxThreads threads) :
      StartupStep threads state
        { state with threads := state.threads ++ [⟨false, true⟩] }
  | allSpawned {state : StartupState} (hstarter : state.starter = .spawning)
      (hall : maxThreads threads ≤ state.threads.length) :
      StartupStep threads state { state with starter := .waiting }
  | wake {state : StartupState} (hstarter : state.starter = .waiting)
      (hstarted : state.started = true) :
      StartupStep threads state { state with starter := .returned }
  | listen {state : StartupState} {next : Listener} (hrunning : state.Running)
      (hnext : state.listener.next = some next) :
      StartupStep threads state
        { state with
          listener := next
          started := state.started || state.listener = .announcing }
  | fail {state : StartupState} (hrunning : state.Running)
      (hfail : state.listener.mayFail = true) :
      StartupStep threads state { state with listener := .failed }
  | acceptSession {state : StartupState} (hrunning : state.Running)
      (hlistener : state.listener = .accepting) :
      StartupStep threads state { state with sessions := state.sessions + 1 }
  | endSession {state : StartupState} (hrunning : state.Running)
      (hsessions : 0 < state.sessions) :
      StartupStep threads state { state with sessions := state.sessions - 1 }
  | runOutOfWork {state : StartupState} (hrunning : state.Running)
      (hlistener : state.listener = .failed)
      (hsessions : state.sessions = 0) :
      StartupStep threads state { state with stopped := true }
  | returnWorker {state : StartupState} (index : Nat) {worker : Worker}
      (hworker : state.threads[index]? = some worker)
      (hstopped : state.stopped = true) (hreturned : worker.returned = false) :
      StartupStep threads state
        { state with
          threads := state.threads.set index { worker with returned := true } }

/-- The states after any number of steps. -/
abbrev StartupReach (threads : Nat) :=
  Relation.ReflTransGen (StartupStep threads)

namespace StartupState

/-- What the steps keep. -/
structure Inv (threads : Nat) (state : StartupState) : Prop where
  spawned : state.listener = .notSpawned ↔
    state.starter = .resolving ∨ state.starter = .threw
  fits : state.threads.length ≤ maxThreads threads
  full : state.starter = .waiting ∨ state.starter = .returned →
    state.threads.length = maxThreads threads
  announced : state.listener = .accepting → state.started = true
  started : state.started = true →
    state.listener = .accepting ∨ state.listener = .failed
  woken : state.starter = .returned → state.started = true
  stopped : state.stopped = true → state.listener = .failed
  working : ∀ worker ∈ state.threads, worker.returned = true →
    state.stopped = true

theorem inv_init (threads : Nat) : init.Inv threads where
  spawned := by simp [init]
  fits := by simp [init]
  full := by simp [init]
  announced := by simp [init]
  started := by simp [init]
  woken := by simp [init]
  stopped := by simp [init]
  working := by simp [init]

/-- One step keeps the invariant. -/
theorem Inv.step {threads : Nat} {state next : StartupState}
    (hinv : state.Inv threads) (hstep : StartupStep threads state next) :
    next.Inv threads := by
  cases hstep with
  | badAddress hstarter =>
      have hlistener := hinv.spawned.mpr (Or.inl hstarter)
      exact { hinv with
        spawned := by simp [hlistener]
        full := by simp
        woken := by simp }
  | spawnListener hstarter =>
      have hlistener := hinv.spawned.mpr (Or.inl hstarter)
      exact { hinv with
        spawned := by simp
        full := by simp
        announced := by simp
        started := fun hset => by simpa [hlistener] using hinv.started hset
        woken := by simp
        stopped := fun hset => by simpa [hlistener] using hinv.stopped hset }
  | spawnWorker hstarter hmore =>
      exact { hinv with
        fits := by simpa using Nat.succ_le_of_lt hmore
        full := by simp [hstarter]
        working := by
          intro worker hmem hreturned
          rcases List.mem_append.mp hmem with hmem | hmem
          · exact hinv.working worker hmem hreturned
          · rw [List.mem_singleton.mp hmem] at hreturned
            simp at hreturned }
  | allSpawned hstarter hall =>
      have hspawned := hinv.spawned
      rw [hstarter] at hspawned
      exact { hinv with
        spawned := by simpa using hspawned
        full := fun _ => Nat.le_antisymm hinv.fits hall
        woken := by simp }
  | wake hstarter hset =>
      have hspawned := hinv.spawned
      rw [hstarter] at hspawned
      exact { hinv with
        spawned := by simpa using hspawned
        full := fun _ => hinv.full (Or.inl hstarter)
        woken := fun _ => hset }
  | listen hrunning hnext =>
      obtain ⟨hspawned, haccepting, hfailed, hnot, -, hlast⟩ :=
        Listener.next_cases hnext
      have hunset : state.started = false := by
        by_contra hset
        exact (hinv.started (by simpa using hset)).elim haccepting hfailed
      exact { hinv with
        spawned := iff_of_false hnot fun hstarter =>
          hspawned (hinv.spawned.mpr hstarter)
        announced := fun heq => by simp [hlast.mp heq]
        started := fun hset => by
          simp only [hunset, Bool.false_or, decide_eq_true_eq] at hset
          exact Or.inl (hlast.mpr hset)
        woken := fun hreturned => by
          simpa [hunset] using hinv.woken hreturned
        stopped := fun hset => by simp [hrunning.1] at hset }
  | fail hrunning hfail =>
      exact { hinv with
        spawned := iff_of_false (by simp) fun hstarter =>
          (Listener.of_mayFail hfail).1 (hinv.spawned.mpr hstarter)
        announced := by simp
        started := fun _ => Or.inr rfl
        stopped := fun _ => rfl }
  | acceptSession hrunning hlistener => exact { hinv with }
  | endSession hrunning hsessions => exact { hinv with }
  | runOutOfWork hrunning hlistener hsessions =>
      exact { hinv with
        stopped := fun _ => hlistener
        working := fun _ _ _ => rfl }
  | returnWorker index hworker hset hreturned =>
      exact { hinv with
        fits := by simpa using hinv.fits
        full := by simpa using hinv.full
        working := fun _ _ _ => hset }

theorem Inv.reach {threads : Nat} {state last : StartupState}
    (hinv : state.Inv threads) (hreach : StartupReach threads state last) :
    last.Inv threads := by
  induction hreach with
  | refl => exact hinv
  | tail _ hstep ih => exact ih.step hstep

/-- The server as its lifetime: a worker that is still to be spawned counts as
one that has not returned. -/
def lifetime (threads : Nat) (state : StartupState) : LifetimeState where
  listening := state.listener ≠ .failed
  sessions := state.sessions
  stopped := state.stopped
  threads := state.threads ++ List.replicate
    (maxThreads threads - state.threads.length) ⟨false, true⟩
  handlers := 1
  calls := []
  returnedStops := 0
  destroyed := false

/-- A step of the start is a step of the lifetime that no user takes, or
none. -/
theorem Inv.lifetime_step {threads : Nat} {state next : StartupState}
    (hinv : state.Inv threads) (hstep : StartupStep threads state next) :
    next.lifetime threads = state.lifetime threads ∨
      ∃ action, action.ofServer = true ∧
        (state.lifetime threads).step action =
          some (next.lifetime threads) := by
  cases hstep with
  | badAddress hstarter => exact Or.inl rfl
  | spawnListener hstarter =>
      have hlistener := hinv.spawned.mpr (Or.inl hstarter)
      exact Or.inl (by simp [lifetime, hlistener])
  | spawnWorker hstarter hmore =>
      have hleft : maxThreads threads - state.threads.length =
          maxThreads threads - (state.threads.length + 1) + 1 := by omega
      exact Or.inl (by simp [lifetime, hleft, List.replicate_succ])
  | allSpawned hstarter hall => exact Or.inl rfl
  | wake hstarter hset => exact Or.inl rfl
  | listen hrunning hnext =>
      obtain ⟨-, -, hfailed, -, hnot, -⟩ := Listener.next_cases hnext
      exact Or.inl (by simp [lifetime, hfailed, hnot])
  | fail hrunning hfail =>
      have hnot := (Listener.of_mayFail hfail).2
      refine Or.inr ⟨.failListen, rfl, ?_⟩
      simp [lifetime, LifetimeState.step, hrunning.1, hnot]
  | acceptSession hrunning hlistener =>
      refine Or.inr ⟨.acceptSession, rfl, ?_⟩
      simp [lifetime, LifetimeState.step, hrunning.1, hlistener]
  | endSession hrunning hsessions =>
      refine Or.inr ⟨.endSession, rfl, ?_⟩
      simp [lifetime, LifetimeState.step, hrunning.1, hsessions]
  | runOutOfWork hrunning hlistener hsessions =>
      refine Or.inr ⟨.runOutOfWork, rfl, ?_⟩
      simp [lifetime, LifetimeState.step, hrunning.1, hlistener, hsessions]
  | returnWorker index hworker hset hreturned =>
      have hlt := (List.getElem?_eq_some_iff.mp hworker).1
      refine Or.inr ⟨.returnWorker index, rfl, ?_⟩
      simp [lifetime, LifetimeState.step, List.getElem?_append_left hlt,
        List.set_append_left _ _ hlt, hworker, hset, hreturned]

/-- The start of a server is a run of its lifetime. -/
theorem lifetime_run {threads : Nat} {state : StartupState}
    (hreach : StartupReach threads init state) :
    ∃ taken, LifetimeRun (startServer threads) taken
      (state.lifetime threads) := by
  induction hreach with
  | refl => exact ⟨[], .nil⟩
  | tail hreach hstep ih =>
      obtain ⟨taken, hrun⟩ := ih
      have hinv := (inv_init threads).reach hreach
      rcases hinv.lifetime_step hstep with hsame | ⟨action, -, haction⟩
      · rw [hsame]
        exact ⟨taken, hrun⟩
      · exact ⟨_, hrun.step haction⟩

/-- The address was not rejected, and the listener has not failed without
setting `started`. -/
def Viable (state : StartupState) : Prop :=
  state.starter ≠ .threw ∧ (state.listener = .failed → state.started = true)

/-- Where the start is not viable it stays so. -/
theorem Viable.of_step {threads : Nat} {state next : StartupState}
    (hinv : state.Inv threads) (hstep : StartupStep threads state next)
    (hviable : next.Viable) : state.Viable := by
  obtain ⟨hthrew, hfailed⟩ := hviable
  cases hstep with
  | badAddress hstarter => exact absurd rfl hthrew
  | spawnListener hstarter =>
      have hlistener := hinv.spawned.mpr (Or.inl hstarter)
      exact ⟨by simp [hstarter], by simp [hlistener]⟩
  | spawnWorker hstarter hmore => exact ⟨hthrew, hfailed⟩
  | allSpawned hstarter hall => exact ⟨by simp [hstarter], hfailed⟩
  | wake hstarter hset => exact ⟨by simp [hstarter], hfailed⟩
  | listen hrunning hnext =>
      exact ⟨hthrew, fun heq => absurd heq (Listener.next_cases hnext).2.2.1⟩
  | fail hrunning hfail => exact ⟨hthrew, fun _ => hfailed rfl⟩
  | acceptSession hrunning hlistener => exact ⟨hthrew, hfailed⟩
  | endSession hrunning hsessions => exact ⟨hthrew, hfailed⟩
  | runOutOfWork hrunning hlistener hsessions => exact ⟨hthrew, hfailed⟩
  | returnWorker index hworker hset hreturned => exact ⟨hthrew, hfailed⟩

theorem Viable.of_reach {threads : Nat} {state last : StartupState}
    (hinv : state.Inv threads) (hreach : StartupReach threads state last)
    (hviable : last.Viable) : state.Viable := by
  induction hreach with
  | refl => exact hviable
  | tail hreach hstep ih =>
      exact ih (hviable.of_step (hinv.reach hreach) hstep)

end StartupState

/-- How many steps of its own the starting thread has left. -/
def Starter.rank : Starter → Nat
  | .resolving => 3
  | .spawning => 2
  | .waiting => 1
  | .threw | .returned => 0

/-- How many calls `DoListen` has left until it accepts connections. -/
def Listener.rank : Listener → Nat
  | .notSpawned => 6
  | .opening => 5
  | .settingOption => 4
  | .binding => 3
  | .listening => 2
  | .announcing => 1
  | .accepting | .failed => 0

theorem Listener.exists_next {listener : Listener}
    (hspawned : listener ≠ .notSpawned) (haccepting : listener ≠ .accepting)
    (hfailed : listener ≠ .failed) :
    ∃ next, listener.next = some next ∧ next.rank < listener.rank := by
  cases listener <;> simp_all [Listener.next, Listener.rank]

namespace StartupState

def distance (threads : Nat) (state : StartupState) : Nat :=
  state.starter.rank + state.listener.rank +
    (maxThreads threads - state.threads.length)

/-- A waiting start has all its workers in `run` until the listener fails. -/
theorem Inv.running {threads : Nat} {state : StartupState}
    (hinv : state.Inv threads) (hstarter : state.starter = .waiting)
    (hlistener : state.listener ≠ .failed) : state.Running := by
  have hstopped : state.stopped = false := by
    by_contra hset
    exact hlistener (hinv.stopped (by simpa using hset))
  have hfull := hinv.full (Or.inl hstarter)
  have hpos : 0 < state.threads.length := by
    rw [hfull, maxThreads]
    omega
  refine ⟨hstopped, state.threads[0], List.getElem_mem hpos, ?_⟩
  by_contra hreturned
  have hset := hinv.working _ (List.getElem_mem hpos) (by simpa using hreturned)
  simp [hstopped] at hset

/-- A viable start that has not returned has a step that brings it closer. -/
theorem Inv.closer {threads : Nat} {state : StartupState}
    (hinv : state.Inv threads) (hviable : state.Viable)
    (hnot : state.starter ≠ .returned) :
    ∃ next, StartupStep threads state next ∧ next.Viable ∧
      next.distance threads < state.distance threads := by
  cases hstarter : state.starter with
  | resolving =>
      have hlistener := hinv.spawned.mpr (Or.inl hstarter)
      refine ⟨_, .spawnListener hstarter, ⟨by simp, by simp⟩, ?_⟩
      simp [distance, hstarter, hlistener, Starter.rank, Listener.rank]
  | threw => exact absurd hstarter hviable.1
  | spawning =>
      by_cases hmore : state.threads.length < maxThreads threads
      · refine ⟨_, .spawnWorker hstarter hmore, hviable, ?_⟩
        simp only [distance, List.length_append, List.length_singleton]
        omega
      · refine ⟨_, .allSpawned hstarter (by omega), ⟨by simp, hviable.2⟩, ?_⟩
        simp [distance, hstarter, Starter.rank]
  | waiting =>
      by_cases hset : state.started = true
      · refine ⟨_, .wake hstarter hset, ⟨by simp, hviable.2⟩, ?_⟩
        simp [distance, hstarter, Starter.rank]
      · have hfailed : state.listener ≠ .failed :=
          fun heq => hset (hviable.2 heq)
        have hspawned : state.listener ≠ .notSpawned := by
          intro heq
          simpa [hstarter] using hinv.spawned.mp heq
        obtain ⟨next, hnext, hlt⟩ := Listener.exists_next hspawned
          (fun heq => hset (hinv.announced heq)) hfailed
        refine ⟨_, .listen (hinv.running hstarter hfailed) hnext, ?_, ?_⟩
        · exact ⟨hviable.1,
            fun heq => absurd heq (Listener.next_cases hnext).2.2.2.2.1⟩
        · simp only [distance]
          omega
  | returned => exact absurd hstarter hnot

theorem Inv.reach_returned {threads : Nat} {state : StartupState}
    (hinv : state.Inv threads) (hviable : state.Viable) :
    ∃ last, StartupReach threads state last ∧ last.starter = .returned := by
  generalize hdistance : state.distance threads = bound
  induction bound using Nat.strongRecOn generalizing state with
  | _ bound ih =>
      by_cases hreturned : state.starter = .returned
      · exact ⟨state, .refl, hreturned⟩
      · obtain ⟨next, hstep, hnext, hlt⟩ := hinv.closer hviable hreturned
        obtain ⟨last, hreach, hlast⟩ := ih _ (hdistance ▸ hlt)
          (hinv.step hstep) hnext rfl
        exact ⟨last, hreach.head hstep, hlast⟩

end StartupState

/-- From any state of the start, `StartServer` can still return exactly when the
address was not rejected and the listener has not failed before it set
`started`: otherwise it throws, or waits for ever. -/
theorem startServer_can_return {threads : Nat} {state : StartupState}
    (hreach : StartupReach threads .init state) :
    (∃ last, StartupReach threads state last ∧ last.starter = .returned) ↔
      state.starter ≠ .threw ∧
        (state.listener = .failed → state.started = true) := by
  have hinv := (StartupState.inv_init threads).reach hreach
  constructor
  · intro hreturns
    obtain ⟨last, hlater, hreturned⟩ := hreturns
    have hlast := hinv.reach hlater
    exact StartupState.Viable.of_reach hinv hlater
      ⟨by simp [hreturned], fun _ => hlast.woken hreturned⟩
  · exact hinv.reach_returned

/-- The one worker runs `DoListen`, which is about to bind. -/
def beforeBind : StartupState :=
  ⟨.waiting, .binding, false, 0, false, [⟨false, true⟩]⟩

theorem beforeBind_running : beforeBind.Running :=
  ⟨rfl, ⟨false, true⟩, List.mem_cons_self, rfl⟩

theorem beforeBind_reach : StartupReach 1 .init beforeBind := by
  have hspawned : StartupReach 1 .init
      ⟨.waiting, .opening, false, 0, false, [⟨false, true⟩]⟩ :=
    (((Relation.ReflTransGen.refl.tail (.spawnListener rfl)).tail
      (.spawnWorker rfl (by decide))).tail (.allSpawned rfl (by decide)))
  have hrunning : ∀ listener,
      StartupState.Running ⟨.waiting, listener, false, 0, false,
        [⟨false, true⟩]⟩ := fun _ => beforeBind_running
  exact (hspawned.tail (.listen (hrunning _) rfl)).tail
    (.listen (hrunning _) rfl)

/-- When the port is taken, `StartServer` never returns. -/
theorem startServer_can_return_portTaken :
    ¬ ∃ last, StartupReach 1 { beforeBind with listener := .failed } last ∧
      last.starter = .returned := by
  have hreach := beforeBind_reach.tail (.fail beforeBind_running rfl)
  intro hreturns
  exact absurd (((startServer_can_return hreach).mp hreturns).2 rfl) (by decide)

/-- What `StartServer` returns is a started server: `DoListen` has announced
that it listens, every worker was spawned, and what happened in between is a run
of the lifetime from the started server. -/
theorem startServer_returns_started {threads : Nat} {state : StartupState}
    (hreach : StartupReach threads .init state)
    (hreturned : state.starter = .returned) :
    state.started = true ∧ state.threads.length = maxThreads threads ∧
      ∃ taken, LifetimeRun (startServer threads) taken
        { listening := state.listener ≠ .failed
          sessions := state.sessions
          stopped := state.stopped
          threads := state.threads
          handlers := 1
          calls := []
          returnedStops := 0
          destroyed := false } := by
  have hinv := (StartupState.inv_init threads).reach hreach
  have hfull := hinv.full (Or.inr hreturned)
  obtain ⟨taken, hrun⟩ := StartupState.lifetime_run hreach
  refine ⟨hinv.woken hreturned, hfull, taken, ?_⟩
  simpa [StartupState.lifetime, hfull] using hrun

theorem startServer_returns_started_one :
    (⟨.returned, .accepting, true, 0, false, [⟨false, true⟩]⟩ :
      StartupState).started = true ∧ [(⟨false, true⟩ : Worker)].length = 1 ∧
      ∃ taken, LifetimeRun (startServer 1) taken
        { listening := true
          sessions := 0
          stopped := false
          threads := [⟨false, true⟩]
          handlers := 1
          calls := []
          returnedStops := 0
          destroyed := false } := by
  have hbound := beforeBind_reach.tail (.listen beforeBind_running rfl)
  have hlistening := hbound.tail (.listen beforeBind_running rfl)
  have hannounced := hlistening.tail (.listen beforeBind_running rfl)
  exact startServer_returns_started (hannounced.tail (.wake rfl rfl)) rfl

end Rest

end JustQueueIt
