/-
`main` of the backend: it starts the server, waits for it and lets its
`StopHandler` go.  The process ends only after the listener has failed and all
sessions are over, with every worker joined; it never stops the context itself.
-/
import JustQueueIt.ServerShutdown
import JustQueueIt.ServerStartup

namespace JustQueueIt

namespace Rest

namespace LifetimeState

/-- The context has stopped by itself if at all, the workers return after that,
and are joined after they returned. -/
structure Unforced (state : LifetimeState) : Prop where
  drained : state.stopped = true →
    state.listening = false ∧ state.sessions = 0
  returned : ∀ worker ∈ state.threads, worker.returned = true →
    state.stopped = true
  joined : ∀ worker ∈ state.threads, worker.joinable = false →
    worker.returned = true
  manned : state.threads ≠ []

theorem unforced_startServer (threads : Nat) :
    (startServer threads).Unforced where
  drained := by simp [startServer]
  returned := by simp [startServer]
  joined := by simp [startServer]
  manned := by
    simp only [startServer, ne_eq, List.replicate_eq_nil_iff]
    omega

variable {state next : LifetimeState}

/-- Where all workers are joined, the server is over. -/
theorem Unforced.over (hunforced : state.Unforced)
    (hjoined : state.AllJoined) :
    state.stopped = true ∧ state.listening = false ∧ state.sessions = 0 := by
  obtain ⟨worker, hworker⟩ := List.exists_mem_of_ne_nil _ hunforced.manned
  have hstopped := hunforced.returned worker hworker
    (hunforced.joined worker hworker (hjoined worker hworker))
  exact ⟨hstopped, hunforced.drained hstopped⟩

/-- What a step that no user takes can do. -/
theorem ofServer_cases {action : LifetimeAction}
    (hserver : action.ofServer = true) (hstep : state.step action = some next) :
    (state.stopped = false ∧ ∃ listening sessions,
        next = { state with listening := listening, sessions := sessions }) ∨
      (state.listening = false ∧ state.sessions = 0 ∧
        next = { state with stopped := true }) ∨
      ∃ index worker, state.threads[index]? = some worker ∧
        state.stopped = true ∧ next = { state with
          threads :=
            state.threads.set index { worker with returned := true } } := by
  cases action with
  | acceptSession =>
      obtain ⟨hguard, hnext⟩ := Option.ite_none_right_eq_some.mp hstep
      exact Or.inl ⟨hguard.1, _, _, (Option.some.inj hnext).symm⟩
  | endSession =>
      obtain ⟨hguard, hnext⟩ := Option.ite_none_right_eq_some.mp hstep
      exact Or.inl ⟨hguard.1, _, _, (Option.some.inj hnext).symm⟩
  | failListen =>
      obtain ⟨hguard, hnext⟩ := Option.ite_none_right_eq_some.mp hstep
      exact Or.inl ⟨hguard.1, _, _, (Option.some.inj hnext).symm⟩
  | runOutOfWork =>
      obtain ⟨hguard, hnext⟩ := Option.ite_none_right_eq_some.mp hstep
      exact Or.inr (Or.inl ⟨hguard.2.1, hguard.2.2,
        (Option.some.inj hnext).symm⟩)
  | returnWorker index =>
      rw [step] at hstep
      cases hworker : state.threads[index]? with
      | none => simp [hworker] at hstep
      | some worker =>
          rw [hworker] at hstep
          obtain ⟨hguard, hnext⟩ := Option.ite_none_right_eq_some.mp hstep
          exact Or.inr (Or.inr ⟨index, worker, hworker, hguard.1,
            (Option.some.inj hnext).symm⟩)
  | copyHandler => simp [LifetimeAction.ofServer] at hserver
  | callStop => simp [LifetimeAction.ofServer] at hserver
  | callWait => simp [LifetimeAction.ofServer] at hserver
  | destroyHandler => simp [LifetimeAction.ofServer] at hserver
  | advance index => simp [LifetimeAction.ofServer] at hserver
  | destroyLifetime => simp [LifetimeAction.ofServer] at hserver

theorem meets_of_ofServer {action : LifetimeAction}
    (hserver : action.ofServer = true) (state : LifetimeState) :
    state.Meets action := by
  cases action with
  | advance index => simp [LifetimeAction.ofServer] at hserver
  | _ => trivial

/-- What a step that no user takes leaves alone. -/
theorem keeps_of_ofServer {action : LifetimeAction}
    (hserver : action.ofServer = true) (hstep : state.step action = some next) :
    next.calls = state.calls ∧ next.handlers = state.handlers ∧
      (state.AllJoined → next.AllJoined) := by
  rcases ofServer_cases hserver hstep with ⟨-, listening, sessions, rfl⟩ |
    ⟨-, -, rfl⟩ | ⟨index, worker, hworker, -, rfl⟩
  · exact ⟨rfl, rfl, id⟩
  · exact ⟨rfl, rfl, id⟩
  · refine ⟨rfl, rfl, fun hjoined other hother => ?_⟩
    rcases List.mem_or_eq_of_mem_set hother with hmem | rfl
    · exact hjoined other hmem
    · exact hjoined worker (List.mem_of_getElem? hworker)

theorem Unforced.ofServer (hunforced : state.Unforced)
    {action : LifetimeAction} (hserver : action.ofServer = true)
    (hstep : state.step action = some next) : next.Unforced := by
  rcases ofServer_cases hserver hstep with
    ⟨hstopped, listening, sessions, rfl⟩ | ⟨hlistening, hsessions, rfl⟩ |
    ⟨index, worker, hworker, hstopped, rfl⟩
  · exact { hunforced with drained := fun hset => by simp [hstopped] at hset }
  · exact { hunforced with
      drained := fun _ => ⟨hlistening, hsessions⟩
      returned := fun _ _ _ => rfl }
  · exact { hunforced with
      returned := fun _ _ _ => hstopped
      joined := by
        intro other hother hjoinable
        rcases List.mem_or_eq_of_mem_set hother with hmem | rfl
        · exact hunforced.joined other hmem hjoinable
        · rfl
      manned := by simpa using hunforced.manned }

/-- `Wait` goes on, or returns with every worker joined. -/
theorem wait_cases {thread : Nat} {ofStop : Bool}
    (hstep : state.advance 0 (.wait ofStop thread) = some next)
    (hcalls : state.calls = [.wait ofStop thread]) :
    (state.threads[thread]? = none ∧ next = state.finish 0
        (.wait ofStop thread)) ∨
      next.calls = [.wait ofStop (thread + 1)] ∧
        next.handlers = state.handlers ∧
        (state.Unforced → next.Unforced) := by
  rw [advance] at hstep
  cases hthread : state.threads[thread]? with
  | none =>
      simp only [hthread] at hstep
      exact Or.inl ⟨rfl, (Option.some.inj hstep).symm⟩
  | some worker =>
      simp only [hthread] at hstep
      apply Or.inr
      by_cases hjoinable : worker.joinable = true
      · rw [if_pos hjoinable] at hstep
        obtain ⟨hreturned, hnext⟩ := Option.ite_none_right_eq_some.mp hstep
        obtain rfl := Option.some.inj hnext
        refine ⟨by simp [moveTo, joinThread, hcalls], rfl, ?_⟩
        intro hunforced
        have hstopped := hunforced.returned worker
          (List.mem_of_getElem? hthread) hreturned
        exact { hunforced with
          returned := fun _ _ _ => hstopped
          joined := by
            intro other hother hother'
            rcases List.mem_or_eq_of_mem_set hother with hmem | rfl
            · exact hunforced.joined other hmem hother'
            · exact hreturned
          manned := by simpa [moveTo, joinThread] using hunforced.manned }
      · rw [if_neg hjoinable] at hstep
        obtain rfl := Option.some.inj hstep
        exact ⟨by simp [moveTo, hcalls], rfl,
          fun hunforced => { hunforced with }⟩

end LifetimeState

end Rest

namespace Backend

open Rest LifetimeState

/-- Where `main` is once the server is started: before `server.Wait()`, inside
it, inside `~StopHandler()`, or past its end. -/
inductive MainPhase where
  | started
  | waiting
  | destroying
  | ended
deriving Repr, DecidableEq

inductive Process where
  | starting (startup : StartupState)
  | serving (phase : MainPhase) (lifetime : LifetimeState)
deriving Repr, DecidableEq

/-- One step of `main` or of the server. -/
inductive MainStep (threads : Nat) : Process → Process → Prop
  | startup {state next : StartupState}
      (hstep : StartupStep threads state next) :
      MainStep threads (.starting state) (.starting next)
  | returned {state : StartupState} (hreturned : state.starter = .returned) :
      MainStep threads (.starting state)
        (.serving .started (state.lifetime threads))
  | server {phase : MainPhase} {state next : LifetimeState}
      (action : LifetimeAction) (hserver : action.ofServer = true)
      (hphase : phase ≠ .ended) (hstep : state.step action = some next) :
      MainStep threads (.serving phase state) (.serving phase next)
  | callWait {state next : LifetimeState}
      (hstep : state.step .callWait = some next) :
      MainStep threads (.serving .started state) (.serving .waiting next)
  | wait {state next : LifetimeState}
      (hstep : state.step (.advance 0) = some next) :
      MainStep threads (.serving .waiting state) (.serving .waiting next)
  | destroyHandler {state next : LifetimeState} (hwaited : state.calls = [])
      (hstep : state.step .destroyHandler = some next) :
      MainStep threads (.serving .waiting state) (.serving .destroying next)
  | stop {state next : LifetimeState}
      (hstep : state.step (.advance 0) = some next) :
      MainStep threads (.serving .destroying state) (.serving .destroying next)
  | destroyLifetime {state next : LifetimeState}
      (hstep : state.step .destroyLifetime = some next) :
      MainStep threads (.serving .destroying state) (.serving .destroying next)
  | exit {state : LifetimeState} (hdestroyed : state.destroyed = true)
      (hstopped : state.calls = []) :
      MainStep threads (.serving .destroying state) (.serving .ended state)

/-- The states of the process. -/
abbrev MainReach (threads : Nat) : Process → Prop :=
  Relation.ReflTransGen (MainStep threads) (.starting .init)

/-- What is known of the lifetime where `main` is. -/
def MainPhase.Holds (state : LifetimeState) : MainPhase → Prop
  | .started => state.handlers = 1 ∧ state.calls = []
  | .waiting => state.handlers = 1 ∧
      ((∃ thread, state.calls = [.wait false thread]) ∨
        state.calls = [] ∧ state.AllJoined)
  | .destroying => state.AllJoined ∧
      (state.calls = [.checkStopped] ∨ state.calls = [])
  | .ended => state.AllJoined ∧ state.calls = []

/-- What every step of the process keeps. -/
def Process.Holds (threads : Nat) : Process → Prop
  | .starting startup => startup.Inv threads ∧
      (startup.lifetime threads).Inv ∧ (startup.lifetime threads).Unforced
  | .serving phase state => state.Inv ∧ state.Unforced ∧ phase.Holds state

theorem MainPhase.Holds.ofServer {phase : MainPhase}
    {state next : LifetimeState} (hholds : phase.Holds state)
    {action : LifetimeAction} (hserver : action.ofServer = true)
    (hstep : state.step action = some next) : phase.Holds next := by
  obtain ⟨hcalls, hhandlers, hjoined⟩ := keeps_of_ofServer hserver hstep
  cases phase with
  | started => exact ⟨hhandlers.trans hholds.1, hcalls.trans hholds.2⟩
  | waiting =>
      refine ⟨hhandlers.trans hholds.1, ?_⟩
      rcases hholds.2 with ⟨thread, hwait⟩ | ⟨hnone, hall⟩
      · exact Or.inl ⟨thread, hcalls.trans hwait⟩
      · exact Or.inr ⟨hcalls.trans hnone, hjoined hall⟩
  | destroying =>
      refine ⟨hjoined hholds.1, ?_⟩
      rw [hcalls]
      exact hholds.2
  | ended => exact ⟨hjoined hholds.1, hcalls.trans hholds.2⟩

theorem Process.Holds.startup {threads : Nat} {state next : StartupState}
    (hholds : (Process.starting state).Holds threads)
    (hstep : StartupStep threads state next) :
    (Process.starting next).Holds threads := by
  obtain ⟨hinv, hlifetime, hunforced⟩ := hholds
  rcases hinv.lifetime_step hstep with hsame | ⟨action, hserver, haction⟩
  · refine ⟨hinv.step hstep, ?_⟩
    rw [hsame]
    exact ⟨hlifetime, hunforced⟩
  · exact ⟨hinv.step hstep,
      hlifetime.step (meets_of_ofServer hserver _) haction,
      hunforced.ofServer hserver haction⟩

/-- `main` calls `Wait`. -/
theorem MainPhase.Holds.callWait {state next : LifetimeState} {threads : Nat}
    (hinv : state.Inv) (hunforced : state.Unforced)
    (hholds : MainPhase.started.Holds state)
    (hstep : state.step .callWait = some next) :
    (Process.serving .waiting next).Holds threads := by
  have hmeets : state.Meets .callWait := trivial
  have hnext := hinv.step hmeets hstep
  obtain ⟨-, hnow⟩ := Option.ite_none_right_eq_some.mp hstep
  obtain rfl := Option.some.inj hnow
  exact ⟨hnext, { hunforced with }, hholds.1,
    Or.inl ⟨0, by simp [hholds.2]⟩⟩

/-- `main` leaves its scope. -/
theorem MainPhase.Holds.destroyHandler {state next : LifetimeState}
    {threads : Nat} (hinv : state.Inv) (hunforced : state.Unforced)
    (hholds : MainPhase.waiting.Holds state) (hwaited : state.calls = [])
    (hstep : state.step .destroyHandler = some next) :
    (Process.serving .destroying next).Holds threads := by
  have hmeets : state.Meets .destroyHandler := trivial
  have hnext := hinv.step hmeets hstep
  obtain ⟨-, hnow⟩ := Option.ite_none_right_eq_some.mp hstep
  obtain rfl := Option.some.inj hnow
  rcases hholds.2 with ⟨thread, hwait⟩ | ⟨-, hall⟩
  · simp [hwaited] at hwait
  · exact ⟨hnext, { hunforced with }, hall, Or.inl (by simp [hwaited])⟩

/-- `Wait` takes a step. -/
theorem MainPhase.Holds.wait {state next : LifetimeState} {threads : Nat}
    (hinv : state.Inv) (hunforced : state.Unforced)
    (hholds : MainPhase.waiting.Holds state)
    (hstep : state.step (.advance 0) = some next) :
    (Process.serving .waiting next).Holds threads := by
  rcases hholds.2 with ⟨thread, hcalls⟩ | ⟨hcalls, -⟩
  · have hmeets : state.Meets (.advance 0) := by
      intro hcheck
      simp [hcalls] at hcheck
    have hnext := hinv.step hmeets hstep
    rw [LifetimeState.step, hcalls] at hstep
    rcases wait_cases hstep hcalls with ⟨hnone, rfl⟩ |
      ⟨hwait, hhandlers, hkeep⟩
    · have hall := allJoined_of_joinedBelow
        (hinv.joining false thread (by simp [hcalls])) hnone
      exact ⟨hnext, { hunforced with }, hholds.1,
        Or.inr ⟨by simp [finish, hcalls], hall⟩⟩
    · exact ⟨hnext, hkeep hunforced, hhandlers.trans hholds.1,
        Or.inl ⟨_, hwait⟩⟩
  · simp [LifetimeState.step, hcalls] at hstep

/-- The destructor finds the context stopped: `Stop` returns at once. -/
theorem MainPhase.Holds.stop {state next : LifetimeState} {threads : Nat}
    (hinv : state.Inv) (hunforced : state.Unforced)
    (hholds : MainPhase.destroying.Holds state)
    (hstep : state.step (.advance 0) = some next) :
    (Process.serving .destroying next).Holds threads := by
  obtain ⟨hall, hcalls | hcalls⟩ := hholds
  · have hmeets : state.Meets (.advance 0) := fun _ => Or.inr hall
    have hnext := hinv.step hmeets hstep
    have hstopped := (hunforced.over hall).1
    simp only [LifetimeState.step, hcalls, List.getElem?_cons_zero,
      LifetimeState.advance, hstopped, ↓reduceIte, Option.some.injEq] at hstep
    obtain rfl := hstep
    exact ⟨hnext, { hunforced with }, hall,
      Or.inr (by simp [finish, hcalls])⟩
  · simp [LifetimeState.step, hcalls] at hstep

/-- The last handler is gone: the lifetime goes with it. -/
theorem MainPhase.Holds.destroyLifetime {state next : LifetimeState}
    {threads : Nat} (hinv : state.Inv) (hunforced : state.Unforced)
    (hholds : MainPhase.destroying.Holds state)
    (hstep : state.step .destroyLifetime = some next) :
    (Process.serving .destroying next).Holds threads := by
  have hmeets : state.Meets .destroyLifetime := trivial
  have hnext := hinv.step hmeets hstep
  obtain ⟨-, hnow⟩ := Option.ite_none_right_eq_some.mp hstep
  obtain rfl := Option.some.inj hnow
  exact ⟨hnext, { hunforced with }, hholds⟩

theorem Process.Holds.step {threads : Nat} {process next : Process}
    (hholds : process.Holds threads) (hstep : MainStep threads process next) :
    next.Holds threads := by
  cases hstep with
  | startup hstep => exact hholds.startup hstep
  | returned hreturned => exact ⟨hholds.2.1, hholds.2.2, rfl, rfl⟩
  | server action hserver hphase hstep =>
      obtain ⟨hinv, hunforced, hphase⟩ := hholds
      exact ⟨hinv.step (meets_of_ofServer hserver _) hstep,
        hunforced.ofServer hserver hstep, hphase.ofServer hserver hstep⟩
  | callWait hstep =>
      obtain ⟨hinv, hunforced, hphase⟩ := hholds
      exact hphase.callWait hinv hunforced hstep
  | wait hstep =>
      obtain ⟨hinv, hunforced, hphase⟩ := hholds
      exact hphase.wait hinv hunforced hstep
  | destroyHandler hwaited hstep =>
      obtain ⟨hinv, hunforced, hphase⟩ := hholds
      exact hphase.destroyHandler hinv hunforced hwaited hstep
  | stop hstep =>
      obtain ⟨hinv, hunforced, hphase⟩ := hholds
      exact hphase.stop hinv hunforced hstep
  | destroyLifetime hstep =>
      obtain ⟨hinv, hunforced, hphase⟩ := hholds
      exact hphase.destroyLifetime hinv hunforced hstep
  | exit hdestroyed hstopped =>
      exact ⟨hholds.1, hholds.2.1, hholds.2.2.1, hstopped⟩

theorem Process.holds_of_reach {threads : Nat} {process : Process}
    (hreach : MainReach threads process) : process.Holds threads := by
  induction hreach with
  | refl =>
      refine ⟨StartupState.inv_init threads, ?_, ?_⟩
      · exact inv_startServer threads
      · exact unforced_startServer threads
  | tail _ hstep ih => exact ih.step hstep

/-- Nothing that `main` calls is about to stop the context. -/
theorem MainPhase.Holds.notMem_calls {phase : MainPhase}
    {state : LifetimeState} (hholds : phase.Holds state) :
    .stopContext ∉ state.calls := by
  cases phase with
  | started => simp [hholds.2]
  | waiting =>
      rcases hholds.2 with ⟨thread, hcalls⟩ | ⟨hcalls, -⟩
      · simp [hcalls]
      · simp [hcalls]
  | destroying =>
      rcases hholds.2 with hcalls | hcalls
      · simp [hcalls]
      · simp [hcalls]
  | ended => simp [hholds.2]

/-- The process never abandons a worker and never stops the context itself: it
ends only after the listener has failed and every session is over, with all
workers joined. -/
theorem main_ends_with_the_server {threads : Nat} {phase : MainPhase}
    {state : LifetimeState} (hreach : MainReach threads (.serving phase state)) :
    state.Safe ∧ .stopContext ∉ state.calls ∧
      (phase = .destroying ∨ phase = .ended →
        state.AllJoined ∧ state.stopped = true ∧ state.listening = false ∧
          state.sessions = 0) := by
  obtain ⟨hinv, hunforced, hphase⟩ := Process.holds_of_reach hreach
  refine ⟨hinv.safe, hphase.notMem_calls, fun hpast => ?_⟩
  have hall : state.AllJoined := by
    rcases hpast with rfl | rfl
    · exact hphase.1
    · exact hphase.1
  exact ⟨hall, hunforced.over hall⟩

/-- The one worker has been joined after the listener failed, and nothing is
left of the server. -/
def oneWorkerEnded : LifetimeState where
  listening := false
  sessions := 0
  stopped := true
  threads := [⟨true, false⟩]
  handlers := 0
  calls := []
  returnedStops := 1
  destroyed := true

theorem oneWorkerEnded_reach :
    MainReach 1 (.serving .ended oneWorkerEnded) := by
  have hstartup : ∀ {state}, StartupReach 1 .init state →
      MainReach 1 (.starting state) := by
    intro state hreach
    induction hreach with
    | refl => exact .refl
    | tail _ hstep ih => exact ih.tail (.startup hstep)
  have hlistens := ((beforeBind_reach.tail (.listen beforeBind_running rfl)).tail
    (.listen beforeBind_running rfl)).tail (.listen beforeBind_running rfl)
  have hreturned := (hstartup (hlistens.tail (.wake rfl rfl))).tail
    (.returned rfl)
  have hfailed := ((hreturned.tail (.server .failListen rfl (by simp) rfl)).tail
    (.server .runOutOfWork rfl (by simp) rfl)).tail
    (.server (.returnWorker 0) rfl (by simp) rfl)
  have hwaited := ((hfailed.tail (.callWait rfl)).tail (.wait rfl)).tail
    (.wait rfl)
  have hstopped := (hwaited.tail (.destroyHandler rfl rfl)).tail (.stop rfl)
  exact (hstopped.tail (.destroyLifetime rfl)).tail (.exit rfl rfl)

theorem main_ends_with_the_server_one :
    oneWorkerEnded.Safe ∧ .stopContext ∉ oneWorkerEnded.calls ∧
      (MainPhase.ended = .destroying ∨ MainPhase.ended = .ended →
        oneWorkerEnded.AllJoined ∧ oneWorkerEnded.stopped = true ∧
          oneWorkerEnded.listening = false ∧ oneWorkerEnded.sessions = 0) :=
  main_ends_with_the_server oneWorkerEnded_reach

end Backend

end JustQueueIt
