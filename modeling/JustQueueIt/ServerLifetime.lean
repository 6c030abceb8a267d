/-
The lifetime of a started server: the `io_context` and its worker threads,
shared by the copies of a `StopHandler`.  Calls of `Stop` and `Wait` proceed
step by step and interleave with each other and with everything else; asking a
thread whether it is joinable and joining it is one step.
-/
import Mathlib.Data.List.Basic

namespace JustQueueIt

namespace Rest

/-- A `std::thread` of `ServerLifetime::threads`: whether `ioc.run()` has
returned in it and whether it is still joinable. -/
structure Worker where
  returned : Bool
  joinable : Bool
deriving Repr, DecidableEq

/-- A call in progress, by what it does next: `Stop` asks whether the context
is stopped and stops it; `Wait`, called by `Stop` or by itself, looks at one
thread after the other. -/
inductive HandlerCall where
  | checkStopped
  | stopContext
  | wait (ofStop : Bool) (thread : Nat)
deriving Repr, DecidableEq

/-- Whether it is a call of `Stop`. -/
def HandlerCall.isStop : HandlerCall → Bool
  | .wait ofStop _ => ofStop
  | _ => true

/-- `ServerLifetime` with what keeps it alive.  `listening` and `sessions` are
the work of the context; `handlers` counts the live copies of the
`StopHandler`, `returnedStops` the calls of `Stop` that have returned. -/
structure LifetimeState where
  listening : Bool
  sessions : Nat
  stopped : Bool
  threads : List Worker
  handlers : Nat
  calls : List HandlerCall
  returnedStops : Nat
  destroyed : Bool
deriving Repr, DecidableEq

/-- What `StartServer` returns once `DoListen` accepts connections. -/
def startServer (threads : Nat) : LifetimeState where
  listening := true
  sessions := 0
  stopped := false
  threads := List.replicate (max 1 threads) ⟨false, true⟩
  handlers := 1
  calls := []
  returnedStops := 0
  destroyed := false

/-- The steps of the server and of its users. -/
inductive LifetimeAction where
  | acceptSession
  | endSession
  | failListen
  | runOutOfWork
  | returnWorker (index : Nat)
  | copyHandler
  | callStop
  | callWait
  | destroyHandler
  | advance (call : Nat)
  | destroyLifetime
deriving Repr, DecidableEq

namespace LifetimeState

/-- A call goes on. -/
def moveTo (state : LifetimeState) (index : Nat) (call : HandlerCall) :
    LifetimeState :=
  { state with calls := state.calls.set index call }

/-- A call returns. -/
def finish (state : LifetimeState) (index : Nat) (call : HandlerCall) :
    LifetimeState :=
  { state with
    calls := state.calls.eraseIdx index
    returnedStops :=
      if call.isStop then state.returnedStops + 1 else state.returnedStops }

/-- `t.join()` has returned. -/
def joinThread (state : LifetimeState) (index : Nat) (worker : Worker) :
    LifetimeState :=
  { state with
    threads := state.threads.set index { worker with joinable := false } }

/-- The next step of a call of `StopHandler::Stop` or `StopHandler::Wait`;
`join` blocks until the worker has returned. -/
def advance (state : LifetimeState) (index : Nat) (call : HandlerCall) :
    Option LifetimeState :=
  match call with
  | .checkStopped =>
      if state.stopped then some (state.finish index call)
      else some (state.moveTo index .stopContext)
  | .stopContext =>
      some ({ state with stopped := true }.moveTo index (.wait true 0))
  | .wait ofStop thread =>
      match state.threads[thread]? with
      | none => some (state.finish index call)
      | some worker =>
          if worker.joinable then
            if worker.returned then
              some ((state.joinThread thread worker).moveTo index
                (.wait ofStop (thread + 1)))
            else none
          else some (state.moveTo index (.wait ofStop (thread + 1)))

/-- One step.  The context makes progress only while it is not stopped and
stops by itself when nothing is left to do; the lifetime goes with the last
handler, call and worker that holds it. -/
def step (state : LifetimeState) : LifetimeAction → Option LifetimeState
  | .acceptSession =>
      if state.stopped = false ∧ state.listening = true then
        some { state with sessions := state.sessions + 1 }
      else none
  | .endSession =>
      if state.stopped = false ∧ 0 < state.sessions then
        some { state with sessions := state.sessions - 1 }
      else none
  | .failListen =>
      if state.stopped = false ∧ state.listening = true then
        some { state with listening := false }
      else none
  | .runOutOfWork =>
      if state.stopped = false ∧ state.listening = false ∧
          state.sessions = 0 then
        some { state with stopped := true }
      else none
  | .returnWorker index =>
      match state.threads[index]? with
      | none => none
      | some worker =>
          if state.stopped = true ∧ worker.returned = false then
            some { state with
              threads := state.threads.set index
                { worker with returned := true } }
          else none
  | .copyHandler =>
      if 0 < state.handlers then
        some { state with handlers := state.handlers + 1 }
      else none
  | .callStop =>
      if 0 < state.handlers then
        some { state with calls := state.calls ++ [.checkStopped] }
      else none
  | .callWait =>
      if 0 < state.handlers then
        some { state with calls := state.calls ++ [.wait false 0] }
      else none
  | .destroyHandler =>
      if 0 < state.handlers then
        some { state with
          handlers := state.handlers - 1
          calls := state.calls ++ [.checkStopped] }
      else none
  | .advance index =>
      match state.calls[index]? with
      | none => none
      | some call => state.advance index call
  | .destroyLifetime =>
      if state.handlers = 0 ∧ state.calls = [] ∧
          state.threads.all (·.returned) ∧ state.destroyed = false then
        some { state with destroyed := true }
      else none

/-- Every worker has been joined. -/
def AllJoined (state : LifetimeState) : Prop :=
  ∀ worker ∈ state.threads, worker.joinable = false

/-- No worker is abandoned: once a call of `Stop` has returned, and when the
lifetime is destroyed, all are joined. -/
structure Safe (state : LifetimeState) : Prop where
  stop : 0 < state.returnedStops → state.AllJoined
  destroy : state.destroyed = true → state.AllJoined

/-- A call of `Stop` finds the context running, or nothing left to join. -/
def Meets (state : LifetimeState) : LifetimeAction → Prop
  | .advance index =>
      state.calls[index]? = some .checkStopped →
        state.stopped = false ∨ state.AllJoined
  | _ => True

instance (state : LifetimeState) : Decidable state.AllJoined :=
  inferInstanceAs (Decidable (∀ worker ∈ state.threads, _ = false))

instance (state : LifetimeState) :
    (action : LifetimeAction) → Decidable (state.Meets action)
  | .advance _ => inferInstanceAs (Decidable (_ → _ ∨ state.AllJoined))
  | .acceptSession | .endSession | .failListen | .runOutOfWork
  | .returnWorker _ | .copyHandler | .callStop | .callWait | .destroyHandler
  | .destroyLifetime => isTrue trivial

end LifetimeState

/-- A run from a state: the states in which a step was taken with that step,
and the last state. -/
inductive LifetimeRun (start : LifetimeState) :
    List (LifetimeState × LifetimeAction) → LifetimeState → Prop where
  | nil : LifetimeRun start [] start
  | step {taken : List (LifetimeState × LifetimeAction)}
      {state next : LifetimeState} {action : LifetimeAction}
      (hrun : LifetimeRun start taken state)
      (hstep : state.step action = some next) :
      LifetimeRun start (taken ++ [(state, action)]) next

/-- Take the step if it is possible. -/
def recordStep
    (progress : List (LifetimeState × LifetimeAction) × LifetimeState)
    (action : LifetimeAction) :
    List (LifetimeState × LifetimeAction) × LifetimeState :=
  match progress.2.step action with
  | some next => (progress.1 ++ [(progress.2, action)], next)
  | none => progress

/-- The run that takes the listed steps. -/
def LifetimeState.perform (start : LifetimeState)
    (actions : List LifetimeAction) :
    List (LifetimeState × LifetimeAction) × LifetimeState :=
  actions.foldl recordStep ([], start)

theorem LifetimeRun.recordStep {start : LifetimeState}
    {progress : List (LifetimeState × LifetimeAction) × LifetimeState}
    (hrun : LifetimeRun start progress.1 progress.2)
    (action : LifetimeAction) :
    LifetimeRun start (Rest.recordStep progress action).1
      (Rest.recordStep progress action).2 := by
  rw [Rest.recordStep]
  cases hstep : progress.2.step action with
  | none => exact hrun
  | some next => exact hrun.step hstep

theorem LifetimeRun.perform (start : LifetimeState)
    (actions : List LifetimeAction) :
    LifetimeRun start (start.perform actions).1 (start.perform actions).2 := by
  have hfold : ∀ (actions : List LifetimeAction)
      (progress : List (LifetimeState × LifetimeAction) × LifetimeState),
      LifetimeRun start progress.1 progress.2 →
      LifetimeRun start (actions.foldl Rest.recordStep progress).1
        (actions.foldl Rest.recordStep progress).2 := by
    intro actions
    induction actions with
    | nil => exact fun _ hrun => hrun
    | cons action rest ih =>
        exact fun progress hrun => ih _ (hrun.recordStep action)
  exact hfold actions ([], start) LifetimeRun.nil

end Rest

end JustQueueIt
