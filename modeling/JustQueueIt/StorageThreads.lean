/-
Any number of threads on one `InMemoryStorage`.  Their calls are linearizable
to the calls as a whole, and to the calls of the task map while ids are left;
no element is touched by two threads of which one writes, none is touched
outside the vector, and no call is blocked for good.
-/
import JustQueueIt.LockedStorage
import JustQueueIt.MutexProgress
import JustQueueIt.StorageHistory

namespace JustQueueIt

namespace Backend

open SharedMutex Linearization

/-- A call with what it returned. -/
abbrev StorageReturn := (call : StorageCall) × call.Result

/-- The storage, one call after the other. -/
def storageObject : Object StorageCall StorageReturn InMemoryStorage where
  init := .empty
  apply storage call := (⟨call, (storage.exec call).1⟩, (storage.exec call).2)

/-- The task map, one call after the other. -/
def taskMapObject : Object StorageCall StorageReturn TaskMap where
  init := .empty
  apply map call := (⟨call, resultOn map call⟩, applyCall map call)

variable {Thread : Type}

theorem storageObject_stateAfter (order : Order Thread StorageCall) :
    storageObject.stateAfter order =
      InMemoryStorage.empty.after (order.map Prod.snd) := by
  rw [InMemoryStorage.after, List.foldl_map]
  rfl

theorem taskMapObject_stateAfter (order : Order Thread StorageCall) :
    taskMapObject.stateAfter order =
      mapAfter .empty (order.map Prod.snd) := by
  rw [mapAfter, List.foldl_map]
  rfl

/-- While ids are left, the map returns what the storage returns. -/
theorem taskMapObject_returns {order : Order Thread StorageCall}
    (hroom : (creations (order.map Prod.snd)).length < sizeLimit)
    {id : Thread × Nat} {ret : StorageReturn}
    (hreturns : storageObject.Returns order id ret) :
    taskMapObject.Returns order id ret := by
  obtain ⟨before, call, after, rfl, hret⟩ := hreturns
  refine ⟨before, call, after, rfl, ?_⟩
  have hbefore : (creations (before.map Prod.snd)).length < sizeLimit := by
    rw [List.map_append, creations_append, List.length_append] at hroom
    omega
  have hsame := (represents_after hbefore).exec_fst call
  rw [← hret, taskMapObject_stateAfter, storageObject_stateAfter]
  simp only [taskMapObject, storageObject, hsame]

/-- Both call `GetTasks` and wait. -/
def twoWaiting : Threads StorageAccess.Answer InMemoryStorage
    StorageCall.Result Bool :=
  ((Threads.init .empty).set false (.waiting .getTasks)).set true
    (.waiting .getTasks)

/-- Both are inside `GetTasks`, before their first access. -/
def twoReaders : Threads StorageAccess.Answer InMemoryStorage
    StorageCall.Result Bool :=
  (twoWaiting.set false (.inside .getTasks StorageCode.getTasks)).set true
    (.inside .getTasks StorageCode.getTasks)

def twoReadersLabels :
    List (ThreadLabel StorageAccess StorageCall.Result Bool) :=
  [.call (false, 0) .getTasks, .call (true, 0) .getTasks, .acquire false,
    .acquire true]

theorem twoReaders_run : ThreadRun InMemoryStorage.locked .empty
    twoReadersLabels twoReaders := by
  have hwaiting : ThreadRun InMemoryStorage.locked .empty
      (twoReadersLabels.take 2) twoWaiting :=
    (ThreadRun.init.step (.call StorageCall.getTasks rfl)).step
      (.call StorageCall.getTasks rfl)
  have hfirst : InMemoryStorage.locked.Free twoWaiting.inside
      (InMemoryStorage.locked.mode .getTasks) := by
    intro thread holder hinside
    cases thread with
    | false => cases hinside
    | true => cases hinside
  have hsecond : InMemoryStorage.locked.Free (twoWaiting.set false
      (.inside .getTasks StorageCode.getTasks)).inside
        (InMemoryStorage.locked.mode .getTasks) := by
    intro thread holder hinside
    cases thread with
    | false =>
        obtain rfl := Option.some.inj hinside
        rfl
    | true => cases hinside
  exact (hwaiting.step (.acquire rfl hfirst)).step (.acquire rfl hsecond)

/-- Any number of threads may call the storage at once: some order of the calls
explains what each returned, and respects that a call that had returned comes
before one made later.  It explains it by the task map as well, unless it holds
more creates than there are ids. -/
theorem storage_linearizable [DecidableEq Thread]
    {labels : List (ThreadLabel StorageAccess StorageCall.Result Thread)}
    {threads : Threads StorageAccess.Answer InMemoryStorage StorageCall.Result
      Thread}
    (hrun : ThreadRun InMemoryStorage.locked .empty labels threads) :
    ∃ order, storageObject.Linearizes (callHistory labels) order ∧
      ((creations (order.map Prod.snd)).length < sizeLimit →
        taskMapObject.Linearizes (callHistory labels) order) := by
  obtain ⟨order, hexplained⟩ := hrun.explained
  have hlin : storageObject.Linearizes (callHistory labels) order :=
    hexplained.linearizes
  refine ⟨order, hlin, fun hroom => ?_⟩
  constructor
  · exact hlin.once
  · exact hlin.nodup
  · exact hlin.invoked
  · intro id ret hrespond
    exact taskMapObject_returns hroom (hlin.returned id ret hrespond)
  · exact hlin.realTime

/-- One thread creates the first task while another one waits for the mutex. -/
def createWhileWaiting :
    List (ThreadLabel StorageAccess StorageCall.Result Bool) :=
  [.call (true, 0) .getTasks, .call (false, 0) (.createTask ⟨['a'], ['b']⟩),
    .acquire false, .access false .readId, .access false (.writeId 1),
    .access false (.pushBack ⟨0, ⟨['a'], ['b']⟩⟩), .access false .readSize,
    .access false (.readTask 0), .release false, .acquire true,
    .answer (false, 0) (.createTask ⟨['a'], ['b']⟩) ⟨0, ⟨['a'], ['b']⟩⟩]

theorem createWhileWaiting_run : ∃ threads,
    ThreadRun InMemoryStorage.locked .empty createWhileWaiting threads := by
  have hcalled : ThreadRun InMemoryStorage.locked .empty
      (createWhileWaiting.take 2) _ :=
    (ThreadRun.init.step (.call StorageCall.getTasks rfl)).step
      (.call (StorageCall.createTask ⟨['a'], ['b']⟩) rfl)
  have hacquired : ThreadRun InMemoryStorage.locked .empty
      (createWhileWaiting.take 3) _ :=
    hcalled.step (.acquire rfl fun thread => by cases thread <;> rfl)
  have hread : ThreadRun InMemoryStorage.locked .empty
      (createWhileWaiting.take 4) _ :=
    hacquired.step (.access rfl rfl)
  have hissued : ThreadRun InMemoryStorage.locked .empty
      (createWhileWaiting.take 5) _ :=
    hread.step (.access rfl rfl)
  have hpushed : ThreadRun InMemoryStorage.locked .empty
      (createWhileWaiting.take 6) _ :=
    hissued.step (.access rfl rfl)
  have hsized : ThreadRun InMemoryStorage.locked .empty
      (createWhileWaiting.take 7) _ :=
    hpushed.step (.access rfl rfl)
  have hdone : ThreadRun InMemoryStorage.locked .empty
      (createWhileWaiting.take 8) _ :=
    hsized.step (.access rfl rfl)
  have hleft : ThreadRun InMemoryStorage.locked .empty
      (createWhileWaiting.take 9) _ :=
    hdone.step (.release rfl)
  have hother : ThreadRun InMemoryStorage.locked .empty
      (createWhileWaiting.take 10) _ :=
    hleft.step (.acquire rfl fun thread holder hinside => by
      cases thread <;> cases hinside)
  exact ⟨_, hother.step (.answer rfl)⟩

theorem storage_linearizable_create :
    ∃ order, storageObject.Linearizes (callHistory createWhileWaiting) order ∧
      ((creations (order.map Prod.snd)).length < sizeLimit →
        taskMapObject.Linearizes (callHistory createWhileWaiting) order) := by
  obtain ⟨threads, hrun⟩ := createWhileWaiting_run
  exact storage_linearizable hrun

/-- In every state that threads can reach, each access they are about to make
is defined, and where two are about to make one, both read. -/
theorem storage_race_free [DecidableEq Thread]
    {labels : List (ThreadLabel StorageAccess StorageCall.Result Thread)}
    {threads : Threads StorageAccess.Answer InMemoryStorage StorageCall.Result
      Thread}
    (hrun : ThreadRun InMemoryStorage.locked .empty labels threads)
    {thread : Thread} {act : StorageAccess}
    (hnext : threads.next thread = some act) :
    threads.state.perform act ≠ none ∧
      ∀ other, other ≠ thread → threads.next other ≠ none →
        act.writes = false := by
  constructor
  · exact hrun.defined hnext
  · intro other hne hother
    exact hrun.reads hnext hne hother

theorem storage_race_free_readers :
    twoReaders.state.perform .readSize ≠ none ∧
      ∀ other, other ≠ false → twoReaders.next other ≠ none →
        StorageAccess.writes .readSize = false :=
  storage_race_free twoReaders_run rfl

/-- Whatever the scheduler does, without new calls the threads come to rest,
and at rest every call has returned. -/
theorem storage_calls_return [DecidableEq Thread] [Fintype Thread]
    {labels : List (ThreadLabel StorageAccess StorageCall.Result Thread)}
    {threads : Threads StorageAccess.Answer InMemoryStorage StorageCall.Result
      Thread}
    (hrun : ThreadRun InMemoryStorage.locked .empty labels threads) :
    Acc (Quiet InMemoryStorage.locked) threads ∧
      ((∀ after, ¬ Quiet InMemoryStorage.locked after threads) →
        ∀ thread, threads.phases thread = .idle) :=
  ⟨hrun.terminates, fun hstuck => hrun.idle_of_stuck hstuck⟩

theorem storage_calls_return_readers :
    Acc (Quiet InMemoryStorage.locked) twoReaders ∧
      ((∀ after, ¬ Quiet InMemoryStorage.locked after twoReaders) →
        ∀ thread, twoReaders.phases thread = .idle) :=
  storage_calls_return twoReaders_run

end Backend

end JustQueueIt
