/-
`backend::DataStorage` and its in-memory implementation: a vector of tasks and
a counter, searched with `lower_bound`.  While the counter has not wrapped
around, the vector lists a counter map in ascending key order, and every call
is the call on that map.
-/
import JustQueueIt.CounterMap
import JustQueueIt.LowerBound
import JustQueueIt.RestCore

namespace JustQueueIt

namespace Backend

/-- `backend::TaskPayload`. -/
structure TaskPayload where
  name : Str
  description : Str
deriving Repr, DecidableEq

/-- `backend::Task`. -/
structure Task where
  id : Nat
  payload : TaskPayload
deriving Repr, DecidableEq

/-- The calls of the `DataStorage` interface. -/
inductive StorageCall where
  | createTask (payload : TaskPayload)
  | getTask (index : Nat)
  | deleteTask (index : Nat)
  | getTasks
deriving Repr, DecidableEq

/-- What each call returns. -/
abbrev StorageCall.Result : StorageCall → Type
  | .createTask _ => Task
  | .getTask _ => Option Task
  | .deleteTask _ => Unit
  | .getTasks => List Task

/-- The values of `size_t`. -/
def sizeLimit : Nat := 2 ^ 64

/-- `InMemoryStorage`: `m_tasks` and `m_id`. -/
structure InMemoryStorage where
  tasks : List Task
  id : Nat
deriving Repr, DecidableEq

namespace InMemoryStorage

def empty : InMemoryStorage :=
  ⟨[], 0⟩

/-- The index `lower_bound(m_tasks, index, less{}, &Task::id)` stops at. -/
def search (storage : InMemoryStorage) (index : Nat) : Nat :=
  lowerBound (fun task => task.id < index) storage.tasks

/-- `CreateTask`; `m_id++` wraps around. -/
def createTask (storage : InMemoryStorage) (payload : TaskPayload) :
    Task × InMemoryStorage :=
  let task : Task := ⟨storage.id, payload⟩
  (task, ⟨storage.tasks ++ [task], (storage.id + 1) % sizeLimit⟩)

/-- `DeleteTask`. -/
def deleteTask (storage : InMemoryStorage) (index : Nat) : InMemoryStorage :=
  match storage.tasks[storage.search index]? with
  | none => storage
  | some task =>
      if task.id ≠ index then storage
      else
        { storage with
          tasks := storage.tasks.eraseIdx (storage.search index) }

/-- `GetTask`. -/
def getTask (storage : InMemoryStorage) (index : Nat) : Option Task :=
  match storage.tasks[storage.search index]? with
  | none => none
  | some task => if task.id ≠ index then none else some task

/-- `GetTasks`. -/
def getTasks (storage : InMemoryStorage) : List Task :=
  storage.tasks

/-- One call, made under `m_mutex`. -/
def exec (storage : InMemoryStorage) :
    (call : StorageCall) → call.Result × InMemoryStorage
  | .createTask payload => storage.createTask payload
  | .getTask index => (storage.getTask index, storage)
  | .deleteTask index => ((), storage.deleteTask index)
  | .getTasks => (storage.getTasks, storage)

/-- The storage a sequence of calls leads to. -/
def after (storage : InMemoryStorage) (calls : List StorageCall) :
    InMemoryStorage :=
  calls.foldl (fun storage call => (storage.exec call).2) storage

@[simp] theorem after_nil (storage : InMemoryStorage) :
    storage.after [] = storage := rfl

@[simp] theorem after_cons (storage : InMemoryStorage) (call : StorageCall)
    (calls : List StorageCall) :
    storage.after (call :: calls) = (storage.exec call).2.after calls := rfl

theorem after_append (storage : InMemoryStorage)
    (first second : List StorageCall) :
    storage.after (first ++ second) = (storage.after first).after second :=
  List.foldl_append ..

theorem createTask_ne (storage : InMemoryStorage) (payload : TaskPayload) :
    (storage.createTask payload).2 ≠ storage := by
  intro heq
  have hlength := congrArg (fun storage => storage.tasks.length) heq
  simp [createTask] at hlength

/-- A delete changes the storage exactly when a lookup of the same index finds
a task. -/
theorem deleteTask_eq_self_iff (storage : InMemoryStorage) (index : Nat) :
    storage.deleteTask index = storage ↔ storage.getTask index = none := by
  unfold deleteTask getTask
  cases hget : storage.tasks[storage.search index]? with
  | none => simp
  | some task =>
      by_cases hid : task.id = index
      · obtain ⟨hlt, -⟩ := List.getElem?_eq_some_iff.mp hget
        simp only [hid, ne_eq, not_true_eq_false, ↓reduceIte, reduceCtorEq,
          iff_false]
        intro heq
        have hlength := congrArg (fun storage => storage.tasks.length) heq
        simp only [List.length_eraseIdx_of_lt hlt] at hlength
        omega
      · simp [hid]

/-- On tasks in ascending id order a delete takes out the tasks of its id. -/
theorem deleteTask_eq_filter {storage : InMemoryStorage}
    (hsorted : LowerBound.Sorted Task.id storage.tasks) (index : Nat) :
    storage.deleteTask index =
      ⟨storage.tasks.filter fun task => task.id ≠ index, storage.id⟩ := by
  by_cases hpresent : ∃ task ∈ storage.tasks, task.id = index
  · obtain ⟨task, hmem, hid⟩ := hpresent
    have hget : storage.tasks[storage.search index]? = some task :=
      (hsorted.getElem?_lowerBound hid).mpr hmem
    obtain ⟨hlt, hitem⟩ := List.getElem?_eq_some_iff.mp hget
    simp only [deleteTask, hget, hid, ne_eq, not_true_eq_false, ↓reduceIte,
      hsorted.eraseIdx_eq_filter hlt, hitem]
  · push Not at hpresent
    have hself : storage.deleteTask index = storage := by
      rw [deleteTask]
      cases hget : storage.tasks[storage.search index]? with
      | none => rfl
      | some task => exact if_pos (hpresent task (List.mem_of_getElem? hget))
    rw [hself, List.filter_eq_self.mpr]
    intro task hmem
    exact decide_eq_true (hpresent task hmem)

/-- The calls that change a storage. -/
def Changes (storage : InMemoryStorage) : StorageCall → Prop
  | .createTask _ => True
  | .deleteTask index => storage.getTask index ≠ none
  | _ => False

theorem exec_eq_self_iff (storage : InMemoryStorage) (call : StorageCall) :
    (storage.exec call).2 = storage ↔ ¬ storage.Changes call := by
  cases call with
  | createTask payload =>
      exact iff_of_false (storage.createTask_ne payload) (by simp [Changes])
  | deleteTask index =>
      exact (storage.deleteTask_eq_self_iff index).trans not_not.symm
  | getTask index => exact iff_of_true rfl not_false
  | getTasks => exact iff_of_true rfl not_false

end InMemoryStorage

/-- The abstract storage: payloads by task id. -/
abbrev TaskMap := CounterMap TaskPayload

/-- The tasks of a map, in ascending id order. -/
def tasksOf (map : TaskMap) : List Task :=
  map.entries.map fun entry => ⟨entry.1, entry.2⟩

theorem mem_tasksOf {map : TaskMap} {task : Task} :
    task ∈ tasksOf map ↔ map.get? task.id = some task.payload := by
  simp only [tasksOf, List.mem_map, Prod.exists]
  constructor
  · rintro ⟨k, payload, hmem, rfl⟩
    exact CounterMap.mem_entries.mp hmem
  · intro hget
    exact ⟨task.id, task.payload, CounterMap.mem_entries.mpr hget, rfl⟩

theorem tasksOf_sorted (map : TaskMap) :
    LowerBound.Sorted Task.id (tasksOf map) :=
  List.pairwise_map.mpr map.entries_pairwise

theorem tasksOf_create (map : TaskMap) (payload : TaskPayload) :
    tasksOf (map.create payload) = tasksOf map ++ [⟨map.next, payload⟩] := by
  simp [tasksOf, CounterMap.entries_create]

theorem tasksOf_erase (map : TaskMap) (index : Nat) :
    tasksOf (map.erase index) =
      (tasksOf map).filter fun task => task.id ≠ index := by
  simp only [tasksOf, CounterMap.entries_erase, List.filter_map]
  rfl

/-- The storage lists the map, and its counter has not wrapped around. -/
structure Represents (storage : InMemoryStorage) (map : TaskMap) : Prop where
  tasks : storage.tasks = tasksOf map
  id : storage.id = map.next
  bound : map.next < sizeLimit

namespace Represents

variable {storage : InMemoryStorage} {map : TaskMap}

theorem empty : Represents .empty .empty :=
  ⟨rfl, rfl, by decide⟩

/-- Looking for an id in a storage that lists a map finds that task or a task
with another id. -/
theorem getElem?_search (hrep : Represents storage map) {index : Nat}
    {task : Task} (hid : task.id = index) :
    storage.tasks[storage.search index]? = some task ↔ task ∈ tasksOf map := by
  unfold InMemoryStorage.search
  rw [hrep.tasks]
  exact (tasksOf_sorted map).getElem?_lowerBound hid

theorem getTask (hrep : Represents storage map) (index : Nat) :
    storage.getTask index = (map.get? index).map (Task.mk index) := by
  unfold InMemoryStorage.getTask
  cases hmap : map.get? index with
  | some payload =>
      have hmem : (⟨index, payload⟩ : Task) ∈ tasksOf map :=
        mem_tasksOf.mpr hmap
      rw [(hrep.getElem?_search rfl).mpr hmem]
      simp
  | none =>
      cases hget : storage.tasks[storage.search index]? with
      | none => rfl
      | some task =>
          by_cases hid : task.id = index
          · have hmem := mem_tasksOf.mp ((hrep.getElem?_search hid).mp hget)
            rw [hid, hmap] at hmem
            cases hmem
          · simp [hid]

theorem getTasks (hrep : Represents storage map) :
    storage.getTasks = tasksOf map :=
  hrep.tasks

theorem createTask_fst (hrep : Represents storage map)
    (payload : TaskPayload) :
    (storage.createTask payload).1 = ⟨map.next, payload⟩ := by
  simp [InMemoryStorage.createTask, hrep.id]

theorem createTask (hrep : Represents storage map)
    (hroom : map.next + 1 < sizeLimit) (payload : TaskPayload) :
    Represents (storage.createTask payload).2 (map.create payload) where
  tasks := by
    simp [InMemoryStorage.createTask, hrep.tasks, hrep.id, tasksOf_create]
  id := by
    simp [InMemoryStorage.createTask, hrep.id, Nat.mod_eq_of_lt hroom]
  bound := hroom

theorem sorted (hrep : Represents storage map) :
    LowerBound.Sorted Task.id storage.tasks := by
  rw [hrep.tasks]
  exact tasksOf_sorted map

theorem deleteTask (hrep : Represents storage map) (index : Nat) :
    Represents (storage.deleteTask index) (map.erase index) := by
  rw [InMemoryStorage.deleteTask_eq_filter hrep.sorted]
  exact ⟨by rw [tasksOf_erase, hrep.tasks], hrep.id, hrep.bound⟩

end Represents

end Backend

end JustQueueIt
