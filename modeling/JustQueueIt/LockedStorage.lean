/-
`InMemoryStorage` as threads run it: every member function takes `m_mutex` and
then touches `m_id` and `m_tasks` one element at a time.  `CreateTask`,
`DeleteTask` and `GetTask` hold the mutex exclusively, `GetTasks` shares it.
-/
import JustQueueIt.SharedMutex
import JustQueueIt.TaskStorage

namespace JustQueueIt

namespace Backend

open SharedMutex

/-- The accesses to the members: the counter, the size of the vector, and one
of its elements. -/
inductive StorageAccess where
  | readId
  | writeId (id : Nat)
  | readSize
  | readTask (index : Nat)
  | writeTask (index : Nat) (task : Task)
  | pushBack (task : Task)
  | popBack
deriving Repr, DecidableEq

abbrev StorageAccess.Answer : StorageAccess → Type
  | .readId => Nat
  | .writeId _ => Unit
  | .readSize => Nat
  | .readTask _ => Task
  | .writeTask _ _ => Unit
  | .pushBack _ => Unit
  | .popBack => Unit

def StorageAccess.writes : StorageAccess → Bool
  | .readId => false
  | .writeId _ => true
  | .readSize => false
  | .readTask _ => false
  | .writeTask _ _ => true
  | .pushBack _ => true
  | .popBack => true

/-- An element outside the vector is neither read nor written, and nothing is
taken off an empty vector. -/
def InMemoryStorage.perform (storage : InMemoryStorage) :
    (act : StorageAccess) → Option (act.Answer × InMemoryStorage)
  | .readId => some (storage.id, storage)
  | .writeId id => some ((), { storage with id := id })
  | .readSize => some (storage.tasks.length, storage)
  | .readTask index => storage.tasks[index]?.map fun task => (task, storage)
  | .writeTask index task =>
      if index < storage.tasks.length then
        some ((), { storage with tasks := storage.tasks.set index task })
      else none
  | .pushBack task =>
      some ((), { storage with tasks := storage.tasks ++ [task] })
  | .popBack =>
      if storage.tasks = [] then none
      else some ((), { storage with tasks := storage.tasks.dropLast })

def storageMemory :
    Memory StorageAccess StorageAccess.Answer InMemoryStorage where
  writes := StorageAccess.writes
  perform := InMemoryStorage.perform
  keeps := by
    intro storage after act answer hwrites hperform
    cases act with
    | readId => exact (Prod.mk.inj (Option.some.inj hperform)).2.symm
    | readSize => exact (Prod.mk.inj (Option.some.inj hperform)).2.symm
    | readTask index =>
        obtain ⟨task, -, heq⟩ := Option.map_eq_some_iff.mp hperform
        exact (Prod.mk.inj heq).2.symm
    | writeId id => simp [StorageAccess.writes] at hwrites
    | writeTask index task => simp [StorageAccess.writes] at hwrites
    | pushBack task => simp [StorageAccess.writes] at hwrites
    | popBack => simp [StorageAccess.writes] at hwrites

/-- Code under `m_mutex`. -/
abbrev StorageCode := Code StorageAccess.Answer

namespace StorageCode

def readId : StorageCode Nat := .perform StorageAccess.readId

def writeId (id : Nat) : StorageCode Unit :=
  .perform (StorageAccess.writeId id)

def readSize : StorageCode Nat := .perform StorageAccess.readSize

def readTask (index : Nat) : StorageCode Task :=
  .perform (StorageAccess.readTask index)

def writeTask (index : Nat) (task : Task) : StorageCode Unit :=
  .perform (StorageAccess.writeTask index task)

def pushBack (task : Task) : StorageCode Unit :=
  .perform (StorageAccess.pushBack task)

def popBack : StorageCode Unit := .perform StorageAccess.popBack

/-- `m_tasks.back()`. -/
def back : StorageCode Task := do
  let size ← readSize
  readTask (size - 1)

/-- `CreateTask`. -/
def createTask (payload : TaskPayload) : StorageCode Task := do
  let id ← readId
  writeId ((id + 1) % sizeLimit)
  pushBack ⟨id, payload⟩
  back

/-- The halving search of `lower_bound` by `Task::id`. -/
def searchLoop (index : Nat) : Nat → Nat → Nat → StorageCode Nat
  | 0, first, _ => pure first
  | rounds + 1, first, len =>
      if len = 0 then pure first
      else do
        let half := len / 2
        let middle ← readTask (first + half)
        if middle.id < index then
          searchLoop index rounds (first + half + 1) (len - half - 1)
        else searchLoop index rounds first half

def lowerBound (index : Nat) : StorageCode Nat := do
  let size ← readSize
  searchLoop index size 0 size

/-- `vector::erase` moves what follows one place down, an element at a time. -/
def moveDown : Nat → Nat → StorageCode Unit
  | 0, _ => pure ()
  | count + 1, place => do
      let task ← readTask (place + 1)
      writeTask place task
      moveDown count (place + 1)

/-- `m_tasks.erase(itr)`. -/
def erase (itr : Nat) : StorageCode Unit := do
  let size ← readSize
  moveDown (size - 1 - itr) itr
  popBack

/-- `DeleteTask`. -/
def deleteTask (index : Nat) : StorageCode Unit := do
  let itr ← lowerBound index
  let size ← readSize
  if itr = size then pure ()
  else do
    let task ← readTask itr
    if task.id ≠ index then pure () else erase itr

/-- `GetTask`. -/
def getTask (index : Nat) : StorageCode (Option Task) := do
  let itr ← lowerBound index
  let size ← readSize
  if itr = size then pure none
  else do
    let task ← readTask itr
    if task.id ≠ index then pure none else pure (some task)

/-- The copy of a vector takes its elements in order. -/
def copyLoop : Nat → Nat → StorageCode (List Task)
  | 0, _ => pure []
  | count + 1, place => do
      let task ← readTask place
      let rest ← copyLoop count (place + 1)
      pure (task :: rest)

/-- `GetTasks`. -/
def getTasks : StorageCode (List Task) := do
  let size ← readSize
  copyLoop size 0

variable {storage : InMemoryStorage}

theorem run_readTask {index : Nat} (hlt : index < storage.tasks.length) :
    (readTask index).run storageMemory storage =
      some (storage.tasks[index], storage) := by
  simp [readTask, Code.perform, Code.run, storageMemory,
    InMemoryStorage.perform, List.getElem?_eq_getElem hlt]

theorem run_writeTask {index : Nat} (hlt : index < storage.tasks.length)
    (task : Task) :
    (writeTask index task).run storageMemory storage =
      some ((), { storage with tasks := storage.tasks.set index task }) := by
  simp [writeTask, Code.perform, Code.run, storageMemory,
    InMemoryStorage.perform, hlt]

theorem run_popBack (hne : storage.tasks ≠ []) :
    popBack.run storageMemory storage =
      some ((), { storage with tasks := storage.tasks.dropLast }) := by
  simp [popBack, Code.perform, Code.run, storageMemory,
    InMemoryStorage.perform, hne]

theorem run_readSize (storage : InMemoryStorage) :
    readSize.run storageMemory storage =
      some (storage.tasks.length, storage) := rfl

theorem run_createTask (payload : TaskPayload) :
    (createTask payload).run storageMemory storage =
      some (storage.createTask payload) := by
  have hback : back.run storageMemory (storage.createTask payload).2 =
      some (storage.createTask payload) := by
    rw [back, Code.run_bind_of_run (run_readSize _), run_readTask]
    · simp [InMemoryStorage.createTask]
    · simp [InMemoryStorage.createTask]
  exact hback

/-- The search reads inside the vector only. -/
theorem run_searchLoop (index rounds : Nat) :
    ∀ {first len : Nat}, first + len ≤ storage.tasks.length →
      (searchLoop index rounds first len).run storageMemory storage =
        some (lowerBoundLoop (fun task => task.id < index) storage.tasks rounds
          first len, storage) := by
  induction rounds with
  | zero =>
      intro first len _
      rfl
  | succ rounds ih =>
      intro first len hfits
      unfold searchLoop lowerBoundLoop
      by_cases hzero : len = 0
      · simp [hzero]
      have hmiddle : first + len / 2 < storage.tasks.length := by omega
      simp only [hzero, ↓reduceIte, List.getElem?_eq_getElem hmiddle,
        decide_eq_true_eq]
      rw [Code.run_bind_of_run (run_readTask hmiddle)]
      by_cases hbefore : storage.tasks[first + len / 2].id < index
      · simp only [hbefore, ↓reduceIte]
        exact ih (by omega)
      · simp only [hbefore, ↓reduceIte]
        exact ih (by omega)

theorem run_lowerBound (index : Nat) :
    (lowerBound index).run storageMemory storage =
      some (storage.search index, storage) := by
  rw [lowerBound, Code.run_bind_of_run (run_readSize storage)]
  exact run_searchLoop index _ (by omega)

/-- Taking out an element is moving the next one into its place and taking out
that. -/
theorem eraseIdx_set_next {α : Type} {items : List α} {place : Nat}
    (hnext : place + 1 < items.length) :
    (items.set place items[place + 1]).eraseIdx (place + 1) =
      items.eraseIdx place := by
  induction items generalizing place with
  | nil => simp at hnext
  | cons head tail ih =>
      cases place with
      | zero =>
          cases tail with
          | nil => simp at hnext
          | cons second rest => rfl
      | succ place =>
          have htail : place + 1 < tail.length := by simpa using hnext
          simpa using ih htail

/-- The moves leave the last element twice. -/
theorem run_moveDown (count : Nat) :
    ∀ (storage : InMemoryStorage) (place : Nat),
      place + count + 1 = storage.tasks.length →
      ∃ tasks, (moveDown count place).run storageMemory storage =
          some ((), { storage with tasks := tasks }) ∧
        tasks ≠ [] ∧ tasks.dropLast = storage.tasks.eraseIdx place := by
  induction count with
  | zero =>
      intro storage place hlength
      refine ⟨storage.tasks, rfl, ?_, ?_⟩
      · intro hnil
        simp [hnil] at hlength
      · exact (List.eraseIdx_eq_dropLast hlength).symm
  | succ count ih =>
      intro storage place hlength
      have hplace : place < storage.tasks.length := by omega
      have hnext : place + 1 < storage.tasks.length := by omega
      obtain ⟨tasks, hrun, hne, hlast⟩ := ih
        ⟨storage.tasks.set place storage.tasks[place + 1], storage.id⟩
        (place + 1) (by rw [List.length_set]; omega)
      refine ⟨tasks, ?_, hne, ?_⟩
      · rw [moveDown, Code.run_bind_of_run (run_readTask hnext),
          Code.run_bind_of_run (run_writeTask hplace _)]
        exact hrun
      · exact hlast.trans (eraseIdx_set_next hnext)

theorem run_erase {itr : Nat} (hlt : itr < storage.tasks.length) :
    (erase itr).run storageMemory storage =
      some ((), { storage with tasks := storage.tasks.eraseIdx itr }) := by
  obtain ⟨tasks, hrun, hne, hlast⟩ := run_moveDown
    (storage.tasks.length - 1 - itr) storage itr (by omega)
  rw [erase, Code.run_bind_of_run (run_readSize storage),
    Code.run_bind_of_run hrun, run_popBack hne, hlast]

theorem run_copyLoop (count : Nat) :
    ∀ {place : Nat}, place + count = storage.tasks.length →
      (copyLoop count place).run storageMemory storage =
        some (storage.tasks.drop place, storage) := by
  induction count with
  | zero =>
      intro place hlength
      rw [List.drop_eq_nil_of_le (by omega)]
      rfl
  | succ count ih =>
      intro place hlength
      have hplace : place < storage.tasks.length := by omega
      rw [copyLoop, Code.run_bind_of_run (run_readTask hplace),
        Code.run_bind_of_run (ih (by omega)), Code.run_pure,
        List.getElem_cons_drop]

theorem run_getTasks : getTasks.run storageMemory storage =
    some (storage.getTasks, storage) := by
  rw [getTasks, Code.run_bind_of_run (run_readSize storage)]
  exact run_copyLoop _ (Nat.zero_add _)

/-- The iterator that `DeleteTask` and `GetTask` look at. -/
theorem run_found {α : Type} (index : Nat) (missing : StorageCode α)
    (found : Nat → Task → StorageCode α) :
    (do let itr ← lowerBound index
        let size ← readSize
        if itr = size then missing
        else do
          let task ← readTask itr
          found itr task).run storageMemory storage =
      match storage.tasks[storage.search index]? with
      | none => missing.run storageMemory storage
      | some task =>
          (found (storage.search index) task).run storageMemory storage := by
  have hle := LowerBound.loop_le (fun task => decide (task.id < index))
    storage.tasks storage.tasks.length 0 storage.tasks.length
  change storage.search index ≤ 0 + storage.tasks.length at hle
  rw [Code.run_bind_of_run (run_lowerBound index),
    Code.run_bind_of_run (run_readSize storage)]
  by_cases hend : storage.search index = storage.tasks.length
  · rw [if_pos hend, List.getElem?_eq_none (Nat.le_of_eq hend.symm)]
  · have hlt : storage.search index < storage.tasks.length := by omega
    rw [if_neg hend, Code.run_bind_of_run (run_readTask hlt),
      List.getElem?_eq_getElem hlt]

theorem run_getTask (index : Nat) : (getTask index).run storageMemory storage =
    some (storage.getTask index, storage) := by
  rw [getTask, run_found, InMemoryStorage.getTask]
  cases storage.tasks[storage.search index]? with
  | none => rfl
  | some task =>
      by_cases hid : task.id = index
      · simp [hid]
      · simp [hid]

theorem run_deleteTask (index : Nat) :
    (deleteTask index).run storageMemory storage =
      some ((), storage.deleteTask index) := by
  rw [deleteTask, run_found, InMemoryStorage.deleteTask]
  cases hget : storage.tasks[storage.search index]? with
  | none => rfl
  | some task =>
      obtain ⟨hlt, -⟩ := List.getElem?_eq_some_iff.mp hget
      by_cases hid : task.id = index
      · simp [hid, run_erase hlt]
      · simp [hid]

theorem readOnly_copyLoop (count : Nat) :
    ∀ place : Nat, (copyLoop count place).ReadOnly storageMemory := by
  induction count with
  | zero =>
      intro place
      trivial
  | succ count ih =>
      intro place
      refine ⟨rfl, fun task => ?_⟩
      exact (ih (place + 1)).bind fun rest => trivial

theorem readOnly_getTasks : getTasks.ReadOnly storageMemory :=
  ⟨rfl, fun size => readOnly_copyLoop size 0⟩

end StorageCode

namespace InMemoryStorage

/-- `std::lock_guard` or `std::shared_lock` on `m_mutex`. -/
def lockMode : StorageCall → Mode
  | .createTask _ => .exclusive
  | .getTask _ => .exclusive
  | .deleteTask _ => .exclusive
  | .getTasks => .shared

def code : (call : StorageCall) → StorageCode call.Result
  | .createTask payload => StorageCode.createTask payload
  | .getTask index => StorageCode.getTask index
  | .deleteTask index => StorageCode.deleteTask index
  | .getTasks => StorageCode.getTasks

/-- On every storage, sorted or not, the code of a call makes defined accesses
only and is the call as a whole. -/
theorem run_code (call : StorageCall) (storage : InMemoryStorage) :
    (code call).run storageMemory storage = some (storage.exec call) := by
  cases call with
  | createTask payload => exact StorageCode.run_createTask payload
  | getTask index => exact StorageCode.run_getTask index
  | deleteTask index => exact StorageCode.run_deleteTask index
  | getTasks => exact StorageCode.run_getTasks

/-- The member functions under their mutex. -/
def locked : Guarded storageMemory StorageCall StorageCall.Result where
  mode := lockMode
  code := code
  apply := exec
  readOnly := by
    intro call hshared
    cases call with
    | getTasks => exact StorageCode.readOnly_getTasks
    | createTask payload => simp [lockMode] at hshared
    | getTask index => simp [lockMode] at hshared
    | deleteTask index => simp [lockMode] at hshared
  run_code := run_code

end InMemoryStorage

end Backend

end JustQueueIt
