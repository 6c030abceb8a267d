/-
Programs over the storage interface.  A handler is such a program: it may stop
with a value or make one storage call and go on with its result.  Running a
program on a storage gives its sequential meaning; the calls it makes are the
only points where another session can come in between.
-/
import JustQueueIt.StorageHistory

namespace JustQueueIt

namespace Backend

/-- A computation that uses the storage only through its calls. -/
inductive StorageProg (α : Type) where
  | ret (value : α)
  | call (op : StorageCall) (next : op.Result → StorageProg α)

namespace StorageProg

variable {α β : Type}

def bind : StorageProg α → (α → StorageProg β) → StorageProg β
  | .ret value, f => f value
  | .call op next, f => .call op fun result => (next result).bind f

instance : Monad StorageProg where
  pure := .ret
  bind := bind

@[simp] theorem pure_eq (value : α) :
    (pure value : StorageProg α) = .ret value := rfl

@[simp] theorem ret_bind (value : α) (f : α → StorageProg β) :
    (StorageProg.ret value >>= f) = f value := rfl

@[simp] theorem call_bind (op : StorageCall)
    (next : op.Result → StorageProg α) (f : α → StorageProg β) :
    (StorageProg.call op next >>= f) =
      .call op fun result => next result >>= f := rfl

instance : LawfulMonad StorageProg :=
  LawfulMonad.mk' StorageProg
    (by
      intro α program
      induction program with
      | ret value => rfl
      | call op next ih => exact congrArg (StorageProg.call op) (funext ih))
    (fun _ _ => rfl)
    (by
      intro α β γ program f g
      induction program with
      | ret value => rfl
      | call op next ih => exact congrArg (StorageProg.call op) (funext ih))

@[simp] theorem map_ret (f : α → β) (value : α) :
    f <$> StorageProg.ret value = .ret (f value) := rfl

@[simp] theorem map_call (f : α → β) (op : StorageCall)
    (next : op.Result → StorageProg α) :
    f <$> StorageProg.call op next =
      .call op fun result => f <$> next result := rfl

/-- Run a program with nothing in between its calls. -/
def run : StorageProg α → InMemoryStorage → α × InMemoryStorage
  | .ret value, storage => (value, storage)
  | .call op next, storage =>
      (next (storage.exec op).1).run (storage.exec op).2

/-- The calls a program makes when run. -/
def calls : StorageProg α → InMemoryStorage → List StorageCall
  | .ret _, _ => []
  | .call op next, storage =>
      op :: (next (storage.exec op).1).calls (storage.exec op).2

@[simp] theorem run_ret (value : α) (storage : InMemoryStorage) :
    (StorageProg.ret value).run storage = (value, storage) := rfl

@[simp] theorem run_call (op : StorageCall)
    (next : op.Result → StorageProg α) (storage : InMemoryStorage) :
    (StorageProg.call op next).run storage =
      (next (storage.exec op).1).run (storage.exec op).2 := rfl

theorem run_bind (program : StorageProg α) (f : α → StorageProg β)
    (storage : InMemoryStorage) :
    (program >>= f).run storage =
      (f (program.run storage).1).run (program.run storage).2 := by
  induction program generalizing storage with
  | ret value => rfl
  | call op next ih => exact ih _ _

@[simp] theorem run_map (f : α → β) (program : StorageProg α)
    (storage : InMemoryStorage) :
    (f <$> program).run storage =
      (f (program.run storage).1, (program.run storage).2) := by
  induction program generalizing storage with
  | ret value => rfl
  | call op next ih => exact ih _ _

@[simp] theorem calls_map (f : α → β) (program : StorageProg α)
    (storage : InMemoryStorage) :
    (f <$> program).calls storage = program.calls storage := by
  induction program generalizing storage with
  | ret value => rfl
  | call op next ih => exact congrArg (op :: ·) (ih _ _)

/-- A program changes the storage only by its calls. -/
theorem run_snd (program : StorageProg α) (storage : InMemoryStorage) :
    (program.run storage).2 = storage.after (program.calls storage) := by
  induction program generalizing storage with
  | ret value => rfl
  | call op next ih => exact ih _ _

end StorageProg

/-- One storage call, as a program. -/
def storageCall (op : StorageCall) : StorageProg op.Result :=
  .call op .ret

namespace TasksManager

/-- `TasksManager` forwards every call to the storage it shares. -/
def createTask (payload : TaskPayload) : StorageProg Task :=
  storageCall (.createTask payload)

def getTasks : StorageProg (List Task) :=
  storageCall .getTasks

def getTask (id : Nat) : StorageProg (Option Task) :=
  storageCall (.getTask id)

def deleteTask (id : Nat) : StorageProg Unit :=
  storageCall (.deleteTask id)

end TasksManager

end Backend

end JustQueueIt
