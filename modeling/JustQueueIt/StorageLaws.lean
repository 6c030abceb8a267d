/-
Laws between calls of the in-memory storage, on the exact vector and counter.
Deletes commute with each other and with the creation of other tasks, a second
delete does nothing, and deleting what was just created undoes the creation.
-/
import JustQueueIt.StorageHistory

namespace JustQueueIt

namespace Backend

namespace InMemoryStorage

/-- A storage that some calls lead to, with fewer creates than ids. -/
def Reachable (storage : InMemoryStorage) : Prop :=
  ∃ calls, (creations calls).length < sizeLimit ∧
    storage = InMemoryStorage.empty.after calls

/-- The vector is sorted and the next id is above all of it. -/
structure Ordered (storage : InMemoryStorage) : Prop where
  sorted : LowerBound.Sorted Task.id storage.tasks
  fresh : ∀ task ∈ storage.tasks, task.id < storage.id

theorem Reachable.ordered {storage : InMemoryStorage}
    (hreachable : storage.Reachable) : storage.Ordered := by
  obtain ⟨calls, hroom, rfl⟩ := hreachable
  have hrep := represents_after hroom
  refine ⟨hrep.sorted, ?_⟩
  intro task hmem
  rw [hrep.tasks, mem_tasksOf] at hmem
  rw [hrep.id]
  by_contra hle
  rw [CounterMap.fresh _ _ (Nat.le_of_not_lt hle)] at hmem
  cases hmem

namespace Ordered

variable {storage : InMemoryStorage}

theorem deleteTask (hordered : storage.Ordered) (index : Nat) :
    (storage.deleteTask index).Ordered := by
  rw [deleteTask_eq_filter hordered.sorted]
  refine ⟨hordered.sorted.filter _, ?_⟩
  intro task hmem
  exact hordered.fresh task (List.mem_of_mem_filter hmem)

/-- The vector stays sorted also when the counter wraps around. -/
theorem sorted_createTask (hordered : storage.Ordered)
    (payload : TaskPayload) :
    LowerBound.Sorted Task.id (storage.createTask payload).2.tasks := by
  apply List.pairwise_append.mpr
  refine ⟨hordered.sorted, List.pairwise_singleton _ _, ?_⟩
  intro task hmem last hlast
  obtain rfl := List.mem_singleton.mp hlast
  exact hordered.fresh task hmem

theorem deleteTask_comm (hordered : storage.Ordered) (i j : Nat) :
    (storage.deleteTask i).deleteTask j =
      (storage.deleteTask j).deleteTask i := by
  rw [deleteTask_eq_filter (hordered.deleteTask i).sorted,
    deleteTask_eq_filter (hordered.deleteTask j).sorted,
    deleteTask_eq_filter hordered.sorted,
    deleteTask_eq_filter hordered.sorted, List.filter_comm]

theorem deleteTask_idem (hordered : storage.Ordered) (i : Nat) :
    (storage.deleteTask i).deleteTask i = storage.deleteTask i := by
  rw [deleteTask_eq_filter (hordered.deleteTask i).sorted,
    deleteTask_eq_filter hordered.sorted, List.filter_filter]
  simp only [Bool.and_self]

theorem createTask_deleteTask_comm (hordered : storage.Ordered) {i : Nat}
    (hi : i ≠ storage.id) (payload : TaskPayload) :
    (storage.createTask payload).2.deleteTask i =
        ((storage.deleteTask i).createTask payload).2 ∧
      (storage.createTask payload).1 =
        ((storage.deleteTask i).createTask payload).1 := by
  rw [deleteTask_eq_filter (hordered.sorted_createTask payload),
    deleteTask_eq_filter hordered.sorted]
  refine ⟨?_, rfl⟩
  simp [createTask, List.filter_append, Ne.symm hi]

/-- Deleting the task that was just created leaves only the counter moved. -/
theorem deleteTask_createTask (hordered : storage.Ordered)
    (payload : TaskPayload) :
    (storage.createTask payload).2.deleteTask
        (storage.createTask payload).1.id =
      ⟨storage.tasks, (storage.id + 1) % sizeLimit⟩ := by
  have hkeep : storage.tasks.filter (fun task => task.id ≠ storage.id) =
      storage.tasks := by
    apply List.filter_eq_self.mpr
    intro task hmem
    exact decide_eq_true (Nat.ne_of_lt (hordered.fresh task hmem))
  rw [deleteTask_eq_filter (hordered.sorted_createTask payload)]
  change InMemoryStorage.mk
    ((storage.tasks ++ [Task.mk storage.id payload]).filter
      fun task => task.id ≠ storage.id) _ = _
  rw [List.filter_append, hkeep]
  simp [createTask]

end Ordered

/-- Independent calls commute and deletes are idempotent, exactly. -/
theorem storage_calls_commute {storage : InMemoryStorage}
    (hreachable : storage.Reachable) :
    (∀ i j, (storage.deleteTask i).deleteTask j =
      (storage.deleteTask j).deleteTask i) ∧
    (∀ i, (storage.deleteTask i).deleteTask i = storage.deleteTask i) ∧
    (∀ i payload, i ≠ storage.id →
      (storage.createTask payload).2.deleteTask i =
          ((storage.deleteTask i).createTask payload).2 ∧
        (storage.createTask payload).1 =
          ((storage.deleteTask i).createTask payload).1) ∧
    ∀ payload, (storage.createTask payload).2.deleteTask
        (storage.createTask payload).1.id =
      ⟨storage.tasks, (storage.id + 1) % sizeLimit⟩ := by
  have hordered := hreachable.ordered
  exact ⟨hordered.deleteTask_comm, hordered.deleteTask_idem,
    fun _ payload hi => hordered.createTask_deleteTask_comm hi payload,
    hordered.deleteTask_createTask⟩

/-- Two tasks: the first is deleted, and one more is created meanwhile. -/
theorem storage_calls_commute_sample :
    ((InMemoryStorage.empty.after [.createTask ⟨['a'], []⟩,
        .createTask ⟨['b'], []⟩]).createTask ⟨['c'], []⟩).2.deleteTask 0 =
      (((InMemoryStorage.empty.after [.createTask ⟨['a'], []⟩,
        .createTask ⟨['b'], []⟩]).deleteTask 0).createTask ⟨['c'], []⟩).2 :=
  ((storage_calls_commute ⟨[.createTask ⟨['a'], []⟩, .createTask ⟨['b'], []⟩],
    by decide, rfl⟩).2.2.1 0 ⟨['c'], []⟩ (by decide)).1

end InMemoryStorage

end Backend

end JustQueueIt
