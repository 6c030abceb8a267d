/-
The in-memory storage as a function of its history.  A run of calls is folded
over the abstract map, the map is read off the history, and the refinement
carries both to what the calls return.
-/
import JustQueueIt.TaskStorage
import Mathlib.Data.List.Induction

namespace JustQueueIt

namespace Backend

/-- The payloads of the `CreateTask` calls, in call order. -/
def creations (calls : List StorageCall) : List TaskPayload :=
  calls.filterMap fun
    | .createTask payload => some payload
    | _ => none

@[simp] theorem creations_append (first second : List StorageCall) :
    creations (first ++ second) = creations first ++ creations second :=
  List.filterMap_append

/-- The effect of a call on the abstract map. -/
def applyCall (map : TaskMap) : StorageCall → TaskMap
  | .createTask payload => map.create payload
  | .deleteTask index => map.erase index
  | _ => map

/-- What a call returns on the abstract map. -/
def resultOn (map : TaskMap) : (call : StorageCall) → call.Result
  | .createTask payload => ⟨map.next, payload⟩
  | .getTask index => (map.get? index).map (Task.mk index)
  | .deleteTask _ => ()
  | .getTasks => tasksOf map

/-- The abstract map a run of calls leads to. -/
def mapAfter (map : TaskMap) (calls : List StorageCall) : TaskMap :=
  calls.foldl applyCall map

theorem applyCall_next (map : TaskMap) (call : StorageCall) :
    (applyCall map call).next = map.next + (creations [call]).length := by
  cases call <;> rfl

theorem mapAfter_next (map : TaskMap) (calls : List StorageCall) :
    (mapAfter map calls).next = map.next + (creations calls).length := by
  induction calls generalizing map with
  | nil => rfl
  | cons call calls ih =>
      have hstep := applyCall_next map call
      have hsplit := congrArg List.length (creations_append [call] calls)
      rw [List.length_append] at hsplit
      change (mapAfter (applyCall map call) calls).next = _
      rw [ih, hstep]
      change _ = map.next + (creations ([call] ++ calls)).length
      omega

/-- A storage returns what the map it represents returns. -/
theorem Represents.exec_fst {storage : InMemoryStorage} {map : TaskMap}
    (hrep : Represents storage map) (call : StorageCall) :
    (storage.exec call).1 = resultOn map call := by
  cases call with
  | createTask payload => exact hrep.createTask_fst payload
  | getTask index => exact hrep.getTask index
  | deleteTask index => rfl
  | getTasks => exact hrep.getTasks

/-- One call keeps the refinement, unless it makes the counter wrap. -/
theorem Represents.exec {storage : InMemoryStorage} {map : TaskMap}
    (hrep : Represents storage map) (call : StorageCall)
    (hroom : map.next + (creations [call]).length < sizeLimit) :
    Represents (storage.exec call).2 (applyCall map call) := by
  cases call with
  | createTask payload => exact hrep.createTask hroom payload
  | getTask index => exact hrep
  | deleteTask index => exact hrep.deleteTask index
  | getTasks => exact hrep

/-- A run of calls keeps the refinement while ids are left. -/
theorem Represents.after {calls : List StorageCall} :
    ∀ {storage : InMemoryStorage} {map : TaskMap}, Represents storage map →
      map.next + (creations calls).length < sizeLimit →
      Represents (storage.after calls) (mapAfter map calls) := by
  induction calls with
  | nil => exact fun hrep _ => hrep
  | cons call calls ih =>
      intro storage map hrep hroom
      have hsplit := congrArg List.length (creations_append [call] calls)
      rw [List.length_append] at hsplit
      change map.next + (creations ([call] ++ calls)).length < sizeLimit
        at hroom
      apply ih (hrep.exec call (by omega))
      rw [applyCall_next]
      omega

/-- The creation number `k` made a task with this payload and no later call
deleted it. -/
def Alive (calls : List StorageCall) (k : Nat) (payload : TaskPayload) :
    Prop :=
  ∃ before later, calls = before ++ .createTask payload :: later ∧
    (creations before).length = k ∧ StorageCall.deleteTask k ∉ later

/-- A longer history keeps a task alive unless it ends in its deletion, and
brings one to life only by a creation. -/
theorem alive_append_singleton {calls : List StorageCall} {call : StorageCall}
    {k : Nat} {payload : TaskPayload} :
    Alive (calls ++ [call]) k payload ↔
      (Alive calls k payload ∧ call ≠ .deleteTask k) ∨
      (call = .createTask payload ∧ (creations calls).length = k) := by
  constructor
  · rintro ⟨before, later, heq, hk, hdelete⟩
    rcases List.eq_nil_or_concat later with rfl | ⟨init, last, rfl⟩
    · obtain ⟨rfl, hcall⟩ := List.append_inj' heq rfl
      exact Or.inr ⟨List.singleton_inj.mp hcall, hk⟩
    · rw [List.concat_eq_append] at heq hdelete
      rw [← List.cons_append, ← List.append_assoc] at heq
      obtain ⟨rfl, hcall⟩ := List.append_inj' heq rfl
      obtain rfl := List.singleton_inj.mp hcall
      simp only [List.mem_append, List.mem_singleton, not_or] at hdelete
      exact Or.inl ⟨⟨before, init, rfl, hk, hdelete.1⟩, Ne.symm hdelete.2⟩
  · rintro (⟨⟨before, later, rfl, hk, hdelete⟩, hcall⟩ | ⟨rfl, hk⟩)
    · refine ⟨before, later ++ [call], by simp, hk, ?_⟩
      simp [hdelete, Ne.symm hcall]
    · exact ⟨calls, [], rfl, hk, List.not_mem_nil⟩

/-- The abstract map binds exactly the tasks that are alive. -/
theorem mapAfter_get?_iff (calls : List StorageCall) (k : Nat)
    (payload : TaskPayload) :
    (mapAfter .empty calls).get? k = some payload ↔ Alive calls k payload := by
  induction calls using List.reverseRecOn with
  | nil => simp [mapAfter, Alive]
  | append_singleton calls call ih =>
      have hnext := mapAfter_next .empty calls
      have hfold : mapAfter .empty (calls ++ [call]) =
          applyCall (mapAfter .empty calls) call := List.foldl_append ..
      rw [alive_append_singleton, hfold, ← ih]
      rw [CounterMap.empty_next, Nat.zero_add] at hnext
      cases call with
      | createTask created =>
          rw [applyCall, CounterMap.create_get?, hnext]
          by_cases hk : k = (creations calls).length
          · subst k
            simp [(mapAfter .empty calls).fresh _ (Nat.le_of_eq hnext)]
          · simp [hk, Ne.symm hk]
      | deleteTask index =>
          rw [applyCall, CounterMap.erase_get?]
          by_cases hk : k = index
          · simp [hk]
          · simp [hk, Ne.symm hk]
      | getTask index => simp [applyCall]
      | getTasks => simp [applyCall]

/-- What a call returns that follows the calls `before` in a run from the
empty storage. -/
def resultAfter (before : List StorageCall) (call : StorageCall) :
    call.Result :=
  ((InMemoryStorage.empty.after before).exec call).1

theorem represents_after {calls : List StorageCall}
    (hroom : (creations calls).length < sizeLimit) :
    Represents (InMemoryStorage.empty.after calls)
      (mapAfter .empty calls) :=
  Represents.empty.after (by simpa using hroom)

theorem resultAfter_createTask {calls : List StorageCall}
    (hroom : (creations calls).length < sizeLimit) (payload : TaskPayload) :
    resultAfter calls (.createTask payload) =
      ⟨(creations calls).length, payload⟩ := by
  have hfst := (represents_after hroom).createTask_fst payload
  rw [mapAfter_next, CounterMap.empty_next, Nat.zero_add] at hfst
  exact hfst

theorem mem_resultAfter_getTasks {calls : List StorageCall}
    (hroom : (creations calls).length < sizeLimit) (task : Task) :
    task ∈ resultAfter calls .getTasks ↔
      Alive calls task.id task.payload := by
  rw [← mapAfter_get?_iff, ← mem_tasksOf]
  change task ∈ (InMemoryStorage.empty.after calls).getTasks ↔ _
  rw [(represents_after hroom).getTasks]

theorem resultAfter_getTask {calls : List StorageCall}
    (hroom : (creations calls).length < sizeLimit) (index : Nat)
    (task : Task) :
    resultAfter calls (.getTask index) = some task ↔
      task ∈ resultAfter calls .getTasks ∧ task.id = index := by
  rw [mem_resultAfter_getTasks hroom, ← mapAfter_get?_iff]
  change (InMemoryStorage.empty.after calls).getTask index = some task ↔ _
  rw [(represents_after hroom).getTask, Option.map_eq_some_iff]
  constructor
  · rintro ⟨payload, hget, rfl⟩
    exact ⟨hget, rfl⟩
  · rintro ⟨hget, rfl⟩
    exact ⟨task.payload, hget, rfl⟩

/-- An id that was issued and then deleted is alive in no longer history. -/
theorem not_alive_of_deleted {before later : List StorageCall} {index : Nat}
    (hissued : index < (creations before).length) (payload : TaskPayload) :
    ¬ Alive (before ++ .deleteTask index :: later) index payload := by
  rw [← mapAfter_get?_iff]
  have hkeep : ∀ (calls : List StorageCall) (map : TaskMap),
      index < map.next → map.get? index = none →
      (mapAfter map calls).get? index = none := by
    intro calls
    induction calls with
    | nil => exact fun _ _ hnone => hnone
    | cons call calls ih =>
        intro map hlt hnone
        apply ih (applyCall map call) (by rw [applyCall_next]; omega)
        cases call with
        | createTask payload =>
            rw [applyCall, CounterMap.create_get?, if_neg (by omega), hnone]
        | deleteTask other =>
            rw [applyCall, CounterMap.erase_get?, hnone, ite_self]
        | getTask other => exact hnone
        | getTasks => exact hnone
  have hfold : mapAfter .empty (before ++ .deleteTask index :: later) =
      mapAfter ((mapAfter .empty before).erase index) later :=
    List.foldl_append ..
  rw [hfold, hkeep later _ (by rw [CounterMap.erase_next, mapAfter_next]; omega)
    (by rw [CounterMap.erase_get?, if_pos rfl])]
  simp

/-- A delete of an id that was not issued changes nothing. -/
theorem after_delete_unissued {calls : List StorageCall}
    (hroom : (creations calls).length < sizeLimit) {index : Nat}
    (hunissued : (creations calls).length ≤ index) :
    InMemoryStorage.empty.after (calls ++ [.deleteTask index]) =
      InMemoryStorage.empty.after calls := by
  rw [InMemoryStorage.after_append]
  apply (InMemoryStorage.deleteTask_eq_self_iff _ index).mpr
  rw [(represents_after hroom).getTask, CounterMap.fresh]
  · rfl
  · rw [mapAfter_next, CounterMap.empty_next, Nat.zero_add]
    exact hunissued

/-- A task that was deleted is neither listed nor found. -/
theorem absent_after_delete {before later : List StorageCall} {index : Nat}
    (hissued : index < (creations before).length)
    (hroom : (creations (before ++ .deleteTask index :: later)).length <
      sizeLimit) :
    resultAfter (before ++ .deleteTask index :: later) (.getTask index) = none ∧
      ∀ task ∈ resultAfter (before ++ .deleteTask index :: later) .getTasks,
        task.id ≠ index := by
  have hlisted : ∀ task ∈ resultAfter (before ++ .deleteTask index :: later)
      .getTasks, task.id ≠ index := by
    rintro task hmem rfl
    exact not_alive_of_deleted hissued task.payload
      ((mem_resultAfter_getTasks hroom task).mp hmem)
  refine ⟨?_, hlisted⟩
  cases hget : resultAfter (before ++ .deleteTask index :: later)
      (.getTask index) with
  | none => rfl
  | some task =>
      obtain ⟨hmem, hid⟩ := (resultAfter_getTask hroom index task).mp hget
      exact absurd hid (hlisted task hmem)

/-- The in-memory storage is determined by its history: ids are creation
numbers, the listing is what is alive, lookups agree with the listing, and
deletes reach only issued ids and reach them for good. -/
theorem storage_determined_by_history (calls : List StorageCall)
    (hroom : (creations calls).length < sizeLimit) :
    (∀ before payload later,
      calls = before ++ .createTask payload :: later →
      resultAfter before (.createTask payload) =
        ⟨(creations before).length, payload⟩) ∧
    LowerBound.Sorted Task.id (resultAfter calls .getTasks) ∧
    (∀ task, task ∈ resultAfter calls .getTasks ↔
      Alive calls task.id task.payload) ∧
    (∀ index task, resultAfter calls (.getTask index) = some task ↔
      task ∈ resultAfter calls .getTasks ∧ task.id = index) ∧
    (∀ before index later,
      calls = before ++ .deleteTask index :: later →
      (creations before).length ≤ index →
      InMemoryStorage.empty.after (before ++ [.deleteTask index]) =
        InMemoryStorage.empty.after before) ∧
    (∀ before index later,
      calls = before ++ .deleteTask index :: later →
      index < (creations before).length →
      resultAfter calls (.getTask index) = none ∧
      (∀ task ∈ resultAfter calls .getTasks, task.id ≠ index) ∧
      ∀ payload, (resultAfter calls (.createTask payload)).id ≠ index) := by
  refine ⟨?_, ?_, mem_resultAfter_getTasks hroom, resultAfter_getTask hroom,
    ?_, ?_⟩
  · rintro before payload later rfl
    apply resultAfter_createTask
    rw [creations_append, List.length_append] at hroom
    omega
  · have hsorted := tasksOf_sorted (mapAfter .empty calls)
    rw [← (represents_after hroom).getTasks] at hsorted
    exact hsorted
  · rintro before index later rfl hunissued
    rw [creations_append, List.length_append] at hroom
    exact after_delete_unissued (by omega) hunissued
  · rintro before index later rfl hissued
    obtain ⟨hget, hlisted⟩ := absent_after_delete hissued hroom
    refine ⟨hget, hlisted, fun payload => ?_⟩
    rw [resultAfter_createTask hroom, creations_append, List.length_append]
    exact Nat.ne_of_gt (Nat.lt_add_right _ hissued)

/-- A run with a delete in the middle, for `storage_determined_by_history`. -/
theorem storage_determined_by_history_sample :
    resultAfter [.createTask ⟨['a'], []⟩, .deleteTask 0,
        .createTask ⟨['b'], []⟩] (.getTask 1) = some ⟨1, ⟨['b'], []⟩⟩ ∧
      resultAfter [.createTask ⟨['a'], []⟩, .deleteTask 0,
        .createTask ⟨['b'], []⟩] (.getTask 0) = none := by
  obtain ⟨_, _, halive, hget, _, hdeleted⟩ := storage_determined_by_history
    [.createTask ⟨['a'], []⟩, .deleteTask 0, .createTask ⟨['b'], []⟩]
    (by decide)
  constructor
  · refine (hget 1 ⟨1, ⟨['b'], []⟩⟩).mpr ⟨(halive _).mpr ?_, rfl⟩
    exact ⟨[.createTask ⟨['a'], []⟩, .deleteTask 0], [], rfl, rfl,
      List.not_mem_nil⟩
  · exact (hdeleted [.createTask ⟨['a'], []⟩] 0 _ rfl (by decide)).1

end Backend

end JustQueueIt
