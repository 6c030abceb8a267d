/-
Linearizable histories.  Operations carry identities; a history records when
each was invoked and what it returned, and a sequential order explains it when
an object that performs the operations in this order returns the same and no
operation is moved before one that had returned when it was invoked.
-/
import Mathlib.Data.List.Basic
import Mathlib.Data.List.Nodup

universe u v w z

namespace Linearization

/-- One element stands somewhere before another. -/
def Precedes {α : Type u} (list : List α) (first second : α) : Prop :=
  ∃ before after, list = before ++ second :: after ∧ first ∈ before

theorem Precedes.mem_left {α : Type u} {list : List α} {first second : α}
    (hprecedes : Precedes list first second) : first ∈ list := by
  obtain ⟨before, after, rfl, hmem⟩ := hprecedes
  exact List.mem_append_left _ hmem

theorem precedes_concat {α : Type u} {list : List α} {last first second : α} :
    Precedes (list ++ [last]) first second ↔
      Precedes list first second ∨ (second = last ∧ first ∈ list) := by
  constructor
  · rintro ⟨before, after, heq, hmem⟩
    rcases List.eq_nil_or_concat after with rfl | ⟨init, final, rfl⟩
    · obtain ⟨rfl, hlast⟩ := List.append_inj' heq rfl
      exact Or.inr ⟨(List.singleton_inj.mp hlast).symm, hmem⟩
    · rw [List.concat_eq_append, ← List.cons_append, ← List.append_assoc] at heq
      obtain ⟨rfl, -⟩ := List.append_inj' heq rfl
      exact Or.inl ⟨before, init, rfl, hmem⟩
  · rintro (⟨before, after, rfl, hmem⟩ | ⟨rfl, hmem⟩)
    · exact ⟨before, after ++ [last], by simp, hmem⟩
    · exact ⟨list, [], rfl, hmem⟩

/-- Two different elements stand in one order or the other. -/
theorem precedes_or_precedes {α : Type u} {list : List α} {first second : α}
    (hfirst : first ∈ list) (hsecond : second ∈ list) (hne : first ≠ second) :
    Precedes list first second ∨ Precedes list second first := by
  obtain ⟨before, after, rfl⟩ := List.append_of_mem hsecond
  rw [List.mem_append, List.mem_cons] at hfirst
  rcases hfirst with hbefore | heq | hafter
  · exact Or.inl ⟨before, after, rfl, hbefore⟩
  · exact absurd heq hne
  · obtain ⟨between, rest, rfl⟩ := List.append_of_mem hafter
    exact Or.inr ⟨before ++ second :: between, rest, by simp, by simp⟩

/-- In a list without duplicates, an element has one part before it. -/
theorem before_unique {α : Type u} {before after before' after' : List α}
    {element : α} (hnodup : (before ++ element :: after).Nodup)
    (heq : before ++ element :: after = before' ++ element :: after') :
    before = before' := by
  have hnot := List.nodup_middle.mp hnodup
  rw [List.nodup_cons, List.mem_append, not_or] at hnot
  exact ((List.append_cons_inj_of_notMem hnot.1.1 hnot.1.2).mp heq).1

theorem Precedes.mem_of_nodup {α : Type u} {before after : List α}
    {first second : α} (hnodup : (before ++ second :: after).Nodup)
    (hprecedes : Precedes (before ++ second :: after) first second) :
    first ∈ before := by
  obtain ⟨other, rest, heq, hmem⟩ := hprecedes
  rwa [before_unique hnodup heq]

variable {Id : Type u} {Op : Type v} {Ret : Type w} {State : Type z}

/-- A sequential object: what it returns, and the state it leaves. -/
structure Object (Op : Type v) (Ret : Type w) (State : Type z) where
  init : State
  apply : State → Op → Ret × State

inductive Event (Id : Type u) (Op : Type v) (Ret : Type w) where
  | invoke (id : Id) (op : Op)
  | respond (id : Id) (ret : Ret)

/-- The identities invoked in a history. -/
def invocations (history : List (Event Id Op Ret)) : List Id :=
  history.filterMap fun
    | .invoke id _ => some id
    | .respond _ _ => none

theorem mem_invocations {history : List (Event Id Op Ret)} {id : Id} :
    id ∈ invocations history ↔ ∃ op, .invoke id op ∈ history := by
  simp only [invocations, List.mem_filterMap]
  constructor
  · rintro ⟨_ | _, hmem, heq⟩
    · obtain rfl := Option.some.inj heq
      exact ⟨_, hmem⟩
    · cases heq
  · rintro ⟨op, hmem⟩
    exact ⟨_, hmem, rfl⟩

/-- An identity that was invoked once names one operation. -/
theorem invoke_unique {history : List (Event Id Op Ret)}
    (hnodup : (invocations history).Nodup) {id : Id} {op op' : Op}
    (hop : .invoke id op ∈ history) (hop' : .invoke id op' ∈ history) :
    op = op' := by
  induction history with
  | nil => cases hop
  | cons event rest ih =>
      rw [List.mem_cons] at hop hop'
      cases event with
      | respond other ret =>
          simp only [reduceCtorEq, false_or] at hop hop'
          exact ih hnodup hop hop'
      | invoke other its =>
          change (other :: invocations rest).Nodup at hnodup
          rw [List.nodup_cons, mem_invocations] at hnodup
          simp only [Event.invoke.injEq] at hop hop'
          rcases hop with ⟨rfl, rfl⟩ | hop
          · rcases hop' with ⟨-, rfl⟩ | hop'
            · rfl
            · exact absurd ⟨_, hop'⟩ hnodup.1
          · rcases hop' with ⟨rfl, rfl⟩ | hop'
            · exact absurd ⟨_, hop⟩ hnodup.1
            · exact ih hnodup.2 hop hop'

namespace Object

variable (object : Object Op Ret State)

/-- The state after operations one after the other. -/
def stateAfter (order : List (Id × Op)) : State :=
  order.foldl (fun state entry => (object.apply state entry.2).2) object.init

/-- Performed in this order, an operation returns this. -/
def Returns (order : List (Id × Op)) (id : Id) (ret : Ret) : Prop :=
  ∃ before op after, order = before ++ (id, op) :: after ∧
    (object.apply (object.stateAfter before) op).1 = ret

/-- A sequential order that explains a history. -/
structure Linearizes (history : List (Event Id Op Ret))
    (order : List (Id × Op)) : Prop where
  once : (invocations history).Nodup
  nodup : (order.map Prod.fst).Nodup
  invoked : ∀ entry ∈ order, .invoke entry.1 entry.2 ∈ history
  returned : ∀ id ret, .respond id ret ∈ history → object.Returns order id ret
  realTime : ∀ first ret second op,
    Precedes history (.respond first ret) (.invoke second op) →
    (second, op) ∈ order →
    ∃ op', Precedes order (first, op') (second, op)

theorem stateAfter_concat (order : List (Id × Op)) (entry : Id × Op) :
    object.stateAfter (order ++ [entry]) =
      (object.apply (object.stateAfter order) entry.2).2 := by
  rw [stateAfter, List.foldl_append]
  rfl

variable {object}

theorem Returns.append {order : List (Id × Op)} {id : Id} {ret : Ret}
    (hreturns : object.Returns order id ret) (more : List (Id × Op)) :
    object.Returns (order ++ more) id ret := by
  obtain ⟨before, op, after, rfl, hret⟩ := hreturns
  exact ⟨before, op, after ++ more, by simp, hret⟩

theorem Returns.mem {order : List (Id × Op)} {id : Id} {ret : Ret}
    (hreturns : object.Returns order id ret) : ∃ op, (id, op) ∈ order := by
  obtain ⟨before, op, after, rfl, -⟩ := hreturns
  exact ⟨op, List.mem_append_right _ List.mem_cons_self⟩

/-- The last operation returns what the object returns in its state. -/
theorem returns_concat (order : List (Id × Op)) (id : Id) (op : Op) :
    object.Returns (order ++ [(id, op)]) id
      (object.apply (object.stateAfter order) op).1 :=
  ⟨order, op, [], rfl, rfl⟩

namespace Linearizes

variable {history : List (Event Id Op Ret)} {order : List (Id × Op)}

theorem nil : object.Linearizes ([] : List (Event Id Op Ret)) [] where
  once := List.nodup_nil
  nodup := List.nodup_nil
  invoked _ hentry := by cases hentry
  returned _ _ hrespond := by cases hrespond
  realTime _ _ _ _ _ hmem := by cases hmem

/-- An operation with a new identity may be invoked. -/
theorem invoke (hlin : object.Linearizes history order) {id : Id}
    (hfresh : id ∉ invocations history) (op : Op) :
    object.Linearizes (history ++ [.invoke id op]) order where
  once := by
    have hlast : invocations (history ++ [.invoke id op]) =
        invocations history ++ [id] := List.filterMap_append
    rw [hlast, List.nodup_append]
    refine ⟨hlin.once, List.nodup_singleton id, ?_⟩
    rintro other hother _ hid rfl
    rw [List.mem_singleton.mp hid] at hother
    exact hfresh hother
  nodup := hlin.nodup
  invoked entry hentry := List.mem_append_left _ (hlin.invoked entry hentry)
  returned other ret hrespond := by
    simp only [List.mem_append, List.mem_singleton, reduceCtorEq, or_false]
      at hrespond
    exact hlin.returned other ret hrespond
  realTime first ret second op' hprecedes hmem := by
    rcases precedes_concat.mp hprecedes with hbefore | ⟨hlast, -⟩
    · exact hlin.realTime first ret second op' hbefore hmem
    · obtain ⟨rfl, rfl⟩ := Event.invoke.inj hlast
      exact absurd (mem_invocations.mpr ⟨_, hlin.invoked _ hmem⟩) hfresh

/-- An operation that was invoked may be performed, once. -/
theorem perform (hlin : object.Linearizes history order) {id : Id} {op : Op}
    (hinvoked : .invoke id op ∈ history) (hnew : id ∉ order.map Prod.fst) :
    object.Linearizes history (order ++ [(id, op)]) where
  once := hlin.once
  nodup := by
    rw [List.map_append, List.nodup_append]
    refine ⟨hlin.nodup, List.nodup_singleton id, ?_⟩
    rintro other hother _ hid rfl
    rw [List.map_singleton, List.mem_singleton] at hid
    rw [hid] at hother
    exact hnew hother
  invoked entry hentry := by
    rcases List.mem_append.mp hentry with hentry | hlast
    · exact hlin.invoked entry hentry
    · obtain rfl := List.mem_singleton.mp hlast
      exact hinvoked
  returned other ret hrespond := (hlin.returned other ret hrespond).append _
  realTime first ret second op' hprecedes hmem := by
    rcases List.mem_append.mp hmem with hmem | hlast
    · obtain ⟨its, hits⟩ := hlin.realTime first ret second op' hprecedes hmem
      exact ⟨its, precedes_concat.mpr (Or.inl hits)⟩
    · obtain ⟨its, hits⟩ := (hlin.returned first ret hprecedes.mem_left).mem
      exact ⟨its, precedes_concat.mpr
        (Or.inr ⟨List.mem_singleton.mp hlast, hits⟩)⟩

/-- An operation that was performed may return what it returns in the
order. -/
theorem respond (hlin : object.Linearizes history order) {id : Id} {ret : Ret}
    (hreturns : object.Returns order id ret) :
    object.Linearizes (history ++ [.respond id ret]) order where
  once := by
    have hsame : invocations (history ++ [.respond id ret]) =
        invocations history ++ [] := List.filterMap_append
    rw [hsame, List.append_nil]
    exact hlin.once
  nodup := hlin.nodup
  invoked entry hentry := List.mem_append_left _ (hlin.invoked entry hentry)
  returned other ret' hrespond := by
    rcases List.mem_append.mp hrespond with hrespond | hlast
    · exact hlin.returned other ret' hrespond
    · obtain ⟨rfl, rfl⟩ := Event.respond.inj (List.mem_singleton.mp hlast)
      exact hreturns
  realTime first ret' second op hprecedes hmem := by
    rcases precedes_concat.mp hprecedes with hbefore | ⟨hlast, -⟩
    · exact hlin.realTime first ret' second op hbefore hmem
    · cases hlast

/-- An operation that was answered stands in the order. -/
theorem mem_order (hlin : object.Linearizes history order) {id : Id} {op : Op}
    {ret : Ret} (hinvoke : .invoke id op ∈ history)
    (hrespond : .respond id ret ∈ history) : (id, op) ∈ order := by
  obtain ⟨its, hmem⟩ := (hlin.returned id ret hrespond).mem
  obtain rfl := invoke_unique hlin.once hinvoke (hlin.invoked _ hmem)
  exact hmem

/-- Where the order has it, it returns its answer. -/
theorem returns_at (hlin : object.Linearizes history order) {id : Id} {op : Op}
    {ret : Ret} (hrespond : .respond id ret ∈ history)
    {before after : List (Id × Op)}
    (horder : order = before ++ (id, op) :: after) :
    (object.apply (object.stateAfter before) op).1 = ret := by
  obtain ⟨other, its, rest, hother, hret⟩ := hlin.returned id ret hrespond
  have hits : .invoke id its ∈ history :=
    hlin.invoked (id, its) (by rw [hother]; simp)
  obtain rfl : its = op := invoke_unique hlin.once hits
    (hlin.invoked (id, op) (by rw [horder]; simp))
  have hnodup := List.Nodup.of_map _ hlin.nodup
  rw [horder] at hnodup
  rwa [before_unique hnodup (horder.symm.trans hother)]

/-- Real time puts an answered operation into the part of the order before a
later one. -/
theorem mem_before (hlin : object.Linearizes history order)
    {first second : Id} {op op' : Op} {ret : Ret}
    (hinvoke : .invoke first op ∈ history)
    (hprecedes : Precedes history (.respond first ret) (.invoke second op'))
    {before after : List (Id × Op)}
    (horder : order = before ++ (second, op') :: after) :
    (first, op) ∈ before := by
  have hmem : (second, op') ∈ order := by
    rw [horder]
    exact List.mem_append_right _ List.mem_cons_self
  obtain ⟨its, hits⟩ := hlin.realTime first ret second op' hprecedes hmem
  obtain rfl := invoke_unique hlin.once hinvoke (hlin.invoked _ hits.mem_left)
  have hnodup := List.Nodup.of_map _ hlin.nodup
  rw [horder] at hits hnodup
  exact hits.mem_of_nodup hnodup

/-- What stands before an answered operation was invoked before the answer. -/
theorem invoke_precedes (hlin : object.Linearizes history order)
    {first second : Id} {op op' : Op} {ret : Ret}
    {before after : List (Id × Op)}
    (horder : order = before ++ (second, op') :: after)
    (hmem : (first, op) ∈ before) (hrespond : .respond second ret ∈ history) :
    Precedes history (.invoke first op) (.respond second ret) := by
  have hfirst : (first, op) ∈ order := by
    rw [horder]
    exact List.mem_append_left _ hmem
  rcases precedes_or_precedes (hlin.invoked _ hfirst) hrespond (by simp) with
    hbefore | hafter
  · exact hbefore
  · -- the answer came first, so the order has the two the other way round
    obtain ⟨earlier, later, rfl⟩ := List.append_of_mem hmem
    have hsecond : (second, op') ∈ order := by
      rw [horder]
      exact List.mem_append_right _ List.mem_cons_self
    have hstands := hlin.mem_before (hlin.invoked _ hsecond) hafter
      (horder.trans (List.append_assoc earlier _ _))
    have hnodup := List.Nodup.of_map _ hlin.nodup
    rw [horder, List.append_assoc] at hnodup
    have hnot := (List.nodup_append.mp hnodup).2.2 _ hstands (second, op')
      (by simp)
    exact absurd rfl hnot

end Linearizes

end Object

end Linearization
