/-
Threads under a shared mutex neither race nor block each other for good: where
two are at an access both read, every access is defined, and without new calls
every run comes to an end with all calls answered.
-/
import JustQueueIt.MutexThreads
import Mathlib.Algebra.Order.BigOperators.Group.Finset
import Mathlib.Data.Fintype.Basic
import Mathlib.Order.WellFounded

universe u v w x y z

namespace SharedMutex

variable {Access : Type u} {Answer : Access → Type v} {State : Type w}
  {memory : Memory Access Answer State} {Op : Type y} {Ret : Op → Type x}
  {Thread : Type z} {guarded : Guarded memory Op Ret} {start : State}

/-- The access a thread is about to make. -/
def Threads.next (threads : Threads Answer State Ret Thread) (thread : Thread) :
    Option Access :=
  match threads.phases thread with
  | .inside _ (.access act _) => some act
  | _ => none

theorem Threads.inside_of_next {threads : Threads Answer State Ret Thread}
    {thread : Thread} {act : Access} (hnext : threads.next thread = some act) :
    ∃ op next, threads.inside thread = some ⟨op, .access act next⟩ := by
  unfold Threads.next at hnext
  split at hnext
  · rename_i op its next hphase
    obtain rfl := Option.some.inj hnext
    exact ⟨op, next, Threads.inside_of_phase hphase⟩
  · simp at hnext

section

variable [DecidableEq Thread] {labels : List (ThreadLabel Access Ret Thread)}
  {threads : Threads Answer State Ret Thread} {thread other : Thread}
  {act : Access}

theorem ThreadRun.defined (hrun : ThreadRun guarded start labels threads)
    (hnext : threads.next thread = some act) :
    memory.perform threads.state act ≠ none := by
  obtain ⟨order, hexplained⟩ := hrun.explained
  obtain ⟨op, next, hinside⟩ := Threads.inside_of_next hnext
  obtain ⟨answer, after, hperform, -⟩ := hexplained.sound.access hinside
  simp [hperform]

theorem ThreadRun.reads (hrun : ThreadRun guarded start labels threads)
    (hnext : threads.next thread = some act) (hne : other ≠ thread)
    (hother : threads.next other ≠ none) : memory.writes act = false := by
  obtain ⟨order, hexplained⟩ := hrun.explained
  obtain ⟨op, next, hinside⟩ := Threads.inside_of_next hnext
  obtain ⟨its, hits⟩ := Option.ne_none_iff_exists'.mp hother
  obtain ⟨op', next', hinside'⟩ := Threads.inside_of_next hits
  exact hexplained.sound.reads hinside hne (by simp [hinside'])

end

/-- One step that is not a new call. -/
def Quiet [DecidableEq Thread] (guarded : Guarded memory Op Ret)
    (after threads : Threads Answer State Ret Thread) : Prop :=
  ∃ label, (∀ id op, label ≠ ThreadLabel.call id op) ∧
    ThreadStep guarded threads label after

def Phase.waits : Phase Answer Ret → Nat
  | .waiting _ => 1
  | _ => 0

/-- The steps of a call that holds the mutex, or held it. -/
def Phase.work (memory : Memory Access Answer State) (state : State) :
    Phase Answer Ret → Nat
  | .inside _ code => code.steps memory state + 2
  | .left _ _ => 1
  | _ => 0

theorem Phase.work_of_outside {phase : Phase Answer Ret}
    (houtside : phase.holder = none) (state after : State) :
    phase.work memory after = phase.work memory state := by
  cases phase with
  | inside op code => simp [Phase.holder] at houtside
  | idle => rfl
  | waiting op => rfl
  | left op ret => rfl

section

variable [DecidableEq Thread] [Fintype Thread]

/-- How many calls wait for the mutex, and how much work the others have. -/
def Threads.measure (memory : Memory Access Answer State)
    (threads : Threads Answer State Ret Thread) : Nat × Nat :=
  (∑ thread, (threads.phases thread).waits,
    ∑ thread, (threads.phases thread).work memory threads.state)

theorem sum_update_lt {α : Type u} (f g : α → Nat) (phases : Thread → α)
    {thread : Thread} {phase : α} (hlt : f phase < g (phases thread))
    (hle : ∀ other, other ≠ thread → f (phases other) ≤ g (phases other)) :
    ∑ other, f (Function.update phases thread phase other) <
      ∑ other, g (phases other) := by
  apply Finset.sum_lt_sum
  · intro other _
    by_cases heq : other = thread
    · subst heq
      simpa using Nat.le_of_lt hlt
    · simpa [heq] using hle other heq
  · exact ⟨thread, Finset.mem_univ thread, by simpa using hlt⟩

theorem sum_update_eq {α : Type u} (f : α → Nat) (phases : Thread → α)
    {thread : Thread} {phase : α} (heq : f phase = f (phases thread)) :
    ∑ other, f (Function.update phases thread phase other) =
      ∑ other, f (phases other) := by
  apply Finset.sum_congr rfl
  intro other _
  by_cases hother : other = thread
  · subst hother
    simpa using heq
  · simp [hother]

variable {labels : List (ThreadLabel Access Ret Thread)}
  {order : Order Thread Op}
  {threads after : Threads Answer State Ret Thread}

/-- A thread that does not wait does some of its work. -/
theorem Threads.measure_lt {thread : Thread} {phase : Phase Answer Ret}
    {state : State} (hwaits : phase.waits = (threads.phases thread).waits)
    (hwork : phase.work memory state <
      (threads.phases thread).work memory threads.state)
    (hkeep : ∀ other, other ≠ thread →
      (threads.phases other).work memory state =
        (threads.phases other).work memory threads.state) :
    Prod.Lex (· < ·) (· < ·)
      ({ threads.set thread phase with state := state }.measure memory)
      (threads.measure memory) := by
  apply Prod.Lex.right'
  · exact Nat.le_of_eq (sum_update_eq _ _ hwaits)
  · apply sum_update_lt _ _ _ hwork
    intro other hne
    exact Nat.le_of_eq (hkeep other hne)

/-- A quiet step takes a waiting call in, or does some of the work. -/
theorem Explained.quiet_lt
    (hexplained : Explained guarded start labels order threads)
    (hquiet : Quiet guarded after threads) :
    Prod.Lex (· < ·) (· < ·) (after.measure memory)
      (threads.measure memory) := by
  obtain ⟨label, hnot, hstep⟩ := hquiet
  cases hstep with
  | call op hphase => exact absurd rfl (hnot _ op)
  | acquire hphase hfree =>
      apply Prod.Lex.left
      apply sum_update_lt
      · simp [hphase, Phase.waits]
      · intro other _
        exact Nat.le_refl _
  | access hphase hperform =>
      apply Threads.measure_lt
      · simp [hphase, Phase.waits]
      · simp [hphase, Phase.work, Code.steps_access hperform]
      · intro other hne
        by_cases hother : threads.inside other = none
        · exact Phase.work_of_outside hother _ _
        · rw [hexplained.sound.keeps (Threads.inside_of_phase hphase) hne
            hother hperform]
  | release hphase =>
      apply Threads.measure_lt
      · simp [hphase, Phase.waits]
      · simp [hphase, Phase.work]
      · intro other _
        rfl
  | answer hphase =>
      apply Threads.measure_lt
      · simp [hphase, Phase.waits]
      · simp [hphase, Phase.work]
      · intro other _
        rfl

/-- Whatever the scheduler does, the quiet steps from a reachable state come to
an end. -/
theorem ThreadRun.terminates (hrun : ThreadRun guarded start labels threads) :
    Acc (Quiet guarded) threads := by
  have hwf := WellFounded.prod_lex Nat.lt_wfRel.wf Nat.lt_wfRel.wf
  generalize hmeasure : threads.measure memory = bound
  induction bound using hwf.induction generalizing threads labels with
  | _ bound ih =>
      constructor
      intro after hquiet
      obtain ⟨order, hexplained⟩ := hrun.explained
      have hlt := hexplained.quiet_lt hquiet
      rw [hmeasure] at hlt
      obtain ⟨label, -, hstep⟩ := hquiet
      exact ih _ hlt (hrun.step hstep) rfl

end

/-- Where no quiet step is left, every call has returned. -/
theorem ThreadRun.idle_of_stuck [DecidableEq Thread]
    {labels : List (ThreadLabel Access Ret Thread)}
    {threads : Threads Answer State Ret Thread}
    (hrun : ThreadRun guarded start labels threads)
    (hstuck : ∀ after, ¬ Quiet guarded after threads) (thread : Thread) :
    threads.phases thread = .idle := by
  obtain ⟨order, hexplained⟩ := hrun.explained
  -- nobody is inside or has just left, so the mutex is free
  have hnobody : ∀ other, threads.inside other = none := by
    intro other
    cases hphase : threads.phases other with
    | inside op code =>
        cases code with
        | done ret =>
            exact absurd ⟨_, by simp, .release hphase⟩ (hstuck _)
        | access act next =>
            obtain ⟨answer, after, hperform, -⟩ :=
              hexplained.sound.access (Threads.inside_of_phase hphase)
            exact absurd ⟨_, by simp, .access hphase hperform⟩ (hstuck _)
    | idle => simp [Threads.inside, hphase, Phase.holder]
    | waiting op => simp [Threads.inside, hphase, Phase.holder]
    | left op ret => simp [Threads.inside, hphase, Phase.holder]
  have hfree := guarded.free_of_nobody hnobody
  cases hphase : threads.phases thread with
  | idle => rfl
  | waiting op =>
      exact absurd ⟨_, by simp, .acquire hphase (hfree _)⟩ (hstuck _)
  | inside op code =>
      have hnone := hnobody thread
      simp [Threads.inside, hphase, Phase.holder] at hnone
  | left op ret => exact absurd ⟨_, by simp, .answer hphase⟩ (hstuck _)

end SharedMutex
